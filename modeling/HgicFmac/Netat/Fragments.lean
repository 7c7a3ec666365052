import HgicFmac.Lib.Fragments
import HgicFmac.Netat.Cli

/-!
# A response that comes in fragments

`netat_recv` of the library and `cli_recv_at` of the wrapper append the data of the AT responses to the caller's buffer
until a receive call gives nothing. The library does not use the size of the buffer. The wrapper leaves out a fragment
that does not fit, and takes a later one that does.

* `isAtResp`, `fragments` : the responses to a cookie, and their data in the order of arrival;
* `netatRecv` : what `netat_recv` writes; `RecvInside`, `recvInside_iff` : when it stays in the buffer;
* `cliRecvAt_eq` : the wrapper takes the fragments that fit; `TextOk`, `textOk_iff` : when its text is the start of the
  response.
-/

namespace HgicFmac.Netat
open Lib

/-! ## The responses -/

def isAtResp (cookie d : List UInt8) : Bool :=
  cmdSize ≤ recvLen d && rxDest d = cookie && rxCmd d = wnbNetatCmdAtResp

/-- The data of the responses that a receive loop gets. -/
def fragments (cookie : List UInt8) (rs : List Recv) : List (List UInt8) :=
  ((received rs).filter (isAtResp cookie)).map rxData

theorem isAtResp_iff {cookie d : List UInt8} :
    isAtResp cookie d ↔ cmdSize ≤ recvLen d ∧ rxDest d = cookie ∧ rxCmd d = wnbNetatCmdAtResp := by
  unfold isAtResp
  rw [Bool.and_eq_true, Bool.and_eq_true, decide_eq_true_iff, decide_eq_true_iff, decide_eq_true_iff, and_assoc]

theorem recvLen_of_atResp {cookie d : List UInt8} (h : isAtResp cookie d) : recvLen d ≠ 0 := by
  have hlen := (isAtResp_iff.mp h).1
  unfold cmdSize at hlen
  omega

theorem fragments_resp {cookie d : List UInt8} (h : isAtResp cookie d) (rs : List Recv) :
    fragments cookie (.datagram d :: rs) = rxData d :: fragments cookie rs := by
  unfold fragments
  rw [filter_received_cons (fun _ => recvLen_of_atResp), if_pos h, List.map_cons]

theorem fragments_other {cookie d : List UInt8} (h : ¬ isAtResp cookie d) (rs : List Recv) :
    fragments cookie (.datagram d :: rs) = if recvLen d = 0 then [] else fragments cookie rs := by
  unfold fragments
  rw [filter_received_cons (fun _ => recvLen_of_atResp), if_neg h]
  split
  · rfl
  · rfl

/-! ## The library -/

/-- What `strncpy` stores for `data`, with its length as the limit: zeros from the first 0 on. -/
def strncpyBytes (data : List UInt8) : List UInt8 := cstr data ++ List.replicate (data.length - (cstr data).length) 0

/-- `libnetat`, `off`, and the writes to `buff` so far. -/
structure RecvState where
  mgr : NetatMgr
  off : Nat
  writes : List (Nat × List UInt8)
  deriving DecidableEq, Repr

/-- The body of the loop for a datagram. Without a buffer a response is printed. -/
def netatRecvStep (buff : Bool) (st : RecvState) (d : List UInt8) : RecvState :=
  match netatRecvAct st.mgr d with
  | .select src => { st with mgr := { st.mgr with dest := src } }
  | .response data =>
    if buff then { st with off := st.off + data.length, writes := st.writes ++ [(st.off, strncpyBytes data)] } else st
  | .ignore => st

def netatRecvLoop (buff : Bool) : List Recv → RecvState → RecvState
  | [], st => st
  | .quiet :: _, st => st
  | .datagram d :: rs, st =>
    let st := netatRecvStep buff st d
    if recvLen d = 0 then st else netatRecvLoop buff rs st

def netatRecv (buff : Bool) (s : NetatMgr) (rs : List Recv) : NetatMgr × List (Nat × List UInt8) :=
  let st := netatRecvLoop buff rs ⟨s, 0, []⟩
  (st.mgr, if buff then st.writes ++ [(st.off, [0])] else st.writes)

/-- Only the `len` bytes of the buffer are written. -/
def RecvInside (buff : Bool) (len : Nat) (s : NetatMgr) (rs : List Recv) : Prop :=
  ∀ w ∈ (netatRecv buff s rs).2, w.2 = [] ∨ w.1 + w.2.length ≤ len

theorem length_strncpyBytes (data : List UInt8) : (strncpyBytes data).length = data.length := by
  have hle : (cstr data).length ≤ data.length := (List.takeWhile_prefix _).length_le
  unfold strncpyBytes
  rw [List.length_append, List.length_replicate]
  omega

theorem netatRecvAct_resp {s : NetatMgr} {d : List UInt8} (h : isAtResp s.cookie d) :
    netatRecvAct s d = .response (rxData d) := by
  obtain ⟨hlen, hdest, hcmd⟩ := isAtResp_iff.mp h
  unfold netatRecvAct
  rw [if_pos ⟨hlen, hdest⟩, hcmd, if_neg (by decide), if_pos rfl]

theorem netatRecvAct_other {s : NetatMgr} {d : List UInt8} (h : ¬ isAtResp s.cookie d) (data : List UInt8) :
    netatRecvAct s d ≠ .response data := by
  rw [isAtResp_iff] at h
  unfold netatRecvAct
  intro hact
  split at hact
  · next hfor =>
    split at hact
    · cases hact
    · split at hact
      · next hcmd => exact h ⟨hfor.1, hfor.2, hcmd⟩
      · cases hact
  · cases hact

theorem netatRecvStep_resp {st : RecvState} {d : List UInt8} (h : isAtResp st.mgr.cookie d) :
    netatRecvStep true st d =
      ⟨st.mgr, st.off + (rxData d).length, st.writes ++ [(st.off, strncpyBytes (rxData d))]⟩ := by
  unfold netatRecvStep
  rw [netatRecvAct_resp h]
  rfl

theorem netatRecvStep_other {st : RecvState} {d : List UInt8} (h : ¬ isAtResp st.mgr.cookie d) :
    ∃ mgr, netatRecvStep true st d = ⟨mgr, st.off, st.writes⟩ ∧ mgr.cookie = st.mgr.cookie := by
  unfold netatRecvStep
  cases hact : netatRecvAct st.mgr d with
  | select src => exact ⟨_, rfl, rfl⟩
  | response data => exact absurd hact (netatRecvAct_other h data)
  | ignore => exact ⟨_, rfl, rfl⟩

theorem netatRecvLoop_off (rs : List Recv) (st : RecvState) :
    (netatRecvLoop true rs st).off = st.off + (fragments st.mgr.cookie rs).flatten.length := by
  induction rs generalizing st with
  | nil => rfl
  | cons r rs ih =>
    cases r with
    | quiet => rfl
    | datagram d =>
      rw [netatRecvLoop]
      by_cases h : isAtResp st.mgr.cookie d
      · rw [netatRecvStep_resp h, fragments_resp h, if_neg (recvLen_of_atResp h), ih, List.flatten_cons,
          List.length_append, Nat.add_assoc]
      · obtain ⟨mgr, hstep, hcookie⟩ := netatRecvStep_other h
        rw [hstep, fragments_other h, ← hcookie]
        split
        · rfl
        · rw [ih]

/-- No write reaches past `off`. -/
def RecvState.Behind (st : RecvState) : Prop := ∀ w ∈ st.writes, w.1 + w.2.length ≤ st.off

theorem netatRecvStep_behind {st : RecvState} (hst : st.Behind) (d : List UInt8) :
    (netatRecvStep true st d).Behind := by
  by_cases h : isAtResp st.mgr.cookie d
  · rw [netatRecvStep_resp h]
    intro w hw
    rcases List.mem_append.mp hw with hw | hw
    · exact Nat.le_add_right_of_le (hst w hw)
    · rw [List.mem_singleton.mp hw]
      exact Nat.le_of_eq (congrArg (st.off + ·) (length_strncpyBytes _))
  · obtain ⟨mgr, hstep, -⟩ := netatRecvStep_other h
    rw [hstep]
    exact hst

theorem netatRecvLoop_behind (rs : List Recv) {st : RecvState} (hst : st.Behind) :
    (netatRecvLoop true rs st).Behind := by
  induction rs generalizing st with
  | nil => exact hst
  | cons r rs ih =>
    cases r with
    | quiet => exact hst
    | datagram d =>
      have hstep := netatRecvStep_behind hst d
      rw [netatRecvLoop]
      split
      · exact hstep
      · exact ih hstep

theorem netatRecvLoop_null (rs : List Recv) (st : RecvState) : (netatRecvLoop false rs st).writes = st.writes := by
  have hstep : ∀ st d, (netatRecvStep false st d).writes = st.writes := by
    intro st d
    unfold netatRecvStep
    cases netatRecvAct st.mgr d with
    | select src => rfl
    | response data => rfl
    | ignore => rfl
  induction rs generalizing st with
  | nil => rfl
  | cons r rs ih =>
    cases r with
    | quiet => rfl
    | datagram d =>
      rw [netatRecvLoop]
      split
      · exact hstep st d
      · rw [ih, hstep]

/-- **The buffer of `netat_recv`**: it is not left exactly when the response and its terminating zero fit. -/
theorem recvInside_iff (buff : Bool) (len : Nat) (s : NetatMgr) (rs : List Recv) :
    RecvInside buff len s rs ↔ buff = false ∨ (fragments s.cookie rs).flatten.length < len := by
  unfold RecvInside netatRecv
  cases buff with
  | false =>
    refine iff_of_true ?_ (.inl rfl)
    intro w hw
    simp only [Bool.false_eq_true, if_false, netatRecvLoop_null] at hw
    cases hw
  | true =>
    have hoff := netatRecvLoop_off rs ⟨s, 0, []⟩
    have hbehind : (netatRecvLoop true rs ⟨s, 0, []⟩).Behind := by
      apply netatRecvLoop_behind
      intro w hw
      cases hw
    dsimp only at hoff ⊢
    rw [Nat.zero_add] at hoff
    rw [if_pos rfl, ← hoff, or_iff_right (by decide)]
    constructor
    · intro h
      exact (h (_, [0]) (List.mem_append_right _ (List.mem_singleton_self _))).resolve_left (List.cons_ne_nil 0 [])
    · intro h w hw
      rcases List.mem_append.mp hw with hw | hw
      · exact .inr (Nat.le_trans (hbehind w hw) (Nat.le_of_lt h))
      · rw [List.mem_singleton.mp hw]
        exact .inr h

/-- A client with the cookie 1 2 3 4 5 6 and a device. -/
def client : NetatMgr := ⟨[2, 10, 0, 0, 0, 1], [1, 2, 3, 4, 5, 6]⟩

def atResp (data : List UInt8) : Recv :=
  .datagram (wnbNetatCmd wnbNetatCmdAtResp data.length client.cookie client.dest data)

/-- Two fragments of four bytes in a buffer of eight: the terminating zero has no room. -/
theorem recv_two_fragments : ¬ RecvInside true 8 client [atResp (bytes "+VER"), atResp (bytes ":1.0")] := by
  intro h
  have hmem : (8, [0]) ∈ (netatRecv true client [atResp (bytes "+VER"), atResp (bytes ":1.0")]).2 := by decide +kernel
  exact absurd (h _ hmem) (by decide)

/-! ## The wrapper -/

/-- `cli_recv_at` takes the fragments that fit in front of the last byte of the buffer. -/
theorem recvAtLoop_eq (s : NetatMgr) (bufsize : Nat) (rs : List Recv) (out : List UInt8) :
    recvAtLoop s bufsize rs out = out ++ kept (bufsize - 1 - out.length) (fragments s.cookie rs) := by
  induction rs generalizing out with
  | nil => exact (List.append_nil out).symm
  | cons r rs ih =>
    cases r with
    | quiet => exact (List.append_nil out).symm
    | datagram d =>
      rw [recvAtLoop]
      by_cases h : isAtResp s.cookie d
      · obtain ⟨hlen, hdest, hcmd⟩ := isAtResp_iff.mp h
        rw [if_neg (recvLen_of_atResp h), fragments_resp h, kept]
        by_cases hfit : (rxData d).length < bufsize - 1 - out.length
        · rw [if_pos hfit]
          by_cases hpos : 0 < (rxData d).length
          · rw [if_pos ⟨hlen, hdest, hcmd, hpos, by omega⟩, ih, List.append_assoc, List.length_append, Nat.sub_add_eq]
          -- a fragment of no byte is not taken, which makes no difference
          · have hnil : rxData d = [] := List.eq_nil_of_length_eq_zero (by omega)
            rw [if_neg fun hc => hpos hc.2.2.2.1, ih, hnil, List.nil_append, List.length_nil, Nat.sub_zero]
        · rw [if_neg hfit, if_neg fun hc => hfit (by omega), ih]
      · rw [fragments_other h]
        by_cases h0 : recvLen d = 0
        · rw [if_pos h0, if_pos h0, if_neg fun hc => h (isAtResp_iff.mpr ⟨hc.1, hc.2.1, hc.2.2.1⟩)]
          exact (List.append_nil out).symm
        · rw [if_neg h0, if_neg h0, if_neg fun hc => h (isAtResp_iff.mpr ⟨hc.1, hc.2.1, hc.2.2.1⟩)]
          exact ih out

theorem cliRecvAt_eq (s : NetatMgr) (bufsize : Nat) (rs : List Recv) :
    cliRecvAt s bufsize rs = kept (bufsize - 1) (fragments s.cookie rs) := recvAtLoop_eq s bufsize rs []

/-- The text ends inside the buffer, and it is a prefix of the response. -/
structure TextOk (s : NetatMgr) (bufsize : Nat) (rs : List Recv) : Prop where
  inside : (cliRecvAt s bufsize rs).length < bufsize
  start : cliRecvAt s bufsize rs <+: (fragments s.cookie rs).flatten

/-- **The text of `cli_recv_at`**: it is as it should be exactly when behind the first fragment that does not fit every
one that fits continues the text with the bytes left out. -/
theorem textOk_iff (s : NetatMgr) {bufsize : Nat} (h : 0 < bufsize) (rs : List Recv) :
    TextOk s bufsize rs ↔ Contiguous (bufsize - 1) (fragments s.cookie rs) := by
  rw [← kept_prefix_iff, ← cliRecvAt_eq]
  refine ⟨fun hok => hok.start, fun hstart => ⟨?_, hstart⟩⟩
  have hle := length_kept_le (bufsize - 1) (fragments s.cookie rs)
  rw [cliRecvAt_eq]
  omega

/-- Three fragments that fit. -/
theorem textOk_fragments : TextOk client 12 [atResp (bytes "+VER"), atResp (bytes ":1"), atResp (bytes ".0")] :=
  (textOk_iff _ (by decide) _).mpr (by decide +kernel)

/-- The second fragment does not fit and is left out, the third one is taken. -/
theorem text_hole :
    cliRecvAt client 8 [atResp (bytes "+VER"), atResp (bytes ":1.0"), atResp (bytes "OK")] = bytes "+VEROK" ∧
      ¬ TextOk client 8 [atResp (bytes "+VER"), atResp (bytes ":1.0"), atResp (bytes "OK")] := by
  refine ⟨by decide +kernel, fun h => ?_⟩
  exact absurd h.start (by decide +kernel)

end HgicFmac.Netat
