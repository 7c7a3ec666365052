import HgicFmac.Iwpriv.Get
import HgicFmac.Iwpriv.Set
import Mathlib.Data.List.TakeWhile

/-!
# The proc file `iwpriv`

A write is a request `ifname command args`, in a kernel buffer with 32 more bytes. The answer of a get handler takes the
place of `args` there and is copied to the caller's buffer, behind the 4 bytes of the result.

* `hgicIwprivGetProc`, `dumpText` : the handlers for `get` and for a request without a space;
* `Call`, `callOf` : what the request asks for;
* `WriteEnv`, `WriteOut` : what the write does not decide, and what it does;
* `hgicfIwprivWrite`, `WriteOut.after` : the write, and the caller's buffer after it;
* `callOf_get`, `callOf_set` : where the arguments start;
* `write_back` : the bytes that are copied back, and the result.
-/

namespace HgicFmac.Iwpriv
open Lib Fwctrl

/-! ## The handlers -/

/-- The name in `field[130]`, which holds 128 bytes of the request. -/
def getField (req : List UInt8) : List UInt8 :=
  match strchr 61 (req.take 128) with
  | some (name, _) => name
  | none => cstr (req.take 128)

def findGet (field : List UInt8) : Option Getting := hgprivGets.find? fun g => bytes g.row.1 == field

/-- `hgic_iwpriv_get_proc` on the `wrqin->u.data.length` bytes of the request; `copied` is the result of
`copy_from_user`. -/
def hgicIwprivGetProc (env : GetEnv) (copied : Bool) (req : List UInt8) : GetOut :=
  if copied then
    match findGet (getField req) with
    | some g => g.row.2 env req
    | none => .quit enotsupp none
  else .quit enotsupp none

/-- Without arguments no handler is found. -/
theorem getProc_nil (env : GetEnv) (copied : Bool) : hgicIwprivGetProc env copied [] = .quit enotsupp none := by
  have hfind : findGet (getField []) = none := by decide +kernel
  unfold hgicIwprivGetProc
  rw [hfind]
  split <;> rfl

/-- `wrqin->u.data.length` after a handler. -/
def GetOut.length (out : GetOut) (length : Nat) : Nat :=
  match out.copy with
  | some c => c.copied (out.setLen.getD length)
  | none => out.setLen.getD length

def dumpText : List UInt8 :=
  bytes "\r\nset:\r\n" ++ (hgprivSets.flatMap fun s => bytes "  " ++ bytes s.row.1 ++ bytes "\r\n") ++
    bytes "get:\r\n" ++ hgprivGets.flatMap fun g => bytes "  " ++ bytes g.row.1 ++ bytes "\r\n"

/-- `snprintf` never comes to the end of its 4096 bytes. -/
theorem dumpText_length : dumpText.length = 2042 := by decide +kernel

/-! ## The request -/

/-- What a request asks for. The arguments of a `get` start at `off`. -/
inductive Call
  | dump
  | set (args : List UInt8)
  | get (off : Nat) (args : List UInt8)
  | scan (cmd : UInt8)
  | save
  | invalid
  deriving DecidableEq, Repr

/-- The call for a command; without a second space `args` is NULL, of length 0. -/
def callCmd (cmd : List UInt8) (off : Nat) (args : List UInt8) : Call :=
  if strcasecmp cmd (bytes "set") then .set args
  else if strcasecmp cmd (bytes "get") then .get off args
  else if (cmd.take 4).map lower = bytes "scan" then
    .scan (match strchr 61 cmd with
      | some (_, t) => u8 (simpleStrtol 10 t)
      | none => 1)
  else if strcasecmp cmd (bytes "save") then .save
  else .invalid

def callOf (content : List UInt8) : Call :=
  match strchr 32 content with
  | none => .dump
  | some (ifname, rest) => match strchr 32 rest with
    | some (cmd, args) => callCmd cmd (ifname.length + cmd.length + 2) args
    | none => callCmd (cstr rest) 0 []

/-- The arguments that `wrqin->u.data.length` counts. -/
def cutArgs (args : List UInt8) : List UInt8 := args.take (args.length % 2 ^ 16)

/-! ## The write -/

/-- The outcomes of `kzalloc` and `copy_from_user` for the request, of `kmalloc` in `hgic_iwpriv_dump` and in
`hgic_iwpriv_set_proc`, of `copy_from_user` there and in `hgic_iwpriv_get_proc`, and of `copy_to_user` for the answer
and for the result; `ifidx` is that of the first interface. -/
structure WriteEnv where
  set : SetEnv
  get : GetEnv
  ifidx : Nat
  alloc : Bool
  fromUser : Bool
  dumpMem : Bool
  setMem : Bool
  copied : Bool
  backToUser : Bool
  resultToUser : Bool

/-- `placed` is where in the kernel buffer a handler copies its answer, and how many bytes, `sent` what the write sends
for `set`, `scan` and `save`, `back` what is copied to `buffer + 4` and `result` the integer that is copied to
`buffer`. -/
structure WriteOut where
  ret : Int
  placed : Option (Nat × Nat)
  sent : Run (Option Msg)
  back : Option (List UInt8)
  result : Option (Run Int)

def WriteOut.fail (ret : Int) : WriteOut := ⟨ret, none, .ok none, none, none⟩

/-- The copies to the caller. -/
def WriteEnv.finish (env : WriteEnv) (count : Nat) (placed : Option (Nat × Nat)) (sent : Run (Option Msg))
    (back : Option (List UInt8)) (result : Run Int) : WriteOut :=
  if back.isSome ∧ ¬ env.backToUser then ⟨einval, placed, sent, back, none⟩
  else ⟨if env.resultToUser then count else einval, placed, sent, back, some result⟩

/-- A call that only sends a command. -/
def WriteEnv.command (env : WriteEnv) (count : Nat) (res : Run Res) : WriteOut :=
  env.finish count none ((·.sent) <$> res) none ((·.ret) <$> res)

/-- The kernel buffer, and what lies behind it. -/
def WriteEnv.buf (env : WriteEnv) (content : List UInt8) : Mem :=
  Mem.ofList (content ++ List.replicate 32 0 ++ env.get.behind)

def WriteEnv.dump (env : WriteEnv) (content : List UInt8) : WriteOut :=
  if env.dumpMem then
    let placed := dumpText.take (content.length % 2 ^ 16)
    let buf := (env.buf content).write 0 placed
    env.finish content.length (some (0, placed.length)) (.ok none)
      (some (buf.read 0 (min dumpText.length content.length))) (.ok dumpText.length)
  else env.finish content.length none (.ok none) none (.ok 0)

/-- Without an error, and if a length is left, the answer of that length is copied back. -/
def WriteEnv.answer (env : WriteEnv) (content : List UInt8) (off : Nat) (args : List UInt8) : WriteOut :=
  let out := hgicIwprivGetProc env.get env.copied (cutArgs args)
  let length := out.length (cutArgs args).length
  let buf := match out.copy with
    | some c => (env.buf content).write off (c.src.read 0 length)
    | none => env.buf content
  let placed := out.copy.map fun _ => (off, length)
  if out.ret = 0 ∧ length ≠ 0 then
    env.finish content.length placed (.ok none) (some (buf.read off (min length content.length))) (.ok length)
  else env.finish content.length placed (.ok none) none (.ok out.ret)

/-- A write of the bytes `content`. -/
def hgicfIwprivWrite (env : WriteEnv) (content : List UInt8) : WriteOut :=
  if content = [] then .fail (-1)
  else if env.alloc then
    if env.fromUser then
      match callOf content with
      | .dump => env.dump content
      | .set args =>
        env.command content.length (hgicIwprivSetProc env.set env.setMem env.copied env.ifidx (cutArgs args))
      | .get off args => env.answer content off args
      | .scan cmd => env.command content.length (.ok (hgicFwctrlSetByte env.set env.ifidx HgicCmd.scan cmd.toNat))
      | .save => env.command content.length (.ok (hgicFwctrlSetBytes env.set env.ifidx HgicCmd.saveCfg []))
      | .invalid => .fail einval
    else .fail einval
  else .fail enomem

/-- The caller's buffer, at address 0, after a write whose copies succeed. -/
def WriteOut.after (out : WriteOut) (e : Endian) (m : Mem) : Mem :=
  let m := match out.back with
    | some bs => m.write 4 bs
    | none => m
  match out.result with
  | some (.ok r) => m.write 0 (bytes32 e (r % 2 ^ 32).toNat)
  | _ => m

/-! ## Where the arguments start -/

theorem strcasecmp_length {s t : List UInt8} (hs : ∀ b ∈ s, b ≠ 0) (ht : cstr t = t) (h : strcasecmp s t = true) :
    s.length = t.length := by
  have h := eq_of_beq h
  rw [cstr_eq_self hs, ht] at h
  simpa using congrArg List.length h

theorem callCmd_get {cmd : List UInt8} {off off' : Nat} {args args' : List UInt8}
    (h : callCmd cmd off args = .get off' args') : strcasecmp cmd (bytes "get") = true ∧ off = off' ∧ args = args' := by
  unfold callCmd at h
  split at h
  · cases h
  split at h
  · next hget =>
    injection h with hoff hargs
    exact ⟨hget, hoff, hargs⟩
  split at h
  · cases h
  split at h <;> cases h

/-- The arguments of a `get` reach to the end of the request, behind the name of the interface and 5 more characters. -/
theorem callOf_get {content args : List UInt8} {off : Nat} (h : callOf content = .get off args) :
    args = [] ∨ 5 ≤ off ∧ off + args.length = content.length := by
  unfold callOf at h
  split at h
  · cases h
  next ifname rest hif =>
  split at h
  · next cmd args' hcmd =>
    obtain ⟨hget, rfl, rfl⟩ := callCmd_get h
    obtain ⟨rfl, -⟩ := strchr_eq_some_iff.mp hif
    obtain ⟨rfl, hne⟩ := strchr_eq_some_iff.mp hcmd
    have h3 : cmd.length = 3 := strcasecmp_length (fun b hb => (hne b hb).2) (by decide) hget
    right
    simp only [List.length_append, List.length_cons]
    omega
  · exact .inl (callCmd_get h).2.2.symm

theorem callOf_set {ifname : List UInt8} (h : ∀ b ∈ ifname, b ≠ 32 ∧ b ≠ 0) (args : List UInt8) :
    callOf (ifname ++ bytes " set " ++ args) = .set args := by
  have hsplit : ifname ++ bytes " set " ++ args = ifname ++ 32 :: (bytes "set" ++ 32 :: args) := by
    rw [List.append_assoc]
    rfl
  unfold callOf
  rw [hsplit, strchr_append h]
  dsimp only
  rw [strchr_append (avoids_of_all (by decide))]
  exact if_pos (by decide)

theorem cutArgs_of_lt {args : List UInt8} (h : args.length < 2 ^ 16) : cutArgs args = args := by
  unfold cutArgs
  rw [Nat.mod_eq_of_lt h, List.take_length]

/-! ## The length that a handler leaves -/

theorem cutArgs_length (args : List UInt8) :
    (cutArgs args).length ≤ args.length ∧ (cutArgs args).length < 2 ^ 16 := by
  unfold cutArgs
  rw [List.length_take]
  omega

theorem setLen_ite {p : Prop} [Decidable p] {a b : GetOut} (ha : a.setLen = none) (hb : b.setLen = none) :
    (if p then a else b).setLen = none := by
  split
  · exact ha
  · exact hb

/-- Only `hgic_iwpriv_get_scan_list` sets it before it copies. -/
theorem setLen_eq_none {g : Getting} (hg : g ≠ .scanList) (env : GetEnv) (req : List UInt8) :
    (g.row.2 env req).setLen = none := by
  cases g with
  | scanList => exact absurd rfl hg
  | staList => exact setLen_ite rfl (setLen_ite rfl (setLen_ite rfl rfl))
  | rmeshDevice => exact setLen_ite rfl (setLen_ite rfl (setLen_ite rfl rfl))
  | stainfo =>
    apply setLen_ite rfl
    split
    · rfl
    · exact setLen_ite rfl (setLen_ite rfl rfl)
  | bgrssi =>
    show (hgicIwprivGetBgrssi env req).setLen = none
    unfold hgicIwprivGetBgrssi
    split
    · rfl
    · exact setLen_ite rfl rfl
  | freqOffset =>
    show (hgicIwprivGetFreqOffset env req).setLen = none
    unfold hgicIwprivGetFreqOffset
    split <;> rfl
  | linkQuality => exact setLen_ite rfl (setLen_ite rfl rfl)
  | moduleType => exact setLen_ite rfl rfl
  | chanList => exact setLen_ite rfl rfl
  | wpaPsk => exact setLen_ite rfl rfl
  | wkdataBuff => exact setLen_ite rfl rfl
  | acsResult => exact setLen_ite rfl rfl
  | txqParam => exact setLen_ite rfl rfl
  | dhcpcResult => exact setLen_ite rfl rfl
  | _ => rfl

theorem scanList_setLen (env : GetEnv) (req : List UInt8) :
    (hgicIwprivGetScanList env req).setLen =
      if env.kmem ∧ 0 < env.status then some ((scanText env).length % 2 ^ 16) else none := by
  unfold hgicIwprivGetScanList
  split
  · next h => rw [if_neg fun h' => h h'.1]; rfl
  · next h =>
    split
    · next h' => rw [if_pos ⟨not_not.mp h, h'⟩]
    · next h' => rw [if_neg fun h'' => h' h''.2]

theorem getProc_setLen (env : GetEnv) (copied : Bool) (req : List UInt8) :
    ∀ n ∈ (hgicIwprivGetProc env copied req).setLen, n < 2 ^ 16 := by
  intro n hn
  unfold hgicIwprivGetProc at hn
  split at hn
  · split at hn
    · next g _ =>
      by_cases hg : g = .scanList
      · subst hg
        have hn : n ∈ (hgicIwprivGetScanList env req).setLen := hn
        rw [scanList_setLen] at hn
        split at hn
        · rw [← Option.some.inj hn]
          exact Nat.mod_lt _ (by decide)
        · cases hn
      · rw [setLen_eq_none hg] at hn
        cases hn
    · cases hn
  · cases hn

theorem getOut_length_le (out : GetOut) (length : Nat) : out.length length ≤ out.setLen.getD length := by
  unfold GetOut.length
  split
  · unfold Copy.copied
    omega
  · exact Nat.le_refl _

/-! ## What is copied back -/

theorem write_cases (env : WriteEnv) (content : List UInt8) :
    (∃ ret < 0, hgicfIwprivWrite env content = .fail ret) ∨ hgicfIwprivWrite env content = env.dump content ∨
      (∃ res, hgicfIwprivWrite env content = env.command content.length res) ∨
      ∃ off args, hgicfIwprivWrite env content = env.answer content off args := by
  unfold hgicfIwprivWrite
  split
  · exact .inl ⟨-1, by decide, rfl⟩
  split
  · split
    · split
      · exact .inr (.inl rfl)
      · exact .inr (.inr (.inl ⟨_, rfl⟩))
      · exact .inr (.inr (.inr ⟨_, _, rfl⟩))
      · exact .inr (.inr (.inl ⟨_, rfl⟩))
      · exact .inr (.inr (.inl ⟨_, rfl⟩))
      · exact .inl ⟨einval, by decide, rfl⟩
    · exact .inl ⟨einval, by decide, rfl⟩
  · exact .inl ⟨enomem, by decide, rfl⟩

section
variable {env : WriteEnv} {content bs : List UInt8}

theorem finish_back {count : Nat} {placed : Option (Nat × Nat)} {sent : Run (Option Msg)} {back : Option (List UInt8)}
    {result : Run Int} : (env.finish count placed sent back result).back = back := by
  unfold WriteEnv.finish
  split <;> rfl

theorem finish_result {count : Nat} {placed : Option (Nat × Nat)} {sent : Run (Option Msg)}
    {back : Option (List UInt8)} {result : Run Int} (h : 0 < (env.finish count placed sent back result).ret) :
    (env.finish count placed sent back result).result = some result := by
  unfold WriteEnv.finish at h ⊢
  split at h
  · exact absurd h (show ¬ 0 < einval by decide)
  · next hc => rw [if_neg hc]

/-- After a write that succeeds the answer has as many bytes as the result says, unless the request is shorter. -/
theorem write_back (hret : 0 < (hgicfIwprivWrite env content).ret) (h : bs ∈ (hgicfIwprivWrite env content).back) :
    ∃ n < 2 ^ 16, bs.length = min n content.length ∧ (hgicfIwprivWrite env content).result = some (.ok (n : Nat)) := by
  obtain ⟨ret, -, he⟩ | he | ⟨res, he⟩ | ⟨off, args, he⟩ := write_cases env content
  · rw [he] at h
    cases h
  · rw [he] at h hret ⊢
    unfold WriteEnv.dump at h hret ⊢
    split at h
    · next hm =>
      rw [if_pos hm] at hret ⊢
      rw [finish_back] at h
      refine ⟨dumpText.length, by rw [dumpText_length]; decide, ?_, finish_result hret⟩
      rw [← Option.some.inj h, length_read]
    · rw [finish_back] at h
      cases h
  · rw [he, WriteEnv.command, finish_back] at h
    cases h
  · rw [he] at h hret ⊢
    unfold WriteEnv.answer at h hret ⊢
    dsimp only at h hret ⊢
    split at h
    · next hc =>
      rw [if_pos hc] at hret ⊢
      rw [finish_back] at h
      refine ⟨_, ?_, ?_, finish_result hret⟩
      · have hle := getOut_length_le (hgicIwprivGetProc env.get env.copied (cutArgs args)) (cutArgs args).length
        have hset := getProc_setLen env.get env.copied (cutArgs args)
        have hcut := (cutArgs_length args).2
        apply Nat.lt_of_le_of_lt hle
        cases hs : (hgicIwprivGetProc env.get env.copied (cutArgs args)).setLen with
        | none => exact hcut
        | some n => exact hset n hs
      · rw [← Option.some.inj h, length_read]
    · rw [finish_back] at h
      cases h

end

end HgicFmac.Iwpriv
