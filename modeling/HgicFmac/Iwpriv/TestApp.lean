import HgicFmac.Iwpriv.Proc

/-!
# The proc file `iwpriv` as `test_app` uses it

* `Malloc`, `requestIn`, `request` : the bytes that `hgic_iwpriv_do` writes, from a block that may be larger than what
  was asked for, or is not;
* `hgicIwprivDoIn`, `hgicIwprivDo` : the write, and what is stored for the caller;
* `setText`, `hgicIwprivSetBytes`, `hgicIwprivGetBytes` : the requests for raw bytes;
* `rawSettings`, `set_bytes_delivered` : the settings with raw bytes, and when the device gets them;
* `get_bytes_stored` : when the caller gets all that the driver writes back.
-/

namespace HgicFmac.Iwpriv
open Lib Fwctrl

/-- The bytes of the block that `malloc(n)` returns. -/
structure Malloc where
  usable : Nat → Nat
  le_usable : ∀ n, n ≤ usable n

/-- What C promises. -/
def Malloc.exact : Malloc := ⟨id, fun _ => Nat.le_refl _⟩

/-- The command, the bytes `inp` behind it and room for `outLen` bytes. The 0 that `strcpy` stores behind the command
has to lie in the block. -/
def requestIn (a : Malloc) (cmd inp : List UInt8) (outLen : Nat) : Run (List UInt8) :=
  if cmd.length < a.usable (cmd.length + max inp.length outLen) then
    .ok (cmd ++ inp ++ List.replicate (outLen - inp.length) 0)
  else .error .overflow

/-- In a block that is no larger. With no input and no room for an answer, the 0 behind the command has none either. -/
def request (cmd inp : List UInt8) (outLen : Nat) : Run (List UInt8) :=
  if inp = [] ∧ outLen = 0 then .error .overflow else .ok (cmd ++ inp ++ List.replicate (outLen - inp.length) 0)

/-- `write` on the proc file: the result, and the memory of the buffer afterwards. -/
abbrev Sys := List UInt8 → Int × Mem

/-- The driver's. -/
def WriteEnv.sys (env : WriteEnv) : Sys := fun buff =>
  let out := hgicfIwprivWrite env buff
  (out.ret, out.after env.get.e (Mem.ofList buff))

/-- `malloc` succeeds, and the file can be opened. -/
structure User where
  malloc : Bool
  opened : Bool

def hgicIwprivWrite (user : User) (sys : Sys) (buff : List UInt8) : Int × Mem :=
  if buff = [] then (0, Mem.ofList []) else if user.opened then sys buff else (0, Mem.ofList buff)

/-- The result, the bytes that were written to the file and those stored to `out`. -/
structure DoOut where
  ret : Int
  wrote : List UInt8
  out : List UInt8
  deriving DecidableEq, Repr

/-- An answer is cut to `out_len - 1` bytes, and a 0 follows it. -/
def hgicIwprivDoIn (a : Malloc) (user : User) (e : Endian) (sys : Sys) (cmd inp : List UInt8) (outLen : Nat) :
    Run DoOut :=
  if user.malloc then do
    let buff ← requestIn a cmd inp outLen
    let wrote := if user.opened then buff else []
    let w := hgicIwprivWrite user sys buff
    if 0 < w.1 then
      let ret := toS32 (load32 e w.2 0)
      .ok ⟨ret, wrote, if 0 < ret ∧ outLen ≠ 0 then w.2.read 4 (min ret.toNat (outLen - 1)) ++ [0] else []⟩
    else .ok ⟨w.1, wrote, []⟩
  else .ok ⟨-1, [], []⟩

def hgicIwprivDo (user : User) (e : Endian) (sys : Sys) (cmd inp : List UInt8) (outLen : Nat) : Run DoOut :=
  hgicIwprivDoIn .exact user e sys cmd inp outLen

/-- `sprintf` to `cmd[128]`. -/
def cmdText (text : List UInt8) : Run (List UInt8) := if text.length < 128 then .ok text else .error .overflow

/-- `"%s set %s="`. -/
def setText (ifname name : List UInt8) : Run (List UInt8) := cmdText (ifname ++ bytes " set " ++ name ++ bytes "=")

def hgicIwprivSetBytes (user : User) (e : Endian) (sys : Sys) (ifname name data : List UInt8) : Run DoOut := do
  let cmd ← setText ifname name
  hgicIwprivDo user e sys cmd data 0

def hgicIwprivGetBytes (user : User) (e : Endian) (sys : Sys) (ifname name : List UInt8) (count : Nat) : Run DoOut := do
  let cmd ← cmdText (ifname ++ bytes " get " ++ name)
  hgicIwprivDo user e sys cmd [] count

theorem requestIn_exact (cmd inp : List UInt8) (outLen : Nat) :
    requestIn .exact cmd inp outLen = request cmd inp outLen := by
  have hroom : cmd.length < Malloc.exact.usable (cmd.length + max inp.length outLen) ↔ ¬ (inp = [] ∧ outLen = 0) := by
    rw [← List.length_eq_zero_iff]
    show _ < cmd.length + _ ↔ _
    omega
  unfold requestIn request
  rw [if_congr hroom rfl rfl, ite_not]

theorem doIn_wrote {a : Malloc} {cmd inp buff : List UInt8} {outLen : Nat} (h : requestIn a cmd inp outLen = .ok buff)
    (e : Endian) (sys : Sys) : ∃ o, hgicIwprivDoIn a ⟨true, true⟩ e sys cmd inp outLen = .ok o ∧ o.wrote = buff := by
  unfold hgicIwprivDoIn
  rw [if_pos rfl, h]
  change ∃ o, (if 0 < (hgicIwprivWrite ⟨true, true⟩ sys buff).1 then Except.ok _ else Except.ok _) = _ ∧ _
  split
  · exact ⟨_, rfl, rfl⟩
  · exact ⟨_, rfl, rfl⟩

/-! ## Raw bytes to the device -/

/-- The settings that take the value as it is, and their commands. -/
def rawSettings : List (Setting × Nat) :=
  [(.heartbeatResp, HgicCmd.setPsHeartbeatResp), (.wakeupData, HgicCmd.setPsWakeupData),
  (.custmgmt, HgicCmd.sendCustMgmt), (.mgmtframe, HgicCmd.sendMgmtframe), (.driverdata, HgicCmd.setCustDriverData),
  (.freqinfo, HgicCmd.setStaFreqinfo)]

structure WriteEnv.Succeeds (env : WriteEnv) : Prop where
  alloc : env.alloc = true
  fromUser : env.fromUser = true
  setMem : env.setMem = true
  copied : env.copied = true
  cmd : env.set.r.alloc = true

theorem rawSettings_row {s : Setting} {id : Nat} (h : (s, id) ∈ rawSettings) :
    s.row.2 = setRaw id ∧ (bytes s.row.1).length ≤ 14 := by
  simp only [rawSettings, List.mem_cons, Prod.mk.injEq, List.not_mem_nil, or_false] at h
  obtain ⟨rfl, rfl⟩ | ⟨rfl, rfl⟩ | ⟨rfl, rfl⟩ | ⟨rfl, rfl⟩ | ⟨rfl, rfl⟩ | ⟨rfl, rfl⟩ := h
  all_goals exact ⟨rfl, by decide⟩

theorem sends_of_le {r : Reply} (hr : r.alloc = true) {n : Nat} (hn : n ≤ maxCmdLen) : r.sends n = true := by
  unfold Reply.sends
  rw [hr, Bool.and_true]
  exact decide_eq_true hn

theorem setCells_some {env : SetEnv} (hr : env.r.alloc = true) (ifidx id : Nat) {v : List UInt8}
    (hv : v.length ≤ maxCmdLen) :
    ∃ ret, setCells env ifidx id (v.map some) = .ok ⟨ret, some (.cmd ifidx id v)⟩ := by
  have hnone : none ∉ v.map some := by simp
  have hget : (v.map some).map (·.getD 0) = v := by
    rw [List.map_map]
    exact List.map_id v
  refine ⟨(hgicFwctrlDoCmd env.r v.length 0).1, ?_⟩
  unfold setCells
  rw [if_neg fun h => hnone h.2, hget]
  unfold hgicFwctrlSetBytes
  rw [if_pos (sends_of_le hr hv)]

theorem setRaw_sent {env : SetEnv} (hr : env.r.alloc = true) (ifidx id : Nat) {v : List UInt8}
    (hv : v.length ≤ maxCmdLen) :
    ∃ ret, setRaw id env ifidx v = .ok ⟨ret, some (.cmd ifidx id v)⟩ := by
  have hcells : cellsAt v 0 v.length = .ok (v.map some) := by
    unfold cellsAt
    rw [if_pos (by omega), List.drop_zero, List.take_left' (List.length_map ..)]
  unfold setRaw setBytesAt
  rw [if_pos (sends_of_le hr hv), hcells]
  exact setCells_some hr ifidx id hv

/-- What the driver sends for the buffer that `hgic_iwpriv_set_bytes` writes. -/
def delivered (env : WriteEnv) (ifname : List UInt8) (s : Setting) (d : List UInt8) : Run (Option Msg) := do
  let o ← hgicIwprivSetBytes ⟨true, true⟩ env.get.e env.sys ifname (bytes s.row.1) d
  (hgicfIwprivWrite env o.wrote).sent

theorem set_wrote (env : WriteEnv) (ifname name : List UInt8) {d : List UInt8} (hpos : 1 ≤ d.length)
    (hfit : (ifname ++ bytes " set " ++ name ++ bytes "=").length < 128) :
    ∃ o, hgicIwprivSetBytes ⟨true, true⟩ env.get.e env.sys ifname name d = .ok o ∧
      o.wrote = ifname ++ bytes " set " ++ (name ++ 61 :: d) := by
  have hreq : request (ifname ++ bytes " set " ++ name ++ bytes "=") d 0 =
      .ok (ifname ++ bytes " set " ++ (name ++ 61 :: d)) := by
    have heq : bytes "=" = [61] := rfl
    unfold request
    rw [if_neg fun h => List.length_pos_iff.mp hpos h.1, Nat.zero_sub, List.replicate_zero, heq]
    simp only [List.append_assoc, List.append_nil, List.cons_append, List.nil_append]
  unfold hgicIwprivSetBytes setText cmdText
  rw [if_pos hfit]
  exact doIn_wrote ((requestIn_exact ..).trans hreq) env.get.e env.sys

theorem set_row_sent {env : WriteEnv} (henv : env.Succeeds) {ifname : List UInt8} (hif : ∀ b ∈ ifname, b ≠ 32 ∧ b ≠ 0)
    (s : Setting) {v : List UInt8} (hlen : (bytes s.row.1 ++ 61 :: v).length < 2 ^ 16) :
    (hgicfIwprivWrite env (ifname ++ bytes " set " ++ (bytes s.row.1 ++ 61 :: v))).sent =
      (·.sent) <$> s.row.2 env.set env.ifidx v := by
  have hne : ifname ++ bytes " set " ++ (bytes s.row.1 ++ 61 :: v) ≠ [] := by simp
  unfold hgicfIwprivWrite
  rw [if_neg hne, if_pos henv.alloc, if_pos henv.fromUser, callOf_set hif]
  dsimp only
  unfold hgicIwprivSetProc
  rw [cutArgs_of_lt hlen, if_pos henv.setMem, if_pos henv.copied, selectSet_row]
  rfl

theorem delivered_iff {env : WriteEnv} (henv : env.Succeeds) {ifname : List UInt8} (hif : ∀ b ∈ ifname, b ≠ 32 ∧ b ≠ 0)
    (s : Setting) {d : List UInt8} (hpos : 1 ≤ d.length) (hlen : (bytes s.row.1 ++ 61 :: d).length < 2 ^ 16) (m : Msg) :
    delivered env ifname s d = .ok (some m) ↔
      ifname.length + (bytes s.row.1).length + 7 ≤ 128 ∧ (·.sent) <$> s.row.2 env.set env.ifidx d = .ok (some m) := by
  have hcmd : (ifname ++ bytes " set " ++ bytes s.row.1 ++ bytes "=").length =
      ifname.length + (bytes s.row.1).length + 6 := by
    have h5 : (bytes " set ").length = 5 := rfl
    have h1 : (bytes "=").length = 1 := rfl
    simp only [List.length_append]
    omega
  unfold delivered
  by_cases hfit : (ifname ++ bytes " set " ++ bytes s.row.1 ++ bytes "=").length < 128
  · rw [and_iff_right (by omega)]
    obtain ⟨o, ho, hwrote⟩ := set_wrote env ifname (bytes s.row.1) hpos hfit
    rw [ho, ← set_row_sent henv hif s hlen, ← hwrote]
    exact Iff.rfl
  · refine iff_of_false ?_ fun h => hfit (by omega)
    unfold hgicIwprivSetBytes setText cmdText
    rw [if_neg hfit]
    exact nofun

theorem set_bytes_delivered {env : WriteEnv} (henv : env.Succeeds) {ifname : List UInt8}
    (hif : ∀ b ∈ ifname, b ≠ 32 ∧ b ≠ 0) {s : Setting} {id : Nat} (hs : (s, id) ∈ rawSettings) {d : List UInt8}
    (hpos : 1 ≤ d.length) (hmax : d.length ≤ 2000) :
    delivered env ifname s d = .ok (some (.cmd env.ifidx id d)) ↔
      ifname.length + (bytes s.row.1).length + 7 ≤ 128 := by
  obtain ⟨hrow, hname⟩ := rawSettings_row hs
  have hlen : (bytes s.row.1 ++ 61 :: d).length < 2 ^ 16 := by
    simp only [List.length_append, List.length_cons]
    omega
  obtain ⟨ret, hraw⟩ := setRaw_sent henv.cmd env.ifidx id hmax
  rw [delivered_iff henv hif s hpos hlen, hrow, hraw]
  exact and_iff_left rfl

/-- No allocation and no copy fails, the firmware's description is `fwinfo` and no command is answered. -/
def calmEnv (fwinfo : Mem) : WriteEnv where
  set := ⟨⟨true, true⟩, ⟨true, none⟩, true, false, 0x02000000⟩
  get := ⟨.little, true, ⟨true, none⟩, true, fwinfo, fun _ => 0, []⟩
  ifidx := 1
  alloc := true
  fromUser := true
  dumpMem := true
  setMem := true
  copied := true
  backToUser := true
  resultToUser := true

/-- A 0, a space, a comma, a `=` and a line feed. -/
theorem set_bytes_delivered_separators :
    delivered (calmEnv fun _ => 0) (bytes "hg0") .custmgmt [0, 32, 44, 61, 10] =
      .ok (some (.cmd 1 HgicCmd.sendCustMgmt [0, 32, 44, 61, 10])) :=
  (set_bytes_delivered ⟨rfl, rfl, rfl, rfl, rfl⟩ (avoids_of_all (by decide)) (by decide) (by decide) (by decide)).mpr
    (by decide)

/-- A name of 120 characters does not fit `cmd`. -/
theorem set_bytes_long_ifname :
    delivered (calmEnv fun _ => 0) (List.replicate 120 97) .custmgmt [1] ≠
      .ok (some (.cmd 1 HgicCmd.sendCustMgmt [1])) := by
  decide +kernel

/-! ## Bytes from the device -/

theorem dropLast_concat_eq_iff {bs : List UInt8} {b : UInt8} :
    bs.dropLast ++ [b] = bs ↔ bs.getLast? = some b := by
  constructor
  · intro he
    rw [← he, List.getLast?_concat]
  · intro hb
    exact List.dropLast_append_getLast? b hb

theorem after_read {out : WriteOut} {e : Endian} {m : Mem} {bs : List UInt8} {r : Int} (hback : out.back = some bs)
    (hres : out.result = some (.ok r)) {n : Nat} (hn : n ≤ bs.length) : (out.after e m).read 4 n = bs.take n := by
  unfold WriteOut.after
  rw [hback, hres]
  dsimp only
  rw [read_write_of_ge _ _ (Nat.le_of_eq (by rw [length_bytes32]))]
  have hall := read_write_self m 4 bs
  obtain ⟨k, hk⟩ := Nat.exists_eq_add_of_le hn
  rw [hk, read_add] at hall
  have htake := congrArg (List.take n) hall
  rwa [List.take_left' (length_read ..)] at htake

theorem after_result {out : WriteOut} {e : Endian} {m : Mem} {n : Nat} (hn : n < 2 ^ 16)
    (hres : out.result = some (.ok n)) : toS32 (load32 e (out.after e m) 0) = n := by
  unfold WriteOut.after
  rw [hres]
  dsimp only
  rw [load32_write]
  unfold toS32
  omega

theorem write_sys {user : User} {sys : Sys} {buff : List UInt8} (h : 0 < (hgicIwprivWrite user sys buff).1) :
    user.opened = true ∧ hgicIwprivWrite user sys buff = sys buff := by
  unfold hgicIwprivWrite at h ⊢
  split at h
  · exact absurd h (Int.lt_irrefl 0)
  · next hne =>
    rw [if_neg hne]
    split at h
    · next ho => exact ⟨ho, if_pos ho⟩
    · exact absurd h (Int.lt_irrefl 0)

theorem request_length {cmd inp buff : List UInt8} {outLen : Nat} (h : request cmd inp outLen = .ok buff) :
    outLen ≤ buff.length := by
  unfold request at h
  split at h
  · cases h
  · rw [← Except.ok.inj h]
    simp only [List.length_append, List.length_replicate]
    omega

/-- A positive result comes from a write. -/
theorem do_stored {user : User} {e : Endian} {sys : Sys} {cmd inp : List UInt8} {outLen k : Nat} {o : DoOut}
    (hdo : hgicIwprivDo user e sys cmd inp outLen = .ok o) (hret : o.ret = k) (hpos : 0 < k) (hle : k ≤ outLen) :
    outLen ≤ o.wrote.length ∧ 0 < (sys o.wrote).1 ∧ toS32 (load32 e (sys o.wrote).2 0) = k ∧
      o.out = (sys o.wrote).2.read 4 (min k (outLen - 1)) ++ [0] := by
  unfold hgicIwprivDo hgicIwprivDoIn at hdo
  rw [requestIn_exact] at hdo
  split at hdo
  · cases hreq : request cmd inp outLen with
    | error f =>
      rw [hreq] at hdo
      cases hdo
    | ok buff =>
      rw [hreq] at hdo
      change (if 0 < (hgicIwprivWrite user sys buff).1 then Except.ok _ else Except.ok _) = _ at hdo
      split at hdo
      · next hw =>
        obtain ⟨hopen, hsys⟩ := write_sys hw
        rw [← Except.ok.inj hdo] at hret ⊢
        rw [hsys] at hw hret ⊢
        dsimp only at hret ⊢
        rw [hret, if_pos hopen, if_pos ⟨by omega, by omega⟩, Int.toNat_natCast]
        exact ⟨request_length hreq, hw, hret, rfl⟩
      · rw [← Except.ok.inj hdo] at hret
        dsimp only at hret
        omega
  · rw [← Except.ok.inj hdo] at hret
    dsimp only at hret
    omega

/-- The last of `outLen` bytes is replaced by a 0. -/
theorem get_bytes_stored (user : User) (env : WriteEnv) {cmd inp : List UInt8} {outLen k : Nat} {o : DoOut}
    (hdo : hgicIwprivDo user env.get.e env.sys cmd inp outLen = .ok o) (hret : o.ret = k) (hpos : 0 < k)
    (hle : k ≤ outLen) :
    (∀ bs ∈ (hgicfIwprivWrite env o.wrote).back, o.out.take k = bs) ↔
      k < outLen ∨ ∀ bs ∈ (hgicfIwprivWrite env o.wrote).back, bs.getLast? = some 0 := by
  obtain ⟨hbuff, hw, hk, hout⟩ := do_stored hdo hret hpos hle
  cases hb : (hgicfIwprivWrite env o.wrote).back with
  | none => exact iff_of_true nofun (.inr nofun)
  | some bs =>
    obtain ⟨n, hn, hlen, hres⟩ := write_back hw hb
    have hnk : n = k := by
      rw [WriteEnv.sys, after_result hn hres] at hk
      exact Int.ofNat.inj hk
    rw [hnk, Nat.min_eq_left (Nat.le_trans hle hbuff)] at hlen
    rw [WriteEnv.sys, after_read hb hres (by omega)] at hout
    simp only [Option.mem_some_iff, forall_eq']
    by_cases hlt : k < outLen
    · refine iff_of_true ?_ (.inl hlt)
      rw [hout, Nat.min_eq_left (by omega), List.take_of_length_le (Nat.le_of_eq hlen), List.take_left' hlen]
    · rw [or_iff_right hlt, ← dropLast_concat_eq_iff, List.dropLast_eq_take, hlen, hout, Nat.min_eq_right (by omega),
        show outLen - 1 = k - 1 by omega, List.take_of_length_le]
      rw [List.length_append, List.length_take, List.length_singleton]
      omega

/-- With room for 29 bytes the 28 of `struct hgic_fw_info` arrive. -/
theorem get_bytes_stored_fwinfo :
    ∃ o, hgicIwprivDo ⟨true, true⟩ .little (calmEnv fun i => UInt8.ofNat i).sys (bytes "hg0 get fwinfo") [] 29 = .ok o ∧
      o.ret = (28 : Nat) ∧
      ∀ bs ∈ (hgicfIwprivWrite (calmEnv fun i => UInt8.ofNat i) o.wrote).back, o.out.take 28 = bs := by
  have hdo : hgicIwprivDo ⟨true, true⟩ .little (calmEnv fun i => UInt8.ofNat i).sys (bytes "hg0 get fwinfo") [] 29 =
      .ok ⟨28, bytes "hg0 get fwinfo" ++ List.replicate 29 0, (List.range 28).map UInt8.ofNat ++ [0]⟩ := by
    decide +kernel
  exact ⟨_, hdo, rfl, (get_bytes_stored ⟨true, true⟩ _ hdo rfl (by decide) (by decide)).mpr (.inl (by decide))⟩

/-- `hgic_iwpriv_get_fwinfo` on a description whose last byte is 27. -/
theorem fwinfo_last_byte_lost :
    ∃ o, hgicIwprivGetBytes ⟨true, true⟩ .little (calmEnv fun i => UInt8.ofNat i).sys (bytes "hg0") (bytes "fwinfo") 28 =
        .ok o ∧ o.ret = (28 : Nat) ∧ o.out = (List.range 27).map UInt8.ofNat ++ [0] ∧
      (hgicfIwprivWrite (calmEnv fun i => UInt8.ofNat i) o.wrote).back = some ((List.range 28).map UInt8.ofNat) := by
  refine ⟨⟨28, bytes "hg0 get fwinfo" ++ List.replicate 28 0, (List.range 27).map UInt8.ofNat ++ [0]⟩, ?_, rfl, rfl, ?_⟩
  · decide +kernel
  · decide +kernel

end HgicFmac.Iwpriv
