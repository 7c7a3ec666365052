import HgicFmac.Lib.Checksum
import Mathlib.Tactic.Common

/-!
# The station table of `libota.c`

* `Libota`, `Sta` : `struct libota` and `struct hgota_sta`; `libotaFindSta`, `libotaNewSta` : the entry as its index;
* `libotaAddSta`, `libotaStaNexoff`, `libotaSendFwData`, `libotaRxProc` : the operations. `libotaRxProc` reads the
  receive buffer, whatever the length of the frame;
* `InTable t mac` : the first entry with the address `mac` is an online one;
* `Entry.send`, `Entry.rxProc` : what a send and a received frame do to the entry of a station in the table.
-/

namespace HgicFmac.Hgota
open Lib

/-- The host of the tool: its byte order, and whether plain `char` is signed. -/
structure Host where
  e : Endian
  charSigned : Bool

/-- The value of `*addr` for `int8 *addr`, where `int8` is plain `char`. -/
def charVal (h : Host) (b : UInt8) : Int := if h.charSigned && 128 ≤ b.toNat then b.toNat - 256 else b.toNat

def libotaCheckSum (h : Host) (bs : List UInt8) : Nat := checkSum h.e (charVal h) bs

/-- The 6 bytes that `memcmp` compares. -/
structure Mac where
  bytes : List UInt8
  len : bytes.length = 6
  deriving DecidableEq

def otaStaCount : Nat := 32

def fwparamSize : Nat := 140

structure Sta where
  addr : Mac
  chipid : Nat
  version : Nat
  svnVersion : Nat
  online : Bool
  nextOff : Nat
  param : List UInt8
  deriving DecidableEq

def zeroMac : Mac := ⟨List.replicate 6 0, rfl⟩

def zeroSta : Sta where
  addr := zeroMac
  chipid := 0
  version := 0
  svnVersion := 0
  online := false
  nextOff := 0
  param := List.replicate fwparamSize 0

structure Libota where
  stas : List Sta
  len : stas.length = otaStaCount
  staCount : Nat

def libotaInit : Libota := ⟨List.replicate otaStaCount zeroSta, rfl, 0⟩

/-- A write through the pointer to the `i`-th entry. -/
def Libota.modify (t : Libota) (i : Nat) (f : Sta → Sta) : Libota :=
  ⟨t.stas.modify i f, by rw [List.length_modify, t.len], t.staCount⟩

/-- The first entry with the address, online or not. -/
def libotaFindSta (t : Libota) (mac : Mac) : Option Nat := t.stas.findIdx? (fun sta => sta.addr = mac)

def libotaNewSta (t : Libota) : Option Nat := t.stas.findIdx? (fun sta => !sta.online)

/-! ## The frames -/

def ethPOta : Nat := 0x4847

def ethPOtaScanReport : Nat := 3
def ethPOtaFwData : Nat := 4
def ethPOtaFwDataRespone : Nat := 5
def ethPOtaFwGetParamResp : Nat := 7
def ethPOtaFwSetParamResp : Nat := 9

def rxSrc (m : Mem) : Mac := ⟨m.read 6 6, length_read m 6 6⟩
def rxProto (m : Mem) : Nat := load16 .big m 12
def rxStype (m : Mem) : Nat := (m 14).toNat
def rxStatus (m : Mem) : Nat := (m 15).toNat

/-- `off` and `len` of `struct eth_ota_fw_data`. -/
def rxOff (m : Mem) : Nat := load32 .big m 20
def rxLen (m : Mem) : Nat := load16 .big m 28

/-- `checksum` and `param` of `struct eth_ota_fwparam_hdr`. -/
def rxChecksum (m : Mem) : Nat := load16 .big m 18
def rxParam (m : Mem) : List UInt8 := m.read 20 fwparamSize

structure FwInfo where
  chipid : Nat
  version : Nat
  svnVersion : Nat
  totLen : Nat
  deriving DecidableEq, Repr

/-- `struct eth_ota_fw_data` as it is sent: the values of its fields in network order, and the data. -/
structure FwData where
  dest : Mac
  stype : Nat
  status : Nat
  version : Nat
  off : Nat
  totLen : Nat
  len : Nat
  checksum : Nat
  chipid : Nat
  data : List UInt8
  deriving DecidableEq

/-! ## The operations -/

/-- The fields of `struct eth_ota_scan_report`, written to an entry. -/
def Sta.report (m : Mem) (sta : Sta) : Sta :=
  { sta with chipid := load16 .big m 20, version := load32 .big m 16, svnVersion := load32 .big m 24, online := true }

def libotaAddSta (t : Libota) (m : Mem) : Bool × Libota :=
  match libotaFindSta t (rxSrc m) with
  | some i => (true, t.modify i (Sta.report m))
  | none => match libotaNewSta t with
    | some i =>
      (true, { t.modify i fun _ => { zeroSta.report m with addr := rxSrc m } with staCount := t.staCount + 1 })
    | none => (false, t)

def libotaStaNexoff (t : Libota) (mac : Mac) : Nat :=
  match libotaFindSta t mac with
  | some i => (t.stas[i]?.map (·.nextOff)).getD 0
  | none => 0

/-- The offset of the station is cleared before the fragment is built; `alloc` is the result of `malloc`. -/
def libotaSendFwData (h : Host) (t : Libota) (mac : Mac) (info : FwInfo) (off : Nat) (data : List UInt8)
    (alloc : Bool) : Libota × Option FwData :=
  let t' := match libotaFindSta t mac with
    | some i => t.modify i fun sta => { sta with nextOff := 0 }
    | none => t
  (t', if alloc then some
    { dest := mac
      stype := ethPOtaFwData
      status := 0
      version := info.version
      off := off
      totLen := info.totLen
      len := data.length % 2 ^ 16
      checksum := libotaCheckSum h data
      chipid := info.chipid
      data := data } else none)

/-- `HGOTA_STATUS_*`, and 0. -/
inductive Status
  | none | newSta | fwStatus | configGot | configUpdated
  deriving DecidableEq, Repr

def libotaRxProc (h : Host) (t : Libota) (m : Mem) (len : Int) : Status × Libota :=
  if len ≤ 0 then (.none, t)
  else if rxProto m ≠ ethPOta then (.none, t)
  else
    let sta := libotaFindSta t (rxSrc m)
    if rxStype m = ethPOtaScanReport then
      let r := libotaAddSta t m
      (if r.1 then .newSta else .none, r.2)
    else if rxStype m = ethPOtaFwDataRespone then
      (.fwStatus, match sta with
        | some i => if rxStatus m ≠ 0xff then
            t.modify i fun sta => { sta with nextOff := (rxOff m + rxLen m) % 2 ^ 32 } else t
        | none => t)
    else if rxStype m = ethPOtaFwGetParamResp then
      match sta with
      | some i => if rxChecksum m = libotaCheckSum h (rxParam m) then
          (.configGot, t.modify i fun sta => { sta with param := rxParam m }) else (.none, t)
      | none => (.none, t)
    else if rxStype m = ethPOtaFwSetParamResp then
      (if sta.isSome && rxStatus m ≠ 0xff then .configUpdated else .none, t)
    else (.none, t)

/-! ## A station in the table -/

/-- The entry that `mac` is looked up to is the `i`-th one, `sta`. -/
structure Entry (t : Libota) (mac : Mac) (i : Nat) (sta : Sta) : Prop where
  find : libotaFindSta t mac = some i
  get : t.stas[i]? = some sta

def InTable (t : Libota) (mac : Mac) : Prop := ∃ i sta, Entry t mac i sta ∧ sta.online = true

theorem findSta_iff {t : Libota} {mac : Mac} {i : Nat} : libotaFindSta t mac = some i ↔
    (∃ sta, t.stas[i]? = some sta ∧ sta.addr = mac) ∧ ∀ j < i, ∀ sta, t.stas[j]? = some sta → sta.addr ≠ mac := by
  unfold libotaFindSta
  rw [List.findIdx?_eq_some_iff_getElem]
  constructor
  · rintro ⟨hi, hp, hlt⟩
    refine ⟨⟨_, List.getElem?_eq_getElem hi, of_decide_eq_true hp⟩, fun j hj sta hs ha => ?_⟩
    rw [List.getElem?_eq_getElem (Nat.lt_trans hj hi), Option.some.injEq] at hs
    exact hlt j hj (decide_eq_true (hs ▸ ha))
  · rintro ⟨⟨sta, hs, ha⟩, hlt⟩
    obtain ⟨hi, hs⟩ := List.getElem?_eq_some_iff.mp hs
    refine ⟨hi, decide_eq_true (hs ▸ ha), fun j hj hp => ?_⟩
    exact hlt j hj _ (List.getElem?_eq_getElem (Nat.lt_trans hj hi)) (of_decide_eq_true hp)

theorem exists_entry {t : Libota} {mac : Mac} {i : Nat} (h : libotaFindSta t mac = some i) :
    ∃ sta, Entry t mac i sta := by
  obtain ⟨⟨sta, hget, -⟩, -⟩ := findSta_iff.mp h
  exact ⟨sta, h, hget⟩

theorem modify_get (t : Libota) (k i : Nat) (f : Sta → Sta) :
    (t.modify k f).stas[i]? = if k = i then t.stas[i]?.map f else t.stas[i]? := by
  unfold Libota.modify
  rw [List.getElem?_modify]
  split <;> simp

section Entry
variable {t : Libota} {mac : Mac} {i : Nat} {sta : Sta}

theorem Entry.addr (he : Entry t mac i sta) : sta.addr = mac := by
  obtain ⟨⟨x, hx, ha⟩, -⟩ := findSta_iff.mp he.find
  rw [he.get, Option.some.injEq] at hx
  exact hx ▸ ha

theorem Entry.nexoff (he : Entry t mac i sta) : libotaStaNexoff t mac = sta.nextOff := by
  simp [libotaStaNexoff, he.find, he.get]

theorem Entry.modify_self (he : Entry t mac i sta) {f : Sta → Sta} (haddr : (f sta).addr = sta.addr) :
    Entry (t.modify i f) mac i (f sta) := by
  have hget : (t.modify i f).stas[i]? = some (f sta) := by rw [modify_get, if_pos rfl, he.get, Option.map_some]
  refine ⟨findSta_iff.mpr ⟨⟨f sta, hget, haddr.trans he.addr⟩, fun j hj x hx => ?_⟩, hget⟩
  rw [modify_get, if_neg (by omega)] at hx
  exact (findSta_iff.mp he.find).2 j hj x hx

theorem Entry.modify_ne (he : Entry t mac i sta) {k : Nat} {f : Sta → Sta} (hk : k ≠ i)
    (hf : ∀ x, t.stas[k]? = some x → (f x).addr = x.addr ∨ (f x).addr ≠ mac) : Entry (t.modify k f) mac i sta := by
  have hget : (t.modify k f).stas[i]? = some sta := by rw [modify_get, if_neg hk, he.get]
  refine ⟨findSta_iff.mpr ⟨⟨sta, hget, he.addr⟩, fun j hj x hx => ?_⟩, hget⟩
  rw [modify_get] at hx
  split at hx
  · next hkj =>
    obtain ⟨y, hy, rfl⟩ := Option.map_eq_some_iff.mp hx
    rcases hf y (hkj ▸ hy) with h | h
    · rw [h]
      exact (findSta_iff.mp he.find).2 j hj y hy
    · exact h
  · exact (findSta_iff.mp he.find).2 j hj x hx

theorem Entry.find_ne (he : Entry t mac i sta) {src : Mac} {k : Nat} (hk : libotaFindSta t src = some k)
    (hne : src ≠ mac) : k ≠ i := by
  rintro rfl
  obtain ⟨⟨x, hx, ha⟩, -⟩ := findSta_iff.mp hk
  rw [he.get, Option.some.injEq] at hx
  exact hne (ha.symm.trans ((congrArg Sta.addr hx.symm).trans he.addr))

theorem Entry.modify_find (he : Entry t mac i sta) {src : Mac} {k : Nat} (hk : libotaFindSta t src = some k)
    {f : Sta → Sta} (haddr : ∀ x, (f x).addr = x.addr) :
    Entry (t.modify k f) mac i (if src = mac then f sta else sta) := by
  by_cases hs : src = mac
  · have hki : k = i := Option.some.inj (hk.symm.trans (hs ▸ he.find))
    rw [if_pos hs, hki]
    exact he.modify_self (haddr sta)
  · rw [if_neg hs]
    exact he.modify_ne (he.find_ne hk hs) fun x _ => .inl (haddr x)

theorem Entry.addSta (he : Entry t mac i sta) (hon : sta.online = true) (m : Mem) :
    Entry (libotaAddSta t m).2 mac i (if rxSrc m = mac then sta.report m else sta) := by
  unfold libotaAddSta
  split
  · next k hk => exact he.modify_find hk fun _ => rfl
  · next hk =>
    have hne : rxSrc m ≠ mac := by
      intro hs
      rw [hs, he.find] at hk
      cases hk
    rw [if_neg hne]
    split
    · next k hk =>
      -- the entry that is taken is offline, so it is not that of the station
      have hki : k ≠ i := by
        rintro rfl
        obtain ⟨hlt, hp, -⟩ := List.findIdx?_eq_some_iff_getElem.mp hk
        have hget := List.getElem?_eq_getElem hlt
        rw [he.get, Option.some.injEq] at hget
        rw [← hget, hon] at hp
        cases hp
      have hmod := he.modify_ne (f := fun _ => { zeroSta.report m with addr := rxSrc m }) hki fun _ _ => .inr hne
      exact ⟨hmod.find, hmod.get⟩
    · exact he

theorem Entry.send (he : Entry t mac i sta) (h : Host) (info : FwInfo) (off : Nat) (data : List UInt8)
    (alloc : Bool) : Entry (libotaSendFwData h t mac info off data alloc).1 mac i { sta with nextOff := 0 } := by
  unfold libotaSendFwData
  rw [he.find]
  exact he.modify_self rfl

/-- The frame is a response of the station to a fragment. -/
def Answers (mac : Mac) (m : Mem) (len : Int) : Prop :=
  0 < len ∧ rxProto m = ethPOta ∧ rxStype m = ethPOtaFwDataRespone ∧ rxSrc m = mac

instance (mac : Mac) (m : Mem) (len : Int) : Decidable (Answers mac m len) :=
  inferInstanceAs (Decidable (_ ∧ _ ∧ _ ∧ _))

/-- The frame is a response of the station that does not reject the fragment. -/
def Acks (mac : Mac) (m : Mem) (len : Int) : Prop := Answers mac m len ∧ rxStatus m ≠ 0xff

instance (mac : Mac) (m : Mem) (len : Int) : Decidable (Acks mac m len) := inferInstanceAs (Decidable (_ ∧ _))

theorem Entry.rxProc_acks (he : Entry t mac i sta) (h : Host) {m : Mem} {len : Int} (ha : Acks mac m len) :
    Entry (libotaRxProc h t m len).2 mac i { sta with nextOff := (rxOff m + rxLen m) % 2 ^ 32 } := by
  obtain ⟨⟨hlen, hproto, hstype, hsrc⟩, hstatus⟩ := ha
  unfold libotaRxProc
  rw [if_neg (Int.not_le.mpr hlen), if_neg (not_not.mpr hproto), if_neg (by rw [hstype]; decide), if_pos hstype, hsrc,
    he.find]
  dsimp only
  rw [if_pos hstatus]
  exact he.modify_self rfl

theorem Entry.rxProc_other (he : Entry t mac i sta) (hon : sta.online = true) (h : Host) {m : Mem} {len : Int}
    (ha : ¬ Acks mac m len) : ∃ sta', Entry (libotaRxProc h t m len).2 mac i sta' ∧ sta'.online = true ∧
      sta'.nextOff = sta.nextOff := by
  have hsame : ∃ sta', Entry t mac i sta' ∧ sta'.online = true ∧ sta'.nextOff = sta.nextOff := ⟨sta, he, hon, rfl⟩
  unfold libotaRxProc
  split
  · exact hsame
  next hlen =>
  split
  · exact hsame
  next hproto =>
  dsimp only
  split
  · refine ⟨_, he.addSta hon m, ?_⟩
    split
    · exact ⟨rfl, rfl⟩
    · exact ⟨hon, rfl⟩
  split
  · next hstype =>
    split
    · next k hk =>
      split
      · next hstatus =>
        -- the response comes from another station
        have hne : rxSrc m ≠ mac := fun hsrc =>
          ha ⟨⟨Int.not_le.mp hlen, not_not.mp hproto, hstype, hsrc⟩, hstatus⟩
        exact ⟨sta, he.modify_ne (he.find_ne hk hne) fun _ _ => .inl rfl, hon, rfl⟩
      · exact hsame
    · exact hsame
  split
  · split
    · next k hk =>
      split
      · refine ⟨_, he.modify_find hk fun _ => rfl, ?_⟩
        split
        · exact ⟨hon, rfl⟩
        · exact ⟨hon, rfl⟩
      · exact hsame
    · exact hsame
  split
  · exact hsame
  · exact hsame

theorem Entry.rxProc (he : Entry t mac i sta) (hon : sta.online = true) (h : Host) (m : Mem) (len : Int) :
    ∃ sta', Entry (libotaRxProc h t m len).2 mac i sta' ∧ sta'.online = true ∧
      sta'.nextOff = if Acks mac m len then (rxOff m + rxLen m) % 2 ^ 32 else sta.nextOff := by
  by_cases ha : Acks mac m len
  · rw [if_pos ha]
    exact ⟨_, he.rxProc_acks h ha, hon, rfl⟩
  · rw [if_neg ha]
    exact he.rxProc_other hon h ha

/-- The status that resets the retry counter: any response to a fragment, of any station. -/
theorem rxProc_fwStatus (h : Host) (t : Libota) (m : Mem) (len : Int) :
    (libotaRxProc h t m len).1 = .fwStatus ↔ 0 < len ∧ rxProto m = ethPOta ∧ rxStype m = ethPOtaFwDataRespone := by
  unfold libotaRxProc
  by_cases hlen : len ≤ 0
  · rw [if_pos hlen]
    exact ⟨nofun, fun hn => absurd hn.1 (Int.not_lt.mpr hlen)⟩
  by_cases hproto : rxProto m = ethPOta
  · rw [if_neg hlen, if_neg (not_not.mpr hproto)]
    by_cases hst : rxStype m = ethPOtaFwDataRespone
    · rw [if_neg (by rw [hst]; decide), if_pos hst]
      exact ⟨fun _ => ⟨Int.not_le.mp hlen, hproto, hst⟩, fun _ => rfl⟩
    · refine ⟨fun hs => ?_, fun hn => absurd hn.2.2 hst⟩
      dsimp only at hs
      rw [if_neg hst] at hs
      split at hs
      · split at hs <;> cases hs
      · repeat' split at hs
        all_goals cases hs
  · rw [if_neg hlen, if_pos hproto]
    exact ⟨nofun, fun hn => absurd hn.2.1 hproto⟩

end Entry

end HgicFmac.Hgota
