import HgicFmac.Hgota.Libota
import HgicFmac.Lib.Determined

/-!
# `libota_rx_proc` and the leftovers of the receive buffer

`libota_rx_proc` gets the length of the frame and tests only that it is not zero. The fields behind a short frame hold
what an earlier frame left in the buffer.

* `SameFrame len m m'` : the same `len` received bytes; `complete m len g` : the received bytes with the leftovers `g`;
* `rxProc_scan`, `rxProc_data_some`, `rxProc_getParam_some`, `rxProc_setParam`, `rxProc_rest` : the outcome by subtype;
* `NotOta`, `Received` : a received byte that rules the protocol out, and the bytes that the subtype needs;
* `rxProc_determined_iff` : the outcome depends on received bytes alone exactly in these cases.
-/

namespace HgicFmac.Hgota
open Lib

/-- Two receive buffers with the same frame of `len` bytes. -/
def SameFrame (len : Nat) (m m' : Mem) : Prop := ∀ i < len, m i = m' i

/-- The frame of `len` bytes in `m`, with the leftovers `g` behind it. -/
def complete (m : Mem) (len : Nat) (g : Mem) : Mem := fun i => if i < len then m i else g i

theorem sameFrame_complete (m : Mem) (len : Nat) (g : Mem) : SameFrame len m (complete m len g) := by
  intro i hi
  rw [complete, if_pos hi]

theorem complete_of_le (m : Mem) {len i : Nat} (g : Mem) (h : len ≤ i) : complete m len g i = g i := by
  rw [complete, if_neg (by omega)]

def leftover (j : Nat) (b : UInt8) : Mem := fun i => if i = j then b else 0

theorem complete_leftover_ne (m : Mem) (len : Nat) {i j : Nat} (h : i ≠ j) (b c : UInt8) :
    complete m len (leftover j b) i = complete m len (leftover j c) i := by
  simp only [complete, leftover, if_neg h]

theorem complete_leftover (m : Mem) {len j : Nat} (h : len < j + 1) (b : UInt8) :
    complete m len (leftover j b) j = b := by
  rw [complete_of_le m _ (by omega), leftover, if_pos rfl]

theorem load16_leftover (m : Mem) {len off : Nat} (h : len < off + 2) :
    load16 .big (complete m len (leftover (off + 1) 1)) off =
      load16 .big (complete m len (leftover (off + 1) 0)) off + 1 := by
  have hlast : ∀ b, complete m len (leftover (off + 1) b) (off + 1) = b := fun b => complete_leftover m h b
  simp only [load16, complete_leftover_ne m len (show off ≠ off + 1 by omega) 1 0, hlast]
  rfl

theorem load16_leftover_of_lt (m : Mem) (len : Nat) {off j : Nat} (h : off + 1 < j) (b c : UInt8) :
    load16 .big (complete m len (leftover j b)) off = load16 .big (complete m len (leftover j c)) off :=
  load16_congr .big (complete_leftover_ne m len (by omega) b c) (complete_leftover_ne m len (by omega) b c)

/-! ## The outcome by subtype -/

theorem rxProc_proto (h : Host) (t : Libota) {m : Mem} {len : Nat} (hproto : rxProto m ≠ ethPOta) :
    libotaRxProc h t m len = (.none, t) := by
  unfold libotaRxProc
  rw [if_pos hproto, ite_self]

section Subtype
variable (h : Host) (t : Libota) {m : Mem} {len : Nat} (hlen : 1 ≤ len) (hproto : rxProto m = ethPOta)
include hlen hproto

theorem rxProc_scan (hst : rxStype m = ethPOtaScanReport) :
    libotaRxProc h t m len = (if (libotaAddSta t m).1 then .newSta else .none, (libotaAddSta t m).2) := by
  unfold libotaRxProc
  rw [if_neg (by omega), if_neg (not_not.mpr hproto), if_pos hst]

theorem rxProc_data_none (hst : rxStype m = ethPOtaFwDataRespone) (hfind : libotaFindSta t (rxSrc m) = none) :
    libotaRxProc h t m len = (.fwStatus, t) := by
  unfold libotaRxProc
  rw [if_neg (by omega), if_neg (not_not.mpr hproto), if_neg (by rw [hst]; decide), if_pos hst, hfind]

theorem rxProc_data_some (hst : rxStype m = ethPOtaFwDataRespone) {i : Nat}
    (hfind : libotaFindSta t (rxSrc m) = some i) :
    libotaRxProc h t m len = (.fwStatus, if rxStatus m ≠ 0xff then
      t.modify i fun sta => { sta with nextOff := (rxOff m + rxLen m) % 2 ^ 32 } else t) := by
  unfold libotaRxProc
  rw [if_neg (by omega), if_neg (not_not.mpr hproto), if_neg (by rw [hst]; decide), if_pos hst, hfind]

theorem rxProc_getParam_none (hst : rxStype m = ethPOtaFwGetParamResp) (hfind : libotaFindSta t (rxSrc m) = none) :
    libotaRxProc h t m len = (.none, t) := by
  unfold libotaRxProc
  rw [if_neg (by omega), if_neg (not_not.mpr hproto), if_neg (by rw [hst]; decide), if_neg (by rw [hst]; decide),
    if_pos hst, hfind]

theorem rxProc_getParam_some (hst : rxStype m = ethPOtaFwGetParamResp) {i : Nat}
    (hfind : libotaFindSta t (rxSrc m) = some i) :
    libotaRxProc h t m len = if rxChecksum m = libotaCheckSum h (rxParam m) then
      (.configGot, t.modify i fun sta => { sta with param := rxParam m }) else (.none, t) := by
  unfold libotaRxProc
  rw [if_neg (by omega), if_neg (not_not.mpr hproto), if_neg (by rw [hst]; decide), if_neg (by rw [hst]; decide),
    if_pos hst, hfind]

theorem rxProc_setParam (hst : rxStype m = ethPOtaFwSetParamResp) :
    libotaRxProc h t m len =
      (if (libotaFindSta t (rxSrc m)).isSome && rxStatus m ≠ 0xff then .configUpdated else .none, t) := by
  unfold libotaRxProc
  rw [if_neg (by omega), if_neg (not_not.mpr hproto), if_neg (by rw [hst]; decide), if_neg (by rw [hst]; decide),
    if_neg (by rw [hst]; decide), if_pos hst]

theorem rxProc_rest (h3 : rxStype m ≠ ethPOtaScanReport) (h5 : rxStype m ≠ ethPOtaFwDataRespone)
    (h7 : rxStype m ≠ ethPOtaFwGetParamResp) (h9 : rxStype m ≠ ethPOtaFwSetParamResp) :
    libotaRxProc h t m len = (.none, t) := by
  unfold libotaRxProc
  rw [if_neg (by omega), if_neg (not_not.mpr hproto), if_neg h3, if_neg h5, if_neg h7, if_neg h9]

end Subtype

/-! ## The bytes that are needed -/

/-- A received byte of the protocol field rules the protocol out. -/
def NotOta (m : Mem) (len : Nat) : Prop := 12 < len ∧ m 12 ≠ 0x48 ∨ 13 < len ∧ m 13 ≠ 0x47

/-- The frame of `len` bytes holds what its subtype is handled by: for a scan report the bytes up to the version of the
source, unless the table has no place for the station; for the response to a fragment of a known station the status,
and without an error the offset and the length; for a parameter response of a known station all parameters, unless no
leftovers can give them the checksum; for the response to new parameters the status. -/
def Received (h : Host) (t : Libota) (m : Mem) (len : Nat) : Prop :=
  let sta := libotaFindSta t (rxSrc m)
  if rxStype m = ethPOtaScanReport then 28 ≤ len ∨ sta = none ∧ libotaNewSta t = none
  else if rxStype m = ethPOtaFwDataRespone then sta = none ∨ 16 ≤ len ∧ (rxStatus m = 0xff ∨ 30 ≤ len)
  else if rxStype m = ethPOtaFwGetParamResp then
    sta = none ∨ 160 ≤ len ∨ ∀ m', SameFrame len m m' → rxChecksum m' ≠ libotaCheckSum h (rxParam m')
  else if rxStype m = ethPOtaFwSetParamResp then sta = none ∨ 16 ≤ len
  else True

/-! ## Fields that are received -/

section Same
variable {len : Nat} {m m' : Mem} (hs : SameFrame len m m')
include hs

theorem rxProto_same (h : 14 ≤ len) : rxProto m' = rxProto m :=
  load16_congr .big (hs 12 (by omega)).symm (hs 13 (by omega)).symm

theorem rxStype_same (h : 15 ≤ len) : rxStype m' = rxStype m := by
  rw [rxStype, ← hs 14 (by omega), rxStype]

theorem rxStatus_same (h : 16 ≤ len) : rxStatus m' = rxStatus m := by
  rw [rxStatus, ← hs 15 (by omega), rxStatus]

theorem rxSrc_same (h : 12 ≤ len) : rxSrc m' = rxSrc m := by
  unfold rxSrc
  congr 1
  exact read_congr fun i _ hi => (hs i (by omega)).symm

theorem header_same (h : 15 ≤ len) : rxProto m' = rxProto m ∧ rxStype m' = rxStype m ∧ rxSrc m' = rxSrc m :=
  ⟨rxProto_same hs (by omega), rxStype_same hs h, rxSrc_same hs (by omega)⟩

theorem load32_same {off : Nat} (h : off + 4 ≤ len) : load32 .big m' off = load32 .big m off := by
  have h0 : load16 .big m' off = load16 .big m off :=
    load16_congr .big (hs off (by omega)).symm (hs (off + 1) (by omega)).symm
  have h2 : load16 .big m' (off + 2) = load16 .big m (off + 2) :=
    load16_congr .big (hs (off + 2) (by omega)).symm (hs (off + 2 + 1) (by omega)).symm
  simp only [load32, h0, h2]

theorem report_same (h : 28 ≤ len) (sta : Sta) : sta.report m' = sta.report m := by
  have h20 : load16 .big m' 20 = load16 .big m 20 := load16_congr .big (hs 20 (by omega)).symm (hs 21 (by omega)).symm
  rw [Sta.report, load32_same hs (by omega), load32_same hs (by omega), h20, Sta.report]

theorem addSta_same (t : Libota) (h : 28 ≤ len) : libotaAddSta t m' = libotaAddSta t m := by
  have hreport : Sta.report m' = Sta.report m := funext (report_same hs h)
  rw [libotaAddSta, rxSrc_same hs (by omega), hreport, libotaAddSta]

theorem rxParam_same (h : 160 ≤ len) : rxParam m' = rxParam m :=
  read_congr fun i _ hi => (hs i (by unfold fwparamSize at hi; omega)).symm

end Same

theorem rxProto_of_notOta {m : Mem} {len : Nat} (h : NotOta m len) : rxProto m ≠ ethPOta := by
  have h0 := (m 12).toNat_lt
  have h1 := (m 13).toNat_lt
  have hinj : ∀ b c : UInt8, b ≠ c → b.toNat ≠ c.toNat := fun b c hne heq => hne (UInt8.toNat_inj.mp heq)
  intro hproto
  simp only [rxProto, load16, ethPOta, Nat.reduceAdd] at hproto
  obtain ⟨-, h⟩ | ⟨-, h⟩ := h
  · have : (m 12).toNat ≠ 0x48 := hinj _ _ h
    omega
  · have : (m 13).toNat ≠ 0x47 := hinj _ _ h
    omega

theorem NotOta.same {len : Nat} {m m' : Mem} (hs : SameFrame len m m') (h : NotOta m len) : NotOta m' len := by
  obtain ⟨hlen, h⟩ | ⟨hlen, h⟩ := h
  · left
    rw [← hs 12 hlen]
    exact ⟨hlen, h⟩
  · right
    rw [← hs 13 hlen]
    exact ⟨hlen, h⟩

/-- Without a byte that rules it out, the received bytes can be a frame of the protocol. -/
theorem rxProto_complete {m : Mem} {len : Nat} (h : ¬ NotOta m len) {g : Mem} (h12 : g 12 = 0x48) (h13 : g 13 = 0x47) :
    rxProto (complete m len g) = ethPOta := by
  have h0 : complete m len g 12 = 0x48 := by
    unfold complete
    split
    · by_contra hne
      exact h (.inl ⟨‹_›, hne⟩)
    · exact h12
  have h1 : complete m len g 13 = 0x47 := by
    unfold complete
    split
    · by_contra hne
      exact h (.inr ⟨‹_›, hne⟩)
    · exact h13
  simp only [rxProto, load16, h0, h1]
  rfl

/-! ## Frames that hold what they need -/

section Received
variable {h : Host} {t : Libota} {m m' : Mem} {len : Nat} (hs : SameFrame len m m') (h15 : 15 ≤ len)
  (hproto : rxProto m = ethPOta)
include hs h15 hproto

theorem rxProc_scan_same (hst : rxStype m = ethPOtaScanReport)
    (hr : 28 ≤ len ∨ libotaFindSta t (rxSrc m) = none ∧ libotaNewSta t = none) :
    libotaRxProc h t m' len = libotaRxProc h t m len := by
  obtain ⟨hproto', hst', hsrc'⟩ := header_same hs h15
  have hadd : libotaAddSta t m' = libotaAddSta t m := by
    obtain h28 | ⟨hfind, hnew⟩ := hr
    · exact addSta_same hs t h28
    · simp only [libotaAddSta, hsrc', hfind, hnew]
  rw [rxProc_scan h t (by omega) (hproto'.trans hproto) (hst'.trans hst), rxProc_scan h t (by omega) hproto hst, hadd]

theorem rxProc_data_same (hst : rxStype m = ethPOtaFwDataRespone)
    (hr : libotaFindSta t (rxSrc m) = none ∨ 16 ≤ len ∧ (rxStatus m = 0xff ∨ 30 ≤ len)) :
    libotaRxProc h t m' len = libotaRxProc h t m len := by
  obtain ⟨hproto', hst', hsrc'⟩ := header_same hs h15
  rw [hproto] at hproto'
  rw [hst] at hst'
  cases hfind : libotaFindSta t (rxSrc m) with
  | none =>
    rw [rxProc_data_none h t (by omega) hproto' hst' (by rw [hsrc', hfind]),
      rxProc_data_none h t (by omega) hproto hst hfind]
  | some i =>
    obtain ⟨h16, hfields⟩ := hr.resolve_left (by rw [hfind]; nofun)
    rw [rxProc_data_some h t (by omega) hproto' hst' (by rw [hsrc', hfind]),
      rxProc_data_some h t (by omega) hproto hst hfind, rxStatus_same hs h16]
    obtain hff | h30 := hfields
    · rw [if_neg (not_not.mpr hff), if_neg (not_not.mpr hff)]
    · have hoff : rxOff m' = rxOff m := load32_same hs (by omega)
      have hlen' : rxLen m' = rxLen m := load16_congr .big (hs 28 (by omega)).symm (hs 29 (by omega)).symm
      rw [hoff, hlen']

theorem rxProc_getParam_same (hst : rxStype m = ethPOtaFwGetParamResp)
    (hr : libotaFindSta t (rxSrc m) = none ∨ 160 ≤ len ∨
      ∀ m', SameFrame len m m' → rxChecksum m' ≠ libotaCheckSum h (rxParam m')) :
    libotaRxProc h t m' len = libotaRxProc h t m len := by
  obtain ⟨hproto', hst', hsrc'⟩ := header_same hs h15
  rw [hproto] at hproto'
  rw [hst] at hst'
  cases hfind : libotaFindSta t (rxSrc m) with
  | none =>
    rw [rxProc_getParam_none h t (by omega) hproto' hst' (by rw [hsrc', hfind]),
      rxProc_getParam_none h t (by omega) hproto hst hfind]
  | some i =>
    rw [rxProc_getParam_some h t (by omega) hproto' hst' (by rw [hsrc', hfind]),
      rxProc_getParam_some h t (by omega) hproto hst hfind]
    obtain h160 | hno := hr.resolve_left (by rw [hfind]; nofun)
    · have hsum : rxChecksum m' = rxChecksum m := load16_congr .big (hs 18 (by omega)).symm (hs 19 (by omega)).symm
      rw [rxParam_same hs h160, hsum]
    · rw [if_neg (hno m' hs), if_neg (hno m fun _ _ => rfl)]

theorem rxProc_setParam_same (hst : rxStype m = ethPOtaFwSetParamResp)
    (hr : libotaFindSta t (rxSrc m) = none ∨ 16 ≤ len) : libotaRxProc h t m' len = libotaRxProc h t m len := by
  obtain ⟨hproto', hst', hsrc'⟩ := header_same hs h15
  rw [rxProc_setParam h t (by omega) (hproto'.trans hproto) (hst'.trans hst), rxProc_setParam h t (by omega) hproto hst,
    hsrc']
  obtain hnone | h16 := hr
  · rw [hnone]
    rfl
  · rw [rxStatus_same hs h16]

end Received

theorem determined_of_received {h : Host} {t : Libota} {m : Mem} {len : Nat} (h15 : 15 ≤ len)
    (hr : Received h t m len) : Determined (SameFrame len) (fun m => libotaRxProc h t m len) m := by
  intro m' hs
  show libotaRxProc h t m' len = libotaRxProc h t m len
  by_cases hproto : rxProto m = ethPOta
  · unfold Received at hr
    dsimp only at hr
    split at hr
    · next h3 => exact rxProc_scan_same hs h15 hproto h3 hr
    · next h3 =>
      split at hr
      · next h5 => exact rxProc_data_same hs h15 hproto h5 hr
      · next h5 =>
        split at hr
        · next h7 => exact rxProc_getParam_same hs h15 hproto h7 hr
        · next h7 =>
          split at hr
          · next h9 => exact rxProc_setParam_same hs h15 hproto h9 hr
          · next h9 =>
            obtain ⟨hproto', hst', -⟩ := header_same hs h15
            rw [rxProc_rest h t (by omega) (hproto'.trans hproto) (hst' ▸ h3) (hst' ▸ h5) (hst' ▸ h7) (hst' ▸ h9),
              rxProc_rest h t (by omega) hproto h3 h5 h7 h9]
  · have hproto' := rxProto_same hs (by omega)
    rw [rxProc_proto h t (hproto' ▸ hproto), rxProc_proto h t hproto]

/-! ## Frames that leave a choice to the leftovers -/

/-- Two writes to an entry that give it different contents give different tables. -/
theorem modify_ne_modify {t : Libota} {i : Nat} {sta : Sta} (hget : t.stas[i]? = some sta) {f g : Sta → Sta}
    (hne : f sta ≠ g sta) : (t.modify i f).stas ≠ (t.modify i g).stas := by
  intro heq
  have hget' := congrArg (fun stas : List Sta => stas[i]?) heq
  simp only [modify_get, if_true, hget, Option.map_some, Option.some.injEq] at hget'
  exact hne hget'

section Missing
variable {h : Host} {t : Libota} {m : Mem} {len : Nat}

/-- The header ends before the subtype: the leftovers choose it. -/
theorem not_determined_header (hlen : 1 ≤ len) (h14 : len ≤ 14) (hno : ¬ NotOta m len) :
    ¬ Determined (SameFrame len) (fun m => libotaRxProc h t m len) m := by
  intro hd
  let g (stype : UInt8) : Mem := fun i => if i = 12 then 0x48 else if i = 13 then 0x47 else if i = 14 then stype else 0
  have hproto : ∀ b, rxProto (complete m len (g b)) = ethPOta := fun b => rxProto_complete hno rfl rfl
  have hstype : ∀ b : UInt8, rxStype (complete m len (g b)) = b.toNat := by
    intro b
    rw [rxStype, complete_of_le m (g b) h14]
    rfl
  have hst0 := hstype 0
  have h5 : (libotaRxProc h t (complete m len (g 5)) len).1 = .fwStatus := by
    rw [rxProc_fwStatus]
    exact ⟨by omega, hproto 5, hstype 5⟩
  have heq := hd.eq_of_same (sameFrame_complete m len (g 5)) (sameFrame_complete m len (g 0))
  rw [heq, rxProc_rest h t hlen (hproto 0) (by rw [hst0]; decide) (by rw [hst0]; decide) (by rw [hst0]; decide)
    (by rw [hst0]; decide)] at h5
  cases h5

variable (h15 : 15 ≤ len) (hproto : rxProto m = ethPOta)
include h15 hproto

theorem header_complete (g : Mem) : rxProto (complete m len g) = ethPOta ∧ rxStype (complete m len g) = rxStype m ∧
    rxSrc (complete m len g) = rxSrc m := by
  obtain ⟨hp, hst, hsrc⟩ := header_same (sameFrame_complete m len g) h15
  exact ⟨hp.trans hproto, hst, hsrc⟩

theorem not_determined_scan (hst : rxStype m = ethPOtaScanReport) (h28 : len < 28)
    (hplace : ¬ (libotaFindSta t (rxSrc m) = none ∧ libotaNewSta t = none)) :
    ¬ Determined (SameFrame len) (fun m => libotaRxProc h t m len) m := by
  intro hd
  have hsvn : load32 .big (complete m len (leftover 27 0)) 24 ≠ load32 .big (complete m len (leftover 27 1)) 24 := by
    have hhigh := load16_leftover_of_lt m len (show 24 + 1 < 27 by decide) 0 1
    have hlow : load16 .big (complete m len (leftover 27 1)) (24 + 2) =
        load16 .big (complete m len (leftover 27 0)) (24 + 2) + 1 := load16_leftover m h28
    simp only [load32]
    omega
  have hstas : (libotaAddSta t (complete m len (leftover 27 0))).2.stas =
      (libotaAddSta t (complete m len (leftover 27 1))).2.stas := by
    have heq := hd.eq_of_same (sameFrame_complete m len (leftover 27 0)) (sameFrame_complete m len (leftover 27 1))
    obtain ⟨hp0, hs0, -⟩ := header_complete h15 hproto (leftover 27 0)
    obtain ⟨hp1, hs1, -⟩ := header_complete h15 hproto (leftover 27 1)
    rw [rxProc_scan h t (by omega) hp0 (hs0.trans hst), rxProc_scan h t (by omega) hp1 (hs1.trans hst)] at heq
    exact congrArg (fun r => r.2.stas) heq
  obtain ⟨-, -, hsrc0⟩ := header_complete h15 hproto (leftover 27 0)
  obtain ⟨-, -, hsrc1⟩ := header_complete h15 hproto (leftover 27 1)
  cases hfind : libotaFindSta t (rxSrc m) with
  | some i =>
    obtain ⟨sta, he⟩ := exists_entry hfind
    simp only [libotaAddSta, hsrc0, hsrc1, hfind] at hstas
    apply modify_ne_modify he.get _ hstas
    intro heq
    exact hsvn (congrArg Sta.svnVersion heq)
  | none =>
    cases hnew : libotaNewSta t with
    | some i =>
      obtain ⟨hi, -⟩ := List.findIdx?_eq_some_iff_getElem.mp hnew
      simp only [libotaAddSta, hsrc0, hsrc1, hfind, hnew] at hstas
      apply modify_ne_modify (List.getElem?_eq_getElem hi) _ hstas
      intro heq
      exact hsvn (congrArg Sta.svnVersion heq)
    | none => exact hplace ⟨hfind, hnew⟩

/-- A response of a known station without its status, or without the last byte of its length. -/
theorem not_determined_data (hst : rxStype m = ethPOtaFwDataRespone) {i : Nat}
    (hfind : libotaFindSta t (rxSrc m) = some i) (hmiss : ¬ (16 ≤ len ∧ (rxStatus m = 0xff ∨ 30 ≤ len))) :
    ¬ Determined (SameFrame len) (fun m => libotaRxProc h t m len) m := by
  intro hd
  have h30 : len < 30 := by
    by_contra hge
    exact hmiss ⟨by omega, .inr (by omega)⟩
  have hstatus : ∀ b, rxStatus (complete m len (leftover 29 b)) ≠ 0xff := by
    intro b
    by_cases h16 : 16 ≤ len
    · rw [rxStatus_same (sameFrame_complete m len (leftover 29 b)) h16]
      intro hff
      exact hmiss ⟨h16, .inl hff⟩
    · rw [rxStatus, complete_of_le m _ (by omega)]
      show (0 : UInt8).toNat ≠ 0xff
      decide
  have hoff : rxOff (complete m len (leftover 29 0)) = rxOff (complete m len (leftover 29 1)) := by
    simp only [rxOff, load32, load16_leftover_of_lt m len (show 20 + 1 < 29 by decide) 0 1,
      load16_leftover_of_lt m len (show 20 + 2 + 1 < 29 by decide) 0 1]
  have hlen : rxLen (complete m len (leftover 29 1)) = rxLen (complete m len (leftover 29 0)) + 1 :=
    load16_leftover m h30
  have heq := hd.eq_of_same (sameFrame_complete m len (leftover 29 0)) (sameFrame_complete m len (leftover 29 1))
  obtain ⟨hp0, hs0, hsrc0⟩ := header_complete h15 hproto (leftover 29 0)
  obtain ⟨hp1, hs1, hsrc1⟩ := header_complete h15 hproto (leftover 29 1)
  rw [rxProc_data_some h t (by omega) hp0 (hs0.trans hst) (by rw [hsrc0, hfind]),
    rxProc_data_some h t (by omega) hp1 (hs1.trans hst) (by rw [hsrc1, hfind]), if_pos (hstatus 0), if_pos (hstatus 1),
    Prod.mk.injEq] at heq
  obtain ⟨sta, he⟩ := exists_entry hfind
  apply modify_ne_modify he.get _ (congrArg Libota.stas heq.2)
  intro hnext
  have hnext := congrArg Sta.nextOff hnext
  rw [hoff, hlen] at hnext
  dsimp only at hnext
  omega

/-- A parameter response of a known station without its last byte, when some leftovers give it its checksum. -/
theorem not_determined_getParam (hst : rxStype m = ethPOtaFwGetParamResp) {i : Nat}
    (hfind : libotaFindSta t (rxSrc m) = some i) (h160 : len < 160) {m' : Mem} (hs : SameFrame len m m')
    (hsum : rxChecksum m' = libotaCheckSum h (rxParam m')) :
    ¬ Determined (SameFrame len) (fun m => libotaRxProc h t m len) m := by
  intro hd
  let m'' : Mem := complete m' 159 fun _ => m' 159 + 1
  have hs' : SameFrame len m m'' := by
    intro j hj
    rw [hs j hj, sameFrame_complete m' 159 _ j (by omega)]
  have hparam : rxParam m'' ≠ rxParam m' := by
    intro heq
    have hlast := congrArg (fun l : List UInt8 => l.getD 139 0) heq
    simp only [rxParam, getD_read m'' 20 (show 139 < fwparamSize by decide),
      getD_read m' 20 (show 139 < fwparamSize by decide)] at hlast
    have hbyte : m'' (20 + 139) = m' 159 + 1 := complete_of_le m' _ (Nat.le_refl 159)
    rw [hbyte] at hlast
    have hnat := congrArg UInt8.toNat hlast
    have hlt := (m' 159).toNat_lt
    rw [UInt8.toNat_add, UInt8.toNat_one] at hnat
    have h159 : (m' (20 + 139)).toNat = (m' 159).toNat := rfl
    omega
  have hout : ∀ x : Mem, SameFrame len m x → libotaRxProc h t x len =
      if rxChecksum x = libotaCheckSum h (rxParam x) then
        (.configGot, t.modify i fun sta => { sta with param := rxParam x }) else (.none, t) := by
    intro x hx
    obtain ⟨hp, hst', hsrc⟩ := header_same hx h15
    exact rxProc_getParam_some h t (by omega) (hp.trans hproto) (hst'.trans hst) (by rw [hsrc, hfind])
  have heq : libotaRxProc h t m'' len = libotaRxProc h t m' len := hd.eq_of_same hs' hs
  rw [hout m'' hs', hout m' hs, if_pos hsum] at heq
  split at heq
  · obtain ⟨sta, he⟩ := exists_entry hfind
    apply modify_ne_modify he.get _ (congrArg (fun r => r.2.stas) heq)
    intro hp
    exact hparam (congrArg Sta.param hp)
  · cases congrArg Prod.fst heq

theorem not_determined_setParam (hst : rxStype m = ethPOtaFwSetParamResp) {i : Nat}
    (hfind : libotaFindSta t (rxSrc m) = some i) (h16 : len < 16) :
    ¬ Determined (SameFrame len) (fun m => libotaRxProc h t m len) m := by
  intro hd
  have hstatus : ∀ b : UInt8, rxStatus (complete m len fun _ => b) = b.toNat := by
    intro b
    rw [rxStatus, complete_of_le m _ (by omega)]
  have heq := hd.eq_of_same (sameFrame_complete m len fun _ => 0) (sameFrame_complete m len fun _ => 0xff)
  obtain ⟨hp0, hs0, hsrc0⟩ := header_complete h15 hproto fun _ => 0
  obtain ⟨hp1, hs1, hsrc1⟩ := header_complete h15 hproto fun _ => 0xff
  rw [rxProc_setParam h t (by omega) hp0 (hs0.trans hst), rxProc_setParam h t (by omega) hp1 (hs1.trans hst), hsrc0,
    hsrc1, hfind, hstatus, hstatus] at heq
  cases congrArg Prod.fst heq

end Missing

theorem received_of_determined {h : Host} {t : Libota} {m : Mem} {len : Nat} (h15 : 15 ≤ len)
    (hproto : rxProto m = ethPOta) (hd : Determined (SameFrame len) (fun m => libotaRxProc h t m len) m) :
    Received h t m len := by
  unfold Received
  dsimp only
  split
  · next h3 =>
    by_contra hno
    rw [not_or] at hno
    exact not_determined_scan h15 hproto h3 (by omega) hno.2 hd
  split
  · next h5 =>
    cases hfind : libotaFindSta t (rxSrc m) with
    | none => exact .inl rfl
    | some i =>
      right
      by_contra hno
      exact not_determined_data h15 hproto h5 hfind hno hd
  split
  · next h7 =>
    cases hfind : libotaFindSta t (rxSrc m) with
    | none => exact .inl rfl
    | some i =>
      right
      by_cases h160 : 160 ≤ len
      · exact .inl h160
      · right
        intro m' hs hsum
        exact not_determined_getParam h15 hproto h7 hfind (by omega) hs hsum hd
  split
  · next h9 =>
    cases hfind : libotaFindSta t (rxSrc m) with
    | none => exact .inl rfl
    | some i =>
      right
      by_contra hno
      exact not_determined_setParam h15 hproto h9 hfind (by omega) hd
  · trivial

/-- **The leftovers of the buffer**: the return value and the table depend on the received bytes alone exactly when one
of them rules the protocol out, or the frame goes up to its subtype and holds what this subtype needs. -/
theorem rxProc_determined_iff (h : Host) (t : Libota) (m : Mem) (len : Nat) (h1 : 1 ≤ len) :
    Determined (SameFrame len) (fun m => libotaRxProc h t m len) m ↔
      NotOta m len ∨ 15 ≤ len ∧ Received h t m len := by
  constructor
  · intro hd
    by_cases hno : NotOta m len
    · exact .inl hno
    · right
      have h15 : 15 ≤ len := by
        by_contra hlt
        exact not_determined_header h1 (by omega) hno hd
      have hproto : rxProto m = ethPOta := by
        have hc := rxProto_complete hno (g := fun i => if i = 12 then 0x48 else 0x47) rfl rfl
        rw [rxProto_same (sameFrame_complete m len _) (by omega)] at hc
        exact hc
      exact ⟨h15, received_of_determined h15 hproto hd⟩
  · rintro (hno | ⟨h15, hr⟩)
    · intro m' hs
      show libotaRxProc h t m' len = libotaRxProc h t m len
      rw [rxProc_proto h t (rxProto_of_notOta (hno.same hs)), rxProc_proto h t (rxProto_of_notOta hno)]
    · exact determined_of_received h15 hr

/-- A scan report with the source 02:00:00:00:00:01 that ends behind `svn_version`. -/
def scanReport : Mem := Mem.ofList [255, 255, 255, 255, 255, 255, 2, 0, 0, 0, 0, 1, 0x48, 0x47, 3, 0,
  1, 0, 0, 0, 0x20, 1, 0, 0, 0, 0, 0, 9]

theorem scanReport_determined :
    Determined (SameFrame 28) (fun m => libotaRxProc ⟨.little, true⟩ libotaInit m (28 : Nat)) scanReport :=
  (rxProc_determined_iff ⟨.little, true⟩ libotaInit scanReport 28 (by decide)).mpr
    (.inr ⟨by decide, .inl (Nat.le_refl 28)⟩)

/-- The header of a scan report alone: version, chip and source version of the new station come from the leftovers. -/
theorem scanHeader_not_determined :
    ¬ Determined (SameFrame 16) (fun m => libotaRxProc ⟨.little, true⟩ libotaInit m (16 : Nat)) scanReport :=
  not_determined_scan (by decide) (by decide) (by decide) (by decide) (by decide)

end HgicFmac.Hgota
