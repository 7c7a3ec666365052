import HgicFmac.RxData.Model

/-!
# One pass of the de-aggregation loop, on the bytes as they were received

* `swap16_little`, `hdrToCpu_little` : a little-endian host changes nothing;
* `magic_hdrToCpu`, `length_hdrToCpu`, `type_hdrToCpu` : after the conversion the host reads the little-endian fields,
  and the other two bytes are as before (`hdrToCpu_other`);
* `SubHdr` : the test on a sub-header as it was received (`subHdrOk_hdrToCpu`);
* `aggPass_of_subHdr`, `aggPass_of_not_subHdr`, `aggPass_of_short` : the three ways of a pass;
* `rxData_raw` : `hgicf_rx_data` by the fields as they were received; `rxData_magic`, `rxData_tooLong`,
  `rxData_admitted`, `rxData_bootdl` : the ways of its tests;
* `rxData_isData` : what `hgicf_rx_data` hands on (`rxData_aggregate`, `rxData_frame`).
-/

namespace HgicFmac.RxData
open Lib HgicFmac.Core

/-! ## Conversions in place -/

theorem load16_swap16 (e : Endian) (m : Mem) (off : Nat) : load16 e (swap16 e m off) off = loadLe16 m off := by
  rw [swap16, load16_write, le16ToCpu_load16, Nat.mod_eq_of_lt (loadLe16_lt m off)]

theorem swap16_of_lt (e : Endian) (m : Mem) {off i : Nat} (h : i < off) : swap16 e m off i = m i :=
  write_of_lt m _ h

theorem swap16_of_le (e : Endian) (m : Mem) {off i : Nat} (h : off + 2 ≤ i) : swap16 e m off i = m i := by
  apply write_of_le
  rwa [length_bytes16]

theorem swap16_little (m : Mem) (off : Nat) : swap16 .little m off = m := by
  funext i
  have h0 := (m off).toNat_lt
  have h1 := (m (off + 1)).toNat_lt
  rw [swap16, le16ToCpu_load16, loadLe16]
  by_cases hi : i < off
  · rw [write_of_lt m _ hi]
  · obtain rfl | rfl | h2 : i = off ∨ i = off + 1 ∨ off + 2 ≤ i := by omega
    · rw [show m.write i _ i = _ from write_at m _ (k := 0) (by rw [length_bytes16]; decide)]
      simp only [bytes16, List.getD_cons_zero, Nat.add_mul_mod_self_left]
      simp
    · rw [write_at m _ (by rw [length_bytes16]; decide)]
      simp only [bytes16, List.getD_cons_succ, List.getD_cons_zero]
      rw [show ((m off).toNat + 256 * (m (off + 1)).toNat) / 256 % 256 = (m (off + 1)).toNat by omega]
      simp
    · rw [write_of_le m _ (by rwa [length_bytes16])]

theorem hdrToCpu_little (m : Mem) (off : Nat) : hdrToCpu .little m off = m := by
  rw [hdrToCpu, swap16_little, swap16_little, swap16_little]

section Converted
variable (e : Endian) (m : Mem) (off : Nat)

theorem magic_hdrToCpu : load16 e (hdrToCpu e m off) off = loadLe16 m off := by
  rw [hdrToCpu, ← load16_swap16 e m off]
  apply load16_congr
  · rw [swap16_of_lt e _ (by omega), swap16_of_lt e _ (by omega)]
  · rw [swap16_of_lt e _ (by omega), swap16_of_lt e _ (by omega)]

theorem length_hdrToCpu : load16 e (hdrToCpu e m off) (off + 4) = loadLe16 m (off + 4) := by
  have hlow : loadLe16 (swap16 e m off) (off + 4) = loadLe16 m (off + 4) :=
    load16_congr .little (swap16_of_le e m (by omega)) (swap16_of_le e m (by omega))
  rw [hdrToCpu, ← hlow, ← load16_swap16 e (swap16 e m off) (off + 4)]
  apply load16_congr
  · rw [swap16_of_lt e _ (by omega)]
  · rw [swap16_of_lt e _ (by omega)]

theorem cookie_hdrToCpu :
    load16 e (hdrToCpu e m off) (off + 6) = loadLe16 m (off + 6) := by
  have hlow : loadLe16 (swap16 e (swap16 e m off) (off + 4)) (off + 6) = loadLe16 m (off + 6) := by
    apply load16_congr .little
    · rw [swap16_of_le e _ (by omega), swap16_of_le e _ (by omega)]
    · rw [swap16_of_le e _ (by omega), swap16_of_le e _ (by omega)]
  rw [hdrToCpu, load16_swap16, hlow]

/-- The bytes of the type and of the flags, and all bytes outside the header, stay. -/
theorem hdrToCpu_other {i : Nat} (h : i < off ∨ i = off + 2 ∨ i = off + 3 ∨ off + 8 ≤ i) :
    hdrToCpu e m off i = m i := by
  have h6 : swap16 e (swap16 e (swap16 e m off) (off + 4)) (off + 6) i = swap16 e (swap16 e m off) (off + 4) i := by
    obtain h | h : i < off + 6 ∨ off + 6 + 2 ≤ i := by omega
    · exact swap16_of_lt e _ h
    · exact swap16_of_le e _ h
  have h4 : swap16 e (swap16 e m off) (off + 4) i = swap16 e m off i := by
    obtain h | h : i < off + 4 ∨ off + 4 + 2 ≤ i := by omega
    · exact swap16_of_lt e _ h
    · exact swap16_of_le e _ h
  have h0 : swap16 e m off i = m i := by
    obtain h | h : i < off ∨ off + 2 ≤ i := by omega
    · exact swap16_of_lt e _ h
    · exact swap16_of_le e _ h
  rw [hdrToCpu, h6, h4, h0]

theorem type_hdrToCpu : hdrType (hdrToCpu e m off) off = hdrType m off := by
  rw [hdrType, hdrToCpu_other e m off (by omega), hdrType]

end Converted

/-! ## A pass -/

/-- The test on a sub-header, on the bytes as they were received. -/
def SubHdr (m : Mem) (off : Nat) (len : Int) : Prop :=
  loadLe16 m off = hgicHdrRxMagic ∧ hdrType m off = HdrType.frm2.byte ∧ (loadLe16 m (off + 4) : Int) ≤ len

instance (m : Mem) (off : Nat) (len : Int) : Decidable (SubHdr m off len) := inferInstanceAs (Decidable (_ ∧ _ ∧ _))

theorem subHdrOk_hdrToCpu (e : Endian) (m : Mem) (off : Nat) (len : Int) :
    subHdrOk e (hdrToCpu e m off) off len ↔ SubHdr m off len := by
  rw [subHdrOk, magic_hdrToCpu, type_hdrToCpu, length_hdrToCpu, SubHdr]

theorem SubHdr.nonneg {m : Mem} {off : Nat} {len : Int} (h : SubHdr m off len) : 0 ≤ len := by
  have := h.2.2
  omega

section Pass
variable (h : Host) (env : Env) {s : Walk h.word}

/-- What a pass makes of a sub-header that passes the test. -/
def nextWalk (s : Walk h.word) : Walk h.word where
  mem := hdrToCpu h.endian s.mem s.data
  data := s.data + loadLe16 s.mem (s.data + 4)
  len := s.len - loadLe16 s.mem (s.data + 4)
  dev := hgicfRxSingleFrm h env (hdrToCpu h.endian s.mem s.data) s.data (loadLe16 s.mem (s.data + 4)) s.dev
  touched := s.touched ++ [(s.data, hdrSize), (s.data, loadLe16 s.mem (s.data + 4))]

/-- What a pass makes of a sub-header that does not pass the test. -/
def lastWalk (s : Walk h.word) : Walk h.word :=
  { s with mem := hdrToCpu h.endian s.mem s.data, touched := s.touched ++ [(s.data, hdrSize)] }

theorem aggPass_of_subHdr (hl : aboveHdr s.len) (hs : SubHdr s.mem s.data s.len) :
    aggPass h env s = .again (nextWalk h env s) := by
  unfold aggPass
  simp only [if_pos hl, if_pos ((subHdrOk_hdrToCpu h.endian _ _ _).mpr hs), length_hdrToCpu]
  rfl

theorem aggPass_of_not_subHdr (hl : aboveHdr s.len) (hs : ¬ SubHdr s.mem s.data s.len) :
    aggPass h env s = .leave (lastWalk h s) := by
  unfold aggPass
  simp only [if_pos hl, if_neg (mt (subHdrOk_hdrToCpu h.endian _ _ _).mp hs)]
  rfl

theorem aggPass_of_short (hl : ¬ aboveHdr s.len) : aggPass h env s = .leave s := by
  unfold aggPass
  rw [if_neg hl]

/-- A further pass: the sub-header passed the test, with more than a header left. -/
theorem aggPass_again {t : Walk h.word} (ht : aggPass h env s = .again t) :
    (hdrSize : Int) < s.len ∧ SubHdr s.mem s.data s.len ∧ t = nextWalk h env s := by
  by_cases hl : aboveHdr s.len
  · by_cases hs : SubHdr s.mem s.data s.len
    · rw [aggPass_of_subHdr h env hl hs, Pass.again.injEq] at ht
      have h0 := hs.nonneg
      unfold aboveHdr at hl
      exact ⟨by omega, hs, ht.symm⟩
    · rw [aggPass_of_not_subHdr h env hl hs] at ht
      cases ht
  · rw [aggPass_of_short h env hl] at ht
    cases ht

end Pass

/-! ## The entry -/

/-- What is done with a buffer that passes the tests, by its type. -/
def admitted (h : Host) (env : Env) (m : Mem) (i : Nat) (len : Int) (d : Dev h.word) : Received h.word :=
  if hdrType m i = HdrType.frm2.byte ∨ hdrType m i = HdrType.aggfrm.byte then
    if env.vif.isNone ∨ env.ifTest ≠ 0 then .dropped
    else if hdrType m i = HdrType.aggfrm.byte then .aggregate (hgicfRxAggFrm h (hdrToCpu h.endian m i) i len d)
    else .frame (hgicfRxSingleFrm h env (hdrToCpu h.endian m i) i len d)
  else if hdrType m i ∈ controlTypes then .control i len
  else if hdrType m i = HdrType.test2.byte then .testData len (verifyFails env (hdrToCpu h.endian m i) i)
  else if hdrType m i = HdrType.softfc.byte then .window (loadLe16 m (i + 6))
  else .unknown

theorem rxData_raw (h : Host) (env : Env) (m : Mem) (len : Int) (d : Dev h.word) :
    hgicfRxData h env m len d =
      let i := hgicSkipPadding m
      let length : Int := loadLe16 m (i + 4)
      if loadLe16 m i ≠ hgicHdrRxMagic then .invalid
      else if len - i < length ∧ hdrType m i ≠ HdrType.bootdl.byte then .invalid
      else admitted h env m i (if len - i < length then len - i else length) d := by
  simp only [hgicfRxData, admitted, type_hdrToCpu, length_hdrToCpu, magic_hdrToCpu, cookie_hdrToCpu]

section Tests
variable (h : Host) (env : Env) {m : Mem} {len : Int} (d : Dev h.word) {i : Nat} (hi : hgicSkipPadding m = i)
include hi

theorem rxData_magic (hmagic : loadLe16 m i ≠ hgicHdrRxMagic) : hgicfRxData h env m len d = .invalid := by
  subst hi
  rw [rxData_raw, if_pos hmagic]

variable (hmagic : loadLe16 m i = hgicHdrRxMagic)
include hmagic

theorem rxData_tooLong (hlt : len - i < loadLe16 m (i + 4)) (htype : hdrType m i ≠ HdrType.bootdl.byte) :
    hgicfRxData h env m len d = .invalid := by
  subst hi
  rw [rxData_raw]
  simp only [hmagic, ne_eq, not_true_eq_false, if_false]
  rw [if_pos ⟨hlt, htype⟩]

theorem rxData_admitted (hle : (loadLe16 m (i + 4) : Int) ≤ len - i) :
    hgicfRxData h env m len d = admitted h env m i (loadLe16 m (i + 4)) d := by
  subst hi
  have hnot := Int.not_lt.mpr hle
  rw [rxData_raw]
  simp only [hmagic, ne_eq, not_true_eq_false, if_false, hnot, false_and]

theorem rxData_bootdl (htype : hdrType m i = HdrType.bootdl.byte) :
    hgicfRxData h env m len d =
      .control i (if len - i < loadLe16 m (i + 4) then len - i else loadLe16 m (i + 4)) := by
  subst hi
  rw [rxData_raw]
  simp only [hmagic, htype, ne_eq, not_true_eq_false, if_false, and_false]
  rw [admitted, htype, if_neg (by decide), if_pos (by decide)]

end Tests

/-- The results for data frames. -/
def Received.isData {w : Nat} : Received w → Bool
  | .frame _ => true
  | .aggregate _ => true
  | _ => false

theorem isSome_of_not_isNone {env : Env} (hvif : ¬ (env.vif.isNone ∨ env.ifTest ≠ 0)) : env.vif.isSome := by
  cases hv : env.vif with
  | none =>
    rw [hv] at hvif
    exact absurd (.inl rfl) hvif
  | some nd => rfl

/-- A data frame that `hgicf_rx_data` admits: there is an interface, the header behind the padding names a length of at
most what was received, and the function for its type gets this length. -/
theorem rxData_isData (h : Host) {env : Env} {m : Mem} {len : Int} {d : Dev h.word}
    (hr : (hgicfRxData h env m len d).isData) :
    let i := hgicSkipPadding m
    let length : Int := loadLe16 m (i + 4)
    env.vif.isSome ∧ length ≤ len - i ∧
      (hdrType m i = HdrType.aggfrm.byte ∧
          hgicfRxData h env m len d = .aggregate (hgicfRxAggFrm h (hdrToCpu h.endian m i) i length d) ∨
        hdrType m i = HdrType.frm2.byte ∧
          hgicfRxData h env m len d = .frame (hgicfRxSingleFrm h env (hdrToCpu h.endian m i) i length d)) := by
  intro i length
  by_cases hmagic : loadLe16 m i = hgicHdrRxMagic
  · by_cases hle : length ≤ len - i
    · rw [rxData_admitted h env d rfl hmagic hle, admitted] at hr ⊢
      split_ifs at hr ⊢ with hdata hopen hagg
      · cases hr
      · exact ⟨isSome_of_not_isNone hopen, hle, .inl ⟨hagg, rfl⟩⟩
      · exact ⟨isSome_of_not_isNone hopen, hle, .inr ⟨hdata.resolve_right hagg, rfl⟩⟩
      · cases hr
      · cases hr
      · cases hr
      · cases hr
    · by_cases hboot : hdrType m i = HdrType.bootdl.byte
      · rw [rxData_bootdl h env d rfl hmagic hboot] at hr
        cases hr
      · rw [rxData_tooLong h env d rfl hmagic (Int.not_le.mp hle) hboot] at hr
        cases hr
  · rw [rxData_magic h env d rfl hmagic] at hr
    cases hr

theorem rxData_aggregate (h : Host) {env : Env} {m : Mem} {len : Int} {d : Dev h.word} {s : Walk h.word}
    (hs : hgicfRxData h env m len d = .aggregate s) :
    s = hgicfRxAggFrm h (hdrToCpu h.endian m (hgicSkipPadding m)) (hgicSkipPadding m)
      (loadLe16 m (hgicSkipPadding m + 4)) d := by
  obtain ⟨-, -, ⟨-, heq⟩ | ⟨-, heq⟩⟩ := rxData_isData h (by rw [hs]; rfl)
  · rw [hs, Received.aggregate.injEq] at heq
    exact heq
  · rw [hs] at heq
    cases heq

theorem rxData_frame (h : Host) {env : Env} {m : Mem} {len : Int} {d d' : Dev h.word}
    (hs : hgicfRxData h env m len d = .frame d') :
    hdrType m (hgicSkipPadding m) = HdrType.frm2.byte ∧
      d' = hgicfRxSingleFrm h env (hdrToCpu h.endian m (hgicSkipPadding m)) (hgicSkipPadding m)
        (loadLe16 m (hgicSkipPadding m + 4)) d := by
  obtain ⟨-, -, ⟨-, heq⟩ | ⟨htype, heq⟩⟩ := rxData_isData h (by rw [hs]; rfl)
  · rw [hs] at heq
    cases heq
  · rw [hs, Received.frame.injEq] at heq
    exact ⟨htype, heq⟩

end HgicFmac.RxData
