import HgicFmac.Fwinfo.Crc

/-!
# The check of the code: `hgic_get_fw_code_checksum`

* `crcRange` : the bytes that the check hands to `hgic_crc32`, or the error it returns before it does
  (`hgicGetFwCodeChecksum_eq`);
* `CrcInImage` : the range is the code of the image. `crcInImage_iff` : the offsets for which it is; the length of the
  code is a signed difference, and an offset that is larger than the image by more than `2 ^ 31` makes it positive;
* `hdrFlags`, `hdrValues` : the bytes of the header that the check reads, the flags it asks for and the values it works
  with. The code may start in the header and have them in it; a changed flag is an error (`hgicCheckFwinfoHdr_flag`);
* `Corrupts q off len` : a change of the code that stays in 32 bits from the bit `q` on.
  `hgicGetFwCodeChecksum_corrupted` : when it leaves the offset and the stored CRC alone the check finds it, except for
  the one change of each window that complements the CRC, since the check takes the complement of the stored CRC too.
-/

namespace HgicFmac.Fwinfo
open Lib

/-! ## The range of the CRC -/

/-- The arguments of `hgic_crc32`, as the offset in the image and the length, or the error before it is called. -/
def crcRange (e : Endian) (m : Mem) (len : Int) : Except Int (Nat × Nat) := do
  let _ ← hgicGetFwLocalCrc32 e m
  let codeOffset ← hgicGetFwCodeOffset e m
  let codeLen := toS32 ((len - codeOffset) % 2 ^ 32).toNat
  if codeLen < 0 then throw einval
  return (codeOffset, codeLen.toNat)

theorem crcRange_of_hdr_ne {e : Endian} {m : Mem} (h : hgicCheckFwinfoHdr e m ≠ 0) (len : Int) :
    crcRange e m len = .error (hgicCheckFwinfoHdr e m) := by
  unfold crcRange hgicGetFwLocalCrc32 fwField
  simp only [if_pos h]
  rfl

theorem crcRange_of_hdr {e : Endian} {m : Mem} (h : hgicCheckFwinfoHdr e m = 0) (len : Int) :
    crcRange e m len =
      if toS32 ((len - load32 e m 12) % 2 ^ 32).toNat < 0 then .error einval
      else .ok (load32 e m 12, (toS32 ((len - load32 e m 12) % 2 ^ 32).toNat).toNat) := by
  unfold crcRange hgicGetFwLocalCrc32 hgicGetFwCodeOffset fwField
  simp only [h, ne_eq, not_true_eq_false, if_false]
  rfl

/-- The comparison of the check, with the stored CRC and with its complement. -/
def CrcAccepts (e : Endian) (m : Mem) (code : List UInt8) : Prop :=
  (hgicCrc32 code).toNat = load32 e m 123 ∨ (~~~ hgicCrc32 code).toNat = load32 e m 123

instance (e : Endian) (m : Mem) (code : List UInt8) : Decidable (CrcAccepts e m code) :=
  inferInstanceAs (Decidable (_ ∨ _))

/-- The check returns the error of `crcRange`, or compares the CRC over its range with the stored one. -/
theorem hgicGetFwCodeChecksum_eq (e : Endian) (m : Mem) (len : Int) :
    hgicGetFwCodeChecksum e m len =
      match crcRange e m len with
      | .error ret => ret
      | .ok r => if CrcAccepts e m (m.read r.1 r.2) then 0 else efault := by
  by_cases h : hgicCheckFwinfoHdr e m = 0
  · rw [crcRange_of_hdr h]
    unfold hgicGetFwCodeChecksum hgicGetFwLocalCrc32 hgicGetFwCodeOffset fwField
    simp only [h, ne_eq, not_true_eq_false, if_false]
    split
    · rfl
    · simp only [CrcAccepts, ← not_or, ite_not]
      congr
  · rw [crcRange_of_hdr_ne h]
    unfold hgicGetFwCodeChecksum hgicGetFwLocalCrc32 fwField
    simp only [if_pos h]

/-- The check fails before the CRC, or the CRC is over the bytes of the image from its code offset on. -/
def CrcInImage (e : Endian) (m : Mem) (len : Nat) : Prop :=
  match crcRange e m len with
  | .error ret => ret ≠ 0
  | .ok (off, n) => off = load32 e m 12 ∧ off ≤ len ∧ off + n = len

/-- The length of the code, as the signed difference of an image of less than `2 ^ 31` bytes and a 32-bit offset. -/
theorem toS32_codeLen {len off : Nat} (hlen : len < 2 ^ 31) (hoff : off < 2 ^ 32) :
    toS32 (((len : Int) - off) % 2 ^ 32).toNat =
      if off ≤ len + 2 ^ 31 then (len : Int) - off else (len : Int) - off + 2 ^ 32 := by
  unfold toS32
  split_ifs <;> omega

/-- The CRC stays in the image exactly for the offsets that are not above the image by more than `2 ^ 31`. -/
theorem crcInImage_iff (e : Endian) (m : Mem) {len : Nat} (hlen : len < 2 ^ 31) :
    CrcInImage e m len ↔ hgicCheckFwinfoHdr e m ≠ 0 ∨ load32 e m 12 ≤ len + 2 ^ 31 := by
  have hoff := load32_lt e m 12
  unfold CrcInImage
  by_cases h : hgicCheckFwinfoHdr e m = 0
  · rw [crcRange_of_hdr h, toS32_codeLen hlen hoff]
    by_cases hle : load32 e m 12 ≤ len + 2 ^ 31
    · simp only [hle, if_true, or_true, iff_true]
      split_ifs with hneg
      · exact (by decide : einval ≠ 0)
      · refine ⟨rfl, ?_, ?_⟩ <;> omega
    · have hpos : ¬ (len : Int) - load32 e m 12 + 2 ^ 32 < 0 := by omega
      simp only [hle, if_false, hpos, h, ne_eq, not_true_eq_false, or_false, iff_false]
      omega
  · rw [crcRange_of_hdr_ne h]
    simp [h]

/-- A file of 131 bytes with the code 16 bytes into it. -/
theorem crcInImage_offset_16 : CrcInImage .little (imageOf 0 16 0 []).data 131 :=
  (crcInImage_iff .little _ (by decide)).2 (.inr (by decide))

/-- The code offset `2 ^ 32 - 1` makes the length of the code 132 bytes. -/
theorem not_crcInImage_offset_max :
    ¬ ∀ (e : Endian) (m : Mem) (len : Nat), 131 ≤ len → len < 2 ^ 31 → CrcInImage e m len := by
  intro h
  have hin := h .little (imageOf 0 0xffffffff 0 []).data 131 (by decide) (by decide)
  have hrange : crcRange .little (imageOf 0 0xffffffff 0 []).data 131 = .ok (0xffffffff, 132) := by
    decide +kernel
  simp only [CrcInImage, Nat.cast_ofNat, hrange] at hin
  exact absurd hin.2.1 (by decide)

/-! ## Corrupted code -/

def hdrFlags : List Nat := [0, 1, 32, 106]

/-- The bytes of the offset of the code and of the stored CRC. -/
def hdrValues : List Nat := [12, 13, 14, 15, 123, 124, 125, 126]

def hdrReads : List Nat := hdrFlags ++ hdrValues

/-- `m'` is `m` with a changed code, and all changed bits are among the 32 bits from the bit `q` of the code on. -/
structure Corrupts (q off len : Nat) (m m' : Mem) : Prop where
  outside : ∀ i, i < off ∨ len ≤ i → m' i = m i
  window : DifferIn q 32 (messageBits (m.read off (len - off))) (messageBits (m'.read off (len - off)))
  changed : m'.read off (len - off) ≠ m.read off (len - off)

section Header
variable {e : Endian} {m m' : Mem}

theorem values_congr (h : ∀ i ∈ hdrValues, m' i = m i) :
    load32 e m' 12 = load32 e m 12 ∧ load32 e m' 123 = load32 e m 123 := by
  simp only [hdrValues, List.forall_mem_cons, List.not_mem_nil, false_implies, implies_true, and_true] at h
  obtain ⟨h12, h13, h14, h15, h123, h124, h125, h126⟩ := h
  cases e <;> simp [load32, load16, loadLe16, h12, h13, h14, h15, h123, h124, h125, h126]

theorem flags_congr (h : ∀ i ∈ hdrFlags, m' i = m i) : hgicCheckFwinfoHdr e m' = hgicCheckFwinfoHdr e m := by
  simp only [hdrFlags, List.forall_mem_cons, List.not_mem_nil, false_implies, implies_true, and_true] at h
  obtain ⟨h0, h1, h32, h106⟩ := h
  cases e <;> simp [hgicCheckFwinfoHdr, load16, loadLe16, h0, h1, h32, h106]

/-- There is one good value for each flag, so two good headers have the same ones. -/
theorem flags_eq_of_good (h : hgicCheckFwinfoHdr e m = 0) (h' : hgicCheckFwinfoHdr e m' = 0) :
    ∀ i ∈ hdrFlags, m' i = m i := by
  have hgood : ∀ {m : Mem}, hgicCheckFwinfoHdr e m = 0 →
      load16 e m 0 = hgicFwinfoBootHdr ∧ (m 106).toNat = hgicFwinfoCodeHdr ∧ (m 32).toNat = hgicFwinfoSpiHdr := by
    intro m h
    unfold hgicCheckFwinfoHdr at h
    split_ifs at h with h0 h106 h32
    · exact absurd h (by decide)
    · exact absurd h (by decide)
    · exact absurd h (by decide)
    · exact ⟨not_not.mp h0, not_not.mp h106, not_not.mp h32⟩
  obtain ⟨h0, h106, h32⟩ := hgood h
  obtain ⟨h0', h106', h32'⟩ := hgood h'
  have hboot : m' 0 = m 0 ∧ m' 1 = m 1 := by
    have heq := h0'.trans h0.symm
    have hlo := (m 0).toNat_lt
    have hlo' := (m' 0).toNat_lt
    have hhi := (m 1).toNat_lt
    have hhi' := (m' 1).toNat_lt
    cases e <;> simp only [load16, loadLe16, Nat.zero_add] at heq <;>
      exact ⟨UInt8.toNat_inj.mp (by omega), UInt8.toNat_inj.mp (by omega)⟩
  simp only [hdrFlags, List.forall_mem_cons, List.not_mem_nil, false_implies, implies_true, and_true]
  exact ⟨hboot.1, hboot.2, UInt8.toNat_inj.mp (h32'.trans h32.symm), UInt8.toNat_inj.mp (h106'.trans h106.symm)⟩

/-- The only error of the header check. -/
theorem hgicCheckFwinfoHdr_of_ne_zero (h : hgicCheckFwinfoHdr e m ≠ 0) : hgicCheckFwinfoHdr e m = einval := by
  unfold hgicCheckFwinfoHdr at h ⊢
  split_ifs at h ⊢ with h0 h106 h32 <;> first | rfl | exact absurd rfl h

theorem hgicCheckFwinfoHdr_flag (h : hgicCheckFwinfoHdr e m = 0) (hne : ∃ i ∈ hdrFlags, m' i ≠ m i) :
    hgicCheckFwinfoHdr e m' = einval := by
  obtain ⟨i, hi, hne⟩ := hne
  apply hgicCheckFwinfoHdr_of_ne_zero
  intro h'
  exact hne (flags_eq_of_good h h' i hi)

end Header

theorem hdr_of_accepted {e : Endian} {m : Mem} {len : Int} (h : hgicGetFwCodeChecksum e m len = 0) :
    hgicCheckFwinfoHdr e m = 0 := by
  by_contra hne
  rw [hgicGetFwCodeChecksum_eq, crcRange_of_hdr_ne hne] at h
  exact hne h

/-- With a good header and the code in the image, the check is the comparison of the CRC of the code. -/
theorem hgicGetFwCodeChecksum_of_hdr {e : Endian} {m : Mem} {len : Nat} (hhdr : hgicCheckFwinfoHdr e m = 0)
    (hlen : len < 2 ^ 31) (hoff : load32 e m 12 ≤ len) :
    hgicGetFwCodeChecksum e m len =
      if CrcAccepts e m (m.read (load32 e m 12) (len - load32 e m 12)) then 0 else efault := by
  have hn : toS32 (((len : Int) - load32 e m 12) % 2 ^ 32).toNat = ((len - load32 e m 12 : Nat) : Int) := by
    rw [toS32_codeLen hlen (load32_lt e m 12), if_pos (by omega)]
    omega
  rw [hgicGetFwCodeChecksum_eq, crcRange_of_hdr hhdr, hn, if_neg (by omega), Int.toNat_natCast]

theorem Corrupts.off_lt {q off len : Nat} {m m' : Mem} (h : Corrupts q off len m m') : off < len := by
  by_contra hle
  have hn : len - off = 0 := by omega
  exact h.changed (by rw [hn]; rfl)

/-- Two changes of one window differ in this window. -/
theorem Corrupts.window_trans {q off len : Nat} {m m' m'' : Mem} (h' : Corrupts q off len m m')
    (h'' : Corrupts q off len m m'') :
    DifferIn q 32 (messageBits (m'.read off (len - off))) (messageBits (m''.read off (len - off))) := by
  obtain ⟨htake', hdrop'⟩ := differIn_iff.1 h'.window
  obtain ⟨htake'', hdrop''⟩ := differIn_iff.1 h''.window
  exact differIn_iff.2 ⟨htake'.symm.trans htake'', hdrop'.symm.trans hdrop''⟩

theorem Corrupts.eq_of_read_eq {q off len : Nat} {m m' m'' : Mem} (h' : Corrupts q off len m m')
    (h'' : Corrupts q off len m m'') (h : m'.read off (len - off) = m''.read off (len - off)) : m'' = m' := by
  funext i
  by_cases hi : i < off ∨ len ≤ i
  · rw [h'.outside i hi, h''.outside i hi]
  · have hget := congrArg (fun l => l.getD (i - off) 0) h
    simp only [getD_read _ _ (show i - off < len - off by omega), show off + (i - off) = i by omega] at hget
    exact hget.symm

/-- A CRC that differs from an accepted one is accepted exactly when it is the complement of it. -/
theorem accepted_iff_compl {c c' : BitVec 32} {stored : Nat} (hne : c' ≠ c)
    (h : c.toNat = stored ∨ (~~~c).toNat = stored) :
    (c'.toNat = stored ∨ (~~~c').toNat = stored) ↔ c' = ~~~c := by
  rcases h with rfl | rfl
  · rw [BitVec.toNat_inj, BitVec.toNat_inj, or_iff_right hne, BitVec.not_eq_comm, eq_comm]
  · rw [BitVec.toNat_inj, BitVec.toNat_inj, BitVec.not_inj, or_iff_left hne]

/-- A burst in the code of an accepted image that leaves the offset and the stored CRC alone is found, except for a code
with the complement of the CRC; each window has at most one such code. -/
theorem hgicGetFwCodeChecksum_corrupted (e : Endian) {m m' : Mem} {len q : Nat} (hlen : len < 2 ^ 31)
    (hacc : hgicGetFwCodeChecksum e m len = 0) (hc : Corrupts q (load32 e m 12) len m m')
    (hhdr : ∀ i ∈ hdrValues, m' i = m i) :
    (hgicGetFwCodeChecksum e m' len =
      if ∃ i ∈ hdrFlags, m' i ≠ m i then einval
      else if hgicCrc32 (m'.read (load32 e m 12) (len - load32 e m 12)) =
        ~~~ hgicCrc32 (m.read (load32 e m 12) (len - load32 e m 12)) then 0 else efault) ∧
    ∀ m'', Corrupts q (load32 e m 12) len m m'' → (∀ i ∈ hdrValues, m'' i = m i) →
      hgicGetFwCodeChecksum e m' len = 0 → hgicGetFwCodeChecksum e m'' len = 0 → m'' = m' := by
  have hhdr0 := hdr_of_accepted hacc
  have hstored : CrcAccepts e m (m.read (load32 e m 12) (len - load32 e m 12)) := by
    by_contra hno
    rw [hgicGetFwCodeChecksum_of_hdr hhdr0 hlen hc.off_lt.le, if_neg hno] at hacc
    exact absurd hacc (by decide)
  -- what the check says about any change of this window
  have hcheck : ∀ mc, Corrupts q (load32 e m 12) len m mc → (∀ i ∈ hdrValues, mc i = m i) →
      hgicGetFwCodeChecksum e mc len =
        if ∃ i ∈ hdrFlags, mc i ≠ m i then einval
        else if hgicCrc32 (mc.read (load32 e m 12) (len - load32 e m 12)) =
          ~~~ hgicCrc32 (m.read (load32 e m 12) (len - load32 e m 12)) then 0 else efault := by
    intro mc hmc hsame
    obtain ⟨hoff, hcrc⟩ := values_congr (e := e) hsame
    split
    · next hflag =>
      have heinval := hgicCheckFwinfoHdr_flag hhdr0 hflag
      rw [hgicGetFwCodeChecksum_eq, crcRange_of_hdr_ne (by rw [heinval]; decide), heinval]
    · next hflag =>
      have hgood : hgicCheckFwinfoHdr e mc = hgicCheckFwinfoHdr e m := flags_congr (by simpa using hflag)
      have hne : hgicCrc32 (mc.read (load32 e m 12) (len - load32 e m 12)) ≠
          hgicCrc32 (m.read (load32 e m 12) (len - load32 e m 12)) := by
        intro heq
        exact hmc.changed (eq_of_hgicCrc32 (by simp) hmc.window heq.symm).symm
      rw [hgicGetFwCodeChecksum_of_hdr (hgood.trans hhdr0) hlen (by rw [hoff]; exact hc.off_lt.le), hoff]
      unfold CrcAccepts at hstored ⊢
      simp only [hcrc, accepted_iff_compl hne hstored]
  refine ⟨hcheck m' hc hhdr, ?_⟩
  intro m'' hc'' hhdr'' hacc' hacc''
  rw [hcheck m' hc hhdr] at hacc'
  rw [hcheck m'' hc'' hhdr''] at hacc''
  -- neither of the two errors is 0
  have hcompl : ∀ {p r : Prop} [Decidable p] [Decidable r],
      (if p then einval else if r then (0 : Int) else efault) = 0 → r := by
    intro p r _ _ h
    split_ifs at h with hp hr
    · exact absurd h (by decide)
    · exact hr
    · exact absurd h (by decide)
  apply hc.eq_of_read_eq hc''
  exact eq_of_hgicCrc32 (by simp) (hc.window_trans hc'') ((hcompl hacc').trans (hcompl hacc'').symm)

theorem imageOf_data_of_le (addr off crc : Nat) (code : List UInt8) {i : Nat} (h : 131 + code.length ≤ i) :
    (imageOf addr off crc code).data i = 0 := by
  simp only [imageOf, Mem.ofList]
  rw [List.getD_eq_getElem?_getD, List.getElem?_eq_none]
  · rfl
  · simp [bytes16, bytes32]
    omega

/-- Two files with code of one length, as a change of the code: what is to be checked is finite. -/
theorem corrupts_imageOf {q addr off off' crc crc' len : Nat} {code code' : List UInt8} (hlen : 131 + code.length = len)
    (hlen' : 131 + code'.length = len)
    (hhead : ∀ i < off, (imageOf addr off' crc' code').data i = (imageOf addr off crc code).data i)
    (hwindow : DifferIn q 32 (messageBits ((imageOf addr off crc code).data.read off (len - off)))
      (messageBits ((imageOf addr off' crc' code').data.read off (len - off))))
    (hchanged : (imageOf addr off' crc' code').data.read off (len - off) ≠
      (imageOf addr off crc code).data.read off (len - off)) :
    Corrupts q off len (imageOf addr off crc code).data (imageOf addr off' crc' code').data where
  outside := by
    intro i hi
    rcases hi with hi | hi
    · exact hhead i hi
    · rw [imageOf_data_of_le _ _ _ _ (by omega), imageOf_data_of_le _ _ _ _ (by omega)]
  window := hwindow
  changed := hchanged

/-- The CRC of `11 22 33 44` is the stored one; a changed bit is found. -/
theorem hgicGetFwCodeChecksum_corrupted_11223344 :
    hgicGetFwCodeChecksum .little (imageOf 0 131 0x77f29dd1 [0x11, 0x22, 0x33, 0x44]).data 135 = 0 ∧
    hgicGetFwCodeChecksum .little (imageOf 0 131 0x77f29dd1 [0x10, 0x22, 0x33, 0x44]).data 135 = efault := by
  have hacc :
      hgicGetFwCodeChecksum .little (imageOf 0 131 0x77f29dd1 [0x11, 0x22, 0x33, 0x44]).data (135 : Nat) = 0 := by
    decide +kernel
  have hc : Corrupts 0 131 135 (imageOf 0 131 0x77f29dd1 [0x11, 0x22, 0x33, 0x44]).data
      (imageOf 0 131 0x77f29dd1 [0x10, 0x22, 0x33, 0x44]).data :=
    corrupts_imageOf rfl rfl (by decide +kernel) (by decide +kernel) (by decide +kernel)
  refine ⟨hacc, ?_⟩
  have h := (hgicGetFwCodeChecksum_corrupted .little (by decide) hacc hc (by decide +kernel)).1
  rw [if_neg (by decide +kernel), if_neg (by decide +kernel)] at h
  exact h

theorem hgicCrc32_read_add {m : Mem} {off n k : Nat} {r r' : BitVec 32}
    (h : (m.read off n).foldl (crcByte 0xEDB88320#32) 0xffffffff#32 = r)
    (h' : (m.read (off + n) k).foldl (crcByte 0xEDB88320#32) r = r') : hgicCrc32 (m.read off (n + k)) = ~~~ r' := by
  rw [hgicCrc32, read_add, List.foldl_append, h, h']

/-- An accepted image and a change of its code that is accepted too: with the header untouched; with the code over the
stored CRC and only this rewritten; with the code over the offset and only this rewritten, to the end of the image. -/
theorem not_forall_corrupted_rejected :
    (¬ ∀ (e : Endian) (m m' : Mem) (len q : Nat), len < 2 ^ 31 → hgicGetFwCodeChecksum e m len = 0 →
      Corrupts q (load32 e m 12) len m m' → (∀ i ∈ hdrReads, m' i = m i) → hgicGetFwCodeChecksum e m' len ≠ 0) ∧
    (¬ ∀ (e : Endian) (m m' : Mem) (len q : Nat), len < 2 ^ 31 → hgicGetFwCodeChecksum e m len = 0 →
      Corrupts q (load32 e m 12) len m m' → load32 e m' 12 = load32 e m 12 →
      hgicCrc32 (m'.read (load32 e m 12) (len - load32 e m 12)) ≠
        ~~~ hgicCrc32 (m.read (load32 e m 12) (len - load32 e m 12)) → hgicGetFwCodeChecksum e m' len ≠ 0) ∧
    (¬ ∀ (e : Endian) (m m' : Mem) (len q : Nat), len < 2 ^ 31 → hgicGetFwCodeChecksum e m len = 0 →
      Corrupts q (load32 e m 12) len m m' → load32 e m' 123 = load32 e m 123 →
      hgicCrc32 (m'.read (load32 e m 12) (len - load32 e m 12)) ≠
        ~~~ hgicCrc32 (m.read (load32 e m 12) (len - load32 e m 12)) → hgicGetFwCodeChecksum e m' len ≠ 0) := by
  refine ⟨fun h => ?_, fun h => ?_, fun h => ?_⟩
  · apply h .little (imageOf 0 131 0x77f29dd1 [0x11, 0x22, 0x33, 0x44]).data
      (imageOf 0 131 0x77f29dd1 [0x73, 0xd7, 0x15, 0xd6]).data 135 0 (by decide) (by decide +kernel)
    · exact corrupts_imageOf rfl rfl (by decide +kernel) (by decide +kernel) (by decide +kernel)
    · decide +kernel
    · decide +kernel
  · apply h .little (imageOf 0 123 0x12345678 [0x2a, 0x0f, 0x47, 0x68]).data
      (imageOf 0 123 0x4cff52ab [0x2a, 0x0f, 0x47, 0x68]).data 135 0 (by decide) (by decide +kernel)
    · exact corrupts_imageOf rfl rfl (by decide +kernel) (by decide +kernel) (by decide +kernel)
    · decide +kernel
    · decide +kernel
    · decide +kernel
  · have hcrc : hgicCrc32 ((imageOf 0 12 0 [0x4c, 0x59, 0xf1, 0xca]).data.read 12 (62 + 61)) = ~~~ 0xffffffff#32 :=
      hgicCrc32_read_add (r := 0x46d64734#32) (by decide +kernel) (by decide +kernel)
    have hcrc' : hgicCrc32 ((imageOf 0 135 0 [0x4c, 0x59, 0xf1, 0xca]).data.read 12 (62 + 61)) = ~~~ 0xe485adb#32 :=
      hgicCrc32_read_add (r := 0x245d541d#32) (by decide +kernel) (by decide +kernel)
    have hoff : load32 .little (imageOf 0 12 0 [0x4c, 0x59, 0xf1, 0xca]).data 12 = 12 := by decide +kernel
    apply h .little (imageOf 0 12 0 [0x4c, 0x59, 0xf1, 0xca]).data
      (imageOf 0 135 0 [0x4c, 0x59, 0xf1, 0xca]).data 135 0 (by decide)
    · rw [hgicGetFwCodeChecksum_of_hdr (by decide +kernel) (by decide) (by rw [hoff]; decide), hoff]
      exact if_pos (.inl (by rw [hcrc]; decide +kernel))
    · rw [hoff]
      exact corrupts_imageOf rfl rfl (by decide +kernel) (by decide +kernel) (by decide +kernel)
    · decide +kernel
    · rw [hoff, hcrc, hcrc']
      decide
    · decide +kernel

end HgicFmac.Fwinfo
