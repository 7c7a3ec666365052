import HgicFmac.SendFw.Model

/-!
# `hgic_ota_check_sum`

* `FitsS32` : the values of a signed 32-bit variable;
* `DifferInOneWord` : buffers of one length in which a single word differs, and not as `0x0000` from `0xFFFF`;
* `CheckSumSound` : the sum does not overflow, the folding loop ends, the little-endian words and the checksum add up to
  0 modulo 65535, and a difference in one word shows in the checksum;
* `check_sum_host` : for every buffer whose length fits 16 bits all of this holds of the words that the host reads;
* `check_sum_sound_iff` : of the little-endian words it holds exactly when the host is little-endian or its words have
  the same sum modulo 65535.
-/

namespace HgicFmac.SendFw
open Lib

def FitsS32 (s : Int) : Prop := -2 ^ 31 ≤ s ∧ s < 2 ^ 31

/-- `*addr`, for `u8 *addr`. -/
def u8Val (b : UInt8) : Int := b.toNat

theorem u8Val_nonneg (b : UInt8) : 0 ≤ u8Val b := Int.natCast_nonneg b.toNat

theorem u8Val_le (b : UInt8) : u8Val b ≤ 255 := Int.ofNat_le.mpr (Nat.le_of_lt_succ b.toNat_lt)

def DifferInOneWord (e : Endian) (bs bs' : List UInt8) : Prop :=
  bs.length = bs'.length ∧ ∃ pre post a b, words e u8Val bs = pre ++ a :: post ∧ words e u8Val bs' = pre ++ b :: post ∧
    a ≠ b ∧ ¬ (a = 0 ∧ b = 0xFFFF) ∧ ¬ (a = 0xFFFF ∧ b = 0)

structure CheckSumSound (e : Endian) (bs : List UInt8) : Prop where
  partialSums_fit : ∀ s ∈ partialSums e u8Val 0 bs, FitsS32 s
  last_eq : (partialSums e u8Val 0 bs).getLast? = some (wordSum e u8Val bs)
  foldSums_fit : ∀ s ∈ foldSums foldPasses (wordSum e u8Val bs), FitsS32 s
  ends : Ends foldPass (wordSum e u8Val bs) (foldSum foldPasses (wordSum e u8Val bs))
  sum_eq_zero : (wordSum .little u8Val bs + hgicOtaCheckSum e bs) % 65535 = 0
  checkSum_ne : ∀ bs', DifferInOneWord e bs bs' → hgicOtaCheckSum e bs ≠ hgicOtaCheckSum e bs'

section Sum
variable (e : Endian) {bs : List UInt8}

theorem u8Sum_nonneg (bs : List UInt8) : 0 ≤ wordSum e u8Val bs :=
  le_wordSum (Int.le_refl 0) u8Val_nonneg bs

/-- The bound that the length of 16 bits is for: `32767 * 65535 + 255` is less than `2 ^ 31`. -/
theorem u8Sum_lt (h : bs.length ≤ 65535) : wordSum e u8Val bs < 2 ^ 31 := by
  have hsum := wordSum_le (e := e) u8Val_le bs
  omega

theorem words_range (bs : List UInt8) : ∀ w ∈ words e u8Val bs, 0 ≤ w ∧ w ≤ 65535 := by
  fun_induction words e u8Val bs with
  | case1 =>
    intro w hw
    cases hw
  | case2 b =>
    intro w hw
    have hb := u8Val_le b
    rw [List.mem_singleton.mp hw]
    exact ⟨u8Val_nonneg b, by omega⟩
  | case3 a b bs ih =>
    intro w hw
    rcases List.mem_cons.mp hw with rfl | hw
    · exact ⟨word16_nonneg e a b, word16_le e a b⟩
    · exact ih w hw

/-- Only 0 and 65535 are words that differ and are the same modulo 65535. -/
theorem emod_ne_of_differ {bs' : List UInt8} (h : DifferInOneWord e bs bs') :
    wordSum e u8Val bs % 65535 ≠ wordSum e u8Val bs' % 65535 := by
  obtain ⟨-, pre, post, a, b, hw, hw', hne, h0, h1⟩ := h
  have ha := words_range e bs a (by simp [hw])
  have hb := words_range e bs' b (by simp [hw'])
  rw [← sum_words, ← sum_words, hw, hw', List.sum_append, List.sum_append, List.sum_cons, List.sum_cons]
  omega

end Sum

theorem check_sum_host (e : Endian) (bs : List UInt8) (h : bs.length ≤ 65535) :
    (∀ s ∈ partialSums e u8Val 0 bs, FitsS32 s) ∧
    (partialSums e u8Val 0 bs).getLast? = some (wordSum e u8Val bs) ∧
    (∀ s ∈ foldSums foldPasses (wordSum e u8Val bs), FitsS32 s) ∧
    Ends foldPass (wordSum e u8Val bs) (foldSum foldPasses (wordSum e u8Val bs)) ∧
    (wordSum e u8Val bs + hgicOtaCheckSum e bs) % 65535 = 0 ∧
    ∀ bs', DifferInOneWord e bs bs' → hgicOtaCheckSum e bs ≠ hgicOtaCheckSum e bs' := by
  have hnonneg := u8Sum_nonneg e
  have hlt := u8Sum_lt e h
  have hlo : -65535 ≤ wordSum e u8Val bs := by
    have := hnonneg bs
    omega
  refine ⟨?_, ?_, ?_, ends_foldSum (folded hlo hlt), wordSum_add_checkSum hlo hlt, ?_⟩
  · intro s hs
    have hrange := partialSums_range u8Val_nonneg s hs
    unfold FitsS32
    omega
  · rw [getLast_partialSums, Int.zero_add]
  · intro s hs
    have hrange := foldSum_range foldPasses hlo hlt s hs
    unfold FitsS32
    omega
  · intro bs' hdiff
    have hlt' : wordSum e u8Val bs' < 2 ^ 31 := u8Sum_lt e (hdiff.1 ▸ h)
    have hlo' : -65535 ≤ wordSum e u8Val bs' := by
      have := hnonneg bs'
      omega
    exact checkSum_ne hlo hlt hlo' hlt' (emod_ne_of_differ e hdiff)

theorem check_sum_sound_iff (e : Endian) (bs : List UInt8) (h : bs.length ≤ 65535) :
    CheckSumSound e bs ↔
      e = .little ∨ wordSum e u8Val bs % 65535 = wordSum .little u8Val bs % 65535 := by
  obtain ⟨hparts, hlast, hfold, hends, hsum, hne⟩ := check_sum_host e bs h
  constructor
  · intro hsound
    -- both sums are the opposite of the checksum
    have hle := hsound.sum_eq_zero
    right
    omega
  · intro hcond
    have hmod : wordSum e u8Val bs % 65535 = wordSum .little u8Val bs % 65535 := by
      rcases hcond with rfl | hmod
      · rfl
      · exact hmod
    exact ⟨hparts, hlast, hfold, hends, by omega, hne⟩

/-- A carry out of 16 bits and an odd byte; a buffer in which only this byte differs. -/
theorem check_sum_sound_iff_odd : (hgicOtaCheckSum .little [0xFF, 0xFF, 0x02, 0x00, 0x05] : Int) = 65528 ∧
    hgicOtaCheckSum .little [0xFF, 0xFF, 0x02, 0x00, 0x05] ≠ hgicOtaCheckSum .little [0xFF, 0xFF, 0x02, 0x00, 0x85] :=
  ⟨by decide, ((check_sum_sound_iff .little [0xFF, 0xFF, 0x02, 0x00, 0x05] (by decide)).mpr (.inl rfl)).checkSum_ne _
    ⟨rfl, [0xFFFF, 2], [], 5, 0x85, by decide, by decide, by decide, by decide, by decide⟩⟩

/-- `hgic_ota_fill_hdr` has the device read this checksum: 1 and 65279 do not add up to 0. -/
theorem check_sum_sound_fails_big : [0x01, 0x00].length ≤ 65535 ∧ hgicOtaCheckSum .big [0x01, 0x00] = 65279 ∧
    ¬ CheckSumSound .big [0x01, 0x00] := by
  refine ⟨by decide, by decide, fun h => ?_⟩
  have hsum := h.sum_eq_zero
  revert hsum
  decide

end HgicFmac.SendFw
