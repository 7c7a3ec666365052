import HgicFmac.Fwinfo
import HgicFmac.Lib.Crc

/-!
# The CRCs of the firmware header: `hgic_crc16`, `hgic_crc32`

* `crcByte_eq` : a byte of the loops is eight steps of the register of `Lib.Crc`, the least significant bit first;
* `hgicCrc_eq_reflectedCrc` : both functions are the reflected CRC of their comment, by polynomial division;
* `hgicCrc_ne_of_differIn` : a burst that fits into the register changes the CRC.
-/

namespace HgicFmac.Fwinfo
open Lib

variable {w : Nat}

def hgicCrc16 (bs : List UInt8) : BitVec 16 := bs.foldl (crcByte 0xA001#16) 0xffff#16

theorem crcBit_xor (q s u : BitVec w) : crcBit q (s ^^^ u) = feedBit q s (u.getLsbD 0) ^^^ (u >>> 1) := by
  unfold crcBit feedBit
  rw [BitVec.getLsbD_xor, BitVec.ushiftRight_xor_distrib]
  split
  · rw [BitVec.xor_assoc, BitVec.xor_comm (u >>> 1), ← BitVec.xor_assoc]
  · rfl

theorem repeat_crcBit (q r v : BitVec w) (k : Nat) :
    Nat.repeat (crcBit q) k (r ^^^ v) = ((List.range k).map v.getLsbD).foldl (feedBit q) r ^^^ (v >>> k) := by
  induction k with
  | zero => simp [Nat.repeat]
  | succ k ih =>
    have hbit : (v >>> k).getLsbD 0 = v.getLsbD k := by
      rw [BitVec.getLsbD_ushiftRight, Nat.add_zero]
    rw [Nat.repeat, ih, crcBit_xor, hbit, ← BitVec.shiftRight_add, List.range_succ, List.map_append, List.foldl_append]
    rfl

theorem crcByte_eq (hw : 8 ≤ w) (q r : BitVec w) (b : UInt8) :
    crcByte q r b = ((List.range 8).map b.toBitVec.getLsbD).foldl (feedBit q) r := by
  have hhigh : (b.toBitVec.setWidth w) >>> 8 = 0#w := by
    apply BitVec.eq_of_getLsbD_eq
    intro i _
    rw [BitVec.getLsbD_ushiftRight, BitVec.getLsbD_setWidth, BitVec.getLsbD_of_ge _ _ (by omega)]
    simp
  have hlow : (List.range 8).map (b.toBitVec.setWidth w).getLsbD = (List.range 8).map b.toBitVec.getLsbD := by
    apply List.map_congr_left
    intro i hi
    have hiw : i < w := by
      have := List.mem_range.1 hi
      omega
    rw [BitVec.getLsbD_setWidth, decide_eq_true hiw, Bool.true_and]
  unfold crcByte
  rw [repeat_crcBit, hhigh, hlow, BitVec.xor_zero]

/-- The loop over the bytes is a run of the register over their bits. -/
theorem foldl_crcByte (hw : 8 ≤ w) (q r : BitVec w) (bs : List UInt8) :
    bs.foldl (crcByte q) r = (messageBits bs).foldl (feedBit q) r := by
  induction bs generalizing r with
  | nil => rfl
  | cons b bs ih =>
    rw [List.foldl_cons, ih, crcByte_eq hw, ← List.foldl_append]
    rfl

theorem reverse_crc32 : (0x04C11DB7#32).reverse = 0xEDB88320#32 := by decide +kernel

theorem reverse_crc16 : (0x8005#16).reverse = 0xA001#16 := by decide

theorem hgicCrc32_eq_feedBit (bs : List UInt8) :
    hgicCrc32 bs = ~~~ (messageBits bs).foldl (feedBit (0x04C11DB7#32).reverse) 0xffffffff#32 := by
  unfold hgicCrc32
  rw [foldl_crcByte (by decide), reverse_crc32]

theorem hgicCrc16_eq_feedBit (bs : List UInt8) :
    hgicCrc16 bs = (messageBits bs).foldl (feedBit (0x8005#16).reverse) 0xffff#16 := by
  unfold hgicCrc16
  rw [foldl_crcByte (by decide), reverse_crc16]

/-- Both CRCs are remainders of a division by the polynomials `0x04C11DB7` and `0x8005`. -/
theorem hgicCrc_eq_reflectedCrc (bs : List UInt8) :
    hgicCrc32 bs = reflectedCrc 0x04C11DB7#32 0xffffffff#32 0xffffffff#32 bs ∧
    hgicCrc16 bs = reflectedCrc 0x8005#16 0xffff#16 0#16 bs := by
  constructor
  · have hinit : (0xffffffff#32).reverse = 0xffffffff#32 := by decide +kernel
    rw [reflectedCrc_eq (by decide), hgicCrc32_eq_feedBit, hinit, show 0xffffffff#32 = BitVec.allOnes 32 by decide,
      BitVec.xor_allOnes]
  · have hinit : (0xffff#16).reverse = 0xffff#16 := by decide
    rw [reflectedCrc_eq (by decide), hgicCrc16_eq_feedBit, hinit, BitVec.xor_zero]

/-! ## Bursts -/

theorem length_messageBits (bs : List UInt8) : (messageBits bs).length = 8 * bs.length := by
  induction bs with
  | nil => rfl
  | cons b bs ih =>
    unfold messageBits at ih ⊢
    rw [List.flatMap_cons, List.length_append, ih, List.length_map, List.length_range, List.length_cons]
    omega

theorem messageBits_inj {as bs : List UInt8} (h : messageBits as = messageBits bs) : as = bs := by
  induction as generalizing bs with
  | nil =>
    have hlen := congrArg List.length h
    rw [length_messageBits, length_messageBits] at hlen
    exact (List.length_eq_zero_iff.1 (by simpa using hlen.symm)).symm
  | cons a as ih =>
    cases bs with
    | nil =>
      have hlen := congrArg List.length h
      rw [length_messageBits, length_messageBits] at hlen
      cases hlen
    | cons b bs =>
      obtain ⟨hhead, htail⟩ := List.append_inj h (by simp)
      have hab : a = b := by
        apply UInt8.toBitVec_inj.1
        apply BitVec.eq_of_getLsbD_eq
        intro i hi
        exact List.map_inj_left.1 hhead i (List.mem_range.2 hi)
      rw [hab, ih htail]

theorem eq_of_hgicCrc32 {as bs : List UInt8} {q : Nat} (hlen : as.length = bs.length)
    (hdiff : DifferIn q 32 (messageBits as) (messageBits bs)) (h : hgicCrc32 as = hgicCrc32 bs) : as = bs := by
  rw [hgicCrc32_eq_feedBit, hgicCrc32_eq_feedBit, BitVec.not_inj] at h
  apply messageBits_inj
  apply bits_eq_of_feedBits (by decide) (by decide) _ _ hdiff h
  rw [length_messageBits, length_messageBits, hlen]

theorem eq_of_hgicCrc16 {as bs : List UInt8} {q : Nat} (hlen : as.length = bs.length)
    (hdiff : DifferIn q 16 (messageBits as) (messageBits bs)) (h : hgicCrc16 as = hgicCrc16 bs) : as = bs := by
  rw [hgicCrc16_eq_feedBit, hgicCrc16_eq_feedBit] at h
  apply messageBits_inj
  apply bits_eq_of_feedBits (by decide) (by decide) _ _ hdiff h
  rw [length_messageBits, length_messageBits, hlen]

/-- A burst of 32 bits changes `hgic_crc32`, one of 16 bits changes `hgic_crc16`. -/
theorem hgicCrc_ne_of_differIn {as bs : List UInt8} (hlen : as.length = bs.length) (hne : as ≠ bs) (q : Nat) :
    (DifferIn q 32 (messageBits as) (messageBits bs) → hgicCrc32 as ≠ hgicCrc32 bs) ∧
    (DifferIn q 16 (messageBits as) (messageBits bs) → hgicCrc16 as ≠ hgicCrc16 bs) := by
  constructor
  · intro hdiff h
    exact hne (eq_of_hgicCrc32 hlen hdiff h)
  · intro hdiff h
    exact hne (eq_of_hgicCrc16 hlen hdiff h)

/-- A burst from bit 13 to bit 28. -/
theorem hgicCrc_ne_of_burst_13 :
    hgicCrc32 [0x54, 0x58, 0x57, 0x38, 0x33] ≠ hgicCrc32 [0x54, 0x78, 0xa8, 0x28, 0x33] ∧
    hgicCrc16 [0x54, 0x58, 0x57, 0x38, 0x33] ≠ hgicCrc16 [0x54, 0x78, 0xa8, 0x28, 0x33] := by
  have h := @hgicCrc_ne_of_differIn [0x54, 0x58, 0x57, 0x38, 0x33] [0x54, 0x78, 0xa8, 0x28, 0x33] rfl (by decide) 13
  exact ⟨h.1 (by decide), h.2 (by decide)⟩

end HgicFmac.Fwinfo
