import HgicFmac.Lib.Bits
import HgicFmac.Lib.Crc

/-!
# Cyclic redundancy checks with the highest bit first, and frames that end with one

* `wordBits`, `lineBits` : the bits of a word, and of words behind one another, as they stand on a line;
* `feedMsb` : one step of the register. Reversed it is that of the reflected register (`reverse_feedMsb`);
* `crcMsb p r xs` : the register after the bits `xs`;
* `crcMsb_frame_iff` : a message with a word behind it leaves 0 exactly if the word is its CRC;
* `frame_eq_of_differIn` : two frames that pass the check and differ only in a window of the width are equal.
-/

namespace HgicFmac.Lib
open Polynomial

variable {w : Nat}

/-! ## Bits of words -/

def wordBits (x : BitVec w) : List Bool := (List.range w).map x.getMsbD

def lineBits (xs : List (BitVec w)) : List Bool := xs.flatMap wordBits

@[simp] theorem length_wordBits (x : BitVec w) : (wordBits x).length = w := by simp [wordBits]

@[simp] theorem length_lineBits (xs : List (BitVec w)) : (lineBits xs).length = w * xs.length := by
  induction xs with
  | nil => simp [lineBits]
  | cons x xs ih =>
    have h : lineBits (x :: xs) = wordBits x ++ lineBits xs := rfl
    rw [h, List.length_append, length_wordBits, ih, List.length_cons, Nat.mul_succ, Nat.add_comm]

theorem lineBits_append (xs ys : List (BitVec w)) : lineBits (xs ++ ys) = lineBits xs ++ lineBits ys :=
  List.flatMap_append

theorem wordBits_window (line : Nat → Bool) (p : Nat) :
    wordBits (window w line p) = (List.range w).map fun i => line (p + i) := by
  apply List.map_congr_left
  intro i hi
  rw [getMsbD_window, decide_eq_true (List.mem_range.1 hi), Bool.true_and]

theorem lineBits_windows (line : Nat → Bool) (p n : Nat) :
    lineBits (windows w line p n) = (List.range (w * n)).map fun i => line (p + i) := by
  induction n generalizing p with
  | zero => simp [windows, lineBits]
  | succ n ih =>
    have h : lineBits (windows w line p (n + 1)) = wordBits (window w line p) ++ lineBits (windows w line (p + w) n) :=
      rfl
    rw [h, wordBits_window, ih, Nat.mul_succ, Nat.add_comm (w * n) w, List.range_add, List.map_append, List.map_map]
    congr 1
    apply List.map_congr_left
    intro i _
    exact congrArg line (Nat.add_assoc p w i)

theorem wordBits_inj {x y : BitVec w} (h : wordBits x = wordBits y) : x = y := by
  apply BitVec.eq_of_getMsbD_eq
  intro i hi
  exact (List.map_inj_left.1 h) i (List.mem_range.2 hi)

theorem lineBits_inj {xs ys : List (BitVec w)} (hlen : xs.length = ys.length) (h : lineBits xs = lineBits ys) :
    xs = ys := by
  induction xs generalizing ys with
  | nil => exact (List.length_eq_zero_iff.1 hlen.symm).symm
  | cons x xs ih =>
    cases ys with
    | nil => cases hlen
    | cons y ys =>
      have hcons : wordBits x ++ lineBits xs = wordBits y ++ lineBits ys := h
      obtain ⟨hhead, htail⟩ := List.append_inj hcons (by rw [length_wordBits, length_wordBits])
      rw [wordBits_inj hhead, ih (Nat.succ.inj hlen) htail]

theorem wordBits_append {v : Nat} (x : BitVec w) (y : BitVec v) : wordBits (x ++ y) = wordBits x ++ wordBits y := by
  unfold wordBits
  rw [List.range_add, List.map_append, List.map_map]
  congr 1 <;> apply List.map_congr_left <;> intro i hi
  · have hlt : ¬ w ≤ i := by simpa using hi
    rw [BitVec.getMsbD_append]
    simp [hlt]
  · rw [Function.comp, BitVec.getMsbD_append, Nat.add_sub_cancel_left]
    simp

theorem coeff_bitsPoly (bs : List Bool) {n : Nat} (hn : n < bs.length) :
    (bitsPoly bs).coeff n = gf2 (bs.getD (bs.length - 1 - n) false) := by
  induction bs with
  | nil => simp at hn
  | cons b bs ih =>
    rw [bitsPoly, coeff_add, coeff_C_mul_X_pow]
    by_cases h : n = bs.length
    · have hzero : (bitsPoly bs).coeff n = 0 := by
        rw [h]
        exact coeff_eq_zero_of_degree_lt (degree_bitsPoly_lt bs)
      rw [if_pos h, hzero, add_zero, h, List.length_cons, Nat.add_sub_cancel, Nat.sub_self, List.getD_cons_zero]
    · rw [List.length_cons] at hn
      have hpos : bs.length - n = bs.length - 1 - n + 1 := by omega
      rw [if_neg h, zero_add, ih (by omega), List.length_cons, Nat.add_sub_cancel, hpos, List.getD_cons_succ]

theorem bitsPoly_wordBits (x : BitVec w) : bitsPoly (wordBits x) = wordPoly x := by
  ext n
  rw [coeff_wordPoly]
  by_cases hn : n < w
  · have hlt : w - 1 - n < w := by omega
    have hback : w - 1 - (w - 1 - n) = n := by omega
    rw [coeff_bitsPoly _ (by rwa [length_wordBits]), length_wordBits]
    congr 1
    rw [wordBits, List.getD_eq_getElem?_getD, List.getElem?_map, List.getElem?_range hlt]
    change x.getMsbD (w - 1 - n) = _
    rw [BitVec.getMsbD_eq_getLsbD, decide_eq_true hlt, Bool.true_and, hback]
  · have hdeg : (bitsPoly (wordBits x)).degree < n := by
      refine (degree_bitsPoly_lt _).trans_le ?_
      rw [length_wordBits]
      exact_mod_cast Nat.le_of_not_lt hn
    rw [coeff_eq_zero_of_degree_lt hdeg, BitVec.getLsbD_of_ge x n (Nat.le_of_not_lt hn)]
    rfl

/-! ## The register -/

def feedMsb (p r : BitVec w) (b : Bool) : BitVec w := if r.msb ^^ b then (r <<< 1) ^^^ p else r <<< 1

def crcMsb (p r : BitVec w) (xs : List Bool) : BitVec w := xs.foldl (feedMsb p) r

theorem crcMsb_append (p r : BitVec w) (xs ys : List Bool) : crcMsb p r (xs ++ ys) = crcMsb p (crcMsb p r xs) ys :=
  List.foldl_append

theorem reverse_feedMsb (p r : BitVec w) (b : Bool) :
    (feedMsb p r b).reverse = feedBit p.reverse r.reverse b := by
  have hshift : (r <<< 1).reverse = r.reverse >>> 1 := by
    apply BitVec.eq_of_getLsbD_eq
    intro i _
    rw [BitVec.getLsbD_reverse, BitVec.getMsbD_shiftLeft, BitVec.getLsbD_ushiftRight, BitVec.getLsbD_reverse,
      Nat.add_comm]
  have hxor : (r <<< 1 ^^^ p).reverse = r.reverse >>> 1 ^^^ p.reverse := by
    rw [← hshift]
    apply BitVec.eq_of_getLsbD_eq
    intro i _
    rw [BitVec.getLsbD_reverse, BitVec.getMsbD_xor, BitVec.getLsbD_xor, BitVec.getLsbD_reverse, BitVec.getLsbD_reverse]
  unfold feedMsb feedBit
  rw [BitVec.getLsbD_reverse, ← BitVec.msb_eq_getMsbD_zero]
  split
  · exact hxor
  · exact hshift

theorem reverse_crcMsb (p r : BitVec w) (xs : List Bool) :
    (crcMsb p r xs).reverse = xs.foldl (feedBit p.reverse) r.reverse := by
  induction xs generalizing r with
  | nil => rfl
  | cons b xs ih =>
    rw [crcMsb, List.foldl_cons, List.foldl_cons, ← reverse_feedMsb]
    exact ih (feedMsb p r b)

/-- A word fed behind a register leaves 0 exactly if it is the word in the register. -/
theorem crcMsb_word_iff (hw : 0 < w) {p : BitVec w} (hp : p.getLsbD 0 = true) (r c : BitVec w) :
    crcMsb p r (wordBits c) = 0 ↔ c = r := by
  have hrem := regPoly_feedBits hw p r.reverse (wordBits c)
  rw [← reverse_crcMsb, regPoly_reverse, regPoly_reverse, bitsPoly_wordBits, length_wordBits, ← mul_add] at hrem
  have hzero : wordPoly (0 : BitVec w) = 0 := by
    ext n
    rw [coeff_wordPoly, coeff_zero]
    simp [gf2]
  constructor
  · intro h
    rw [h, hzero, modByMonic_eq_zero_iff_dvd (generator_monic p)] at hrem
    have hdvd : generator p ∣ wordPoly c + wordPoly r := (isCoprime_generator hw hp w).dvd_of_dvd_mul_left hrem
    have hsum : wordPoly c + wordPoly r = 0 := by
      rw [← (modByMonic_eq_zero_iff_dvd (generator_monic p)).2 hdvd, eq_comm,
        modByMonic_eq_self_iff (generator_monic p), degree_generator]
      exact (degree_add_le _ _).trans_lt (max_lt (degree_wordPoly_lt c) (degree_wordPoly_lt r))
    have hsame : wordPoly c = wordPoly r := by rwa [CharTwo.add_eq_zero] at hsum
    rw [← polyWord_wordPoly c, hsame, polyWord_wordPoly]
  · rintro rfl
    rw [CharTwo.add_self_eq_zero, mul_zero, zero_modByMonic] at hrem
    rw [← polyWord_wordPoly (crcMsb p c (wordBits c)), ← hrem, ← hzero, polyWord_wordPoly]

/-! ## Frames -/

theorem crcMsb_frame_iff (hw : 0 < w) {p : BitVec w} (hp : p.getLsbD 0 = true) (r c : BitVec w) (xs : List Bool) :
    crcMsb p r (xs ++ wordBits c) = 0 ↔ c = crcMsb p r xs := by
  rw [crcMsb_append, crcMsb_word_iff hw hp]

theorem DifferIn.of_append {q n : Nat} {xs ys xs' ys' : List Bool} (hlen : xs.length = ys.length)
    (h : DifferIn q n (xs ++ xs') (ys ++ ys')) : DifferIn q n xs ys := by
  intro i hne
  apply h i
  by_cases hi : i < xs.length
  · rwa [List.getElem?_append_left hi, List.getElem?_append_left (by omega)]
  · exact absurd (by rw [List.getElem?_eq_none (by omega), List.getElem?_eq_none (by omega)]) hne

theorem frame_eq_of_differIn (hw : 0 < w) {p : BitVec w} (hp : p.getLsbD 0 = true) {r : BitVec w} {xs ys : List Bool}
    (hlen : xs.length = ys.length) {q : Nat} (hdiff : DifferIn q w xs ys) (hx : crcMsb p r xs = 0)
    (hy : crcMsb p r ys = 0) : xs = ys := by
  apply bits_eq_of_feedBits hw hp r.reverse hlen hdiff
  rw [← reverse_crcMsb, ← reverse_crcMsb, hx, hy]

end HgicFmac.Lib
