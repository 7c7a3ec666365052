import Mathlib.Algebra.Polynomial.Div
import Mathlib.Algebra.Field.ZMod
import Mathlib.RingTheory.Coprime.Lemmas
import Mathlib.Tactic.LinearCombination

/-!
# Reflected cyclic redundancy checks

* `wordPoly`, `bitsPoly` : the polynomials over GF(2) of a word (bit `i` is the coefficient of `X ^ i`) and of a list of
  bits (the first bit has the highest degree);
* `generator p` : `X ^ w + p`, the divisor of a CRC of width `w` with the polynomial `p`;
* `reflectedCrc` : the CRC by polynomial division: the remainder of the message with the initial value in front of it,
  reflected, and the final xor;
* `feedBit` : one step of the register of the bit-serial CRC. It multiplies the polynomial of the register by `X` modulo
  the generator (`regPoly_feedBit`), so a run over a list of bits leaves the remainder in the register
  (`dvd_regPoly_feedBits`, `regPoly_feedBits`);
* `bits_eq_of_feedBits` : two lists of one length that differ only in a window of the width and leave the same register
  are the same list.
-/

namespace HgicFmac.Lib
open Polynomial

variable {w : Nat}

/-! ## Polynomials of words and of lists of bits -/

def gf2 (b : Bool) : ZMod 2 := if b then 1 else 0

theorem gf2_xor (a b : Bool) : gf2 (a ^^ b) = gf2 a + gf2 b := by
  revert a b
  decide

theorem gf2_inj {a b : Bool} : gf2 a = gf2 b ↔ a = b := by
  revert a b
  decide

theorem gf2_eq_one {a : Bool} : gf2 a = 1 ↔ a = true := by
  revert a
  decide

/-- The polynomial of a word. Bit `i` is the coefficient of `X ^ i`. -/
noncomputable def wordPoly (p : BitVec w) : (ZMod 2)[X] := ∑ i ∈ Finset.range w, C (gf2 (p.getLsbD i)) * X ^ i

/-- The polynomial of a list of bits. The first bit has the highest degree. -/
noncomputable def bitsPoly : List Bool → (ZMod 2)[X]
  | [] => 0
  | b :: bs => C (gf2 b) * X ^ bs.length + bitsPoly bs

/-- The low coefficients of a polynomial, as a word. -/
noncomputable def polyWord (w : Nat) (f : (ZMod 2)[X]) : BitVec w :=
  BitVec.ofNat w (Nat.ofBits fun i : Fin w => decide (f.coeff i = 1))

/-- The divisor of a CRC; the highest bit of its polynomial is not in the word. -/
noncomputable def generator (p : BitVec w) : (ZMod 2)[X] := X ^ w + wordPoly p

/-- The bits of a message of bytes, the least significant bit of each byte first. -/
def messageBits (bs : List UInt8) : List Bool := bs.flatMap fun b => (List.range 8).map b.toBitVec.getLsbD

/-- The reflected CRC of a message, by division: `w` zero bits follow the message, the initial value is added to its
first `w` bits, and the remainder is reflected. -/
noncomputable def reflectedCrc (p init xorOut : BitVec w) (bs : List UInt8) : BitVec w :=
  let message := messageBits bs
  (polyWord w ((X ^ w * bitsPoly message + X ^ message.length * wordPoly init) %ₘ generator p)).reverse ^^^ xorOut

theorem coeff_wordPoly (p : BitVec w) (n : Nat) : (wordPoly p).coeff n = gf2 (p.getLsbD n) := by
  unfold wordPoly
  rw [finsetSum_coeff]
  simp only [coeff_C_mul_X_pow]
  by_cases hn : n < w
  · simp [hn]
  · simp [hn, BitVec.getLsbD_of_ge p n (by omega), gf2]

theorem degree_wordPoly_lt (p : BitVec w) : (wordPoly p).degree < w := by
  rw [degree_lt_iff_coeff_zero]
  intro n hn
  rw [coeff_wordPoly, BitVec.getLsbD_of_ge p n hn]
  rfl

theorem polyWord_wordPoly (p : BitVec w) : polyWord w (wordPoly p) = p := by
  apply BitVec.eq_of_getLsbD_eq
  intro i hi
  unfold polyWord
  rw [BitVec.getLsbD_ofNat, Nat.testBit_ofBits_lt _ i hi]
  simp only [hi, coeff_wordPoly, gf2_eq_one, decide_true, Bool.true_and, Bool.decide_eq_true]

theorem generator_monic (p : BitVec w) : (generator p).Monic := monic_X_pow_add (degree_wordPoly_lt p)

theorem degree_generator (p : BitVec w) : (generator p).degree = w := by
  unfold generator
  rw [degree_add_eq_left_of_degree_lt] <;> rw [degree_X_pow]
  exact degree_wordPoly_lt p

/-! ## The register -/

/-- The polynomial of the register of a reflected CRC: bit 0 has the highest degree. -/
noncomputable def regPoly (r : BitVec w) : (ZMod 2)[X] := wordPoly r.reverse

/-- One step of the register: the bit that leaves it is compared with the bit of the message. -/
def feedBit (q r : BitVec w) (b : Bool) : BitVec w := if r.getLsbD 0 ^^ b then (r >>> 1) ^^^ q else r >>> 1

theorem coeff_regPoly (r : BitVec w) (n : Nat) : (regPoly r).coeff n = gf2 (r.getMsbD n) := by
  unfold regPoly
  rw [coeff_wordPoly, BitVec.getLsbD_reverse]

theorem regPoly_xor (r s : BitVec w) : regPoly (r ^^^ s) = regPoly r + regPoly s := by
  ext n
  simp only [coeff_add, coeff_regPoly, BitVec.getMsbD_xor, gf2_xor]

theorem regPoly_reverse (p : BitVec w) : regPoly p.reverse = wordPoly p := by
  ext n
  rw [coeff_regPoly, BitVec.getMsbD_reverse, coeff_wordPoly]

/-- A shift of the register multiplies by `X`; the bit that leaves it becomes the coefficient of `X ^ w`. -/
theorem X_mul_regPoly (hw : 0 < w) (r : BitVec w) :
    X * regPoly r = regPoly (r >>> 1) + C (gf2 (r.getLsbD 0)) * X ^ w := by
  ext n
  cases n with
  | zero =>
    have h0 : (r >>> 1).getMsbD 0 = false := by
      rw [BitVec.getMsbD_eq_getLsbD, BitVec.getLsbD_ushiftRight, BitVec.getLsbD_of_ge _ _ (by omega), Bool.and_false]
    rw [coeff_X_mul_zero, coeff_add, coeff_regPoly, h0, coeff_C_mul_X_pow, if_neg (by omega)]
    rfl
  | succ k =>
    rw [coeff_X_mul, coeff_add, coeff_regPoly, coeff_regPoly, coeff_C_mul_X_pow]
    rcases Nat.lt_trichotomy (k + 1) w with hk | hk | hk
    · have hbit : (r >>> 1).getMsbD (k + 1) = r.getMsbD k := by
        rw [BitVec.getMsbD_eq_getLsbD, BitVec.getMsbD_eq_getLsbD, BitVec.getLsbD_ushiftRight,
          show 1 + (w - 1 - (k + 1)) = w - 1 - k by omega]
        simp [hk, Nat.lt_of_succ_lt hk]
      rw [hbit, if_neg (by omega), add_zero]
    · have hout : (r >>> 1).getMsbD (k + 1) = false := BitVec.getMsbD_of_ge _ _ (by omega)
      have hlow : r.getMsbD k = r.getLsbD 0 := by
        rw [BitVec.getMsbD_eq_getLsbD, show w - 1 - k = 0 by omega]
        simp [show k < w by omega]
      rw [hout, hlow, if_pos hk]
      exact (zero_add _).symm
    · have hout : (r >>> 1).getMsbD (k + 1) = false := BitVec.getMsbD_of_ge _ _ (by omega)
      rw [hout, BitVec.getMsbD_of_ge r k (by omega), if_neg (by omega), add_zero]

/-- A step of the register multiplies by `X`, adds the bit of the message above the register and takes the generator
off when the bit that leaves is set. -/
theorem regPoly_feedBit (hw : 0 < w) (p r : BitVec w) (b : Bool) :
    regPoly (feedBit p.reverse r b) =
      X * regPoly r + C (gf2 b) * X ^ w + C (gf2 (r.getLsbD 0 ^^ b)) * generator p := by
  have hshift := X_mul_regPoly hw r
  have h2 : (2 : (ZMod 2)[X]) = 0 := CharTwo.two_eq_zero
  unfold feedBit generator
  generalize r.getLsbD 0 = c at hshift ⊢
  cases c <;> cases b <;>
    simp only [Bool.xor_false, Bool.xor_true, Bool.not_true, Bool.not_false, Bool.false_eq_true, if_true, if_false,
      regPoly_xor, regPoly_reverse, gf2, map_zero, map_one, zero_mul, one_mul, add_zero] at hshift ⊢
  · exact hshift.symm
  · linear_combination -hshift - X ^ w * h2
  · linear_combination -hshift - X ^ w * h2
  · linear_combination -hshift - X ^ w * h2

theorem dvd_regPoly_feedBits (hw : 0 < w) (p r : BitVec w) (bs : List Bool) :
    generator p ∣ X ^ w * bitsPoly bs + X ^ bs.length * regPoly r - regPoly (bs.foldl (feedBit p.reverse) r) := by
  induction bs generalizing r with
  | nil => simp [bitsPoly]
  | cons b bs ih =>
    obtain ⟨f, hf⟩ := ih (feedBit p.reverse r b)
    rw [regPoly_feedBit hw] at hf
    rw [List.foldl_cons]
    refine ⟨f - X ^ bs.length * C (gf2 (r.getLsbD 0 ^^ b)), ?_⟩
    simp only [bitsPoly, List.length_cons]
    linear_combination hf

theorem regPoly_feedBits (hw : 0 < w) (p r : BitVec w) (bs : List Bool) :
    (X ^ w * bitsPoly bs + X ^ bs.length * regPoly r) %ₘ generator p =
      regPoly (bs.foldl (feedBit p.reverse) r) := by
  rw [modByMonic_eq_of_dvd_sub (generator_monic p) (dvd_regPoly_feedBits hw p r bs),
    modByMonic_eq_self_iff (generator_monic p), degree_generator]
  exact degree_wordPoly_lt _

/-- The reflected CRC by division is that of the register with the reflected constants. -/
theorem reflectedCrc_eq (hw : 0 < w) (p init xorOut : BitVec w) (bs : List UInt8) :
    reflectedCrc p init xorOut bs = (messageBits bs).foldl (feedBit p.reverse) init.reverse ^^^ xorOut := by
  simp only [reflectedCrc]
  rw [← regPoly_reverse init, regPoly_feedBits hw]
  unfold regPoly
  rw [polyWord_wordPoly, BitVec.reverse_reverse_eq]

/-! ## Bursts -/

/-- The lists differ at most in the `n` places from `q` on. -/
def DifferIn (q n : Nat) (xs ys : List Bool) : Prop := ∀ i, xs[i]? ≠ ys[i]? → q ≤ i ∧ i < q + n

theorem differIn_iff {q n : Nat} {xs ys : List Bool} :
    DifferIn q n xs ys ↔ xs.take q = ys.take q ∧ xs.drop (q + n) = ys.drop (q + n) := by
  constructor
  · intro h
    constructor <;> apply List.ext_getElem? <;> intro i <;> by_contra hne
    · by_cases hi : i < q
      · rw [List.getElem?_take_of_lt hi, List.getElem?_take_of_lt hi] at hne
        have := h i hne
        omega
      · simp [hi] at hne
    · rw [List.getElem?_drop, List.getElem?_drop] at hne
      have := h _ hne
      omega
  · rintro ⟨htake, hdrop⟩ i hne
    constructor <;> by_contra hi <;> apply hne
    · rw [← List.getElem?_take_of_lt (j := q) (by omega), htake, List.getElem?_take_of_lt (by omega)]
    · have h := congrArg (fun l => l[i - (q + n)]?) hdrop
      simpa only [List.getElem?_drop, show q + n + (i - (q + n)) = i by omega] using h

instance (q n : Nat) (xs ys : List Bool) : Decidable (DifferIn q n xs ys) := decidable_of_iff _ differIn_iff.symm

theorem bitsPoly_append (xs ys : List Bool) : bitsPoly (xs ++ ys) = bitsPoly xs * X ^ ys.length + bitsPoly ys := by
  induction xs with
  | nil => simp [bitsPoly]
  | cons b xs ih =>
    simp only [List.cons_append, bitsPoly, List.length_append, ih]
    ring

theorem degree_bitsPoly_lt (bs : List Bool) : (bitsPoly bs).degree < bs.length := by
  induction bs with
  | nil => simp [bitsPoly]
  | cons b bs ih =>
    have hlead : (C (gf2 b) * X ^ bs.length : (ZMod 2)[X]).degree ≤ bs.length := degree_C_mul_X_pow_le _ _
    have hlt : ((bs.length : Nat) : WithBot Nat) < ((b :: bs).length : Nat) := by
      rw [List.length_cons]
      exact_mod_cast Nat.lt_succ_self _
    exact (degree_add_le _ _).trans_lt (max_lt (hlead.trans_lt hlt) (ih.trans hlt))

theorem bitsPoly_inj {xs ys : List Bool} (hlen : xs.length = ys.length) (h : bitsPoly xs = bitsPoly ys) : xs = ys := by
  induction xs generalizing ys with
  | nil => exact (List.length_eq_zero_iff.1 hlen.symm).symm
  | cons a xs ih =>
    cases ys with
    | nil => cases hlen
    | cons b ys =>
      have hlen' : xs.length = ys.length := Nat.succ.inj hlen
      -- the leading coefficients are the first bits
      have hzero : ∀ bs : List Bool, (bitsPoly bs).coeff bs.length = 0 := by
        intro bs
        exact coeff_eq_zero_of_degree_lt (degree_bitsPoly_lt bs)
      have hhead : gf2 a + (bitsPoly xs).coeff xs.length = gf2 b + (bitsPoly ys).coeff ys.length := by
        have hcoeff := congrArg (fun f => f.coeff xs.length) h
        simpa only [bitsPoly, coeff_add, coeff_C_mul_X_pow, if_true, hlen'] using hcoeff
      rw [hzero, hzero, add_zero, add_zero, gf2_inj] at hhead
      subst hhead
      have htail : bitsPoly xs = bitsPoly ys := by
        simpa only [bitsPoly, hlen', add_right_inj] using h
      rw [ih hlen' htail]

theorem isCoprime_generator (hw : 0 < w) {p : BitVec w} (hp : p.getLsbD 0 = true) (k : Nat) :
    IsCoprime (generator p) (X ^ k) := by
  have hconst : (generator p - 1).coeff 0 = 0 := by
    unfold generator
    rw [coeff_sub, coeff_add, coeff_wordPoly, hp, coeff_X_pow, if_neg (by omega), coeff_one_zero]
    decide
  obtain ⟨f, hf⟩ := X_dvd_iff.2 hconst
  have hX : IsCoprime (generator p) X := ⟨1, -f, by linear_combination hf⟩
  exact hX.pow_right

/-- Two messages that differ at most in `w` places, one after the other, and leave the same register. -/
theorem bits_eq_of_feedBits (hw : 0 < w) {p : BitVec w} (hp : p.getLsbD 0 = true) (r : BitVec w) {xs ys : List Bool}
    (hlen : xs.length = ys.length) {q : Nat} (hdiff : DifferIn q w xs ys)
    (h : xs.foldl (feedBit p.reverse) r = ys.foldl (feedBit p.reverse) r) : xs = ys := by
  obtain ⟨hhead, hlast⟩ := differIn_iff.1 hdiff
  have hsplit : ∀ bs : List Bool, bs = bs.take q ++ ((bs.drop q).take w ++ bs.drop (q + w)) := by
    intro bs
    rw [← List.drop_drop, List.take_append_drop, List.take_append_drop]
  have hmidlen : ((xs.drop q).take w).length = ((ys.drop q).take w).length := by
    simp [hlen]
  -- the generator divides the difference of the windows, whose degree is too small
  have hdvd : generator p ∣ bitsPoly ((xs.drop q).take w) - bitsPoly ((ys.drop q).take w) := by
    obtain ⟨f, hf⟩ := dvd_regPoly_feedBits hw p r xs
    obtain ⟨g, hg⟩ := dvd_regPoly_feedBits hw p r ys
    have hx := congrArg bitsPoly (hsplit xs)
    have hy := congrArg bitsPoly (hsplit ys)
    rw [bitsPoly_append, bitsPoly_append] at hx hy
    rw [← hhead, ← hlast, List.length_append, ← hmidlen, ← List.length_append] at hy
    apply ((isCoprime_generator hw hp (w + (xs.drop (q + w)).length))).dvd_of_dvd_mul_left
    refine ⟨f - g, ?_⟩
    rw [h, hlen] at hf
    rw [pow_add]
    linear_combination hf - hg - X ^ w * hx + X ^ w * hy
  have hmid : bitsPoly ((xs.drop q).take w) = bitsPoly ((ys.drop q).take w) := by
    apply sub_eq_zero.1
    rw [← (modByMonic_eq_zero_iff_dvd (generator_monic p)).2 hdvd, eq_comm,
      modByMonic_eq_self_iff (generator_monic p), degree_generator]
    have hle : ∀ bs : List Bool, (bitsPoly (bs.take w)).degree < w := by
      intro bs
      refine (degree_bitsPoly_lt _).trans_le ?_
      exact_mod_cast List.length_take_le _ _
    exact (degree_sub_le _ _).trans_lt (max_lt (hle _) (hle _))
  rw [hsplit xs, hsplit ys, hhead, hlast, bitsPoly_inj hmidlen hmid]

end HgicFmac.Lib
