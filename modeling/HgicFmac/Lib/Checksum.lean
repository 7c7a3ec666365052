import HgicFmac.Lib.Loop
import HgicFmac.Lib.Mem
import Mathlib.Algebra.Ring.Int.Defs

/-!
# The one's complement checksum over 16-bit words

* `wordSum e last bs` : the sum of the 16-bit words of `bs` as a host with the byte order `e` reads them; an odd last
  byte is widened by `last`. `words e last bs` are these words, `partialSums` the values of the sum while they are added;
* `foldSum` : the loop that adds the carries back, whose body is `foldPass`; `foldSums` are the values it goes through;
* `checkSum` : the complement of the folded sum, in 16 bits;
* a pass keeps the sum modulo 65535 (`emod_foldSum`), and a sum that fits 32 bits is folded after `foldPasses`
  (`folded`), so the sum and the checksum add up to 0 modulo 65535 (`wordSum_add_checkSum`), and sums that differ modulo
  65535 have different checksums (`checkSum_ne`).
-/

namespace HgicFmac.Lib

def word16 : Endian → UInt8 → UInt8 → Int
  | .little, a, b => a.toNat + 256 * b.toNat
  | .big, a, b => 256 * a.toNat + b.toNat

def wordSum (e : Endian) (last : UInt8 → Int) : List UInt8 → Int
  | [] => 0
  | [b] => last b
  | a :: b :: bs => word16 e a b + wordSum e last bs

/-- `while (sum >> 16) sum = (sum & 0xffff) + (sum >> 16)`, at most `n` passes. -/
def foldSum : Nat → Int → Int
  | 0, sum => sum
  | n + 1, sum => if sum / 65536 = 0 then sum else foldSum n (sum % 65536 + sum / 65536)

/-- The sum of a buffer that a 32-bit integer can count is folded after three passes. -/
def foldPasses : Nat := 4

def checkSum (e : Endian) (last : UInt8 → Int) (bs : List UInt8) : Nat :=
  ((-1 - foldSum foldPasses (wordSum e last bs)) % 65536).toNat

/-! ## The words and their sum -/

section Words
variable (e : Endian) (last : UInt8 → Int)

def words : List UInt8 → List Int
  | [] => []
  | [b] => [last b]
  | a :: b :: bs => word16 e a b :: words bs

/-- The values of `sum` while the words are added. -/
def partialSums : Int → List UInt8 → List Int
  | sum, [] => [sum]
  | sum, [b] => [sum, sum + last b]
  | sum, a :: b :: bs => sum :: partialSums (sum + word16 e a b) bs

theorem sum_words (bs : List UInt8) : (words e last bs).sum = wordSum e last bs := by
  fun_induction words e last bs with
  | case1 => rfl
  | case2 b => exact Int.add_zero _
  | case3 a b bs ih => rw [List.sum_cons, ih, wordSum]

theorem getLast_partialSums (sum : Int) (bs : List UInt8) :
    (partialSums e last sum bs).getLast? = some (sum + wordSum e last bs) := by
  fun_induction partialSums e last sum bs with
  | case1 sum => rw [wordSum, Int.add_zero, List.getLast?_singleton]
  | case2 sum b => rfl
  | case3 sum a b bs ih => rw [List.getLast?_cons, ih, wordSum, Option.getD_some, Int.add_assoc]

theorem word16_nonneg (a b : UInt8) : 0 ≤ word16 e a b := by cases e <;> simp only [word16] <;> omega

theorem word16_le (a b : UInt8) : word16 e a b ≤ 65535 := by
  have ha := a.toNat_lt
  have hb := b.toNat_lt
  cases e <;> simp only [word16] <;> omega

variable {e last}

theorem wordSum_le (hlast : ∀ b, last b ≤ 255) (bs : List UInt8) :
    wordSum e last bs ≤ 65535 * (bs.length / 2 : Nat) + 255 * (bs.length % 2 : Nat) := by
  fun_induction words e last bs with
  | case1 => exact Int.le_refl 0
  | case2 b =>
    rw [wordSum, List.length_singleton]
    exact hlast b
  | case3 a b bs ih =>
    have hw := word16_le e a b
    rw [wordSum, List.length_cons, List.length_cons]
    omega

theorem le_wordSum {lo : Int} (hlo : lo ≤ 0) (hlast : ∀ b, lo ≤ last b) (bs : List UInt8) :
    lo ≤ wordSum e last bs := by
  fun_induction words e last bs with
  | case1 => exact hlo
  | case2 b => exact hlast b
  | case3 a b bs ih =>
    have hw := word16_nonneg e a b
    rw [wordSum]
    omega

/-- How an odd last byte is widened is all that can make a difference. -/
theorem wordSum_sub (last last' : UInt8 → Int) (bs : List UInt8) : wordSum e last bs - wordSum e last' bs =
    if bs.length % 2 = 1 then bs.getLast?.elim 0 fun b => last b - last' b else 0 := by
  fun_induction words e last bs with
  | case1 => rfl
  | case2 b => rfl
  | case3 a b bs ih =>
    have hlen : (a :: b :: bs).length % 2 = bs.length % 2 := by
      rw [List.length_cons, List.length_cons, Nat.add_assoc, Nat.add_mod_right]
    rw [wordSum, wordSum, hlen, Int.add_sub_add_left, ih]
    split
    · next hodd =>
      have hne : bs ≠ [] := by
        rintro rfl
        cases hodd
      rw [List.getLast?_cons_of_ne_nil (List.cons_ne_nil b bs), List.getLast?_cons_of_ne_nil hne]
    · rfl

theorem partialSums_range (hlast : ∀ b, 0 ≤ last b) {sum : Int} {bs : List UInt8} :
    ∀ s ∈ partialSums e last sum bs, sum ≤ s ∧ s ≤ sum + wordSum e last bs := by
  fun_induction partialSums e last sum bs with
  | case1 sum =>
    intro s hs
    rw [List.mem_singleton.mp hs, wordSum]
    omega
  | case2 sum b =>
    have hb := hlast b
    intro s hs
    rw [List.mem_cons, List.mem_singleton] at hs
    rw [wordSum]
    omega
  | case3 sum a b bs ih =>
    have hw := word16_nonneg e a b
    have hsum := le_wordSum (e := e) (Int.le_refl 0) hlast bs
    intro s hs
    rw [wordSum]
    rcases List.mem_cons.mp hs with rfl | hs
    · omega
    · have := ih s hs
      omega

end Words

/-! ## The folded sum -/

def foldPass (sum : Int) : Pass Int :=
  if sum / 65536 = 0 then .leave sum else .again (sum % 65536 + sum / 65536)

/-- The values of `sum` in at most `n` passes. -/
def foldSums : Nat → Int → List Int
  | 0, sum => [sum]
  | n + 1, sum => sum :: if sum / 65536 = 0 then [] else foldSums n (sum % 65536 + sum / 65536)

theorem ends_foldSum {n : Nat} {sum : Int} (h : foldSum n sum / 65536 = 0) : Ends foldPass sum (foldSum n sum) := by
  induction n generalizing sum with
  | zero => exact .leave (if_pos h)
  | succ n ih =>
    rw [foldSum] at h ⊢
    split
    · next h0 => exact .leave (if_pos h0)
    · next h0 =>
      rw [if_neg h0] at h
      exact .again (if_neg h0) (ih h)

/-- `65536` is 1 modulo 65535. -/
theorem emod_foldSum (n : Nat) (sum : Int) : foldSum n sum % 65535 = sum % 65535 := by
  induction n generalizing sum with
  | zero => rfl
  | succ n ih =>
    rw [foldSum]
    split
    · rfl
    · rw [ih]
      omega

theorem foldSum_range (n : Nat) {sum : Int} (hlo : -65535 ≤ sum) (hhi : sum < 2 ^ 31) :
    ∀ s ∈ foldSums n sum, -65535 ≤ s ∧ s < 2 ^ 31 := by
  induction n generalizing sum with
  | zero =>
    intro s hs
    rw [List.mem_singleton.mp hs]
    exact ⟨hlo, hhi⟩
  | succ n ih =>
    intro s hs
    rcases List.mem_cons.mp hs with rfl | hs
    · exact ⟨hlo, hhi⟩
    · split at hs
      · cases hs
      · exact ih (by omega) (by omega) s hs

/-- A sum of 32 bits, or one that an added byte made negative, is folded after three passes: the first one leaves at
most `65535 + 32767`, the second one at most 65535. -/
theorem folded {sum : Int} (hlo : -65535 ≤ sum) (hhi : sum < 2 ^ 31) : foldSum foldPasses sum / 65536 = 0 := by
  have hsucc : ∀ {n : Nat} {s : Int}, (s / 65536 ≠ 0 → foldSum n (s % 65536 + s / 65536) / 65536 = 0) →
      foldSum (n + 1) s / 65536 = 0 := by
    intro n s h
    rw [foldSum]
    split
    · assumption
    · next h0 => exact h h0
  apply hsucc
  intro h1
  apply hsucc
  intro h2
  apply hsucc
  intro h3
  omega

section CheckSum
variable {e : Endian} {last last' : UInt8 → Int} {bs bs' : List UInt8}

/-- What is complemented is the folded sum itself. -/
theorem checkSum_eq (hlo : -65535 ≤ wordSum e last bs) (hhi : wordSum e last bs < 2 ^ 31) :
    (checkSum e last bs : Int) = 65535 - foldSum foldPasses (wordSum e last bs) := by
  have h := folded hlo hhi
  unfold checkSum
  omega

theorem wordSum_add_checkSum (hlo : -65535 ≤ wordSum e last bs) (hhi : wordSum e last bs < 2 ^ 31) :
    (wordSum e last bs + checkSum e last bs) % 65535 = 0 := by
  have hmod := emod_foldSum foldPasses (wordSum e last bs)
  rw [checkSum_eq hlo hhi]
  omega

theorem checkSum_ne (hlo : -65535 ≤ wordSum e last bs) (hhi : wordSum e last bs < 2 ^ 31)
    (hlo' : -65535 ≤ wordSum e last' bs') (hhi' : wordSum e last' bs' < 2 ^ 31)
    (hne : wordSum e last bs % 65535 ≠ wordSum e last' bs' % 65535) : checkSum e last bs ≠ checkSum e last' bs' := by
  intro h
  have h1 := wordSum_add_checkSum hlo hhi
  have h2 := wordSum_add_checkSum hlo' hhi'
  rw [h] at h1
  omega

end CheckSum

end HgicFmac.Lib
