import Mathlib.Algebra.GroupWithZero.Nat
import Mathlib.Data.Nat.Init
import Mathlib.Tactic.Common

/-!
# Words on a line of bits

A line carries one bit a clock, the highest bit of a word first.

* `window w line p` : the word of `w` bits that starts at bit `p` (`window_append`: two words behind one another);
* `window_shift` : a word that starts `s` bits late is put together from the two it lies in, by shifts;
  `realign` does this for a list of words with the bits left over from the last one (`realign_windows`);
* `leftAdjust` : the loop that shifts the leading ones out of a register (`leftAdjust_window`: on a line of ones it
  stops in front of the first zero);
* `windows w line p n` : `n` words behind one another.
-/

namespace HgicFmac.Lib

variable {w v : Nat} (line : Nat → Bool)

def window (w : Nat) (line : Nat → Bool) (p : Nat) : BitVec w :=
  BitVec.ofNat w (Nat.ofBits fun i : Fin w => line (p + (w - 1 - i)))

theorem getMsbD_window (p i : Nat) : (window w line p).getMsbD i = (decide (i < w) && line (p + i)) := by
  rw [BitVec.getMsbD_eq_getLsbD]
  by_cases hi : i < w
  · have hlt : w - 1 - i < w := by omega
    have hp : w - 1 - (w - 1 - i) = i := by omega
    rw [window, BitVec.getLsbD_ofNat, Nat.testBit_ofBits_lt _ _ hlt, decide_eq_true hlt, hp, Bool.true_and]
  · rw [decide_eq_false hi, Bool.false_and, Bool.false_and]

variable {line} in
theorem eq_window {x : BitVec w} {p : Nat} (h : ∀ i < w, x.getMsbD i = line (p + i)) : x = window w line p := by
  apply BitVec.eq_of_getMsbD_eq
  intro i hi
  rw [getMsbD_window, decide_eq_true hi, Bool.true_and, h i hi]

theorem window_append (p : Nat) : window w line p ++ window v line (p + w) = window (w + v) line p := by
  apply eq_window
  intro i hi
  rw [BitVec.getMsbD_append, getMsbD_window, getMsbD_window]
  by_cases h : i < w
  · have hpos : ¬ w ≤ i := by omega
    simp [h, hpos]
  · have hle : w ≤ i := by omega
    have hv : i - w < v := by omega
    have hp : p + w + (i - w) = p + i := by omega
    simp [hle, hv, hp]

/-- A word that starts inside another one: the last bits of this one, then the first bits of the next. -/
theorem window_shift (p : Nat) {s : Nat} (hs : s ≤ w) :
    (window w line p <<< s) ||| (window w line (p + w) >>> (w - s)) = window w line (p + s) := by
  apply eq_window
  intro i hi
  rw [BitVec.getMsbD_or, BitVec.getMsbD_shiftLeft, BitVec.getMsbD_ushiftRight, getMsbD_window, getMsbD_window]
  by_cases h : i < w - s
  · have hlt : i + s < w := by omega
    have hp : p + (i + s) = p + s + i := by omega
    simp [h, hlt, hp]
  · have hlt : ¬ i + s < w := by omega
    have hbit : i - (w - s) < w := by omega
    have hp : p + w + (i - (w - s)) = p + s + i := by omega
    simp [h, hlt, hi, hbit, hp]

/-! ## Words behind one another -/

def windows (w : Nat) (line : Nat → Bool) : Nat → Nat → List (BitVec w)
  | _, 0 => []
  | p, n + 1 => window w line p :: windows w line (p + w) n

@[simp] theorem length_windows (p n : Nat) : (windows w line p n).length = n := by
  induction n generalizing p with
  | zero => rfl
  | succ n ih => rw [windows, List.length_cons, ih]

theorem windows_add (p m n : Nat) : windows w line p (m + n) = windows w line p m ++ windows w line (p + w * m) n := by
  induction m generalizing p with
  | zero => simp [windows]
  | succ m ih =>
    have hp : p + w + w * m = p + w * (m + 1) := by rw [Nat.mul_succ]; omega
    rw [Nat.succ_add, windows, windows, ih, hp, List.cons_append]

/-- The words of a line that lie `right` bits deep in `xs`, and the bits that are left over. The first ones are in front
of `xs`. -/
def realign (right : Nat) : BitVec w → List (BitVec w) → List (BitVec w) × BitVec w
  | leftover, [] => ([], leftover)
  | leftover, x :: xs =>
    let rest := realign right (x <<< (w - right)) xs
    ((leftover ||| (x >>> right)) :: rest.1, rest.2)

theorem realign_windows (p n : Nat) {right : Nat} (hr : right ≤ w) :
    realign right (window w line p <<< (w - right)) (windows w line (p + w) n) =
      (windows w line (p + (w - right)) n, window w line (p + w * n) <<< (w - right)) := by
  induction n generalizing p with
  | zero => rfl
  | succ n ih =>
    have hnext : p + w + (w - right) = p + (w - right) + w := by omega
    have hn : p + w + w * n = p + w * (n + 1) := by rw [Nat.mul_succ]; omega
    have hword : (window w line p <<< (w - right)) ||| (window w line (p + w) >>> right) =
        window w line (p + (w - right)) := by
      have h := window_shift line p (Nat.sub_le w right)
      rwa [Nat.sub_sub_self hr] at h
    rw [windows, realign, ih, hword, windows, hnext, hn]

/-! ## Leading ones -/

/-- `while (r & top bit) r <<= 1` with the number of passes, at most `n` of them. -/
def leftAdjust : Nat → BitVec w → Nat × BitVec w
  | 0, r => (0, r)
  | n + 1, r => if r.msb then ((leftAdjust n (r <<< 1)).1 + 1, (leftAdjust n (r <<< 1)).2) else (0, r)

theorem leftAdjust_eq (n : Nat) (r : BitVec w) {k : Nat} (hones : ∀ i < k, r.getMsbD i = true)
    (hzero : r.getMsbD k = false) (hk : k ≤ n) : leftAdjust n r = (k, r <<< k) := by
  induction n generalizing r k with
  | zero =>
    obtain rfl : k = 0 := by omega
    rw [leftAdjust, BitVec.shiftLeft_zero]
  | succ n ih =>
    rw [leftAdjust, BitVec.msb_eq_getMsbD_zero]
    cases k with
    | zero => rw [hzero, if_neg Bool.false_ne_true, BitVec.shiftLeft_zero]
    | succ k =>
      have hones' : ∀ i < k, (r <<< 1).getMsbD i = true := by
        intro i hi
        rw [BitVec.getMsbD_shiftLeft]
        exact hones (i + 1) (by omega)
      have hzero' : (r <<< 1).getMsbD k = false := by
        rw [BitVec.getMsbD_shiftLeft]
        exact hzero
      rw [hones 0 (by omega), if_pos rfl, ih _ hones' hzero' (by omega), ← BitVec.shiftLeft_add, Nat.add_comm 1 k]

theorem leftAdjust_window (p : Nat) {k : Nat} (hk : k < w) (hones : ∀ i < k, line (p + i) = true)
    (hzero : line (p + k) = false) : leftAdjust w (window w line p) = (k, window w line p <<< k) := by
  refine leftAdjust_eq w _ ?_ ?_ (by omega)
  · intro i hi
    rw [getMsbD_window, hones i hi, Bool.and_true, decide_eq_true (by omega)]
  · rw [getMsbD_window, hzero, Bool.and_false]

end HgicFmac.Lib
