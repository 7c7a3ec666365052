import Mathlib.Algebra.GroupWithZero.Nat
import Mathlib.Data.List.Basic
import Mathlib.Tactic.Common

/-!
# Blocks of a buffer, one after another

* `chunks n xs` : the blocks of `n` elements, the last one of what is left (`flatten_chunks`, `length_of_mem_chunks`);
* `transfer job bs s` : the blocks in order, up to and including the first one with a negative status: the status, the
  blocks as they are afterwards, the elements of those that succeeded, and the state;
* `transfer_append` : two lists of blocks.
-/

namespace HgicFmac.Lib

variable {α σ : Type*}

/-! ## Blocks -/

def chunkLoop (n : Nat) : Nat → List α → List (List α)
  | 0, _ => []
  | k + 1, xs => if xs.isEmpty then [] else xs.take n :: chunkLoop n k (xs.drop n)

/-- The blocks of `n` elements; a block has one element at least. -/
def chunks (n : Nat) (xs : List α) : List (List α) := chunkLoop n xs.length xs

theorem flatten_chunkLoop {n : Nat} (hn : 0 < n) {k : Nat} {xs : List α} (hk : xs.length ≤ k) :
    (chunkLoop n k xs).flatten = xs := by
  induction k generalizing xs with
  | zero =>
    obtain rfl : xs = [] := List.length_eq_zero_iff.1 (by omega)
    rfl
  | succ k ih =>
    rw [chunkLoop]
    cases xs with
    | nil => rfl
    | cons x xs =>
      have hdrop : ((x :: xs).drop n).length ≤ k := by
        rw [List.length_drop]
        omega
      rw [List.isEmpty_cons, if_neg Bool.false_ne_true, List.flatten_cons, ih hdrop, List.take_append_drop]

theorem flatten_chunks {n : Nat} (hn : 0 < n) (xs : List α) : (chunks n xs).flatten = xs :=
  flatten_chunkLoop hn (Nat.le_refl _)

theorem length_of_mem_chunkLoop {n k : Nat} {xs b : List α} (hdvd : n ∣ xs.length) (hb : b ∈ chunkLoop n k xs) :
    b.length = n := by
  induction k generalizing xs with
  | zero => cases hb
  | succ k ih =>
    rw [chunkLoop] at hb
    cases xs with
    | nil => cases hb
    | cons x xs =>
      have hle : n ≤ (x :: xs).length := Nat.le_of_dvd (Nat.succ_pos _) hdvd
      rw [List.isEmpty_cons, if_neg Bool.false_ne_true, List.mem_cons] at hb
      rcases hb with rfl | hb
      · rw [List.length_take, Nat.min_eq_left hle]
      · apply ih _ hb
        rw [List.length_drop]
        exact Nat.dvd_sub hdvd (Nat.dvd_refl n)

theorem length_of_mem_chunks {n : Nat} {xs b : List α} (hdvd : n ∣ xs.length) (hb : b ∈ chunks n xs) : b.length = n :=
  length_of_mem_chunkLoop hdvd hb

/-! ## Transfers -/

variable (job : List α → σ → Int × List α × σ)

def transfer : List (List α) → σ → Int × List (List α) × Nat × σ
  | [], s => (0, [], 0, s)
  | b :: bs, s =>
    if (job b s).1 < 0 then ((job b s).1, (job b s).2.1 :: bs, 0, (job b s).2.2)
    else
      let more := transfer bs (job b s).2.2
      (more.1, (job b s).2.1 :: more.2.1, b.length + more.2.2.1, more.2.2.2)

theorem transfer_of_neg {b : List α} {s : σ} (h : (job b s).1 < 0) (bs : List (List α)) :
    transfer job (b :: bs) s = ((job b s).1, (job b s).2.1 :: bs, 0, (job b s).2.2) := by
  rw [transfer, if_pos h]

theorem transfer_of_nonneg {b : List α} {s : σ} (h : ¬ (job b s).1 < 0) (bs : List (List α)) :
    transfer job (b :: bs) s = ((transfer job bs (job b s).2.2).1,
      (job b s).2.1 :: (transfer job bs (job b s).2.2).2.1, b.length + (transfer job bs (job b s).2.2).2.2.1,
      (transfer job bs (job b s).2.2).2.2.2) := by
  rw [transfer, if_neg h]

theorem transfer_append (bs cs : List (List α)) (s : σ) : transfer job (bs ++ cs) s =
    let r := transfer job bs s
    if r.1 < 0 then (r.1, r.2.1 ++ cs, r.2.2.1, r.2.2.2)
    else
      let more := transfer job cs r.2.2.2
      (more.1, r.2.1 ++ more.2.1, r.2.2.1 + more.2.2.1, more.2.2.2) := by
  induction bs generalizing s with
  | nil => simp [transfer]
  | cons b bs ih =>
    rw [List.cons_append]
    by_cases hb : (job b s).1 < 0
    · rw [transfer_of_neg job hb, transfer_of_neg job hb]
      dsimp only
      rw [if_pos hb, List.cons_append]
    · rw [transfer_of_nonneg job hb, transfer_of_nonneg job hb, ih]
      dsimp only
      by_cases hr : (transfer job bs (job b s).2.2).1 < 0
      · rw [if_pos hr, if_pos hr]
        rfl
      · rw [if_neg hr, if_neg hr, Nat.add_assoc]
        rfl

end HgicFmac.Lib
