import Mathlib.Algebra.GroupWithZero.Nat
import Mathlib.Data.List.Basic
import Mathlib.Tactic.Common

/-!
# Jobs in order until one fails

A job takes a state to a result code and a state; code 0 is success.

* `untilErr job is` : the jobs `is` in order, up to and including the first that fails;
* `untilErr_append`, `untilErr_concat` : a longer list of jobs;
* `Takes job P is Q` : when all of `is` succeed they take `P` to `Q`; `untilErr_keeps` : what every job keeps,
  successful or not.
-/

namespace HgicFmac.Lib

variable {ι : Type*} {σ : Type*} (job : ι → σ → Int × σ)

def untilErr : List ι → σ → Int × σ
  | [], x => (0, x)
  | i :: is, x => if (job i x).1 = 0 then untilErr is (job i x).2 else job i x

theorem untilErr_append : ∀ (is js : List ι) (x : σ), untilErr job (is ++ js) x =
    if (untilErr job is x).1 = 0 then untilErr job js (untilErr job is x).2 else untilErr job is x
  | [], js, x => by simp [untilErr]
  | i :: is, js, x => by
    rw [List.cons_append, untilErr, untilErr]
    by_cases h : (job i x).1 = 0
    · rw [if_pos h, if_pos h]
      exact untilErr_append is js (job i x).2
    · rw [if_neg h, if_neg h, if_neg h]

theorem untilErr_singleton (i : ι) (x : σ) : untilErr job [i] x = job i x := by
  rw [untilErr]
  split
  · next h => exact Prod.ext h.symm rfl
  · rfl

theorem untilErr_concat (is : List ι) (i : ι) (x : σ) : untilErr job (is ++ [i]) x =
    if (untilErr job is x).1 = 0 then job i (untilErr job is x).2 else untilErr job is x := by
  rw [untilErr_append, untilErr_singleton]

/-! ## Rules -/

def Takes (P : σ → Prop) (is : List ι) (Q : σ → Prop) : Prop :=
  ∀ ⦃x⦄, P x → (untilErr job is x).1 = 0 → Q (untilErr job is x).2

variable {job} {P Q R : σ → Prop} {is js : List ι} {i : ι}

theorem Takes.cons (h : ∀ ⦃x⦄, P x → (job i x).1 = 0 → Q (job i x).2) (h' : Takes job Q is R) :
    Takes job P (i :: is) R := by
  intro x hx hok
  rw [untilErr] at hok ⊢
  split at hok
  · next hi =>
    rw [if_pos hi]
    exact h' (h hx hi) hok
  · next hi => exact absurd hok hi

theorem Takes.nil (h : ∀ ⦃x⦄, P x → Q x) : Takes job P [] Q := fun _ hx _ => h hx

theorem Takes.append (h : Takes job P is Q) (h' : Takes job Q js R) : Takes job P (is ++ js) R := by
  intro x hx hok
  rw [untilErr_append] at hok ⊢
  split at hok
  · next his =>
    rw [if_pos his]
    exact h' (h hx his) hok
  · next his => exact absurd hok his

theorem untilErr_keeps (h : ∀ i ∈ is, ∀ ⦃x⦄, P x → P (job i x).2) {x : σ} (hx : P x) : P (untilErr job is x).2 := by
  induction is generalizing x with
  | nil => exact hx
  | cons i is ih =>
    have hi := h i (.head _) hx
    rw [untilErr]
    split
    · exact ih (fun j hj => h j (.tail _ hj)) hi
    · exact hi

end HgicFmac.Lib
