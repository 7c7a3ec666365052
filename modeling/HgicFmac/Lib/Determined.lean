import Mathlib.Data.List.Forall2

/-!
# Outcomes that do not depend on hidden contents

`Same x y` says that two inputs differ only in what an observer must not learn.

* `Determined Same out x` : every input that is the same as `x` has the outcome of `x`;
* `Determined.eq_of_same` : any two such inputs have one outcome;
* `determined_map_iff` : a list of inputs is determined exactly when each of them is.
-/

namespace HgicFmac.Lib

variable {α β : Type*} {Same : α → α → Prop} {out : α → β}

/-- Every input that is the same as `x` has the outcome of `x`. -/
def Determined (Same : α → α → Prop) (out : α → β) (x : α) : Prop := ∀ y, Same x y → out y = out x

theorem Determined.eq_of_same {x y z : α} (hd : Determined Same out x) (hy : Same x y) (hz : Same x z) :
    out y = out z :=
  (hd y hy).trans (hd z hz).symm

theorem forall₂_same_set (hrefl : ∀ x, Same x x) {x y : α} (h : Same x y) (xs ys : List α) :
    List.Forall₂ Same (xs ++ x :: ys) (xs ++ y :: ys) := by
  have hself : ∀ zs : List α, List.Forall₂ Same zs zs := by
    intro zs
    induction zs with
    | nil => exact .nil
    | cons z zs ih => exact .cons (hrefl z) ih
  induction xs with
  | nil => exact .cons h (hself ys)
  | cons z zs ih => exact .cons (hrefl z) ih

theorem determined_map_iff (hrefl : ∀ x, Same x x) (xs : List α) :
    Determined (List.Forall₂ Same) (List.map out) xs ↔ ∀ x ∈ xs, Determined Same out x := by
  constructor
  · intro hd x hx y hxy
    obtain ⟨as, bs, rfl⟩ := List.append_of_mem hx
    have h := hd (as ++ y :: bs) (forall₂_same_set hrefl hxy as bs)
    rw [List.map_append, List.map_append, List.append_right_inj, List.map_cons, List.map_cons] at h
    exact (List.cons.inj h).1
  · intro hd ys hys
    induction hys with
    | nil => rfl
    | cons h _ ih =>
      rw [List.map_cons, List.map_cons, hd _ List.mem_cons_self _ h, ih]
      intro z hz
      exact hd z (List.mem_cons_of_mem _ hz)

end HgicFmac.Lib
