import Mathlib.Algebra.GroupWithZero.Nat
import Mathlib.Data.List.Basic
import Mathlib.Tactic.Common

/-!
# Fragments that are taken while they fit

* `kept room fs` : the elements of the fragments that are taken, when one is taken if fewer than the room left;
* `Continues room d fs` : every further fragment that is taken goes on in `d`, where the last one ended;
* `Contiguous room fs` : this is so from the first fragment on that is not taken;
* `kept_prefix_iff` : these are the fragments of which a prefix is kept.
-/

namespace HgicFmac.Lib

variable {α : Type*}

/-- The elements of the fragments that are taken. -/
def kept : Nat → List (List α) → List α
  | _, [] => []
  | room, f :: fs => if f.length < room then f ++ kept (room - f.length) fs else kept room fs

/-- Every fragment that is taken goes on in `d`. -/
def Continues : Nat → List α → List (List α) → Prop
  | _, _, [] => True
  | room, d, f :: fs =>
    if f.length < room then f <+: d ∧ Continues (room - f.length) (d.drop f.length) fs else Continues room d fs

/-- Behind a fragment that is not taken, every one that is taken goes on in its place. -/
def Contiguous : Nat → List (List α) → Prop
  | _, [] => True
  | room, f :: fs => if f.length < room then Contiguous (room - f.length) fs else Continues room f fs

instance decidableContinues [DecidableEq α] :
    ∀ (room : Nat) (d : List α) (fs : List (List α)), Decidable (Continues room d fs)
  | _, _, [] => isTrue trivial
  | room, d, f :: fs =>
    have := decidableContinues (room - f.length) (d.drop f.length) fs
    have := decidableContinues room d fs
    inferInstanceAs (Decidable (if f.length < room then f <+: d ∧ Continues (room - f.length) (d.drop f.length) fs
      else Continues room d fs))

instance decidableContiguous [DecidableEq α] : ∀ (room : Nat) (fs : List (List α)), Decidable (Contiguous room fs)
  | _, [] => isTrue trivial
  | room, f :: fs =>
    have := decidableContiguous (room - f.length) fs
    inferInstanceAs (Decidable (if f.length < room then Contiguous (room - f.length) fs else Continues room f fs))

theorem length_kept_le (room : Nat) (fs : List (List α)) : (kept room fs).length ≤ room := by
  induction fs generalizing room with
  | nil => exact Nat.zero_le room
  | cons f fs ih =>
    rw [kept]
    split
    · have := ih (room - f.length)
      rw [List.length_append]
      omega
    · exact ih room

theorem append_prefix_iff {f g d : List α} : f ++ g <+: d ↔ f <+: d ∧ g <+: d.drop f.length := by
  constructor
  · rintro ⟨t, rfl⟩
    rw [List.append_assoc, List.drop_left]
    exact ⟨List.prefix_append f _, List.prefix_append g t⟩
  · rintro ⟨⟨t, rfl⟩, h⟩
    rw [List.drop_left] at h
    exact (List.prefix_append_right_inj f).mpr h

theorem kept_prefix_iff_continues (room : Nat) (d : List α) (fs : List (List α)) :
    kept room fs <+: d ↔ Continues room d fs := by
  induction fs generalizing room d with
  | nil => exact iff_of_true List.nil_prefix trivial
  | cons f fs ih =>
    rw [kept, Continues]
    split
    · rw [append_prefix_iff, ih]
    · exact ih room d

/-- What fits behind a fragment that is not taken is shorter than this. -/
theorem kept_prefix_append_iff {room : Nat} {f : List α} (hf : room ≤ f.length) (fs : List (List α)) (d : List α) :
    kept room fs <+: f ++ d ↔ kept room fs <+: f := by
  constructor
  · intro h
    exact List.prefix_of_prefix_length_le h (List.prefix_append f d) (Nat.le_trans (length_kept_le room fs) hf)
  · intro h
    exact List.prefix_append_of_prefix h

theorem kept_prefix_iff (room : Nat) (fs : List (List α)) : kept room fs <+: fs.flatten ↔ Contiguous room fs := by
  induction fs generalizing room with
  | nil => exact iff_of_true List.nil_prefix trivial
  | cons f fs ih =>
    rw [kept, Contiguous, List.flatten_cons]
    split
    · rw [List.prefix_append_right_inj, ih]
    · next hf => rw [kept_prefix_append_iff (Nat.not_lt.mp hf), kept_prefix_iff_continues]

end HgicFmac.Lib
