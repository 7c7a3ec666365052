import Mathlib.Algebra.GroupWithZero.Nat
import Mathlib.Tactic.Common

/-!
# While loops

The body of a loop takes the state at the head to the state of the next pass or to the state in which the loop is left.

* `Pass` : what one pass comes to; `passes body n s` : the same after at most `n` passes;
* `Ends body s t` : the loop entered in `s` is left in `t` (`ends_again_iff`, `ends_leave_iff`, and for a state with a
  property `exists_ends_again_iff`, `exists_ends_leave_iff`); `Halts body s` : it is left;
* `halts_of_measure` : a measure that every further pass decreases; `not_halts_of_invariant` : a set of states that the
  loop never leaves;
* `passes_invariant` : what every pass keeps holds after any number of passes.
-/

namespace HgicFmac.Lib

/-- One pass of a loop: the state at the head of the next pass, or the state the loop is left in. -/
inductive Pass (σ : Type*)
  | again (s : σ)
  | leave (s : σ)

def Pass.state {σ : Type*} : Pass σ → σ
  | .again s => s
  | .leave s => s

section
variable {σ : Type*} (body : σ → Pass σ)

def passes : Nat → σ → Pass σ
  | 0, s => .again s
  | n + 1, s => match body s with
    | .again t => passes n t
    | .leave t => .leave t

/-- The loop entered in `s` is left in `t`. -/
def Ends (s t : σ) : Prop := ∃ n, passes body n s = .leave t

/-- The loop entered in `s` is left after some number of passes. -/
def Halts (s : σ) : Prop := ∃ t, Ends body s t

variable {body}

theorem passes_again {s t : σ} (h : body s = .again t) (n : Nat) : passes body (n + 1) s = passes body n t := by
  rw [passes, h]

theorem passes_leave {s t : σ} (h : body s = .leave t) (n : Nat) : passes body (n + 1) s = .leave t := by
  rw [passes, h]

theorem Ends.leave {s t : σ} (h : body s = .leave t) : Ends body s t := ⟨1, passes_leave h 0⟩

theorem Ends.again {s t u : σ} (h : body s = .again u) (ht : Ends body u t) : Ends body s t := by
  obtain ⟨n, hn⟩ := ht
  use n + 1
  rw [passes_again h, hn]

theorem ends_leave_iff {s t u : σ} (h : body s = .leave t) : Ends body s u ↔ u = t := by
  constructor
  · rintro ⟨n, hn⟩
    cases n with
    | zero => cases hn
    | succ n =>
      rw [passes_leave h] at hn
      exact (Pass.leave.inj hn).symm
  · rintro rfl
    exact .leave h

theorem ends_again_iff {s t u : σ} (h : body s = .again u) : Ends body s t ↔ Ends body u t := by
  constructor
  · rintro ⟨n, hn⟩
    cases n with
    | zero => cases hn
    | succ n =>
      rw [passes_again h] at hn
      exact ⟨n, hn⟩
  · exact .again h

theorem exists_ends_leave_iff {s u : σ} {P : σ → Prop} (h : body s = .leave u) :
    (∃ t, Ends body s t ∧ P t) ↔ P u := by
  simp only [ends_leave_iff h, exists_eq_left]

theorem exists_ends_again_iff {s u : σ} {P : σ → Prop} (h : body s = .again u) :
    (∃ t, Ends body s t ∧ P t) ↔ ∃ t, Ends body u t ∧ P t := by
  simp only [ends_again_iff h]

theorem halts_of_leave {s t : σ} (h : body s = .leave t) : Halts body s := ⟨t, .leave h⟩

theorem halts_of_again {s u : σ} (h : body s = .again u) (hu : Halts body u) : Halts body s := by
  obtain ⟨t, ht⟩ := hu
  exact ⟨t, ht.again h⟩

theorem Halts.next {s u : σ} (hs : Halts body s) (h : body s = .again u) : Halts body u := by
  obtain ⟨t, ht⟩ := hs
  exact ⟨t, (ends_again_iff h).mp ht⟩

/-- Every further pass from a state of `Inv` stays there and decreases `μ`. -/
theorem halts_of_measure (Inv : σ → Prop) (μ : σ → Nat)
    (hpass : ∀ s t, Inv s → body s = .again t → Inv t ∧ μ t < μ s) {s : σ} (hs : Inv s) : Halts body s := by
  induction hn : μ s using Nat.strongRecOn generalizing s with
  | ind n ih =>
    cases h : body s with
    | leave t => exact halts_of_leave h
    | again t =>
      obtain ⟨ht, hlt⟩ := hpass s t hs h
      exact halts_of_again h (ih (μ t) (hn ▸ hlt) ht rfl)

/-- No pass from a state of `Inv` is the last one. -/
theorem not_halts_of_invariant (Inv : σ → Prop) (hpass : ∀ s, Inv s → ∃ t, body s = .again t ∧ Inv t) {s : σ}
    (hs : Inv s) : ¬ Halts body s := by
  rintro ⟨t, n, hn⟩
  induction n generalizing s with
  | zero => cases hn
  | succ n ih =>
    obtain ⟨u, hu, hinv⟩ := hpass s hs
    rw [passes_again hu] at hn
    exact ih hinv hn

/-- What every pass keeps holds after any number of passes. -/
theorem passes_invariant {Inv : σ → Prop} (hpass : ∀ s, Inv s → Inv (body s).state) {s : σ} (hs : Inv s) (n : Nat) :
    Inv (passes body n s).state := by
  induction n generalizing s with
  | zero => exact hs
  | succ n ih =>
    have h := hpass s hs
    cases hb : body s with
    | leave t =>
      rw [hb] at h
      rw [passes_leave hb]
      exact h
    | again t =>
      rw [hb] at h
      rw [passes_again hb]
      exact ih h

end

end HgicFmac.Lib
