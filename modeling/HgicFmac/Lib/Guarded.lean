import Mathlib.Tactic.Common

/-!
# Computations that stop at a fault

* `Runs x` : `x` ends without a fault;
* `runs_bind`, `runs_bind_of`, `runs_map`, `runs_guard` : the rules for the parts of a computation.
-/

namespace HgicFmac.Lib

variable {ε α β : Type}

def Runs (x : Except ε α) : Prop := ∃ a, x = .ok a

instance : DecidablePred (Runs (ε := ε) (α := α))
  | .ok a => .isTrue ⟨a, rfl⟩
  | .error _ => .isFalse nofun

theorem runs_ok (a : α) : Runs (.ok a : Except ε α) := ⟨a, rfl⟩

theorem not_runs_error (e : ε) : ¬ Runs (.error e : Except ε α) := nofun

theorem runs_bind {x : Except ε α} {f : α → Except ε β} : Runs (x >>= f) ↔ ∃ a, x = .ok a ∧ Runs (f a) := by
  cases x with
  | ok a =>
    constructor
    · intro h
      exact ⟨a, rfl, h⟩
    · rintro ⟨b, hb, h⟩
      rwa [← Except.ok.inj hb] at h
  | error e =>
    constructor
    · intro h
      exact absurd h (not_runs_error e)
    · rintro ⟨b, hb, -⟩
      cases hb

theorem runs_bind_of {x : Except ε α} {f : α → Except ε β} (hf : ∀ a, Runs (f a)) : Runs (x >>= f) ↔ Runs x := by
  rw [runs_bind]
  constructor
  · exact fun ⟨a, ha, _⟩ => ⟨a, ha⟩
  · exact fun ⟨a, ha⟩ => ⟨a, ha, hf a⟩

theorem runs_map {x : Except ε α} {f : α → β} : Runs (f <$> x) ↔ Runs x := by
  cases x with
  | ok a => exact iff_of_true ⟨f a, rfl⟩ ⟨a, rfl⟩
  | error e => exact iff_of_false nofun nofun

theorem runs_guard {p : Prop} [Decidable p] {a : α} {e : ε} : Runs (if p then .ok a else .error e) ↔ p := by
  split
  · next h => exact iff_of_true ⟨a, rfl⟩ h
  · next h => exact iff_of_false nofun h

end HgicFmac.Lib
