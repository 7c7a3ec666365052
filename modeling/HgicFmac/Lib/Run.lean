import Mathlib.Algebra.GroupWithZero.Nat
import Mathlib.Data.List.Basic
import Mathlib.Tactic.TypeStar

/-!
# Runs of a guarded transition function

A system is a function `step : σ → α → Option σ`: `none` when the action is not enabled.

* `runFrom step s as` : the state after the actions `as`;
* `Steps step P s as` : every action of the run is taken in a state where `P` allows it;
* `run_invariant`, `reach_invariant` : what every allowed step preserves holds in the last state of every
  allowed run;
* `steps_congr` : two conditions that agree in every state of a run;
* `run_defect_iff` : a defect that exactly the steps against `P` cause is absent exactly from the allowed runs;
* `Always step Q s as` : every state of the run is in `Q`; `always_iff_steps` : if exactly the steps against `P` leave
  `Q`, these are the allowed runs;
* `Reaches step Done s` : whatever is chosen, the run from `s` comes to a state in `Done`, by a measure that every
  step decreases (`reaches_of_measure`); an invariant that excludes `Done` refutes it (`not_reaches_of_invariant`).
-/

namespace HgicFmac.Lib

variable {σ : Type*} {α : Type*}

section Guarded
variable (step : σ → α → Option σ)

/-- The state after the actions `as`, if every one of them is enabled. -/
def runFrom : σ → List α → Option σ
  | s, [] => some s
  | s, a :: as => (step s a).bind fun t => runFrom t as

/-- Every action of the run is taken in a state where `P` allows it. -/
def Steps (P : σ → α → Prop) : σ → List α → Prop
  | _, [] => True
  | s, a :: as => P s a ∧ match step s a with
    | some t => Steps P t as
    | none => True

instance decidableSteps (P : σ → α → Prop) [∀ s a, Decidable (P s a)] :
    ∀ (s : σ) (as : List α), Decidable (Steps step P s as)
  | _, [] => isTrue trivial
  | s, a :: as =>
    have : Decidable (match step s a with
        | some t => Steps step P t as
        | none => True) :=
      match step s a with
      | some t => decidableSteps P t as
      | none => isTrue trivial
    inferInstanceAs (Decidable (P s a ∧ _))

@[simp] theorem runFrom_nil (s : σ) : runFrom step s [] = some s := rfl

theorem runFrom_cons (s : σ) (a : α) (as : List α) :
    runFrom step s (a :: as) = (step s a).bind fun t => runFrom step t as := rfl

theorem runFrom_cons_eq_some {s u : σ} {a : α} {as : List α} (h : runFrom step s (a :: as) = some u) :
    ∃ t, step s a = some t ∧ runFrom step t as = some u := by
  rw [runFrom_cons] at h
  exact Option.bind_eq_some_iff.mp h

theorem steps_cons {P : σ → α → Prop} {s t : σ} {a : α} {as : List α} (h : Steps step P s (a :: as))
    (ht : step s a = some t) : P s a ∧ Steps step P t as := by
  refine ⟨h.1, ?_⟩
  have h2 := h.2
  rw [ht] at h2
  exact h2

theorem Steps.imp {P Q : σ → α → Prop} (h : ∀ s a, P s a → Q s a) :
    ∀ {as : List α} {s : σ}, Steps step P s as → Steps step Q s as
  | [], _, _ => trivial
  | a :: as, s, hs => by
    refine ⟨h s a hs.1, ?_⟩
    cases ht : step s a with
    | none => trivial
    | some t => exact Steps.imp h (steps_cons step hs ht).2

/-- The invariant rule: `Inv` is kept by every step that `P` allows, so it holds at the end of every
run whose steps are all allowed. -/
theorem run_invariant {P : σ → α → Prop} {Inv : σ → Prop}
    (hstep : ∀ s a t, Inv s → P s a → step s a = some t → Inv t) :
    ∀ {as : List α} {s t : σ}, Inv s → Steps step P s as → runFrom step s as = some t → Inv t
  | [], s, t, hi, _, h => by
    rw [runFrom_nil, Option.some.injEq] at h
    exact h ▸ hi
  | a :: as, s, t, hi, hs, h => by
    obtain ⟨u, hu, h⟩ := runFrom_cons_eq_some step h
    obtain ⟨hp, hs⟩ := steps_cons step hs hu
    exact run_invariant hstep (hstep s a u hi hp hu) hs h

/-- The invariant rule for runs without a condition. -/
theorem reach_invariant {Inv : σ → Prop} (hstep : ∀ s a t, Inv s → step s a = some t → Inv t) :
    ∀ {as : List α} {s t : σ}, Inv s → runFrom step s as = some t → Inv t
  | [], s, t, hi, h => by
    rw [runFrom_nil, Option.some.injEq] at h
    exact h ▸ hi
  | a :: as, s, t, hi, h => by
    obtain ⟨u, hu, h⟩ := runFrom_cons_eq_some step h
    exact reach_invariant hstep (hstep s a u hi hu) h

/-- A defect that only a step against `P` causes, that every such step causes and that no step repairs, is
absent at the end of a run exactly when every step of the run is allowed by `P`. -/
theorem run_defect_iff {P : σ → α → Prop} {Inv Bad : σ → Prop}
    (hstep : ∀ s a t, Inv s → step s a = some t → Inv t)
    (hstay : ∀ s a t, Inv s → Bad s → step s a = some t → Bad t)
    (hcause : ∀ s a t, Inv s → ¬ P s a → step s a = some t → Bad t)
    (hkeep : ∀ s a t, Inv s → ¬ Bad s → P s a → step s a = some t → ¬ Bad t) :
    ∀ {as : List α} {s t : σ}, Inv s → ¬ Bad s → runFrom step s as = some t → (¬ Bad t ↔ Steps step P s as) := by
  have hbad : ∀ {as : List α} {s t : σ}, Inv s → Bad s → runFrom step s as = some t → Bad t := by
    intro as s t hi hb h
    have hboth : ∀ u a v, Inv u ∧ Bad u → step u a = some v → Inv v ∧ Bad v :=
      fun u a v hu hv => ⟨hstep u a v hu.1 hv, hstay u a v hu.1 hu.2 hv⟩
    exact (reach_invariant step hboth ⟨hi, hb⟩ h).2
  intro as
  induction as with
  | nil =>
      intro s t _ hb h
      rw [runFrom_nil, Option.some.injEq] at h
      subst h
      exact ⟨fun _ => trivial, fun _ => hb⟩
  | cons a as ih =>
      intro s t hi hb h
      obtain ⟨u, hu, h⟩ := runFrom_cons_eq_some step h
      have hiu := hstep s a u hi hu
      by_cases hp : P s a
      · have hsteps : Steps step P s (a :: as) ↔ Steps step P u as := by
          refine ⟨fun hs => (steps_cons step hs hu).2, fun hs => ⟨hp, ?_⟩⟩
          rw [hu]
          exact hs
        rw [hsteps]
        exact ih hiu (hkeep s a u hi hb hp hu) h
      · have hbt : Bad t := hbad hiu (hcause s a u hi hp hu) h
        exact ⟨fun hn => absurd hbt hn, fun hs => absurd hs.1 hp⟩

/-- Two conditions on an enabled step that an invariant makes equivalent hold of the same runs. -/
theorem steps_congr {P Q : σ → α → Prop} {Inv : σ → Prop} (hstep : ∀ s a t, Inv s → step s a = some t → Inv t)
    (hpq : ∀ s a t, Inv s → step s a = some t → (P s a ↔ Q s a)) :
    ∀ {as : List α} {s u : σ}, Inv s → runFrom step s as = some u → (Steps step P s as ↔ Steps step Q s as)
  | [], _, _, _, _ => Iff.rfl
  | a :: as, s, u, hi, h => by
    obtain ⟨t, ht, h⟩ := runFrom_cons_eq_some step h
    apply and_congr (hpq s a t hi ht)
    rw [ht]
    exact steps_congr hstep hpq (hstep s a t hi ht) h

def Always (Q : σ → Prop) : σ → List α → Prop
  | s, [] => Q s
  | s, a :: as => Q s ∧ match step s a with
    | some t => Always Q t as
    | none => True

theorem always_cons {Q : σ → Prop} {s t : σ} {a : α} (as : List α) (ht : step s a = some t) :
    Always step Q s (a :: as) ↔ Q s ∧ Always step Q t as := by
  rw [Always, ht]

theorem Always.start {Q : σ → Prop} : ∀ {as : List α} {s : σ}, Always step Q s as → Q s
  | [], _, h => h
  | _ :: _, _, h => h.1

/-- If an allowed step keeps `Q` and any other leaves it, the runs that stay in `Q` are those whose steps are all
allowed. -/
theorem always_iff_steps {P : σ → α → Prop} {Inv Q : σ → Prop}
    (hstep : ∀ s a t, Inv s → Q s → step s a = some t → Inv t)
    (hiff : ∀ s a t, Inv s → Q s → step s a = some t → (Q t ↔ P s a)) :
    ∀ {as : List α} {s u : σ}, Inv s → Q s → runFrom step s as = some u →
      (Always step Q s as ↔ Steps step P s as) := by
  intro as
  induction as with
  | nil => exact fun _ hq _ => ⟨fun _ => trivial, fun _ => hq⟩
  | cons a as ih =>
    intro s u hi hq h
    obtain ⟨t, ht, h⟩ := runFrom_cons_eq_some step h
    have hiff' := hiff s a t hi hq ht
    have hsteps : Steps step P s (a :: as) ↔ P s a ∧ Steps step P t as := by rw [Steps, ht]
    rw [always_cons step as ht, hsteps]
    by_cases hp : P s a
    · have hqt := hiff'.mpr hp
      rw [ih (hstep s a t hi hq ht) hqt h]
      exact and_congr_left fun _ => ⟨fun _ => hp, fun _ => hq⟩
    · exact ⟨fun ha => absurd (hiff'.mp ha.2.start) hp, fun hs => absurd hs.1 hp⟩

/-! ## Termination -/

/-- Along every sequence of choices the run from `s` comes to a state in `Done`. -/
def Reaches (Done : σ → Prop) (s : σ) : Prop :=
  ∀ choice : Nat → α, ∃ n t, runFrom step s ((List.range n).map choice) = some t ∧ Done t

theorem reaches_of_measure {Done Inv : σ → Prop} (μ : σ → Nat)
    (hstep : ∀ s a, Inv s → Done s ∨ ∃ t, step s a = some t ∧ Inv t ∧ μ t < μ s) {s : σ} (hs : Inv s) :
    Reaches step Done s := by
  intro choice
  induction hk : μ s using Nat.strongRecOn generalizing s choice with
  | ind k ih =>
    rcases hstep s (choice 0) hs with hdone | ⟨t, ht, hi, hlt⟩
    · exact ⟨0, s, rfl, hdone⟩
    · obtain ⟨n, u, hr, hu⟩ := ih (μ t) (hk ▸ hlt) hi (fun i => choice (i + 1)) rfl
      refine ⟨n + 1, u, ?_, hu⟩
      rw [List.range_succ_eq_map, List.map_cons, List.map_map, runFrom_cons, ht]
      exact hr

theorem not_reaches_of_invariant [Nonempty α] {Done Inv : σ → Prop}
    (hstep : ∀ s a t, Inv s → step s a = some t → Inv t) (hdone : ∀ s, Inv s → ¬ Done s) {s : σ} (hs : Inv s) :
    ¬ Reaches step Done s := by
  intro hr
  obtain ⟨n, t, ht, hd⟩ := hr fun _ => Classical.arbitrary α
  exact hdone t (reach_invariant step hstep hs ht) hd

end Guarded

end HgicFmac.Lib
