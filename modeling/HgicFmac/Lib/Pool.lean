import HgicFmac.Lib.Run
import Mathlib.Tactic.Common

/-!
# Calls that share a resource

A pool is any number of calls of one routine that share a state; `advance` is one step of a call on the shared state
and its own, `none` when the call has returned or is stuck.

* `Pool`, `poolStep` : a new call, or a step of one of the calls; a call that gets nearer to its end with each of its
  steps returns (`reaches_done`);
* `Excl` : a call leaves an idle state (it has not begun, or has returned) only while every call is idle;
* `Owned` : the shared state belongs to the one call that is not idle, and is at rest when there is none; what a step of
  a call on its own preserves, every step of the pool under `Excl` preserves (`owned_step`);
* `InTurn`, `Turns` : a call is started only after the earlier ones have returned, so at most one has not
  (`turns_step`), which gives `Excl` (`Turns.excl`).
-/

namespace HgicFmac.Lib

structure Pool (σ κ : Type*) where
  shared : σ
  calls : Nat
  call : Nat → κ

inductive PoolAct (ι χ : Type*)
  | start (x : ι)
  | call (i : Nat) (c : χ)

variable {σ κ ι χ : Type*}

def Pool.setCall (p : Pool σ κ) (i : Nat) (c : κ) : Pool σ κ :=
  { p with call := fun j => if j = i then c else p.call j }

@[simp] theorem Pool.setCall_self (p : Pool σ κ) (i : Nat) (c : κ) : (p.setCall i c).call i = c := if_pos rfl

theorem Pool.setCall_of_ne (p : Pool σ κ) {i j : Nat} (c : κ) (h : j ≠ i) : (p.setCall i c).call j = p.call j :=
  if_neg h

section Step
variable (begin : ι → κ) (advance : σ → κ → χ → Option (σ × κ))

def poolStep (p : Pool σ κ) : PoolAct ι χ → Option (Pool σ κ)
  | .start x => some { p.setCall p.calls (begin x) with calls := p.calls + 1 }
  | .call i c =>
    if i < p.calls then (advance p.shared (p.call i) c).map fun r => { p.setCall i r.2 with shared := r.1 } else none

variable {begin advance}

theorem poolStep_call {p q : Pool σ κ} {i : Nat} {c : χ} (h : poolStep begin advance p (.call i c) = some q) :
    i < p.calls ∧ ∃ r, advance p.shared (p.call i) c = some r ∧ q = { p.setCall i r.2 with shared := r.1 } := by
  rw [poolStep] at h
  split at h
  · next hi =>
    obtain ⟨r, hr, rfl⟩ := Option.map_eq_some_iff.mp h
    exact ⟨hi, r, hr, rfl⟩
  · cases h

theorem poolStep_start {p q : Pool σ κ} {x : ι} (h : poolStep begin advance p (.start x) = some q) :
    q = { p.setCall p.calls (begin x) with calls := p.calls + 1 } :=
  (Option.some.inj h).symm

theorem reaches_done {done : κ → Prop} {Inv : σ → κ → Prop} (μ : σ → κ → Nat)
    (hstep : ∀ s c x, Inv s c → done c ∨ ∃ r, advance s c x = some r ∧ Inv r.1 r.2 ∧ μ r.1 r.2 < μ s c)
    {p : Pool σ κ} {i : Nat} (hi : i < p.calls) (h : Inv p.shared (p.call i)) :
    Reaches (fun p x => poolStep begin advance p (.call i x)) (fun p => done (p.call i)) p := by
  have hmono : ∀ (q : Pool σ κ) x, i < q.calls ∧ Inv q.shared (q.call i) → done (q.call i) ∨
      ∃ t, poolStep begin advance q (.call i x) = some t ∧ (i < t.calls ∧ Inv t.shared (t.call i)) ∧
        μ t.shared (t.call i) < μ q.shared (q.call i) := by
    intro q x hq
    rcases hstep q.shared (q.call i) x hq.2 with hd | ⟨r, hr, hinv, hlt⟩
    · exact .inl hd
    · refine .inr ⟨{ q.setCall i r.2 with shared := r.1 }, ?_, ⟨hq.1, ?_⟩, ?_⟩
      · simp only [poolStep, if_pos hq.1, hr, Option.map_some]
      · rwa [← Pool.setCall_self q i r.2] at hinv
      · rwa [← Pool.setCall_self q i r.2] at hlt
  exact reaches_of_measure _ (fun q => μ q.shared (q.call i)) hmono ⟨hi, h⟩

end Step

/-! ## Exclusive access -/

section Owned
variable (idle : κ → Prop)

/-- A call that is idle takes a step only while all calls are. -/
def Excl (p : Pool σ κ) : PoolAct ι χ → Prop
  | .start _ => True
  | .call i _ => idle (p.call i) → ∀ j < p.calls, idle (p.call j)

instance [DecidablePred idle] (p : Pool σ κ) : (a : PoolAct ι χ) → Decidable (Excl idle p a)
  | .start _ => isTrue trivial
  | .call i _ => inferInstanceAs (Decidable (idle (p.call i) → ∀ j < p.calls, idle (p.call j)))

variable (Rest : σ → Prop) (Idle : κ → Prop) (Active : σ → κ → Prop)

/-- What holds of a call that has the shared state for itself. -/
def Solo (s : σ) (c : κ) : Prop := (idle c → Idle c ∧ Rest s) ∧ (¬ idle c → Active s c)

structure Owned (p : Pool σ κ) : Prop where
  one : ∀ i < p.calls, ∀ j < p.calls, ¬ idle (p.call i) → ¬ idle (p.call j) → i = j
  rest : (∀ i < p.calls, idle (p.call i)) → Rest p.shared
  quiet : ∀ i < p.calls, idle (p.call i) → Idle (p.call i)
  active : ∀ i < p.calls, ¬ idle (p.call i) → Active p.shared (p.call i)

variable {idle Rest Idle Active} {begin : ι → κ} {advance : σ → κ → χ → Option (σ × κ)}

/-- A call that is not idle, and an idle one among idle ones, have the shared state for themselves. -/
theorem Owned.solo {p : Pool σ κ} (h : Owned idle Rest Idle Active p) {i : Nat} (hi : i < p.calls)
    (hall : idle (p.call i) → ∀ j < p.calls, idle (p.call j)) : Solo idle Rest Idle Active p.shared (p.call i) :=
  ⟨fun hid => ⟨h.quiet i hi hid, h.rest (hall hid)⟩, h.active i hi⟩

/-- The other calls are idle when one that has the shared state for itself takes a step. -/
theorem Owned.others {p : Pool σ κ} (h : Owned idle Rest Idle Active p) {i : Nat} (hi : i < p.calls)
    (hall : idle (p.call i) → ∀ j < p.calls, idle (p.call j)) : ∀ j < p.calls, j ≠ i → idle (p.call j) := by
  intro j hj hne
  by_cases hid : idle (p.call i)
  · exact hall hid j hj
  · by_contra hact
    exact hne (h.one j hj i hi hact hid)

theorem Owned.start {p : Pool σ κ} (h : Owned idle Rest Idle Active p) {c : κ} (hc : idle c) (hI : Idle c) :
    Owned idle Rest Idle Active { p.setCall p.calls c with calls := p.calls + 1 } := by
  -- the calls of the new pool: an earlier one, unchanged, or the new one
  have hcall : ∀ {P : κ → Prop} {i : Nat}, i < p.calls + 1 → (i < p.calls → P (p.call i)) → P c →
      P ((p.setCall p.calls c).call i) := by
    intro P i hi hold hnew
    by_cases hip : i = p.calls
    · rw [hip, Pool.setCall_self]
      exact hnew
    · rw [Pool.setCall_of_ne p c hip]
      exact hold (by omega)
  have hlt : ∀ {i : Nat}, i < p.calls + 1 → ¬ idle ((p.setCall p.calls c).call i) →
      i < p.calls ∧ ¬ idle (p.call i) := by
    intro i hi hact
    have hne : i ≠ p.calls := fun he => by
      rw [he, Pool.setCall_self] at hact
      exact hact hc
    rw [Pool.setCall_of_ne p c hne] at hact
    exact ⟨by omega, hact⟩
  refine ⟨fun i hi j hj hai haj => ?_, fun hall => ?_, fun i hi => ?_, fun i hi hact => ?_⟩
  · obtain ⟨hi, hai⟩ := hlt hi hai
    obtain ⟨hj, haj⟩ := hlt hj haj
    exact h.one i hi j hj hai haj
  · apply h.rest
    intro i hi
    have := hall i (Nat.lt_succ_of_lt hi)
    rwa [show ({ p.setCall p.calls c with calls := p.calls + 1 } : Pool σ κ).call i = p.call i from
      Pool.setCall_of_ne p c (by omega)] at this
  · exact hcall (P := fun c => idle c → Idle c) hi (fun hlt => h.quiet i hlt) fun _ => hI
  · obtain ⟨hi, hact'⟩ := hlt hi hact
    have := h.active i hi hact'
    rwa [← Pool.setCall_of_ne p c (show i ≠ p.calls by omega)] at this

theorem Owned.call {p : Pool σ κ} (h : Owned idle Rest Idle Active p) {i : Nat} (hi : i < p.calls)
    (hall : idle (p.call i) → ∀ j < p.calls, idle (p.call j)) {s : σ} {c : κ}
    (hc : Solo idle Rest Idle Active s c) :
    Owned idle Rest Idle Active { p.setCall i c with shared := s } := by
  have hothers : ∀ j < p.calls, j ≠ i → idle ((p.setCall i c).call j) := by
    intro j hj hne
    rw [Pool.setCall_of_ne p c hne]
    exact h.others hi hall j hj hne
  have honly : ∀ j < p.calls, ¬ idle ((p.setCall i c).call j) → j = i := by
    intro j hj hact
    by_contra hne
    exact hact (hothers j hj hne)
  refine ⟨fun j hj k hk hactj hactk => ?_, fun hidle => ?_, fun j hj hid => ?_, fun j hj hact => ?_⟩
  · rw [honly j hj hactj, honly k hk hactk]
  · have hid := hidle i hi
    exact (hc.1 (by rwa [Pool.setCall_self] at hid)).2
  · by_cases hne : j = i
    · subst hne
      change Idle ((p.setCall j c).call j)
      rw [Pool.setCall_self] at hid ⊢
      exact (hc.1 hid).1
    · change Idle ((p.setCall i c).call j)
      rw [Pool.setCall_of_ne p c hne] at hid ⊢
      exact h.quiet j hj hid
  · obtain rfl := honly j hj hact
    change Active s ((p.setCall j c).call j)
    rw [Pool.setCall_self] at hact ⊢
    exact hc.2 hact

/-- The rule of exclusive access: what the steps of a call on its own preserve, the steps of the pool preserve. -/
theorem owned_step (hbegin : ∀ x, idle (begin x) ∧ Idle (begin x))
    (hadvance : ∀ s c x r, Solo idle Rest Idle Active s c → advance s c x = some r →
      Solo idle Rest Idle Active r.1 r.2) {p q : Pool σ κ} {a : PoolAct ι χ}
    (h : Owned idle Rest Idle Active p) (ha : Excl idle p a) (hq : poolStep begin advance p a = some q) :
    Owned idle Rest Idle Active q := by
  cases a with
  | start x =>
    rw [poolStep_start hq]
    exact h.start (hbegin x).1 (hbegin x).2
  | call i x =>
    obtain ⟨hi, r, hr, rfl⟩ := poolStep_call hq
    exact h.call hi ha (hadvance p.shared (p.call i) x r (h.solo hi ha) hr)

end Owned

/-! ## One call after another -/

section Turns
variable (done : κ → Prop)

/-- A call is started when all earlier ones have returned. -/
def InTurn (p : Pool σ κ) : PoolAct ι χ → Prop
  | .start _ => ∀ j < p.calls, done (p.call j)
  | .call _ _ => True

def Turns (p : Pool σ κ) : Prop := ∀ i < p.calls, ¬ done (p.call i) → ∀ j < p.calls, j ≠ i → done (p.call j)

instance [DecidablePred done] (p : Pool σ κ) : (a : PoolAct ι χ) → Decidable (InTurn done p a)
  | .start _ => inferInstanceAs (Decidable (∀ j < p.calls, done (p.call j)))
  | .call _ _ => isTrue trivial

variable {done} {begin : ι → κ} {advance : σ → κ → χ → Option (σ × κ)}

theorem turns_step (hdone : ∀ s c x, done c → advance s c x = none) {p q : Pool σ κ} {a : PoolAct ι χ}
    (h : Turns done p) (ha : InTurn done p a) (hq : poolStep begin advance p a = some q) : Turns done q := by
  cases a with
  | start x =>
    rw [poolStep_start hq]
    intro i hi hact j hj hne
    have hold : ∀ k < p.calls, done ((p.setCall p.calls (begin x)).call k) := by
      intro k hk
      rw [Pool.setCall_of_ne p _ (by omega)]
      exact ha k hk
    have hip : i = p.calls := by
      by_contra hip
      have hi' : i < p.calls + 1 := hi
      exact hact (hold i (by omega))
    have hj' : j < p.calls + 1 := hj
    exact hold j (by omega)
  | call i x =>
    obtain ⟨hi, r, hr, rfl⟩ := poolStep_call hq
    -- the call that takes the step has not returned, so all others have
    have hact : ¬ done (p.call i) := fun hd => by
      rw [hdone _ _ _ hd] at hr
      cases hr
    have hothers : ∀ k < p.calls, k ≠ i → done ((p.setCall i r.2).call k) := by
      intro k hk hne
      rw [Pool.setCall_of_ne p _ hne]
      exact h i hi hact k hk hne
    intro j hj hactj k hk hne
    have hji : j = i := by
      by_contra hji
      exact hactj (hothers j hj hji)
    exact hothers k hk (hji ▸ hne)

/-- Calls in turn have the shared state for themselves. -/
theorem Turns.excl {idle : κ → Prop} (hidle : ∀ c, done c → idle c) {p : Pool σ κ} (h : Turns done p) {i : Nat}
    (hi : i < p.calls) (hact : ¬ done (p.call i)) : idle (p.call i) → ∀ j < p.calls, idle (p.call j) := by
  intro hid j hj
  by_cases hne : j = i
  · rwa [hne]
  · exact hidle _ (h i hi hact j hj hne)

end Turns

end HgicFmac.Lib
