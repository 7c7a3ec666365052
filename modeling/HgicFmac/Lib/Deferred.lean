import Mathlib.Algebra.GroupWithZero.Nat
import Mathlib.Tactic.TypeStar

/-!
# Deferred work: timers and work items

Each runs a function whose next step is a value of `π`; it does not run twice at a time, but may be started over while
it runs.

* `Timer` : `mod`, `fire`, and `delSync`, which waits for the handler;
* `Work` : `schedule`, `start`, and `cancel_work_sync` as two steps: `cancel` takes the item out of its queue and keeps
  it out, `flushed` waits for its function;
* `Timer.Idle`, `Work.Idle` : nothing waits and nothing runs;
* `Served` : a queue of packets with the work item that takes them out, on a workqueue that is destroyed one day. A
  packet waits for work that comes, unless it came too late (`Attended`); when the workqueue is gone, so are the packets
  but these (`Gone`); `steps` : the steps that are left.
-/

namespace HgicFmac.Lib

variable {π : Type*}

structure Timer (π : Type*) where
  armed : Bool
  handler : Option π
  deriving DecidableEq, Repr

/-- `held` is set while `cancel_work_sync` waits. -/
structure Work (π : Type*) where
  queued : Bool
  held : Bool
  pc : Option π
  deriving DecidableEq, Repr

namespace Timer

def mod (t : Timer π) : Timer π := { t with armed := true }

def fire (entry : π) (t : Timer π) : Option (Timer π) :=
  if t.armed = true ∧ t.handler.isNone = true then some ⟨false, some entry⟩ else none

/-- A handler that runs may have armed the timer again, so both end together. -/
def delSync (t : Timer π) : Option (Timer π) := if t.handler.isNone = true then some { t with armed := false } else none

structure Idle (t : Timer π) : Prop where
  armed : t.armed = false
  handler : t.handler = none

@[simp] theorem mod_armed (t : Timer π) : t.mod.armed = true := rfl

@[simp] theorem mod_handler (t : Timer π) : t.mod.handler = t.handler := rfl

theorem fire_cases {entry : π} {t t' : Timer π} (h : t.fire entry = some t') :
    t.armed = true ∧ t.handler = none ∧ t' = ⟨false, some entry⟩ := by
  unfold fire at h
  split at h
  · next hand => exact ⟨hand.1, Option.isNone_iff_eq_none.1 hand.2, (Option.some.inj h).symm⟩
  · cases h

theorem delSync_cases {t t' : Timer π} (h : t.delSync = some t') : t.handler = none ∧ t' = ⟨false, none⟩ := by
  unfold delSync at h
  split at h
  · next hnone =>
    have hh := Option.isNone_iff_eq_none.1 hnone
    exact ⟨hh, by rw [← Option.some.inj h, hh]⟩
  · cases h

theorem delSync_of_none {t : Timer π} (h : t.handler = none) : t.delSync = some ⟨false, none⟩ := by
  unfold delSync
  rw [h, if_pos Option.isNone_none]

theorem Idle.fire {t : Timer π} (h : t.Idle) (entry : π) : t.fire entry = none := by
  rw [Timer.fire, h.armed, if_neg (fun hand => Bool.false_ne_true hand.1)]

end Timer

namespace Work

/-- An item that waits already, or that is held, is not queued once more. -/
def schedule (w : Work π) : Work π := if w.held then w else { w with queued := true }

def start (entry : π) (w : Work π) : Option (Work π) :=
  if w.queued = true ∧ w.pc.isNone = true then some { w with queued := false, pc := some entry } else none

def cancel (w : Work π) : Work π := { w with queued := false, held := true }

def flushed (w : Work π) : Option (Work π) := if w.pc.isNone = true then some { w with held := false } else none

structure Idle (w : Work π) : Prop where
  queued : w.queued = false
  pc : w.pc = none

@[simp] theorem schedule_pc (w : Work π) : w.schedule.pc = w.pc := by
  unfold schedule
  split <;> rfl

@[simp] theorem cancel_queued (w : Work π) : w.cancel.queued = false := rfl

@[simp] theorem cancel_pc (w : Work π) : w.cancel.pc = w.pc := rfl

theorem start_cases {entry : π} {w w' : Work π} (h : w.start entry = some w') :
    w.queued = true ∧ w.pc = none ∧ w'.queued = false ∧ w'.pc = some entry := by
  unfold start at h
  split at h
  · next hand =>
    cases h
    exact ⟨hand.1, Option.isNone_iff_eq_none.1 hand.2, rfl, rfl⟩
  · cases h

theorem start_held {entry : π} {w w' : Work π} (h : w.start entry = some w') : w'.held = w.held := by
  unfold start at h
  split at h
  · cases h
    rfl
  · cases h

theorem flushed_cases {w w' : Work π} (h : w.flushed = some w') :
    w.pc = none ∧ w'.pc = none ∧ w'.queued = w.queued := by
  unfold flushed at h
  split at h
  · next hnone =>
    have hpc := Option.isNone_iff_eq_none.1 hnone
    cases h
    exact ⟨hpc, hpc, rfl⟩
  · cases h

theorem flushed_held {w w' : Work π} (h : w.flushed = some w') : w'.held = false := by
  unfold flushed at h
  split at h
  · cases h
    rfl
  · cases h

theorem flushed_of_none {w : Work π} (h : w.pc = none) : w.flushed = some { w with held := false } := by
  unfold flushed
  rw [h, if_pos Option.isNone_none]

theorem Idle.start {w : Work π} (h : w.Idle) (entry : π) : w.start entry = none := by
  rw [Work.start, h.queued, if_neg (fun hand => Bool.false_ne_true hand.1)]

end Work

/-- A work item of its own for a queue of packets. When the workqueue is no longer there, `late` are those that still
queue the work item. -/
structure Served (ω : Type*) where
  length : Nat
  work : Work Unit
  alive : Bool
  late : List ω
  deriving DecidableEq, Repr

namespace Served
variable {ω : Type*}

def init : Served ω := ⟨0, ⟨false, false, none⟩, true, []⟩

section Operations
variable (q : Served ω)

def kick (w : ω) : Served ω :=
  if q.alive then { q with work := q.work.schedule } else { q with late := q.late ++ [w] }

def send (w : ω) : Served ω := { q with length := q.length + 1 }.kick w

def start : Option (Served ω) := (q.work.start ()).map fun w => { q with work := w }

/-- A pass of the function. It ends when there are no packets, unless it has `more` to do; `drop` discards them. -/
def pass (drop more : Bool) : Option (Served ω) :=
  q.work.pc.map fun _ =>
    if 0 < q.length then { q with length := if drop then 0 else q.length - 1 }
    else { q with work := { q.work with pc := if more then some () else none } }

def cancel : Served ω := { q with work := q.work.cancel }

def flushed : Option (Served ω) := q.work.flushed.map fun w => { q with work := w }

def clear : Served ω := { q with length := 0 }

/-- The workqueue is destroyed when nothing waits in it and nothing runs. -/
def destroy : Option (Served ω) :=
  if q.work.queued = false ∧ q.work.pc.isNone = true then some { q with alive := false } else none

end Operations

variable {q q' : Served ω}

/-- Where there are more packets than came late, the work item is going to run. -/
structure Attended (q : Served ω) : Prop where
  held : q.work.held = false
  coming : q.late.length < q.length → q.work.queued = true ∨ q.work.pc.isSome = true

/-- Each packet that is left came late. -/
structure Gone (q : Served ω) : Prop where
  alive : q.alive = false
  idle : q.work.Idle
  late : q.length ≤ q.late.length

theorem kick_held (w : ω) : (q.kick w).work.held = q.work.held := by
  unfold kick Work.schedule
  split
  · dsimp only
    split <;> rfl
  · rfl

theorem kick_pc (w : ω) : (q.kick w).work.pc = q.work.pc := by
  unfold kick
  split
  · exact Work.schedule_pc _
  · rfl

theorem kick_alive (w : ω) : (q.kick w).alive = q.alive := by
  unfold kick
  split <;> rfl

theorem mem_late_kick {w v : ω} (h : v ∈ (q.kick w).late) : v ∈ q.late ∨ v = w ∧ q.alive = false := by
  unfold kick at h
  split at h
  · exact .inl h
  · next hdead =>
    rcases List.mem_append.1 h with hmem | hlast
    · exact .inl hmem
    · exact .inr ⟨List.mem_singleton.1 hlast, Bool.eq_false_iff.2 hdead⟩

theorem start_same (h : q.start = some q') :
    q'.work.held = q.work.held ∧ q'.alive = q.alive ∧ q'.late = q.late := by
  obtain ⟨w, hw, rfl⟩ := Option.map_eq_some_iff.1 h
  exact ⟨Work.start_held hw, rfl, rfl⟩

theorem pass_same {drop more : Bool} (h : q.pass drop more = some q') :
    q'.work.held = q.work.held ∧ q'.alive = q.alive ∧ q'.late = q.late := by
  obtain ⟨pc, -, rfl⟩ := Option.map_eq_some_iff.1 h
  split <;> exact ⟨rfl, rfl, rfl⟩

theorem destroy_same (h : q.destroy = some q') : q'.work = q.work ∧ q'.late = q.late := by
  unfold destroy at h
  split at h
  · cases h
    exact ⟨rfl, rfl⟩
  · cases h

/-- Whoever queues the work item brings one packet at most. Too late, he is one more that came late. -/
theorem Attended.kick (h : q.Attended) {n : Nat} (hn : n ≤ q.length + 1) (w : ω) :
    ({ q with length := n }.kick w).Attended := by
  refine ⟨(kick_held w).trans h.held, fun hmore => ?_⟩
  unfold Served.kick at hmore ⊢
  split
  · exact .inl (by rw [Work.schedule, if_neg (by rw [h.held]; exact Bool.false_ne_true)])
  · next hdead =>
    rw [if_neg hdead] at hmore
    simp only [List.length_append, List.length_singleton] at hmore
    exact h.coming (by omega)

theorem Attended.start (h : q.Attended) (hs : q.start = some q') : q'.Attended := by
  obtain ⟨w, hw, rfl⟩ := Option.map_eq_some_iff.1 hs
  obtain ⟨-, -, -, hpc⟩ := Work.start_cases hw
  exact ⟨(Work.start_held hw).trans h.held, fun _ => .inr (by rw [hpc, Option.isSome_some])⟩

theorem Attended.pass (h : q.Attended) {drop more : Bool} (hp : q.pass drop more = some q') : q'.Attended := by
  obtain ⟨pc, hpc, rfl⟩ := Option.map_eq_some_iff.1 hp
  split
  · exact ⟨h.held, fun _ => .inr (by rw [hpc, Option.isSome_some])⟩
  · next hempty => exact ⟨h.held, fun hmore => absurd (Nat.zero_lt_of_lt hmore) hempty⟩

theorem Attended.clear (h : q.work.held = false) : q.clear.Attended :=
  ⟨h, fun hmore => absurd hmore (Nat.not_lt_zero _)⟩

/-- Destroying the workqueue waits for the packets. -/
theorem Attended.gone (h : q.Attended) (hd : q.destroy = some q') : q'.Gone ∧ q'.Attended := by
  unfold destroy at hd
  split at hd
  · next hand =>
    cases hd
    refine ⟨⟨rfl, ⟨hand.1, Option.isNone_iff_eq_none.1 hand.2⟩, Nat.le_of_not_lt fun hmore => ?_⟩, h.held, h.coming⟩
    rcases h.coming hmore with hqueued | hpc
    · rw [hand.1] at hqueued
      cases hqueued
    · rw [Option.isNone_iff_eq_none.1 hand.2] at hpc
      cases hpc
  · cases hd

theorem Gone.kick (h : q.Gone) {n : Nat} (hn : n ≤ q.length + 1) (w : ω) : ({ q with length := n }.kick w).Gone := by
  have hlate := h.late
  rw [Served.kick, if_neg (by dsimp only; rw [h.alive]; exact Bool.false_ne_true)]
  refine ⟨h.alive, h.idle, ?_⟩
  rw [List.length_append, List.length_singleton]
  exact Nat.le_trans hn (Nat.add_le_add_right hlate 1)

theorem Gone.start (h : q.Gone) : q.start = none := by
  rw [Served.start, h.idle.start, Option.map_none]

theorem Gone.pass (h : q.Gone) (drop more : Bool) : q.pass drop more = none := by
  rw [Served.pass, h.idle.pc, Option.map_none]

def steps (q : Served ω) : Nat :=
  q.length + (if q.work.pc.isSome then 1 else 0) + if q.work.queued then 2 else 0

theorem kick_steps (w : ω) : (q.kick w).steps ≤ q.steps + 2 := by
  have hle : ∀ b : Bool, (if b then 2 else 0) ≤ 2 := by decide
  have hnew := hle (q.kick w).work.queued
  have hlength : (q.kick w).length = q.length := by
    unfold kick
    split <;> rfl
  unfold steps
  rw [kick_pc, hlength]
  omega

theorem send_steps (w : ω) : (q.send w).steps ≤ q.steps + 3 := by
  have hkick := @kick_steps ω { q with length := q.length + 1 } w
  have hone : steps { q with length := q.length + 1 } = q.steps + 1 := by
    unfold steps
    dsimp only
    omega
  unfold send
  omega

theorem start_steps (h : q.start = some q') : q'.steps < q.steps := by
  obtain ⟨w, hw, rfl⟩ := Option.map_eq_some_iff.1 h
  obtain ⟨hqueued, hpc, hqueued', hpc'⟩ := Work.start_cases hw
  simp [steps, hqueued, hpc, hqueued', hpc']

theorem pass_steps {drop : Bool} (h : q.pass drop false = some q') : q'.steps < q.steps := by
  obtain ⟨pc, hpc, rfl⟩ := Option.map_eq_some_iff.1 h
  split
  · next hpos =>
    have hless : (if drop then 0 else q.length - 1) < q.length := by
      split <;> omega
    unfold steps
    dsimp only
    omega
  · simp [steps, hpc]

theorem cancel_steps : q.cancel.steps ≤ q.steps := by
  unfold steps cancel Work.cancel
  dsimp only
  rw [if_neg Bool.false_ne_true]
  exact Nat.le_add_right _ _

theorem flushed_steps (h : q.flushed = some q') : q'.steps ≤ q.steps := by
  obtain ⟨w, hw, rfl⟩ := Option.map_eq_some_iff.1 h
  obtain ⟨hpc, hpc', hqueued⟩ := Work.flushed_cases hw
  simp [steps, hpc, hpc', hqueued]

theorem clear_steps : q.clear.steps ≤ q.steps := by
  unfold steps clear
  dsimp only
  omega

theorem destroy_steps (h : q.destroy = some q') : q'.steps = q.steps := by
  unfold destroy at h
  split at h
  · cases h
    rfl
  · cases h

end Served

end HgicFmac.Lib
