import HgicFmac.Lib.Deferred
import HgicFmac.Lib.Run
import Mathlib.Logic.Function.Basic
import Mathlib.Tactic.IntervalCases

/-!
# Removal of a device

`hgicf_core_remove` stops the detect timer, the work items and the workqueues while other contexts still use them:
`hgicf_detect_timer` schedules `detect_work`, `hgicf_detect_work` arms the timer and schedules `delay_init`, and
`hgicf_delay_init` arms the timer and schedules itself; handlers of the bus, calls of the net device and users of the
proc files queue work. All but one of these look at a flag first, but not at the same time.

* `HandlerPc`, `DetectPc`, `InitPc` : where the functions of the timer and of its work stand between two accesses;
  `Entry`, `Caller` : who else is inside the driver, and what he queues (`Dev.call`);
* `Removal`, `removal` : what the bus and `hgicf_core_remove` do; `Dev`, `Act`, `step` : all of them, in any order;
* `Stopped`, `Inside`, `DetectStopped`, `Retired` : what the removal has reached so far (`step_inv`);
* `remove_quiesces` : what is left at its end, and who can come too late;
* `Dev.work` : the steps that are left; `remove_ends` : the removal ends in every order.
-/

namespace HgicFmac.Remove
open Lib

inductive BusType
  | usb | sdio
  deriving DecidableEq, Repr

/-- `hgicf_detect_timer`: the test of RUNNING, and `schedule_work` of `detect_work`. -/
inductive HandlerPc
  | test | schedule
  deriving DecidableEq, Repr

/-- `hgicf_detect_work`: the first test of RUNNING, `hgic_bootdl_cmd_enter` up to the test before a reload is scheduled,
`schedule_work` of `delay_init`, the last test, and `mod_timer`. -/
inductive DetectPc
  | test | reload | schedule | last | arm
  deriving DecidableEq, Repr

/-- `hgicf_delay_init`: the test of RUNNING, `hgicf_download_fw` with `mod_timer` at its end, what follows up to the
test at `__reinit`, and `schedule_work`. -/
inductive InitPc
  | test | download | reinit | schedule
  deriving DecidableEq, Repr

/-- Those who are inside the driver: `bus.rx_packet` of a handler that has seen that the bus is not stopped; a
`hgicf_tx_complete` without success, and a function of the net device, that have seen RUNNING; a user of a proc file. -/
inductive Entry
  | receive | complete | netdev | proc
  deriving DecidableEq, Repr

/-- Those who queue work. -/
inductive Caller
  | entry (e : Entry)
  | delayInit | detectWork
  deriving DecidableEq, Repr

/-- RUNNING, the timer and the work items that it starts. -/
structure Detection where
  running : Bool
  timer : Timer HandlerPc
  delayInit : Work InitPc
  detectWork : Work DetectPc
  deriving DecidableEq, Repr

/-- `tx` is `ctrl.txq` with `tx_work` on `tx_wq`, `ctrl` is `ctrl.rxq` with `ctrl.work` on `ctrl.wq`; `dataq` counts
`tx_dataq`, and `phase` what the removal has done. -/
structure Dev where
  detection : Detection
  tx : Served Caller
  ctrl : Served Caller
  dataq : Nat
  inside : Entry → Nat
  phase : Nat

/-- The state that `hgicf_core_probe` leaves. -/
def Dev.probed : Dev :=
  ⟨⟨true, ⟨false, none⟩, ⟨false, false, none⟩, ⟨false, false, none⟩⟩, .init, .init, 0, fun _ => 0, 0⟩

/-- `hgic_sdio_remove` and `hgic_usb_disconnect` up to `bus.remove`, and `hgicf_core_remove`. -/
inductive Removal
  | stopBus | clearRunning
  | delTimer | cancelInit | waitInit | cancelDetect | waitDetect | cancelTx | waitTx
  | deleteProcfs | cancelCtrl | waitCtrl | clearCtrl | destroyCtrl | destroyTx | unregister | clearData
  deriving DecidableEq, Repr

def cancelRound : List Removal :=
  [.delTimer, .cancelInit, .waitInit, .cancelDetect, .waitDetect, .cancelTx, .waitTx]

def removal : List Removal :=
  [.stopBus, .clearRunning] ++ (cancelRound ++ cancelRound) ++
    [.deleteProcfs, .cancelCtrl, .waitCtrl, .clearCtrl, .destroyCtrl, .destroyTx, .unregister, .clearData]

/-! ## Functions -/

section Detection
variable (d : Detection)

def hgicfDetectTimer : HandlerPc → Detection
  | .test => { d with timer.handler := if d.running then some .schedule else none }
  | .schedule => { d with timer.handler := none, detectWork := d.detectWork.schedule }

/-- `choice` stands for the tests of everything else: that the device has been silent, that a reload is needed. -/
def hgicfDetectWork (choice : Bool) : DetectPc → Detection
  | .test => { d with detectWork.pc := some (if choice && d.running then .reload else .last) }
  | .reload => { d with detectWork.pc := some (if choice && d.running then .schedule else .last) }
  | .schedule => { d with detectWork.pc := some .last, delayInit := d.delayInit.schedule }
  | .last => { d with detectWork.pc := if d.running then some .arm else none }
  | .arm => { d with detectWork.pc := none, timer := d.timer.mod }

/-- `hgicf_download_fw` arms the timer whatever RUNNING is. `choice` : the firmware did not get running. -/
def hgicfDelayInit (reinit choice : Bool) : InitPc → Detection
  | .test => { d with delayInit.pc := if d.running then some .download else none }
  | .download => { d with delayInit.pc := some .reinit, timer := d.timer.mod }
  | .reinit => { d with delayInit.pc := if choice && reinit && d.running then some .schedule else none }
  | .schedule => { d with delayInit := { d.delayInit.schedule with pc := none } }

end Detection

section Dev
variable (s : Dev)

/-- When one may come in. On SDIO it is `tx_work` that calls `hgicf_tx_complete`. -/
def Dev.mayEnter (bus : BusType) : Entry → Bool
  | .receive => s.phase = 0
  | .complete => s.detection.running && (bus = .usb || s.tx.work.pc.isSome)
  | .netdev => s.detection.running
  | .proc => s.phase ≤ 16

/-- Who may queue work: the work items while they send commands to the device. -/
def Dev.mayCall : Caller → Bool
  | .entry e => 0 < s.inside e
  | .delayInit => s.detection.delayInit.pc = some .download || s.detection.delayInit.pc = some .reinit
  | .detectWork => s.detection.detectWork.pc = some .reload

/-- A full queue loses a packet. -/
def Dev.hgicFwctrlSendData (c : Caller) : Dev :=
  { s with tx := if 4 < s.tx.length then s.tx.kick c else s.tx.send c }

/-- `hgic_fwctrl_rx`; `schedule_work` of `detect_work`; `hgicf_netif_xmit` with `data`, and otherwise a command. -/
def Dev.call (data : Bool) : Caller → Dev
  | .entry .receive => { s with ctrl := s.ctrl.send (.entry .receive) }
  | .entry .complete => { s with detection.detectWork := s.detection.detectWork.schedule }
  | .entry .netdev =>
    if data then { s with dataq := s.dataq + 1, tx := s.tx.kick (.entry .netdev) }
    else s.hgicFwctrlSendData (.entry .netdev)
  | c => s.hgicFwctrlSendData c

/-- One step of the removal; `none` when it waits. `sdio_release_irq` waits for a handler. -/
def hgicfCoreRemove (bus : BusType) : Removal → Option Dev
  | .stopBus => if bus = .sdio ∧ 0 < s.inside .receive then none else some s
  | .clearRunning => some { s with detection.running := false }
  | .delTimer => s.detection.timer.delSync.map fun t => { s with detection.timer := t }
  | .cancelInit => some { s with detection.delayInit := s.detection.delayInit.cancel }
  | .waitInit => s.detection.delayInit.flushed.map fun w => { s with detection.delayInit := w }
  | .cancelDetect => some { s with detection.detectWork := s.detection.detectWork.cancel }
  | .waitDetect => s.detection.detectWork.flushed.map fun w => { s with detection.detectWork := w }
  | .cancelTx => some { s with tx := s.tx.cancel }
  | .waitTx => s.tx.flushed.map fun q => { s with tx := q }
  | .deleteProcfs => if 0 < s.inside .proc then none else some s
  | .cancelCtrl => some { s with ctrl := s.ctrl.cancel }
  | .waitCtrl => s.ctrl.flushed.map fun q => { s with ctrl := q }
  | .clearCtrl => some { s with tx := s.tx.clear, ctrl := s.ctrl.clear }
  | .destroyCtrl => s.ctrl.destroy.map fun q => { s with ctrl := q }
  | .destroyTx => s.tx.destroy.map fun q => { s with tx := q }
  | .unregister => if 0 < s.inside .netdev then none else some s
  | .clearData => some { s with dataq := 0 }

end Dev

inductive Act
  | probePost | fire | handler | startInit | startDetect | startTx | startCtrl | ctrlWork | remove
  | delayInit (choice : Bool)
  | detectWork (choice : Bool)
  | txWork (more : Bool)
  | enter (e : Entry)
  | leave (e : Entry)
  | call (c : Caller) (data : Bool)
  deriving DecidableEq, Repr

/-- One access. `reinit` : the bus can be initialised again. A device is removed behind its probe. Without RUNNING
`hgicf_tx_work` clears `ctrl.txq` and leaves `tx_dataq` alone. -/
def step (bus : BusType) (reinit : Bool) (s : Dev) : Act → Option Dev
  | .probePost =>
    if s.phase = 0 then some { s with detection.delayInit := s.detection.delayInit.schedule } else none
  | .fire => (s.detection.timer.fire .test).map fun t => { s with detection.timer := t }
  | .handler => s.detection.timer.handler.map fun pc => { s with detection := hgicfDetectTimer s.detection pc }
  | .startInit => (s.detection.delayInit.start .test).map fun w => { s with detection.delayInit := w }
  | .delayInit choice =>
    s.detection.delayInit.pc.map fun pc => { s with detection := hgicfDelayInit s.detection reinit choice pc }
  | .startDetect => (s.detection.detectWork.start .test).map fun w => { s with detection.detectWork := w }
  | .detectWork choice =>
    s.detection.detectWork.pc.map fun pc => { s with detection := hgicfDetectWork s.detection choice pc }
  | .startTx => s.tx.start.map fun q => { s with tx := q }
  | .txWork more =>
    if bus = .sdio ∧ 0 < s.inside .complete then none
    else (s.tx.pass (!s.detection.running) (more && s.detection.running)).map fun q => { s with tx := q }
  | .startCtrl => s.ctrl.start.map fun q => { s with ctrl := q }
  | .ctrlWork => (s.ctrl.pass false false).map fun q => { s with ctrl := q }
  | .enter e =>
    if s.mayEnter bus e then some { s with inside := Function.update s.inside e (s.inside e + 1) } else none
  | .leave e =>
    if 0 < s.inside e then some { s with inside := Function.update s.inside e (s.inside e - 1) } else none
  | .call c data => if s.mayCall c then some (s.call data c) else none
  | .remove => removal[s.phase]?.bind fun i => (hgicfCoreRemove s bus i).map fun t => { t with phase := s.phase + 1 }

/-! ## What has stopped -/

/-- The timer and its work, after `p` steps of the removal. -/
structure Stopped (p : Nat) (d : Detection) : Prop where
  running : 2 ≤ p → d.running = false
  handler : 3 ≤ p → d.timer.handler ≠ some .schedule
  delayInit : 5 ≤ p → d.delayInit.pc = none ∨ d.delayInit.pc = some .test
  detectWork : 7 ≤ p → ∀ pc, d.detectWork.pc = some pc → pc = .test ∨ pc = .last
  timer : 10 ≤ p → d.timer.Idle
  initQueued : 11 ≤ p → d.delayInit.queued = false
  initPc : 12 ≤ p → d.delayInit.pc = none

/-- Those inside. -/
structure Inside (bus : BusType) (p : Nat) (inside : Entry → Nat) (tx : Option Unit) : Prop where
  receive : bus = .sdio → 1 ≤ p → inside .receive = 0
  inTx : bus = .sdio → 0 < inside .complete → tx ≠ none
  complete : bus = .sdio → 9 ≤ p → inside .complete = 0
  proc : 17 ≤ p → inside .proc = 0
  netdev : 23 ≤ p → inside .netdev = 0

/-- On SDIO nothing schedules `detect_work` behind its second cancellation. -/
structure DetectStopped (bus : BusType) (p : Nat) (w : Work DetectPc) : Prop where
  queued : bus = .sdio → 13 ≤ p → w.queued = false
  pc : bus = .sdio → 14 ≤ p → w.pc = none

/-- A queue with its work item: cancelled for the last time with `waited` steps of the removal, cleared with `cleared`,
its workqueue destroyed with `destroyed`. After that only `ok` may come. -/
structure Retired (waited cleared destroyed : Nat) (ok : Caller → Prop) (p : Nat) (q : Served Caller) : Prop where
  held : waited ≤ p → q.work.held = false
  attended : cleared ≤ p → q.Attended
  gone : destroyed ≤ p → q.Gone
  alive : p < destroyed → q.alive = true
  late : ∀ c ∈ q.late, ok c

/-- Who may come too late for `tx_wq`, and for `ctrl.wq`. -/
def LateTx (c : Caller) : Prop := c = .entry .netdev

def LateCtrl (bus : BusType) (c : Caller) : Prop := c = .entry .receive ∧ bus = .usb

structure Inv (bus : BusType) (s : Dev) : Prop where
  stopped : Stopped s.phase s.detection
  inside : Inside bus s.phase s.inside s.tx.work.pc
  detect : DetectStopped bus s.phase s.detection.detectWork
  tx : Retired 16 20 22 LateTx s.phase s.tx
  ctrl : Retired 19 20 21 (LateCtrl bus) s.phase s.ctrl
  dataq : 24 ≤ s.phase → s.dataq = 0

theorem Stopped.zero (d : Detection) : Stopped 0 d := by
  constructor <;> intro hp <;> exact absurd hp (by decide)

theorem retired_init (waited cleared : Nat) {destroyed : Nat} (h : 0 < destroyed) (ok : Caller → Prop) :
    Retired waited cleared destroyed ok 0 .init :=
  ⟨fun _ => rfl, fun _ => ⟨rfl, fun hmore => absurd hmore (Nat.lt_irrefl 0)⟩, fun hp => absurd h (Nat.not_lt.2 hp),
    fun _ => rfl, List.forall_mem_nil _⟩

theorem inv_probed (bus : BusType) : Inv bus .probed :=
  ⟨.zero _, ⟨fun _ _ => rfl, fun _ hpos => absurd hpos (Nat.lt_irrefl 0), fun _ _ => rfl, fun _ => rfl, fun _ => rfl⟩,
    ⟨fun _ _ => rfl, fun _ _ => rfl⟩, retired_init 16 20 (by decide) _, retired_init 19 20 (by decide) _, fun _ => rfl⟩

/-! ### One step -/

section Stopped
variable {p : Nat} {d : Detection}

theorem Stopped.detectTimer (hs : Stopped p d) {pc : HandlerPc} (hpc : d.timer.handler = some pc) :
    Stopped p (hgicfDetectTimer d pc) := by
  obtain ⟨h2, h3, h5, h7, h10, h11, h12⟩ := hs
  have hearly : p < 10 := by
    by_contra hlate
    rw [(h10 (by omega)).handler] at hpc
    cases hpc
  cases pc with
  | test =>
    refine ⟨h2, fun hp => ?_, h5, h7, fun hp => by omega, h11, h12⟩
    simp [hgicfDetectTimer, h2 (by omega)]
  | schedule =>
    have hfirst : p < 3 := by
      by_contra hlate
      exact h3 (by omega) hpc
    exact ⟨h2, fun hp => by omega, h5, fun hp => by omega, fun hp => by omega, h11, h12⟩

theorem Stopped.hgicfDetectWork (hs : Stopped p d) (choice : Bool) {pc : DetectPc} (hpc : d.detectWork.pc = some pc) :
    Stopped p (Remove.hgicfDetectWork d choice pc) := by
  obtain ⟨h2, h3, h5, h7, h10, h11, h12⟩ := hs
  have hdelay : (d.delayInit.schedule.pc = none ∨ d.delayInit.schedule.pc = some .test) ↔
      (d.delayInit.pc = none ∨ d.delayInit.pc = some .test) := by rw [Work.schedule_pc]
  have hfirst : ¬ (pc = .test ∨ pc = .last) → p < 7 := by
    intro hne
    by_contra hlate
    exact hne (h7 (by omega) pc hpc)
  cases pc with
  | test =>
    refine ⟨h2, h3, h5, fun hp pc' hpc' => ?_, h10, h11, h12⟩
    simp only [Remove.hgicfDetectWork, h2 (by omega), Bool.and_false, Bool.false_eq_true, if_false] at hpc'
    exact .inr (Option.some.inj hpc').symm
  | last =>
    refine ⟨h2, h3, h5, fun hp pc' hpc' => ?_, h10, h11, h12⟩
    simp [Remove.hgicfDetectWork, h2 (by omega)] at hpc'
  | schedule =>
    have hlt := hfirst (by decide)
    exact ⟨h2, h3, fun hp => hdelay.2 (h5 hp), fun hp => by omega, fun hp => by omega, fun hp => by omega,
      fun hp => by omega⟩
  | reload | arm =>
    have hlt := hfirst (by decide)
    exact ⟨h2, h3, h5, fun hp => by omega, fun hp => by omega, h11, h12⟩

theorem Stopped.hgicfDelayInit (hs : Stopped p d) (reinit choice : Bool) {pc : InitPc}
    (hpc : d.delayInit.pc = some pc) : Stopped p (Remove.hgicfDelayInit d reinit choice pc) := by
  obtain ⟨h2, h3, h5, h7, h10, h11, h12⟩ := hs
  have hearly : p < 12 := by
    by_contra hlate
    rw [h12 (by omega)] at hpc
    cases hpc
  have hfirst : pc ≠ .test → p < 5 := by
    intro hne
    by_contra hlate
    rcases h5 (by omega) with hnone | htest
    · rw [hnone] at hpc
      cases hpc
    · rw [htest] at hpc
      exact hne (Option.some.inj hpc).symm
  cases pc with
  | test =>
    refine ⟨h2, h3, fun hp => .inl ?_, h7, h10, h11, fun hp => by omega⟩
    simp [Remove.hgicfDelayInit, h2 (by omega)]
  | download | reinit | schedule =>
    have hlt := hfirst (by decide)
    exact ⟨h2, h3, fun hp => by omega, h7, fun hp => by omega, fun hp => by omega, fun hp => by omega⟩

theorem Stopped.fire (hs : Stopped p d) {t : Timer HandlerPc} (h : d.timer.fire .test = some t) :
    Stopped p { d with timer := t } := by
  obtain ⟨h2, h3, h5, h7, h10, h11, h12⟩ := hs
  obtain ⟨harmed, -, rfl⟩ := Timer.fire_cases h
  refine ⟨h2, fun _ => by simp, h5, h7, fun hp => ?_, h11, h12⟩
  rw [(h10 hp).armed] at harmed
  cases harmed

theorem Stopped.startInit (hs : Stopped p d) {w : Work InitPc} (h : d.delayInit.start .test = some w) :
    Stopped p { d with delayInit := w } := by
  obtain ⟨h2, h3, h5, h7, h10, h11, h12⟩ := hs
  obtain ⟨hqueued, -, hqueued', hpc⟩ := Work.start_cases h
  refine ⟨h2, h3, fun _ => .inr hpc, h7, h10, fun _ => hqueued', fun hp => ?_⟩
  rw [h11 (by omega)] at hqueued
  cases hqueued

theorem Stopped.startDetect (hs : Stopped p d) {w : Work DetectPc} (h : d.detectWork.start .test = some w) :
    Stopped p { d with detectWork := w } := by
  obtain ⟨h2, h3, h5, h7, h10, h11, h12⟩ := hs
  obtain ⟨-, -, -, hpc⟩ := Work.start_cases h
  exact ⟨h2, h3, h5, fun _ pc hpc' => .inl (Option.some.inj (hpc'.symm.trans hpc)), h10, h11, h12⟩

theorem Stopped.scheduleDetect (hs : Stopped p d) : Stopped p { d with detectWork := d.detectWork.schedule } := by
  obtain ⟨h2, h3, h5, h7, h10, h11, h12⟩ := hs
  exact ⟨h2, h3, h5, fun hp pc hpc => h7 hp pc (by rwa [Work.schedule_pc] at hpc), h10, h11, h12⟩

end Stopped

section Retired
variable {waited cleared destroyed p : Nat} {ok : Caller → Prop} {q q' : Served Caller}

theorem Retired.kick (hq : Retired waited cleared destroyed ok p q) {n : Nat} (hn : n ≤ q.length + 1) {c : Caller}
    (hok : destroyed ≤ p → ok c) : Retired waited cleared destroyed ok p ({ q with length := n }.kick c) := by
  refine ⟨fun hp => (Served.kick_held c).trans (hq.held hp), fun hp => (hq.attended hp).kick hn c,
    fun hp => (hq.gone hp).kick hn c, fun hp => (Served.kick_alive c).trans (hq.alive hp), fun v hv => ?_⟩
  rcases Served.mem_late_kick hv with hmem | ⟨rfl, hdead⟩
  · exact hq.late v hmem
  · refine hok (Nat.le_of_not_lt fun hlt => ?_)
    have halive := hq.alive hlt
    rw [show q.alive = false from hdead] at halive
    cases halive

theorem Retired.start (hq : Retired waited cleared destroyed ok p q) (h : q.start = some q') :
    Retired waited cleared destroyed ok p q' := by
  obtain ⟨hheld, halive, hlate⟩ := Served.start_same h
  refine ⟨fun hp => hheld.trans (hq.held hp), fun hp => (hq.attended hp).start h, fun hp => ?_,
    fun hp => halive.trans (hq.alive hp), fun c hc => hq.late c (hlate ▸ hc)⟩
  rw [(hq.gone hp).start] at h
  cases h

theorem Retired.pass (hq : Retired waited cleared destroyed ok p q) {drop more : Bool}
    (h : q.pass drop more = some q') : Retired waited cleared destroyed ok p q' := by
  obtain ⟨hheld, halive, hlate⟩ := Served.pass_same h
  refine ⟨fun hp => hheld.trans (hq.held hp), fun hp => (hq.attended hp).pass h, fun hp => ?_,
    fun hp => halive.trans (hq.alive hp), fun c hc => hq.late c (hlate ▸ hc)⟩
  rw [(hq.gone hp).pass] at h
  cases h

end Retired

section Inside
variable {bus : BusType} {p : Nat} {inside : Entry → Nat} {tx tx' : Option Unit}

theorem Inside.of_tx (hi : Inside bus p inside tx) (h : bus = .sdio → 0 < inside .complete → tx' ≠ none) :
    Inside bus p inside tx' := ⟨hi.receive, h, hi.complete, hi.proc, hi.netdev⟩

theorem Inside.enter {s : Dev} (hs : Stopped s.phase s.detection) (hi : Inside bus s.phase s.inside s.tx.work.pc)
    {e : Entry} (h : s.mayEnter bus e = true) :
    Inside bus s.phase (Function.update s.inside e (s.inside e + 1)) s.tx.work.pc := by
  have hearly : s.detection.running = true → s.phase < 2 := by
    intro hrun
    by_contra hlate
    rw [hs.running (by omega)] at hrun
    cases hrun
  cases e with
  | receive =>
    have h0 : s.phase = 0 := of_decide_eq_true h
    exact ⟨fun _ hp => by omega, hi.inTx, hi.complete, hi.proc, hi.netdev⟩
  | complete =>
    obtain ⟨hrun, htx⟩ := Bool.and_eq_true_iff.1 h
    have hlt := hearly hrun
    refine ⟨hi.receive, fun hbus _ hnone => ?_, fun _ hp => by omega, hi.proc, hi.netdev⟩
    rw [hbus, hnone] at htx
    cases htx
  | netdev =>
    have hlt := hearly h
    exact ⟨hi.receive, hi.inTx, hi.complete, hi.proc, fun hp => by omega⟩
  | proc =>
    have hle : s.phase ≤ 16 := of_decide_eq_true h
    exact ⟨hi.receive, hi.inTx, hi.complete, fun hp => by omega, hi.netdev⟩

theorem Inside.leave (hi : Inside bus p inside tx) (e : Entry) :
    Inside bus p (Function.update inside e (inside e - 1)) tx := by
  have hle : ∀ e', Function.update inside e (inside e - 1) e' ≤ inside e' := by
    intro e'
    by_cases he : e' = e
    · rw [he, Function.update_self]
      exact Nat.sub_le _ _
    · rw [Function.update_of_ne he]
  have hzero : ∀ e', inside e' = 0 → Function.update inside e (inside e - 1) e' = 0 :=
    fun e' h0 => Nat.eq_zero_of_le_zero (h0 ▸ hle e')
  exact ⟨fun hbus hp => hzero _ (hi.receive hbus hp), fun hbus hpos => hi.inTx hbus (Nat.lt_of_lt_of_le hpos (hle _)),
    fun hbus hp => hzero _ (hi.complete hbus hp), fun hp => hzero _ (hi.proc hp), fun hp => hzero _ (hi.netdev hp)⟩

end Inside

section DetectStopped
variable {bus : BusType} {p : Nat} {d : Detection}

theorem DetectStopped.early {w : Work DetectPc} (h : bus = .sdio → p < 13) : DetectStopped bus p w :=
  ⟨fun hbus hp => absurd (h hbus) (Nat.not_lt.2 hp), fun hbus hp => absurd (h hbus) (by omega)⟩

theorem DetectStopped.detectTimer (hs : Stopped p d) (hd : DetectStopped bus p d.detectWork) {pc : HandlerPc}
    (hpc : d.timer.handler = some pc) : DetectStopped bus p (hgicfDetectTimer d pc).detectWork := by
  cases pc with
  | test => exact hd
  | schedule =>
    refine .early fun _ => Nat.lt_of_not_le fun hlate => ?_
    exact hs.handler (by omega) hpc

theorem DetectStopped.hgicfDetectWork (hd : DetectStopped bus p d.detectWork) (choice : Bool) {pc : DetectPc}
    (hpc : d.detectWork.pc = some pc) : DetectStopped bus p (Remove.hgicfDetectWork d choice pc).detectWork := by
  have hsame : (Remove.hgicfDetectWork d choice pc).detectWork.queued = d.detectWork.queued := by
    cases pc <;> rfl
  refine ⟨fun hbus hp => hsame.trans (hd.queued hbus hp), fun hbus hp => ?_⟩
  rw [hd.pc hbus hp] at hpc
  cases hpc

theorem DetectStopped.start (hd : DetectStopped bus p d.detectWork) {w : Work DetectPc}
    (h : d.detectWork.start .test = some w) : DetectStopped bus p w := by
  obtain ⟨hqueued, -, -, -⟩ := Work.start_cases h
  refine .early fun hbus => Nat.lt_of_not_le fun hlate => ?_
  rw [hd.queued hbus hlate] at hqueued
  cases hqueued

end DetectStopped

section Step
variable {bus : BusType} {s t : Dev}

/-- Only a call of the net device queues `tx_work` when `tx_wq` is destroyed. -/
theorem Inv.hgicFwctrlSendData (h : Inv bus s) {c : Caller} (hok : 22 ≤ s.phase → LateTx c) :
    Inv bus (s.hgicFwctrlSendData c) := by
  obtain ⟨hs, hi, hd, htx, hctrl, hdata⟩ := h
  have hin : ∀ n, Inside bus s.phase s.inside ({ s.tx with length := n }.kick c).work.pc := by
    intro n
    rw [Served.kick_pc]
    exact hi
  unfold Dev.hgicFwctrlSendData
  by_cases hfull : 4 < s.tx.length
  · rw [if_pos hfull]
    exact ⟨hs, hin _, hd, htx.kick (Nat.le_succ _) hok, hctrl, hdata⟩
  · rw [if_neg hfull]
    exact ⟨hs, hin _, hd, htx.kick (Nat.le_refl _) hok, hctrl, hdata⟩

theorem Inv.call (h : Inv bus s) {c : Caller} (hmay : s.mayCall c = true) (data : Bool) : Inv bus (s.call data c) := by
  have hpos : ∀ e, c = .entry e → 0 < s.inside e := by
    rintro e rfl
    exact of_decide_eq_true hmay
  cases c with
  | entry e =>
    have hin := hpos e rfl
    cases e with
    | receive =>
      obtain ⟨hs, hi, hd, htx, hctrl, hdata⟩ := h
      refine ⟨hs, hi, hd, htx, hctrl.kick (Nat.le_refl _) fun hp => ⟨rfl, ?_⟩, hdata⟩
      cases bus with
      | usb => rfl
      | sdio => exact absurd (hi.receive rfl (by omega)) (Nat.pos_iff_ne_zero.1 hin)
    | complete =>
      obtain ⟨hs, hi, hd, htx, hctrl, hdata⟩ := h
      refine ⟨hs.scheduleDetect, hi, .early fun hbus => Nat.lt_of_not_le fun hlate => ?_, htx, hctrl, hdata⟩
      exact Nat.pos_iff_ne_zero.1 hin (hi.complete hbus (Nat.le_trans (by decide) hlate))
    | netdev =>
      unfold Dev.call
      by_cases hd : data = true
      · obtain ⟨hs, hi, hdet, htx, hctrl, -⟩ := h
        rw [if_pos hd]
        refine ⟨hs, ?_, hdet, htx.kick (Nat.le_succ _) fun _ => rfl, hctrl, fun hp => ?_⟩
        · dsimp only
          rw [Served.kick_pc]
          exact hi
        · exact absurd (hi.netdev (Nat.le_trans (by decide) hp)) (Nat.pos_iff_ne_zero.1 hin)
      · rw [if_neg hd]
        exact h.hgicFwctrlSendData fun _ => rfl
    | proc =>
      refine h.hgicFwctrlSendData fun hp => ?_
      exact absurd (h.inside.proc (Nat.le_trans (by decide) hp)) (Nat.pos_iff_ne_zero.1 hin)
  | delayInit =>
    refine h.hgicFwctrlSendData fun hp => ?_
    simp [Dev.mayCall, h.stopped.initPc (Nat.le_trans (by decide) hp)] at hmay
  | detectWork =>
    refine h.hgicFwctrlSendData fun hp => ?_
    have hreload : s.detection.detectWork.pc = some .reload := of_decide_eq_true hmay
    exact absurd (h.stopped.detectWork (Nat.le_trans (by decide) hp) _ hreload) (by decide)

end Step

/-! ### One step of the removal -/

/-- When the removal does this. -/
def Removal.At : Removal → Nat → Prop
  | .stopBus, k => k = 0
  | .clearRunning, k => k = 1
  | .delTimer, k => k = 2 ∨ k = 9
  | .cancelInit, k => k = 3 ∨ k = 10
  | .waitInit, k => k = 4 ∨ k = 11
  | .cancelDetect, k => k = 5 ∨ k = 12
  | .waitDetect, k => k = 6 ∨ k = 13
  | .cancelTx, k => k = 7 ∨ k = 14
  | .waitTx, k => k = 8 ∨ k = 15
  | .deleteProcfs, k => k = 16
  | .cancelCtrl, k => k = 17
  | .waitCtrl, k => k = 18
  | .clearCtrl, k => k = 19
  | .destroyCtrl, k => k = 20
  | .destroyTx, k => k = 21
  | .unregister, k => k = 22
  | .clearData, k => k = 23

theorem removal_at {k : Nat} {i : Removal} (h : removal[k]? = some i) : i.At k := by
  have hlt : k < 24 := (List.getElem?_eq_some_iff.1 h).1
  interval_cases k <;> cases h <;> simp [Removal.At]

section Next
variable {bus : BusType} {p : Nat}

/-- Nothing more has stopped than before. -/
theorem Stopped.next {d : Detection} (hs : Stopped p d) (hp : p + 1 ∉ [2, 3, 5, 7, 10, 11, 12]) :
    Stopped (p + 1) d := by
  simp only [List.mem_cons, List.not_mem_nil, not_or] at hp
  obtain ⟨h2, h3, h5, h7, h10, h11, h12⟩ := hs
  exact ⟨fun _ => h2 (by omega), fun _ => h3 (by omega), fun _ => h5 (by omega), fun _ => h7 (by omega),
    fun _ => h10 (by omega), fun _ => h11 (by omega), fun _ => h12 (by omega)⟩

theorem Inside.next {inside : Entry → Nat} {tx : Option Unit} (hi : Inside bus p inside tx)
    (hp : p + 1 ∉ [1, 9, 17, 23]) : Inside bus (p + 1) inside tx := by
  simp only [List.mem_cons, List.not_mem_nil, not_or] at hp
  exact ⟨fun hbus _ => hi.receive hbus (by omega), hi.inTx, fun hbus _ => hi.complete hbus (by omega),
    fun _ => hi.proc (by omega), fun _ => hi.netdev (by omega)⟩

theorem DetectStopped.next {w : Work DetectPc} (hd : DetectStopped bus p w) (hp : p + 1 ∉ [13, 14]) :
    DetectStopped bus (p + 1) w := by
  simp only [List.mem_cons, List.not_mem_nil, not_or] at hp
  exact ⟨fun hbus _ => hd.queued hbus (by omega), fun hbus _ => hd.pc hbus (by omega)⟩

theorem Retired.next {waited cleared destroyed : Nat} {ok : Caller → Prop} {q : Served Caller}
    (hq : Retired waited cleared destroyed ok p q) (hp : p + 1 ∉ [waited, cleared, destroyed]) :
    Retired waited cleared destroyed ok (p + 1) q := by
  simp only [List.mem_cons, List.not_mem_nil, not_or] at hp
  exact ⟨fun _ => hq.held (by omega), fun _ => hq.attended (by omega), fun _ => hq.gone (by omega),
    fun _ => hq.alive (by omega), hq.late⟩

end Next

section Remove
variable {bus : BusType} {p : Nat} {d : Detection}

theorem Stopped.clearRunning (d : Detection) : Stopped 2 { d with running := false } := by
  constructor <;> intro hp
  · rfl
  all_goals exact absurd hp (by decide)

theorem Stopped.delTimer (hs : Stopped p d) (hp : p = 2 ∨ p = 9) {t : Timer HandlerPc} (h : d.timer.delSync = some t) :
    Stopped (p + 1) { d with timer := t } := by
  obtain ⟨h2, h3, h5, h7, h10, h11, h12⟩ := hs
  obtain ⟨-, rfl⟩ := Timer.delSync_cases h
  exact ⟨fun _ => h2 (by omega), fun _ => nofun, fun _ => h5 (by omega), fun _ => h7 (by omega), fun _ => ⟨rfl, rfl⟩,
    fun _ => h11 (by omega), fun _ => h12 (by omega)⟩

theorem Stopped.cancelInit (hs : Stopped p d) (hp : p = 3 ∨ p = 10) :
    Stopped (p + 1) { d with delayInit := d.delayInit.cancel } := by
  obtain ⟨h2, h3, h5, h7, h10, h11, h12⟩ := hs
  exact ⟨fun _ => h2 (by omega), fun _ => h3 (by omega), fun _ => h5 (by omega), fun _ => h7 (by omega),
    fun _ => h10 (by omega), fun _ => rfl, fun _ => h12 (by omega)⟩

theorem Stopped.waitInit (hs : Stopped p d) (hp : p = 4 ∨ p = 11) {w : Work InitPc}
    (h : d.delayInit.flushed = some w) : Stopped (p + 1) { d with delayInit := w } := by
  obtain ⟨h2, h3, h5, h7, h10, h11, h12⟩ := hs
  obtain ⟨-, hpc, hqueued⟩ := Work.flushed_cases h
  exact ⟨fun _ => h2 (by omega), fun _ => h3 (by omega), fun _ => .inl hpc, fun _ => h7 (by omega),
    fun _ => h10 (by omega), fun _ => hqueued.trans (h11 (by omega)), fun _ => hpc⟩

theorem Stopped.cancelDetect (hs : Stopped p d) (hp : p = 5 ∨ p = 12) :
    Stopped (p + 1) { d with detectWork := d.detectWork.cancel } := by
  obtain ⟨h2, h3, h5, h7, h10, h11, h12⟩ := hs
  exact ⟨fun _ => h2 (by omega), fun _ => h3 (by omega), fun _ => h5 (by omega), fun _ => h7 (by omega),
    fun _ => h10 (by omega), fun _ => h11 (by omega), fun _ => h12 (by omega)⟩

theorem Stopped.waitDetect (hs : Stopped p d) (hp : p = 6 ∨ p = 13) {w : Work DetectPc}
    (h : d.detectWork.flushed = some w) : Stopped (p + 1) { d with detectWork := w } := by
  obtain ⟨h2, h3, h5, h7, h10, h11, h12⟩ := hs
  obtain ⟨-, hnone, -⟩ := Work.flushed_cases h
  refine ⟨fun _ => h2 (by omega), fun _ => h3 (by omega), fun _ => h5 (by omega), fun _ pc hpc => ?_,
    fun _ => h10 (by omega), fun _ => h11 (by omega), fun _ => h12 (by omega)⟩
  cases hnone.symm.trans hpc

theorem DetectStopped.cancel (hp : p = 5 ∨ p = 12) : DetectStopped bus (p + 1) d.detectWork.cancel :=
  ⟨fun _ _ => rfl, fun _ _ => by omega⟩

theorem DetectStopped.wait (hd : DetectStopped bus p d.detectWork) {w : Work DetectPc}
    (h : d.detectWork.flushed = some w) (hp : p = 6 ∨ p = 13) : DetectStopped bus (p + 1) w := by
  obtain ⟨-, hpc, hqueued⟩ := Work.flushed_cases h
  exact ⟨fun hbus _ => hqueued.trans (hd.queued hbus (by omega)), fun _ _ => hpc⟩

theorem Retired.cancel {waited cleared destroyed : Nat} {ok : Caller → Prop} {q : Served Caller}
    (hq : Retired waited cleared destroyed ok p q) (hlt : p + 1 < waited) (hw : waited ≤ cleared ∧ waited ≤ destroyed) :
    Retired waited cleared destroyed ok (p + 1) q.cancel :=
  ⟨fun hp => by omega, fun hp => by omega, fun hp => by omega, fun hp => hq.alive (by omega), hq.late⟩

theorem Retired.wait {waited cleared destroyed : Nat} {ok : Caller → Prop} {q q' : Served Caller}
    (hq : Retired waited cleared destroyed ok p q) (h : q.flushed = some q')
    (hw : p + 1 < cleared ∧ p + 1 < destroyed) : Retired waited cleared destroyed ok (p + 1) q' := by
  obtain ⟨w, hw', rfl⟩ := Option.map_eq_some_iff.1 h
  exact ⟨fun _ => Work.flushed_held hw', fun hp => by omega, fun hp => by omega, fun hp => hq.alive (by omega), hq.late⟩

theorem Retired.clear {waited cleared destroyed : Nat} {ok : Caller → Prop} {q : Served Caller}
    (hq : Retired waited cleared destroyed ok p q) (hw : waited ≤ p ∧ p + 1 < destroyed) :
    Retired waited cleared destroyed ok (p + 1) q.clear :=
  ⟨fun _ => hq.held hw.1, fun _ => .clear (hq.held hw.1), fun hp => by omega, fun hp => hq.alive (by omega), hq.late⟩

theorem Retired.destroy {waited cleared destroyed : Nat} {ok : Caller → Prop} {q q' : Served Caller}
    (hq : Retired waited cleared destroyed ok p q) (h : q.destroy = some q')
    (hw : waited ≤ p ∧ cleared ≤ p ∧ destroyed = p + 1) : Retired waited cleared destroyed ok (p + 1) q' := by
  obtain ⟨hgone, hatt⟩ := (hq.attended hw.2.1).gone h
  exact ⟨fun _ => hatt.held, fun _ => hatt, fun _ => hgone, fun hp => by omega,
    fun c hc => hq.late c ((Served.destroy_same h).2 ▸ hc)⟩

end Remove

section Inv
variable {bus : BusType}

theorem Inv.of {d : Detection} {tx ctrl : Served Caller} {dataq : Nat} {inside : Entry → Nat} {p : Nat}
    (hs : Stopped p d) (hin : Inside bus p inside tx.work.pc) (hd : DetectStopped bus p d.detectWork)
    (htx : Retired 16 20 22 LateTx p tx) (hctrl : Retired 19 20 21 (LateCtrl bus) p ctrl)
    (hdata : 24 ≤ p → dataq = 0) : Inv bus ⟨d, tx, ctrl, dataq, inside, p⟩ :=
  ⟨hs, hin, hd, htx, hctrl, hdata⟩

theorem Inv.remove {s t : Dev} (h : Inv bus s) {i : Removal} (hi : i.At s.phase)
    (hr : hgicfCoreRemove s bus i = some t) : Inv bus { t with phase := s.phase + 1 } := by
  obtain ⟨d, tx, ctrl, dataq, inside, p⟩ := s
  obtain ⟨hs, hin, hd, htx, hctrl, hdata⟩ := h
  dsimp only at hs hin hd htx hctrl hdata hi ⊢
  cases i with
  | stopBus =>
    obtain rfl : p = 0 := hi
    dsimp only [hgicfCoreRemove] at hr
    split at hr
    · cases hr
    · next hand =>
      cases hr
      refine .of (hs.next (by decide)) ⟨fun hbus _ => ?_, hin.inTx, fun _ hp => absurd hp (by decide),
        fun hp => absurd hp (by decide), fun hp => absurd hp (by decide)⟩ (hd.next (by decide)) (htx.next (by decide))
        (hctrl.next (by decide)) fun hp => absurd hp (by decide)
      exact Nat.eq_zero_of_not_pos fun hpos => hand ⟨hbus, hpos⟩
  | clearRunning =>
    obtain rfl : p = 1 := hi
    cases hr
    exact .of (.clearRunning d) (hin.next (by decide)) (hd.next (by decide)) (htx.next (by decide))
      (hctrl.next (by decide)) fun hp => absurd hp (by decide)
  | delTimer =>
    obtain ⟨timer, htimer, rfl⟩ := Option.map_eq_some_iff.1 hr
    have hstopped := hs.delTimer hi htimer
    rcases hi with rfl | rfl
    all_goals
      exact .of hstopped (hin.next (by decide)) (hd.next (by decide)) (htx.next (by decide))
        (hctrl.next (by decide)) fun hp => absurd hp (by decide)
  | cancelInit =>
    cases hr
    have hstopped := hs.cancelInit hi
    rcases hi with rfl | rfl
    all_goals
      exact .of hstopped (hin.next (by decide)) (hd.next (by decide)) (htx.next (by decide))
        (hctrl.next (by decide)) fun hp => absurd hp (by decide)
  | waitInit =>
    obtain ⟨w, hw, rfl⟩ := Option.map_eq_some_iff.1 hr
    have hstopped := hs.waitInit hi hw
    rcases hi with rfl | rfl
    all_goals
      exact .of hstopped (hin.next (by decide)) (hd.next (by decide)) (htx.next (by decide))
        (hctrl.next (by decide)) fun hp => absurd hp (by decide)
  | cancelDetect =>
    cases hr
    have hstopped := hs.cancelDetect hi
    have hdetect := @DetectStopped.cancel bus p d hi
    rcases hi with rfl | rfl
    all_goals
      exact .of hstopped (hin.next (by decide)) hdetect (htx.next (by decide)) (hctrl.next (by decide))
        fun hp => absurd hp (by decide)
  | waitDetect =>
    obtain ⟨w, hw, rfl⟩ := Option.map_eq_some_iff.1 hr
    have hstopped := hs.waitDetect hi hw
    have hdetect := hd.wait hw hi
    rcases hi with rfl | rfl
    all_goals
      exact .of hstopped (hin.next (by decide)) hdetect (htx.next (by decide)) (hctrl.next (by decide))
        fun hp => absurd hp (by decide)
  | cancelTx =>
    cases hr
    rcases hi with rfl | rfl
    all_goals
      exact .of (hs.next (by decide)) (hin.next (by decide)) (hd.next (by decide))
        (htx.cancel (by decide) (by decide)) (hctrl.next (by decide)) fun hp => absurd hp (by decide)
  | waitTx =>
    obtain ⟨q, hq, rfl⟩ := Option.map_eq_some_iff.1 hr
    -- on SDIO `tx_work` does not end inside `hgicf_tx_complete`
    have hgone : bus = .sdio → inside .complete = 0 := by
      obtain ⟨w, hw, -⟩ := Option.map_eq_some_iff.1 hq
      obtain ⟨hnone, -, -⟩ := Work.flushed_cases hw
      exact fun hbus => Nat.eq_zero_of_not_pos fun hpos => hin.inTx hbus hpos hnone
    have hwait := htx.wait hq
    rcases hi with rfl | rfl
    all_goals
      refine .of (hs.next (by decide)) ⟨fun hbus _ => hin.receive hbus (by decide), fun hbus hpos => ?_,
        fun hbus _ => hgone hbus, fun hp => absurd hp (by decide), fun hp => absurd hp (by decide)⟩
        (hd.next (by decide)) (hwait (by decide)) (hctrl.next (by decide)) fun hp => absurd hp (by decide)
      exact absurd (hgone hbus) (Nat.pos_iff_ne_zero.1 hpos)
  | deleteProcfs =>
    obtain rfl : p = 16 := hi
    dsimp only [hgicfCoreRemove] at hr
    split at hr
    · cases hr
    · next hnone =>
      cases hr
      exact .of (hs.next (by decide)) ⟨fun hbus _ => hin.receive hbus (by decide), hin.inTx,
        fun hbus _ => hin.complete hbus (by decide), fun _ => Nat.eq_zero_of_not_pos hnone,
        fun hp => absurd hp (by decide)⟩ (hd.next (by decide)) (htx.next (by decide)) (hctrl.next (by decide))
        fun hp => absurd hp (by decide)
  | cancelCtrl =>
    obtain rfl : p = 17 := hi
    cases hr
    exact .of (hs.next (by decide)) (hin.next (by decide)) (hd.next (by decide)) (htx.next (by decide))
      (hctrl.cancel (by decide) (by decide)) fun hp => absurd hp (by decide)
  | waitCtrl =>
    obtain rfl : p = 18 := hi
    obtain ⟨q, hq, rfl⟩ := Option.map_eq_some_iff.1 hr
    exact .of (hs.next (by decide)) (hin.next (by decide)) (hd.next (by decide)) (htx.next (by decide))
      (hctrl.wait hq (by decide)) fun hp => absurd hp (by decide)
  | clearCtrl =>
    obtain rfl : p = 19 := hi
    cases hr
    exact .of (hs.next (by decide)) (hin.next (by decide)) (hd.next (by decide)) (htx.clear (by decide))
      (hctrl.clear (by decide)) fun hp => absurd hp (by decide)
  | destroyCtrl =>
    obtain rfl : p = 20 := hi
    obtain ⟨q, hq, rfl⟩ := Option.map_eq_some_iff.1 hr
    exact .of (hs.next (by decide)) (hin.next (by decide)) (hd.next (by decide)) (htx.next (by decide))
      (hctrl.destroy hq (by decide)) fun hp => absurd hp (by decide)
  | destroyTx =>
    obtain rfl : p = 21 := hi
    obtain ⟨q, hq, rfl⟩ := Option.map_eq_some_iff.1 hr
    have hpc : q.work.pc = tx.work.pc := by rw [(Served.destroy_same hq).1]
    exact .of (hs.next (by decide)) (hpc ▸ hin.next (by decide)) (hd.next (by decide)) (htx.destroy hq (by decide))
      (hctrl.next (by decide)) fun hp => absurd hp (by decide)
  | unregister =>
    obtain rfl : p = 22 := hi
    dsimp only [hgicfCoreRemove] at hr
    split at hr
    · cases hr
    · next hnone =>
      cases hr
      exact .of (hs.next (by decide)) ⟨fun hbus _ => hin.receive hbus (by decide), hin.inTx,
        fun hbus _ => hin.complete hbus (by decide), fun _ => hin.proc (by decide),
        fun _ => Nat.eq_zero_of_not_pos hnone⟩ (hd.next (by decide)) (htx.next (by decide)) (hctrl.next (by decide))
        fun hp => absurd hp (by decide)
  | clearData =>
    obtain rfl : p = 23 := hi
    cases hr
    exact .of (hs.next (by decide)) (hin.next (by decide)) (hd.next (by decide)) (htx.next (by decide))
      (hctrl.next (by decide)) fun _ => rfl

end Inv

section Runs
variable {bus : BusType} {reinit : Bool}

theorem step_inv {s t : Dev} {a : Act} (h : Inv bus s) (hstep : step bus reinit s a = some t) : Inv bus t := by
  have hold := h
  obtain ⟨hs, hin, hd, htx, hctrl, hdata⟩ := h
  cases a with
  | probePost =>
    rw [step] at hstep
    split at hstep
    · next h0 =>
      cases hstep
      exact ⟨by dsimp only; rw [h0]; exact .zero _, hin, hd, htx, hctrl, hdata⟩
    · cases hstep
  | fire =>
    obtain ⟨timer, htimer, rfl⟩ := Option.map_eq_some_iff.1 hstep
    exact ⟨hs.fire htimer, hin, hd, htx, hctrl, hdata⟩
  | handler =>
    obtain ⟨pc, hpc, rfl⟩ := Option.map_eq_some_iff.1 hstep
    exact ⟨hs.detectTimer hpc, hin, hd.detectTimer hs hpc, htx, hctrl, hdata⟩
  | startInit =>
    obtain ⟨w, hw, rfl⟩ := Option.map_eq_some_iff.1 hstep
    exact ⟨hs.startInit hw, hin, hd, htx, hctrl, hdata⟩
  | delayInit choice =>
    obtain ⟨pc, hpc, rfl⟩ := Option.map_eq_some_iff.1 hstep
    have hsame : (hgicfDelayInit s.detection reinit choice pc).detectWork = s.detection.detectWork := by
      cases pc <;> rfl
    exact ⟨hs.hgicfDelayInit reinit choice hpc, hin, hsame ▸ hd, htx, hctrl, hdata⟩
  | startDetect =>
    obtain ⟨w, hw, rfl⟩ := Option.map_eq_some_iff.1 hstep
    exact ⟨hs.startDetect hw, hin, hd.start hw, htx, hctrl, hdata⟩
  | detectWork choice =>
    obtain ⟨pc, hpc, rfl⟩ := Option.map_eq_some_iff.1 hstep
    exact ⟨hs.hgicfDetectWork choice hpc, hin, hd.hgicfDetectWork choice hpc, htx, hctrl, hdata⟩
  | startTx =>
    obtain ⟨q, hq, rfl⟩ := Option.map_eq_some_iff.1 hstep
    obtain ⟨w, hw, rfl⟩ := Option.map_eq_some_iff.1 hq
    obtain ⟨-, -, -, hpc⟩ := Work.start_cases hw
    exact ⟨hs, hin.of_tx fun _ _ => by simp [hpc], hd, htx.start hq, hctrl, hdata⟩
  | txWork more =>
    rw [step] at hstep
    split at hstep
    · cases hstep
    · next hfree =>
      obtain ⟨q, hq, rfl⟩ := Option.map_eq_some_iff.1 hstep
      exact ⟨hs, hin.of_tx fun hbus hpos => absurd ⟨hbus, hpos⟩ hfree, hd, htx.pass hq, hctrl, hdata⟩
  | startCtrl =>
    obtain ⟨q, hq, rfl⟩ := Option.map_eq_some_iff.1 hstep
    exact ⟨hs, hin, hd, htx, hctrl.start hq, hdata⟩
  | ctrlWork =>
    obtain ⟨q, hq, rfl⟩ := Option.map_eq_some_iff.1 hstep
    exact ⟨hs, hin, hd, htx, hctrl.pass hq, hdata⟩
  | enter e =>
    rw [step] at hstep
    split at hstep
    · next hmay =>
      cases hstep
      exact ⟨hs, Inside.enter hs hin hmay, hd, htx, hctrl, hdata⟩
    · cases hstep
  | leave e =>
    rw [step] at hstep
    split at hstep
    · cases hstep
      exact ⟨hs, hin.leave e, hd, htx, hctrl, hdata⟩
    · cases hstep
  | call c data =>
    rw [step] at hstep
    split at hstep
    · next hmay =>
      cases hstep
      exact hold.call hmay data
    · cases hstep
  | remove =>
    obtain ⟨i, hi, hr⟩ := Option.bind_eq_some_iff.1 hstep
    obtain ⟨u, hu, rfl⟩ := Option.map_eq_some_iff.1 hr
    exact hold.remove (removal_at hi) hu

theorem inv {as : List Act} {s : Dev} (h : runFrom (step bus reinit) .probed as = some s) : Inv bus s :=
  reach_invariant (step bus reinit) (fun _ _ _ => step_inv) (inv_probed bus) h

/-- On USB, `detect_work` and those who do not wait for `hgicf_core_remove`: handlers of the bus. -/
def Act.Left (bus : BusType) (a : Act) : Prop :=
  bus = .usb ∧ (a = .startDetect ∨ (∃ choice, a = .detectWork choice) ∨
    ∃ e, (e = .receive ∨ e = .complete) ∧ (a = .leave e ∨ ∃ data, a = .call (.entry e) data))

theorem BusType.usb_of {bus : BusType} (h : bus ≠ .sdio) : bus = .usb := by
  cases bus with
  | usb => rfl
  | sdio => exact absurd rfl h

theorem Inside.left {p : Nat} {inside : Entry → Nat} {tx : Option Unit} (hin : Inside bus p inside tx) (hp : 24 ≤ p)
    {e : Entry} (hpos : 0 < inside e) : bus = .usb ∧ (e = .receive ∨ e = .complete) := by
  have hne := Nat.ne_of_gt hpos
  cases e with
  | receive => exact ⟨BusType.usb_of fun hbus => hne (hin.receive hbus (by omega)), .inl rfl⟩
  | complete => exact ⟨BusType.usb_of fun hbus => hne (hin.complete hbus (by omega)), .inr rfl⟩
  | netdev => exact absurd (hin.netdev (by omega)) hne
  | proc => exact absurd (hin.proc (by omega)) hne

theorem Inv.left {s t : Dev} (h : Inv bus s) (hp : 24 ≤ s.phase) {a : Act} (hstep : step bus reinit s a = some t) :
    a.Left bus := by
  obtain ⟨hs, hin, hd, htx, hctrl, -⟩ := h
  have htimer := hs.timer (by omega)
  have hinit : s.detection.delayInit.Idle := ⟨hs.initQueued (by omega), hs.initPc (by omega)⟩
  have hdetect : bus = .sdio → s.detection.detectWork.Idle :=
    fun hbus => ⟨hd.queued hbus (by omega), hd.pc hbus (by omega)⟩
  have hgone := htx.gone (by omega)
  have hcgone := hctrl.gone (by omega)
  cases a with
  | probePost =>
    rw [step, if_neg (by omega)] at hstep
    cases hstep
  | fire =>
    rw [step, htimer.fire] at hstep
    cases hstep
  | handler =>
    rw [step, htimer.handler] at hstep
    cases hstep
  | startInit =>
    rw [step, hinit.start] at hstep
    cases hstep
  | delayInit choice =>
    rw [step, hinit.pc] at hstep
    cases hstep
  | startDetect =>
    refine ⟨BusType.usb_of fun hbus => ?_, .inl rfl⟩
    rw [step, (hdetect hbus).start] at hstep
    cases hstep
  | detectWork choice =>
    refine ⟨BusType.usb_of fun hbus => ?_, .inr (.inl ⟨choice, rfl⟩)⟩
    rw [step, (hdetect hbus).pc] at hstep
    cases hstep
  | startTx =>
    rw [step, hgone.start] at hstep
    cases hstep
  | txWork more =>
    rw [step, hgone.pass] at hstep
    split at hstep <;> cases hstep
  | startCtrl =>
    rw [step, hcgone.start] at hstep
    cases hstep
  | ctrlWork =>
    rw [step, hcgone.pass] at hstep
    cases hstep
  | enter e =>
    have hclosed : s.mayEnter bus e = false := by
      cases e with
      | receive => exact decide_eq_false (by omega)
      | complete => rw [Dev.mayEnter, hs.running (by omega), Bool.false_and]
      | netdev => exact hs.running (by omega)
      | proc => exact decide_eq_false (by omega)
    rw [step, hclosed] at hstep
    cases hstep
  | leave e =>
    rw [step] at hstep
    split at hstep
    · next hpos =>
      obtain ⟨hbus, he⟩ := hin.left hp hpos
      exact ⟨hbus, .inr (.inr ⟨e, he, .inl rfl⟩)⟩
    · cases hstep
  | call c data =>
    rw [step] at hstep
    split at hstep
    · next hmay =>
      cases c with
      | entry e =>
        obtain ⟨hbus, he⟩ := hin.left hp (of_decide_eq_true hmay)
        exact ⟨hbus, .inr (.inr ⟨e, he, .inr ⟨data, rfl⟩⟩)⟩
      | delayInit => simp [Dev.mayCall, hinit.pc] at hmay
      | detectWork =>
        have hreload : s.detection.detectWork.pc = some .reload := of_decide_eq_true hmay
        exact absurd (hs.detectWork (by omega) _ hreload) (by decide)
    · cases hstep
  | remove =>
    rw [step, List.getElem?_eq_none hp] at hstep
    cases hstep

/-- In every order of the accesses: `tx_wq` is not used any more when it is destroyed, except by a call of the net
device that has seen RUNNING, and `ctrl.wq` except, on USB, by a handler that has seen that the bus is not stopped. At
the end the timer and its work, `tx_work` and `ctrl.work` are idle, no more packets are left than such calls came, and
nothing goes on but, on USB, handlers that were inside and `detect_work` that they schedule. -/
theorem remove_quiesces {as : List Act} {s : Dev} (h : runFrom (step bus reinit) .probed as = some s) :
    (∀ c ∈ s.tx.late, LateTx c) ∧ (∀ c ∈ s.ctrl.late, LateCtrl bus c) ∧
      (24 ≤ s.phase → s.detection.timer.Idle ∧ s.detection.delayInit.Idle ∧ s.tx.Gone ∧ s.ctrl.Gone ∧ s.dataq = 0 ∧
        (bus = .sdio → s.detection.detectWork.Idle) ∧ ∀ a t, step bus reinit s a = some t → a.Left bus) := by
  obtain ⟨hs, -, hd, htx, hctrl, hdata⟩ := inv h
  refine ⟨htx.late, hctrl.late, fun hp => ⟨hs.timer (by omega), ⟨hs.initQueued (by omega), hs.initPc (by omega)⟩,
    htx.gone (by omega), hctrl.gone (by omega), hdata hp, fun hbus => ?_, fun a t => (inv h).left hp⟩⟩
  exact ⟨hd.queued hbus (by omega), hd.pc hbus (by omega)⟩

/-- A removal that nothing interrupts. -/
theorem remove_quiesces_alone : ∃ s, runFrom (step .usb true) .probed (List.replicate 24 .remove) = some s ∧
    ∀ a t, step .usb true s a = some t → a.Left .usb :=
  ⟨_, rfl, ((@remove_quiesces .usb true (List.replicate 24 .remove) _ rfl).2.2 (by decide)).2.2.2.2.2.2⟩

/-- They do come too late: the call of the net device on either bus, and on USB the handlers, one with a packet and one
that leaves `detect_work` running when the device is gone. -/
example :
    (∃ as s, runFrom (step .sdio true) .probed as = some s ∧ s.tx.late = [.entry .netdev] ∧ s.tx.length = 1) ∧
    (∃ as s, runFrom (step .usb true) .probed as = some s ∧ s.ctrl.late = [.entry .receive] ∧ s.ctrl.length = 1) ∧
    ∃ as s, runFrom (step .usb true) .probed as = some s ∧ s.phase = 24 ∧ s.detection.detectWork.pc = some .test :=
  ⟨⟨.enter .netdev :: (List.replicate 22 .remove ++ [.call (.entry .netdev) false]), _, rfl, rfl, rfl⟩,
    ⟨.enter .receive :: (List.replicate 21 .remove ++ [.call (.entry .receive) false]), _, rfl, rfl, rfl⟩,
    ⟨.enter .complete :: (List.replicate 24 .remove ++ [.call (.entry .complete) false, .startDetect]), _, rfl, rfl,
      rfl⟩⟩

/-- One round of cancellations leaves the timer armed and `delay_init` queued, when `hgicf_download_fw` and
`hgicf_detect_work` are under way in it. -/
example : ∃ as s, runFrom (step .sdio true) .probed as = some s ∧ s.phase = 9 ∧
    s.detection.timer.armed = true ∧ s.detection.delayInit.queued = true :=
  ⟨[.probePost, .startInit, .delayInit true, .delayInit true, .delayInit true, .delayInit true,
    .fire, .handler, .handler, .startInit, .delayInit true, .startDetect, .detectWork true, .detectWork true,
    .remove, .remove, .remove, .remove, .delayInit true, .delayInit true, .remove, .detectWork true, .detectWork true,
    .remove, .remove, .remove, .remove], _, rfl, rfl, rfl, rfl⟩

end Runs

/-! ## The end -/

/-- The steps that are left of each function once RUNNING is clear, with those that they start. -/
def handlerWork : Option HandlerPc → Nat
  | none => 0
  | some .test => 1
  | some .schedule => 4

def detectPcWork : Option DetectPc → Nat
  | none => 0
  | some .last => 1
  | some .test | some .reload => 2
  | some .arm => 3
  | some .schedule => 4

def initPcWork : Option InitPc → Nat
  | none => 0
  | some .test | some .reinit => 1
  | some .schedule => 3
  | some .download => 4

/-- What waits counts `n`. -/
def waiting (b : Bool) (n : Nat) : Nat := if b then n else 0

theorem waiting_le (b : Bool) (n : Nat) : waiting b n ≤ n := by
  cases b <;> simp [waiting]

def Detection.work (d : Detection) : Nat :=
  (waiting d.timer.armed 2 + handlerWork d.timer.handler) +
    (waiting d.detectWork.queued 3 + detectPcWork d.detectWork.pc) +
    (waiting d.delayInit.queued 2 + initPcWork d.delayInit.pc)

def present (inside : Entry → Nat) : Nat := inside .receive + inside .complete + inside .netdev + inside .proc

def Dev.work (s : Dev) : Nat := 24 - s.phase + s.detection.work + s.tx.steps + s.ctrl.steps + present s.inside

/-- Those outside: who comes in, and what is queued. -/
def Act.outer : Act → Bool
  | .probePost | .enter _ | .call _ _ => true
  | _ => false

theorem present_update (inside : Entry → Nat) (e : Entry) (n : Nat) :
    present (Function.update inside e n) + inside e = present inside + n := by
  cases e <;> simp [present] <;> omega

section Detection
variable {d : Detection}

theorem hgicfDetectTimer_work (hrun : d.running = false) {pc : HandlerPc} (hpc : d.timer.handler = some pc) :
    (hgicfDetectTimer d pc).work < d.work := by
  cases pc with
  | test => simp [hgicfDetectTimer, Detection.work, hpc, hrun, handlerWork]
  | schedule =>
    have hle := waiting_le d.detectWork.schedule.queued 3
    simp only [hgicfDetectTimer, Detection.work, hpc, handlerWork, Work.schedule_pc]
    omega

theorem hgicfDetectWork_work (hrun : d.running = false) (choice : Bool) {pc : DetectPc}
    (hpc : d.detectWork.pc = some pc) : (hgicfDetectWork d choice pc).work < d.work := by
  cases pc with
  | test | reload | last => simp [hgicfDetectWork, Detection.work, hpc, hrun, detectPcWork]
  | schedule =>
    have hle := waiting_le d.delayInit.schedule.queued 2
    simp only [hgicfDetectWork, Detection.work, hpc, detectPcWork, Work.schedule_pc]
    omega
  | arm =>
    have hle := waiting_le d.timer.mod.armed 2
    simp only [hgicfDetectWork, Detection.work, hpc, detectPcWork, Timer.mod_handler]
    omega

theorem hgicfDelayInit_work (hrun : d.running = false) (reinit choice : Bool) {pc : InitPc}
    (hpc : d.delayInit.pc = some pc) : (hgicfDelayInit d reinit choice pc).work < d.work := by
  cases pc with
  | test | reinit => simp [hgicfDelayInit, Detection.work, hpc, hrun, initPcWork]
  | download =>
    have hle := waiting_le d.timer.mod.armed 2
    simp only [hgicfDelayInit, Detection.work, hpc, initPcWork, Timer.mod_handler]
    omega
  | schedule =>
    have hle := waiting_le d.delayInit.schedule.queued 2
    simp only [hgicfDelayInit, Detection.work, hpc, initPcWork]
    omega

theorem schedule_work : { d with detectWork := d.detectWork.schedule }.work ≤ d.work + 3 := by
  have hle := waiting_le d.detectWork.schedule.queued 3
  simp only [Detection.work, Work.schedule_pc]
  omega

end Detection

section Work
variable {bus : BusType} {reinit : Bool} {s t : Dev}

/-- A step of the removal adds nothing to what the others have to do. -/
theorem remove_work {i : Removal} (h : hgicfCoreRemove s bus i = some t) :
    t.detection.work + t.tx.steps + t.ctrl.steps + present t.inside ≤
      s.detection.work + s.tx.steps + s.ctrl.steps + present s.inside := by
  cases i with
  | stopBus | deleteProcfs | unregister =>
    dsimp only [hgicfCoreRemove] at h
    split at h
    · cases h
    · cases h
      exact Nat.le_refl _
  | clearRunning | clearData =>
    cases h
    exact Nat.le_refl _
  | delTimer =>
    obtain ⟨timer, htimer, rfl⟩ := Option.map_eq_some_iff.1 h
    obtain ⟨-, rfl⟩ := Timer.delSync_cases htimer
    simp only [Detection.work, waiting, handlerWork, Bool.false_eq_true, if_false]
    omega
  | cancelInit =>
    cases h
    simp only [Detection.work, Work.cancel_queued, Work.cancel_pc, waiting, Bool.false_eq_true, if_false]
    omega
  | cancelDetect =>
    cases h
    simp only [Detection.work, Work.cancel_queued, Work.cancel_pc, waiting, Bool.false_eq_true, if_false]
    omega
  | waitInit =>
    obtain ⟨w, hw, rfl⟩ := Option.map_eq_some_iff.1 h
    obtain ⟨hpc, hpc', hqueued⟩ := Work.flushed_cases hw
    simp only [Detection.work, hpc, hpc', hqueued]
    omega
  | waitDetect =>
    obtain ⟨w, hw, rfl⟩ := Option.map_eq_some_iff.1 h
    obtain ⟨hpc, hpc', hqueued⟩ := Work.flushed_cases hw
    simp only [Detection.work, hpc, hpc', hqueued]
    omega
  | cancelTx =>
    cases h
    have hle := @Served.cancel_steps _ s.tx
    dsimp only
    omega
  | cancelCtrl =>
    cases h
    have hle := @Served.cancel_steps _ s.ctrl
    dsimp only
    omega
  | waitTx =>
    obtain ⟨q, hq, rfl⟩ := Option.map_eq_some_iff.1 h
    have hle := Served.flushed_steps hq
    dsimp only
    omega
  | waitCtrl =>
    obtain ⟨q, hq, rfl⟩ := Option.map_eq_some_iff.1 h
    have hle := Served.flushed_steps hq
    dsimp only
    omega
  | clearCtrl =>
    cases h
    have htx := @Served.clear_steps _ s.tx
    have hctrl := @Served.clear_steps _ s.ctrl
    dsimp only
    omega
  | destroyCtrl =>
    obtain ⟨q, hq, rfl⟩ := Option.map_eq_some_iff.1 h
    have heq := Served.destroy_steps hq
    dsimp only
    omega
  | destroyTx =>
    obtain ⟨q, hq, rfl⟩ := Option.map_eq_some_iff.1 h
    have heq := Served.destroy_steps hq
    dsimp only
    omega

theorem call_work (c : Caller) (data : Bool) : (s.call data c).work ≤ s.work + 3 := by
  have hsend : ∀ c, (s.hgicFwctrlSendData c).work ≤ s.work + 3 := by
    intro c
    have hkick := @Served.kick_steps _ s.tx c
    have hnew := @Served.send_steps _ s.tx c
    unfold Dev.hgicFwctrlSendData Dev.work
    dsimp only
    split <;> omega
  cases c with
  | entry e =>
    cases e with
    | receive =>
      have hnew := @Served.send_steps _ s.ctrl (.entry .receive)
      unfold Dev.call Dev.work
      dsimp only
      omega
    | complete =>
      have hnew := @schedule_work s.detection
      unfold Dev.call Dev.work
      dsimp only
      omega
    | netdev =>
      by_cases hd : data = true
      · have hkick := @Served.kick_steps _ s.tx (.entry .netdev)
        rw [Dev.call, if_pos hd, Dev.work, Dev.work]
        dsimp only
        omega
      · rw [Dev.call, if_neg hd]
        exact hsend (.entry .netdev)
    | proc => exact hsend (.entry .proc)
  | delayInit => exact hsend .delayInit
  | detectWork => exact hsend .detectWork

/-- When RUNNING is clear, every step is one less to come, but for those from outside, which add at most three. -/
theorem step_work {a : Act} (hs : Inv bus s) (hp : 2 ≤ s.phase) (h : step bus reinit s a = some t) :
    t.work + (if a.outer then 0 else 1) ≤ s.work + if a.outer then 3 else 0 := by
  have hrun := hs.stopped.running hp
  cases a with
  | probePost =>
    rw [step, if_neg (by omega)] at h
    cases h
  | fire =>
    obtain ⟨timer, htimer, rfl⟩ := Option.map_eq_some_iff.1 h
    obtain ⟨harmed, hhandler, rfl⟩ := Timer.fire_cases htimer
    simp only [Dev.work, Detection.work, harmed, hhandler, waiting, handlerWork, Act.outer, Bool.false_eq_true,
      if_true, if_false]
    omega
  | handler =>
    obtain ⟨pc, hpc, rfl⟩ := Option.map_eq_some_iff.1 h
    have hless := hgicfDetectTimer_work hrun hpc
    simp only [Dev.work, Act.outer, Bool.false_eq_true, if_false]
    omega
  | startInit =>
    obtain ⟨w, hw, rfl⟩ := Option.map_eq_some_iff.1 h
    obtain ⟨hqueued, hpc, hqueued', hpc'⟩ := Work.start_cases hw
    simp only [Dev.work, Detection.work, hqueued, hpc, hqueued', hpc', waiting, initPcWork, Act.outer,
      Bool.false_eq_true, if_true, if_false]
    omega
  | startDetect =>
    obtain ⟨w, hw, rfl⟩ := Option.map_eq_some_iff.1 h
    obtain ⟨hqueued, hpc, hqueued', hpc'⟩ := Work.start_cases hw
    simp only [Dev.work, Detection.work, hqueued, hpc, hqueued', hpc', waiting, detectPcWork, Act.outer,
      Bool.false_eq_true, if_true, if_false]
    omega
  | delayInit choice =>
    obtain ⟨pc, hpc, rfl⟩ := Option.map_eq_some_iff.1 h
    have hless := hgicfDelayInit_work hrun reinit choice hpc
    simp only [Dev.work, Act.outer, Bool.false_eq_true, if_false]
    omega
  | detectWork choice =>
    obtain ⟨pc, hpc, rfl⟩ := Option.map_eq_some_iff.1 h
    have hless := hgicfDetectWork_work hrun choice hpc
    simp only [Dev.work, Act.outer, Bool.false_eq_true, if_false]
    omega
  | startTx =>
    obtain ⟨q, hq, rfl⟩ := Option.map_eq_some_iff.1 h
    have hless := Served.start_steps hq
    simp only [Dev.work, Act.outer, Bool.false_eq_true, if_false]
    omega
  | startCtrl =>
    obtain ⟨q, hq, rfl⟩ := Option.map_eq_some_iff.1 h
    have hless := Served.start_steps hq
    simp only [Dev.work, Act.outer, Bool.false_eq_true, if_false]
    omega
  | txWork more =>
    rw [step, hrun, Bool.and_false] at h
    split at h
    · cases h
    · obtain ⟨q, hq, rfl⟩ := Option.map_eq_some_iff.1 h
      have hless := Served.pass_steps hq
      simp only [Dev.work, Act.outer, Bool.false_eq_true, if_false]
      omega
  | ctrlWork =>
    obtain ⟨q, hq, rfl⟩ := Option.map_eq_some_iff.1 h
    have hless := Served.pass_steps hq
    simp only [Dev.work, Act.outer, Bool.false_eq_true, if_false]
    omega
  | enter e =>
    rw [step] at h
    split at h
    · cases h
      have hup := present_update s.inside e (s.inside e + 1)
      simp only [Dev.work, Act.outer, if_true]
      omega
    · cases h
  | leave e =>
    rw [step] at h
    split at h
    · cases h
      have hup := present_update s.inside e (s.inside e - 1)
      simp only [Dev.work, Act.outer, Bool.false_eq_true, if_false]
      omega
    · cases h
  | call c data =>
    rw [step] at h
    split at h
    · cases h
      exact call_work c data
    · cases h
  | remove =>
    obtain ⟨i, hi, hr⟩ := Option.bind_eq_some_iff.1 h
    obtain ⟨u, hu, rfl⟩ := Option.map_eq_some_iff.1 hr
    have hlt : s.phase < 24 := (List.getElem?_eq_some_iff.1 hi).1
    have hle := remove_work hu
    simp only [Dev.work, Act.outer, Bool.false_eq_true, if_false]
    omega

theorem call_phase (c : Caller) (data : Bool) : (s.call data c).phase = s.phase := by
  cases c with
  | entry e =>
    cases e with
    | netdev => cases data <;> rfl
    | receive | complete | proc => rfl
  | delayInit | detectWork => rfl

theorem phase_le {a : Act} (h : step bus reinit s a = some t) : s.phase ≤ t.phase := by
  cases a with
  | probePost | enter e | leave e =>
    rw [step] at h
    split at h
    · cases h
      exact Nat.le_refl _
    · cases h
  | call c data =>
    rw [step] at h
    split at h
    · cases h
      rw [call_phase]
    · cases h
  | txWork more =>
    rw [step] at h
    split at h
    · cases h
    · obtain ⟨_, -, rfl⟩ := Option.map_eq_some_iff.1 h
      exact Nat.le_refl _
  | fire | handler | startInit | startDetect | startTx | startCtrl | ctrlWork | delayInit choice | detectWork choice =>
    obtain ⟨_, -, rfl⟩ := Option.map_eq_some_iff.1 h
    exact Nat.le_refl _
  | remove =>
    obtain ⟨i, -, h⟩ := Option.bind_eq_some_iff.1 h
    obtain ⟨u, -, rfl⟩ := Option.map_eq_some_iff.1 h
    exact Nat.le_succ _

/-- The removal waits only for those that can go on. -/
theorem remove_enabled (reinit : Bool) (hp : s.phase < 24) : ∃ a t, a.outer = false ∧ step bus reinit s a = some t := by
  have hi : removal[s.phase]? = some removal[s.phase] := List.getElem?_eq_getElem hp
  generalize removal[s.phase] = i at hi
  have hremove : ∀ u, hgicfCoreRemove s bus i = some u → ∃ a t, a.outer = false ∧ step bus reinit s a = some t := by
    intro u hu
    exact ⟨.remove, { u with phase := s.phase + 1 }, rfl, by rw [step, hi, Option.bind_some, hu]; rfl⟩
  have hleave : ∀ e, 0 < s.inside e → ∃ a t, a.outer = false ∧ step bus reinit s a = some t :=
    fun e hpos => ⟨.leave e, _, rfl, if_pos hpos⟩
  have htx : ∀ pc, s.tx.work.pc = some pc → ∃ a t, a.outer = false ∧ step bus reinit s a = some t := by
    intro pc hpc
    by_cases hbusy : bus = .sdio ∧ 0 < s.inside .complete
    · exact hleave _ hbusy.2
    · exact ⟨.txWork false, _, rfl, by rw [step, if_neg hbusy, Served.pass, hpc]; rfl⟩
  have hctrl : ∀ pc, s.ctrl.work.pc = some pc → ∃ a t, a.outer = false ∧ step bus reinit s a = some t :=
    fun pc hpc => ⟨.ctrlWork, _, rfl, by rw [step, Served.pass, hpc]; rfl⟩
  cases i with
  | clearRunning | cancelInit | cancelDetect | cancelTx | cancelCtrl | clearCtrl | clearData => exact hremove _ rfl
  | stopBus =>
    by_cases hin : bus = .sdio ∧ 0 < s.inside .receive
    · exact hleave _ hin.2
    · exact hremove s (if_neg hin)
  | deleteProcfs =>
    by_cases hin : 0 < s.inside .proc
    · exact hleave _ hin
    · exact hremove s (if_neg hin)
  | unregister =>
    by_cases hin : 0 < s.inside .netdev
    · exact hleave _ hin
    · exact hremove s (if_neg hin)
  | delTimer =>
    cases hh : s.detection.timer.handler with
    | none => exact hremove _ (by rw [hgicfCoreRemove, Timer.delSync_of_none hh]; rfl)
    | some pc => exact ⟨.handler, _, rfl, by rw [step, hh]; rfl⟩
  | waitInit =>
    cases hh : s.detection.delayInit.pc with
    | none => exact hremove _ (by rw [hgicfCoreRemove, Work.flushed_of_none hh]; rfl)
    | some pc => exact ⟨.delayInit true, _, rfl, by rw [step, hh]; rfl⟩
  | waitDetect =>
    cases hh : s.detection.detectWork.pc with
    | none => exact hremove _ (by rw [hgicfCoreRemove, Work.flushed_of_none hh]; rfl)
    | some pc => exact ⟨.detectWork true, _, rfl, by rw [step, hh]; rfl⟩
  | waitTx =>
    cases hh : s.tx.work.pc with
    | none => exact hremove _ (by rw [hgicfCoreRemove, Served.flushed, Work.flushed_of_none hh]; rfl)
    | some pc => exact htx pc hh
  | waitCtrl =>
    cases hh : s.ctrl.work.pc with
    | none => exact hremove _ (by rw [hgicfCoreRemove, Served.flushed, Work.flushed_of_none hh]; rfl)
    | some pc => exact hctrl pc hh
  | destroyTx =>
    cases hh : s.tx.work.pc with
    | some pc => exact htx pc hh
    | none =>
      cases hq : s.tx.work.queued with
      | true => exact ⟨.startTx, _, rfl, by rw [step, Served.start, Work.start, hq, hh]; rfl⟩
      | false => exact hremove _ (by rw [hgicfCoreRemove, Served.destroy, hq, hh]; rfl)
  | destroyCtrl =>
    cases hh : s.ctrl.work.pc with
    | some pc => exact hctrl pc hh
    | none =>
      cases hq : s.ctrl.work.queued with
      | true => exact ⟨.startCtrl, _, rfl, by rw [step, Served.start, Work.start, hq, hh]; rfl⟩
      | false => exact hremove _ (by rw [hgicfCoreRemove, Served.destroy, hq, hh]; rfl)

theorem count_add_work {bs : List Act} (hs : Inv bus s) (hp : 2 ≤ s.phase)
    (hrun : runFrom (step bus reinit) s bs = some t) :
    bs.countP (fun a => !a.outer) + t.work ≤ s.work + 3 * bs.countP Act.outer := by
  induction bs generalizing s with
  | nil =>
    cases hrun
    exact Nat.le_of_eq (Nat.zero_add _)
  | cons a bs ih =>
    obtain ⟨u, hu, hrun⟩ := runFrom_cons_eq_some _ hrun
    have hless := step_work hs hp hu
    have hrest := ih (step_inv hs hu) (Nat.le_trans hp (phase_le hu)) hrun
    rw [List.countP_cons, List.countP_cons]
    cases ha : a.outer with
    | true =>
      simp only [ha, if_true] at hless
      simp only [Bool.not_true, Bool.false_eq_true, if_false, if_true]
      omega
    | false =>
      simp only [ha, Bool.false_eq_true, if_false] at hless
      simp only [Bool.not_false, Bool.false_eq_true, if_false, if_true]
      omega

/-- Once RUNNING is cleared, whatever order the accesses come in, the number of those that the driver makes is bounded
by what is left to do and by what comes from outside, and one can be made until the removal is through: it never waits
for something that does not go on. -/
theorem remove_ends {as bs : List Act} (h : runFrom (step bus reinit) .probed as = some s) (hclear : 2 ≤ s.phase)
    (hrun : runFrom (step bus reinit) s bs = some t) :
    bs.countP (fun a => !a.outer) ≤ s.work + 3 * bs.countP Act.outer ∧
      ((∀ a, a.outer = false → step bus reinit t a = none) → 24 ≤ t.phase) := by
  have hcount := count_add_work (inv h) hclear hrun
  refine ⟨by omega, fun hnone => ?_⟩
  by_contra hp
  obtain ⟨a, u, ha, hu⟩ := @remove_enabled bus t reinit (Nat.lt_of_not_le hp)
  rw [hnone a ha] at hu
  cases hu

theorem remove_ends_alone : (List.replicate 22 Act.remove).countP (fun a => !a.outer) ≤ 22 :=
  (@remove_ends .usb true _ _ [.remove, .remove] (List.replicate 22 .remove) rfl (by decide) rfl).1

end Work

end HgicFmac.Remove
