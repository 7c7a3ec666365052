import HgicFmac.Core.Order

/-!
# When the work item comes to its end

Alone, with the flags set for transmission and every allocation and transfer successful, the work item empties both
queues when every frame that has another one behind it fits an aggregate of its own (`Drainable`); a frame that does
not goes back to the head of the queue in every round (`StuckInv`).

* `workAlone` : a step of the work item while nothing else happens;
* `DrainInv`, `drainMeasure` : the invariant and the measure for termination (`drain_step`);
* `StuckInv` : the invariant of a work item that never ends (`stuck_step`).
-/

namespace HgicFmac.Core
open Lib

/-- Nothing else happens, allocations and `bus->tx_packet` succeed; `m` is the memory of a new aggregate. -/
def workAlone (cfg : Cfg) (s : Wdev) (m : Mem) : Option Wdev := workStep cfg ⟨true, m, false⟩ s

/-- `hgicf_tx_work` returned and both queues are empty. -/
def Wdev.Drained (s : Wdev) : Prop := s.pc = .idle ∧ s.ctrlq = [] ∧ s.dataq = []

/-- Every frame with another one behind it fits an aggregate of its own. -/
def Drainable (cfg : Cfg) (fs : List Frm) : Prop := cfg.ifAgg = 0 ∨ ∀ f ∈ fs.dropLast, fitsAlone cfg f

/-- The flags stay set for transmission: they are, and no queued command puts the device to sleep. -/
structure Wdev.Steady (s : Wdev) : Prop where
  permits : s.Permits
  softFc : s.softFc = false
  ctrl : ∀ p ∈ s.ctrlq, sleepCmd (ctrlData p) = 0

theorem drainable_tail {cfg : Cfg} {f : Frm} {fs : List Frm} (h : Drainable cfg (f :: fs)) : Drainable cfg fs := by
  rcases h with h | h
  · exact .inl h
  · refine .inr fun g hg => h g ?_
    have hne : fs ≠ [] := by
      rintro rfl
      simp at hg
    rw [List.dropLast_cons_of_ne_nil hne]
    exact List.mem_cons_of_mem f hg

theorem fitsAlone_of_drainable {cfg : Cfg} {f : Frm} {fs : List Frm} (h : Drainable cfg (f :: fs))
    (hagg : cfg.ifAgg ≠ 0) (hne : fs ≠ []) : fitsAlone cfg f := by
  rcases h with h | h
  · exact absurd h hagg
  · apply h
    rw [List.dropLast_cons_of_ne_nil hne]
    exact List.mem_cons_self

/-! ## Termination -/

/-- What holds at each position while the queues drain. -/
def DrainPc (cfg : Cfg) (ctrlq : List Skb) (dataq : List Frm) : Pc → Prop
  | .ctrlTop => True
  | .ctrlSleep | .ctrlRunning | .ctrlDeq => ctrlq ≠ []
  | .ctrlInboot p | .ctrlSend p => sleepCmd p = 0
  | .idle => ctrlq = [] ∧ dataq = []
  | .dataFw | .dataRunning | .dataSuspend | .dataSleep | .dataInboot | .wndFc | .dataDeq => ctrlq = [] ∧ dataq ≠ []
  | .dataTop | .pick _ | .single _ | .singleSend _ | .aggSend _ | .dataNext => ctrlq = []
  | .aggAlloc _ => ctrlq = [] ∧ cfg.ifAgg ≠ 0 ∧ dataq ≠ []
  | .aggLoop a f => ctrlq = [] ∧ cfg.ifAgg ≠ 0 ∧ (a.subs = [] → aggFits cfg.e cfg.ifAgg a f)
  | .aggDeq a => ctrlq = [] ∧ cfg.ifAgg ≠ 0 ∧ a.subs ≠ []
  | _ => False

structure DrainInv (cfg : Cfg) (s : Wdev) : Prop where
  steady : s.Steady
  pc : DrainPc cfg s.ctrlq s.dataq s.pc
  rest : Drainable cfg s.rest

/-- The distance of a position to the next packet. An aggregate takes its first frame below the others. -/
def Pc.rank : Pc → Nat
  | .aggDeq _ => 31
  | .aggLoop a _ => if a.subs.isEmpty then 12 else 30
  | .aggSend _ | .singleSend _ => 29
  | .ctrlInboot _ => 28
  | .ctrlSend _ | .dataNext => 27
  | .ctrlTop => 26
  | .ctrlSleep => 25
  | .ctrlRunning => 24
  | .ctrlDeq => 23
  | .dataTop => 22
  | .dataFw => 21
  | .dataRunning => 20
  | .dataSuspend => 19
  | .dataSleep => 18
  | .dataInboot => 17
  | .wndFc => 16
  | .dataDeq => 15
  | .pick _ => 14
  | .aggAlloc _ => 13
  | .single _ => 11
  | _ => 0

def drainMeasure (s : Wdev) : Nat := 40 * (s.ctrlq.length + s.rest.length) + s.pc.rank

theorem rank_lt (pc : Pc) : pc.rank < 40 := by
  cases pc <;> simp only [Pc.rank] <;> first | omega | (split <;> omega)

/-- One step of the argument: the invariant holds again and the measure is smaller. -/
def Progress (cfg : Cfg) (s t : Wdev) : Prop := DrainInv cfg t ∧ drainMeasure t < drainMeasure s

section Drain
variable {cfg : Cfg} {s : Wdev}

/-- A step that takes no frame into a packet: the position comes closer to the next one that does. -/
theorem progress_move (hs : DrainInv cfg s) {pc0 pc : Pc} {q : List Frm} {w : List Wire} {c : Nat} (hpc : s.pc = pc0)
    (hp : DrainPc cfg s.ctrlq q pc) (hrest : pc.hand ++ q = pc0.hand ++ s.dataq) (hrank : pc.rank < pc0.rank) :
    Progress cfg s { s with dataq := q, dataCookie := c, wire := w, pc := pc } := by
  have hsame : pc.hand ++ q = s.rest := by
    rw [hrest, Wdev.rest, hpc]
  refine ⟨⟨⟨hs.steady.permits, hs.steady.softFc, hs.steady.ctrl⟩, hp, ?_⟩, ?_⟩
  · show Drainable cfg (pc.hand ++ q)
    rw [hsame]
    exact hs.rest
  · show 40 * (s.ctrlq.length + (pc.hand ++ q).length) + pc.rank < drainMeasure s
    rw [hsame, drainMeasure, hpc]
    exact Nat.add_lt_add_left hrank _

theorem progress_take (hs : DrainInv cfg s) {pc0 pc : Pc} {f : Frm} {c : Nat} (hpc : s.pc = pc0)
    (hp : DrainPc cfg s.ctrlq s.dataq pc) (hhand : pc0.hand = [f] ∧ pc.hand = []) :
    Progress cfg s { s with dataCookie := c, pc := pc } := by
  have hrest : s.rest = f :: s.dataq := by
    rw [Wdev.rest, hpc, hhand.1]
    rfl
  have hdrain := hs.rest
  rw [hrest] at hdrain
  refine ⟨⟨⟨hs.steady.permits, hs.steady.softFc, hs.steady.ctrl⟩, hp, ?_⟩, ?_⟩
  · show Drainable cfg (pc.hand ++ s.dataq)
    rw [hhand.2]
    exact drainable_tail hdrain
  · show 40 * (s.ctrlq.length + (pc.hand ++ s.dataq).length) + pc.rank < drainMeasure s
    have hlt := rank_lt pc
    rw [hhand.2, drainMeasure, hrest, List.nil_append, List.length_cons]
    omega

theorem progress_ctrlDeq (hs : DrainInv cfg s) {p : Skb} {q : List Skb} (hpc : s.pc = .ctrlDeq)
    (hq : s.ctrlq = p :: q) : Progress cfg s ({ s with ctrlq := q }.goto (ctrlNext p)) := by
  have hctrl := hs.steady.ctrl
  rw [hq] at hctrl
  have hrest : ({ s with ctrlq := q }.goto (ctrlNext p)).rest = s.rest := by
    show (ctrlNext p).hand ++ s.dataq = s.pc.hand ++ s.dataq
    rw [hand_ctrlNext, hpc]
    rfl
  refine ⟨⟨⟨hs.steady.permits, hs.steady.softFc, fun r hr => hctrl r (List.mem_cons_of_mem p hr)⟩, ?_, ?_⟩, ?_⟩
  · have hsleep := hctrl p List.mem_cons_self
    show DrainPc cfg q s.dataq (ctrlNext p)
    unfold ctrlNext
    split <;> exact hsleep
  · rw [hrest]
    exact hs.rest
  · have hlt := rank_lt (ctrlNext p)
    show 40 * (q.length + ({ s with ctrlq := q }.goto (ctrlNext p)).rest.length) + (ctrlNext p).rank < drainMeasure s
    rw [hrest, drainMeasure, hq, List.length_cons]
    omega

theorem drain_step (hs : DrainInv cfg s) (m : Mem) :
    s.Drained ∨ ∃ t, workAlone cfg s m = some t ∧ Progress cfg s t := by
  obtain ⟨⟨hrun, hsus, hsleep, hboot, hfw⟩, hfc, -⟩ := hs.steady
  rw [Bool.not_eq_true] at hsus hsleep hboot
  have hok := hs.pc
  unfold workAlone workStep
  cases hpc : s.pc with
  | idle =>
    rw [hpc] at hok
    exact .inl ⟨hpc, hok⟩
  | ctrlTop =>
    refine .inr ⟨_, rfl, ?_⟩
    cases hq : s.ctrlq with
    | nil => exact progress_move hs hpc hq rfl (by decide)
    | cons p q => exact @progress_move _ _ hs _ .ctrlSleep _ _ _ hpc (by simp [DrainPc, hq]) rfl (by decide)
  | ctrlDeq =>
    rw [hpc] at hok
    cases hq : s.ctrlq with
    | nil => exact absurd hq hok
    | cons p q => exact .inr ⟨_, rfl, progress_ctrlDeq hs hpc hq⟩
  | ctrlSend p =>
    rw [hpc] at hok
    refine .inr ⟨_, rfl, ?_⟩
    rw [show sleepCmd p = 0 from hok]
    exact progress_move hs hpc trivial rfl (show 26 < 27 by decide)
  | dataTop =>
    rw [hpc] at hok
    refine .inr ⟨_, rfl, ?_⟩
    cases hq : s.dataq with
    | nil => exact progress_move hs hpc ⟨hok, hq⟩ rfl (by decide)
    | cons f q =>
      exact @progress_move _ _ hs _ .dataFw _ _ _ hpc ⟨hok, by simp [hq]⟩ rfl (by decide)
  | dataDeq =>
    rw [hpc] at hok
    cases hq : s.dataq with
    | nil => exact absurd hq hok.2
    | cons f q =>
      exact .inr ⟨_, rfl, progress_move hs hpc hok.1 (by rw [hq]; rfl) (show 14 < 15 by decide)⟩
  | pick f =>
    rw [hpc] at hok
    refine .inr ⟨_, rfl, ?_⟩
    by_cases hb : (!s.dataq.isEmpty && cfg.ifAgg ≠ 0) = true
    · have hagg := hb
      simp only [Bool.and_eq_true, Bool.not_eq_true', List.isEmpty_eq_false_iff, decide_eq_true_eq] at hagg
      rw [hb]
      exact progress_move hs hpc ⟨hok, hagg.2, hagg.1⟩ rfl (show 13 < 14 by decide)
    · rw [Bool.not_eq_true] at hb
      rw [hb]
      exact progress_move hs hpc hok rfl (show 11 < 14 by decide)
  | single f =>
    rw [hpc] at hok
    exact .inr ⟨_, rfl, progress_take hs hpc hok ⟨rfl, rfl⟩⟩
  | singleSend x =>
    rw [hpc] at hok
    exact .inr ⟨_, rfl, progress_move hs hpc hok rfl (show 27 < 29 by decide)⟩
  | aggAlloc f =>
    rw [hpc] at hok
    have hrest := hs.rest
    rw [Wdev.rest, hpc] at hrest
    have hfits := aggFits_of_subs_nil (aggInit_wf cfg.e m s.dataCookie) rfl (fitsAlone_of_drainable hrest hok.2.1 hok.2.2)
    exact .inr ⟨_, rfl, progress_move hs hpc ⟨hok.1, hok.2.1, fun _ => hfits⟩ rfl (show 12 < 13 by decide)⟩
  | aggLoop a f =>
    rw [hpc] at hok
    refine .inr ⟨_, rfl, ?_⟩
    split
    · exact progress_take hs hpc ⟨hok.1, hok.2.1, by simp [aggAdd]⟩ ⟨rfl, rfl⟩
    · rename_i hfit
      have hrank : Pc.rank (.aggLoop a f) = 30 := if_neg (by simpa using fun hnil => hfit (hok.2.2 hnil))
      exact progress_move hs hpc hok.1 rfl (hrank ▸ (show 29 < 30 by decide))
  | aggDeq a =>
    rw [hpc] at hok
    cases hq : s.dataq with
    | nil => exact .inr ⟨_, rfl, progress_move hs hpc hok.1 rfl (show 29 < 31 by decide)⟩
    | cons f q =>
      have hrank : Pc.rank (.aggLoop a f) = 30 := if_neg (by simpa using hok.2.2)
      exact .inr ⟨_, rfl, progress_move hs hpc ⟨hok.1, hok.2.1, fun hnil => absurd hnil hok.2.2⟩ (by rw [hq]; rfl)
        (hrank ▸ (show 30 < 31 by decide))⟩
  | aggSend a =>
    rw [hpc] at hok
    refine .inr ⟨_, rfl, ?_⟩
    split <;> exact progress_move hs hpc hok rfl (show 27 < 29 by decide)
  | dataNext =>
    rw [hpc] at hok
    refine .inr ⟨_, rfl, ?_⟩
    rw [show s.ctrlq = [] from hok]
    exact progress_move hs hpc hok rfl (show 22 < 27 by decide)
  | ctrlSleep | ctrlRunning | ctrlInboot | dataFw | dataRunning | dataSuspend | dataSleep | dataInboot | wndFc =>
    -- the tests of the flags
    rw [hpc] at hok
    refine .inr ⟨_, rfl, ?_⟩
    simp only [hrun, hsus, hsleep, hboot, hfw, hfc]
    exact progress_move hs hpc hok rfl (by simp [Pc.rank])
  | ctrlClear | ctrlSetSleep | dataClear | wndInboot | wndSleep | wndSuspend | wndRunning | wndFirst | wndRequest
  | wndSecond | wndDec =>
    rw [hpc] at hok
    exact hok.elim

end Drain

theorem drains {cfg : Cfg} {s : Wdev} (hpc : s.pc = .ctrlTop) (hs : s.Steady) (hd : Drainable cfg s.dataq) :
    Reaches (workAlone cfg) Wdev.Drained s := by
  refine reaches_of_measure (workAlone cfg) drainMeasure (fun _ m hi => drain_step hi m) ⟨hs, ?_, ?_⟩
  · rw [hpc]
    trivial
  · rw [Wdev.rest, hpc]
    exact hd

/-! ## No termination -/

/-- Some frame with another one behind it fits no aggregate. -/
def Stuck (cfg : Cfg) (fs : List Frm) : Prop := ∃ xs f ys, fs = xs ++ f :: ys ∧ ys ≠ [] ∧ ¬ fitsAlone cfg f

theorem stuck_of_not_drainable {cfg : Cfg} {fs : List Frm} (h : ¬ Drainable cfg fs) : cfg.ifAgg ≠ 0 ∧ Stuck cfg fs := by
  rw [Drainable, not_or] at h
  obtain ⟨hagg, h⟩ := h
  push Not at h
  obtain ⟨f, hf, hnot⟩ := h
  obtain ⟨xs, ys, hsplit⟩ := List.append_of_mem hf
  have hne : fs ≠ [] := by
    rintro rfl
    simp at hf
  refine ⟨hagg, xs, f, ys ++ [fs.getLast hne], ?_, by simp, hnot⟩
  calc fs = fs.dropLast ++ [fs.getLast hne] := (List.dropLast_append_getLast hne).symm
    _ = xs ++ f :: (ys ++ [fs.getLast hne]) := by rw [hsplit, List.append_assoc, List.cons_append]

theorem Stuck.two_le {cfg : Cfg} {fs : List Frm} (h : Stuck cfg fs) : 2 ≤ fs.length := by
  obtain ⟨xs, f, ys, rfl, hne, -⟩ := h
  have := List.length_pos_of_ne_nil hne
  simp only [List.length_append, List.length_cons]
  omega

/-- A frame that fits is not the one that blocks the queue. -/
theorem Stuck.tail {cfg : Cfg} {f : Frm} {fs : List Frm} (h : Stuck cfg (f :: fs)) (hf : fitsAlone cfg f) :
    Stuck cfg fs := by
  obtain ⟨xs, g, ys, hsplit, hne, hnot⟩ := h
  cases xs with
  | nil =>
    rw [List.nil_append, List.cons.injEq] at hsplit
    exact absurd (hsplit.1 ▸ hf) hnot
  | cons x xs =>
    rw [List.cons_append, List.cons.injEq] at hsplit
    exact ⟨xs, g, ys, hsplit.2, hne, hnot⟩

/-- The positions of a work item that never ends. -/
def StuckPc (e : Endian) : Pc → Prop
  | .ctrlInboot p | .ctrlSend p => sleepCmd p = 0
  | .aggLoop a _ | .aggDeq a => hdrSize ≤ a.length e
  | .ctrlTop | .ctrlSleep | .ctrlRunning | .ctrlDeq | .dataTop | .dataFw | .dataRunning | .dataSuspend | .dataSleep
  | .dataInboot | .wndFc | .dataDeq | .pick _ | .aggAlloc _ | .aggSend _ | .dataNext => True
  | _ => False

structure StuckInv (cfg : Cfg) (s : Wdev) : Prop where
  steady : s.Steady
  pc : StuckPc cfg.e s.pc
  rest : Stuck cfg s.rest

/-- The work item changes no flag but SLEEP, and only takes commands out of their queue. -/
theorem steady_work {cfg : Cfg} {o : Env} {s t : Wdev} (hs : s.Steady) (hsleep : s.pc ≠ .ctrlSetSleep)
    (h : workStep cfg o s = some t) : t.Steady := by
  simp only [workStep] at h
  obtain ⟨hp, hfc, hc⟩ := hs
  cases hpc : s.pc with
  | idle => simp [hpc] at h
  | ctrlSetSleep => exact absurd hpc hsleep
  | ctrlClear =>
    simp only [hpc, Option.some.injEq] at h
    subst h
    split
    · exact ⟨hp, hfc, hc⟩
    · exact ⟨hp, hfc, fun p hp => hc p (List.mem_of_mem_tail hp)⟩
  | ctrlDeq =>
    simp only [hpc] at h
    split at h <;> rw [Option.some.injEq] at h <;> subst h
    · exact ⟨hp, hfc, hc⟩
    · rename_i p q hq
      rw [hq] at hc
      exact ⟨hp, hfc, fun r hr => hc r (List.mem_cons_of_mem p hr)⟩
  | dataDeq | aggDeq =>
    simp only [hpc] at h
    split at h <;> rw [Option.some.injEq] at h <;> subst h <;> exact ⟨hp, hfc, hc⟩
  | wndRequest | dataClear | aggAlloc | aggLoop | aggSend =>
    simp only [hpc, Option.some.injEq] at h
    subst h
    split <;> exact ⟨hp, hfc, hc⟩
  | ctrlTop | ctrlSleep | ctrlRunning | ctrlInboot | ctrlSend | dataTop | dataFw | dataRunning | dataSuspend
  | dataSleep | dataInboot | wndFc | wndInboot | wndSleep | wndSuspend | wndRunning | wndFirst | wndSecond | wndDec
  | pick | single | singleSend | dataNext =>
    simp only [hpc, Option.some.injEq] at h
    subst h
    exact ⟨hp, hfc, hc⟩

section Stuck
variable {cfg : Cfg} {s t : Wdev} {m : Mem}

theorem stuckPc_step (hs : StuckInv cfg s) (hagg : cfg.ifAgg ≠ 0) (hlt : cfg.ifAgg < 2 ^ 16)
    (h : workAlone cfg s m = some t) : StuckPc cfg.e t.pc := by
  obtain ⟨⟨hrun, hsus, hsleep, hboot, hfw⟩, hfc, hctrl⟩ := hs.steady
  rw [Bool.not_eq_true] at hsus hsleep hboot
  have hok := hs.pc
  have htwo := hs.rest.two_le
  simp only [workAlone, workStep] at h
  cases hpc : s.pc with
  | ctrlTop | dataNext =>
    simp only [hpc, Option.some.injEq] at h
    subst h
    simp only [Wdev.branch, Wdev.goto]
    split <;> trivial
  | ctrlDeq =>
    simp only [hpc] at h
    split at h <;> rw [Option.some.injEq] at h <;> subst h
    · trivial
    · rename_i p q hq
      have hp := hctrl p (by rw [hq]; exact List.mem_cons_self)
      simp only [Wdev.goto, ctrlNext]
      split <;> exact hp
  | ctrlSend p =>
    rw [hpc] at hok
    simp only [hpc, Option.some.injEq] at h
    subst h
    rw [show sleepCmd p = 0 from hok]
    trivial
  | dataTop =>
    -- the queue is not empty
    simp only [hpc, Option.some.injEq] at h
    subst h
    rw [Wdev.rest, hpc] at htwo
    cases hq : s.dataq with
    | nil => simp [hq, Pc.hand] at htwo
    | cons f q => trivial
  | dataDeq =>
    simp only [hpc] at h
    split at h <;> rw [Option.some.injEq] at h <;> subst h <;> trivial
  | pick f =>
    -- another frame is queued, so the work item aggregates
    simp only [hpc, Option.some.injEq] at h
    subst h
    rw [Wdev.rest, hpc] at htwo
    cases hq : s.dataq with
    | nil => simp [hq, Pc.hand] at htwo
    | cons g q =>
      simp only [Wdev.branch, Wdev.goto, List.isEmpty_cons]
      rw [if_pos (by simp [hagg])]
      trivial
  | aggAlloc f =>
    simp only [hpc, Option.some.injEq] at h
    subst h
    exact Nat.le_of_eq (aggInit_length cfg.e m s.dataCookie).symm
  | aggLoop a f =>
    rw [hpc] at hok
    have h8 : hdrSize ≤ a.length cfg.e := hok
    simp only [hpc, Option.some.injEq] at h
    subst h
    split
    · rename_i hfit
      simp only [aggFits, decide_eq_true_eq] at hfit
      show hdrSize ≤ (aggAdd cfg.e a f s.dataCookie).length cfg.e
      rw [aggAdd_length h8, Nat.mod_eq_of_lt (by omega)]
      omega
    · trivial
  | aggDeq a =>
    rw [hpc] at hok
    simp only [hpc] at h
    split at h <;> rw [Option.some.injEq] at h <;> subst h
    · trivial
    · exact hok
  | aggSend a =>
    simp only [hpc, Option.some.injEq] at h
    subst h
    split <;> trivial
  | ctrlSleep | ctrlRunning | ctrlInboot | dataFw | dataRunning | dataSuspend | dataSleep | dataInboot | wndFc =>
    rw [hpc] at hok
    simp only [hpc, Option.some.injEq] at h
    subst h
    simp only [hrun, hsus, hsleep, hboot, hfw, hfc]
    exact hok
  | idle | single | singleSend | ctrlClear | ctrlSetSleep | dataClear | wndInboot | wndSleep | wndSuspend | wndRunning
  | wndFirst | wndRequest | wndSecond | wndDec =>
    rw [hpc] at hok
    exact hok.elim

theorem stuck_step (hs : StuckInv cfg s) (hagg : cfg.ifAgg ≠ 0) (hlt : cfg.ifAgg < 2 ^ 16)
    (h : workAlone cfg s m = some t) : StuckInv cfg t := by
  have hpc := hs.pc
  have hclear : s.pc ≠ .dataClear := fun he => by
    rw [he] at hpc
    exact hpc
  have hsleep : s.pc ≠ .ctrlSetSleep := fun he => by
    rw [he] at hpc
    exact hpc
  refine ⟨steady_work hs.steady hsleep h, stuckPc_step hs hagg hlt h, ?_⟩
  have hrest := hs.rest
  cases work_cases hclear h with
  | quiet hv =>
    simp only [Wdev.view, Prod.mk.injEq] at hv
    rw [hv.2.1]
    exact hrest
  | accept f hx =>
    have hacc := (work_xmit h).2
    simp at hacc
  | single f hf =>
    rw [hf] at hpc
    exact hpc.elim
  | alloc f m' hf =>
    rw [Wdev.rest, hf] at hrest
    exact hrest
  | add a f hf hfit =>
    rw [Wdev.rest, hf] at hrest
    rw [hf] at hpc
    apply hrest.tail
    have h8 : hdrSize ≤ a.length cfg.e := hpc
    simp only [aggFits, decide_eq_true_eq] at hfit
    unfold fitsAlone
    omega
  | invalid a hf hlen =>
    rw [Wdev.rest, hf] at hrest
    exact hrest

end Stuck

theorem not_drains {cfg : Cfg} {s : Wdev} (hpc : s.pc = .ctrlTop) (hs : s.Steady) (hagg : cfg.ifAgg ≠ 0)
    (hlt : cfg.ifAgg < 2 ^ 16) (hstuck : Stuck cfg s.dataq) : ¬ Reaches (workAlone cfg) Wdev.Drained s := by
  refine not_reaches_of_invariant (workAlone cfg) (fun _ _ _ hi => stuck_step hi hagg hlt) (fun t ht hd => ?_)
    (⟨hs, ?_, ?_⟩ : StuckInv cfg s)
  · have hidle := ht.pc
    rw [hd.1] at hidle
    exact hidle
  · rw [hpc]
    trivial
  · rw [Wdev.rest, hpc]
    exact hstuck

/-! ## The condition -/

/-- For every content of the queues, while nothing arrives and the flags stay set for transmission: when `if_agg` is 0
or every frame but the last fits an aggregate of its own, `hgicf_tx_work` ends with both queues empty; and outside the
eight values of `if_agg` for which the 16-bit length of an aggregate may wrap before such a frame, it does so only
then. -/
theorem tx_work_drains_iff {cfg : Cfg} {s : Wdev} (hpc : s.pc = .ctrlTop) (hs : s.Steady)
    (hlen : ∀ f ∈ s.dataq, f.hdr.length < 2 ^ 16) :
    (Drainable cfg s.dataq → Reaches (workAlone cfg) Wdev.Drained s) ∧
    (cfg.ifAgg < 65536 ∨ 65544 ≤ cfg.ifAgg → Reaches (workAlone cfg) Wdev.Drained s → Drainable cfg s.dataq) := by
  refine ⟨drains hpc hs, fun hagg hr => ?_⟩
  by_contra hnot
  obtain ⟨hne, hstuck⟩ := stuck_of_not_drainable hnot
  refine not_drains hpc hs hne ?_ hstuck hr
  rcases hagg with hagg | hagg
  · exact hagg
  · -- every frame fits an aggregate of 65544 bytes
    obtain ⟨xs, f, ys, hsplit, -, hfit⟩ := hstuck
    have hlt := hlen f (by simp [hsplit])
    unfold fitsAlone align4 hdrSize at hfit
    omega

def workWith (fs : List Frm) : Wdev := { upAndRunning with dataq := fs, pc := .ctrlTop }

def twoFrames : List Frm :=
  [xmitFrm .little 1 ⟨List.replicate 10 0, 0, [], by decide⟩, xmitFrm .little 1 ⟨List.replicate 10 1, 0, [], by decide⟩]

theorem steady_workWith (fs : List Frm) : (workWith fs).Steady := by
  refine ⟨⟨rfl, Bool.false_ne_true, Bool.false_ne_true, Bool.false_ne_true, rfl⟩, rfl, fun p hp => ?_⟩
  exact absurd hp List.not_mem_nil

theorem tx_work_drains_iff_twoFrames :
    Reaches (workAlone ⟨.little, 28, 1024, 1⟩) Wdev.Drained (workWith twoFrames) ∧
      ¬ Reaches (workAlone ⟨.little, 27, 1024, 1⟩) Wdev.Drained (workWith twoFrames) := by
  have hlen : ∀ f ∈ (workWith twoFrames).dataq, f.hdr.length < 2 ^ 16 := by decide
  refine ⟨(tx_work_drains_iff rfl (steady_workWith _) hlen).1 (.inr ?_), fun hr => ?_⟩
  · unfold fitsAlone
    decide
  · have hd := (tx_work_drains_iff rfl (steady_workWith _) hlen).2 (.inl (by decide)) hr
    revert hd
    unfold Drainable fitsAlone
    decide

/-- With `if_agg` 16 the first of two frames of 18 bytes is put back to the head of the queue forever. -/
theorem tx_work_drains_fails : ¬ ∀ (cfg : Cfg) (s : Wdev), s.pc = .ctrlTop → s.Steady →
    (∀ f ∈ s.dataq, f.hdr.length < 2 ^ 16) → Reaches (workAlone cfg) Wdev.Drained s := by
  intro hall
  refine @not_drains ⟨.little, 16, 1024, 1⟩ _ rfl (steady_workWith twoFrames) (by decide) (by decide) ?_
    (hall _ (workWith twoFrames) rfl (steady_workWith _) (by decide))
  refine ⟨[], _, _, rfl, by simp, ?_⟩
  unfold fitsAlone
  decide

end HgicFmac.Core
