import HgicFmac.Core.Tx

/-!
# What a step does to the frames

Most accesses of the transmit path move a packet or a frame from one place to the next and lose nothing. The view of a
state joins these places:

* `Pc.packet`, `Pc.hand` : the packet that the work item builds, and the frame it has dequeued and not put into one;
* `Wdev.packets` : the data packets, sent or being built; `Wdev.rest` : the accepted frames that are in none;
* `FrameCase` : the steps that change the view; every other step keeps it, when no queue is cleared (`frame_cases`);
* `OtherStep` : the step inversion for the contexts other than the work item (`step_cases`).
-/

namespace HgicFmac.Core
open Lib

namespace Wire

/-- The frames of a packet, with the headers they are sent with. -/
def subs : Wire → List Sub
  | .ctrl _ | .softfc => []
  | .frm x => [x]
  | .agg a => a.subs

def frms (w : Wire) : List Frm := w.subs.map Sub.frm

/-- The cookie fields of a data packet: the outer header, then the sub-headers. -/
def cookies (e : Endian) : Wire → List Nat
  | .ctrl _ | .softfc => []
  | .frm x => [x.hdr.cookie]
  | .agg a => a.cookie e :: a.subs.map fun x => x.hdr.cookie

def isData : Wire → Bool
  | .ctrl _ | .softfc => false
  | .frm _ | .agg _ => true

end Wire

/-- The data packet that the work item builds. -/
def Pc.packet : Pc → List Wire
  | .singleSend x => [.frm x]
  | .aggLoop a _ | .aggDeq a | .aggSend a => [.agg a]
  | _ => []

/-- The frame that the work item has dequeued and not yet put into a packet. -/
def Pc.hand : Pc → List Frm
  | .pick f | .single f | .aggAlloc f | .aggLoop _ f => [f]
  | _ => []

def Wdev.packets (s : Wdev) : List Wire := s.wire.filter Wire.isData ++ s.pc.packet

def Wdev.rest (s : Wdev) : List Frm := s.pc.hand ++ s.dataq

def Wdev.view (s : Wdev) : List Wire × List Frm × List Frm × Nat := (s.packets, s.rest, s.accepted, s.dataCookie)

/-- A step from `s`, by its effect on the view. -/
inductive FrameCase (cfg : Cfg) (s : Wdev) : Wdev → Prop
  | quiet {t : Wdev} (hv : t.view = s.view) : FrameCase cfg s t
  | accept (f : Frm) (hx : s.xmit = .queue f) :
      FrameCase cfg s { s with dataq := s.dataq ++ [f], accepted := s.accepted ++ [f], xmit := .idle }
  | single (f : Frm) (hpc : s.pc = .single f) :
      FrameCase cfg s (s.nextCookie.goto (.singleSend (singleSub cfg.e f s.dataCookie)))
  | alloc (f : Frm) (m : Mem) (hpc : s.pc = .aggAlloc f) :
      FrameCase cfg s (s.nextCookie.goto (.aggLoop (aggInit cfg.e m s.dataCookie) f))
  | add (a : Agg) (f : Frm) (hpc : s.pc = .aggLoop a f) (hfit : aggFits cfg.e cfg.ifAgg a f) :
      FrameCase cfg s (s.nextCookie.goto (.aggDeq (aggAdd cfg.e a f s.dataCookie)))
  | invalid (a : Agg) (hpc : s.pc = .aggSend a) (hlen : a.length cfg.e ≤ hdrSize) :
      FrameCase cfg s (s.goto .dataNext)

theorem view_goto {s : Wdev} {pc0 pc : Pc} (hpc : s.pc = pc0) (h : pc.packet = pc0.packet ∧ pc.hand = pc0.hand) :
    (s.goto pc).view = s.view := by
  unfold Wdev.view Wdev.packets Wdev.rest Wdev.goto
  rw [hpc, h.1, h.2]

theorem view_branch {s : Wdev} {pc0 yes no : Pc} (b : Bool) (hpc : s.pc = pc0)
    (hy : yes.packet = pc0.packet ∧ yes.hand = pc0.hand) (hn : no.packet = pc0.packet ∧ no.hand = pc0.hand) :
    (s.branch b yes no).view = s.view := by
  cases b
  · exact view_goto hpc hn
  · exact view_goto hpc hy

theorem view_send {s : Wdev} {w : Wire} {pc0 pc : Pc} (hpc : s.pc = pc0) (hw : w.isData = false)
    (h : pc.packet = [] ∧ pc0.packet = []) (hh : pc.hand = pc0.hand) : (s.send w pc).view = s.view := by
  unfold Wdev.view Wdev.packets Wdev.rest Wdev.send
  rw [hpc, h.1, h.2, hh, List.filter_append, List.filter_singleton, hw]
  simp

/-- A packet that is sent leaves the hands of the work item. -/
theorem view_sendPacket {s : Wdev} {w : Wire} {pc0 pc : Pc} (hpc : s.pc = pc0) (hw : w.isData)
    (hp : pc0.packet = [w] ∧ pc.packet = []) (hh : pc.hand = pc0.hand) : (s.send w pc).view = s.view := by
  unfold Wdev.view Wdev.packets Wdev.rest Wdev.send
  rw [hpc, hp.1, hp.2, hh, List.filter_append, List.filter_singleton, hw]
  simp

theorem packet_ctrlNext (p : Skb) : (ctrlNext p).packet = [] := by
  unfold ctrlNext
  split <;> rfl

theorem hand_ctrlNext (p : Skb) : (ctrlNext p).hand = [] := by
  unfold ctrlNext
  split <;> rfl

theorem work_cases {cfg : Cfg} {o : Env} {s t : Wdev} (hc : s.pc ≠ .dataClear) (h : workStep cfg o s = some t) :
    FrameCase cfg s t := by
  unfold workStep at h
  cases hpc : s.pc with
  | idle => simp [hpc] at h
  | dataClear => exact absurd hpc hc
  | ctrlClear =>
    simp only [hpc, Option.some.injEq] at h
    subst h
    split
    · exact .quiet (view_goto hpc ⟨rfl, rfl⟩)
    · exact .quiet (by simp [Wdev.view, Wdev.packets, Wdev.rest, hpc])
  | ctrlDeq =>
    simp only [hpc] at h
    split at h <;> rw [Option.some.injEq] at h <;> subst h
    · exact .quiet (view_goto hpc ⟨rfl, rfl⟩)
    · rename_i p q hq
      exact .quiet (@view_goto { s with ctrlq := q } _ _ hpc ⟨packet_ctrlNext _, hand_ctrlNext _⟩)
  | ctrlSend p =>
    simp only [hpc, Option.some.injEq] at h
    subst h
    refine .quiet (view_send hpc rfl ?_ ?_) <;> split <;> simp [Pc.packet, Pc.hand]
  | ctrlSetSleep =>
    simp only [hpc, Option.some.injEq] at h
    subst h
    exact .quiet (@view_goto { s with sleep := true } _ _ hpc ⟨rfl, rfl⟩)
  | wndRequest =>
    simp only [hpc, Option.some.injEq] at h
    subst h
    split
    · exact .quiet (view_send hpc rfl ⟨rfl, rfl⟩ rfl)
    · exact .quiet (view_goto hpc ⟨rfl, rfl⟩)
  | wndDec =>
    simp only [hpc, Option.some.injEq] at h
    subst h
    exact .quiet (@view_goto { s with txwnd := s.txwnd - 1 } _ _ hpc ⟨rfl, rfl⟩)
  | dataDeq =>
    simp only [hpc] at h
    split at h <;> rw [Option.some.injEq] at h <;> subst h
    · exact .quiet (view_goto hpc ⟨rfl, rfl⟩)
    · rename_i f q hq
      refine .quiet ?_
      simp [Wdev.view, Wdev.packets, Wdev.rest, Wdev.goto, hpc, hq, Pc.packet, Pc.hand]
  | single f =>
    simp only [hpc, Option.some.injEq] at h
    subst h
    exact .single f hpc
  | singleSend x =>
    simp only [hpc, Option.some.injEq] at h
    subst h
    exact .quiet (view_sendPacket hpc rfl ⟨rfl, rfl⟩ rfl)
  | aggAlloc f =>
    simp only [hpc, Option.some.injEq] at h
    subst h
    split
    · exact .alloc f o.mem hpc
    · exact .quiet (view_goto hpc ⟨rfl, rfl⟩)
  | aggLoop a f =>
    simp only [hpc, Option.some.injEq] at h
    subst h
    split
    · exact .add a f hpc ‹_›
    · refine .quiet ?_
      simp [Wdev.view, Wdev.packets, Wdev.rest, Wdev.goto, hpc, Pc.packet, Pc.hand]
  | aggDeq a =>
    simp only [hpc] at h
    split at h <;> rw [Option.some.injEq] at h <;> subst h
    · exact .quiet (view_goto hpc ⟨rfl, rfl⟩)
    · rename_i f q hq
      refine .quiet ?_
      simp [Wdev.view, Wdev.packets, Wdev.rest, Wdev.goto, hpc, hq, Pc.packet, Pc.hand]
  | aggSend a =>
    simp only [hpc, Option.some.injEq] at h
    subst h
    split
    · exact .quiet (view_sendPacket hpc rfl ⟨rfl, rfl⟩ rfl)
    · exact .invalid a hpc (by omega)
  | ctrlTop | ctrlSleep | ctrlRunning | ctrlInboot | dataTop | dataFw | dataRunning | dataSuspend | dataSleep
  | dataInboot | wndFc | wndInboot | wndSleep | wndSuspend | wndRunning | wndFirst | wndSecond | pick | dataNext =>
    simp only [hpc, Option.some.injEq] at h
    subst h
    exact .quiet (view_branch _ hpc ⟨rfl, rfl⟩ ⟨rfl, rfl⟩)

theorem work_xmit {cfg : Cfg} {o : Env} {s t : Wdev} (h : workStep cfg o s = some t) :
    t.xmit = s.xmit ∧ t.accepted = s.accepted := by
  simp only [workStep, Wdev.branch, Wdev.goto, Wdev.send, Wdev.nextCookie] at h
  split at h
  · cases h
  all_goals first
    | (rw [Option.some.injEq] at h; subst h; first | exact ⟨rfl, rfl⟩ | split <;> exact ⟨rfl, rfl⟩)
    | (split at h <;> rw [Option.some.injEq] at h <;> subst h <;> exact ⟨rfl, rfl⟩)

/-! ## The other contexts -/

/-- Frames are dropped by `hgicf_detect_work` only. -/
def Act.keepsFrames : Act → Bool
  | .dropFrame => false
  | _ => true

/-- What the contexts other than the work item do. -/
inductive OtherStep (cfg : Cfg) (s : Wdev) : Act → Wdev → Prop
  | kick (hpc : s.pc = .idle) : OtherStep cfg s .kick (s.goto .ctrlTop)
  | busy : OtherStep cfg s .kick s
  /-- `hgicf_netif_xmit` starts or goes on; what it is going to queue it made of its packet. -/
  | move (a : Act) (x : Xmit) (ha : a.keepsFrames)
      (hx : ∀ f, x = .queue f → ∃ p, f = xmitFrm cfg.e cfg.fwifidx p) : OtherStep cfg s a { s with xmit := x }
  | accept (expanded : Bool) (f : Frm) (hx : s.xmit = .queue f) :
      OtherStep cfg s (.xmitStep expanded)
        { s with dataq := s.dataq ++ [f], accepted := s.accepted ++ [f], xmit := .idle }
  | dropFrame : OtherStep cfg s .dropFrame { s with dataq := s.dataq.tail }
  | commands (a : Act) (ctrlq : List Skb) (ha : a.keepsFrames) : OtherStep cfg s a { s with ctrlq := ctrlq }
  | flags (running suspend inboot softFc : Bool) (fwState : Nat) :
      OtherStep cfg s (.flags running suspend inboot softFc fwState)
        { s with running := running, suspend := suspend, inboot := inboot, softFc := softFc, fwState := fwState }
  | window (n : Int) : OtherStep cfg s (.window n) { s with txwnd := n }
  | wakeUp : OtherStep cfg s .wakeUp { s with sleep := false }

theorem xmit_cases {cfg : Cfg} {s t : Wdev} {expanded : Bool} (h : hgicfNetifXmit cfg expanded s = some t) :
    OtherStep cfg s (.xmitStep expanded) t := by
  unfold hgicfNetifXmit at h
  cases hx : s.xmit with
  | idle => simp [hx] at h
  | queue f =>
    simp only [hx, Option.some.injEq] at h
    subst h
    exact .accept expanded f hx
  | running p | qlen p =>
    simp only [hx, Option.some.injEq] at h
    subst h
    refine .move _ _ rfl fun f hf => ?_
    split at hf <;> cases hf
  | sleep p =>
    simp only [hx, Option.some.injEq] at h
    subst h
    refine .move _ _ rfl fun f hf => ?_
    split at hf
    · cases hf
    · rw [Xmit.queue.injEq] at hf
      exact ⟨p, hf.symm⟩

theorem step_cases {cfg : Cfg} {s t : Wdev} {a : Act} (h : step cfg s a = some t) :
    (∃ o, a = .work o ∧ workStep cfg o s = some t) ∨ OtherStep cfg s a t := by
  cases a with
  | work o => exact .inl ⟨o, rfl, h⟩
  | kick =>
    simp only [step] at h
    split at h <;> rw [Option.some.injEq] at h <;> subst h
    · rename_i hpc
      exact .inr (.kick hpc)
    · exact .inr .busy
  | xmit p =>
    simp only [step] at h
    split at h
    · rw [Option.some.injEq] at h
      subst h
      exact .inr (.move _ _ rfl fun f hf => by cases hf)
    · cases h
  | xmitStep expanded => exact .inr (xmit_cases h)
  | command p =>
    simp only [step, Option.some.injEq] at h
    subst h
    exact .inr (.commands _ _ rfl)
  | dropCommand =>
    simp only [step, Option.some.injEq] at h
    subst h
    exact .inr (.commands _ _ rfl)
  | dropFrame =>
    simp only [step, Option.some.injEq] at h
    subst h
    exact .inr .dropFrame
  | flags running suspend inboot softFc fwState =>
    simp only [step, Option.some.injEq] at h
    subst h
    exact .inr (.flags running suspend inboot softFc fwState)
  | window n =>
    simp only [step, Option.some.injEq] at h
    subst h
    exact .inr (.window n)
  | wakeUp =>
    simp only [step, Option.some.injEq] at h
    subst h
    exact .inr .wakeUp

section Step
variable {cfg : Cfg} {s t : Wdev} {a : Act}

theorem accepted_subset (h : step cfg s a = some t) : s.accepted ⊆ t.accepted := by
  rcases step_cases h with ⟨o, -, h⟩ | h
  · rw [(work_xmit h).2]
    exact List.Subset.refl _
  · cases h with
    | accept => exact List.subset_append_left _ _
    | kick | busy | move | dropFrame | commands | flags | window | wakeUp => exact List.Subset.refl _

/-- What the other contexts leave to the work item: they start it, and they may clear SLEEP. -/
structure EnvStep (s : Wdev) (a : Act) (t : Wdev) : Prop where
  pc : t.pc = s.pc ∨ t.pc = .ctrlTop
  wire : t.wire = s.wire
  sleep : t.sleep = s.sleep ∨ a = .wakeUp ∧ t.sleep = false

theorem step_work_or (h : step cfg s a = some t) :
    (∃ o, a = .work o ∧ workStep cfg o s = some t) ∨ EnvStep s a t := by
  apply (step_cases h).imp_right
  intro h
  cases h with
  | kick => exact ⟨.inr rfl, rfl, .inl rfl⟩
  | wakeUp => exact ⟨.inl rfl, rfl, .inr ⟨rfl, rfl⟩⟩
  | busy | move | accept | dropFrame | commands | flags | window => exact ⟨.inl rfl, rfl, .inl rfl⟩

theorem frame_cases (ha : a.keepsFrames) (hc : s.pc ≠ .dataClear) (h : step cfg s a = some t) : FrameCase cfg s t := by
  rcases step_cases h with ⟨o, -, h⟩ | h
  · exact work_cases hc h
  · cases h with
    | kick hpc => exact .quiet (view_goto hpc ⟨rfl, rfl⟩)
    | accept expanded f hx => exact .accept f hx
    | dropFrame => cases ha
    | busy | move | commands | flags | window | wakeUp => exact .quiet rfl

end Step

end HgicFmac.Core
