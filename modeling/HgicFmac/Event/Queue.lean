import HgicFmac.Event.Model
import HgicFmac.Lib.Fifo

/-!
# The event list as a queue

Arrivals and reads as single steps.

* `Op`, `EvtHist`, `opStep` : the two operations, with the accepted events and those that left the list as history;
* `EvtHist.fifo` : the list with its history as a queue that holds 17 events; `event_fifo`, `read_fifo` : an arrival is
  a `push`, a read that has a token is a `take`;
* `event_list_order` : the bound, the order of the list and of the events read, and when an event is lost.
-/

namespace HgicFmac.Event
open Lib HgicFmac.Core

/-- `hgicf_rx_fw_event` for a packet, and `hgicf_fwevent_read`, where `copy_to_user` succeeds or not. -/
inductive Op
  | event (p : Skb)
  | read (ok : Bool)

/-- `gone` marks an event that a read took with `true`, a dropped one with `false`. -/
structure EvtHist extends Evt where
  accepted : List Skb
  gone : List (Skb × Bool)

def EvtHist.init : EvtHist := ⟨.init, [], []⟩

def droppedBy (s : Evt) (p : Skb) : Option Skb :=
  if accepts p ∧ hgicEventMax < s.evtList.length then s.evtList.head? else none

def Outcome.took : Outcome → Option Skb
  | .event p | .fault p => some p
  | .timeout | .empty => none

def opStep (s : EvtHist) : Op → Option EvtHist
  | .event p => some
    { toEvt := hgicfRxFwEvent s.toEvt p
      accepted := s.accepted ++ if accepts p then [p] else []
      gone := s.gone ++ (droppedBy s.toEvt p).toList.map (·, false) }
  | .read ok =>
    let r := hgicfFweventRead s.toEvt ok
    some { toEvt := r.2, accepted := s.accepted, gone := s.gone ++ r.1.took.toList.map (·, true) }

def EvtHist.taken (s : EvtHist) : List Skb := (s.gone.filter Prod.snd).map Prod.fst

def EvtHist.fifo (s : EvtHist) : Fifo Skb := ⟨s.evtList, s.accepted, s.gone⟩

theorem took_copy (p : Skb) (ok : Bool) : (Outcome.copy p ok).took = some p := by
  cases ok <;> rfl

theorem event_fifo {s t : EvtHist} {p : Skb} (h : opStep s (.event p) = some t) :
    t.fifo = s.fifo ∨ t.fifo = s.fifo.push hgicEventMax p := by
  rw [opStep, Option.some.injEq] at h
  subst h
  by_cases ha : accepts p
  · right
    by_cases hlen : hgicEventMax < s.evtList.length
    · cases hl : s.evtList with
      | nil => simp [hl] at hlen
      | cons q l =>
        rw [hl, List.length_cons] at hlen
        simp [EvtHist.fifo, hgicfRxFwEvent, droppedBy, ha, Fifo.push, Fifo.leave, hl, hlen]
    · simp [EvtHist.fifo, hgicfRxFwEvent, droppedBy, ha, hlen, Fifo.push]
  · left
    simp [EvtHist.fifo, hgicfRxFwEvent, droppedBy, ha]

theorem read_fifo {s t : EvtHist} {ok : Bool} (h : opStep s (.read ok) = some t) :
    t.fifo = s.fifo ∨ t.fifo = s.fifo.take := by
  simp only [opStep, Option.some.injEq] at h
  subst h
  by_cases hsema : s.evtSema = 0
  · left
    simp [EvtHist.fifo, hgicfFweventRead, hsema, Outcome.took]
  · right
    cases hl : s.evtList with
    | nil => simp [EvtHist.fifo, hgicfFweventRead, hsema, hl, Outcome.took, Fifo.take, Fifo.leave]
    | cons p l => simp [EvtHist.fifo, hgicfFweventRead, hsema, hl, took_copy, Fifo.take, Fifo.leave]

theorem fifo_step {s t : EvtHist} {op : Op} (hs : s.fifo.Ok hgicEventMax) (h : opStep s op = some t) :
    t.fifo.Ok hgicEventMax := by
  cases op with
  | event p =>
    rcases event_fifo h with he | he <;> rw [he]
    · exact hs
    · exact hs.push p
  | read ok =>
    rcases read_fifo h with he | he <;> rw [he]
    · exact hs
    · exact hs.take

/-- The events of a run that are at least as long as the header and are not FWDBG_INFO, in the order of arrival. -/
def acceptedOf (ops : List Op) : List Skb :=
  ops.filterMap fun op => match op with
    | .event p => if accepts p then some p else none
    | .read _ => none

theorem accepted_step {s t : EvtHist} {op : Op} (h : opStep s op = some t) :
    t.accepted = s.accepted ++ acceptedOf [op] := by
  cases op with
  | event p =>
    rw [opStep, Option.some.injEq] at h
    subst h
    by_cases ha : accepts p <;> simp [acceptedOf, ha]
  | read ok =>
    simp only [opStep, Option.some.injEq] at h
    subst h
    simp [acceptedOf]

theorem accepted_run : ∀ {ops : List Op} {s t : EvtHist}, runFrom opStep s ops = some t →
    t.accepted = s.accepted ++ acceptedOf ops
  | [], s, t, h => by
    rw [runFrom_nil, Option.some.injEq] at h
    rw [← h]
    exact (List.append_nil _).symm
  | op :: ops, s, t, h => by
    obtain ⟨u, hu, h⟩ := runFrom_cons_eq_some opStep h
    have happ : acceptedOf (op :: ops) = acceptedOf [op] ++ acceptedOf ops := by
      rw [acceptedOf, acceptedOf, acceptedOf, ← List.filterMap_append]
      rfl
    rw [accepted_run h, accepted_step hu, happ, List.append_assoc]

/-- After every sequence of arrivals and reads: the list holds at most 17 events and is a run of the accepted ones up to
the newest; the events that reads took are accepted ones in the order of arrival, each once; and an event that left
without being read had at least 17 successors. -/
theorem event_list_order {ops : List Op} {s : EvtHist} (hr : runFrom opStep .init ops = some s) :
    s.evtList.length ≤ 17 ∧ s.evtList <:+ acceptedOf ops ∧ s.taken.Sublist (acceptedOf ops) ∧
    (acceptedOf ops).length = s.gone.length + s.evtList.length ∧
    ∀ k p, s.gone[k]? = some (p, false) → (acceptedOf ops)[k]? = some p ∧ k + 17 < (acceptedOf ops).length := by
  have hok : s.fifo.Ok hgicEventMax := reach_invariant opStep (fun _ _ _ => fifo_step) (Fifo.ok_empty _) hr
  have hacc : s.fifo.arrived = acceptedOf ops := (accepted_run hr).trans (List.nil_append _)
  rw [← hacc]
  refine ⟨hok.bound, hok.suffix, hok.taken, ?_, fun k p hk => hok.dropped hk⟩
  rw [hok.order, List.length_append, List.length_map]
  rfl

def evtPacket (id : UInt8) : Skb := ⟨[0x1A, 0x2B, 4, 0, 12, 0, 0, 0, id, 0, 0, 0], []⟩

/-- Nineteen packets arrive, one of them text of the firmware, and two reads follow. -/
def burstRun : List Op := (List.range 19).map (fun i => .event (evtPacket (UInt8.ofNat i))) ++ [.read true, .read true]

theorem event_list_order_burst : ∃ s, runFrom opStep .init burstRun = some s ∧ s.evtList.length = 15 ∧
    s.taken = [evtPacket 1, evtPacket 2] ∧ (acceptedOf burstRun).length = 18 ∧
    s.taken.Sublist (acceptedOf burstRun) ∧ 0 + 17 < (acceptedOf burstRun).length := by
  obtain ⟨s, hr, h⟩ := (Option.any_eq_true _ _).mp (show (runFrom opStep .init burstRun).any (fun s =>
    decide (s.evtList.length = 15 ∧ s.taken = [evtPacket 1, evtPacket 2] ∧ (acceptedOf burstRun).length = 18 ∧
      s.gone[0]? = some (evtPacket 0, false))) = true by decide +kernel)
  obtain ⟨hlen, htaken, hacc, hgone⟩ := of_decide_eq_true h
  have horder := event_list_order hr
  exact ⟨s, hr, hlen, htaken, hacc, horder.2.2.1, (horder.2.2.2.2 0 _ hgone).2⟩

end HgicFmac.Event
