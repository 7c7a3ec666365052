import HgicFmac.Core.Frame
import HgicFmac.Lib.Run

/-!
# Firmware events: `hgicf_rx_fw_event` and `hgicf_fwevent_read`

The events wait in `evt_list` for a reader of the proc file `fwevnt`; `evt_sema` counts them a second time. Arrivals and
reads run concurrently, and the list and the semaphore are locked only for a single access.

* `accepts` : the packet is queued, and not freed or printed;
* `hgicfRxFwEvent`, `hgicfFweventRead` : an arrival and a read without interruption;
* `Ctx`, `runCtx` : an arrival or a read at its next access, and the access;
* `EvtDev`, `Act`, `step` : any number of both, with the dropped events and the results of the reads as history;
* `Access` : all that one access can do (`runCtx_cases`);
* `rxFwEvent_alone`, `fweventRead_alone` : a context that nothing interrupts computes the function.
-/

namespace HgicFmac.Event
open Lib HgicFmac.Core

def hgicEventMax : Nat := 16

def hgicEventFwdbgInfo : Nat := 18

def ctrlHdrSize : Nat := 12

def hdrEvtid (p : Skb) : Nat :=
  if p.type = HdrType.event2.byte then loadLe16 p.mem 8 else (p.mem 8).toNat

/-- The packet has a header and is not text of the firmware, which is printed. -/
def accepts (p : Skb) : Bool := ctrlHdrSize ≤ p.data.length && hdrEvtid p ≠ hgicEventFwdbgInfo

/-! ## Uninterrupted -/

/-- `evt_list` and the count of `evt_sema`. -/
structure Evt where
  evtList : List Skb
  evtSema : Nat
  deriving DecidableEq, Repr

/-- The state that `hgicf_core_probe` leaves. -/
def Evt.init : Evt := ⟨[], 0⟩

def hgicfRxFwEvent (s : Evt) (p : Skb) : Evt :=
  if accepts p then
    let evtList := if hgicEventMax < s.evtList.length then s.evtList.tail else s.evtList
    ⟨evtList ++ [p], s.evtSema + 1⟩
  else s

/-- How a read ends: `down_timeout` gives up, the list is empty, `copy_to_user` fails, or an event is copied. -/
inductive Outcome
  | timeout | empty
  | fault (p : Skb)
  | event (p : Skb)
  deriving DecidableEq, Repr

def Outcome.ret : Outcome → Nat
  | .event p => p.data.length
  | _ => 0

/-- The number of bytes that `copy_to_user` is asked for, whatever the caller's `count` is. -/
def Outcome.copied : Outcome → Nat
  | .event p => p.data.length
  | .fault p => p.data.length
  | _ => 0

/-- `ok` is the success of `copy_to_user`; the event is freed either way. -/
def Outcome.copy (p : Skb) (ok : Bool) : Outcome := if ok then .event p else .fault p

/-- `down_timeout` gives up only if no token is there for 100 ms. -/
def hgicfFweventRead (s : Evt) (ok : Bool) : Outcome × Evt :=
  if s.evtSema = 0 then (.timeout, s)
  else match s.evtList with
    | [] => (.empty, { s with evtSema := s.evtSema - 1 })
    | p :: evtList => (.copy p ok, ⟨evtList, s.evtSema - 1⟩)

/-! ## Interleaved -/

/-- The next access of an arrival or of a read. -/
inductive Ctx
  /-- `hgicf_rx_fw_event`: `skb_queue_len`, `skb_dequeue` of the oldest event, `skb_queue_tail`, `up`. -/
  | rxLen (p : Skb)
  | rxDrop (p : Skb)
  | rxQueue (p : Skb)
  | rxUp
  /-- `hgicf_fwevent_read`: `down_timeout`, `skb_queue_empty`, `skb_dequeue`, `copy_to_user`. -/
  | rdDown
  | rdEmpty
  | rdDeq
  | rdCopy (p : Skb)
  deriving DecidableEq, Repr

/-- A read that has returned, with the count of the semaphore at that moment. -/
structure Read where
  outcome : Outcome
  sema : Nat
  deriving DecidableEq, Repr

structure EvtDev extends Evt where
  ctxs : List Ctx
  dropped : List Skb
  reads : List Read
  deriving DecidableEq, Repr

def EvtDev.init : EvtDev := ⟨.init, [], [], []⟩

def EvtDev.returns (s : EvtDev) (o : Outcome) : EvtDev := { s with reads := s.reads ++ [⟨o, s.evtSema⟩] }

/-- One access of a context: the state and what is left of the context. `ok` is the outcome that the driver does not
decide: a token before the timeout, or the success of `copy_to_user`. -/
def runCtx (s : EvtDev) (ok : Bool) : Ctx → Option (EvtDev × List Ctx)
  | .rxLen p => some (s, if hgicEventMax < s.evtList.length then [.rxDrop p] else [.rxQueue p])
  | .rxDrop p => some ({ s with evtList := s.evtList.tail, dropped := s.dropped ++ s.evtList.head?.toList }, [.rxQueue p])
  | .rxQueue p => some ({ s with evtList := s.evtList ++ [p] }, [.rxUp])
  | .rxUp => some ({ s with evtSema := s.evtSema + 1 }, [])
  | .rdDown =>
    -- the timeout runs out only while there is no token
    if 0 < s.evtSema then if ok then some ({ s with evtSema := s.evtSema - 1 }, [.rdEmpty]) else none
    else if ok then none else some (s.returns .timeout, [])
  | .rdEmpty => some (if s.evtList.isEmpty then (s.returns .empty, []) else (s, [.rdDeq]))
  | .rdDeq => match s.evtList with
    | [] => some (s.returns .empty, [])
    | p :: evtList => some ({ s with evtList := evtList }, [.rdCopy p])
  | .rdCopy p => some (s.returns (.copy p ok), [])

inductive Act
  | event (p : Skb)
  | read
  | run (i : Nat) (ok : Bool)
  deriving DecidableEq, Repr

def step (s : EvtDev) : Act → Option EvtDev
  | .event p => some { s with ctxs := s.ctxs ++ if accepts p then [.rxLen p] else [] }
  | .read => some { s with ctxs := s.ctxs ++ [.rdDown] }
  | .run i ok => match s.ctxs.drop i with
    | [] => none
    | c :: post => (runCtx s ok c).map fun r => { r.1 with ctxs := s.ctxs.take i ++ r.2 ++ post }

/-- What one access of a context does. -/
inductive Access (s : EvtDev) (ok : Bool) : Ctx → EvtDev → List Ctx → Prop
  | len (p : Skb) : Access s ok (.rxLen p) s (if hgicEventMax < s.evtList.length then [.rxDrop p] else [.rxQueue p])
  /-- The readers have emptied the list since its length was read. -/
  | dropNone (p : Skb) (hl : s.evtList = []) : Access s ok (.rxDrop p) s [.rxQueue p]
  | drop (p q : Skb) (l : List Skb) (hl : s.evtList = q :: l) :
    Access s ok (.rxDrop p) { s with evtList := l, dropped := s.dropped ++ [q] } [.rxQueue p]
  | queue (p : Skb) : Access s ok (.rxQueue p) { s with evtList := s.evtList ++ [p] } [.rxUp]
  | up : Access s ok .rxUp { s with evtSema := s.evtSema + 1 } []
  | down (hsema : 0 < s.evtSema) : Access s ok .rdDown { s with evtSema := s.evtSema - 1 } [.rdEmpty]
  | timeout (hsema : s.evtSema = 0) : Access s ok .rdDown (s.returns .timeout) []
  | empty (c : Ctx) (hc : c = .rdEmpty ∨ c = .rdDeq) (hl : s.evtList = []) : Access s ok c (s.returns .empty) []
  | test : Access s ok .rdEmpty s [.rdDeq]
  | deq (p : Skb) (l : List Skb) (hl : s.evtList = p :: l) : Access s ok .rdDeq { s with evtList := l } [.rdCopy p]
  | copy (p : Skb) : Access s ok (.rdCopy p) (s.returns (.copy p ok)) []

theorem runCtx_cases {s t : EvtDev} {ok : Bool} {c : Ctx} {cs : List Ctx} (h : runCtx s ok c = some (t, cs)) :
    Access s ok c t cs := by
  cases c with
  | rxLen p =>
    rw [runCtx, Option.some.injEq, Prod.mk.injEq] at h
    obtain ⟨rfl, rfl⟩ := h
    exact .len p
  | rxDrop p =>
    rw [runCtx, Option.some.injEq, Prod.mk.injEq] at h
    obtain ⟨rfl, rfl⟩ := h
    cases hl : s.evtList with
    | nil =>
      have hs : { s with evtList := [], dropped := s.dropped } = s := by rw [← hl]
      simp only [List.tail_nil, List.head?_nil, Option.toList_none, List.append_nil]
      exact hs.symm ▸ .dropNone p hl
    | cons q l => exact .drop p q l hl
  | rxQueue p =>
    rw [runCtx, Option.some.injEq, Prod.mk.injEq] at h
    obtain ⟨rfl, rfl⟩ := h
    exact .queue p
  | rxUp =>
    rw [runCtx, Option.some.injEq, Prod.mk.injEq] at h
    obtain ⟨rfl, rfl⟩ := h
    exact .up
  | rdDown =>
    simp only [runCtx] at h
    split at h <;> split at h
    · next hsema _ =>
      rw [Option.some.injEq, Prod.mk.injEq] at h
      obtain ⟨rfl, rfl⟩ := h
      exact .down hsema
    · cases h
    · cases h
    · next hsema _ =>
      rw [Option.some.injEq, Prod.mk.injEq] at h
      obtain ⟨rfl, rfl⟩ := h
      exact .timeout (Nat.eq_zero_of_not_pos hsema)
  | rdEmpty =>
    rw [runCtx, Option.some.injEq] at h
    split at h <;> rw [Prod.mk.injEq] at h <;> obtain ⟨rfl, rfl⟩ := h
    · next hl => exact .empty _ (.inl rfl) (List.isEmpty_iff.mp hl)
    · exact .test
  | rdDeq =>
    rw [runCtx] at h
    split at h <;> rw [Option.some.injEq, Prod.mk.injEq] at h <;> obtain ⟨rfl, rfl⟩ := h
    · next hl => exact .empty _ (.inr rfl) hl
    · next p l hl => exact .deq p l hl
  | rdCopy p =>
    rw [runCtx, Option.some.injEq, Prod.mk.injEq] at h
    obtain ⟨rfl, rfl⟩ := h
    exact .copy p

/-- The `i`-th context makes one access, and what is left of it takes its place. -/
theorem run_cases {s t : EvtDev} {i : Nat} {ok : Bool} (h : step s (.run i ok) = some t) :
    ∃ c post u cs, s.ctxs = s.ctxs.take i ++ [c] ++ post ∧ (s.ctxs.drop i).head? = some c ∧
      Access s ok c u cs ∧ t = { u with ctxs := s.ctxs.take i ++ cs ++ post } := by
  simp only [step] at h
  split at h
  · cases h
  · next c post hdrop =>
    obtain ⟨⟨u, cs⟩, hrun, rfl⟩ := Option.map_eq_some_iff.mp h
    refine ⟨c, post, u, cs, ?_, by rw [hdrop]; rfl, runCtx_cases hrun, rfl⟩
    rw [List.append_assoc, List.singleton_append, ← hdrop, List.take_append_drop]

/-! ## The two agree -/

/-- What a context leaves: the list and the semaphore, the other contexts, and the results of the reads. -/
def EvtDev.view (s : EvtDev) : Evt × List Ctx × List Outcome := (s.toEvt, s.ctxs, s.reads.map (·.outcome))

theorem rxFwEvent_alone (s : EvtDev) (hs : s.ctxs = []) (p : Skb) :
    ∃ as, (runFrom step s (.event p :: as)).map EvtDev.view =
      some (hgicfRxFwEvent s.toEvt p, [], s.reads.map (·.outcome)) := by
  by_cases ha : accepts p
  · by_cases hlen : hgicEventMax < s.evtList.length
    · refine ⟨[.run 0 true, .run 0 true, .run 0 true, .run 0 true], ?_⟩
      simp [runFrom_cons, step, ha, hs, runCtx, hlen, hgicfRxFwEvent, EvtDev.view]
    · refine ⟨[.run 0 true, .run 0 true, .run 0 true], ?_⟩
      simp [runFrom_cons, step, ha, hs, runCtx, hlen, hgicfRxFwEvent, EvtDev.view]
  · refine ⟨[], ?_⟩
    simp [runFrom_cons, step, ha, hs, hgicfRxFwEvent, EvtDev.view]

theorem fweventRead_alone (s : EvtDev) (hs : s.ctxs = []) (ok : Bool) :
    ∃ as, (runFrom step s (.read :: as)).map EvtDev.view =
      some ((hgicfFweventRead s.toEvt ok).2, [], s.reads.map (·.outcome) ++ [(hgicfFweventRead s.toEvt ok).1]) := by
  by_cases hsema : s.evtSema = 0
  · refine ⟨[.run 0 false], ?_⟩
    simp [runFrom_cons, step, hs, runCtx, hsema, hgicfFweventRead, EvtDev.view, EvtDev.returns]
  · cases hl : s.evtList with
    | nil =>
      refine ⟨[.run 0 true, .run 0 true], ?_⟩
      simp [runFrom_cons, step, hs, runCtx, hsema, hl, hgicfFweventRead, EvtDev.view, EvtDev.returns,
        Nat.pos_of_ne_zero hsema]
    | cons p evtList =>
      refine ⟨[.run 0 true, .run 0 true, .run 0 true, .run 0 ok], ?_⟩
      simp [runFrom_cons, step, hs, runCtx, hsema, hl, hgicfFweventRead, EvtDev.view, EvtDev.returns,
        Nat.pos_of_ne_zero hsema]

end HgicFmac.Event
