import HgicFmac.Event.Model

/-!
# The semaphore of the event list

An arrival that finds the list full takes the oldest event off it, and leaves the token of that event in the semaphore.

* `Ctx.owes` : the context has moved the list or the semaphore, and not yet the other one;
* `Balance` : the two counts, the dropped events and the reads that found nothing; `balance_step` : no step changes
  the balance;
* `Lossless` : the step neither drops an event nor fails to copy one;
* `sema_counts_events` : between operations the semaphore counts the events, and the reads returned events, exactly if
  all steps so far were lossless.
-/

namespace HgicFmac.Event
open Lib HgicFmac.Core

/-- A token is due for an event that is queued, or an event for a token that is taken. -/
def Ctx.owes : Ctx → Bool
  | .rxUp | .rdEmpty | .rdDeq => true
  | _ => false

def Ctx.packet : Ctx → List Skb
  | .rxLen p | .rxDrop p | .rxQueue p | .rdCopy p => [p]
  | _ => []

/-- The reads that took a token and found no event. -/
def EvtDev.empties (s : EvtDev) : Nat := s.reads.countP (·.outcome = .empty)

/-- The list and the semaphore, for the contexts `cs`. -/
def Balance (s : EvtDev) (cs : List Ctx) : Prop :=
  s.evtList.length + s.dropped.length = s.evtSema + cs.countP Ctx.owes + s.empties

theorem empties_returns (s : EvtDev) (o : Outcome) :
    (s.returns o).empties = s.empties + if o = .empty then 1 else 0 := by
  unfold EvtDev.empties EvtDev.returns
  rw [List.countP_append, List.countP_singleton]
  simp only [decide_eq_true_eq]

theorem copy_ne_empty (p : Skb) (ok : Bool) : Outcome.copy p ok ≠ .empty := by
  cases ok <;> nofun

section Step
variable {s t : EvtDev} {c : Ctx} {cs : List Ctx} {ok : Bool} {a : Act}

theorem balance_access (h : Access s ok c t cs) (pre post : List Ctx) (hb : Balance s (pre ++ [c] ++ post)) :
    Balance t (pre ++ cs ++ post) := by
  simp only [Balance, List.countP_append, List.countP_singleton] at hb ⊢
  cases h with
  | len p => split <;> simpa [Ctx.owes] using hb
  | dropNone p hl => simpa [Ctx.owes] using hb
  | drop p q l hl =>
    simp [Ctx.owes, hl, EvtDev.empties] at hb ⊢
    omega
  | queue p =>
    simp [Ctx.owes, EvtDev.empties] at hb ⊢
    omega
  | up =>
    simp [Ctx.owes, EvtDev.empties] at hb ⊢
    omega
  | down hsema =>
    simp [Ctx.owes, EvtDev.empties] at hb ⊢
    omega
  | timeout hsema =>
    rw [empties_returns]
    simpa [Ctx.owes, EvtDev.returns] using hb
  | empty _ hc hl =>
    rw [empties_returns]
    rcases hc with rfl | rfl <;> simp [Ctx.owes, EvtDev.returns] at hb ⊢ <;> omega
  | test => simpa [Ctx.owes] using hb
  | deq p l hl =>
    simp [Ctx.owes, hl, EvtDev.empties] at hb ⊢
    omega
  | copy p =>
    rw [empties_returns, if_neg (copy_ne_empty p ok)]
    simpa [Ctx.owes, EvtDev.returns] using hb

theorem balance_step (hb : Balance s s.ctxs) (h : step s a = some t) : Balance t t.ctxs := by
  cases a with
  | event p =>
    rw [step, Option.some.injEq] at h
    subst h
    simp only [Balance, List.countP_append] at hb ⊢
    split <;> simpa [Ctx.owes, EvtDev.empties] using hb
  | read =>
    rw [step, Option.some.injEq] at h
    subst h
    simpa [Balance, Ctx.owes, EvtDev.empties] using hb
  | run i ok =>
    obtain ⟨c, post, u, cs, hsplit, -, hacc, rfl⟩ := run_cases h
    rw [hsplit] at hb
    exact balance_access hacc _ post hb

/-! ## What holds in every state -/

def Read.Ok (r : Read) : Prop :=
  match r.outcome with
  | .timeout => r.sema = 0
  | .event p => 0 < p.data.length
  | _ => True

structure EvtInv (s : EvtDev) (cs : List Ctx) : Prop where
  balance : Balance s cs
  packets : ∀ p, p ∈ s.evtList ∨ p ∈ cs.flatMap Ctx.packet → 0 < p.data.length
  reads : ∀ r ∈ s.reads, r.Ok
  /-- No token is without its event as long as no event was dropped. -/
  empties : s.dropped = [] → s.empties = 0

theorem evtInv_init : EvtInv .init [] where
  balance := rfl
  packets p hp := by
    rcases hp with hp | hp
    · exact absurd hp List.not_mem_nil
    · exact absurd hp List.not_mem_nil
  reads := nofun
  empties _ := rfl

theorem reads_returns {o : Outcome} (hs : ∀ r ∈ s.reads, r.Ok) (ho : Read.Ok ⟨o, s.evtSema⟩) :
    ∀ r ∈ (s.returns o).reads, r.Ok := by
  intro r hr
  rcases List.mem_append.mp hr with hr | hr
  · exact hs r hr
  · rw [List.mem_singleton.mp hr]
    exact ho

theorem packets_access (h : Access s ok c t cs) {p : Skb} (hp : p ∈ t.evtList ∨ p ∈ cs.flatMap Ctx.packet) :
    p ∈ s.evtList ∨ p ∈ c.packet := by
  cases h with
  | len q => split at hp <;> simpa [Ctx.packet] using hp
  | dropNone q hl => simpa [Ctx.packet] using hp
  | drop q r l hl =>
    rw [hl]
    rcases hp with hp | hp
    · exact .inl (List.mem_cons_of_mem _ hp)
    · exact .inr (by simpa [Ctx.packet] using hp)
  | queue q => simpa [Ctx.packet] using hp
  | up | down | test => simpa [Ctx.packet] using hp
  | timeout | empty | copy => exact .inl (by simpa [EvtDev.returns] using hp)
  | deq q l hl =>
    rw [hl]
    refine .inl (List.mem_cons.mpr ?_)
    rcases hp with hp | hp
    · exact .inr hp
    · exact .inl (by simpa [Ctx.packet] using hp)

theorem reads_access (h : Access s ok c t cs) (hc : ∀ p ∈ c.packet, 0 < p.data.length) (hs : ∀ r ∈ s.reads, r.Ok) :
    ∀ r ∈ t.reads, r.Ok := by
  cases h with
  | len | dropNone | drop | queue | up | down | test | deq => exact hs
  | timeout hsema => exact reads_returns hs hsema
  | empty => exact reads_returns hs trivial
  | copy p =>
    apply reads_returns hs
    cases ok with
    | false => exact trivial
    | true => exact hc p List.mem_cons_self

/-- The token of a read that has not dequeued has its event in the list, as long as no event was dropped. -/
theorem empties_access {pre post : List Ctx} (h : Access s ok c t cs) (hb : Balance s (pre ++ [c] ++ post))
    (hs : s.dropped = [] → s.empties = 0) (hd : t.dropped = []) : t.empties = 0 := by
  cases h with
  | len | dropNone | queue | up | down | test | deq => exact hs hd
  | drop p q l hl => exact absurd hd (by simp)
  | timeout hsema =>
    rw [empties_returns, if_neg nofun]
    exact hs hd
  | empty _ hc hl =>
    have hd' : s.dropped = [] := hd
    have howes : c.owes = true := by rcases hc with rfl | rfl <;> rfl
    rw [Balance, hl, hd', hs hd', List.countP_append, List.countP_append, List.countP_singleton, if_pos howes] at hb
    simp only [List.length_nil] at hb
    omega
  | copy p =>
    rw [empties_returns, if_neg (copy_ne_empty p ok)]
    exact hs hd

theorem evtInv_access {pre post : List Ctx} (hi : EvtInv s (pre ++ [c] ++ post)) (h : Access s ok c t cs) :
    EvtInv t (pre ++ cs ++ post) := by
  have hc : ∀ p, p ∈ s.evtList ∨ p ∈ c.packet → 0 < p.data.length := by
    intro p hp
    refine hi.packets p (hp.imp_right fun hp => ?_)
    simp [hp]
  refine ⟨balance_access h pre post hi.balance, fun p hp => ?_, reads_access h (fun p hp => hc p (.inr hp)) hi.reads,
    empties_access h hi.balance hi.empties⟩
  simp only [List.flatMap_append, List.mem_append] at hp
  rcases hp with hp | (hp | hp) | hp
  · exact hc p (packets_access h (.inl hp))
  · exact hi.packets p (.inr (by simp only [List.flatMap_append, List.mem_append, hp, true_or]))
  · exact hc p (packets_access h (.inr hp))
  · exact hi.packets p (.inr (by simp only [List.flatMap_append, List.mem_append, hp, or_true]))

theorem evtInv_step (hi : EvtInv s s.ctxs) (h : step s a = some t) : EvtInv t t.ctxs := by
  have hb := balance_step hi.balance h
  cases a with
  | event p =>
    rw [step, Option.some.injEq] at h
    subst h
    refine ⟨hb, fun x hx => ?_, hi.reads, hi.empties⟩
    rw [List.flatMap_append, List.mem_append] at hx
    by_cases ha : accepts p
    · rw [if_pos ha] at hx
      have hlen : ctrlHdrSize ≤ p.data.length := by simpa using (Bool.and_eq_true_iff.mp ha).1
      rcases hx with hx | hx | hx
      · exact hi.packets x (.inl hx)
      · exact hi.packets x (.inr hx)
      · rw [show x = p by simpa [Ctx.packet] using hx]
        exact Nat.lt_of_lt_of_le (by decide) hlen
    · rw [if_neg ha] at hx
      exact hi.packets x (by simpa using hx)
  | read =>
    rw [step, Option.some.injEq] at h
    subst h
    refine ⟨hb, fun x hx => hi.packets x ?_, hi.reads, hi.empties⟩
    simpa [Ctx.packet] using hx
  | run i ok =>
    obtain ⟨c, post, u, cs, hsplit, -, hacc, rfl⟩ := run_cases h
    rw [hsplit] at hi
    have hu := evtInv_access hi hacc
    exact ⟨hu.balance, hu.packets, hu.reads, hu.empties⟩

/-! ## Lost events -/

/-- An arrival drops nothing, because readers have emptied the list since its length was found to be above the limit,
and a read succeeds in copying its event. -/
def LosslessAt (s : EvtDev) (ok : Bool) : Option Ctx → Prop
  | some (.rxDrop _) => s.evtList = []
  | some (.rdCopy _) => ok = true
  | _ => True

def Lossless (s : EvtDev) : Act → Prop
  | .run i ok => LosslessAt s ok (s.ctxs.drop i).head?
  | _ => True

instance (s : EvtDev) (ok : Bool) : (c : Option Ctx) → Decidable (LosslessAt s ok c)
  | some (.rxDrop _) => inferInstanceAs (Decidable (s.evtList = []))
  | some (.rdCopy _) => inferInstanceAs (Decidable (ok = true))
  | none | some (.rxLen _) | some (.rxQueue _) | some .rxUp | some .rdDown | some .rdEmpty | some .rdDeq =>
    isTrue trivial

instance (s : EvtDev) : (a : Act) → Decidable (Lossless s a)
  | .run i ok => inferInstanceAs (Decidable (LosslessAt s ok (s.ctxs.drop i).head?))
  | .event _ | .read => isTrue trivial

def Lost (s : EvtDev) : Prop := s.dropped ≠ [] ∨ ∃ r ∈ s.reads, ∃ p, r.outcome = .fault p

theorem lost_returns (o : Outcome) : Lost (s.returns o) ↔ Lost s ∨ ∃ p, o = .fault p := by
  simp only [Lost, EvtDev.returns, List.mem_append, List.mem_singleton, or_and_right, exists_or, exists_eq_left, or_assoc]

theorem copy_eq_fault (p : Skb) : (∃ q, Outcome.copy p ok = .fault q) ↔ ok ≠ true := by
  cases ok with
  | false => simp [Outcome.copy]
  | true => simp [Outcome.copy]

theorem lost_access (h : Access s ok c t cs) : Lost t ↔ Lost s ∨ ¬ LosslessAt s ok (some c) := by
  cases h with
  | len | queue | up | down | test | deq => simp [LosslessAt, Lost]
  | dropNone p hl => simp [LosslessAt, hl]
  | drop p q l hl => simp [LosslessAt, Lost, hl]
  | timeout hsema => simp [lost_returns, LosslessAt]
  | empty _ hc hl => rcases hc with rfl | rfl <;> simp [lost_returns, LosslessAt]
  | copy p => rw [lost_returns, copy_eq_fault]; rfl

theorem lost_step (h : step s a = some t) : Lost t ↔ Lost s ∨ ¬ Lossless s a := by
  cases a with
  | event p =>
    rw [step, Option.some.injEq] at h
    subst h
    simp [Lost, Lossless]
  | read =>
    rw [step, Option.some.injEq] at h
    subst h
    simp [Lost, Lossless]
  | run i ok =>
    obtain ⟨c, post, u, cs, -, hhead, hacc, rfl⟩ := run_cases h
    rw [Lossless, hhead]
    show Lost u ↔ _
    exact lost_access hacc

end Step

/-- The semaphore counts the events of the list, every read that took a token has returned an event, and none returned
0 while there was a token. -/
def Counted (s : EvtDev) : Prop :=
  s.evtSema = s.evtList.length ∧
    ∀ r ∈ s.reads, (r.outcome ≠ .timeout → 0 < r.outcome.ret) ∧ (r.outcome.ret = 0 → r.sema = 0)

instance (s : EvtDev) : Decidable (Counted s) := inferInstanceAs (Decidable (_ ∧ _))

theorem counted_iff {s : EvtDev} (hi : EvtInv s []) : Counted s ↔ ¬ Lost s := by
  have hb := hi.balance
  rw [Balance, List.countP_nil, Nat.add_zero] at hb
  constructor
  · rintro ⟨hsema, hreads⟩ (hd | ⟨r, hr, p, ho⟩)
    · -- the token of a dropped event is still there, or a read has taken it and found nothing
      have hempty : s.empties = 0 := by
        rw [EvtDev.empties, List.countP_eq_zero]
        intro r hr ho
        have hpos := (hreads r hr).1
        rw [of_decide_eq_true ho] at hpos
        exact absurd (hpos nofun) (Nat.lt_irrefl 0)
      have hpos := List.length_pos_iff.mpr hd
      omega
    · have hpos := (hreads r hr).1
      rw [ho] at hpos
      exact absurd (hpos nofun) (Nat.lt_irrefl 0)
  · intro hl
    obtain ⟨hd, hf⟩ := not_or.mp hl
    have hd := not_not.mp hd
    have hempty := hi.empties hd
    rw [hd, hempty, List.length_nil, Nat.add_zero, Nat.add_zero] at hb
    refine ⟨hb.symm, fun r hr => ?_⟩
    have hok := hi.reads r hr
    rw [Read.Ok] at hok
    cases ho : r.outcome with
    | timeout =>
      rw [ho] at hok
      exact ⟨fun h => absurd rfl h, fun _ => hok⟩
    | empty =>
      rw [EvtDev.empties, List.countP_eq_zero] at hempty
      exact absurd (decide_eq_true ho) (hempty r hr)
    | fault p => exact absurd ⟨r, hr, p, ho⟩ hf
    | event p =>
      rw [ho] at hok
      exact ⟨fun _ => hok, fun h => absurd h (Nat.ne_of_gt hok)⟩

/-- In every interleaving of arrivals and reads that ends between operations, the semaphore counts the events and
reads that took a token returned events, exactly if no arrival took an event off the list and no copy to the reader
failed. -/
theorem sema_counts_events {as : List Act} {s : EvtDev} (hr : runFrom step .init as = some s) (hidle : s.ctxs = []) :
    Counted s ↔ Steps step Lossless .init as := by
  have hinit : ¬ Lost .init := by simp [Lost, EvtDev.init]
  have hi : EvtInv s s.ctxs := reach_invariant step (fun _ _ _ => evtInv_step) evtInv_init hr
  rw [counted_iff (hidle ▸ hi)]
  refine run_defect_iff step (fun _ _ _ (_ : True) _ => trivial) ?_ ?_ ?_ trivial hinit hr
  · intro u a v _ hu h
    exact (lost_step h).mpr (.inl hu)
  · intro u a v _ hp h
    exact (lost_step h).mpr (.inr hp)
  · intro u a v _ hu hp h hv
    exact ((lost_step h).mp hv).elim hu fun hn => hn hp

def stateChg : Skb := ⟨[0x1A, 0x2B, 4, 0, 12, 0, 0, 0, 1, 0, 0, 0], []⟩

/-- An arrival that finds the list below the limit, and a read. -/
def arrival : List Act := [.event stateChg, .run 0 true, .run 0 true, .run 0 true]
def oneRead : List Act := [.read, .run 0 true, .run 0 true, .run 0 true, .run 0 true]

theorem sema_counts_events_twoArrivals :
    ∃ s, runFrom step .init (arrival ++ arrival ++ oneRead) = some s ∧ s.ctxs = [] ∧ s.reads.length = 1 ∧ Counted s := by
  obtain ⟨s, hr, hidle, hlen⟩ : ∃ s, runFrom step .init (arrival ++ arrival ++ oneRead) = some s ∧ s.ctxs = [] ∧
    s.reads.length = 1 := ⟨_, rfl, rfl, rfl⟩
  exact ⟨s, hr, hidle, hlen, (sema_counts_events hr hidle).mpr (by decide +kernel)⟩

/-- Seventeen events wait, and one more arrives. -/
def overflowRun : List Act := (List.replicate 17 arrival).flatten ++ arrival ++ [.run 0 true]

/-- The 17 events are read, and one more read follows. -/
def drainRun : List Act := (List.replicate 17 oneRead).flatten ++ [.read, .run 0 true, .run 0 true]

/-- The semaphore then has 18 tokens for 17 events, and the 18th read returns 0 although it took a token. -/
theorem sema_exceeds_events :
    (∃ s, runFrom step .init overflowRun = some s ∧ s.ctxs = [] ∧ s.evtSema = 18 ∧ s.evtList.length = 17 ∧
      ¬ Counted s) ∧
    ∃ s, runFrom step .init (overflowRun ++ drainRun) = some s ∧ s.ctxs = [] ∧ ⟨.empty, 0⟩ ∈ s.reads ∧
      ¬ Counted s := by
  have hover : (runFrom step .init overflowRun).any (fun s => decide (s.ctxs = [] ∧ s.evtSema = 18 ∧
    s.evtList.length = 17 ∧ ¬ Counted s)) = true := by decide +kernel
  have hdrain : (runFrom step .init (overflowRun ++ drainRun)).any (fun s => decide (s.ctxs = [] ∧
    ⟨.empty, 0⟩ ∈ s.reads ∧ ¬ Counted s)) = true := by decide +kernel
  obtain ⟨s, hs, h⟩ := (Option.any_eq_true _ _).mp hover
  obtain ⟨t, ht, h'⟩ := (Option.any_eq_true _ _).mp hdrain
  exact ⟨⟨s, hs, of_decide_eq_true h⟩, ⟨t, ht, of_decide_eq_true h'⟩⟩

end HgicFmac.Event
