import HgicFmac.Fwctrl.Model
import Mathlib.Tactic.Common

/-!
# What one step of the control channel can do

* `StepCase s a t` : the step inversion. Every enabled action is one of these cases (`step_cases`);
* `CallCase s a t i` : what the step does to call `i` (`StepCase.call`);
* `Listed`, `Queued` : the instructions at which a call's entry is in `pd_list`, and at which its packet
  has been queued;
* `StepCase.txq_cases`, `StepCase.dev_cases`, `StepCase.rx_cases`, `StepCase.handled_cases` : where a packet or a
  response can have come from.
-/

namespace HgicFmac.Fwctrl

/-! ## Calls -/

def Listed : Pc → Bool
  | .toCheck | .toDrop | .toQueue | .waiting | .woken => true
  | _ => false

def Queued : Pc → Bool
  | .waiting | .woken | .toReturn | .returned => true
  | _ => false

@[simp] theorem setCall_call (s : Ctrl) (i j : Nat) (c : Call) :
    (s.setCall i c).call j = if j = i then c else s.call j := by
  simp [Ctrl.setCall, Function.update_apply]

@[simp] theorem setCall_calls (s : Ctrl) (i : Nat) (c : Call) : (s.setCall i c).calls = s.calls := rfl
@[simp] theorem setCall_pdList (s : Ctrl) (i : Nat) (c : Call) : (s.setCall i c).pdList = s.pdList := rfl
@[simp] theorem setCall_txq (s : Ctrl) (i : Nat) (c : Call) : (s.setCall i c).txq = s.txq := rfl
@[simp] theorem setCall_dev (s : Ctrl) (i : Nat) (c : Call) : (s.setCall i c).dev = s.dev := rfl
@[simp] theorem setCall_answered (s : Ctrl) (i : Nat) (c : Call) : (s.setCall i c).answered = s.answered := rfl
@[simp] theorem setCall_dropped (s : Ctrl) (i : Nat) (c : Call) : (s.setCall i c).dropped = s.dropped := rfl

@[simp] theorem goto_pc (c : Call) (pc : Pc) : (c.goto pc).pc = pc := rfl

def newCall (s : Ctrl) (k : Sender) : Call where
  sender := k
  pc := .built
  cookie := match k with
    | .cmd | .bootCmd _ => s.cookie
    | .bootData => s.lastCookie
    | .ota => 0

@[simp] theorem newCall_sender (s : Ctrl) (k : Sender) : (newCall s k).sender = k := rfl
@[simp] theorem newCall_skb (s : Ctrl) (k : Sender) : (newCall s k).skb = none := rfl

/-- The instructions of a call that only move on, or finish its wait: everything but `pc`, `cmpl` and
`out` of the call is unchanged. -/
inductive LocalStep (c : Call) : Call → Prop
  | skip (hk : ∀ b, c.sender ≠ .bootCmd b) (hpc : c.pc = .built) : LocalStep c (c.goto .toAdd)
  | full (hpc : c.pc = .toCheck) : LocalStep c (c.goto .toDrop)
  | room (hpc : c.pc = .toCheck) : LocalStep c (c.goto .toQueue)
  | empty (hpc : c.pc = .toDrop) : LocalStep c (c.goto .toQueue)
  | wake (hpc : c.pc = .waiting) (hd : 0 < c.cmpl) : LocalStep c { c.goto .woken with cmpl := c.cmpl - 1 }
  | timeout (hpc : c.pc = .waiting) : LocalStep c (c.goto .woken)
  | ret (hpc : c.pc = .toReturn) : LocalStep c { c.goto .returned with out := c.skb }

inductive StepCase (s : Ctrl) : Act → Ctrl → Prop
  | start (k : Sender) (cookie drawn : Nat)
      (hc : cookie = if k = .bootData then s.cookie else (s.cookie + 1) % 2 ^ 16 &&& hgicTxCookieMask)
      (hd : drawn = if k = .bootData then s.drawn else s.drawn + 1) :
      StepCase s (.start k)
        { s.setCall s.calls (newCall s k) with cookie := cookie, drawn := drawn, calls := s.calls + 1 }
  | move (i : Nat) (c : Call) (a : Act) (ha : a = .call i ∨ a = .timeout i) (hc : LocalStep (s.call i) c) :
      StepCase s a (s.setCall i c)
  | store (i : Nat) (b : BootCmd) (hk : (s.call i).sender = .bootCmd b) (hpc : (s.call i).pc = .built) :
      StepCase s (.call i)
        ({ s with lastCookie := (s.call i).cookie }.setCall i ((s.call i).goto .toAdd))
  | add (i : Nat) (hpc : (s.call i).pc = .toAdd) :
      StepCase s (.call i)
        ({ s with pdList := i :: s.pdList }.setCall i { (s.call i).goto .toCheck with cmpl := 0 })
  | drop (i : Nat) (p : TxSkb) (txq : List TxSkb) (hpc : (s.call i).pc = .toDrop) (hq : s.txq = p :: txq) :
      StepCase s (.call i)
        ({ s with txq := txq, dropped := p.call :: s.dropped }.setCall i ((s.call i).goto .toQueue))
  | queue (i : Nat) (hpc : (s.call i).pc = .toQueue) :
      StepCase s (.call i) ({ s with txq := s.txq ++ [s.packet i] }.setCall i ((s.call i).goto .waiting))
  | del (i : Nat) (hpc : (s.call i).pc = .woken) :
      StepCase s (.call i)
        ({ s with pdList := s.pdList.erase i }.setCall i ((s.call i).goto .toReturn))
  | sent (p : TxSkb) (txq : List TxSkb) (devLast : Nat) (hq : s.txq = p :: txq) :
      StepCase s (.tx true)
        { s with txq := txq, devLast := devLast
                 dev := s.dev ++ [⟨p, if p.sender = .bootData then s.devLast else p.cookie⟩] }
  | lost (p : TxSkb) (txq : List TxSkb) (hq : s.txq = p :: txq) :
      StepCase s (.tx false) { s with txq := txq, dropped := p.call :: s.dropped }
  | answer (k : Nat) (d : DevSkb) (type : HdrType) (ok : Bool) (hd : s.dev[k]? = some d) :
      StepCase s (.answer k type ok true)
        { s with dev := s.dev.eraseIdx k, answered := d.skb.call :: s.answered
                 rxq := s.rxq ++ [⟨s.nextRx, some d.skb.call, type, d.cookie, ok⟩], nextRx := s.nextRx + 1 }
  | answerLost (k : Nat) (d : DevSkb) (type : HdrType) (ok : Bool) (hd : s.dev[k]? = some d) :
      StepCase s (.answer k type ok false)
        { s with dev := s.dev.eraseIdx k, answered := d.skb.call :: s.answered }
  | inject (type : HdrType) (cookie : Nat) (ok : Bool) :
      StepCase s (.inject type cookie ok true)
        { s with rxq := s.rxq ++ [⟨s.nextRx, none, type, cookie, ok⟩], nextRx := s.nextRx + 1 }
  | injectLost (type : HdrType) (cookie : Nat) (ok : Bool) : StepCase s (.inject type cookie ok false) s
  | deq (r : RxSkb) (rxq : List RxSkb) (hc : s.cur = none) (hq : s.rxq = r :: rxq) :
      StepCase s .deq { s with rxq := rxq, cur := some r }
  | found (r : RxSkb) (i : Nat) (hc : s.cur = some r) (ht : isResponse r.type = true)
      (hi : s.find r.cookie = some i) :
      StepCase s .dispatch
        ({ s with cur := none, handled := r.id :: s.handled }.setCall i
          { s.call i with skb := some r, cmpl := (s.call i).cmpl + 1 })
  | freed (r : RxSkb) (hc : s.cur = some r) (ht : isResponse r.type = true) (hi : s.find r.cookie = none) :
      StepCase s .dispatch
        { s with cur := none, handled := r.id :: s.handled, freed := r.id :: s.freed }
  | other (r : RxSkb) (hc : s.cur = some r) (ht : isResponse r.type = false) :
      StepCase s .dispatch { s with cur := none }

theorem start_case (s : Ctrl) (k : Sender) : StepCase s (.start k) (start s k) := by
  cases k with
  | cmd => exact .start .cmd _ _ rfl rfl
  | bootCmd c => exact .start (.bootCmd c) _ _ rfl rfl
  | bootData => exact .start .bootData _ _ rfl rfl
  | ota => exact .start .ota _ _ rfl rfl

theorem callStep_cases {s t : Ctrl} {i : Nat} (h : callStep s i = some t) : StepCase s (.call i) t := by
  unfold callStep at h
  cases hpc : (s.call i).pc with
  | idle => simp [hpc] at h
  | returned => simp [hpc] at h
  | built =>
    cases hk : (s.call i).sender with
    | bootCmd b =>
      simp only [hpc, hk, Option.some.injEq] at h
      subst h
      exact .store i b hk hpc
    | cmd | bootData | ota =>
      simp only [hpc, hk, Option.some.injEq] at h
      subst h
      exact .move i _ _ (.inl rfl) (.skip (by simp [hk]) hpc)
  | toAdd =>
    simp only [hpc, Option.some.injEq] at h
    subst h
    exact .add i hpc
  | toCheck =>
    simp only [hpc, Option.some.injEq] at h
    subst h
    split_ifs
    · exact .move i _ _ (.inl rfl) (.full hpc)
    · exact .move i _ _ (.inl rfl) (.room hpc)
  | toDrop =>
    simp only [hpc, Option.some.injEq] at h
    subst h
    cases hq : s.txq with
    | nil =>
      have he : { s with txq := [], dropped := s.dropped } = s := by rw [← hq]
      simp only [List.tail_nil, List.head?_nil, Option.map_none, Option.toList_none, List.nil_append, he]
      exact .move i _ _ (.inl rfl) (.empty hpc)
    | cons p txq => exact .drop i p txq hpc hq
  | toQueue =>
    simp only [hpc, Option.some.injEq] at h
    subst h
    exact .queue i hpc
  | waiting =>
    simp only [hpc] at h
    split_ifs at h with hd
    rw [Option.some.injEq] at h
    subst h
    exact .move i _ _ (.inl rfl) (.wake hpc hd)
  | woken =>
    simp only [hpc, Option.some.injEq] at h
    subst h
    exact .del i hpc
  | toReturn =>
    simp only [hpc, Option.some.injEq] at h
    subst h
    exact .move i _ _ (.inl rfl) (.ret hpc)

theorem step_cases {s t : Ctrl} {a : Act} (h : step s a = some t) : StepCase s a t := by
  cases a with
  | start k =>
    simp only [step, Option.some.injEq] at h
    subst h
    exact start_case s k
  | call i => exact callStep_cases h
  | timeout i =>
    simp only [step, timeout] at h
    split_ifs at h with hpc
    rw [Option.some.injEq] at h
    subst h
    exact .move i _ _ (.inr rfl) (.timeout hpc)
  | tx sent =>
    simp only [step, txCtrl] at h
    cases hq : s.txq with
    | nil => simp [hq] at h
    | cons p txq =>
      cases sent with
      | true =>
        simp only [hq, if_true, Option.some.injEq] at h
        subst h
        exact .sent p txq _ hq
      | false =>
        simp only [hq, Bool.false_eq_true, if_false, Option.some.injEq] at h
        subst h
        exact .lost p txq hq
  | answer k type ok alloc =>
    simp only [step, answer] at h
    cases hd : s.dev[k]? with
    | none => simp [hd] at h
    | some d =>
      simp only [hd, Option.some.injEq] at h
      subst h
      cases alloc with
      | true => exact .answer k d type ok hd
      | false => exact .answerLost k d type ok hd
  | inject type cookie ok alloc =>
    simp only [step, Option.some.injEq] at h
    subst h
    cases alloc with
    | true => exact .inject type cookie ok
    | false => exact .injectLost type cookie ok
  | deq =>
    simp only [step, fwctrlDeq] at h
    split at h
    · rename_i r rxq hc hq
      rw [Option.some.injEq] at h
      subst h
      exact .deq r rxq hc hq
    · cases h
  | dispatch =>
    simp only [step, fwctrlDispatch] at h
    cases hc : s.cur with
    | none => simp [hc] at h
    | some r =>
      simp only [hc, Option.some.injEq] at h
      subst h
      cases ht : isResponse r.type with
      | false => simpa [ht] using StepCase.other (s := s) r hc ht
      | true =>
        simp only [if_true, hgicFwctrlRxResponse]
        have hf : ({ s with cur := none } : Ctrl).find r.cookie = s.find r.cookie := rfl
        rw [hf]
        cases hi : s.find r.cookie with
        | none => exact .freed r hc ht hi
        | some i => exact .found r i hc ht hi

/-! ## What a step does to one call -/

structure OwnStep (c c' : Call) : Prop where
  running : c.pc ≠ .idle ∧ c.pc ≠ .returned
  sender : c'.sender = c.sender
  cookie : c'.cookie = c.cookie
  skb : c'.skb = c.skb
  queued : Queued c.pc → Queued c'.pc
  out : c'.out = if c'.pc = .returned then c.skb else c.out

theorem LocalStep.own {c c' : Call} (h : LocalStep c c') : OwnStep c c' := by
  cases h with
  | skip hk hpc => exact ⟨by simp [hpc], rfl, rfl, rfl, by simp [hpc, Queued], rfl⟩
  | full hpc | room hpc | empty hpc => exact ⟨by simp [hpc], rfl, rfl, rfl, by simp [hpc, Queued], rfl⟩
  | wake hpc hd => exact ⟨by simp [hpc], rfl, rfl, rfl, fun _ => rfl, rfl⟩
  | timeout hpc | ret hpc => exact ⟨by simp [hpc], rfl, rfl, rfl, fun _ => rfl, rfl⟩

theorem LocalStep.listed {c c' : Call} (h : LocalStep c c') : Listed c'.pc = Listed c.pc := by
  cases h with
  | skip hk hpc => simp [hpc, Listed]
  | wake hpc hd => simp [hpc, Listed]
  | full hpc | room hpc | empty hpc | timeout hpc | ret hpc => simp [hpc, Listed]

inductive CallCase (s : Ctrl) (a : Act) (t : Ctrl) (i : Nat) : Prop
  | same (he : t.call i = s.call i)
  | new (k : Sender) (ha : a = .start k) (hi : i = s.calls) (hn : t.calls = s.calls + 1)
      (he : t.call i = newCall s k)
  | own (ho : OwnStep (s.call i) (t.call i))
  | response (r : RxSkb) (hc : s.cur = some r) (ht : isResponse r.type = true) (hi : s.find r.cookie = some i)
      (he : t.call i = { s.call i with skb := some r, cmpl := (s.call i).cmpl + 1 }) (ha : a = .dispatch)
      (hh : t.handled = r.id :: s.handled) (hf : t.freed = s.freed)

section Step
variable {s t : Ctrl} {a : Act}

theorem CallCase.setCall {i j : Nat} {c : Call} (ht : t.call = (s.setCall j c).call) (hc : OwnStep (s.call j) c) :
    CallCase s a t i := by
  by_cases hi : i = j
  · subst hi
    refine .own ?_
    rw [ht, setCall_call, if_pos rfl]
    exact hc
  · refine .same ?_
    rw [ht, setCall_call, if_neg hi]

theorem StepCase.call (h : StepCase s a t) (i : Nat) : CallCase s a t i := by
  cases h with
  | start k cookie drawn hc hd =>
    by_cases hi : i = s.calls
    · exact .new k rfl hi rfl (by simp [hi])
    · exact .same (by simp [hi])
  | move j c a ha hc => exact .setCall rfl hc.own
  | store j b hk hpc => exact .setCall rfl ⟨by simp [hpc], rfl, rfl, rfl, by simp [hpc, Queued], rfl⟩
  | add j hpc => exact .setCall rfl ⟨by simp [hpc], rfl, rfl, rfl, by simp [hpc, Queued], rfl⟩
  | drop j p txq hpc hq => exact .setCall rfl ⟨by simp [hpc], rfl, rfl, rfl, by simp [hpc, Queued], rfl⟩
  | queue j hpc => exact .setCall rfl ⟨by simp [hpc], rfl, rfl, rfl, fun _ => rfl, rfl⟩
  | del j hpc => exact .setCall rfl ⟨by simp [hpc], rfl, rfl, rfl, fun _ => rfl, rfl⟩
  | found r j hc ht hj =>
    by_cases hi : i = j
    · exact .response r hc ht (hi ▸ hj) (by simp [hi]) rfl rfl rfl
    · exact .same (by simp [hi])
  | sent | lost | answer | answerLost | inject | injectLost | deq | freed | other => exact .same rfl

theorem StepCase.calls_cases (h : StepCase s a t) {i : Nat} (hi : i < t.calls) :
    i < s.calls ∨ ∃ k, a = .start k ∧ i = s.calls ∧ t.call i = newCall s k := by
  cases h with
  | start k cookie drawn hc hd =>
    rcases Nat.lt_succ_iff_lt_or_eq.mp hi with hi | rfl
    · exact .inl hi
    · exact .inr ⟨k, rfl, rfl, by simp⟩
  | move | store | add | drop | queue | del | sent | lost | answer | answerLost | inject | injectLost | deq | found
  | freed | other => exact .inl hi

/-! ## Where a packet or a response comes from -/

theorem StepCase.txq_cases (h : StepCase s a t) {p : TxSkb} (hp : p ∈ t.txq) :
    p ∈ s.txq ∨ ∃ i, a = .call i ∧ (s.call i).pc = .toQueue ∧ p = s.packet i := by
  cases h with
  | queue i hpc =>
    rcases List.mem_append.mp hp with hp | hp
    · exact .inl hp
    · exact .inr ⟨i, rfl, hpc, List.mem_singleton.mp hp⟩
  | drop i q txq hpc hq =>
    rw [hq]
    exact .inl (List.mem_cons_of_mem q hp)
  | sent q txq devLast hq =>
    rw [hq]
    exact .inl (List.mem_cons_of_mem q hp)
  | lost q txq hq =>
    rw [hq]
    exact .inl (List.mem_cons_of_mem q hp)
  | start | move | store | add | del | found | answer | answerLost | inject | injectLost | deq | freed | other =>
    exact .inl hp

theorem StepCase.dev_cases (h : StepCase s a t) {d : DevSkb} (hd : d ∈ t.dev) :
    d ∈ s.dev ∨ d.skb ∈ s.txq ∧ d.cookie = if d.skb.sender = .bootData then s.devLast else d.skb.cookie := by
  cases h with
  | sent p txq devLast hq =>
    rcases List.mem_append.mp hd with hd | hd
    · exact .inl hd
    · obtain rfl := List.mem_singleton.mp hd
      rw [hq]
      exact .inr ⟨List.mem_cons_self, rfl⟩
  | answer | answerLost => exact .inl (List.mem_of_mem_eraseIdx hd)
  | start | move | store | add | drop | queue | del | found | lost | inject | injectLost | deq | freed | other =>
    exact .inl hd

/-- An undelivered response after the step was there before, or answers a packet at the device, or is forged. -/
theorem StepCase.rx_cases (h : StepCase s a t) {r : RxSkb} (hr : r ∈ t.rxq ∨ t.cur = some r) :
    (r ∈ s.rxq ∨ s.cur = some r) ∨ (r.src = none ∧ ∃ type cookie ok alloc, a = .inject type cookie ok alloc) ∨
      ∃ d ∈ s.dev, r.src = some d.skb.call ∧ r.cookie = d.cookie ∧ d.skb.call ∈ t.answered := by
  cases h with
  | answer k d type ok hd =>
    rcases hr with hr | hr
    · rcases List.mem_append.mp hr with hr | hr
      · exact .inl (.inl hr)
      · obtain rfl := List.mem_singleton.mp hr
        exact .inr (.inr ⟨d, List.mem_of_getElem? hd, rfl, rfl, List.mem_cons_self⟩)
    · exact .inl (.inr hr)
  | inject type cookie ok =>
    rcases hr with hr | hr
    · rcases List.mem_append.mp hr with hr | hr
      · exact .inl (.inl hr)
      · obtain rfl := List.mem_singleton.mp hr
        exact .inr (.inl ⟨rfl, type, cookie, ok, true, rfl⟩)
    · exact .inl (.inr hr)
  | deq q rxq hc hq =>
    rcases hr with hr | hr
    · rw [hq]
      exact .inl (.inl (List.mem_cons_of_mem q hr))
    · obtain rfl := Option.some.inj hr
      rw [hq]
      exact .inl (.inl List.mem_cons_self)
  | found | freed | other =>
    rcases hr with hr | hr
    · exact .inl (.inl hr)
    · cases hr
  | start | move | store | add | drop | queue | del | sent | lost | answerLost | injectLost => exact .inl hr

theorem StepCase.handled_cases (h : StepCase s a t) :
    t.handled = s.handled ∧ t.freed = s.freed ∨
    ∃ r, s.cur = some r ∧ t.handled = r.id :: s.handled ∧
      (t.freed = r.id :: s.freed ∨ t.freed = s.freed ∧ ∃ i, (t.call i).skb = some r) := by
  cases h with
  | found r i hc ht hi => exact .inr ⟨r, hc, rfl, .inr ⟨rfl, i, by simp⟩⟩
  | freed r hc ht hi => exact .inr ⟨r, hc, rfl, .inl rfl⟩
  | start | move | store | add | drop | queue | del | sent | lost | answer | answerLost | inject | injectLost | deq
  | other => exact .inl ⟨rfl, rfl⟩

end Step

end HgicFmac.Fwctrl
