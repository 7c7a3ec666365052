import HgicFmac.Fwctrl.Step
import Mathlib.Data.List.Nodup
import Mathlib.Data.List.Perm.Basic

/-!
# The invariant of the control channel

`Wf` holds in every state of every run, whatever the senders and the device do:

* the entries of `pd_list` are those of the calls between `list_add` and `list_del`;
* the packet of a call is in one place: `txq`, the device, answered or dropped (`Ctrl.places`);
* a packet carries the cookie of its call, and an answer echoes the cookie of the packet (`Wf.echo`).
-/

namespace HgicFmac.Fwctrl

/-- The calls whose packet has been queued, by where the packet is. -/
def Ctrl.places (s : Ctrl) : List Nat :=
  s.txq.map TxSkb.call ++ (s.dev.map (fun d => d.skb.call) ++ (s.answered ++ s.dropped))

/-- The received packet is in the channel or in the frame of a call. -/
def Ctrl.Holds (s : Ctrl) (r : RxSkb) : Prop := r ∈ s.rxq ∨ s.cur = some r ∨ ∃ i, (s.call i).skb = some r

structure Wf (s : Ctrl) : Prop where
  fresh : ∀ i, s.calls ≤ i → s.call i = {}
  nodup : s.pdList.Nodup
  listed : ∀ i, i ∈ s.pdList ↔ Listed (s.call i).pc
  out : ∀ i, (s.call i).out = if (s.call i).pc = .returned then (s.call i).skb else none
  txq : ∀ p ∈ s.txq, p = s.packet p.call
  dev : ∀ d ∈ s.dev, d.skb = s.packet d.skb.call ∧ (d.skb.sender ≠ .bootData → d.cookie = d.skb.cookie)
  places : s.places.Nodup
  queued : ∀ i ∈ s.places, Queued (s.call i).pc
  echo : ∀ r i, s.Holds r → r.src = some i →
    i ∈ s.answered ∧ ((s.call i).sender ≠ .bootData → r.cookie = (s.call i).cookie)

theorem wf_init : Wf hgicFwctrlInit where
  fresh _ _ := rfl
  nodup := List.nodup_nil
  listed i := by simp [hgicFwctrlInit, Listed]
  out i := by simp [hgicFwctrlInit]
  txq p hp := by simp [hgicFwctrlInit] at hp
  dev d hd := by simp [hgicFwctrlInit] at hd
  places := by simp [hgicFwctrlInit, Ctrl.places]
  queued i hi := by simp [hgicFwctrlInit, Ctrl.places] at hi
  echo r i hr := by simp [hgicFwctrlInit, Ctrl.Holds] at hr

section Step
variable {s t : Ctrl} {a : Act}

theorem Wf.lt (hw : Wf s) {i : Nat} (h : (s.call i).pc ≠ .idle) : i < s.calls := by
  by_contra hlt
  exact h (by rw [hw.fresh i (by omega)])

/-- A call whose packet is in a place existed before the step. -/
theorem Wf.lt_of_places (hw : Wf s) {i : Nat} (hi : i ∈ s.places) : i < s.calls := by
  apply hw.lt
  have := hw.queued i hi
  intro hpc
  simp [hpc, Queued] at this

theorem Wf.txq_lt (hw : Wf s) {p : TxSkb} (hp : p ∈ s.txq) : p.call < s.calls :=
  hw.lt_of_places (List.mem_append_left _ (List.mem_map_of_mem hp))

theorem Wf.dev_lt (hw : Wf s) {d : DevSkb} (hd : d ∈ s.dev) : d.skb.call < s.calls :=
  hw.lt_of_places (List.mem_append_right _ (List.mem_append_left _ (List.mem_map_of_mem (f := fun d => d.skb.call) hd)))

theorem Wf.answered_lt (hw : Wf s) {i : Nat} (hi : i ∈ s.answered) : i < s.calls :=
  hw.lt_of_places (List.mem_append_right _ (List.mem_append_right _ (List.mem_append_left _ hi)))

theorem Wf.pdList_lt (hw : Wf s) {i : Nat} (hi : i ∈ s.pdList) : i < s.calls := by
  apply hw.lt
  have := (hw.listed i).mp hi
  intro hpc
  simp [hpc, Listed] at this

theorem Wf.listed_not_returned (hw : Wf s) {i : Nat} (hi : i ∈ s.pdList) : (s.call i).pc ≠ .returned := by
  have := (hw.listed i).mp hi
  intro hpc
  simp [hpc, Listed] at this

theorem find_mem {cookie i : Nat} (h : s.find cookie = some i) : i ∈ s.pdList := List.mem_of_find?_eq_some h

theorem find_cookie {cookie i : Nat} (h : s.find cookie = some i) : (s.call i).cookie = cookie := by
  simpa using List.find?_some h

/-! ## The calls -/

theorem StepCase.frame (h : StepCase s a t) {i : Nat} (hi : i < s.calls) :
    (t.call i).sender = (s.call i).sender ∧ (t.call i).cookie = (s.call i).cookie := by
  cases h.call i with
  | same he =>
    rw [he]
    exact ⟨rfl, rfl⟩
  | new k ha he => omega
  | own ho => exact ⟨ho.sender, ho.cookie⟩
  | response r hc ht hf he =>
    rw [he]
    exact ⟨rfl, rfl⟩

theorem StepCase.calls_le (h : StepCase s a t) : s.calls ≤ t.calls := by
  cases h <;> simp

theorem StepCase.packet_eq (h : StepCase s a t) {i : Nat} (hi : i < s.calls) :
    t.packet i = s.packet i := by
  obtain ⟨hk, hc⟩ := h.frame hi
  simp only [Ctrl.packet, hk, hc]

theorem StepCase.fresh (hw : Wf s) (h : StepCase s a t) : ∀ i, t.calls ≤ i → t.call i = {} := by
  intro i hi
  have hle : s.calls ≤ i := Nat.le_trans h.calls_le hi
  have hf := hw.fresh i hle
  cases h.call i with
  | same he => rw [he, hf]
  | new k ha he hn => omega
  | own ho => exact absurd (by rw [hf]) ho.running.1
  | response r hc ht hj he =>
    have := hw.pdList_lt (find_mem hj)
    omega

theorem StepCase.out (hw : Wf s) (h : StepCase s a t) (i : Nat) :
    (t.call i).out = if (t.call i).pc = .returned then (t.call i).skb else none := by
  have ho := hw.out i
  cases h.call i with
  | same he =>
    rw [he]
    exact ho
  | new k ha hi hn he =>
    rw [he]
    rfl
  | own hs =>
    rw [hs.out, hs.skb, ho, if_neg hs.running.2]
  | response r hc ht hj he =>
    have hpc := hw.listed_not_returned (find_mem hj)
    rw [if_neg hpc] at ho
    rw [he]
    exact ho.trans (if_neg hpc).symm

theorem StepCase.skb (h : StepCase s a t) {i : Nat} {r : RxSkb} (hr : (t.call i).skb = some r) :
    (s.call i).skb = some r ∨ (s.cur = some r ∧ isResponse r.type = true ∧ s.find r.cookie = some i) := by
  cases h.call i with
  | same he => exact .inl (he ▸ hr)
  | new k ha hi hn he =>
    rw [he, newCall_skb] at hr
    cases hr
  | own ho => exact .inl (ho.skb ▸ hr)
  | response q hc ht hi he =>
    rw [he] at hr
    obtain rfl := Option.some.inj hr
    exact .inr ⟨hc, ht, hi⟩

theorem StepCase.not_returned (h : StepCase s a t) {i : Nat} (hi : i < s.calls) (hp : (t.call i).pc ≠ .returned) :
    (s.call i).pc ≠ .returned := by
  cases h.call i with
  | same he => exact he ▸ hp
  | new k ha he => omega
  | own ho => exact ho.running.2
  | response r hc ht hf he =>
    rw [he] at hp
    exact hp

theorem StepCase.queued (hw : Wf s) (h : StepCase s a t) {i : Nat} (hq : Queued (s.call i).pc) :
    Queued (t.call i).pc := by
  cases h.call i with
  | same he => exact he ▸ hq
  | new k ha hi =>
    rw [hw.fresh i (Nat.le_of_eq hi.symm)] at hq
    cases hq
  | own ho => exact ho.queued hq
  | response r hc ht hf he =>
    rw [he]
    exact hq

/-! ## The lists -/

/-- `pd_list` fits the calls after one of them has moved inside or outside the list. -/
theorem Wf.listed_setCall (hw : Wf s) {j : Nat} {c : Call} (hc : Listed c.pc = Listed (s.call j).pc) (i : Nat) :
    i ∈ s.pdList ↔ Listed ((s.setCall j c).call i).pc := by
  rw [setCall_call]
  split_ifs with hi
  · rw [hc, ← hi]
    exact hw.listed i
  · exact hw.listed i

theorem StepCase.pdList (hw : Wf s) (h : StepCase s a t) :
    t.pdList.Nodup ∧ ∀ i, i ∈ t.pdList ↔ Listed (t.call i).pc := by
  have hn := hw.nodup
  have hl := hw.listed
  cases h with
  | start k cookie drawn hc hd =>
    have hf := hw.fresh s.calls (Nat.le_refl _)
    exact ⟨hn, hw.listed_setCall (by rw [hf]; rfl)⟩
  | move j c a ha hc => exact ⟨hn, hw.listed_setCall hc.listed⟩
  | store j b hk hpc => exact ⟨hn, hw.listed_setCall (by rw [hpc]; rfl)⟩
  | drop j p txq hpc hq => exact ⟨hn, hw.listed_setCall (by rw [hpc]; rfl)⟩
  | queue j hpc => exact ⟨hn, hw.listed_setCall (by rw [hpc]; rfl)⟩
  | found r j hc ht hj => exact ⟨hn, hw.listed_setCall rfl⟩
  | add j hpc =>
    have hj : j ∉ s.pdList := fun hj => by
      have := (hl j).mp hj
      simp [hpc, Listed] at this
    refine ⟨List.nodup_cons.mpr ⟨hj, hn⟩, fun i => ?_⟩
    rw [setCall_pdList, setCall_call, List.mem_cons]
    split_ifs with hi
    · exact iff_of_true (.inl hi) rfl
    · exact (or_iff_right hi).trans (hl i)
  | del j hpc =>
    refine ⟨hn.erase j, fun i => ?_⟩
    rw [setCall_pdList, setCall_call, hn.mem_erase_iff]
    split_ifs with hi
    · exact iff_of_false (fun hn => hn.1 hi) Bool.false_ne_true
    · exact (and_iff_right hi).trans (hl i)
  | sent | lost | answer | answerLost | inject | injectLost | deq | freed | other => exact ⟨hn, hl⟩

theorem StepCase.mem_pdList (h : StepCase s a t) {i : Nat} (hi : i ∈ t.pdList) :
    i ∈ s.pdList ∨ (a = .call i ∧ (s.call i).pc = .toAdd) := by
  cases h with
  | add j hpc =>
    rcases List.mem_cons.mp hi with rfl | hi
    · exact .inr ⟨rfl, hpc⟩
    · exact .inl hi
  | del j hpc => exact .inl (List.mem_of_mem_erase hi)
  | start | move | store | drop | queue | sent | lost | answer | answerLost | inject | injectLost | deq | found | freed
  | other => exact .inl hi

theorem StepCase.txq (hw : Wf s) (h : StepCase s a t) : ∀ p ∈ t.txq, p = t.packet p.call := by
  intro p hp
  rcases h.txq_cases hp with hp | ⟨i, -, hpc, rfl⟩
  · rw [h.packet_eq (hw.txq_lt hp)]
    exact hw.txq p hp
  · exact (h.packet_eq (hw.lt (by simp [hpc]))).symm

theorem StepCase.dev (hw : Wf s) (h : StepCase s a t) :
    ∀ d ∈ t.dev, d.skb = t.packet d.skb.call ∧ (d.skb.sender ≠ .bootData → d.cookie = d.skb.cookie) := by
  intro d hd
  rcases h.dev_cases hd with hd | ⟨hp, hc⟩
  · rw [h.packet_eq (hw.dev_lt hd)]
    exact hw.dev d hd
  · rw [h.packet_eq (hw.txq_lt hp)]
    exact ⟨hw.txq d.skb hp, fun hk => by rw [hc, if_neg hk]⟩

theorem perm_cons_eraseIdx {α : Type} {l : List α} {k : Nat} {x : α} (h : l[k]? = some x) :
    l.Perm (x :: l.eraseIdx k) := by
  obtain ⟨hk, rfl⟩ := List.getElem?_eq_some_iff.mp h
  exact (List.getElem_cons_eraseIdx_perm hk).symm

theorem drop_places {p : TxSkb} {txq : List TxSkb} (hq : s.txq = p :: txq) :
    (Ctrl.places { s with txq := txq, dropped := p.call :: s.dropped }).Perm s.places := by
  have hp := @List.perm_middle _ p.call (txq.map TxSkb.call ++ (s.dev.map (fun d => d.skb.call) ++ s.answered)) s.dropped
  simpa only [Ctrl.places, hq, List.map_cons, List.cons_append, List.append_assoc] using hp

theorem sent_places {p : TxSkb} {txq : List TxSkb} {n c : Nat} (hq : s.txq = p :: txq) :
    (Ctrl.places { s with txq := txq, devLast := n, dev := s.dev ++ [⟨p, c⟩] }).Perm s.places := by
  have hp := @List.perm_middle _ p.call (txq.map TxSkb.call ++ s.dev.map (fun d => d.skb.call)) (s.answered ++ s.dropped)
  simpa only [Ctrl.places, hq, List.map_cons, List.map_append, List.map_nil, List.cons_append, List.append_assoc,
    List.nil_append] using hp

theorem answer_places {k : Nat} {d : DevSkb} (hd : s.dev[k]? = some d) :
    (Ctrl.places { s with dev := s.dev.eraseIdx k, answered := d.skb.call :: s.answered }).Perm s.places := by
  have hp := (perm_cons_eraseIdx hd).map fun d => d.skb.call
  exact (List.perm_middle.trans (hp.symm.append_right _)).append_left _

/-- A packet keeps its place or moves to another; only the call that queues its packet gets one. -/
theorem StepCase.places_perm (h : StepCase s a t) :
    t.places.Perm s.places ∨
      ∃ i, (s.call i).pc = .toQueue ∧ (t.call i).pc = .waiting ∧ t.places.Perm (i :: s.places) := by
  cases h with
  | queue i hpc =>
    refine .inr ⟨i, hpc, by simp, ?_⟩
    have hp := @List.perm_middle _ i (s.txq.map TxSkb.call) (s.dev.map (fun d => d.skb.call) ++ (s.answered ++ s.dropped))
    simpa only [Ctrl.places, setCall_txq, setCall_dev, setCall_answered, setCall_dropped, List.map_append, List.map_cons,
      List.map_nil, Ctrl.packet, List.append_assoc, List.cons_append, List.nil_append] using hp
  | drop i p txq hpc hq => exact .inl (drop_places hq)
  | sent p txq devLast hq => exact .inl (sent_places hq)
  | lost p txq hq => exact .inl (drop_places hq)
  | answer k d type ok hd => exact .inl (answer_places hd)
  | answerLost k d type ok hd => exact .inl (answer_places hd)
  | start | move | store | add | del | found | inject | injectLost | deq | freed | other => exact .inl (.refl _)

theorem StepCase.places (hw : Wf s) (h : StepCase s a t) :
    t.places.Nodup ∧ ∀ i ∈ t.places, Queued (t.call i).pc := by
  have hq : ∀ i ∈ s.places, Queued (t.call i).pc := fun i hi => h.queued hw (hw.queued i hi)
  rcases h.places_perm with hp | ⟨j, hpc, hwait, hp⟩
  · exact ⟨hp.nodup_iff.mpr hw.places, fun i hi => hq i (hp.mem_iff.mp hi)⟩
  · -- the packet of `j` is in no place yet: `j` has not queued it
    have hj : j ∉ s.places := fun hj => by
      have := hw.queued j hj
      simp [hpc, Queued] at this
    refine ⟨hp.nodup_iff.mpr (List.nodup_cons.mpr ⟨hj, hw.places⟩), fun i hi => ?_⟩
    rcases List.mem_cons.mp (hp.mem_iff.mp hi) with rfl | hi
    · rw [hwait]
      rfl
    · exact hq i hi

/-! ## The responses -/

theorem StepCase.answered_subset (h : StepCase s a t) {i : Nat} (hi : i ∈ s.answered) : i ∈ t.answered := by
  cases h with
  | answer | answerLost => exact List.mem_cons_of_mem _ hi
  | start | move | store | add | drop | queue | del | sent | lost | inject | injectLost | deq | found | freed | other =>
    exact hi

/-- A packet in the channel after the step was there before, or has just been received. -/
theorem StepCase.holds (h : StepCase s a t) {r : RxSkb} (hr : t.Holds r) :
    s.Holds r ∨ (r.src = none ∧ ∃ type cookie ok alloc, a = .inject type cookie ok alloc) ∨
      ∃ d ∈ s.dev, r.src = some d.skb.call ∧ r.cookie = d.cookie ∧ d.skb.call ∈ t.answered := by
  rcases or_assoc.mpr hr with hr | ⟨i, hr⟩
  · rcases h.rx_cases hr with hr | hr
    · exact .inl (hr.imp_right .inl)
    · exact .inr hr
  · rcases h.skb hr with hr | ⟨hr, -, -⟩
    · exact .inl (.inr (.inr ⟨i, hr⟩))
    · exact .inl (.inr (.inl hr))

theorem StepCase.echo (hw : Wf s) (h : StepCase s a t) : ∀ r i, t.Holds r → r.src = some i →
    i ∈ t.answered ∧ ((t.call i).sender ≠ .bootData → r.cookie = (t.call i).cookie) := by
  intro r i hr hi
  rcases h.holds hr with hr | ⟨hr, -⟩ | ⟨d, hd, hsrc, hcookie, hans⟩
  · obtain ⟨ha, hc⟩ := hw.echo r i hr hi
    obtain ⟨hk', hc'⟩ := h.frame (hw.answered_lt ha)
    rw [hk', hc']
    exact ⟨h.answered_subset ha, hc⟩
  · rw [hr] at hi
    cases hi
  · obtain rfl : d.skb.call = i := by rw [hsrc] at hi; exact Option.some.inj hi
    obtain ⟨hk', hc'⟩ := h.frame (hw.dev_lt hd)
    obtain ⟨hp, hcd⟩ := hw.dev d hd
    refine ⟨hans, fun hk => ?_⟩
    rw [hk'] at hk
    have hsend : d.skb.sender = (s.call d.skb.call).sender := by rw [hp]; rfl
    have hpc : d.skb.cookie = (s.call d.skb.call).cookie := by rw [hp]; exact if_neg hk
    rw [hcookie, hc', hcd (by rw [hsend]; exact hk), hpc]

/-- At most one call by sender `k` is in progress. -/
def Single (s : Ctrl) (k : Sender) : Prop :=
  ∀ i < s.calls, ∀ j < s.calls, (s.call i).sender = k → (s.call j).sender = k → (s.call i).pc ≠ .returned →
    (s.call j).pc ≠ .returned → j = i

theorem StepCase.single {k : Sender} (h : StepCase s a t) (hs : Single s k)
    (ha : a = .start k → ∀ j < s.calls, (s.call j).sender = k → (s.call j).pc = .returned) : Single t k := by
  have hold : ∀ i < s.calls, ∀ j < s.calls, (t.call i).sender = k → (t.call j).sender = k →
      (t.call i).pc ≠ .returned → (t.call j).pc ≠ .returned → j = i := by
    intro i hi j hj hki hkj hpi hpj
    rw [(h.frame hi).1] at hki
    rw [(h.frame hj).1] at hkj
    exact hs i hi j hj hki hkj (h.not_returned hi hpi) (h.not_returned hj hpj)
  cases h with
  | start k' cookie drawn hc hd =>
    -- a new call by `k` is the only one in progress: the earlier ones have returned
    have hnew : ∀ i < s.calls, k' = k → ((s.setCall s.calls (newCall s k')).call i).sender = k →
        ((s.setCall s.calls (newCall s k')).call i).pc = .returned := by
      rintro i hi rfl hki
      have hne : i ≠ s.calls := by omega
      rw [setCall_call, if_neg hne] at hki ⊢
      exact ha rfl i hi hki
    have hself : ((s.setCall s.calls (newCall s k')).call s.calls).sender = k' := by simp
    intro i hi j hj hki hkj hpi hpj
    simp only at hi hj hki hkj hpi hpj
    rcases Nat.lt_succ_iff_lt_or_eq.mp hi with hi | rfl <;> rcases Nat.lt_succ_iff_lt_or_eq.mp hj with hj | rfl
    · exact hold i hi j hj hki hkj hpi hpj
    · exact absurd (hnew i hi (hself ▸ hkj) hki) hpi
    · exact absurd (hnew j hj (hself ▸ hki) hkj) hpj
    · rfl
  | move | store | add | drop | queue | del | sent | lost | answer | answerLost | inject | injectLost | deq | found
  | freed | other => exact hold

/-- The packet of call `j`, or an answer to it, has not been delivered or dropped. -/
def Ctrl.UnderWay (s : Ctrl) (j : Nat) : Prop :=
  (∃ p ∈ s.txq, p.call = j) ∨ (∃ d ∈ s.dev, d.skb.call = j) ∨
    ∃ r, (r ∈ s.rxq ∨ s.cur = some r) ∧ r.src = some j

instance (s : Ctrl) (j : Nat) : Decidable (s.UnderWay j) :=
  have : Decidable (∃ r, (r ∈ s.rxq ∨ s.cur = some r) ∧ r.src = some j) :=
    decidable_of_iff (∃ r ∈ s.cur.toList ++ s.rxq, r.src = some j)
      (by simp only [List.mem_append, Option.mem_toList, or_comm])
  inferInstanceAs (Decidable (_ ∨ _ ∨ _))

theorem Wf.underWay_lt (hw : Wf s) {j : Nat} (hj : s.UnderWay j) : j < s.calls := by
  rcases hj with ⟨p, hp, rfl⟩ | ⟨d, hd, rfl⟩ | ⟨r, hr, hj⟩
  · exact hw.txq_lt hp
  · exact hw.dev_lt hd
  · exact hw.answered_lt (hw.echo r j (hr.imp_right .inl) hj).1

theorem StepCase.underWay (h : StepCase s a t) {j : Nat} (hj : t.UnderWay j) :
    s.UnderWay j ∨ (a = .call j ∧ (s.call j).pc = .toQueue) := by
  rcases hj with ⟨p, hp, rfl⟩ | ⟨d, hd, rfl⟩ | ⟨r, hr, hj⟩
  · rcases h.txq_cases hp with hp | ⟨i, ha, hpc, rfl⟩
    · exact .inl (.inl ⟨p, hp, rfl⟩)
    · exact .inr ⟨ha, hpc⟩
  · rcases h.dev_cases hd with hd | ⟨hp, -⟩
    · exact .inl (.inr (.inl ⟨d, hd, rfl⟩))
    · exact .inl (.inl ⟨d.skb, hp, rfl⟩)
  · rcases h.rx_cases hr with hr | ⟨hn, -⟩ | ⟨d, hd, hsrc, -⟩
    · exact .inl (.inr (.inr ⟨r, hr, hj⟩))
    · rw [hn] at hj
      cases hj
    · rw [hsrc] at hj
      exact .inl (.inr (.inl ⟨d, hd, Option.some.inj hj⟩))

theorem StepCase.src (h : StepCase s a t) (ha : ∀ type cookie ok alloc, a ≠ .inject type cookie ok alloc)
    (hs : ∀ r, s.Holds r → ∃ i, r.src = some i) {r : RxSkb} (hr : t.Holds r) : ∃ i, r.src = some i := by
  rcases h.holds hr with hr | ⟨-, type, cookie, ok, alloc, he⟩ | ⟨d, -, hd, -, -⟩
  · exact hs r hr
  · exact absurd he (ha type cookie ok alloc)
  · exact ⟨_, hd⟩

theorem wf_step (hw : Wf s) (h : step s a = some t) : Wf t := by
  have h := step_cases h
  exact ⟨h.fresh hw, (h.pdList hw).1, (h.pdList hw).2, h.out hw, h.txq hw, h.dev hw, (h.places hw).1,
    (h.places hw).2, h.echo hw⟩

end Step

end HgicFmac.Fwctrl
