import HgicFmac.Fwctrl.Inv

/-!
# Who owns a received control packet

`hgic_fwctrl_rx_response` stores the skb in `resp->skb` of the entry it finds, or frees it. With a device that
may send any responses:

* `OwnerInv` : in every run no skb is freed twice, freed while a call has it, or given to two calls;
* `Overwrites` : the entry found already holds a response, which is lost by the store;
* `owned_once_iff` : every skb given to `hgic_fwctrl_rx_response` has exactly one owner if and only if no
  dispatch of the run overwrites a response.
-/

namespace HgicFmac.Fwctrl
open Lib

/-- Call `i` has the skb `x` in `resp->skb`, and returns it if it has returned. -/
def Ctrl.Has (s : Ctrl) (i x : Nat) : Prop :=
  ∃ r, (s.call i).skb = some r ∧ r.id = x ∧ ((s.call i).pc = .returned → (s.call i).out = some r)

/-- Every skb given to `hgic_fwctrl_rx_response` is freed once and no call has it, or it is not freed and exactly
one call has it. -/
def OwnedOnce (s : Ctrl) : Prop :=
  ∀ x ∈ s.handled, (s.freed.count x = 1 ∧ ∀ i, ¬ s.Has i x) ∨ (s.freed.count x = 0 ∧ ∃! i, s.Has i x)

/-- The entry that the dispatched response is stored in already holds one. -/
def Overwrites (s : Ctrl) : Prop :=
  ∃ r i, s.cur = some r ∧ isResponse r.type = true ∧ s.find r.cookie = some i ∧ (s.call i).skb ≠ none

/-- A dispatch does not overwrite a response. -/
def NoOverwrite (s : Ctrl) (a : Act) : Prop := a = .dispatch → ¬ Overwrites s

/-- The skbs, by where they are before and after their dispatch. -/
def Ctrl.skbs (s : Ctrl) : List Nat := s.rxq.map RxSkb.id ++ (s.cur.toList.map RxSkb.id ++ s.handled)

structure OwnerInv (s : Ctrl) : Prop where
  wf : Wf s
  skbs : s.skbs.Nodup
  lt : ∀ x ∈ s.skbs, x < s.nextRx
  freed : s.freed.Nodup
  freed_handled : ∀ x ∈ s.freed, x ∈ s.handled
  held : ∀ i r, (s.call i).skb = some r → r.id ∈ s.handled ∧ r.id ∉ s.freed
  held_inj : ∀ i j r q, (s.call i).skb = some r → (s.call j).skb = some q → r.id = q.id → i = j

theorem ownerInv_init : OwnerInv hgicFwctrlInit where
  wf := wf_init
  skbs := List.nodup_nil
  lt x hx := by simp [hgicFwctrlInit, Ctrl.skbs] at hx
  freed := List.nodup_nil
  freed_handled x hx := by simp [hgicFwctrlInit] at hx
  held i r hr := by simp [hgicFwctrlInit] at hr
  held_inj i j r q hr := by simp [hgicFwctrlInit] at hr

section Step
variable {s t : Ctrl} {a : Act}

theorem rx_skbs (s : Ctrl) (r : RxSkb) :
    ((s.rxq ++ [r]).map RxSkb.id ++ (s.cur.toList.map RxSkb.id ++ s.handled)).Perm (r.id :: s.skbs) := by
  rw [List.map_append, List.map_singleton, List.append_assoc]
  exact List.perm_middle

theorem rx_skbs_new {r : RxSkb} (hr : r.id = s.nextRx) (hn : s.skbs.Nodup) (hlt : ∀ x ∈ s.skbs, x < s.nextRx) :
    ((s.rxq ++ [r]).map RxSkb.id ++ (s.cur.toList.map RxSkb.id ++ s.handled)).Nodup ∧
      ∀ x ∈ (s.rxq ++ [r]).map RxSkb.id ++ (s.cur.toList.map RxSkb.id ++ s.handled), x < s.nextRx + 1 := by
  have hp := rx_skbs s r
  refine ⟨hp.nodup_iff.mpr (List.nodup_cons.mpr ⟨fun hx => ?_, hn⟩), fun x hx => ?_⟩
  · exact Nat.lt_irrefl _ (hr ▸ hlt _ hx)
  · rcases List.mem_cons.mp (hp.mem_iff.mp hx) with rfl | hx
    · omega
    · exact Nat.lt_succ_of_lt (hlt x hx)

theorem StepCase.skbs (h : StepCase s a t) (hn : s.skbs.Nodup) (hlt : ∀ x ∈ s.skbs, x < s.nextRx) :
    t.skbs.Nodup ∧ ∀ x ∈ t.skbs, x < t.nextRx := by
  cases h with
  | start | move | store | add | drop | queue | del | sent | lost | answerLost | injectLost => exact ⟨hn, hlt⟩
  | answer => exact rx_skbs_new rfl hn hlt
  | inject => exact rx_skbs_new rfl hn hlt
  | deq r rxq hc hq =>
    have hp : (Ctrl.skbs { s with rxq := rxq, cur := some r }).Perm s.skbs := by
      unfold Ctrl.skbs
      rw [hc, hq]
      exact List.perm_middle
    exact ⟨hp.nodup_iff.mpr hn, fun x hx => hlt x (hp.mem_iff.mp hx)⟩
  | found r j hc ht hj =>
    unfold Ctrl.skbs at hn hlt
    rw [hc] at hn hlt
    exact ⟨hn, hlt⟩
  | freed r hc ht hj =>
    unfold Ctrl.skbs at hn hlt
    rw [hc] at hn hlt
    exact ⟨hn, hlt⟩
  | other r hc ht =>
    have hsub : (Ctrl.skbs { s with cur := none }).Sublist s.skbs := by
      unfold Ctrl.skbs
      rw [hc]
      exact (List.sublist_cons_self _ _).append_left _
    exact ⟨hn.sublist hsub, fun x hx => hlt x (hsub.subset hx)⟩

theorem OwnerInv.cur_new (hs : OwnerInv s) {r : RxSkb} (hc : s.cur = some r) :
    r.id ∉ s.handled ∧ r.id ∉ s.freed ∧ ∀ i q, (s.call i).skb = some q → q.id ≠ r.id := by
  have hn := hs.skbs
  have hr : r.id ∉ s.handled := by
    unfold Ctrl.skbs at hn
    rw [hc] at hn
    exact (List.nodup_cons.mp (List.nodup_append.mp hn).2.1).1
  exact ⟨hr, fun hf => hr (hs.freed_handled _ hf), fun i q hq he => hr (he ▸ (hs.held i q hq).1)⟩

theorem OwnerInv.freed_step (hs : OwnerInv s) (h : StepCase s a t) :
    t.freed.Nodup ∧ ∀ x ∈ t.freed, x ∈ t.handled := by
  have hfh : ∀ y, ∀ x ∈ s.freed, x ∈ y :: s.handled := fun y x hx => List.mem_cons_of_mem y (hs.freed_handled x hx)
  rcases h.handled_cases with ⟨hh, hf⟩ | ⟨r, hc, hh, hf | ⟨hf, -⟩⟩ <;> rw [hh, hf]
  · exact ⟨hs.freed, hs.freed_handled⟩
  · refine ⟨List.nodup_cons.mpr ⟨(hs.cur_new hc).2.1, hs.freed⟩, fun x hx => ?_⟩
    rcases List.mem_cons.mp hx with rfl | hx
    · exact List.mem_cons_self
    · exact hfh r.id x hx
  · exact ⟨hs.freed, hfh r.id⟩

/-- What was given to `hgic_fwctrl_rx_response` and not freed is not freed later: only the skb being dispatched is. -/
theorem OwnerInv.kept (hs : OwnerInv s) (h : StepCase s a t) {x : Nat} (hx : x ∈ s.handled) (hf : x ∉ s.freed) :
    x ∈ t.handled ∧ x ∉ t.freed := by
  rcases h.handled_cases with ⟨hh, he⟩ | ⟨r, hc, hh, he | ⟨he, -⟩⟩ <;> rw [hh, he]
  · exact ⟨hx, hf⟩
  · refine ⟨List.mem_cons_of_mem _ hx, fun hn => ?_⟩
    rcases List.mem_cons.mp hn with rfl | hn
    · exact (hs.cur_new hc).1 hx
    · exact hf hn
  · exact ⟨List.mem_cons_of_mem _ hx, hf⟩

theorem OwnerInv.held_step (hs : OwnerInv s) (h : StepCase s a t) :
    ∀ i r, (t.call i).skb = some r → r.id ∈ t.handled ∧ r.id ∉ t.freed := by
  intro i r hr
  cases h.call i with
  | same he =>
    rw [he] at hr
    exact hs.kept h (hs.held i r hr).1 (hs.held i r hr).2
  | new k ha hi hn he =>
    rw [he] at hr
    cases hr
  | own ho =>
    rw [ho.skb] at hr
    exact hs.kept h (hs.held i r hr).1 (hs.held i r hr).2
  | response q hc ht hi he ha hh hf =>
    rw [he] at hr
    obtain rfl := Option.some.inj hr
    rw [hh, hf]
    exact ⟨List.mem_cons_self, (hs.cur_new hc).2.1⟩

theorem OwnerInv.held_inj_step (hs : OwnerInv s) (h : StepCase s a t) :
    ∀ i j r q, (t.call i).skb = some r → (t.call j).skb = some q → r.id = q.id → i = j := by
  intro i j r q hr hq he
  rcases h.skb hr with hr | ⟨hr, -, hi⟩ <;> rcases h.skb hq with hq | ⟨hq, -, hj⟩
  · exact hs.held_inj i j r q hr hq he
  · exact absurd he ((hs.cur_new hq).2.2 i r hr)
  · exact absurd he.symm ((hs.cur_new hr).2.2 j q hq)
  · rw [hr] at hq
    obtain rfl := Option.some.inj hq
    rw [hi] at hj
    exact Option.some.inj hj

theorem ownerInv_step (hs : OwnerInv s) (hst : step s a = some t) : OwnerInv t := by
  have h := step_cases hst
  obtain ⟨hskbs, hlt⟩ := h.skbs hs.skbs hs.lt
  obtain ⟨hf, hfh⟩ := hs.freed_step h
  exact ⟨wf_step hs.wf hst, hskbs, hlt, hf, hfh, hs.held_step h, hs.held_inj_step h⟩

/-- The skb was given to `hgic_fwctrl_rx_response`, was not freed, and no call has it. -/
def Lost (s : Ctrl) (x : Nat) : Prop := x ∈ s.handled ∧ x ∉ s.freed ∧ ∀ i r, (s.call i).skb = some r → r.id ≠ x

theorem OwnerInv.has_iff (hs : OwnerInv s) {i x : Nat} : s.Has i x ↔ ∃ r, (s.call i).skb = some r ∧ r.id = x := by
  constructor
  · rintro ⟨r, hr, hx, -⟩
    exact ⟨r, hr, hx⟩
  · rintro ⟨r, hr, hx⟩
    refine ⟨r, hr, hx, fun hpc => ?_⟩
    rw [hs.wf.out i, if_pos hpc, hr]

theorem OwnerInv.ownedOnce_iff (hs : OwnerInv s) : OwnedOnce s ↔ ¬ ∃ x, Lost s x := by
  constructor
  · rintro ho ⟨x, hx, hf, hl⟩
    rcases ho x hx with ⟨hc, -⟩ | ⟨-, i, hi, -⟩
    · rw [List.count_eq_zero_of_not_mem hf] at hc
      omega
    · obtain ⟨r, hr, hrx⟩ := hs.has_iff.mp hi
      exact hl i r hr hrx
  · intro hl x hx
    by_cases hf : x ∈ s.freed
    · refine .inl ⟨List.count_eq_one_of_mem hs.freed hf, fun i hi => ?_⟩
      obtain ⟨r, hr, hrx⟩ := hs.has_iff.mp hi
      exact (hs.held i r hr).2 (hrx ▸ hf)
    · -- not freed and not lost: some call has it, and `held_inj` says which
      have hex : ∃ i r, (s.call i).skb = some r ∧ r.id = x := by
        by_contra hno
        exact hl ⟨x, hx, hf, fun i r hr he => hno ⟨i, r, hr, he⟩⟩
      obtain ⟨i, r, hr, hrx⟩ := hex
      refine .inr ⟨List.count_eq_zero_of_not_mem hf, i, hs.has_iff.mpr ⟨r, hr, hrx⟩, fun j hj => ?_⟩
      obtain ⟨q, hq, hqx⟩ := hs.has_iff.mp hj
      exact hs.held_inj j i q r hq hr (hqx.trans hrx.symm)

theorem lost_step (hs : OwnerInv s) {x : Nat} (hl : Lost s x) (hst : step s a = some t) : Lost t x := by
  have h := step_cases hst
  obtain ⟨hx, hf, hn⟩ := hl
  obtain ⟨hx', hf'⟩ := hs.kept h hx hf
  refine ⟨hx', hf', fun i r hr he => ?_⟩
  rcases h.skb hr with hr | ⟨hr, -, -⟩
  · exact hn i r hr he
  · exact (hs.cur_new hr).1 (he ▸ hx)

/-- An overwritten response is lost. -/
theorem overwrite_lost (hs : OwnerInv s) (ho : Overwrites s) (hst : step s .dispatch = some t) :
    ∃ x, Lost t x := by
  obtain ⟨r, i, hc, ht, hi, hne⟩ := ho
  obtain ⟨q, hq⟩ := Option.ne_none_iff_exists'.mp hne
  have h := step_cases hst
  obtain ⟨hqh, hqf⟩ := hs.kept h (hs.held i q hq).1 (hs.held i q hq).2
  refine ⟨q.id, hqh, hqf, fun j p hp he => ?_⟩
  rcases h.skb hp with hp' | ⟨hp', -, -⟩
  · -- the only call that had `q` is `i`, and it has the new response now
    obtain rfl := hs.held_inj j i p q hp' hq he
    cases h with
    | move k c a ha => rcases ha with ha | ha <;> cases ha
    | found r' k hc' ht' hk =>
      obtain rfl := Option.some.inj (hc.symm.trans hc')
      obtain rfl := Option.some.inj (hi.symm.trans hk)
      rw [setCall_call, if_pos rfl] at hp
      obtain rfl := Option.some.inj hp
      exact (hs.cur_new hc).1 (hs.held _ _ hp').1
    | freed r' hc' ht' hk =>
      obtain rfl := Option.some.inj (hc.symm.trans hc')
      cases hi.symm.trans hk
    | other r' hc' ht' =>
      obtain rfl := Option.some.inj (hc.symm.trans hc')
      cases ht.symm.trans ht'
  · exact (hs.cur_new hp').2.2 i q hq he.symm

theorem StepCase.skb_kept (hw : Wf s) (h : StepCase s a t) (ha : NoOverwrite s a) {i : Nat} {r : RxSkb}
    (hr : (s.call i).skb = some r) : (t.call i).skb = some r := by
  cases h.call i with
  | same he =>
    rw [he]
    exact hr
  | new k hk hi =>
    rw [hw.fresh i (Nat.le_of_eq hi.symm)] at hr
    cases hr
  | own ho =>
    rw [ho.skb]
    exact hr
  | response q hc ht hi he hd =>
    exact absurd ⟨q, i, hc, ht, hi, by simp [hr]⟩ (ha hd)

/-- What `hgic_fwctrl_rx_response` was given is freed or stored in the same step. -/
theorem StepCase.handled (h : StepCase s a t) {x : Nat} (hx : x ∈ t.handled) :
    x ∈ s.handled ∨ x ∈ t.freed ∨ ∃ i r, (t.call i).skb = some r ∧ r.id = x := by
  rcases h.handled_cases with ⟨hh, -⟩ | ⟨r, -, hh, hr⟩ <;> rw [hh] at hx
  · exact .inl hx
  · rcases List.mem_cons.mp hx with rfl | hx
    · rcases hr with hf | ⟨-, i, hi⟩
      · rw [hf]
        exact .inr (.inl List.mem_cons_self)
      · exact .inr (.inr ⟨i, r, hi, rfl⟩)
    · exact .inl hx

theorem StepCase.freed_subset (h : StepCase s a t) {x : Nat} (hx : x ∈ s.freed) : x ∈ t.freed := by
  rcases h.handled_cases with ⟨-, hf⟩ | ⟨r, -, -, hf | ⟨hf, -⟩⟩ <;> rw [hf]
  · exact hx
  · exact List.mem_cons_of_mem _ hx
  · exact hx

theorem not_lost_step (hs : OwnerInv s) (hl : ¬ ∃ x, Lost s x) (ha : NoOverwrite s a) (hst : step s a = some t) :
    ¬ ∃ x, Lost t x := by
  rintro ⟨x, hx, hf, hn⟩
  have h := step_cases hst
  rcases h.handled hx with hx | hx | ⟨i, r, hr, hrx⟩
  · refine hl ⟨x, hx, fun hx => hf (h.freed_subset hx), fun i r hr => ?_⟩
    exact hn i r (h.skb_kept hs.wf ha hr)
  · exact hf hx
  · exact hn i r hr hrx

end Step

/-- At the end of a run every skb given to `hgic_fwctrl_rx_response` has exactly one owner, if and only if no
dispatch of the run found an entry that already held a response. -/
theorem owned_once_iff {as : List Act} {s : Ctrl} (hr : runFrom step hgicFwctrlInit as = some s) :
    OwnedOnce s ↔ Steps step NoOverwrite hgicFwctrlInit as := by
  have hs : OwnerInv s := reach_invariant step (fun _ _ _ => ownerInv_step) ownerInv_init hr
  rw [hs.ownedOnce_iff]
  refine run_defect_iff step (fun _ _ _ => ownerInv_step) ?_ ?_ (fun _ _ _ => not_lost_step) ownerInv_init ?_ hr
  · rintro u a t hu ⟨x, hx⟩ hst
    exact ⟨x, lost_step hu hx hst⟩
  · intro u a t hu hp hst
    obtain ⟨rfl, ho⟩ := Classical.not_imp.mp hp
    exact overwrite_lost hu (not_not.mp ho) hst
  · rintro ⟨x, hx, -⟩
    simp [hgicFwctrlInit] at hx

/-- One command whose cookie comes back twice. -/
def doubleAnswer : List Act :=
  List.flatten [[.start .cmd], runCall 0 4,
    [.tx true, .answer 0 .cmd true true, .inject .cmd 0 true true, .deq, .dispatch, .deq, .dispatch]]

theorem owned_once_iff_doubleAnswer :
    ∃ s, runFrom step hgicFwctrlInit doubleAnswer = some s ∧
      (OwnedOnce s ↔ Steps step NoOverwrite hgicFwctrlInit doubleAnswer) :=
  ⟨_, rfl, owned_once_iff rfl⟩

/-- The first of the two responses is neither freed nor returned. -/
theorem owned_once_fails : ¬ ∀ as s, runFrom step hgicFwctrlInit as = some s → OwnedOnce s := by
  intro h
  obtain ⟨s, hr⟩ : ∃ s, runFrom step hgicFwctrlInit doubleAnswer = some s := ⟨_, rfl⟩
  have hs : OwnerInv s := reach_invariant step (fun _ _ _ => ownerInv_step) ownerInv_init hr
  refine hs.ownedOnce_iff.mp (h doubleAnswer s hr) ⟨0, ?_⟩
  injection hr with hr
  refine ⟨by rw [← hr]; decide, by rw [← hr]; decide, fun i r hi => ?_⟩
  by_cases hlt : s.calls ≤ i
  · rw [hs.wf.fresh i hlt] at hi
    cases hi
  · have hcalls : s.calls = 1 := by rw [← hr]; rfl
    obtain rfl : i = 0 := by omega
    have hskb : (s.call 0).skb = some ⟨1, none, .cmd, 0, true⟩ := by rw [← hr]; rfl
    rw [hskb, Option.some.injEq] at hi
    rw [← hi]
    decide

end HgicFmac.Fwctrl
