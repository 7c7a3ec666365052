import HgicFmac.Fwctrl.Inv

/-!
# The cookie of an OTA packet

`hgic_ota_send_packet_tmo` draws a cookie and then clears `resp`, so every OTA packet and its pending entry carry
the cookie 0.

* `OtaRun` : OTA packets are sent one after another;
* `OtaMatched` : an OTA entry gets no answer to another OTA packet, and not the answer to a pending command;
* `OtaAlone` : when the entry of an OTA packet is added, no earlier OTA packet or answer is under way, and no
  pending command has the cookie 0;
* `ota_matched_of_alone` : this is enough; without it the answer to a packet that timed out is taken for the
  answer to the next one (`ota_matched_fails`).
-/

namespace HgicFmac.Ota
open Lib Fwctrl

/-- `hgic_fwctrl_do_cmd` and `hgic_bootdl_send_cmd`. -/
def isCommand : Sender → Bool
  | .cmd | .bootCmd _ => true
  | _ => false

/-- The device only answers, and an OTA packet is sent after the calls for the earlier ones have returned. -/
def OtaRun (s : Ctrl) : Act → Prop
  | .start .ota => ∀ j < s.calls, (s.call j).sender = .ota → (s.call j).pc = .returned
  | .inject _ _ _ _ => False
  | _ => True

/-- The answer in the frame of an OTA call is not that to another OTA packet, and the response being dispatched
does not go to an OTA entry while the command it answers is pending. -/
def OtaMatched (s : Ctrl) : Prop :=
  (∀ i j r, (s.call i).sender = .ota → (s.call i).skb = some r → r.src = some j → (s.call j).sender = .ota →
    j = i) ∧
  (∀ i j r, s.cur = some r → isResponse r.type = true → s.find r.cookie = some i → (s.call i).sender = .ota →
    r.src = some j → isCommand (s.call j).sender = true → j ∉ s.pdList)

/-- The step does not add an OTA entry while another OTA packet or answer is under way or a command with the
cookie 0 is pending. -/
def OtaAlone (s : Ctrl) : Act → Prop
  | .call i => (s.call i).pc = .toAdd → (s.call i).sender = .ota →
    (∀ j < s.calls, s.UnderWay j → (s.call j).sender ≠ .ota) ∧
    (∀ j ∈ s.pdList, isCommand (s.call j).sender = true → (s.call j).cookie ≠ 0)
  | _ => True

instance (s : Ctrl) : (a : Act) → Decidable (OtaRun s a)
  | .start .ota => inferInstanceAs (Decidable (∀ j < s.calls, _ → _))
  | .start .cmd | .start (.bootCmd _) | .start .bootData => isTrue trivial
  | .inject _ _ _ _ => isFalse id
  | .call _ | .timeout _ | .tx _ | .answer _ _ _ _ | .deq | .dispatch => isTrue trivial

instance (s : Ctrl) : (a : Act) → Decidable (OtaAlone s a)
  | .call _ => inferInstanceAs (Decidable (_ → _ → _ ∧ _))
  | .start _ | .timeout _ | .tx _ | .answer _ _ _ _ | .inject _ _ _ _ | .deq | .dispatch => isTrue trivial

structure OtaInv (s : Ctrl) : Prop where
  wf : Wf s
  zero : ∀ i < s.calls, (s.call i).sender = .ota → (s.call i).cookie = 0
  one : Single s .ota
  under : ∀ i ∈ s.pdList, (s.call i).sender = .ota → ∀ j, s.UnderWay j → (s.call j).sender = .ota → j = i
  order : s.pdList.Pairwise fun i j =>
    (s.call i).sender = .ota → isCommand (s.call j).sender = true → (s.call j).cookie ≠ 0
  held : ∀ i j r, (s.call i).sender = .ota → (s.call i).skb = some r → r.src = some j →
    (s.call j).sender = .ota → j = i

theorem otaInv_init : OtaInv hgicFwctrlInit where
  wf := wf_init
  zero i hi := absurd hi (Nat.not_lt_zero i)
  one i hi := absurd hi (Nat.not_lt_zero i)
  under i hi := by simp [hgicFwctrlInit] at hi
  order := List.Pairwise.nil
  held i j r _ hr := by simp [hgicFwctrlInit] at hr

section Step
variable {s t : Ctrl} {a : Act}

theorem OtaInv.zero_step (hs : OtaInv s) (h : StepCase s a t) :
    ∀ i < t.calls, (t.call i).sender = .ota → (t.call i).cookie = 0 := by
  intro i hi hk
  rcases h.calls_cases hi with hlt | ⟨k, rfl, rfl, he⟩
  · obtain ⟨hk', hc'⟩ := h.frame hlt
    rw [hc']
    exact hs.zero i hlt (hk' ▸ hk)
  · rw [he] at hk ⊢
    obtain rfl : k = .ota := hk
    rfl

theorem OtaInv.under_step (hs : OtaInv s) (ha : OtaAlone s a) (h : StepCase s a t) :
    ∀ i ∈ t.pdList, (t.call i).sender = .ota → ∀ j, t.UnderWay j → (t.call j).sender = .ota → j = i := by
  intro i hi hki j hj hkj
  have hilt : i < s.calls := by
    rcases h.mem_pdList hi with hi | ⟨-, hpc⟩
    · exact hs.wf.pdList_lt hi
    · exact hs.wf.lt (by simp [hpc])
  have hjlt : j < s.calls := by
    rcases h.underWay hj with hj | ⟨-, hpc⟩
    · exact hs.wf.underWay_lt hj
    · exact hs.wf.lt (by simp [hpc])
  rw [(h.frame hilt).1] at hki
  rw [(h.frame hjlt).1] at hkj
  rcases h.mem_pdList hi with hi | ⟨rfl, hpci⟩ <;> rcases h.underWay hj with hj | ⟨he, hpcj⟩
  · exact hs.under i hi hki j hj hkj
  · -- `j` queues its packet: it is in progress, and so is `i`
    exact hs.one i hilt j hjlt hki hkj (hs.wf.listed_not_returned hi) (by simp [hpcj])
  · exact absurd hkj ((ha hpci hki).1 j hjlt hj)
  · exact hs.one i hilt j hjlt hki hkj (by simp [hpci]) (by simp [hpcj])

theorem OtaInv.order_step (hs : OtaInv s) (ha : OtaAlone s a) (h : StepCase s a t) :
    t.pdList.Pairwise fun i j =>
      (t.call i).sender = .ota → isCommand (t.call j).sender = true → (t.call j).cookie ≠ 0 := by
  have hold : s.pdList.Pairwise fun i j =>
      (t.call i).sender = .ota → isCommand (t.call j).sender = true → (t.call j).cookie ≠ 0 := by
    refine hs.order.imp_of_mem fun {i j} hi hj hij hk hc => ?_
    rw [(h.frame (hs.wf.pdList_lt hi)).1] at hk
    rw [(h.frame (hs.wf.pdList_lt hj)).1] at hc
    rw [(h.frame (hs.wf.pdList_lt hj)).2]
    exact hij hk hc
  cases h with
  | add i hpc =>
    refine List.pairwise_cons.mpr ⟨fun j hj hk hc => ?_, hold⟩
    have hne : j ≠ i := fun he => by
      have := (hs.wf.listed j).mp hj
      simp [he, hpc, Listed] at this
    simp only [setCall_call, if_neg hne, if_true] at hk hc ⊢
    exact (ha hpc hk).2 j hj hc
  | del i hpc => exact hold.sublist List.erase_sublist
  | start | move | store | drop | queue | sent | lost | answer | answerLost | inject | injectLost | deq | found
  | freed | other => exact hold

theorem OtaInv.held_step (hs : OtaInv s) (h : StepCase s a t) : ∀ i j r, (t.call i).sender = .ota →
    (t.call i).skb = some r → r.src = some j → (t.call j).sender = .ota → j = i := by
  intro i j r hki hr hj hkj
  rcases h.skb hr with hr | ⟨hcur, -, hfind⟩
  · have hilt : i < s.calls := by
      by_contra hlt
      rw [hs.wf.fresh i (by omega)] at hr
      cases hr
    have hjlt := hs.wf.answered_lt (hs.wf.echo r j (.inr (.inr ⟨i, hr⟩)) hj).1
    rw [(h.frame hilt).1] at hki
    rw [(h.frame hjlt).1] at hkj
    exact hs.held i j r hki hr hj hkj
  · have hmem := find_mem hfind
    have hway : s.UnderWay j := .inr (.inr ⟨r, .inr hcur, hj⟩)
    rw [(h.frame (hs.wf.pdList_lt hmem)).1] at hki
    rw [(h.frame (hs.wf.underWay_lt hway)).1] at hkj
    exact hs.under i hmem hki j hway hkj

theorem otaInv_step (hs : OtaInv s) (ha : OtaRun s a ∧ OtaAlone s a) (hst : step s a = some t) : OtaInv t := by
  have h := step_cases hst
  exact ⟨wf_step hs.wf hst, hs.zero_step h, h.single hs.one (fun he => by rw [he] at ha; exact ha.1),
    hs.under_step ha.2 h, hs.order_step ha.2 h, hs.held_step h⟩

/-- Behind an OTA entry no pending command has the cookie 0, so the entry is found only for answers to others. -/
theorem OtaInv.matched (hs : OtaInv s) : OtaMatched s := by
  refine ⟨hs.held, fun i j r hcur _ hfind hki hj hkj hmem => ?_⟩
  have hic : r.cookie = 0 := by
    rw [← find_cookie hfind]
    exact hs.zero i (hs.wf.pdList_lt (find_mem hfind)) hki
  have hjc : (s.call j).cookie = 0 := by
    have hnd : (s.call j).sender ≠ .bootData := fun he => by simp [he, isCommand] at hkj
    rw [← (hs.wf.echo r j (.inr (.inl hcur)) hj).2 hnd, hic]
  obtain ⟨-, front, back, hl, hfront⟩ := List.find?_eq_some_iff_append.mp hfind
  have horder := hs.order
  rw [hl] at hmem horder
  rcases List.mem_append.mp hmem with hmem | hmem
  · simpa [hjc, hic] using hfront j hmem
  · rcases List.mem_cons.mp hmem with rfl | hmem
    · simp [hki, isCommand] at hkj
    · exact (List.pairwise_cons.mp (List.pairwise_append.mp horder).2.1).1 j hmem hki hkj hjc

end Step

/-- In every run in which an OTA entry is only added while no other OTA packet is under way and no command with
the cookie 0 is pending, OTA packets get only their own answers, and no answer to a pending command. -/
theorem ota_matched_of_alone {as : List Act} {s : Ctrl}
    (ha : Steps step (fun s a => OtaRun s a ∧ OtaAlone s a) hgicFwctrlInit as)
    (hr : runFrom step hgicFwctrlInit as = some s) : OtaMatched s :=
  (run_invariant step (fun _ _ _ => otaInv_step) otaInv_init ha hr).matched

/-- Two OTA packets, each answered before its call returns. -/
def twoPackets : List Act :=
  List.flatten [[.start .ota], runCall 0 4, [.tx true, .answer 0 .ota true true, .deq, .dispatch], runCall 0 3,
    [.start .ota], runCall 1 4, [.tx true, .answer 0 .ota true true, .deq, .dispatch], runCall 1 3]

/-- The call for the first packet times out; its answer arrives while the second one waits. -/
def lateAnswer : List Act :=
  List.flatten [[.start .ota], runCall 0 4, [.tx true, .timeout 0], runCall 0 2, [.start .ota], runCall 1 4,
    [.answer 0 .ota true true, .deq, .dispatch]]

theorem ota_matched_of_alone_twoPackets :
    ∃ s, runFrom step hgicFwctrlInit twoPackets = some s ∧ (s.call 1).out.isSome ∧ OtaMatched s :=
  ⟨_, rfl, rfl, @ota_matched_of_alone twoPackets _ (by decide) rfl⟩

/-- The call for the second packet gets the answer to the first one. -/
theorem ota_matched_fails :
    ¬ ∀ as s, Steps step OtaRun hgicFwctrlInit as → runFrom step hgicFwctrlInit as = some s → OtaMatched s := by
  intro h
  have hm := h lateAnswer _ (by decide) rfl
  exact absurd (hm.1 1 0 ⟨0, some 0, .ota, 0, true⟩ rfl rfl rfl rfl) (by decide)

end HgicFmac.Ota
