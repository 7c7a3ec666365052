import HgicFmac.Hgota.Device

/-!
# Lost frames: giving up and retransmission

The retry counter is reset by any response to a fragment, whichever station sent it and whatever its status; the next
offset comes from the entry of the target, which `libota_send_fw_data` clears before every fragment.

* `GivesUp` : after 10 iterations in which the highest offset does not grow the loop has exited;
* `ResponsesAdvance` : every response to a fragment is one of the target, in the table, beyond the highest offset;
* `gives_up_of_advance` : then the loop gives up in time and its iterations are bounded; responses of another
  station keep it going for ever (`gives_up_fails`);
* `Retransmits` : a fragment that follows an unanswered one starts at the same offset;
* `retransmits_iff` : this is so exactly when the unanswered fragment was the first one of the image.
-/

namespace HgicFmac.Hgota
open Lib

/-! ## Giving up -/

/-- After 10 consecutive iterations without a higher offset the loop has exited. -/
def GivesUp (c : Session) (s : Loop) : Prop := s.pc = .send → 10 ≤ s.idle → ¬ s.goesOn c

/-- The frame is a response to a fragment, of whatever station. -/
def IsResponse (m : Mem) (len : Int) : Prop := 0 < len ∧ rxProto m = ethPOta ∧ rxStype m = ethPOtaFwDataRespone

/-- A response to a fragment comes only from the target, which is in the table, does not reject and acknowledges more
than ever before. -/
def ResponsesAdvance (c : Session) (s : Loop) : Act → Prop
  | .recv r => IsResponse (r.buf s.rxbuf) r.len → Acks c.mac (r.buf s.rxbuf) r.len ∧
    (libotaFindSta s.t c.mac).isSome = true ∧ s.best < (rxOff (r.buf s.rxbuf) + rxLen (r.buf s.rxbuf)) % 2 ^ 32
  | .send _ => True

instance (c : Session) (s : Loop) : (a : Act) → Decidable (ResponsesAdvance c s a)
  | .recv _ => inferInstanceAs (Decidable (_ ∧ _ ∧ _ → _ ∧ _ ∧ _))
  | .send _ => isTrue trivial

structure RetryInv (c : Session) (s : Loop) : Prop where
  idle : s.idle ≤ s.retry
  iters : s.iters ≤ 10 * min s.best c.info.totLen + s.retry
  retry : s.retry ≤ 10
  /-- The offsets of earlier iterations did not end the loop. -/
  best : s.best ≤ max s.otaOff (c.info.totLen - 1)
  wait : s.pc = .recv → s.goesOn c

section Step
variable {c : Session} {s u : Loop} {a : Act}

theorem retryInv_init {t : Libota} {rxbuf : Mem} (h : hgicOtaDevice c t rxbuf = some s) : RetryInv c s := by
  obtain ⟨-, -, hretry, hpc, -, -, hbest, hidle, hiters⟩ := hgicOtaDevice_eq h
  refine ⟨by omega, by omega, by omega, by omega, fun hr => ?_⟩
  rw [hpc] at hr
  cases hr

theorem best_lt_otaOff {r : Recv} (ha : Acks c.mac (r.buf s.rxbuf) r.len)
    (hf : (libotaFindSta s.t c.mac).isSome = true)
    (hlt : s.best < (rxOff (r.buf s.rxbuf) + rxLen (r.buf s.rxbuf)) % 2 ^ 32) :
    s.best < (recvHalf c s r).otaOff := by
  obtain ⟨i, hi⟩ := Option.isSome_iff_exists.mp hf
  obtain ⟨sta, he⟩ := exists_entry hi
  have he' := he.rxProc_acks c.host ha
  rw [← rxFrame_eq c s r] at he'
  show s.best < libotaStaNexoff (rxFrame c s r).2 c.mac
  rw [he'.nexoff]
  exact hlt

theorem retryInv_step (hi : RetryInv c s) (hp : ResponsesAdvance c s a) (h : step c s a = some u) : RetryInv c u := by
  rcases step_cases h with ⟨alloc, -, -, hg, rfl⟩ | ⟨r, rfl, hpc, rfl⟩
  · exact ⟨hi.idle, hi.iters, hi.retry, hi.best, fun _ => hg⟩
  · have hg := hi.wait hpc
    have hidle := hi.idle
    have hiters := hi.iters
    have hbest := hi.best
    -- the counter is reset only by a response, and a response raises the highest offset
    have hreset : (rxFrame c s r).1 = .fwStatus → s.best < (recvHalf c s r).otaOff := by
      intro hst
      rw [rxFrame_eq, rxProc_fwStatus] at hst
      obtain ⟨ha, hf, hlt⟩ := hp hst
      exact best_lt_otaOff ha hf hlt
    have hlt := hg.1
    have hretry := hg.2
    refine ⟨?_, ?_, ?_, ?_, nofun⟩
    · show (if s.best < (recvHalf c s r).otaOff then 0 else s.idle + 1) ≤
        if (rxFrame c s r).1 = .fwStatus then 0 else s.retry + 1
      split
      · exact Nat.zero_le _
      · next hn =>
        rw [if_neg fun hst => hn (hreset hst)]
        omega
    · show s.iters + 1 ≤ 10 * min (max s.best (recvHalf c s r).otaOff) c.info.totLen +
        if (rxFrame c s r).1 = .fwStatus then 0 else s.retry + 1
      split
      · next hst =>
        have := hreset hst
        omega
      · omega
    · show (if (rxFrame c s r).1 = .fwStatus then 0 else s.retry + 1) ≤ 10
      split <;> omega
    · show max s.best (recvHalf c s r).otaOff ≤ max (recvHalf c s r).otaOff (c.info.totLen - 1)
      omega

end Step

/-- While every response to a fragment advances the target, the loop gives up after 10 iterations that do not, and
the number of its iterations is bounded. -/
theorem gives_up_of_advance (c : Session) (t : Libota) (rxbuf : Mem) (as : List Act) (s : Loop)
    (hrun : otaRun c t rxbuf as = some s) (hp : OtaSteps c (ResponsesAdvance c) t rxbuf as) :
    GivesUp c s ∧ s.iters ≤ 10 * c.info.totLen + 10 := by
  have hi : RetryInv c s :=
    otaRun_invariant (fun s h => retryInv_init h) (fun s a u => retryInv_step) hp hrun
  have hidle := hi.idle
  have hiters := hi.iters
  have hretry := hi.retry
  refine ⟨fun _ h10 hg => ?_, by omega⟩
  have hlt := hg.2
  omega

/-- The first fragment is acknowledged, and nothing else is received. -/
def ackThenSilence : List Act :=
  List.flatten [[.send true, .recv (.frame (responseFrame (macOf 1) 0 0 1460))],
    List.flatten (List.replicate 10 [.send true, .recv .timeout])]

theorem gives_up_ackThenSilence :
    ∃ s, otaRun (upgrade 2000) oneStation (fun _ => 0) ackThenSilence = some s ∧ s.idle = 10 ∧
      ¬ s.goesOn (upgrade 2000) := by
  obtain ⟨s, hr, hidle, hpc⟩ : ∃ s, otaRun (upgrade 2000) oneStation (fun _ => 0) ackThenSilence = some s ∧
    s.idle = 10 ∧ s.pc = .send := ⟨_, rfl, by decide, rfl⟩
  have hp : OtaSteps (upgrade 2000) (ResponsesAdvance (upgrade 2000)) oneStation (fun _ => 0) ackThenSilence := by
    intro s hs
    cases hs
    decide
  have h := (gives_up_of_advance _ _ _ _ s hr hp).1
  exact ⟨s, hr, hidle, h hpc (by omega)⟩

/-- Responses of a station that is not in the table reset the counter, and the offset stays 0. -/
def foreignResponses : List Act :=
  List.flatten (List.replicate 11 [.send true, .recv (.frame (responseFrame (macOf 2) 0 0 1460))])

theorem gives_up_fails : ¬ ∀ (c : Session) (t : Libota) (rxbuf : Mem) (as : List Act) (s : Loop),
    otaRun c t rxbuf as = some s → GivesUp c s := by
  intro hall
  have h := hall (upgrade 2000) oneStation (fun _ => 0) foreignResponses _ rfl rfl (by decide)
  revert h
  decide

/-! ## Retransmission -/

def Retransmits (s : Loop) : Act → Prop
  | .send _ => ∀ off, s.frag = some off → s.otaOff = off
  | .recv _ => True

/-- A fragment follows an unanswered one only when that was the first one of the image. -/
def LostAtZero (s : Loop) : Act → Prop
  | .send _ => ∀ off, s.frag = some off → off = 0
  | .recv _ => True

def LostInv (c : Session) (s : Loop) : Prop := WaitInv c s ∧ (s.pc = .send → ∀ off, s.frag = some off → s.otaOff = 0)

theorem lostInv_step {c : Session} {s u : Loop} {a : Act} (hi : LostInv c s) (h : step c s a = some u) :
    LostInv c u := by
  refine ⟨waitInv_step hi.1 h, ?_⟩
  rcases step_cases h with ⟨alloc, -, -, -, rfl⟩ | ⟨r, -, hpc, rfl⟩
  · exact nofun
  · intro _ off hoff
    have hna : ¬ Answers c.mac (r.buf s.rxbuf) r.len := by
      intro ha
      have hfrag : (recvHalf c s r).frag = none := if_pos ha
      rw [hfrag] at hoff
      cases hoff
    rw [otaOff_recv hi.1 hpc r, if_neg fun ha => hna ha.1]

/-- In every run with the station in the table, every fragment that follows an unanswered one starts at the same
offset exactly when every such unanswered fragment was the first one of the image. -/
theorem retransmits_iff (c : Session) (t : Libota) (rxbuf : Mem) (as : List Act) (s : Loop) (hin : InTable t c.mac)
    (hrun : otaRun c t rxbuf as = some s) :
    OtaSteps c Retransmits t rxbuf as ↔ OtaSteps c LostAtZero t rxbuf as := by
  refine forall_congr' fun s0 => forall_congr' fun h0 => ?_
  have hinit : LostInv c s0 := by
    refine ⟨waitInv_init hin h0, fun _ off hoff => ?_⟩
    rw [(hgicOtaDevice_eq h0).2.2.2.2.2.1] at hoff
    cases hoff
  rw [otaRun, h0, Option.bind_some] at hrun
  refine steps_congr (step c) (fun s a u => lostInv_step) (fun s a u hi h => ?_) hinit hrun
  rcases step_cases h with ⟨alloc, rfl, hpc, -, -⟩ | ⟨r, rfl, -, -⟩
  · refine forall_congr' fun off => forall_congr' fun hoff => ?_
    rw [hi.2 hpc off hoff]
    exact eq_comm
  · exact Iff.rfl

/-- The first fragment is lost and sent again. -/
theorem retransmits_firstLost :
    (∃ s, otaRun (upgrade 2000) oneStation (fun _ => 0) [.send true, .recv .timeout, .send true] = some s) ∧
      OtaSteps (upgrade 2000) Retransmits oneStation (fun _ => 0) [.send true, .recv .timeout, .send true] := by
  obtain ⟨s, hr⟩ : ∃ s, otaRun (upgrade 2000) oneStation (fun _ => 0) [.send true, .recv .timeout, .send true] =
    some s := ⟨_, rfl⟩
  refine ⟨⟨s, hr⟩, (retransmits_iff _ _ _ _ s inTable_oneStation hr).mpr ?_⟩
  intro s0 h0
  cases h0
  exact ⟨nofun, trivial, fun off hoff => (Option.some.inj hoff).symm, trivial⟩

/-- The second fragment is lost: the loop goes on at 0. -/
theorem retransmits_fails : ¬ ∀ (c : Session) (t : Libota) (rxbuf : Mem) (as : List Act) (s : Loop),
    InTable t c.mac → otaRun c t rxbuf as = some s → OtaSteps c Retransmits t rxbuf as := by
  intro hall
  have h := hall (upgrade 2000) oneStation (fun _ => 0)
    [.send true, .recv (.frame (responseFrame (macOf 1) 0 0 1460)), .send true, .recv .timeout, .send true] _
    inTable_oneStation rfl _ rfl
  have h2 := h.2.2.2.2.1 1460 rfl
  revert h2
  decide

end HgicFmac.Hgota
