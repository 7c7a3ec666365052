import HgicFmac.Core.Step

/-!
# Nothing is sent to a sleeping device

Only `hgicf_tx_ctrl_frm` sets SLEEP, in the work item itself. So at every position behind a test of the flag it stays
clear until the work item is back at `_CTRLQ_TX` (`awake_step`), and every call of `bus->tx_packet` that the work item
makes is at such a position (`send_awake`).
-/

namespace HgicFmac.Core
open Lib

/-- The positions behind a test of SLEEP. -/
def Pc.awake : Pc → Bool
  | .ctrlRunning | .ctrlDeq | .ctrlInboot _ | .ctrlSend _ => true
  | .dataInboot | .wndFc | .wndInboot | .wndSleep | .wndSuspend | .wndRunning | .wndFirst | .wndRequest | .wndSecond
  | .wndDec | .dataDeq | .pick _ | .single _ | .singleSend _ => true
  | .aggAlloc _ | .aggLoop _ _ | .aggDeq _ | .aggSend _ => true
  | _ => false

/-- Behind a test of SLEEP the flag is clear. -/
def Wdev.SleepOk (s : Wdev) : Prop := s.pc.awake → s.sleep = false

def Act.keepsSleep : Act → Bool
  | .wakeUp => false
  | _ => true

section Step
variable {cfg : Cfg} {o : Env} {s t : Wdev} {a : Act}

/-- Every step of the work item comes from an awake position, goes to one that is not, or passes a test. -/
theorem awake_work (hs : s.SleepOk) (h : workStep cfg o s = some t) : t.SleepOk := by
  simp only [workStep] at h
  unfold Wdev.SleepOk at *
  cases hpc : s.pc with
  | idle => simp [hpc] at h
  | ctrlSleep =>
    simp only [hpc, Option.some.injEq] at h
    subst h
    cases hb : s.sleep <;> simp [Wdev.branch, Wdev.goto, hb, Pc.awake]
  | dataSleep =>
    simp only [hpc, Option.some.injEq] at h
    subst h
    cases hb : s.sleep <;> simp [Wdev.branch, Wdev.goto, hb, Pc.awake]
  | ctrlSetSleep | dataNext | ctrlTop | dataTop | dataFw | dataRunning | dataSuspend =>
    -- the next position is before a test
    simp only [hpc, Option.some.injEq] at h
    subst h
    simp only [Wdev.branch, Wdev.goto]
    intro hawake
    revert hawake
    first
    | (split <;> exact fun hf => absurd hf (by decide))
    | exact fun hf => absurd hf (by decide)
  | ctrlClear | dataClear =>
    simp only [hpc, Option.some.injEq] at h
    subst h
    split <;> exact fun hf => absurd hf (by simp [Wdev.goto, Pc.awake])
  | ctrlDeq | dataDeq | aggDeq =>
    -- the flag is clear here and not written
    have hclear := hs (by rw [hpc]; rfl)
    simp only [hpc] at h
    split at h <;> rw [Option.some.injEq] at h <;> subst h <;> exact fun _ => hclear
  | ctrlRunning | ctrlInboot | ctrlSend | dataInboot | wndFc | wndInboot | wndSleep | wndSuspend | wndRunning
  | wndFirst | wndRequest | wndSecond | wndDec | pick | single | singleSend | aggAlloc | aggLoop | aggSend =>
    have hclear := hs (by rw [hpc]; rfl)
    simp only [hpc, Option.some.injEq] at h
    subst h
    first
    | exact fun _ => hclear
    | (split <;> exact fun _ => hclear)

theorem awake_step (hs : s.SleepOk) (h : step cfg s a = some t) : t.SleepOk := by
  rcases step_work_or h with ⟨o, -, h⟩ | henv
  · exact awake_work hs h
  · intro hawake
    rcases henv.sleep with he | ⟨-, he⟩
    · rw [he]
      rcases henv.pc with hpc | hpc
      · exact hs (hpc ▸ hawake)
      · rw [hpc] at hawake
        cases hawake
    · exact he

theorem send_awake (hs : s.pc.awake = false) (h : step cfg s a = some t) : t.wire = s.wire := by
  rcases step_work_or h with ⟨o, -, h⟩ | henv
  · simp only [workStep] at h
    cases hpc : s.pc with
    | idle => simp [hpc] at h
    | ctrlTop | ctrlSleep | ctrlSetSleep | dataTop | dataFw | dataRunning | dataSuspend | dataSleep | dataNext =>
      simp only [hpc, Option.some.injEq] at h
      subst h
      rfl
    | ctrlClear | dataClear =>
      simp only [hpc, Option.some.injEq] at h
      subst h
      split <;> rfl
    | ctrlRunning | ctrlDeq | ctrlInboot | ctrlSend | dataInboot | wndFc | wndInboot | wndSleep | wndSuspend
    | wndRunning | wndFirst | wndRequest | wndSecond | wndDec | dataDeq | pick | single | singleSend | aggAlloc
    | aggLoop | aggDeq | aggSend =>
      rw [hpc] at hs
      cases hs
  · exact henv.wire

theorem asleep_step (hs : s.SleepOk) (hsleep : s.sleep = true) (h : step cfg s a = some t) : t.wire = s.wire := by
  refine send_awake ?_ h
  rw [← Bool.not_eq_true]
  intro hawake
  rw [hs hawake] at hsleep
  cases hsleep

theorem sleep_work (hsleep : s.sleep = true) (h : workStep cfg o s = some t) : t.sleep = true := by
  simp only [workStep, Wdev.branch, Wdev.goto, Wdev.send, Wdev.nextCookie] at h
  split at h
  · cases h
  all_goals first
    | (rw [Option.some.injEq] at h; subst h; first | exact hsleep | rfl | split <;> exact hsleep)
    | (split at h <;> rw [Option.some.injEq] at h <;> subst h <;> exact hsleep)

theorem sleep_step (ha : a.keepsSleep) (hsleep : s.sleep = true) (h : step cfg s a = some t) : t.sleep = true := by
  rcases step_work_or h with ⟨o, -, h⟩ | henv
  · exact sleep_work hsleep h
  · rcases henv.sleep with he | ⟨rfl, -⟩
    · rw [he]
      exact hsleep
    · cases ha

end Step

/-- In every state reached from an idle work item, by any interleaving: no step hands a packet to the bus while SLEEP
is set, and from there nothing is sent until some context clears the flag. -/
theorem no_send_while_asleep {cfg : Cfg} {s0 s : Wdev} {as : List Act} (h0 : s0.pc = .idle)
    (hr : runFrom (step cfg) s0 as = some s) (hsleep : s.sleep = true) :
    (∀ a t, step cfg s a = some t → t.wire = s.wire) ∧
    ∀ bs t, Steps (step cfg) (fun _ b => b.keepsSleep) s bs → runFrom (step cfg) s bs = some t →
      t.sleep = true ∧ t.wire = s.wire := by
  have hinit : s0.SleepOk := fun hawake => by
    rw [h0] at hawake
    cases hawake
  have hs : s.SleepOk := reach_invariant (step cfg) (fun _ _ _ => awake_step) hinit hr
  refine ⟨fun a t h => asleep_step hs hsleep h, fun bs t hb ht => ?_⟩
  have hstep : ∀ u b v, u.SleepOk ∧ u.sleep = true ∧ u.wire = s.wire → b.keepsSleep → step cfg u b = some v →
      v.SleepOk ∧ v.sleep = true ∧ v.wire = s.wire := by
    rintro u b v ⟨hok, hu, hwire⟩ hb h
    refine ⟨awake_step hok h, sleep_step hb hu h, ?_⟩
    rw [asleep_step hok hu h, hwire]
  exact (run_invariant (step cfg) hstep ⟨hs, hsleep, rfl⟩ hb ht).2

def enterSleepCmd : Skb := ⟨[0x2B, 0x1A, 3, 0, 16, 0, 0, 0, 46, 0, 0, 0, 1, 0, 0, 0], []⟩

/-- The work item sends ENTER_SLEEP; a second command is queued behind it. -/
def enterSleepRun : List Act :=
  List.flatten [[.command enterSleepCmd, .command enterSleepCmd, .kick],
    List.replicate 7 (.work ⟨true, fun _ => 0, false⟩)]

theorem no_send_while_asleep_enterSleep :
    ∃ s t, runFrom (step ⟨.little, 0, 1024, 1⟩) hgicfCoreProbe enterSleepRun = some s ∧ s.sleep = true ∧
      runFrom (step ⟨.little, 0, 1024, 1⟩) s (List.replicate 6 (.work ⟨true, fun _ => 0, false⟩)) = some t ∧
      t.wire = s.wire := by
  obtain ⟨s, hr, hsleep⟩ : ∃ s, runFrom (step ⟨.little, 0, 1024, 1⟩) hgicfCoreProbe enterSleepRun = some s ∧
    s.sleep = true := ⟨_, rfl, rfl⟩
  obtain ⟨t, ht⟩ : ∃ t, runFrom (step ⟨.little, 0, 1024, 1⟩) s
      (List.replicate 6 (.work ⟨true, fun _ => 0, false⟩)) = some t := by
    cases hr
    exact ⟨_, rfl⟩
  have hsteps : Steps (step ⟨.little, 0, 1024, 1⟩) (fun _ b => b.keepsSleep) s
      (List.replicate 6 (.work ⟨true, fun _ => 0, false⟩)) := by
    cases hr
    decide
  exact ⟨s, t, hr, hsleep, ht, ((no_send_while_asleep rfl hr hsleep).2 _ t hsteps ht).2⟩

end HgicFmac.Core
