import HgicFmac.Core.Step

/-!
# The transmit window: `hgicf_check_txwnd`

The check is two reads of `txwnd`, with a request for a new window between them, and a decrement. `hgicf_rx_data` stores
a new window at any moment.

* `Wnd` : the device with the window that was advertised last, the frames admitted since then, and the window that was
  stored since the second read of the current check, if any;
* `wndStep` : one access of `hgicf_tx_work`, a window update, or a step of another context that touches neither the
  window nor soft flow control;
* `WndWork` : what an access of `hgicf_tx_work` does to the window;
* `InWindow` : the window is not negative and not more frames are admitted than it allowed;
* `txwnd_in_window` : this holds in every state of a run exactly if no decrement follows an update to 0 that came after
  the second read.
-/

namespace HgicFmac.Core
open Lib

structure Wnd where
  dev : Wdev
  wnd : Nat
  admitted : Nat
  gap : Option Nat

def Pc.isDec : Pc → Bool
  | .wndDec => true
  | _ => false

def Pc.isSecond : Pc → Bool
  | .wndSecond => true
  | _ => false

/-- `hgicf_tx_work` has tested INBOOT, and `hgicf_check_txwnd` not yet. -/
def Pc.isUntested : Pc → Bool
  | .wndFc | .wndInboot => true
  | _ => false

/-- The access lets `hgicf_check_txwnd` return 0: a frame is admitted. -/
def Wdev.admits (s : Wdev) : Bool :=
  match s.pc with
  | .wndDec => true
  | .wndInboot => s.inboot
  | .wndFc => !s.softFc
  | _ => false

/-- Soft flow control stays on, and INBOOT is not written, as no firmware is downloaded; the cookie of a SOFTFC packet
has 16 bits. -/
def wndStep (cfg : Cfg) (s : Wnd) : Act → Option Wnd
  | .work o => (workStep cfg o s.dev).map fun d =>
    { s with
      dev := d
      admitted := s.admitted + if s.dev.admits then 1 else 0
      gap := if s.dev.pc.isSecond then none else s.gap }
  | .window n =>
    if 0 ≤ n ∧ n < 2 ^ 16 then
      (step cfg s.dev (.window n)).map fun d => { dev := d, wnd := n.toNat, admitted := 0, gap := some n.toNat }
    else none
  | .flags running suspend inboot softFc fwState =>
    if softFc = true ∧ inboot = s.dev.inboot then
      (step cfg s.dev (.flags running suspend inboot softFc fwState)).map fun d => { s with dev := d }
    else none
  | a => (step cfg s.dev a).map fun d => { s with dev := d }

structure WndWork (s t : Wdev) : Prop where
  softFc : t.softFc = s.softFc
  inboot : t.inboot = s.inboot
  txwnd : t.txwnd = s.txwnd - if s.pc.isDec then 1 else 0
  dec : t.pc.isDec = true → s.pc.isSecond = true ∧ txwndInitVal ≤ s.txwnd
  untested : t.pc.isUntested = true → s.pc.isUntested = true ∨ s.inboot = false

section Step
variable {cfg : Cfg} {o : Env} {s t : Wdev}

theorem not_dec_ctrlNext (p : Skb) : (ctrlNext p).isDec = false ∧ (ctrlNext p).isUntested = false := by
  unfold ctrlNext
  split <;> exact ⟨rfl, rfl⟩

/-- An access that neither decrements the window nor leads to a decisive position. -/
theorem WndWork.plain (hfc : t.softFc = s.softFc ∧ t.inboot = s.inboot ∧ t.txwnd = s.txwnd) (hs : s.pc.isDec = false)
    (ht : t.pc.isDec = false ∧ t.pc.isUntested = false) : WndWork s t where
  softFc := hfc.1
  inboot := hfc.2.1
  txwnd := by rw [hs, hfc.2.2]; exact (Int.sub_zero _).symm
  dec h := absurd (ht.1.symm.trans h) Bool.false_ne_true
  untested h := absurd (ht.2.symm.trans h) Bool.false_ne_true

theorem work_wnd (h : workStep cfg o s = some t) : WndWork s t := by
  simp only [workStep] at h
  cases hpc : s.pc with
  | idle => simp [hpc] at h
  | wndSecond =>
    simp only [hpc, Option.some.injEq] at h
    subst h
    unfold Wdev.branch Wdev.goto
    by_cases hlt : s.txwnd < txwndInitVal
    · exact .plain ⟨rfl, rfl, rfl⟩ (by rw [hpc]; rfl) (by simp [hlt, Pc.isDec, Pc.isUntested])
    · constructor <;> simp [hpc, hlt, Pc.isDec, Pc.isSecond, Pc.isUntested, Int.not_lt.mp hlt]
  | dataInboot =>
    simp only [hpc, Option.some.injEq] at h
    subst h
    unfold Wdev.branch Wdev.goto
    cases hb : s.inboot <;> constructor <;> simp [hpc, hb, Pc.isDec, Pc.isUntested]
  | wndFc =>
    simp only [hpc, Option.some.injEq] at h
    subst h
    unfold Wdev.branch Wdev.goto
    cases hb : s.softFc <;> constructor <;> simp [hpc, hb, Pc.isDec, Pc.isUntested]
  | wndDec =>
    simp only [hpc, Option.some.injEq] at h
    subst h
    unfold Wdev.goto
    constructor <;> simp [hpc, Pc.isDec, Pc.isUntested]
  | ctrlDeq | dataDeq | aggDeq =>
    simp only [hpc] at h
    split at h <;> rw [Option.some.injEq] at h <;> subst h <;>
      refine .plain ⟨rfl, rfl, rfl⟩ (by rw [hpc]; rfl) ?_
    all_goals first
      | exact ⟨rfl, rfl⟩
      | exact not_dec_ctrlNext _
  | ctrlTop | ctrlSleep | ctrlRunning | ctrlClear | ctrlInboot | ctrlSend | ctrlSetSleep | dataTop | dataFw
  | dataRunning | dataSuspend | dataSleep | dataClear | wndInboot | wndSleep | wndSuspend | wndRunning | wndFirst
  | wndRequest | pick | single | singleSend | aggAlloc | aggLoop | aggSend | dataNext =>
    simp only [hpc, Option.some.injEq] at h
    subst h
    refine .plain ?_ (by rw [hpc]; rfl) ?_
    · first
      | exact ⟨rfl, rfl, rfl⟩
      | (split <;> exact ⟨rfl, rfl, rfl⟩)
    · simp only [Wdev.branch, Wdev.goto, Wdev.send, Wdev.nextCookie]
      first
      | exact ⟨rfl, rfl⟩
      | (split <;> exact ⟨rfl, rfl⟩)

end Step

/-! ## The window over a run -/

structure WndInv (s : Wnd) : Prop where
  softFc : s.dev.softFc = true
  inboot : s.dev.pc.isUntested = true → s.dev.inboot = false
  balance : s.dev.txwnd = s.wnd - s.admitted
  /-- At the decrement the window is the one that was read, or the last one stored since. -/
  dec : s.dev.pc.isDec = true → (s.gap = none → txwndInitVal ≤ s.dev.txwnd) ∧ ∀ n, s.gap = some n → s.dev.txwnd = n

/-- The window is not negative, and the frames admitted since it was advertised fit into it. -/
def InWindow (s : Wnd) : Prop := 0 ≤ s.dev.txwnd ∧ s.admitted ≤ s.wnd

instance (s : Wnd) : Decidable (InWindow s) := inferInstanceAs (Decidable (_ ∧ _))

/-- A decrement does not follow an update to 0 that came after the second read of the same check. -/
def NoZeroGap (s : Wnd) : Act → Prop
  | .work _ => s.dev.pc.isDec = true → s.gap ≠ some 0
  | _ => True

section Run
variable {cfg : Cfg} {s t : Wnd} {a : Act}

/-- With soft flow control on, a frame is admitted by the decrement and by nothing else. -/
theorem WndInv.admits (hi : WndInv s) : s.dev.admits = s.dev.pc.isDec := by
  unfold Wdev.admits
  cases hpc : s.dev.pc with
  | wndInboot => exact hi.inboot (by rw [hpc]; rfl)
  | wndFc => rw [hi.softFc]; rfl
  | _ => rfl

theorem wndInv_work {o : Env} (hi : WndInv s) (h : wndStep cfg s (.work o) = some t) : WndInv t := by
  obtain ⟨d, hd, rfl⟩ := Option.map_eq_some_iff.mp h
  have hw := work_wnd hd
  refine ⟨hw.softFc.trans hi.softFc, fun hu => ?_, ?_, fun hdec => ?_⟩
  · rcases hw.untested hu with hu | hb
    · rw [hw.inboot]
      exact hi.inboot hu
    · rw [hw.inboot]
      exact hb
  · show d.txwnd = s.wnd - ((s.admitted + if s.dev.admits then 1 else 0 : Nat) : Int)
    rw [hw.txwnd, hi.balance, hi.admits]
    split <;> omega
  · -- the second read has just found the window
    obtain ⟨hsec, hle⟩ := hw.dec hdec
    have hnd : s.dev.pc.isDec = false := by
      cases hpc : s.dev.pc <;> simp_all [Pc.isSecond, Pc.isDec]
    refine ⟨fun _ => ?_, fun n hn => ?_⟩
    · show txwndInitVal ≤ d.txwnd
      rw [hw.txwnd, hnd]
      simpa using hle
    · rw [if_pos hsec] at hn
      cases hn

theorem wndStep_other (ha : ∀ o, a ≠ .work o) (hn : ∀ n, a ≠ .window n) (h : wndStep cfg s a = some t) :
    t.wnd = s.wnd ∧ t.admitted = s.admitted ∧ t.gap = s.gap ∧ t.dev.txwnd = s.dev.txwnd ∧
      t.dev.inboot = s.dev.inboot ∧ (s.dev.softFc = true → t.dev.softFc = true) ∧
      (t.dev.pc = s.dev.pc ∨ t.dev.pc = .ctrlTop) := by
  cases a with
  | work o => exact absurd rfl (ha o)
  | window n => exact absurd rfl (hn n)
  | flags running suspend inboot softFc fwState =>
    rw [wndStep] at h
    split at h
    · next hf =>
      obtain ⟨d, hd, rfl⟩ := Option.map_eq_some_iff.mp h
      rw [step, Option.some.injEq] at hd
      subst hd
      exact ⟨rfl, rfl, rfl, rfl, hf.2, fun _ => hf.1, .inl rfl⟩
    · cases h
  | kick =>
    obtain ⟨d, hd, rfl⟩ := Option.map_eq_some_iff.mp h
    simp only [step] at hd
    split at hd <;> rw [Option.some.injEq] at hd <;> subst hd
    · exact ⟨rfl, rfl, rfl, rfl, rfl, id, .inr rfl⟩
    · exact ⟨rfl, rfl, rfl, rfl, rfl, id, .inl rfl⟩
  | xmit p =>
    obtain ⟨d, hd, rfl⟩ := Option.map_eq_some_iff.mp h
    simp only [step] at hd
    split at hd
    · rw [Option.some.injEq] at hd
      subst hd
      exact ⟨rfl, rfl, rfl, rfl, rfl, id, .inl rfl⟩
    · cases hd
  | xmitStep expanded =>
    obtain ⟨d, hd, rfl⟩ := Option.map_eq_some_iff.mp h
    simp only [step, hgicfNetifXmit] at hd
    split at hd
    · cases hd
    all_goals
      rw [Option.some.injEq] at hd
      subst hd
      exact ⟨rfl, rfl, rfl, rfl, rfl, id, .inl rfl⟩
  | command | dropCommand | dropFrame | wakeUp =>
    simp only [wndStep, step, Option.map_some, Option.some.injEq] at h
    subst h
    exact ⟨rfl, rfl, rfl, rfl, rfl, id, .inl rfl⟩

theorem wndStep_window {n : Int} (h : wndStep cfg s (.window n) = some t) :
    0 ≤ n ∧ t = { dev := { s.dev with txwnd := n }, wnd := n.toNat, admitted := 0, gap := some n.toNat } := by
  rw [wndStep] at h
  split at h
  · next hn =>
    rw [step, Option.map_some, Option.some.injEq] at h
    exact ⟨hn.1, h.symm⟩
  · cases h

theorem wndInv_step (hi : WndInv s) (h : wndStep cfg s a = some t) : WndInv t := by
  by_cases ha : ∃ o, a = .work o
  · obtain ⟨o, rfl⟩ := ha
    exact wndInv_work hi h
  by_cases hn : ∃ n, a = .window n
  · obtain ⟨n, rfl⟩ := hn
    obtain ⟨h0, rfl⟩ := wndStep_window h
    refine ⟨hi.softFc, hi.inboot, ?_, fun _ => ⟨nofun, fun m hm => ?_⟩⟩
    · show n = (n.toNat : Int) - (0 : Nat)
      omega
    · show n = m
      rw [Option.some.injEq] at hm
      omega
  · obtain ⟨hw, had, hg, htx, hin, hfc, hpc⟩ :=
      wndStep_other (fun o ho => ha ⟨o, ho⟩) (fun n hn' => hn ⟨n, hn'⟩) h
    refine ⟨hfc hi.softFc, fun hu => ?_, by rw [htx, hw, had]; exact hi.balance, fun hd => ?_⟩
    · rw [hin]
      rcases hpc with hpc | hpc <;> rw [hpc] at hu
      · exact hi.inboot hu
      · cases hu
    · rw [hg, htx]
      rcases hpc with hpc | hpc <;> rw [hpc] at hd
      · exact hi.dec hd
      · cases hd

theorem inWindow_step (hi : WndInv s) (hq : InWindow s) (h : wndStep cfg s a = some t) :
    InWindow t ↔ NoZeroGap s a := by
  have hbt := (wndInv_step hi h).balance
  have hbs := hi.balance
  by_cases ha : ∃ o, a = .work o
  · obtain ⟨o, rfl⟩ := ha
    obtain ⟨d, hd, rfl⟩ := Option.map_eq_some_iff.mp h
    have htx := (work_wnd hd).txwnd
    have hadm := hi.admits
    unfold InWindow NoZeroGap at *
    dsimp only at *
    cases hdec : s.dev.pc.isDec with
    | false =>
      rw [hdec] at htx hadm
      simp only [hadm, Bool.false_eq_true, if_false, Int.sub_zero, Nat.add_zero] at htx ⊢
      rw [htx]
      exact ⟨fun _ => nofun, fun _ => hq⟩
    | true =>
      obtain ⟨hnone, hsome⟩ := hi.dec hdec
      rw [hdec] at htx hadm
      simp only [hadm, if_true] at htx hbt ⊢
      cases hg : s.gap with
      | none =>
        have hle := hnone hg
        unfold txwndInitVal at hle
        exact ⟨fun _ _ => nofun, fun _ => by omega⟩
      | some n =>
        have hn := hsome n hg
        rw [hn] at htx
        constructor
        · rintro ⟨h0, -⟩ - hz
          rw [Option.some.injEq] at hz
          omega
        · intro hz
          have hne : n ≠ 0 := fun h0 => hz trivial (by rw [h0])
          omega
  · have htriv : NoZeroGap s a := by
      cases a with
      | work o => exact absurd ⟨o, rfl⟩ ha
      | _ => trivial
    refine ⟨fun _ => htriv, fun _ => ?_⟩
    by_cases hn : ∃ n, a = .window n
    · obtain ⟨n, rfl⟩ := hn
      obtain ⟨h0, rfl⟩ := wndStep_window h
      exact ⟨h0, Nat.zero_le _⟩
    · obtain ⟨hw, had, -, htx, -⟩ := wndStep_other (fun o ho => ha ⟨o, ho⟩) (fun n hn' => hn ⟨n, hn'⟩) h
      unfold InWindow
      rw [hw, had, htx]
      exact hq

end Run

/-- From an idle work item with a window that has just been stored, with soft flow control on, in every interleaving of
the accesses of `hgicf_tx_work` with window updates: the window never becomes negative and never more frames are
admitted than the last update allowed, exactly if no decrement follows an update to 0 that came after the second read
of its check. -/
theorem txwnd_in_window {cfg : Cfg} {s0 u : Wnd} {as : List Act} (hpc : s0.dev.pc = .idle)
    (hfc : s0.dev.softFc = true) (hwnd : s0.dev.txwnd = s0.wnd) (hadm : s0.admitted = 0)
    (hr : runFrom (wndStep cfg) s0 as = some u) :
    Always (wndStep cfg) InWindow s0 as ↔ Steps (wndStep cfg) NoZeroGap s0 as := by
  have hi : WndInv s0 := by
    refine ⟨hfc, fun hu => ?_, by rw [hwnd, hadm]; exact (Int.sub_zero _).symm, fun hd => ?_⟩
    · rw [hpc] at hu
      cases hu
    · rw [hpc] at hd
      cases hd
  have hq : InWindow s0 := ⟨by rw [hwnd]; exact Int.natCast_nonneg _, by rw [hadm]; exact Nat.zero_le _⟩
  exact always_iff_steps (wndStep cfg) (fun s a t hs _ ht => wndInv_step hs ht)
    (fun s a t hs hq ht => inWindow_step hs hq ht) hi hq hr

/-- One frame waits, and the window is the one of `hgicf_core_probe`. -/
def oneFrame : Wnd where
  dev := { hgicfCoreProbe with fwState := 0, softFc := true, dataq := [⟨⟨hgicHdrTxMagic, 9, 1, 0, 9, 0⟩, [7], []⟩] }
  wnd := 3
  admitted := 0
  gap := none

def softFcCfg : Cfg := ⟨.little, 0, 100, 1⟩

def oneWork : Act := .work ⟨true, fun _ => 0, false⟩

/-- The work item runs up to the decrement; the update comes there. -/
def updateInGap (n : Int) : List Act := .kick :: List.replicate 14 oneWork ++ [.window n, oneWork]

theorem txwnd_in_window_updateOne : ∃ u, runFrom (wndStep softFcCfg) oneFrame (updateInGap 1) = some u ∧ u.admitted = 1 ∧
    Always (wndStep softFcCfg) InWindow oneFrame (updateInGap 1) := by
  obtain ⟨u, hr, hadm⟩ : ∃ u, runFrom (wndStep softFcCfg) oneFrame (updateInGap 1) = some u ∧ u.admitted = 1 :=
    ⟨_, rfl, rfl⟩
  refine ⟨u, hr, hadm, (txwnd_in_window rfl rfl rfl rfl hr).mpr ?_⟩
  simp only [updateInGap, List.replicate, List.cons_append, List.nil_append]
  repeat' apply And.intro
  all_goals first
    | exact trivial
    | exact nofun

/-- An update to 0 between the second read and the decrement makes the window negative. -/
theorem txwnd_negative : ∃ u, runFrom (wndStep softFcCfg) oneFrame (updateInGap 0) = some u ∧ u.dev.txwnd = -1 ∧
    u.wnd = 0 ∧ u.admitted = 1 ∧ ¬ InWindow u :=
  ⟨_, rfl, rfl, rfl, rfl, fun h => absurd h.1 (by decide)⟩

end HgicFmac.Core
