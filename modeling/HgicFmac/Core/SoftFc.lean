import HgicFmac.Fwctrl.Cmd
import HgicFmac.Fwdl.Reload

/-!
# Soft flow control: `hgicf_delay_init` and `hgicf_detect_work`

Firmware before version 2 needs soft flow control. `hgicf_check_txwnd` looks at `hg->soft_fc`, the SDIO driver at
`HGIC_BUS_FLAGS_SOFTFC`. `hgicf_delay_init` writes both, `hgicf_detect_work` only the first one.

* `FcDev` : what the two work items write; `InitEnv`, `DetectEnv` : the flags that they find, and the outcomes of
  commands and calls;
* `hgicfDelayInit`, `hgicfDetectWork`, `step` : the work items, in any order;
* `Reloads` : the branch of `hgicf_detect_work` that starts a reload;
* `Synced` : the two agree; `soft_fc_synced` : they do in every state of a run exactly if no reload is started while
  SOFTFC is set.
-/

namespace HgicFmac.SoftFc
open Lib Fwctrl Fwdl

/-- Module parameters and the boot loader's interface. -/
structure Cfg where
  b : Bootdl
  noBootdl : Bool
  qcMode : Bool

structure FcDev extends Dev where
  /-- `hg->soft_fc`, and `HGIC_BUS_FLAGS_SOFTFC`. -/
  softFc : Nat
  softfc : Bool
  suspend : Bool
  inited : Bool
  fwinfo : Fwctrl.FwInfo
  queued : Bool

/-- The window check of `hgicf_check_txwnd` is on. -/
def FcDev.txwndChecked (s : FcDev) : Bool := s.softFc ≠ 0

/-- `hgic_sdio_tx_packet` asks the device whether it is busy. -/
def FcDev.busyPolled (s : FcDev) : Bool := !s.softfc

/-! ## `hgicf_delay_init` -/

/-- RUNNING at the first test; the outcomes of the download, of the query and of `hgicf_create_iface`; and whether the
bus can be initialised again and RUNNING is still set at the end. -/
structure InitEnv where
  running : Bool
  download : Fwdl.Env
  fwinfo : Reply
  stack : Mem
  iface : Bool
  again : Bool

def needsSoftFc (info : Fwctrl.FwInfo) : Bool := info.version < 0x2000000

def reinit (env : InitEnv) (s : FcDev) : FcDev := { s with queued := s.queued || env.again }

/-- The new firmware is known: both places are written, and the interface is created for the first one. -/
def setSoftFc (env : InitEnv) (info : Fwctrl.FwInfo) (s : FcDev) : FcDev :=
  let t := { s with
    fwinfo := info
    softFc := if needsSoftFc info then 1 else 0
    softfc := needsSoftFc info }
  if s.inited then t else if env.iface then { t with inited := true } else reinit env t

def hgicfDelayInit (cfg : Cfg) (env : InitEnv) (s : FcDev) : Option FcDev :=
  if env.running then
    (hgicfDownloadFw cfg.b env.download cfg.noBootdl cfg.qcMode s.toDev).map fun r =>
      let t := { s with toDev := r.2, suspend := false }
      if r.1 then
        let q := hgicFwctrlGetFwinfo env.fwinfo env.stack t.fwinfo
        if q.1 ≤ 0 then reinit env t else setSoftFc env q.2 t
      else reinit env t
  else some s

/-! ## `hgicf_detect_work` -/

/-- The flags at their tests, whether nothing was received for long, the outcomes of the commands, and RUNNING at its
second test. -/
structure DetectEnv where
  sleep : Bool
  running : Bool
  suspend : Bool
  error : Bool
  late : Bool
  o : Nat → Outcome
  running' : Bool

def detectLoop (b : Bootdl) (o : Nat → Outcome) : Nat → Int → Xfer → Int × Xfer
  | 0, status, x => (status, x)
  | retry + 1, status, x =>
    if status ≠ stateFw then
      let y := hgicBootdlCmdEnter b o x
      detectLoop b o retry y.1 y.2
    else (status, x)

def DetectEnv.asks (env : DetectEnv) : Bool :=
  !env.sleep && env.running && (env.suspend || env.error || env.late)

/-- The device is not in its firmware, or a reload is under way. -/
def needsReload (cfg : Cfg) (env : DetectEnv) (s : FcDev) : Bool :=
  (detectLoop cfg.b env.o 4 (-1) s.x).1 ≠ stateFw || s.fwState ≠ stateFw.toNat

def hgicfDetectWork (cfg : Cfg) (env : DetectEnv) (s : FcDev) : FcDev :=
  if env.asks then
    let t := { s with x := (detectLoop cfg.b env.o 4 (-1) s.x).2 }
    if needsReload cfg env s && env.running' then
      { t with softFc := 0, fwState := 255, suspend := true, queued := true }
    else t
  else s

def Reloads (cfg : Cfg) (env : DetectEnv) (s : FcDev) : Prop :=
  env.asks = true ∧ needsReload cfg env s = true ∧ env.running' = true

instance (cfg : Cfg) (env : DetectEnv) (s : FcDev) : Decidable (Reloads cfg env s) :=
  inferInstanceAs (Decidable (_ ∧ _ ∧ _))

inductive Act
  | delayInit (env : InitEnv)
  | detectWork (env : DetectEnv)

def step (cfg : Cfg) (s : FcDev) : Act → Option FcDev
  | .delayInit env => hgicfDelayInit cfg env s
  | .detectWork env => some (hgicfDetectWork cfg env s)

/-! ## The two places -/

/-- `soft_fc` is 1 exactly when SOFTFC is set; then one of the window check and the polling is on, and not both. -/
def Synced (s : FcDev) : Prop := (s.softFc = 1 ↔ s.softfc = true) ∧ s.txwndChecked ≠ s.busyPolled

instance (s : FcDev) : Decidable (Synced s) := inferInstanceAs (Decidable (_ ∧ _))

def Clears (cfg : Cfg) (s : FcDev) : Act → Prop
  | .delayInit _ => True
  | .detectWork env => Reloads cfg env s → s.softfc = false

/-- The values that the places can have. -/
theorem synced_iff {s : FcDev} (h : s.softFc ≤ 1) : Synced s ↔ s.softFc = if s.softfc then 1 else 0 := by
  unfold Synced FcDev.txwndChecked FcDev.busyPolled
  obtain h0 | h1 : s.softFc = 0 ∨ s.softFc = 1 := by omega
  · rw [h0]
    cases s.softfc <;> simp
  · rw [h1]
    cases s.softfc <;> simp

section Step
variable {cfg : Cfg} {s t : FcDev}

theorem setSoftFc_fields (env : InitEnv) (info : Fwctrl.FwInfo) (s : FcDev) :
    (setSoftFc env info s).softFc = (if needsSoftFc info then 1 else 0) ∧
      (setSoftFc env info s).softfc = needsSoftFc info := by
  unfold setSoftFc
  dsimp only
  split
  · exact ⟨rfl, rfl⟩
  · split
    · exact ⟨rfl, rfl⟩
    · exact ⟨rfl, rfl⟩

theorem delayInit_cases {env : InitEnv} (h : hgicfDelayInit cfg env s = some t) :
    (t.softFc = s.softFc ∧ t.softfc = s.softfc) ∨
    ∃ info, t.softFc = (if needsSoftFc info then 1 else 0) ∧ t.softfc = needsSoftFc info := by
  unfold hgicfDelayInit at h
  split at h
  · obtain ⟨r, -, rfl⟩ := Option.map_eq_some_iff.mp h
    dsimp only
    split
    · split
      · exact .inl ⟨rfl, rfl⟩
      · exact .inr ⟨_, setSoftFc_fields env _ _⟩
    · exact .inl ⟨rfl, rfl⟩
  · rw [Option.some.injEq] at h
    exact .inl (h ▸ ⟨rfl, rfl⟩)

/-- `hgicf_detect_work` clears `soft_fc` when it starts a reload, and never touches SOFTFC. -/
theorem detectWork_fields (cfg : Cfg) (env : DetectEnv) (s : FcDev) :
    (hgicfDetectWork cfg env s).softFc = (if Reloads cfg env s then 0 else s.softFc) ∧
      (hgicfDetectWork cfg env s).softfc = s.softfc := by
  unfold hgicfDetectWork
  by_cases hr : Reloads cfg env s
  · rw [if_pos hr, if_pos hr.1]
    simp [hr.2.1, hr.2.2]
  · rw [if_neg hr]
    split
    · next hasks =>
      dsimp only
      split
      · next h => exact absurd ⟨hasks, Bool.and_eq_true_iff.mp h⟩ hr
      · exact ⟨rfl, rfl⟩
    · exact ⟨rfl, rfl⟩

theorem softFc_le_step {a : Act} (hs : s.softFc ≤ 1) (h : step cfg s a = some t) : t.softFc ≤ 1 := by
  cases a with
  | delayInit env =>
    rcases delayInit_cases h with ⟨he, -⟩ | ⟨info, he, -⟩
    · rw [he]
      exact hs
    · rw [he]
      split <;> omega
  | detectWork env =>
    rw [step, Option.some.injEq] at h
    rw [← h, (detectWork_fields cfg env s).1]
    split
    · exact Nat.zero_le 1
    · exact hs

theorem synced_step {a : Act} (hs : s.softFc ≤ 1) (hq : Synced s) (h : step cfg s a = some t) :
    Synced t ↔ Clears cfg s a := by
  rw [synced_iff hs] at hq
  rw [synced_iff (softFc_le_step hs h)]
  cases a with
  | delayInit env =>
    refine ⟨fun _ => trivial, fun _ => ?_⟩
    rcases delayInit_cases h with ⟨h1, h2⟩ | ⟨info, h1, h2⟩
    · rw [h1, h2]
      exact hq
    · rw [h1, h2]
  | detectWork env =>
    rw [step, Option.some.injEq] at h
    obtain ⟨h1, h2⟩ := detectWork_fields cfg env s
    rw [← h, h1, h2, Clears]
    by_cases hr : Reloads cfg env s
    · rw [if_pos hr]
      cases s.softfc <;> simp [hr]
    · rw [if_neg hr]
      exact ⟨fun _ hn => absurd hn hr, fun _ => hq⟩

end Step

/-- From a device with `soft_fc` 0 and SOFTFC clear, in every run of completed executions of the two work items: the
two places agree after each execution exactly if no execution of `hgicf_detect_work` starts a reload while SOFTFC is
set. -/
theorem soft_fc_synced {cfg : Cfg} {s0 u : FcDev} {as : List Act} (h0 : s0.softFc = 0) (hflag : s0.softfc = false)
    (hr : runFrom (step cfg) s0 as = some u) :
    Always (step cfg) Synced s0 as ↔ Steps (step cfg) (Clears cfg) s0 as := by
  have hle : s0.softFc ≤ 1 := h0 ▸ Nat.zero_le 1
  have hq : Synced s0 := (synced_iff hle).mpr (by rw [h0, hflag]; rfl)
  exact always_iff_steps (step cfg) (fun s a t hs _ ht => softFc_le_step hs ht)
    (fun s a t hs hq ht => synced_step hs hq ht) hle hq hr

/-- A device that runs its firmware already (`no_bootdl`), as `hgicf_core_probe` leaves it. -/
def plainCfg : Cfg := ⟨hgicBootdlInit .little (.sdio false), true, false⟩

def newDev : FcDev where
  inboot := false
  bootdl := false
  fwState := 255
  x := ⟨0, 0, []⟩
  softFc := 0
  softfc := false
  suspend := false
  inited := false
  fwinfo := .zero
  queued := false

def noAnswer : Nat → Outcome := fun _ => ⟨true, 0, none⟩

def firmwareV1 : InitEnv where
  running := true
  download := ⟨noAnswer, fun _ => .error ⟨-2, by decide⟩, true, false, fun _ => true, fun _ => true⟩
  fwinfo := ⟨true, some ⟨28, Mem.ofList [0, 0, 0, 1]⟩⟩
  stack := fun _ => 0
  iface := true
  again := true

/-- Nothing was received for long, and the device does not answer; `asleep` says that it sleeps. -/
def silentDevice (asleep : Bool) : DetectEnv := ⟨asleep, true, false, false, true, noAnswer, true⟩

theorem soft_fc_synced_sleeping : ∃ u,
    runFrom (step plainCfg) newDev [.delayInit firmwareV1, .detectWork (silentDevice true)] = some u ∧ u.softFc = 1 ∧
    Always (step plainCfg) Synced newDev [.delayInit firmwareV1, .detectWork (silentDevice true)] := by
  obtain ⟨u, hr, hu⟩ : ∃ u, runFrom (step plainCfg) newDev [.delayInit firmwareV1, .detectWork (silentDevice true)] =
    some u ∧ u.softFc = 1 := ⟨_, rfl, rfl⟩
  have hsleep : ∀ s, ¬ Reloads plainCfg (silentDevice true) s := fun s h => absurd h.1 (by decide)
  exact ⟨u, hr, hu, (soft_fc_synced rfl rfl hr).mpr ⟨trivial, fun h => absurd h (hsleep _), trivial⟩⟩

/-- With firmware 1.0.0.0, a device that stops answering leaves `soft_fc` 0 with SOFTFC set. -/
theorem soft_fc_off_with_flag : ∃ u,
    runFrom (step plainCfg) newDev [.delayInit firmwareV1, .detectWork (silentDevice false)] = some u ∧
    u.softFc = 0 ∧ u.softfc = true ∧ u.txwndChecked = false ∧ u.busyPolled = false ∧ ¬ Synced u := by
  refine ⟨_, rfl, rfl, rfl, rfl, rfl, ?_⟩
  decide

end HgicFmac.SoftFc
