import HgicFmac.Fwdl.Enter
import HgicFmac.Fwdl.Packets

/-!
# `hgicf_download_fw`

Two loops share `status`, which holds a state of the device, a response code or a negative error number.

* `Bus`, `hgicBootdlInit` : what the probe functions of the buses set up;
* `Env` : the outcomes of commands, the results of `request_firmware` and `bus->reinit`, and the flag RUNNING;
* `enterLoop`, `reinitLoop`, `hgicfDownloadFw` : the function;
* `LastFw` : the last ENTER command was answered with a valid IN_FW reply;
* `download_spec` : what a download leaves; `Status` : what the loops keep;
* `download_fw_result` : the bounds on the attempts and the meaning of the result.
-/

namespace HgicFmac.Fwdl
open Lib HgicFmac.Core Fwctrl Fwinfo

/-- `hgic_sdio_probe`, on an SPI host or not, and `hgic_usb_probe` with the size of the OUT endpoint. -/
inductive Bus
  | sdio (spi : Bool)
  | usb (epOutSize : Nat)

def hgicBootdlInit (e : Endian) : Bus → Bootdl
  | .sdio spi => ⟨e, .sdio, 64, if spi then 4096 else 32704, hgicBusBootdlCheck0XFD⟩
  | .usb epOutSize => ⟨e, .usb, epOutSize, 2048, hgicBusBootdlCheck0XFD⟩

structure Env where
  o : Nat → Outcome
  /-- The result of `request_firmware` in the `k`-th download. -/
  fw : Nat → Request
  /-- `bus->reinit` is there, and `HGIC_BUS_FLAGS_NOPOLL` is set. -/
  reinit : Bool
  nopoll : Bool
  /-- RUNNING, and the success of `bus->reinit`, when `k` passes of the second loop are left. -/
  running : Nat → Bool
  reinitOk : Nat → Bool

/-- `while (status != STATE_FW && retry-- > 0 && err)`. -/
def enterLoop (b : Bootdl) (env : Env) : Nat → Int → Int → Xfer → Option (Int × Int × Xfer)
  | 0, status, err, x => some (status, err, x)
  | retry + 1, status, err, x =>
    if status ≠ stateFw ∧ err ≠ 0 then
      let y := hgicBootdlCmdEnter b env.o x
      if y.1 = stateBoot then
        (hgicBootdlDownload b env.o (env.fw y.2.downloads) y.2).bind fun d => enterLoop b env retry y.1 d.1 d.2
      else enterLoop b env retry y.1 err y.2
    else some (status, err, x)

/-- `while (retry-- > 0 && RUNNING && STATE_FW != status)`. -/
def reinitLoop (b : Bootdl) (env : Env) : Nat → Int → Xfer → Int × Xfer
  | 0, status, x => (status, x)
  | retry + 1, status, x =>
    if env.running retry = true ∧ status ≠ stateFw then
      if env.reinitOk retry then
        let y := hgicBootdlCmdEnter b env.o x
        reinitLoop b env retry y.1 y.2
      else reinitLoop b env retry status x
    else (status, x)

/-- `HGIC_BUS_FLAGS_INBOOT`, `HGICF_DEV_FLAGS_BOOTDL`, the 8-bit `fw_state`, and the history of the transfers. -/
structure Dev where
  inboot : Bool
  bootdl : Bool
  fwState : Nat
  x : Xfer

/-- What follows the first loop: BOOTDL and the second loop, when the download succeeded. -/
def afterEnter (b : Bootdl) (env : Env) (status err : Int) (s : Dev) : Int × Dev :=
  if status = stateBoot ∧ err = 0 then
    if env.reinit && env.nopoll then
      let y := reinitLoop b env 50 status s.x
      (y.1, { s with bootdl := true, x := y.2 })
    else (status, { s with bootdl := true })
  else (status, s)

/-- `hgicf_download_fw`, with the module parameters `no_bootdl` and `qc_mode`. INBOOT is set before the first loop and
cleared behind it; no other context writes it. -/
def hgicfDownloadFw (b : Bootdl) (env : Env) (noBootdl qcMode : Bool) (s : Dev) : Option (Bool × Dev) :=
  let status := if noBootdl || qcMode then stateFw else -1
  (enterLoop b env 10 status (-1) s.x).map fun r =>
    let y := afterEnter b env r.1 r.2.1 { s with inboot := false, x := r.2.2 }
    (decide (y.1 = stateFw), { y.2 with fwState := (y.1 % 2 ^ 8).toNat })

/-! ## A download -/

def isEnter (ev : Event) : Bool :=
  match ev.sent with
  | .cmd .enter _ => true
  | _ => false

def RunAcked (b : Bootdl) (x : Xfer) : Prop := ∃ ev ∈ x.log, (∃ bytes, ev.sent = .cmd .run bytes) ∧ ev.ret b = 0

theorem fragSize_init (e : Endian) (bus : Bus) : 0 < (hgicBootdlInit e bus).fragSize := by
  cases bus with
  | sdio spi => cases spi <;> exact Nat.succ_pos _
  | usb _ => exact Nat.succ_pos _

theorem sdioBlock_init (e : Endian) (bus : Bus) : SdioBlock (hgicBootdlInit e bus) := by
  cases bus with
  | sdio spi => exact fun _ => rfl
  | usb _ => exact nofun

theorem not_enter_of_jobPackets {b : Bootdl} {o : Nat → Outcome} {fw : Firmware} {info : FwInfo} {len n k : Nat}
    {ev : Event} (h : ev.sent ∈ (List.range k).flatMap (jobPackets b o fw info len n)) : isEnter ev = false := by
  obtain ⟨i, -, hi⟩ := List.mem_flatMap.mp h
  unfold jobPackets passPackets at hi
  unfold isEnter
  split at hi
  · rcases List.mem_cons.mp hi with hi | hi
    · rw [hi]
    · rw [List.mem_singleton.mp hi]
  · rw [List.mem_singleton.mp hi]

/-- A download ends; it sends no ENTER command, and succeeds only with an acknowledged RUN. -/
theorem download_spec {b : Bootdl} (hF : 0 < b.fragSize) (hb : SdioBlock b) (o : Nat → Outcome) (req : Request)
    (x : Xfer) : ∃ ret y L, hgicBootdlDownload b o req x = some (ret, y) ∧ y.downloads = x.downloads + 1 ∧
      y.log = x.log ++ L ∧ (∀ ev ∈ L, isEnter ev = false) ∧ (ret = 0 → RunAcked b y) := by
  have hnone : ∀ ret : Int, ret ≠ 0 → ∃ r y L, some (ret, { x with downloads := x.downloads + 1 }) = some (r, y) ∧
      y.downloads = x.downloads + 1 ∧ y.log = x.log ++ L ∧ (∀ ev ∈ L, isEnter ev = false) ∧
      (r = 0 → RunAcked b y) :=
    fun ret hret => ⟨ret, _, [], rfl, rfl, (List.append_nil _).symm, nofun, fun h => absurd h hret⟩
  cases req with
  | error ret => exact hnone ret.1 ret.2
  | ok fw =>
    cases hp : hgicBootdlParseFw b fw with
    | error ret =>
      unfold hgicBootdlDownload
      dsimp only
      rw [hp]
      exact hnone ret (parseFw_error ret hp)
    | ok info =>
      obtain ⟨L, hL⟩ := @sends_jobs b o fw info (copyLen info) { x with downloads := x.downloads + 1 }
        (fragments b (copyLen info) + 1) (Nat.le_refl _)
      refine ⟨_, _, L, download_eq hp hF hb x, hL.downloads, hL.log, fun ev hev => ?_, fun h0 => ?_⟩
      · exact not_enter_of_jobPackets (hL.le.subset (List.mem_map_of_mem hev))
      · obtain ⟨hsent, -, hack⟩ := hL.success h0
        rw [flatMap_jobPackets] at hsent
        have hmem : .cmd .run (runPacket b info (o (x.n + 2 * fragments b (copyLen info))).cookie) ∈
            L.map Event.sent := by
          rw [hsent]
          exact List.mem_append_right _ (List.mem_singleton.mpr rfl)
        obtain ⟨ev, hev, hrun⟩ := List.mem_map.mp hmem
        exact ⟨ev, hL.log ▸ List.mem_append_right _ hev, ⟨_, hrun⟩, hack ev hev⟩

/-! ## ENTER -/

/-- The last ENTER command was answered with a valid IN_FW reply. -/
def LastFw (b : Bootdl) (x : Xfer) : Prop :=
  ∃ ev m, (x.log.filter isEnter).getLast? = some ev ∧ ev.resp = some m ∧ ValidReply b.checksumMode m ∧
    rspCode m = hgBootdlRspErrInFw

def enters (x : Xfer) : Nat := x.log.countP isEnter

/-- What the loops know of `status`. -/
structure Status (b : Bootdl) (status : Int) (x : Xfer) : Prop where
  fw : status = stateFw ↔ LastFw b x
  range : -2 ^ 8 < status ∧ status < 2 ^ 8

theorem enterCode_range (mode : UInt8) (m : Mem) : -2 ^ 8 < enterCode mode m ∧ enterCode mode m < 2 ^ 8 := by
  have hlt := (rspCode m).toNat_lt
  unfold enterCode
  rcases rspHandle_eq mode m with ⟨-, hret⟩ | ⟨-, hret⟩
  · simp only [hret, stateFw, stateBoot]
    split
    · split <;> omega
    · omega
  · rw [hret]
    decide

/-- With the mode of the probe functions the driver's test of a reply is the right one. -/
theorem accepted_iff_valid_0XFD {b : Bootdl} (hm : b.checksumMode = hgicBusBootdlCheck0XFD) (m : Mem) :
    Accepted b.checksumMode m ↔ ValidReply b.checksumMode m :=
  accepted_iff_valid.mpr fun _ hsum => absurd (hm.symm.trans hsum) (by decide)

theorem lastFw_other {b : Bootdl} {x y : Xfer} {L : List Event} (hlog : y.log = x.log ++ L)
    (hL : ∀ ev ∈ L, isEnter ev = false) : LastFw b y ↔ LastFw b x := by
  have hnil : L.filter isEnter = [] := by
    rw [List.filter_eq_nil_iff]
    intro ev hev
    rw [hL ev hev]
    decide
  unfold LastFw
  rw [hlog, List.filter_append, hnil, List.append_nil]

theorem enters_other {x y : Xfer} {L : List Event} (hlog : y.log = x.log ++ L) (hL : ∀ ev ∈ L, isEnter ev = false) :
    enters y = enters x := by
  have hzero : L.countP isEnter = 0 := by
    rw [List.countP_eq_zero]
    intro ev hev
    rw [hL ev hev]
    decide
  rw [enters, enters, hlog, List.countP_append, hzero, Nat.add_zero]

theorem lastFw_enter {b : Bootdl} {x y : Xfer} {ev : Event} (hlog : y.log = x.log ++ [ev]) (hev : isEnter ev = true) :
    LastFw b y ↔ ∃ m, ev.resp = some m ∧ ValidReply b.checksumMode m ∧ rspCode m = hgBootdlRspErrInFw := by
  have hlast : (y.log.filter isEnter).getLast? = some ev := by
    rw [hlog, List.filter_append, List.filter_cons_of_pos hev, List.filter_nil]
    exact List.getLast?_concat
  constructor
  · rintro ⟨ev', m, h, hm⟩
    rw [hlast] at h
    cases h
    exact ⟨m, hm⟩
  · rintro ⟨m, hm⟩
    exact ⟨ev, m, hlast, hm⟩

theorem runAcked_append {b : Bootdl} {x y : Xfer} {L : List Event} (hlog : y.log = x.log ++ L) (h : RunAcked b x) :
    RunAcked b y := by
  obtain ⟨ev, hev, hrun⟩ := h
  exact ⟨ev, hlog ▸ List.mem_append_left L hev, hrun⟩

theorem enter_log (b : Bootdl) (o : Nat → Outcome) (x : Xfer) :
    (hgicBootdlCmdEnter b o x).2.downloads = x.downloads ∧
    ((o x.n).alloc = false ∧ (hgicBootdlCmdEnter b o x).2.log = x.log ∨
      (o x.n).alloc = true ∧
        ∃ bytes, (hgicBootdlCmdEnter b o x).2.log = x.log ++ [⟨.cmd .enter bytes, (o x.n).resp⟩]) := by
  unfold hgicBootdlCmdEnter bootdlCmd
  dsimp only
  cases ha : (o x.n).alloc with
  | false => exact ⟨rfl, .inl ⟨rfl, rfl⟩⟩
  | true => exact ⟨rfl, .inr ⟨rfl, _, rfl⟩⟩

section Loops
variable {b : Bootdl} (hm : b.checksumMode = hgicBusBootdlCheck0XFD)
include hm

/-- An ENTER command from a state in which the last one was not answered with IN_FW. -/
theorem status_enter (o : Nat → Outcome) {x : Xfer} (hx : ¬ LastFw b x) :
    Status b (hgicBootdlCmdEnter b o x).1 (hgicBootdlCmdEnter b o x).2 := by
  obtain ⟨-, ⟨ha, hlog⟩ | ⟨ha, bytes, hlog⟩⟩ := enter_log b o x
  · rw [enter_not_alloc b o x ha]
    refine ⟨?_, by decide⟩
    rw [lastFw_other (hlog.trans (List.append_nil _).symm) nofun]
    exact ⟨fun h => absurd h (by decide), fun h => absurd h hx⟩
  · cases hr : (o x.n).resp with
    | none =>
      rw [enter_no_resp b o x ha hr]
      refine ⟨?_, by decide⟩
      rw [lastFw_enter hlog rfl]
      refine ⟨fun h => absurd h (by decide), ?_⟩
      rintro ⟨m, h, -⟩
      rw [hr] at h
      cases h
    | some m =>
      rw [enter_received b o x ⟨ha, hr⟩]
      refine ⟨?_, enterCode_range b.checksumMode m⟩
      rw [lastFw_enter hlog rfl, enterCode_fw, accepted_iff_valid_0XFD hm]
      constructor
      · intro h
        exact ⟨m, hr, h⟩
      · rintro ⟨m', h, hv⟩
        rw [hr] at h
        cases h
        exact hv

omit hm in
theorem enters_enter (o : Nat → Outcome) (x : Xfer) : enters (hgicBootdlCmdEnter b o x).2 ≤ enters x + 1 := by
  obtain ⟨-, ⟨-, hlog⟩ | ⟨-, bytes, hlog⟩⟩ := enter_log b o x
  · rw [enters, hlog]
    exact Nat.le_succ _
  · rw [enters, hlog, List.countP_append]
    exact Nat.le_refl _

omit hm in
theorem runAcked_enter (o : Nat → Outcome) {x : Xfer} (h : RunAcked b x) :
    RunAcked b (hgicBootdlCmdEnter b o x).2 := by
  obtain ⟨-, ⟨-, hlog⟩ | ⟨-, bytes, hlog⟩⟩ := enter_log b o x
  · exact runAcked_append (hlog.trans (List.append_nil _).symm) h
  · exact runAcked_append hlog h

/-! ## The loops -/

/-- The first loop: at most one ENTER command and one download a pass, and `err` is 0 only behind an acknowledged
RUN. -/
theorem enterLoop_spec (hF : 0 < b.fragSize) (hb : SdioBlock b) (env : Env) : ∀ (retry : Nat) (status err : Int)
    (x : Xfer), Status b status x → (err = 0 → RunAcked b x) →
    ∃ status' err' y, enterLoop b env retry status err x = some (status', err', y) ∧ Status b status' y ∧
      (err' = 0 → RunAcked b y) ∧ enters y ≤ enters x + retry ∧ y.downloads ≤ x.downloads + retry := by
  intro retry
  induction retry with
  | zero =>
    intro status err x hst herr
    exact ⟨status, err, x, rfl, hst, herr, Nat.le_refl _, Nat.le_refl _⟩
  | succ retry ih =>
    intro status err x hst herr
    rw [enterLoop]
    split
    · next hgo =>
      have hx : ¬ LastFw b x := fun h => hgo.1 (hst.fw.mpr h)
      have hst' := status_enter hm env.o hx
      have hn := enters_enter (b := b) env.o x
      have hd := (enter_log b env.o x).1
      dsimp only
      generalize hgicBootdlCmdEnter b env.o x = y at *
      split
      · next hboot =>
        obtain ⟨ret, z, L, hz, hzd, hzl, hzL, hzr⟩ := download_spec hF hb env.o (env.fw y.2.downloads) y.2
        have hstz : Status b y.1 z := ⟨hst'.fw.trans (lastFw_other hzl hzL).symm, hst'.range⟩
        have hnz := enters_other hzl hzL
        obtain ⟨status', err', w, hw, hstw, hrw, hnw, hdw⟩ := ih y.1 ret z hstz hzr
        rw [hz, Option.bind_some]
        exact ⟨status', err', w, hw, hstw, hrw, by omega, by omega⟩
      · obtain ⟨status', err', w, hw, hstw, hrw, hnw, hdw⟩ := ih y.1 err y.2 hst' fun h0 => absurd h0 hgo.2
        exact ⟨status', err', w, hw, hstw, hrw, by omega, by omega⟩
    · exact ⟨status, err, x, rfl, hst, herr, by omega, by omega⟩

theorem reinitLoop_spec (env : Env) : ∀ (retry : Nat) (status : Int) (x : Xfer), Status b status x →
    Status b (reinitLoop b env retry status x).1 (reinitLoop b env retry status x).2 ∧
      enters (reinitLoop b env retry status x).2 ≤ enters x + retry ∧
      (reinitLoop b env retry status x).2.downloads = x.downloads ∧
      (RunAcked b x → RunAcked b (reinitLoop b env retry status x).2) := by
  intro retry
  induction retry with
  | zero =>
    intro status x hst
    exact ⟨hst, Nat.le_refl _, rfl, id⟩
  | succ retry ih =>
    intro status x hst
    by_cases hgo : env.running retry = true ∧ status ≠ stateFw
    · cases hre : env.reinitOk retry with
      | true =>
        have heq : reinitLoop b env (retry + 1) status x =
            reinitLoop b env retry (hgicBootdlCmdEnter b env.o x).1 (hgicBootdlCmdEnter b env.o x).2 := by
          rw [reinitLoop, if_pos hgo, if_pos hre]
        have hx : ¬ LastFw b x := fun h => hgo.2 (hst.fw.mpr h)
        obtain ⟨h1, h2, h3, h4⟩ := ih _ _ (status_enter hm env.o hx)
        have hn := enters_enter (b := b) env.o x
        rw [heq]
        exact ⟨h1, by omega, h3.trans (enter_log b env.o x).1, fun h => h4 (runAcked_enter env.o h)⟩
      | false =>
        have heq : reinitLoop b env (retry + 1) status x = reinitLoop b env retry status x := by
          rw [reinitLoop, if_pos hgo, if_neg (by rw [hre]; decide)]
        obtain ⟨h1, h2, h3, h4⟩ := ih status x hst
        rw [heq]
        exact ⟨h1, by omega, h3, h4⟩
    · have heq : reinitLoop b env (retry + 1) status x = (status, x) := by rw [reinitLoop, if_neg hgo]
      rw [heq]
      exact ⟨hst, Nat.le_add_right _ _, rfl, id⟩

theorem afterEnter_spec (env : Env) {status err : Int} {x : Xfer} (hst : Status b status x)
    (herr : err = 0 → RunAcked b x) (s : Dev) (hs : s.x = x) :
    Status b (afterEnter b env status err s).1 (afterEnter b env status err s).2.x ∧
      enters (afterEnter b env status err s).2.x ≤ enters x + 50 ∧
      (afterEnter b env status err s).2.x.downloads = x.downloads ∧
      (afterEnter b env status err s).2.inboot = s.inboot ∧
      ((afterEnter b env status err s).2.bootdl = true →
        s.bootdl = true ∨ RunAcked b (afterEnter b env status err s).2.x) := by
  subst hs
  unfold afterEnter
  by_cases hok : status = stateBoot ∧ err = 0
  · rw [if_pos hok]
    cases hre : env.reinit && env.nopoll with
    | true =>
      rw [if_pos rfl]
      obtain ⟨h1, h2, h3, h4⟩ := reinitLoop_spec hm env 50 status s.x hst
      exact ⟨h1, h2, h3, rfl, fun _ => .inr (h4 (herr hok.2))⟩
    | false =>
      rw [if_neg (by decide)]
      exact ⟨hst, Nat.le_add_right _ _, rfl, rfl, fun _ => .inr (herr hok.2)⟩
  · rw [if_neg hok]
    exact ⟨hst, Nat.le_add_right _ _, rfl, rfl, .inl⟩

end Loops

/-- With `no_bootdl` and `qc_mode` off, whatever the device and the bus do: at most 10 downloads and 60 ENTER commands;
INBOOT is clear; the result is 1 exactly when the last ENTER command was answered with a valid IN_FW reply, and exactly
then `fw_state` is STATE_FW; and BOOTDL is set only behind an acknowledged RUN. -/
theorem download_fw_result (e : Endian) (bus : Bus) (env : Env) (inboot bootdl : Bool) (fwState : Nat) :
    ∃ ret s, hgicfDownloadFw (hgicBootdlInit e bus) env false false ⟨inboot, bootdl, fwState, ⟨0, 0, []⟩⟩ =
        some (ret, s) ∧
      s.x.downloads ≤ 10 ∧ enters s.x ≤ 60 ∧ s.inboot = false ∧
      (ret = true ↔ LastFw (hgicBootdlInit e bus) s.x) ∧
      ((s.fwState : Int) = stateFw ↔ ret = true) ∧
      (s.bootdl = true → bootdl = true ∨ RunAcked (hgicBootdlInit e bus) s.x) := by
  have hm : (hgicBootdlInit e bus).checksumMode = hgicBusBootdlCheck0XFD := by cases bus <;> rfl
  have hF := fragSize_init e bus
  have hb := sdioBlock_init e bus
  generalize hgicBootdlInit e bus = b at *
  have hinit : Status b (-1) ⟨0, 0, []⟩ := by
    refine ⟨⟨fun h => absurd h (by decide), ?_⟩, by decide⟩
    rintro ⟨ev, m, h, -⟩
    cases h
  obtain ⟨status, err, x, hloop, hst, herr, hn, hd⟩ := enterLoop_spec hm hF hb env 10 (-1) (-1) ⟨0, 0, []⟩ hinit
    fun h => absurd h (by decide)
  have hn : enters x ≤ 10 := hn
  have hd : x.downloads ≤ 10 := hd
  have heq : hgicfDownloadFw b env false false ⟨inboot, bootdl, fwState, ⟨0, 0, []⟩⟩ =
      some (decide ((afterEnter b env status err ⟨false, bootdl, fwState, x⟩).1 = stateFw),
        { (afterEnter b env status err ⟨false, bootdl, fwState, x⟩).2 with
          fwState := ((afterEnter b env status err ⟨false, bootdl, fwState, x⟩).1 % 2 ^ 8).toNat }) :=
    congrArg (Option.map _) hloop
  obtain ⟨hst', hn', hd', hinboot, hflag⟩ := afterEnter_spec hm env hst herr ⟨false, bootdl, fwState, x⟩ rfl
  generalize afterEnter b env status err ⟨false, bootdl, fwState, x⟩ = y at *
  refine ⟨_, _, heq, ?_, ?_, hinboot, ?_, ?_, hflag⟩
  · show y.2.x.downloads ≤ 10
    omega
  · show enters y.2.x ≤ 60
    omega
  · rw [decide_eq_true_iff]
    exact hst'.fw
  · rw [decide_eq_true_iff]
    have hrange := hst'.range
    show (((y.1 % 2 ^ 8).toNat : Nat) : Int) = stateFw ↔ y.1 = stateFw
    unfold stateFw
    omega

end HgicFmac.Fwdl
