import HgicFmac.Iwpriv.Ints

/-!
# The settings of one integer

Most settings of `test_app` pass one integer to `hgic_iwpriv_set_int`, with a name that the driver looks up in
`hgpriv_sets`.

* `Sender`, `sendNumber`, `sendByte`, `sendFlag`, `sendPairing` : what the driver sends for a number;
* `IntSetter`, `IntSetter.call` : the functions of `test_app`, with the names that they pass on;
* `handler_int` : the number that the handler of a row reads from the text;
* `RunsRow`, `SetsInt`, `setsInt_iff` : which functions do what their name says, for which integers.
-/

namespace HgicFmac.Iwpriv
open Lib Fwctrl

/-! ## The functions -/

/-- What the driver does for a number: the functions of `fwctrl.c`, with the conversions on the way to them. -/
abbrev Sender := SetEnv → (ifidx : Nat) → (val : Int) → Res

def sendNumber (conv : Int → Int) (id : Nat) : Sender := fun env ifidx val =>
  hgicFwctrlSetIntVal env ifidx id (conv val)

def sendByte (id : Nat) : Sender := fun env ifidx val => hgicFwctrlSetByte env ifidx id val

def sendFlag (id : Nat) : Sender := fun env ifidx val =>
  hgicFwctrlSetByte env ifidx id (if val % 2 ^ 32 = 1 then 1 else 0)

/-- `hgic_fwctrl_set_pairing` with a pair number, and 0 for the rest. -/
def sendPairing : Sender := fun env ifidx val =>
  hgicFwctrlSetBytes env ifidx HgicCmd.pairing (le32 val ++ [u8 0, u8 0, u8 0])

/-- The functions `hgic_iwpriv_set_…` of `test_app` that call `hgic_iwpriv_set_int` with their argument. -/
inductive IntSetter
  | channel | bssBw | txBw | txMcs | maxTxcnt | pairing | beaconInt | radioOnoff | txpower | bssMaxIdle | wkioMode
  | dtimPeriod | psMode | aplostTime | autoChswitch | reassocWkhost | dbginfo | primaryChan | autosleepTime
  | superPwr | autoSave | pairAutostop | dcdc13 | acktmo | loadDef | dbginfoOutput | paPwrctrlDis | dhcpc
  | wkdataSave | antSel | macfilter | rtsThreshold | fragThreshold | fixTxrate | navMax | rtsDuration | disablePrint
  | connPaironly | waitPsmode | diffcustConn | ccaForCe | rtc | apepPadding | watchdog | retryFallbackCnt | xosc
  | freqCaliPeriod | paPwrctlDis | antAuto | apHide | assertHoldup | apPsmode | dupfilterEn | dis1v1m2u
  | disPsconnect | maxTxDelay | heartbeatInt | kickAssoc | startAssoc | rmeshDevmax | rmeshAid | rmeshNotfw
  | rmeshRssimin
  deriving DecidableEq

/-- The row of `hgpriv_sets` that a function is named after, the name that it passes to `hgic_iwpriv_set_int` and what
the driver does for a number in that row. -/
structure IntCall where
  named : Setting
  name : String
  send : Sender

/-- `hgic_iwpriv_set_rmesh_notfw` passes the name of another row. -/
def IntSetter.call : IntSetter → IntCall
  | .channel => ⟨.channel, "channel", sendNumber id HgicCmd.setChannel⟩
  | .bssBw => ⟨.bssBw, "bss_bw", sendByte HgicCmd.setBssBw⟩
  | .txBw => ⟨.txBw, "tx_bw", sendByte HgicCmd.setTxBw⟩
  | .txMcs => ⟨.txMcs, "tx_mcs", sendByte HgicCmd.setTxMcs⟩
  | .maxTxcnt => ⟨.maxTxcnt, "max_txcnt", sendByte HgicCmd.setMaxTcnt⟩
  | .pairing => ⟨.pairing, "pairing", sendPairing⟩
  | .beaconInt => ⟨.beaconInt, "beacon_int", sendNumber id HgicCmd.setBeaconInt⟩
  | .radioOnoff => ⟨.radioOnoff, "radio_onoff", sendByte HgicCmd.radioOnoff⟩
  | .txpower => ⟨.txpower, "txpower", sendNumber (· % 2 ^ 16) HgicCmd.setTxPower⟩
  | .bssMaxIdle => ⟨.bssMaxIdle, "bss_max_idle", sendNumber id HgicCmd.setBssMaxIdle⟩
  | .wkioMode => ⟨.wkioMode, "wkio_mode", sendByte HgicCmd.setWkioMode⟩
  | .dtimPeriod => ⟨.dtimPeriod, "dtim_period", sendNumber id HgicCmd.setDtimPeriod⟩
  | .psMode => ⟨.psMode, "ps_mode", sendByte HgicCmd.setPsMode⟩
  | .aplostTime => ⟨.aplostTime, "aplost_time", sendNumber id HgicCmd.setAplostTime⟩
  | .autoChswitch => ⟨.autoChswitch, "auto_chswitch", sendFlag HgicCmd.setAutoChanSwitch⟩
  | .reassocWkhost => ⟨.reassocWkhost, "reassoc_wkhost", sendFlag HgicCmd.setReassocWkhost⟩
  | .dbginfo => ⟨.dbginfo, "dbginfo", sendFlag HgicCmd.dbginfoOutput⟩
  | .primaryChan => ⟨.primaryChan, "primary_chan", sendByte HgicCmd.setPrimaryChan⟩
  | .autosleepTime => ⟨.autosleepTime, "autosleep_time", sendByte HgicCmd.setAutoSleepTime⟩
  | .superPwr => ⟨.superPwr, "super_pwr", sendByte HgicCmd.setSuperPwr⟩
  | .autoSave => ⟨.autoSave, "auto_save", sendByte HgicCmd.cfgAutoSave⟩
  | .pairAutostop => ⟨.pairAutostop, "pair_autostop", sendByte HgicCmd.setPairAutostop⟩
  | .dcdc13 => ⟨.dcdc13, "dcdc13", sendByte HgicCmd.setDcdc13⟩
  | .acktmo => ⟨.acktmo, "acktmo", sendNumber id HgicCmd.setAcktmo⟩
  | .loadDef => ⟨.loaddef, "loaddef", sendByte HgicCmd.loadDef⟩
  | .dbginfoOutput => ⟨.dbginfo, "dbginfo", sendFlag HgicCmd.dbginfoOutput⟩
  | .paPwrctrlDis => ⟨.paPwrctlDis, "pa_pwrctl_dis", sendByte HgicCmd.paPwrctrlDis⟩
  | .dhcpc => ⟨.dhcpc, "dhcpc", sendByte HgicCmd.setDhcpc⟩
  | .wkdataSave => ⟨.wkdataSave, "wkdata_save", sendByte HgicCmd.setWkupdataSaveen⟩
  | .antSel => ⟨.antSel, "ant_sel", sendByte HgicCmd.setAntSel⟩
  | .macfilter => ⟨.macfilter, "macfilter", sendByte HgicCmd.setMacFilterEn⟩
  | .rtsThreshold => ⟨.rtsThreshold, "rts_threshold", sendNumber id HgicCmd.setRtsThreshold⟩
  | .fragThreshold => ⟨.fragThreshold, "frag_threshold", sendNumber id HgicCmd.setFrgThreshold⟩
  | .fixTxrate => ⟨.fixTxrate, "fix_txrate", sendNumber id HgicCmd.setFixTxrate⟩
  | .navMax => ⟨.navMax, "nav_max", sendNumber id HgicCmd.setNavMax⟩
  | .rtsDuration => ⟨.rtsDuration, "rts_duration", sendNumber id HgicCmd.setRtsDuration⟩
  | .disablePrint => ⟨.disablePrint, "disable_print", sendByte HgicCmd.setDisablePrint⟩
  | .connPaironly => ⟨.connPaironly, "conn_paironly", sendByte HgicCmd.setConnectPaironly⟩
  | .waitPsmode => ⟨.waitPsmode, "wait_psmode", sendByte HgicCmd.setWaitPsmode⟩
  | .diffcustConn => ⟨.diffcustConn, "diffcust_conn", sendByte HgicCmd.setDiffcustConn⟩
  | .ccaForCe => ⟨.ccaCe, "cca_ce", sendByte HgicCmd.setCcaForCe⟩
  | .rtc => ⟨.rtc, "rtc", sendNumber id HgicCmd.setRtc⟩
  | .apepPadding => ⟨.apepPadding, "apep_padding", sendByte HgicCmd.setApepPadding⟩
  | .watchdog => ⟨.watchdog, "watchdog", sendByte HgicCmd.setWatchdog⟩
  | .retryFallbackCnt => ⟨.retryFallbackCnt, "retry_fallback_cnt", sendByte HgicCmd.setRetryFallbackCnt⟩
  | .xosc => ⟨.xosc, "xosc", sendNumber id HgicCmd.setXoscValue⟩
  | .freqCaliPeriod => ⟨.freqCaliPeriod, "freq_cali_period", sendNumber (· % 2 ^ 16) HgicCmd.setCaliPeriod⟩
  | .paPwrctlDis => ⟨.paPwrctlDis, "pa_pwrctl_dis", sendByte HgicCmd.paPwrctrlDis⟩
  | .antAuto => ⟨.antAuto, "ant_auto", sendByte HgicCmd.setAntAuto⟩
  | .apHide => ⟨.apHide, "ap_hide", sendByte HgicCmd.setApHide⟩
  | .assertHoldup => ⟨.assertHoldup, "assert_holdup", sendByte HgicCmd.setAssertHoldup⟩
  | .apPsmode => ⟨.apPsmode, "ap_psmode", sendByte HgicCmd.setApPsmodeEn⟩
  | .dupfilterEn => ⟨.dupfilter, "dupfilter", sendByte HgicCmd.setDupfilterEn⟩
  | .dis1v1m2u => ⟨.dis1v1m2u, "dis_1v1m2u", sendByte HgicCmd.setDis1v1M2u⟩
  | .disPsconnect => ⟨.disPsconnect, "dis_psconnect", sendByte HgicCmd.setDisPsconnect⟩
  | .maxTxDelay => ⟨.maxTxdelay, "max_txdelay", sendNumber id HgicCmd.setMaxTxDelay⟩
  | .heartbeatInt => ⟨.heartbeatInt, "heartbeat_int", sendNumber id HgicCmd.setHeartbeatInt⟩
  | .kickAssoc => ⟨.kickAssoc, "kick_assoc", sendNumber id HgicCmd.setKickAssoc⟩
  | .startAssoc => ⟨.startAssoc, "start_assoc", sendNumber id HgicCmd.startAssoc⟩
  | .rmeshDevmax => ⟨.rmeshDevmax, "rmesh_devmax", sendNumber (· % 2 ^ 8) HgicCmd.setRmeshDevmax⟩
  | .rmeshAid => ⟨.rmeshAid, "rmesh_aid", sendNumber (· % 2 ^ 8) HgicCmd.setRmeshAid⟩
  | .rmeshNotfw => ⟨.rmeshNotfw, "start_assoc", sendNumber (· % 2 ^ 8) HgicCmd.setRmeshNotfw⟩
  | .rmeshRssimin => ⟨.rmeshRssimin, "rmesh_rssimin", sendNumber toS8 HgicCmd.setRmeshRssimin⟩

/-- The handlers of these rows read the number with `simple_strtoul`. -/
def IntSetter.Unsigned (f : IntSetter) : Prop := f = .fixTxrate ∨ f = .navMax

instance (f : IntSetter) : Decidable f.Unsigned := inferInstanceAs (Decidable (_ ∨ _))

/-! ## What the handlers read -/

theorem handler_signed {f : IntSetter} (hf : ¬ f.Unsigned) (hp : f ≠ .pairing) (env : SetEnv) (ifidx : Nat)
    (v : List UInt8) : f.call.named.row.2 env ifidx v = .ok (f.call.send env ifidx (simpleStrtol 10 v)) := by
  cases f with
  | pairing => exact absurd rfl hp
  | fixTxrate => exact absurd (.inl rfl) hf
  | navMax => exact absurd (.inr rfl) hf
  | _ => rfl

theorem handler_unsigned {f : IntSetter} (hf : f.Unsigned) (env : SetEnv) (ifidx : Nat) (v : List UInt8) :
    f.call.named.row.2 env ifidx v = .ok (f.call.send env ifidx (simpleStrtoul 10 v)) := by
  rcases hf with rfl | rfl
  · rfl
  · rfl

theorem pairing_int (env : SetEnv) (ifidx : Nat) (val : Int32) :
    hgicIwprivSetPairing env ifidx (dec val.toInt) = .ok (sendPairing env ifidx val.toInt) := by
  have hone : dec val.toInt = printInts true [val] := by simp [printInts]
  unfold hgicIwprivSetPairing setPicked
  rw [hone, pickValues_ints (List.cons_ne_nil _ _)]
  rfl

theorem handler_int {f : IntSetter} {val : Int32} (h : f.Unsigned → 0 ≤ val.toInt) (env : SetEnv) (ifidx : Nat) :
    f.call.named.row.2 env ifidx (dec val.toInt) = .ok (f.call.send env ifidx val.toInt) := by
  by_cases hf : f.Unsigned
  · rw [handler_unsigned hf, simpleStrtoul_dec, if_pos (h hf), Int.toNat_of_nonneg (h hf)]
  · by_cases hp : f = .pairing
    · subst hp
      exact pairing_int env ifidx val
    · rw [handler_signed hf hp, simpleStrtol_dec (.inl rfl)]

/-! ## What is sent -/

/-- The row whose name a function passes on. -/
def IntSetter.target (f : IntSetter) : Setting := if f = .rmeshNotfw then .startAssoc else f.call.named

theorem name_target (f : IntSetter) : f.call.name = f.target.row.1 := by
  cases f <;> rfl

theorem target_eq_named {f : IntSetter} : f.target = f.call.named ↔ f ≠ .rmeshNotfw := by
  unfold IntSetter.target
  constructor
  · rintro h rfl
    cases h
  · intro h
    exact if_neg h

theorem name_length (f : IntSetter) : (bytes f.call.name).length ≤ 18 := by
  unfold bytes
  rw [List.length_map, String.length_toList]
  cases f <;> decide

/-- The text that `hgic_iwpriv_set_X` prints. -/
def IntSetter.text (f : IntSetter) (ifname : List UInt8) (val : Int32) : List UInt8 :=
  valueText ifname (bytes f.call.name) (dec val.toInt)

/-- `req` makes the driver run the handler of the row X, on a text of the number `val`, and send what it sends for this
number. -/
def RunsRow (env : WriteEnv) (f : IntSetter) (val : Int32) (req : List UInt8) : Prop :=
  ∃ args text, callOf req = .set args ∧ selectSet (cutArgs args) = some (f.call.named, text) ∧
    simpleStrtol 10 text = val.toInt ∧
    (hgicfIwprivWrite env req).sent = .ok (f.call.send env.set env.ifidx val.toInt).sent

/-- `hgic_iwpriv_set_X(ifname, val)` writes such a request. -/
def SetsInt (a : Malloc) (env : WriteEnv) (ifname : List UInt8) (f : IntSetter) (val : Int32) : Prop :=
  ∃ o, hgicIwprivSetInt a ⟨true, true⟩ env.get.e env.sys ifname (bytes f.call.name) val = .ok o ∧
    RunsRow env f val o.wrote

def IntSetter.Fits (f : IntSetter) (ifname : List UInt8) (val : Int32) : Prop := (f.text ifname val).length < 64

instance (f : IntSetter) (ifname : List UInt8) (val : Int32) : Decidable (f.Fits ifname val) :=
  inferInstanceAs (Decidable (_ < _))

theorem fits_of_name {ifname : List UInt8} (h : ifname.length ≤ 15) (f : IntSetter) (val : Int32) :
    f.Fits ifname val := by
  have hname := name_length f
  have hlt := val.toInt_lt
  have hle := val.le_toInt
  have hdec : (dec val.toInt).length ≤ 10 + 1 := (dec_length_le_iff (by decide)).mpr (by omega)
  unfold IntSetter.Fits IntSetter.text
  rw [valueText_length]
  omega

section
variable {env : WriteEnv} {ifname : List UInt8} (hif : ∀ b ∈ ifname, b ≠ 32 ∧ b ≠ 0) {f : IntSetter} {val : Int32}

theorem text_target (f : IntSetter) (ifname : List UInt8) (val : Int32) :
    f.text ifname val = ifname ++ bytes " set " ++ (bytes f.target.row.1 ++ 61 :: dec val.toInt) := by
  rw [← name_target]
  rfl

theorem int_args_length (hfit : f.Fits ifname val) : (bytes f.target.row.1 ++ 61 :: dec val.toInt).length < 2 ^ 16 := by
  unfold IntSetter.Fits IntSetter.text at hfit
  rw [valueText_length, name_target] at hfit
  rw [List.length_append, List.length_cons]
  omega

include hif

theorem runsRow_text (hfit : f.Fits ifname val) :
    RunsRow env f val (f.text ifname val) ↔ f ≠ .rmeshNotfw ∧
      (hgicfIwprivWrite env (f.text ifname val)).sent = .ok (f.call.send env.set env.ifidx val.toInt).sent := by
  have hsel : selectSet (cutArgs (bytes f.target.row.1 ++ 61 :: dec val.toInt)) = some (f.target, dec val.toInt) := by
    rw [cutArgs_of_lt (int_args_length hfit), selectSet_row]
  have hcall : callOf (f.text ifname val) = .set (bytes f.target.row.1 ++ 61 :: dec val.toInt) := by
    rw [text_target]
    exact callOf_set hif _
  constructor
  · rintro ⟨args, text, hargs, htext, -, hsent⟩
    rw [hcall] at hargs
    obtain rfl := Call.set.inj hargs
    obtain ⟨hrow, -⟩ := Prod.mk.inj (Option.some.inj (hsel.symm.trans htext))
    exact ⟨target_eq_named.mp hrow, hsent⟩
  · rintro ⟨hne, hsent⟩
    refine ⟨_, _, hcall, ?_, simpleStrtol_dec (.inl rfl) _, hsent⟩
    rw [hsel, target_eq_named.mpr hne]

theorem int_sent (henv : env.Succeeds) (hfit : f.Fits ifname val) (hne : f ≠ .rmeshNotfw) :
    (hgicfIwprivWrite env (f.text ifname val)).sent =
      (·.sent) <$> f.call.named.row.2 env.set env.ifidx (dec val.toInt) := by
  rw [text_target, set_row_sent henv hif f.target (int_args_length hfit), target_eq_named.mpr hne]

end

theorem length_le32 (x : Int) : (le32 x).length = 4 := length_bytes32 ..

theorem le32_inj {x y : Int} (h : le32 x = le32 y) : x % 2 ^ 32 = y % 2 ^ 32 := by
  have hload := congrArg (fun bs => load32 .little ((Mem.ofList []).write 0 bs) 0) h
  unfold le32 at hload
  simp only [load32_write] at hload
  omega

/-- The payload is the number, so a number that is not read as it is does not arrive. -/
theorem unsigned_send_inj {f : IntSetter} (hf : f.Unsigned) {env : SetEnv} (hr : env.r.alloc = true) (ifidx : Nat)
    {x y : Int} (h : (f.call.send env ifidx x).sent = (f.call.send env ifidx y).sent) : x % 2 ^ 32 = y % 2 ^ 32 := by
  have hinj : ∀ id, (hgicFwctrlSetIntVal env ifidx id x).sent = (hgicFwctrlSetIntVal env ifidx id y).sent →
      x % 2 ^ 32 = y % 2 ^ 32 := by
    intro id hid
    unfold hgicFwctrlSetIntVal at hid
    rw [setBytes_sent hr _ _ (by rw [length_le32]; decide), setBytes_sent hr _ _ (by rw [length_le32]; decide)] at hid
    exact le32_inj (Msg.cmd.inj (Option.some.inj hid)).2.2
  rcases hf with rfl | rfl
  · exact hinj HgicCmd.setFixTxrate h
  · exact hinj HgicCmd.setNavMax h

/-- The text fits the array and, with the 0 behind it, its block, and name and sign are the right ones. -/
theorem setsInt_iff {env : WriteEnv} (henv : env.Succeeds) {ifname : List UInt8} (hif : ∀ b ∈ ifname, b ≠ 32 ∧ b ≠ 0)
    (f : IntSetter) (val : Int32) (a : Malloc) :
    SetsInt a env ifname f val ↔
      f.Fits ifname val ∧ a.HoldsText (f.text ifname val) ∧ f ≠ .rmeshNotfw ∧ (f.Unsigned → 0 ≤ val.toInt) := by
  apply setValue_iff.trans
  apply and_congr_right
  intro hfit
  apply and_congr_right
  intro _
  apply (runsRow_text hif hfit).trans
  apply and_congr_right
  intro hne
  rw [int_sent hif henv hfit hne]
  constructor
  · intro hsent hf
    by_contra hneg
    rw [handler_unsigned hf, simpleStrtoul_dec, if_neg hneg] at hsent
    have hmod := unsigned_send_inj hf henv.cmd env.ifidx (Except.ok.inj hsent)
    have hle := val.le_toInt
    omega
  · intro hpos
    rw [handler_int hpos]
    rfl

/-- A number below 0 for a handler that reads a sign. -/
theorem setsInt_rssimin : SetsInt steps16 (calmEnv fun _ => 0) (bytes "hg0") .rmeshRssimin (-70) :=
  (setsInt_iff ⟨rfl, rfl, rfl, rfl, rfl⟩ (avoids_of_all (by decide)) _ _ _).mpr
    ⟨by decide, by decide, by decide, by decide⟩

/-- `hgic_iwpriv_set_rmesh_notfw("hg0", 1)` starts an association, `hgic_iwpriv_set_fix_txrate("hg0", 0xffffffff)` sets
the rate 0, whatever `malloc` gives, and `hgic_iwpriv_set_channel("hg0", 6)` writes behind a block of the size of the
text. -/
theorem setsInt_fails :
    (sentBy (calmEnv fun _ => 0) (hgicIwprivSetInt steps16 ⟨true, true⟩ .little (calmEnv fun _ => 0).sys (bytes "hg0")
        (bytes IntSetter.rmeshNotfw.call.name) 1) = .ok (some (.cmd 1 HgicCmd.startAssoc [1, 0, 0, 0])) ∧
      ∀ a, ¬ SetsInt a (calmEnv fun _ => 0) (bytes "hg0") .rmeshNotfw 1) ∧
    (sentBy (calmEnv fun _ => 0) (hgicIwprivSetInt steps16 ⟨true, true⟩ .little (calmEnv fun _ => 0).sys (bytes "hg0")
        (bytes IntSetter.fixTxrate.call.name) (-1)) = .ok (some (.cmd 1 HgicCmd.setFixTxrate [0, 0, 0, 0])) ∧
      ∀ a, ¬ SetsInt a (calmEnv fun _ => 0) (bytes "hg0") .fixTxrate (-1)) ∧
    hgicIwprivSetInt .exact ⟨true, true⟩ .little (calmEnv fun _ => 0).sys (bytes "hg0")
      (bytes IntSetter.channel.call.name) 6 = .error .overflow := by
  have henv : (calmEnv fun _ => 0).Succeeds := ⟨rfl, rfl, rfl, rfl, rfl⟩
  have hif : ∀ b ∈ bytes "hg0", b ≠ 32 ∧ b ≠ 0 := avoids_of_all (by decide)
  have hassoc : (hgicfIwprivWrite (calmEnv fun _ => 0) (IntSetter.rmeshNotfw.text (bytes "hg0") 1)).sent =
      .ok (some (.cmd 1 HgicCmd.startAssoc [1, 0, 0, 0])) :=
    (set_row_sent henv hif .startAssoc (by decide)).trans (by decide)
  have hrate : (hgicfIwprivWrite (calmEnv fun _ => 0) (IntSetter.fixTxrate.text (bytes "hg0") (-1))).sent =
      .ok (some (.cmd 1 HgicCmd.setFixTxrate [0, 0, 0, 0])) :=
    (set_row_sent henv hif .fixTxrate (by decide)).trans (by decide)
  refine ⟨⟨sentBy_setValue.mpr ⟨by decide, by decide, hassoc⟩, fun a h => ?_⟩,
    ⟨sentBy_setValue.mpr ⟨by decide, by decide, hrate⟩, fun a h => ?_⟩, by decide⟩
  · obtain ⟨hfit, -, hrow⟩ := setValue_iff.mp h
    exact ((runsRow_text hif hfit).mp hrow).1 rfl
  · obtain ⟨hfit, -, hrow⟩ := setValue_iff.mp h
    exact absurd (hrate.symm.trans ((runsRow_text hif hfit).mp hrow).2) (by decide)

end HgicFmac.Iwpriv
