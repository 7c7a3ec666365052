import HgicFmac.Fwctrl.Ids
import HgicFmac.Iwpriv.Request

/-!
# The set handlers of `iwpriv.c`

Most handlers read the value as a number, as numbers between commas, as a string, as an address or as raw bytes, and
send one command with it.

* `setNumber`, `setByte`, `setFlag`, `setString`, `setRaw`, `setPicked`, `setMac` : the families;
* `hgicIwprivSet…` : the handlers, with the functions of `fwctrl.c` that they call;
* `Setting`, `Setting.row`, `hgprivSets` : the table (`selectSet_row`);
* `hgicIwprivSetProc` : the request `name=value`.
-/

namespace HgicFmac.Iwpriv
open Lib Fwctrl

abbrev SetHandler := SetEnv → (ifidx : Nat) → (v : List UInt8) → Run Res

/-! ## The families -/

/-- A number, which is converted to the type of a parameter on its way. -/
def setNumber (conv : Int → Int) (id : Nat) : SetHandler := fun env ifidx v =>
  .ok (hgicFwctrlSetIntVal env ifidx id (conv (simpleStrtol 10 v)))

def setByte (id : Nat) : SetHandler := fun env ifidx v => .ok (hgicFwctrlSetByte env ifidx id (simpleStrtol 10 v))

def setFlag (id : Nat) : SetHandler := fun env ifidx v =>
  .ok (hgicFwctrlSetByte env ifidx id (if simpleStrtol 10 v % 2 ^ 32 = 1 then 1 else 0))

def setString (id : Nat) : SetHandler := fun env ifidx v => setBytesAt env ifidx id v 0 (cstr v).length

def setRaw (id : Nat) : SetHandler := fun env ifidx v => setBytesAt env ifidx id v 0 v.length

/-- `pack` takes the elements of the array. -/
def setPicked (size : Nat) (pack : (Nat → Int) → List UInt8) (id : Nat) : SetHandler := fun env ifidx v =>
  .ok (hgicFwctrlSetBytes env ifidx id (pack fun i => (hgicPickValues size v).getD i 0))

/-- The handlers that refuse an empty string. -/
def setNonempty (h : SetHandler) : SetHandler := fun env ifidx v =>
  if cstr v = [] then .ok ⟨einval, none⟩ else h env ifidx v

def setMac (id : Nat) : SetHandler := fun env ifidx v => do
  let addr ← hgicPickMacaddr v
  return hgicFwctrlSetBytes env ifidx id addr.1

def hgicWdevIdSta : Nat := 1

/-- The handlers for the interface of a station only. -/
def setMacOfSta (id : Nat) : SetHandler := fun env ifidx v =>
  if ifidx ≠ hgicWdevIdSta then .ok ⟨einval, none⟩ else setMac id env ifidx v

/-! ## The handlers -/

def hgicIwprivSetCountryregion : SetHandler := fun env ifidx v =>
  if (cstr v).length ≠ 2 then .ok ⟨einval, none⟩ else setString HgicCmd.setCountry env ifidx v

def hgicIwprivSetSsid : SetHandler := setString HgicCmd.setSsid
def hgicIwprivSetBssid : SetHandler := setMacOfSta HgicCmd.setBssid
def hgicIwprivSetChannel : SetHandler := setNumber id HgicCmd.setChannel
def hgicIwprivSetBssidFilter : SetHandler := setString HgicCmd.setBssidFilter
def hgicIwprivSetRtsThreshold : SetHandler := setNumber id HgicCmd.setRtsThreshold
def hgicIwprivSetFragThreshold : SetHandler := setNumber id HgicCmd.setFrgThreshold
def hgicIwprivSetKeyMgmt : SetHandler := setString HgicCmd.setKeyMgmt
def hgicIwprivSetWpaPsk : SetHandler := setString HgicCmd.setWpaPsk
def hgicIwprivSetFreqRange : SetHandler :=
  setNonempty (setPicked 3 (fun x => le32 (x 0) ++ le32 (x 1) ++ le32 (x 2)) HgicCmd.setFreqRange)
def hgicIwprivSetBssBw : SetHandler := setByte HgicCmd.setBssBw
def hgicIwprivSetTxBw : SetHandler := setByte HgicCmd.setTxBw
def hgicIwprivSetTxMcs : SetHandler := setByte HgicCmd.setTxMcs
def hgicIwprivSetAcs : SetHandler := setNonempty (setPicked 2 (fun x => [u8 (x 0), u8 (x 1)]) HgicCmd.acsEnable)
def hgicIwprivSetBgrssi : SetHandler := setByte HgicCmd.setBgRssi

/-- `kzalloc` holds the number of channels and the channels. -/
def hgicIwprivSetChanList : SetHandler := setNonempty fun env ifidx v =>
  let chans := hgicPickValues 32 v
  .ok (if env.kmem then hgicFwctrlSetBytes env ifidx HgicCmd.setChanList (le16 chans.length ++ chans.flatMap le16)
    else ⟨-1, none⟩)

def hgicIwprivSetMode : SetHandler := setString HgicCmd.setWorkMode

/-- The loop over the texts between commas, and what it puts into `mac`. It ends at a text that is no address. -/
def pairedLoop : (fuel : Nat) → (ptr : List UInt8) → Run (List UInt8)
  | 0, _ => .ok []
  | _ + 1, [] => .ok []
  | n + 1, b :: s =>
    if b = 0 then .ok []
    else match strchr 44 (b :: s) with
      | some (field, rest) => do
        let mac ← hgicPickMacaddr (field ++ 0 :: rest)
        if mac.2 then (mac.1 ++ ·) <$> pairedLoop n rest else .ok []
      | none => do
        let mac ← hgicPickMacaddr (b :: s)
        .ok (if mac.2 then mac.1 else [])

def hgicIwprivSetPairedStas : SetHandler := setNonempty fun env ifidx v =>
  if env.kmem then (hgicFwctrlSetBytes env ifidx HgicCmd.setPairedStations ·) <$> pairedLoop v.length v
  else .ok ⟨enomem, none⟩

def hgicIwprivSetPairing : SetHandler :=
  setPicked 4 (fun x => le32 (x 0) ++ [u8 (x 1), u8 (x 2), u8 (x 3)]) HgicCmd.pairing
def hgicIwprivSetBeaconInt : SetHandler := setNumber id HgicCmd.setBeaconInt
def hgicIwprivSetRadioOnoff : SetHandler := setByte HgicCmd.radioOnoff

def hgicIwprivJoinGroup : SetHandler := fun env ifidx v => do
  let addr ← hgicPickMacaddr v
  let aid ← textAt v 18
  return hgicFwctrlSetBytes env ifidx HgicCmd.joinGroup (addr.1 ++ [u8 (simpleStrtol 10 aid)])

def hgicIwprivSetEthertype : SetHandler := fun env ifidx v =>
  .ok (hgicFwctrlSetBytes env ifidx HgicCmd.setEtherType (le16 (simpleStrtol 16 v)))

def hgicIwprivSetTxpower : SetHandler := setNumber (· % 2 ^ 16) HgicCmd.setTxPower
def hgicIwprivSetAggcnt : SetHandler := setPicked 2 (fun x => [u8 (x 0), u8 (x 1)]) HgicCmd.setAggCnt
def hgicIwprivSetPsConnect : SetHandler := setPicked 2 (fun x => [u8 (x 0), u8 (x 1)]) HgicCmd.setPsConnect
def hgicIwprivSetBssMaxIdle : SetHandler := setNumber id HgicCmd.setBssMaxIdle
def hgicIwprivSetDtimPeriod : SetHandler := setNumber id HgicCmd.setDtimPeriod
def hgicIwprivSetWkioMode : SetHandler := setByte HgicCmd.setWkioMode
def hgicIwprivSetLoadDef : SetHandler := setByte HgicCmd.loadDef
def hgicIwprivSetDisassocSta : SetHandler := setMac HgicCmd.disassocSta
def hgicIwprivSetPsMode : SetHandler := setByte HgicCmd.setPsMode
def hgicIwprivSetAplostTime : SetHandler := setNumber id HgicCmd.setAplostTime
def hgicIwprivSetUnpair : SetHandler := setMac HgicCmd.unpair
def hgicIwprivSetAutoChswitch : SetHandler := setFlag HgicCmd.setAutoChanSwitch
def hgicIwprivSetMcastKey : SetHandler := setString HgicCmd.setMcastKey
def hgicIwprivSetReassocWkhost : SetHandler := setFlag HgicCmd.setReassocWkhost
def hgicIwprivSetWakeupIo : SetHandler := setPicked 2 (fun x => [u8 (x 0), u8 (x 1)]) HgicCmd.setWakeupIo
def hgicIwprivSetDbginfoOutput : SetHandler := setFlag HgicCmd.dbginfoOutput
def hgicIwprivSetSysdbg : SetHandler := setString HgicCmd.setSysdbg
def hgicIwprivSetPrimaryChan : SetHandler := setByte HgicCmd.setPrimaryChan
def hgicIwprivSetAutosleepTime : SetHandler := setByte HgicCmd.setAutoSleepTime
def hgicIwprivSetSuperPwr : SetHandler := setByte HgicCmd.setSuperPwr
def hgicIwprivSetRepeaterSsid : SetHandler := setString HgicCmd.setRepeaterSsid
def hgicIwprivSetRepeaterPsk : SetHandler := setString HgicCmd.setRepeaterPsk
def hgicIwprivSetAutoSave : SetHandler := setByte HgicCmd.cfgAutoSave
def hgicIwprivSetPairAutostop : SetHandler := setByte HgicCmd.setPairAutostop
def hgicIwprivSetDcdc13v : SetHandler := setByte HgicCmd.setDcdc13
def hgicIwprivSetAcktmo : SetHandler := setNumber id HgicCmd.setAcktmo
def hgicIwprivSetPaPwrctlDis : SetHandler := setByte HgicCmd.paPwrctrlDis
def hgicIwprivSetDhcpc : SetHandler := setByte HgicCmd.setDhcpc
def hgicIwprivSetWkdataSave : SetHandler := setByte HgicCmd.setWkupdataSaveen
def hgicIwprivSetMcastTxparam : SetHandler :=
  setPicked 4 (fun x => [u8 (x 0), u8 (x 1), u8 (x 2), u8 (x 3)]) HgicCmd.setMcastTxparam
def hgicIwprivSetResetsta : SetHandler := setMacOfSta HgicCmd.setResetSta
def hgicIwprivSetAntAuto : SetHandler := setByte HgicCmd.setAntAuto
def hgicIwprivSetSelectAnt : SetHandler := setByte HgicCmd.setAntSel

/-- One byte more than there are reasons: the last one is 0. -/
def hgicIwprivSetWkhostReasons : SetHandler := fun env ifidx v =>
  .ok (hgicFwctrlSetBytes env ifidx HgicCmd.setWkupHostReason ((hgicPickValues 32 v).map u8 ++ [0]))

def hgicIwprivSetMacFilter : SetHandler := setByte HgicCmd.setMacFilterEn

/-- `at+` is put before a text that does not start with it. -/
def hgicIwprivSetAtcmd : SetHandler := fun env ifidx v =>
  if ((cstr v).take 3).map lower = bytes "at+" then setString HgicCmd.setAtcmd env ifidx v
  else .ok (if env.kmem then hgicFwctrlSetBytes env ifidx HgicCmd.setAtcmd (bytes "at+" ++ cstr v) else ⟨enomem, none⟩)

def hgicIwprivSetRoaming : SetHandler := fun env ifidx v =>
  .ok (hgicFwctrlSetBytes env ifidx HgicCmd.setRoaming ((hgicPickValues 8 v).map u8))

def hgicIwprivSetApHide : SetHandler := setByte HgicCmd.setApHide
def hgicIwprivSetMaxTxcnt : SetHandler := setByte HgicCmd.setMaxTcnt
def hgicIwprivSetAssertHoldup : SetHandler := setByte HgicCmd.setAssertHoldup
def hgicIwprivSetApPsmode : SetHandler := setByte HgicCmd.setApPsmodeEn
def hgicIwprivSetDupfilterEn : SetHandler := setByte HgicCmd.setDupfilterEn
def hgicIwprivSetDis1v1m2u : SetHandler := setByte HgicCmd.setDis1v1M2u
def hgicIwprivSetDisPsconnect : SetHandler := setByte HgicCmd.setDisPsconnect

def hgicIwprivReset : SetHandler := fun env ifidx _ => .ok (hgicFwctrlSetBytes env ifidx HgicCmd.reset [])

def hgicIwprivSetHeartbeat : SetHandler := fun env ifidx v =>
  -- `%d.%d.%d.%d,%d,%d,%d`
  let x := sscanfD [46, 46, 46, 44, 44, 44] v
  let ip := fun i => x.getD i 0 % 2 ^ 8
  let ipaddr := ip 0 * 2 ^ 24 + ip 1 * 2 ^ 16 + ip 2 * 2 ^ 8 + ip 3
  .ok (hgicFwctrlSetBytes env ifidx HgicCmd.setPsHeartbeat
    (le32 ipaddr ++ le32 (x.getD 4 0) ++ le32 (x.getD 5 0) ++ le32 (x.getD 6 300)))

def hgicIwprivSetHeartbeatResp : SetHandler := setRaw HgicCmd.setPsHeartbeatResp
def hgicIwprivSetWakeupData : SetHandler := setRaw HgicCmd.setPsWakeupData
def hgicIwprivWakeupSta : SetHandler := setMac HgicCmd.setWakeupSta
def hgicIwprivSendCustmgmt : SetHandler := setRaw HgicCmd.sendCustMgmt
def hgicIwprivSendMgmtframe : SetHandler := setRaw HgicCmd.sendMgmtframe

/-- `len` is the number of bytes, at most 128; of the mask at most 16 bytes are sent. -/
def hgicIwprivSetWkdataMask : SetHandler := fun env ifidx v => do
  let offset ← byteAt v 0
  let maskLen ← lenSub (v.take 128) 1
  let mask ← cellsAt v 1 (min maskLen 16)
  setCells env ifidx HgicCmd.setWkupdataMask ((le16 (charVal env.plat offset)).map some ++ mask)

/-- The mask starts at the third byte, and at most 64 bytes of it are sent. -/
def hgicIwprivSetHbdataMask : SetHandler := fun env ifidx v => do
  let offset ← byteAt v 0
  let maskLen ← lenSub (v.take 128) 2
  let mask ← cellsAt v 2 (min maskLen 64)
  setCells env ifidx HgicCmd.setPsHbdataMask
    ((le16 (charVal env.plat offset) ++ le16 (min maskLen 64 : Nat)).map some ++ mask)

def hgicIwprivSetDriverdata : SetHandler := setRaw HgicCmd.setCustDriverData
def hgicIwprivSetFreqinfo : SetHandler := setRaw HgicCmd.setStaFreqinfo

/-- `hgic_fwctrl_send_hci_data` with the type at `data[9]` and the `count - 10` bytes behind it. -/
def hgicFwctrlSendHciData (env : SetEnv) (v : List UInt8) : Run Res := do
  let type ← byteAt v 9
  let len ← lenSub v 10
  return if env.kmem then ⟨0, some (.hci type ((v.drop 10).take len))⟩ else ⟨enomem, none⟩

/-- A branch on the keyword that the value starts with. -/
def onKey (plat : Plat) (v : List UInt8) (key : String) (hit miss : Run Res) : Run Res := do
  if ← memcmp plat v (bytes key) then hit else miss

/-- The last four keywords. -/
def blencAdv (env : SetEnv) (ifidx : Nat) (v : List UInt8) : Run Res :=
  onKey env.plat v "ADV_INT:" (setNumber id HgicCmd.sendBlencAdvinterval env ifidx (v.drop 8)) <|
  onKey env.plat v "ADV_EN:" (setByte HgicCmd.sendBlencStartadv env ifidx (v.drop 7)) <|
  onKey env.plat v "HCI_DATA:" (hgicFwctrlSendHciData env v) <|
  onKey env.plat v "ADV_FILTER:" (setNumber id HgicCmd.setBlencAdvfilter env ifidx (v.drop 11)) <|
  .ok ⟨-1, none⟩

/-- The handler, without the change of its result. -/
def blenc (env : SetEnv) (ifidx : Nat) (v : List UInt8) : Run Res :=
  onKey env.plat v "EN:" (setPicked 2 (fun x => [u8 (x 0), u8 (x 1)]) HgicCmd.setBlencEn env ifidx (v.drop 3)) <|
  onKey env.plat v "DATA:" (lenSub v 5 >>= setBytesAt env ifidx HgicCmd.sendBlencData v 5) <|
  onKey env.plat v "DEV_ADDR:" (setBytesAt env ifidx HgicCmd.sendBlencDevaddr v 9 6) <|
  onKey env.plat v "ADV_DATA:" (lenSub v 9 >>= setBytesAt env ifidx HgicCmd.sendBlencAdvdata v 9) <|
  onKey env.plat v "SCAN_RESP:" (lenSub v 10 >>= setBytesAt env ifidx HgicCmd.sendBlencScanresp v 10) <|
  blencAdv env ifidx v

def hgicIwprivSetBlenc : SetHandler := fun env ifidx v =>
  (fun res => { res with ret := if res.ret = 0 then 0 else einval }) <$> blenc env ifidx v

/-- The type is 0xffff for a firmware below 2.0; waking up sends a type of 0. -/
def hgicIwprivEnterSleep : SetHandler := fun env ifidx v =>
  let x := hgicPickValues 2 v
  let sleep := x.getD 0 0 % 2 ^ 32
  let enter := fun (type ms : Int) =>
    let res := hgicFwctrlSetBytes env ifidx HgicCmd.enterSleep (le16 type ++ le32 ms)
    ({ res with ret := if res.ret = 0 then 0 else einval } : Res)
  .ok (if sleep ≠ 0 then
      if env.sleep then ⟨0, none⟩ else enter (if env.version < 0x02000000 then 0xffff else sleep) (x.getD 1 0)
    else if env.sleep then enter 0 0 else ⟨0, none⟩)

def hgicIwprivSetHwscan : SetHandler :=
  setPicked 4 (fun x => [u8 (x 0), u8 (x 1)] ++ le16 (x 2) ++ [u8 (x 3)]) HgicCmd.setHwscan

def hgicIwprivSetUserEdca : SetHandler := fun env ifidx v => do
  let ac ← cellsAt v 0 1
  let txq ← cellsAt v 1 8
  if env.kmem then setCells env ifidx HgicCmd.setUserEdca (ac ++ txq) else return ⟨enomem, none⟩

def hgicIwprivSetFixTxrate : SetHandler := fun env ifidx v =>
  .ok (hgicFwctrlSetIntVal env ifidx HgicCmd.setFixTxrate (simpleStrtoul 10 v))

def hgicIwprivSetNavMax : SetHandler := fun env ifidx v =>
  .ok (hgicFwctrlSetIntVal env ifidx HgicCmd.setNavMax (simpleStrtoul 10 v))

def hgicIwprivClearNav : SetHandler := fun env ifidx _ => .ok (hgicFwctrlSetIntVal env ifidx HgicCmd.setNavMax 0)

/-- `sizeof(struct hgic_cca_ctl)` bytes, whatever the length of the value. -/
def hgicIwprivSetCcaParam : SetHandler := fun env ifidx v => setBytesAt env ifidx HgicCmd.setCcaParam v 0 4

def hgicIwprivSetTxModulationGain : SetHandler := setRaw HgicCmd.setTxModgain
def hgicIwprivSetRtsDuration : SetHandler := setNumber id HgicCmd.setRtsDuration
def hgicIwprivSetDisablePrint : SetHandler := setByte HgicCmd.setDisablePrint
def hgicIwprivSetConnPaironly : SetHandler := setByte HgicCmd.setConnectPaironly
def hgicIwprivSetWaitPsmode : SetHandler := setByte HgicCmd.setWaitPsmode
def hgicIwprivSetDiffcustConn : SetHandler := setByte HgicCmd.setDiffcustConn
def hgicIwprivSetStandby : SetHandler := setPicked 2 (fun x => u8 (x 0) :: le32 (x 1)) HgicCmd.standbyCfg
def hgicIwprivSetApChanSwitch : SetHandler := setPicked 2 (fun x => [u8 (x 0), u8 (x 1)]) HgicCmd.setApChanSwitch
def hgicIwprivSetCcaForCe : SetHandler := setByte HgicCmd.setCcaForCe
def hgicIwprivSetRtc : SetHandler := setNumber id HgicCmd.setRtc
def hgicIwprivSetApepPadding : SetHandler := setByte HgicCmd.setApepPadding
def hgicIwprivSetWatchdog : SetHandler := setByte HgicCmd.setWatchdog
def hgicIwprivSetRetryFallbackCnt : SetHandler := setByte HgicCmd.setRetryFallbackCnt
def hgicIwprivSetFallbackMcs : SetHandler :=
  setPicked 4 (fun x => [u8 (x 0), u8 (x 1), u8 (x 2), u8 (x 3)]) HgicCmd.setFallbackMcs
def hgicIwprivSetXosc : SetHandler := setNumber id HgicCmd.setXoscValue
def hgicIwprivSetFreqCaliPeriod : SetHandler := setNumber (· % 2 ^ 16) HgicCmd.setCaliPeriod

/-- The first two bytes are the command. -/
def hgicIwprivSetCustomerDvrdata : SetHandler := fun env ifidx v => do
  let lo ← byteAt v 0
  let hi ← byteAt v 1
  let len ← lenSub v 2
  setBytesAt env ifidx (lo.toNat + 256 * hi.toNat) v 2 len

def hgicIwprivSetMaxTxDelay : SetHandler := setNumber id HgicCmd.setMaxTxDelay
def hgicIwprivSetHeartbeatInt : SetHandler := setNumber id HgicCmd.setHeartbeatInt
def hgicIwprivSetSleepRoaming : SetHandler := setPicked 2 (fun x => [u8 (x 0), u8 (x 1)]) HgicCmd.setSleepRoaming
def hgicIwprivSetRoamingBssid : SetHandler := setMac HgicCmd.setRoamingBssid

def hgicIwprivSetBssDisabled : SetHandler := fun env ifidx v => do
  let addr ← hgicPickMacaddr v
  let dis ← textAt v 18
  return hgicFwctrlSetBytes env ifidx HgicCmd.setDisableBss (u8 (simpleStrtol 10 dis) :: addr.1)

def hgicIwprivSetKickAssoc : SetHandler := setNumber id HgicCmd.setKickAssoc
def hgicIwprivSetStartAssoc : SetHandler := setNumber id HgicCmd.startAssoc
def hgicIwprivSetRmeshDevmax : SetHandler := setNumber (· % 2 ^ 8) HgicCmd.setRmeshDevmax
def hgicIwprivSetRmeshAid : SetHandler := setNumber (· % 2 ^ 8) HgicCmd.setRmeshAid

def hgicIwprivSetRmeshDevice : SetHandler := fun env ifidx v => do
  let aid ← cellsAt v 0 1
  let addr ← cellsAt v 1 6
  setCells env ifidx HgicCmd.setRmeshDevice (aid ++ addr)

def hgicIwprivSetRmeshNotfw : SetHandler := setNumber (· % 2 ^ 8) HgicCmd.setRmeshNotfw
def hgicIwprivSetRmeshRssimin : SetHandler := setNumber toS8 HgicCmd.setRmeshRssimin
def hgicIwprivSetRmeshMeshid : SetHandler := setMac HgicCmd.getRmeshMeshid

/-! ## The table -/

inductive Setting
  | countryRegion | ssid | bssid | channel | rtsThreshold | fragThreshold | keyMgmt | wpaPsk | bssidFilter | freqRange
  | bssBw | txBw | txMcs | acs | bgrssi | chanList | mode | pairedStas | pairing | beaconInt | radioOnoff | joinGroup
  | etherType | txpower | aggCnt | psConnect | bssMaxIdle | wkioMode | loaddef | disassocSta | dtimPeriod | psMode
  | aplostTime | unpair | autoChswitch | mcastKey | reassocWkhost | wakeupIo | dbginfo | sysdbg | primaryChan
  | autosleepTime | superPwr | rSsid | rPsk | autoSave | pairAutostop | dcdc13 | acktmo | paPwrctlDis | dhcpc
  | wkdataSave | mcastTxparam | resetSta | antAuto | antSel | wkhostReason | macfilter | atcmd | roaming | apHide
  | maxTxcnt | assertHoldup | apPsmode | dupfilter | dis1v1m2u | disPsconnect | reset | heartbeat | heartbeatResp
  | wakeupData | wakeup | custmgmt | mgmtframe | wkdataMask | hbdataMask | driverdata | freqinfo | blenc | sleep
  | hwscan | userEdca | fixTxrate | navMax | clrNav | ccaParam | txModgain | rtsDuration | disablePrint | connPaironly
  | diffcustConn | waitPsmode | standby | apChansw | ccaCe | rtc | apepPadding | watchdog | retryFallbackCnt
  | fallbackMcs | xosc | freqCaliPeriod | custDrvdata | maxTxdelay | heartbeatInt | sleepRoaming | roamingBssid
  | bssDisable | kickAssoc | startAssoc | rmeshDevmax | rmeshAid | rmeshDevice | rmeshNotfw | rmeshRssimin
  | rmeshMeshid
  deriving DecidableEq

def Setting.row : Setting → String × SetHandler
  | .countryRegion => ("country_region", hgicIwprivSetCountryregion)
  | .ssid => ("ssid", hgicIwprivSetSsid)
  | .bssid => ("bssid", hgicIwprivSetBssid)
  | .channel => ("channel", hgicIwprivSetChannel)
  | .rtsThreshold => ("rts_threshold", hgicIwprivSetRtsThreshold)
  | .fragThreshold => ("frag_threshold", hgicIwprivSetFragThreshold)
  | .keyMgmt => ("key_mgmt", hgicIwprivSetKeyMgmt)
  | .wpaPsk => ("wpa_psk", hgicIwprivSetWpaPsk)
  | .bssidFilter => ("bssid_filter", hgicIwprivSetBssidFilter)
  | .freqRange => ("freq_range", hgicIwprivSetFreqRange)
  | .bssBw => ("bss_bw", hgicIwprivSetBssBw)
  | .txBw => ("tx_bw", hgicIwprivSetTxBw)
  | .txMcs => ("tx_mcs", hgicIwprivSetTxMcs)
  | .acs => ("acs", hgicIwprivSetAcs)
  | .bgrssi => ("bgrssi", hgicIwprivSetBgrssi)
  | .chanList => ("chan_list", hgicIwprivSetChanList)
  | .mode => ("mode", hgicIwprivSetMode)
  | .pairedStas => ("paired_stas", hgicIwprivSetPairedStas)
  | .pairing => ("pairing", hgicIwprivSetPairing)
  | .beaconInt => ("beacon_int", hgicIwprivSetBeaconInt)
  | .radioOnoff => ("radio_onoff", hgicIwprivSetRadioOnoff)
  | .joinGroup => ("join_group", hgicIwprivJoinGroup)
  | .etherType => ("ether_type", hgicIwprivSetEthertype)
  | .txpower => ("txpower", hgicIwprivSetTxpower)
  | .aggCnt => ("agg_cnt", hgicIwprivSetAggcnt)
  | .psConnect => ("ps_connect", hgicIwprivSetPsConnect)
  | .bssMaxIdle => ("bss_max_idle", hgicIwprivSetBssMaxIdle)
  | .wkioMode => ("wkio_mode", hgicIwprivSetWkioMode)
  | .loaddef => ("loaddef", hgicIwprivSetLoadDef)
  | .disassocSta => ("disassoc_sta", hgicIwprivSetDisassocSta)
  | .dtimPeriod => ("dtim_period", hgicIwprivSetDtimPeriod)
  | .psMode => ("ps_mode", hgicIwprivSetPsMode)
  | .aplostTime => ("aplost_time", hgicIwprivSetAplostTime)
  | .unpair => ("unpair", hgicIwprivSetUnpair)
  | .autoChswitch => ("auto_chswitch", hgicIwprivSetAutoChswitch)
  | .mcastKey => ("mcast_key", hgicIwprivSetMcastKey)
  | .reassocWkhost => ("reassoc_wkhost", hgicIwprivSetReassocWkhost)
  | .wakeupIo => ("wakeup_io", hgicIwprivSetWakeupIo)
  | .dbginfo => ("dbginfo", hgicIwprivSetDbginfoOutput)
  | .sysdbg => ("sysdbg", hgicIwprivSetSysdbg)
  | .primaryChan => ("primary_chan", hgicIwprivSetPrimaryChan)
  | .autosleepTime => ("autosleep_time", hgicIwprivSetAutosleepTime)
  | .superPwr => ("super_pwr", hgicIwprivSetSuperPwr)
  | .rSsid => ("r_ssid", hgicIwprivSetRepeaterSsid)
  | .rPsk => ("r_psk", hgicIwprivSetRepeaterPsk)
  | .autoSave => ("auto_save", hgicIwprivSetAutoSave)
  | .pairAutostop => ("pair_autostop", hgicIwprivSetPairAutostop)
  | .dcdc13 => ("dcdc13", hgicIwprivSetDcdc13v)
  | .acktmo => ("acktmo", hgicIwprivSetAcktmo)
  | .paPwrctlDis => ("pa_pwrctl_dis", hgicIwprivSetPaPwrctlDis)
  | .dhcpc => ("dhcpc", hgicIwprivSetDhcpc)
  | .wkdataSave => ("wkdata_save", hgicIwprivSetWkdataSave)
  | .mcastTxparam => ("mcast_txparam", hgicIwprivSetMcastTxparam)
  | .resetSta => ("reset_sta", hgicIwprivSetResetsta)
  | .antAuto => ("ant_auto", hgicIwprivSetAntAuto)
  | .antSel => ("ant_sel", hgicIwprivSetSelectAnt)
  | .wkhostReason => ("wkhost_reason", hgicIwprivSetWkhostReasons)
  | .macfilter => ("macfilter", hgicIwprivSetMacFilter)
  | .atcmd => ("atcmd", hgicIwprivSetAtcmd)
  | .roaming => ("roaming", hgicIwprivSetRoaming)
  | .apHide => ("ap_hide", hgicIwprivSetApHide)
  | .maxTxcnt => ("max_txcnt", hgicIwprivSetMaxTxcnt)
  | .assertHoldup => ("assert_holdup", hgicIwprivSetAssertHoldup)
  | .apPsmode => ("ap_psmode", hgicIwprivSetApPsmode)
  | .dupfilter => ("dupfilter", hgicIwprivSetDupfilterEn)
  | .dis1v1m2u => ("dis_1v1m2u", hgicIwprivSetDis1v1m2u)
  | .disPsconnect => ("dis_psconnect", hgicIwprivSetDisPsconnect)
  | .reset => ("reset", hgicIwprivReset)
  | .heartbeat => ("heartbeat", hgicIwprivSetHeartbeat)
  | .heartbeatResp => ("heartbeat_resp", hgicIwprivSetHeartbeatResp)
  | .wakeupData => ("wakeup_data", hgicIwprivSetWakeupData)
  | .wakeup => ("wakeup", hgicIwprivWakeupSta)
  | .custmgmt => ("custmgmt", hgicIwprivSendCustmgmt)
  | .mgmtframe => ("mgmtframe", hgicIwprivSendMgmtframe)
  | .wkdataMask => ("wkdata_mask", hgicIwprivSetWkdataMask)
  | .hbdataMask => ("hbdata_mask", hgicIwprivSetHbdataMask)
  | .driverdata => ("driverdata", hgicIwprivSetDriverdata)
  | .freqinfo => ("freqinfo", hgicIwprivSetFreqinfo)
  | .blenc => ("blenc", hgicIwprivSetBlenc)
  | .sleep => ("sleep", hgicIwprivEnterSleep)
  | .hwscan => ("hwscan", hgicIwprivSetHwscan)
  | .userEdca => ("user_edca", hgicIwprivSetUserEdca)
  | .fixTxrate => ("fix_txrate", hgicIwprivSetFixTxrate)
  | .navMax => ("nav_max", hgicIwprivSetNavMax)
  | .clrNav => ("clr_nav", hgicIwprivClearNav)
  | .ccaParam => ("cca_param", hgicIwprivSetCcaParam)
  | .txModgain => ("tx_modgain", hgicIwprivSetTxModulationGain)
  | .rtsDuration => ("rts_duration", hgicIwprivSetRtsDuration)
  | .disablePrint => ("disable_print", hgicIwprivSetDisablePrint)
  | .connPaironly => ("conn_paironly", hgicIwprivSetConnPaironly)
  | .diffcustConn => ("diffcust_conn", hgicIwprivSetDiffcustConn)
  | .waitPsmode => ("wait_psmode", hgicIwprivSetWaitPsmode)
  | .standby => ("standby", hgicIwprivSetStandby)
  | .apChansw => ("ap_chansw", hgicIwprivSetApChanSwitch)
  | .ccaCe => ("cca_ce", hgicIwprivSetCcaForCe)
  | .rtc => ("rtc", hgicIwprivSetRtc)
  | .apepPadding => ("apep_padding", hgicIwprivSetApepPadding)
  | .watchdog => ("watchdog", hgicIwprivSetWatchdog)
  | .retryFallbackCnt => ("retry_fallback_cnt", hgicIwprivSetRetryFallbackCnt)
  | .fallbackMcs => ("fallback_mcs", hgicIwprivSetFallbackMcs)
  | .xosc => ("xosc", hgicIwprivSetXosc)
  | .freqCaliPeriod => ("freq_cali_period", hgicIwprivSetFreqCaliPeriod)
  | .custDrvdata => ("cust_drvdata", hgicIwprivSetCustomerDvrdata)
  | .maxTxdelay => ("max_txdelay", hgicIwprivSetMaxTxDelay)
  | .heartbeatInt => ("heartbeat_int", hgicIwprivSetHeartbeatInt)
  | .sleepRoaming => ("sleep_roaming", hgicIwprivSetSleepRoaming)
  | .roamingBssid => ("roaming_bssid", hgicIwprivSetRoamingBssid)
  | .bssDisable => ("bss_disable", hgicIwprivSetBssDisabled)
  | .kickAssoc => ("kick_assoc", hgicIwprivSetKickAssoc)
  | .startAssoc => ("start_assoc", hgicIwprivSetStartAssoc)
  | .rmeshDevmax => ("rmesh_devmax", hgicIwprivSetRmeshDevmax)
  | .rmeshAid => ("rmesh_aid", hgicIwprivSetRmeshAid)
  | .rmeshDevice => ("rmesh_device", hgicIwprivSetRmeshDevice)
  | .rmeshNotfw => ("rmesh_notfw", hgicIwprivSetRmeshNotfw)
  | .rmeshRssimin => ("rmesh_rssimin", hgicIwprivSetRmeshRssimin)
  | .rmeshMeshid => ("rmesh_meshid", hgicIwprivSetRmeshMeshid)

def hgprivSets : List Setting :=
  [.countryRegion, .ssid, .bssid, .channel, .rtsThreshold, .fragThreshold, .keyMgmt, .wpaPsk, .bssidFilter,
  .freqRange, .bssBw, .txBw, .txMcs, .acs, .bgrssi, .chanList, .mode, .pairedStas, .pairing, .beaconInt, .radioOnoff,
  .joinGroup, .etherType, .txpower, .aggCnt, .psConnect, .bssMaxIdle, .wkioMode, .loaddef, .disassocSta, .dtimPeriod,
  .psMode, .aplostTime, .unpair, .autoChswitch, .mcastKey, .reassocWkhost, .wakeupIo, .dbginfo, .sysdbg, .primaryChan,
  .autosleepTime, .superPwr, .rSsid, .rPsk, .autoSave, .pairAutostop, .dcdc13, .acktmo, .paPwrctlDis, .dhcpc,
  .wkdataSave, .mcastTxparam, .resetSta, .antAuto, .antSel, .wkhostReason, .macfilter, .atcmd, .roaming, .apHide,
  .maxTxcnt, .assertHoldup, .apPsmode, .dupfilter, .dis1v1m2u, .disPsconnect, .reset, .heartbeat, .heartbeatResp,
  .wakeupData, .wakeup, .custmgmt, .mgmtframe, .wkdataMask, .hbdataMask, .driverdata, .freqinfo, .blenc, .sleep,
  .hwscan, .userEdca, .fixTxrate, .navMax, .clrNav, .ccaParam, .txModgain, .rtsDuration, .disablePrint, .connPaironly,
  .diffcustConn, .waitPsmode, .standby, .apChansw, .ccaCe, .rtc, .apepPadding, .watchdog, .retryFallbackCnt,
  .fallbackMcs, .xosc, .freqCaliPeriod, .custDrvdata, .maxTxdelay, .heartbeatInt, .sleepRoaming, .roamingBssid,
  .bssDisable, .kickAssoc, .startAssoc, .rmeshDevmax, .rmeshAid, .rmeshDevice, .rmeshNotfw, .rmeshRssimin,
  .rmeshMeshid]

def enotsupp : Int := -524

/-- The row of a name, which is a string without a 0. -/
def findSet (name : List UInt8) : Option Setting := hgprivSets.find? fun s => bytes s.row.1 == name

/-- The handler that a request is for, with its value. -/
def selectSet (req : List UInt8) : Option (Setting × List UInt8) :=
  match strchr 61 req with
  | some (name, v) => (findSet name).map fun s => (s, v)
  | none => none

theorem mem_hgprivSets (s : Setting) : s ∈ hgprivSets := by
  cases s <;> decide

theorem findSet_names : (hgprivSets.all fun s =>
    findSet (bytes s.row.1) == some s && (bytes s.row.1).all fun b => b != 61 && b != 0) = true := by
  decide +kernel

theorem selectSet_row (s : Setting) (v : List UInt8) : selectSet (bytes s.row.1 ++ 61 :: v) = some (s, v) := by
  have hrow := List.all_eq_true.mp findSet_names s (mem_hgprivSets s)
  obtain ⟨hfind, hname⟩ := Bool.and_eq_true_iff.mp hrow
  unfold selectSet
  rw [strchr_append (avoids_of_all hname)]
  show (findSet (bytes s.row.1)).map _ = _
  rw [eq_of_beq hfind]
  rfl

/-- `hgic_iwpriv_set_proc` on the `wrqin->u.data.length` bytes of the request; `alloc` and `copied` are the results of
`kmalloc` and `copy_from_user`. -/
def hgicIwprivSetProc (env : SetEnv) (alloc copied : Bool) (ifidx : Nat) (req : List UInt8) : Run Res :=
  if alloc then
    if copied then
      match selectSet req with
      | some (s, v) => s.row.2 env ifidx v
      | none => .ok ⟨enotsupp, none⟩
    else .ok ⟨enotsupp, none⟩
  else .ok ⟨enomem, none⟩

end HgicFmac.Iwpriv
