import HgicFmac.Fwctrl.Cmd
import HgicFmac.Fwctrl.Ids
import HgicFmac.Iwpriv.Request

/-!
# The get handlers of `iwpriv.c`

A handler sends one command, formats a text or leaves the answer as it is, and copies it over the request.

* `GetEnv`, `GetOut` : what the handler does not decide, and what it does. `Copy` holds the bytes that it has filled in,
  `Use` how much of a local buffer it needs;
* `rawGet`, `shortText`, `intText` : the families;
* `hgicIwprivGet…` : the handlers, with the functions of `fwctrl.c` that they call;
* `Getting`, `Getting.row`, `hgprivGets` : the table.
-/

namespace HgicFmac.Iwpriv
open Lib Fwctrl

/-- `r` is the answer to the command, `kmem` the outcome of `kmalloc`, `fwinfo` the structure at `ctrl->fwinfo`, `stack`
what the locals and unset memory held before and `behind` what lies behind them and behind allocated memory. -/
structure GetEnv where
  e : Endian
  charSigned : Bool
  r : Reply
  kmem : Bool
  fwinfo : Mem
  stack : Mem
  behind : List UInt8

/-- `hgic_copyto_iwreq` with `len` bytes of `src`, of which `filled` were written by the device or by `sprintf`. -/
structure Copy where
  src : Mem
  len : Int
  filled : Nat

/-- The number of bytes that `hgic_copyto_iwreq` copies, for a request of `length` bytes. -/
def Copy.copied (c : Copy) (length : Nat) : Nat := (min c.len length).toNat

/-- The bytes of a local buffer that are read or written, and how many there are. -/
structure Use where
  used : Nat
  size : Nat
  deriving DecidableEq, Repr

/-- `setLen` is what the handler stores to `wrqin->u.data.length`; `texts` are the buffers that it formats into, and
`arrays` the ones whose elements it puts into a text, with the bytes of them that are set: all of a buffer of `kzalloc`,
and of a local variable those that the answer has filled in. -/
structure GetOut where
  ret : Int
  cmd : Option Nat
  setLen : Option Nat
  copy : Option Copy
  texts : List Use
  arrays : List Use

def GetOut.quit (ret : Int) (cmd : Option Nat) : GetOut := ⟨ret, cmd, none, none, [], []⟩

/-- A handler that copies a text, formatted into a buffer of `size` bytes. -/
def GetOut.ofText (cmd size : Nat) (s : List UInt8) : GetOut :=
  ⟨0, some cmd, none, some ⟨Mem.ofList s, s.length, s.length⟩, [⟨s.length + 1, size⟩], []⟩

abbrev GetHandler := GetEnv → (req : List UInt8) → GetOut

/-- The answer to a command with at most 6 bytes. -/
def GetEnv.status (env : GetEnv) : Int := (hgicFwctrlDoCmd env.r 0 0).1

/-- The bytes that are copied to a buffer of `cap` bytes. -/
def GetEnv.data (env : GetEnv) (cap : Nat) : List UInt8 := (hgicFwctrlDoCmd env.r 0 cap).2

/-! ## The request -/

/-- The string in `buff[64]`: it has no terminating 0 if the request is longer. -/
def reqText (env : GetEnv) (req : List UInt8) : List UInt8 :=
  req.take 64 ++ if req.length < 64 then [] else env.behind

/-- The number behind the `=`. -/
def getFormat (s : List UInt8) : Int :=
  match strchr 61 s with
  | some (_, t) => simpleStrtol 10 t
  | none => 0

/-! ## The families -/

/-- The answer as it is, in a buffer that held `old`; the whole status is the length of the copy. -/
def rawGet (cmd cap : Nat) (old : GetEnv → Mem) : GetHandler := fun env _ =>
  ⟨0, some cmd, none, some ⟨(old env).write 0 (env.data cap), env.status, (env.data cap).length⟩, [], []⟩

def kzalloc (size : Nat) (env : GetEnv) : Mem := Mem.ofList (List.replicate size 0 ++ env.behind)

/-- The status as a text in `str[size]`. -/
def shortText (cmd size : Nat) : GetHandler := fun env _ => .ofText cmd size (dec env.status)

def getIntVal (env : GetEnv) : Int :=
  if env.status = 4 then toS32 (load32 .little (Mem.ofList (env.data 4)) 0) else -1

def intText (cmd size : Nat) : GetHandler := fun env _ => .ofText cmd size (dec (getIntVal env))

/-! ## Records -/

/-- `%pM`. -/
def pM (m : Mem) (off : Nat) : List UInt8 :=
  hex2 (m off) ++ 58 :: (hex2 (m (off + 1)) ++ 58 :: (hex2 (m (off + 2)) ++ 58 :: (hex2 (m (off + 3)) ++
    58 :: (hex2 (m (off + 4)) ++ 58 :: hex2 (m (off + 5))))))

def firstBits (e : Endian) (n : Nat) (b : UInt8) : Nat :=
  match e with
  | .little => b.toNat % 2 ^ n
  | .big => b.toNat / 2 ^ (8 - n)

/-- The bits behind the first `8 - n`. -/
def lastBits (e : Endian) (n : Nat) (b : UInt8) : Nat :=
  match e with
  | .little => b.toNat / 2 ^ (8 - n)
  | .big => b.toNat % 2 ^ n

def s8At (m : Mem) (off : Nat) : Int := toS8 (m off).toNat

def staLine (e : Endian) (m : Mem) (off : Nat) : List UInt8 :=
  bytes "aid:" ++ dec (m off).toNat ++ bytes ", " ++ pM m (off + 2) ++ bytes ", ps:" ++
    dec (firstBits e 1 (m (off + 1))) ++ bytes ", rssi:" ++ dec (s8At m (off + 8)) ++ bytes ", evm:" ++
    dec (s8At m (off + 9)) ++ bytes ", tx_snr:" ++ dec (s8At m (off + 10)) ++ bytes ", rx_snr:" ++
    dec (s8At m (off + 11)) ++ bytes "\r\n"

def rmeshLine (m : Mem) (off : Nat) : List UInt8 :=
  bytes "aid:" ++ dec (m off).toNat ++ bytes ", " ++ pM m (off + 1) ++ bytes "\r\n"

/-- The loop over `count` records, at `len` characters: it stops less than 80 characters before 8192. -/
def recordLoop (line : Nat → List UInt8) : (count i len : Nat) → List (List UInt8)
  | 0, _, _ => []
  | count + 1, i, len =>
    if len + 80 < 8192 then line i :: recordLoop line count (i + 1) (len + (line i).length) else []

/-- The number of records, then the records. -/
def recordText (count : Nat) (what : String) (line : Nat → List UInt8) : List (List UInt8) :=
  let title := dec count ++ bytes what
  title :: recordLoop line count 0 title.length

/-- `print_buf` of `hgic_iwpriv_get_scan_list` starts with one of these. -/
def scanTitle : String := "\r\nBSSID            \tSSID      \tEncryption\tFrequence\tSignal\n"
def scanTitle1 : String :=
  "\r\nBSSID            \tSSID      \tEncryption\tFrequence\tSignal\tCountry_region\tBSS_BW\n"

/-- The 1024 bytes of `buf`, and what lies behind them. -/
def scanBuf (env : GetEnv) : List UInt8 :=
  env.data 1024 ++ List.replicate (1024 - (env.data 1024).length) 0 ++ env.behind

def encryptText (n : Nat) : List UInt8 := bytes (if n = 0 then "NONE" else if n = 1 then "WPA" else "WPA2")

def strAt (buf : List UInt8) (off : Nat) : List UInt8 := cstr (buf.drop off)

def bssLine (e : Endian) (buf : List UInt8) (off : Nat) : List UInt8 :=
  let m := Mem.ofList buf
  pM m off ++ bytes "\t" ++ strAt buf (off + 6) ++ bytes "\t " ++ padLeft 10 (encryptText (m (off + 38)).toNat) ++
    bytes "\t  " ++ padLeft 10 (dec (load16 e m (off + 40))) ++ bytes "\t" ++ dec (s8At m (off + 39)) ++ bytes "\n"

def bssLine1 (e : Endian) (buf : List UInt8) (off : Nat) : List UInt8 :=
  let m := Mem.ofList buf
  pM m off ++ bytes "\t" ++ strAt buf (off + 6) ++ bytes "\t " ++
    padLeft 10 (encryptText (firstBits e 6 (m (off + 38)))) ++ bytes "\t  " ++
    padLeft 10 (dec (load16 e m (off + 40))) ++ bytes "\t" ++ padLeft 10 (dec (s8At m (off + 39))) ++ bytes "\t" ++
    padLeft 10 (strAt buf (off + 42)) ++ bytes "\t" ++ dec (m (off + 46)).toNat ++ bytes "\n"

/-- A list of records of `size` bytes with strings at `strs`. -/
structure ScanForm where
  size : Nat
  title : String
  line : (buf : List UInt8) → (off : Nat) → List UInt8
  strs : List Nat

/-- `bss1[0].ver` decides. -/
def scanForm (env : GetEnv) : ScanForm :=
  if lastBits env.e 2 (Mem.ofList (scanBuf env) 38) ≠ 1 then ⟨42, scanTitle, bssLine env.e, [6]⟩
  else ⟨48, scanTitle1, bssLine1 env.e, [6, 42]⟩

def scanCount (env : GetEnv) : Nat := env.status.toNat / (scanForm env).size

def scanText (env : GetEnv) : List UInt8 :=
  bytes (scanForm env).title ++
    (List.range (scanCount env)).flatMap fun i => (scanForm env).line (scanBuf env) ((scanForm env).size * i)

/-- What is read of `buf`: each record, and each of its strings up to the terminating 0. -/
def scanReads (env : GetEnv) : List Use :=
  (List.range (scanCount env)).flatMap fun i =>
    ⟨(scanForm env).size * (i + 1), 1024⟩ ::
      (scanForm env).strs.map fun o =>
        ⟨(scanForm env).size * i + o + (strAt (scanBuf env) ((scanForm env).size * i + o)).length + 1, 1024⟩

/-- The length of the request is replaced by that of the text. -/
def hgicIwprivGetScanList : GetHandler := fun env _ =>
  if ¬ env.kmem then .quit enomem none
  else if 0 < env.status then
    ⟨0, some HgicCmd.getScanList, some ((scanText env).length % 2 ^ 16),
      some ⟨Mem.ofList (scanText env), (scanText env).length, (scanText env).length⟩,
      [⟨(scanText env).length + 1, 4096⟩], scanReads env⟩
  else ⟨0, some HgicCmd.getScanList, none, some ⟨Mem.ofList [], 2, 0⟩, [], []⟩

/-- The records lie in 4096 bytes that held the request. -/
def recordBuf (env : GetEnv) (req : List UInt8) (cap : Nat) : Mem :=
  ((kzalloc 4096 env).write 0 (req.take 64)).write 0 (env.data cap)

def hgicIwprivGetStaList : GetHandler := fun env req =>
  if ¬ env.kmem then .quit enomem none
  else
    -- 4096 / 12 records
    let cap := 341 * 12
    let count := if 0 < env.status then env.status / 12 else env.status
    let m := recordBuf env req cap
    if getFormat (req.take 64) % 2 ^ 32 = 1 then
      ⟨0, some HgicCmd.getStaList, none, some ⟨m, count * 12, (env.data cap).length⟩, [], []⟩
    else if 0 < count then
      let lines := recordText count.toNat " sta:\r\n" fun i => staLine env.e m (12 * i)
      ⟨0, some HgicCmd.getStaList, none, some ⟨Mem.ofList lines.flatten, lines.flatten.length, lines.flatten.length⟩,
        [⟨lines.flatten.length + 1, 8192⟩], [⟨12 * (lines.length - 1), 4096⟩]⟩
    else ⟨0, some HgicCmd.getStaList, none, some ⟨Mem.ofList [], 0, 0⟩, [], []⟩

def hgicIwprivGetMode : GetHandler := rawGet HgicCmd.getMode 12 (·.stack)
def hgicIwprivGetSsid : GetHandler := rawGet HgicCmd.getSsid 32 (·.stack)

def hgicIwprivGetBssid : GetHandler := fun env _ =>
  let m := Mem.ofList (env.data 7)
  .ofText HgicCmd.getBssid 24 (if 0 < env.status then
    pM m 0 ++ bytes "," ++ dec (if env.charSigned then s8At m 6 else (m 6).toNat) else [])

def hgicIwprivGetWpaPsk : GetHandler := fun env req =>
  if ¬ env.kmem then .quit enomem none else rawGet HgicCmd.getWpaPsk 64 (kzalloc 80) env req

def hgicIwprivGetTxpower : GetHandler := shortText HgicCmd.getTxPower 4
def hgicIwprivGetBssBw : GetHandler := shortText HgicCmd.getBssBw 4

def hgicIwprivGetAggcnt : GetHandler := fun env _ =>
  let m := Mem.ofList (env.data 2)
  .ofText HgicCmd.getAggCnt 32 (if env.status = 0xff then
    bytes "tx:" ++ dec (m 0).toNat ++ bytes ",rx:" ++ dec (m 1).toNat
    else bytes "tx:" ++ dec env.status ++ bytes ",rx:0")

/-- The loop runs over all elements that the status speaks of, of an array on the stack. -/
def hgicIwprivGetChanList : GetHandler := fun env _ =>
  if ¬ env.kmem then .quit 0 none
  else
    let cnt := env.status.toNat / 2
    let m := env.stack.write 0 (env.data 32)
    let s := (List.range cnt).flatMap fun i => dec (load16 env.e m (2 * i)) ++ bytes ","
    ⟨0, some HgicCmd.getChanList, none, some ⟨Mem.ofList s, (s.length : Int) - 1, s.length⟩, [⟨s.length + 1, 128⟩],
      [⟨2 * cnt, (env.data 32).length⟩]⟩

def hgicIwprivGetFreqRange : GetHandler := fun env _ =>
  let val := fun i => toS32 (load32 .little (Mem.ofList (env.data 12)) (4 * i))
  .ofText HgicCmd.getFreqRange 32 (if env.status = 12 then
    dec (val 0) ++ bytes "," ++ dec (val 1) ++ bytes "," ++ dec (val 2) else [])

def hgicIwprivGetKeyMgmt : GetHandler := rawGet HgicCmd.getKeyMgmt 32 (·.stack)
def hgicIwprivGetBatteryLevel : GetHandler := shortText HgicCmd.getBatteryLevel 4

/-- Nothing is copied for the type 0. -/
def hgicIwprivGetModuleType : GetHandler := fun env _ =>
  let type := env.status % 2 ^ 16
  if type ≠ 0 then .ofText HgicCmd.getModuletype 12 (dec type) else .quit 0 (some HgicCmd.getModuletype)

def hgicIwprivGetDisassocReason : GetHandler := shortText HgicCmd.getDisassocReason 12
def hgicIwprivGetAntSel : GetHandler := shortText HgicCmd.getAntSel 12
def hgicIwprivGetWkreason : GetHandler := shortText HgicCmd.getWakeupReason 12

def hgicIwprivGetWkdataBuff : GetHandler := fun env req =>
  if ¬ env.kmem then .quit 0 none else rawGet HgicCmd.getWkdataBuff 4096 (·.stack) env req

def hgicIwprivGetTemperature : GetHandler := shortText HgicCmd.getTemperature 12
def hgicIwprivGetConnState : GetHandler := shortText HgicCmd.getConnState 12
def hgicIwprivGetStaCount : GetHandler := shortText HgicCmd.getStaCount 12

/-- The handlers that copy an answer of `size` bytes only; `quit` is the result of the others. -/
def exactGet (cmd size : Nat) : GetHandler := fun env _ =>
  if env.status = size then ⟨0, some cmd, none, some ⟨Mem.ofList (env.data size), size, (env.data size).length⟩, [], []⟩
  else .quit env.status (some cmd)

def hgicIwprivGetTxqParam : GetHandler := exactGet HgicCmd.getTxqParam 32
def hgicIwprivGetNav : GetHandler := shortText HgicCmd.getNav 12

/-- `%u`; the bytes of the answer are those of a `u32` that was 0. -/
def hgicIwprivGetRtc : GetHandler := fun env _ =>
  .ofText HgicCmd.getRtc 12 (dec (load32 env.e (Mem.ofList (env.data 4)) 0))

def hgicIwprivGetBgrssi : GetHandler := fun env req =>
  match strchr 61 (reqText env req) with
  | none => .quit einval none
  | some _ =>
    let m := Mem.ofList (env.data 3)
    if env.status = 3 then
      .ofText HgicCmd.getBgrssi 64 (dec (s8At m 0) ++ bytes "," ++ dec (s8At m 1) ++ bytes "," ++ dec (s8At m 2))
    else .quit 0 (some HgicCmd.getBgrssi)

def hgicIwprivGetCenterFreq : GetHandler := shortText HgicCmd.getCenterFreq 12

def hgicIwprivGetAcsResult : GetHandler := fun env req =>
  if ¬ env.kmem then .quit 0 none else rawGet HgicCmd.getAcsResult (32 * 8) (kzalloc (32 * 8)) env req

def hgicIwprivGetReasonCode : GetHandler := shortText HgicCmd.getWifiReasonCode 12
def hgicIwprivGetStatusCode : GetHandler := shortText HgicCmd.getWifiStatusCode 12
def hgicIwprivGetDhcpcResult : GetHandler := exactGet HgicCmd.getDhcpcResult 24
def hgicIwprivGetXosc : GetHandler := intText HgicCmd.getXoscValue 12

def hgicIwprivGetFreqOffset : GetHandler := fun env req =>
  match strchr 61 (reqText env req) with
  | none => .quit einval none
  | some _ => intText HgicCmd.getFreqOffset 64 env req

/-- No command is sent. -/
def hgicIwprivGetFwinfo : GetHandler := fun env _ =>
  ⟨0, none, none, some ⟨env.fwinfo, fwInfoSize, fwInfoSize⟩, [], []⟩

/-- The number behind the `,`. -/
def infoFormat (arg : List UInt8) : Int :=
  match strchr 44 arg with
  | some (_, t) => simpleStrtol 10 t
  | none => 0

/-- The structure on the stack is printed whole, whatever the device sent of it. -/
def hgicIwprivGetStaInfo : GetHandler := fun env req =>
  if ¬ env.kmem then .quit enomem none
  else match strchr 61 (reqText env req) with
    | none => .quit einval none
    | some (_, arg) =>
      let m := env.stack.write 0 (env.data 12)
      if infoFormat arg % 2 ^ 8 = 1 then rawGet HgicCmd.getStaInfo 12 (·.stack) env req
      else if 0 < env.status then
        { GetOut.ofText HgicCmd.getStaInfo 512 (staLine env.e m 0) with arrays := [⟨12, (env.data 12).length⟩] }
      else ⟨0, some HgicCmd.getStaInfo, none, some ⟨Mem.ofList [], env.status, 0⟩, [], []⟩

def hgicIwprivGetSignal : GetHandler := fun env _ => .ofText HgicCmd.getSignal 12 (dec (env.status - 0x1000))

def hgicIwprivGetTxBitrate : GetHandler := intText HgicCmd.getTxBitrate 12

def linkLine (m : Mem) : List UInt8 :=
  let val := fun i => dec (toS32 (load32 .little m (4 + 4 * i)))
  bytes "Link Quality: bgrssi=" ++ dec (s8At m 0) ++ bytes ", rssi=" ++ dec (s8At m 1) ++ bytes ", evm=" ++
    dec (s8At m 2) ++ bytes ", per=" ++ dec (s8At m 3) ++ bytes ", obss_sta=" ++ val 0 ++ bytes ", bss_stas=" ++
    val 1 ++ bytes ", cca=[" ++ val 2 ++ bytes "," ++ val 3 ++ bytes "," ++ val 4 ++ bytes "," ++ val 5 ++ bytes "," ++
    val 6 ++ bytes "," ++ val 7 ++ bytes "," ++ val 8 ++ bytes "," ++ val 9 ++ bytes "]\r\n"

/-- The structure as the host stores it after `le32_to_cpu` of its ten integers. -/
def linkQuality (e : Endian) (m : Mem) : List UInt8 :=
  m.read 0 4 ++ (List.range 10).flatMap fun i => bytes32 e (load32 .little m (4 + 4 * i))

/-- The whole structure is copied, whatever the device sent of it. -/
def hgicIwprivGetLinkQuality : GetHandler := fun env req =>
  if ¬ env.kmem then .quit enomem none
  else
    let m := Mem.ofList (env.data 44)
    if getFormat (reqText env req) % 2 ^ 8 = 1 then
      ⟨0, some HgicCmd.getLinkQuality, none, some ⟨Mem.ofList (linkQuality env.e m), 44, (env.data 44).length⟩, [], []⟩
    else .ofText HgicCmd.getLinkQuality 512 (linkLine m)

/-- The status is taken for the number of records, and `print_buf` for one of 8192 bytes. -/
def hgicIwprivGetRmeshDevice : GetHandler := fun env req =>
  if ¬ env.kmem then .quit enomem none
  else
    -- 4096 / 7 records
    let cap := 585 * 7
    let count := env.status
    let m := recordBuf env req cap
    if getFormat (req.take 64) % 2 ^ 32 = 1 then
      ⟨0, some HgicCmd.setRmeshDevice, none, some ⟨m, count * 7, (env.data cap).length⟩, [], []⟩
    else if 0 < count then
      let lines := recordText count.toNat " dev:\r\n" fun i => rmeshLine m (7 * i)
      ⟨0, some HgicCmd.setRmeshDevice, none,
        some ⟨Mem.ofList lines.flatten, lines.flatten.length, lines.flatten.length⟩,
        [⟨lines.flatten.length + 1, 4096⟩], [⟨7 * (lines.length - 1), 4096⟩]⟩
    else ⟨0, some HgicCmd.setRmeshDevice, none, some ⟨Mem.ofList [], 0, 0⟩, [], []⟩

/-! ## The table -/

inductive Getting
  | mode | staList | scanList | ssid | bssid | wpaPsk | txpower | aggCnt | bssBw | chanList | freqRange | keyMgmt
  | batteryLevel | moduleType | disassocReason | antSel | wkreason | wkdataBuff | temperature | connState | staCount
  | txqParam | nav | rtc | bgrssi | centerFreq | acsResult | reasonCode | statusCode | dhcpcResult | xosc | freqOffset
  | fwinfo | stainfo | signal | txBitrate | linkQuality | rmeshDevice
  deriving DecidableEq

def Getting.row : Getting → String × GetHandler
  | .mode => ("mode", hgicIwprivGetMode)
  | .staList => ("sta_list", hgicIwprivGetStaList)
  | .scanList => ("scan_list", hgicIwprivGetScanList)
  | .ssid => ("ssid", hgicIwprivGetSsid)
  | .bssid => ("bssid", hgicIwprivGetBssid)
  | .wpaPsk => ("wpa_psk", hgicIwprivGetWpaPsk)
  | .txpower => ("txpower", hgicIwprivGetTxpower)
  | .aggCnt => ("agg_cnt", hgicIwprivGetAggcnt)
  | .bssBw => ("bss_bw", hgicIwprivGetBssBw)
  | .chanList => ("chan_list", hgicIwprivGetChanList)
  | .freqRange => ("freq_range", hgicIwprivGetFreqRange)
  | .keyMgmt => ("key_mgmt", hgicIwprivGetKeyMgmt)
  | .batteryLevel => ("battery_level", hgicIwprivGetBatteryLevel)
  | .moduleType => ("module_type", hgicIwprivGetModuleType)
  | .disassocReason => ("disassoc_reason", hgicIwprivGetDisassocReason)
  | .antSel => ("ant_sel", hgicIwprivGetAntSel)
  | .wkreason => ("wkreason", hgicIwprivGetWkreason)
  | .wkdataBuff => ("wkdata_buff", hgicIwprivGetWkdataBuff)
  | .temperature => ("temperature", hgicIwprivGetTemperature)
  | .connState => ("conn_state", hgicIwprivGetConnState)
  | .staCount => ("sta_count", hgicIwprivGetStaCount)
  | .txqParam => ("txq_param", hgicIwprivGetTxqParam)
  | .nav => ("nav", hgicIwprivGetNav)
  | .rtc => ("rtc", hgicIwprivGetRtc)
  | .bgrssi => ("bgrssi", hgicIwprivGetBgrssi)
  | .centerFreq => ("center_freq", hgicIwprivGetCenterFreq)
  | .acsResult => ("acs_result", hgicIwprivGetAcsResult)
  | .reasonCode => ("reason_code", hgicIwprivGetReasonCode)
  | .statusCode => ("status_code", hgicIwprivGetStatusCode)
  | .dhcpcResult => ("dhcpc_result", hgicIwprivGetDhcpcResult)
  | .xosc => ("xosc", hgicIwprivGetXosc)
  | .freqOffset => ("freq_offset", hgicIwprivGetFreqOffset)
  | .fwinfo => ("fwinfo", hgicIwprivGetFwinfo)
  | .stainfo => ("stainfo", hgicIwprivGetStaInfo)
  | .signal => ("signal", hgicIwprivGetSignal)
  | .txBitrate => ("tx_bitrate", hgicIwprivGetTxBitrate)
  | .linkQuality => ("link_quality", hgicIwprivGetLinkQuality)
  | .rmeshDevice => ("rmesh_device", hgicIwprivGetRmeshDevice)

def hgprivGets : List Getting :=
  [.mode, .staList, .scanList, .ssid, .bssid, .wpaPsk, .txpower, .aggCnt, .bssBw, .chanList, .freqRange, .keyMgmt,
  .batteryLevel, .moduleType, .disassocReason, .antSel, .wkreason, .wkdataBuff, .temperature, .connState, .staCount,
  .txqParam, .nav, .rtc, .bgrssi, .centerFreq, .acsResult, .reasonCode, .statusCode, .dhcpcResult, .xosc, .freqOffset,
  .fwinfo, .stainfo, .signal, .txBitrate, .linkQuality, .rmeshDevice]

end HgicFmac.Iwpriv
