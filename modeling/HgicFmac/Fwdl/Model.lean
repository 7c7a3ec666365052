import HgicFmac.Core.Tx
import HgicFmac.Fwctrl.Model
import HgicFmac.Fwinfo

/-!
# The boot loader protocol: `fwdl.c`

The functions run in one thread. What they do not decide is an `Outcome`: the allocation, the cookie that
`hgic_ctrl_cookie` gives and the response that `hgic_fwctrl_send_data` returns; the outcomes are used up in order.

* `Bootdl` : the part of `struct hgic_bootdl` and `struct hgic_bus` that is set once;
* `hgicBootdlCmdCheckVal`, `hgicBootdlCmdRspHandle` : the check byte and the test of a response;
* `cmdPacket`, `dataPacket`, `Packet`, `Event` : what is queued for the bus. `hgicf_tx_ctrl_frm` takes the header off a
  fragment (`Core.ctrlData`);
* `hgicBootdlCmdEnter`, `hgicBootdlCmdWriteMemory`, `hgicBootdlCmdRun`, `hgicBootdlSendFw` : one packet and its response;
* `hgicBootdlParseFw`, `hgicBootdlFragmentProc`, `hgicBootdlDownload` : the download.
-/

namespace HgicFmac.Fwdl
open Lib HgicFmac.Core Fwctrl Fwinfo

inductive BusType
  | sdio | usb | hwsim | wloe | sdspi
  deriving DecidableEq, Repr

structure Bootdl where
  e : Endian
  busType : BusType
  blkSize : Nat
  fragSize : Nat
  checksumMode : UInt8

def hgicBusBootdlCheckSum : UInt8 := 0
def hgicBusBootdlCheckCrc8 : UInt8 := 1
def hgicBusBootdlCheck0XFD : UInt8 := 2

/-- `crc8` is not implemented. -/
def crc8 (_ : List UInt8) : UInt8 := 0

def hgicBootdlCmdCheckVal (mode : UInt8) (bs : List UInt8) : UInt8 :=
  if mode = hgicBusBootdlCheckSum then bs.foldl (fun v b => v + b) 0
  else if mode = hgicBusBootdlCheckCrc8 then crc8 bs
  else if mode = hgicBusBootdlCheck0XFD then 0xFD
  else 0

/-- `HG_BOOTDL_CMD_ENTER`, `HG_BOOTDL_CMD_WRITE_MEM`, `HG_BOOTDL_CMD_RUN`. -/
def cmdByte : BootCmd → UInt8
  | .enter => 0x00
  | .writeMem => 0x02
  | .run => 0x04

/-- `enum hg_boot_host_rsp_err`: OK, ERR_CMD and ERR_IN_FW. -/
def hgBootdlRspOk : UInt8 := 0
def hgBootdlRspErrCmd : UInt8 := 1
def hgBootdlRspErrInFw : UInt8 := 0xFF

def hgBootdlErrRspPacket : Int := 2

def stateFw : Int := 0
def stateBoot : Int := 1

/-! ## Responses -/

def rspCmd (m : Mem) : UInt8 := m 8
def rspCode (m : Mem) : UInt8 := m 9
def rspCheck (m : Mem) : UInt8 := m 15

/-- The check value is taken over 8 bytes, so the check byte is one of them. -/
def hgicBootdlCmdRspHandle (cmdFlag cmd : UInt8) (m : Mem) : Int :=
  if rspCheck m ≠ hgicBootdlCmdCheckVal cmdFlag (m.read 8 8) then hgBootdlErrRspPacket
  else if rspCmd m ≠ cmd then hgBootdlErrRspPacket
  else (rspCode m).toNat

/-- The result of `hgic_bootdl_send_cmd_tmo` for the response. -/
def cmdRet (mode : UInt8) (c : BootCmd) : Option Mem → Int
  | some m => hgicBootdlCmdRspHandle mode (cmdByte c) m
  | none => -1

/-- The result of `hgic_bootdl_send_fw` for the response. -/
def dataRet : Option Mem → Int
  | some m => (rspCode m).toNat
  | none => efault

/-- A reply with the check byte of the mode 0XFD. -/
def reply0XFD (c : BootCmd) (rsp : UInt8) : Mem :=
  Mem.ofList (List.flatten [List.replicate 8 0, [cmdByte c, rsp], List.replicate 5 0, [0xFD]])

/-! ## Packets -/

/-- A command as it is sent: the bytes from `cmd` to `len` and their check value. -/
def cmdPacket (b : Bootdl) (c : BootCmd) (addr len : List UInt8) (cookie : Nat) : List UInt8 :=
  let body := List.flatten [[cmdByte c, 12, b.checksumMode], addr, len]
  let hdr := Hdr.bytes b.e
    { magic := cpuToLe16 b.e hgicHdrTxMagic
      type := HdrType.bootdl.byte
      ifidx := 0
      flags := 0
      length := cpuToLe16 b.e bootdlCmdHdrSize
      cookie := cpuToLe16 b.e cookie }
  List.flatten [hdr, body, [hgicBootdlCmdCheckVal b.checksumMode body]]

/-- A fragment behind the header that `hgic_bootdl_send_data` pushes. -/
def dataPacket (b : Bootdl) (payload : List UInt8) : List UInt8 :=
  let hdr := Hdr.bytes b.e
    { magic := cpuToLe16 b.e hgicHdrTxMagic
      type := HdrType.bootdlData.byte
      ifidx := 0
      flags := 0
      length := 0
      cookie := 0 }
  List.flatten [hdr, List.replicate 12 0, payload]

/-- A packet as `bus->tx_packet` gets it. A fragment has the offset and the length of its bytes in the code. -/
inductive Packet
  | cmd (c : BootCmd) (bytes : List UInt8)
  | data (off len : Nat) (bytes : List UInt8)
  deriving DecidableEq

def Packet.bytes : Packet → List UInt8
  | .cmd _ bytes => bytes
  | .data _ _ bytes => bytes

/-- A packet that is queued, and its response. -/
structure Event where
  sent : Packet
  resp : Option Mem

/-- The code the driver takes from the response. -/
def Event.ret (b : Bootdl) (ev : Event) : Int :=
  match ev.sent with
  | .cmd c _ => cmdRet b.checksumMode c ev.resp
  | .data _ _ _ => dataRet ev.resp

structure Outcome where
  alloc : Bool
  cookie : Nat
  resp : Option Mem

/-- The outcomes used so far, and as history the downloads begun and the packets queued. -/
structure Xfer where
  n : Nat
  downloads : Nat
  log : List Event

section Ops
variable (b : Bootdl) (o : Nat → Outcome)

/-- `hgic_bootdl_alloc_cmd_skb`, the fields of a command, and `hgic_bootdl_send_cmd_tmo`. -/
def bootdlCmd (x : Xfer) (c : BootCmd) (addr len : List UInt8) : Int × Xfer :=
  let r := o x.n
  if r.alloc then
    (cmdRet b.checksumMode c r.resp,
      { x with
        n := x.n + 1
        log := x.log ++ [⟨.cmd c (ctrlData ⟨cmdPacket b c addr len r.cookie, []⟩).data, r.resp⟩] })
  else (enomem, { x with n := x.n + 1 })

def bootCmdKey : List UInt8 := [0x40, 0x68, 0x75, 0x67, 0x65, 0x2d, 0x69, 0x63]

/-- The response code of the device is returned as it is, unless it is 0 or IN_FW. -/
def hgicBootdlCmdEnter (x : Xfer) : Int × Xfer :=
  let r := bootdlCmd b o x .enter (bootCmdKey.take 4) (bootCmdKey.drop 4)
  (if r.1 = 0 ∨ r.1 = (hgBootdlRspErrInFw.toNat : Int) then
    if r.1 = (hgBootdlRspErrInFw.toNat : Int) then stateFw else stateBoot
  else r.1, r.2)

def hgicBootdlCmdWriteMemory (x : Xfer) (writeAddr dataLen : Nat) : Int × Xfer :=
  bootdlCmd b o x .writeMem (bytes32 .little writeAddr)
    (bytes32 .little (if b.busType = .sdio then dataLen else dataLen + 1024))

structure FwInfo where
  writeAddr : Nat
  aesEn : Nat
  crcEn : Nat
  spCfg : Nat
  fwLen : Nat
  localCrc32 : Nat
  hdrLen : Nat

/-- `HG_BOOT_CMD_RUN_PREACT_AES_DEC`, `_CRC_CHK`, `_SP_CFG`. -/
def runWord (info : FwInfo) : Nat :=
  info.fwLen ||| (if info.aesEn ≠ 0 then 2 ^ 31 else 0) ||| (if info.crcEn ≠ 0 then 2 ^ 30 else 0) |||
    (if info.spCfg ≠ 0 then 2 ^ 29 else 0)

def hgicBootdlCmdRun (x : Xfer) (info : FwInfo) : Int × Xfer :=
  bootdlCmd b o x .run (bytes32 .little info.writeAddr) (bytes32 .little (runWord info))

/-- `hgic_bootdl_send_fw` of the code bytes at `off`. -/
def hgicBootdlSendFw (x : Xfer) (off : Nat) (payload : List UInt8) (resp : Option Mem) : Int × Xfer :=
  (dataRet resp,
    { x with log := x.log ++ [⟨.data off payload.length (ctrlData ⟨dataPacket b payload, []⟩).data, resp⟩] })

/-- `request_firmware` gives the file or a non-zero error. -/
abbrev Request := Except { ret : Int // ret ≠ 0 } Firmware

/-- Every getter checks the header again. -/
def hgicBootdlParseFw (fw : Firmware) : Except Int FwInfo := do
  let writeAddr ← hgicGetFwDlAddr b.e fw.data
  let aesEn ← hgicGetFwAesEn b.e fw.data
  let crcEn ← hgicGetFwCrcEn b.e fw.data
  let localCrc32 ← hgicGetFwLocalCrc32 b.e fw.data
  let hdrLen ← hgicGetFwCodeOffset b.e fw.data
  return {
    writeAddr := writeAddr
    aesEn := aesEn % 2 ^ 8
    crcEn := crcEn % 2 ^ 8
    spCfg := 1
    fwLen := sub32 fw.size hdrLen
    localCrc32 := localCrc32
    hdrLen := hdrLen }

def align (x a : Nat) : Nat := (x + (a - 1)) / a * a

def hgicBootdlFragmentProc (copyLen : Nat) : Nat :=
  if b.busType = .sdio then if copyLen < b.fragSize then align copyLen b.blkSize else b.fragSize
  else if b.fragSize < copyLen then b.fragSize else copyLen

/-- One pass of the loop: the fragment is allocated, then WRITE_MEM is sent, then the fragment. -/
def sendFragment (fw : Firmware) (info : FwInfo) (x : Xfer) (writeAddr addrOffset xferLen : Nat) : Int × Xfer :=
  let r := o x.n
  if r.alloc then
    let y := hgicBootdlCmdWriteMemory b o { x with n := x.n + 1 } writeAddr xferLen
    if y.1 = 0 then
      hgicBootdlSendFw b y.2 addrOffset (fw.data.read (info.hdrLen + addrOffset) xferLen) r.resp
    else y
  else (enomem, { x with n := x.n + 1 })

/-- `while (copy_len > 0)`, with at most `fuel` passes. -/
def downloadLoop (fw : Firmware) (info : FwInfo) : Nat → Xfer → Int → Nat → Nat → Option (Int × Xfer)
  | 0, x, copyLen, _, _ => if copyLen ≤ 0 then some (0, x) else none
  | fuel + 1, x, copyLen, writeAddr, addrOffset =>
    if copyLen ≤ 0 then some (0, x)
    else
      let xferLen := hgicBootdlFragmentProc b copyLen.toNat
      let y := sendFragment b o fw info x writeAddr addrOffset xferLen
      if y.1 = 0 then
        downloadLoop fw info fuel y.2 (copyLen - xferLen) ((writeAddr + xferLen) % 2 ^ 32) (addrOffset + xferLen)
      else some y

/-- `copy_len` is signed. A fragment of at least one byte is sent in every pass, so the loop ends within `copy_len`
passes; `none` stands for a loop that does not end. -/
def hgicBootdlDownload (req : Request) (x : Xfer) : Option (Int × Xfer) :=
  let x := { x with downloads := x.downloads + 1 }
  match req with
  | .error ret => some (ret, x)
  | .ok fw => match hgicBootdlParseFw b fw with
    | .error ret => some (ret, x)
    | .ok info =>
      let copyLen := toS32 info.fwLen
      (downloadLoop b o fw info copyLen.toNat x copyLen info.writeAddr 0).map fun y =>
        if y.1 = 0 then hgicBootdlCmdRun b o y.2 info else y

end Ops

end HgicFmac.Fwdl
