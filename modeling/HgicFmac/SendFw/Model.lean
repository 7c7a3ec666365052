import HgicFmac.Fwinfo
import HgicFmac.Lib.Checksum
import HgicFmac.Lib.Pool

/-!
# Sending a firmware file over the air: `hgic_ota_send_fw`

Every writer of the proc file `ota` runs `hgic_ota_send_fw` on the same `struct hgic_ota`, and no lock is held: a call
builds all packets into `fw_dataq` and then takes them off one by one. A step of a call ends at each access to the
shared fields.

* `Image` : a file that `request_firmware` has loaded; its size fits the `u32` that the driver keeps;
* `hgicOtaCheckHdrInfo`, `hgicOtaCheckFw` : what `hgic_ota_parse_fw` checks before it sets `fw_len`;
* `hgicOtaFillHdr`, `Packet` : a packet, the payload behind `struct hgic_ota_hdr`;
* `Ota`, `Pc`, `Call` : the shared fields, where a call is with its local variables, and a call with what it has sent;
* `hgicOtaSendFw` : one step of a call; `otaStep` : any number of calls.
-/

namespace HgicFmac.SendFw
open Lib Fwinfo

/-- `HG_OTA_FW_FLAGMENT_SIZE`, the `frag_size` of every `struct hgic_ota`. -/
def hgOtaFwFlagmentSize : Nat := 1500

structure Image extends Firmware where
  size_lt : size < 2 ^ 32

/-- `request_firmware` gives a file or a non-zero error. -/
abbrev Request := Except { ret : Int // ret ≠ 0 } Image

/-- `ota->ori_fw_info`: what the running firmware has reported. -/
structure OriFwInfo where
  version : Nat
  chipId : Nat
  cpuId : Nat

/-! ## The checks -/

section Checks
variable (e : Endian) (info : OriFwInfo)

/-- The getters fail with the error of the header check. -/
def hgicOtaCheckHdrInfo (m : Mem) : Except Int Unit := do
  let sdkVersion ← hgicGetFwSdkVersion e m
  if sdkVersion % 256 ≠ info.version % 256 then throw efault
  else
    let _ ← hgicGetFwSvnVersion e m
    let chipId ← hgicGetFwChipid e m
    if chipId ≠ info.chipId then throw efault
    else
      let cpuId ← hgicGetFwCpuid e m
      if cpuId ≠ info.cpuId then throw efault else pure ()

/-- The offset of the code is read and not used. -/
def hgicOtaCheckFw (fw : Image) : Except Int Unit := do
  hgicOtaCheckHdrInfo e info fw.data
  let crcResult := hgicGetFwCodeChecksum e fw.data (toS32 fw.size)
  if crcResult ≠ 0 then throw crcResult
  else
    let _ ← hgicGetFwCodeOffset e fw.data
    pure ()

end Checks

/-! ## Packets -/

/-- The part of a packet that says which bytes of which image it has. -/
structure Frag where
  off : Nat
  len : Nat
  totLen : Nat
  payload : List UInt8
  deriving DecidableEq

/-- `struct hgic_ota_hdr` as the device reads it; `err_code` is 0. -/
structure Packet extends Frag where
  version : Nat
  chipid : Nat
  checksum : Nat
  deriving DecidableEq

def hgicOtaCheckSum (e : Endian) (bs : List UInt8) : Nat := checkSum e (fun b => b.toNat) bs

/-- The header in front of `len` bytes at `skb`. The checksum is taken over `hdr->len` bytes, a field that
is in little-endian order by then. -/
def hgicOtaFillHdr (e : Endian) (info : OriFwInfo) (fwLen : Nat) (skb : Mem) (len offset : Nat) : Packet where
  off := offset
  len := len
  totLen := fwLen
  payload := skb.read 0 len
  version := info.version
  chipid := info.chipId
  checksum := hgicOtaCheckSum e (skb.read 0 (cpuToLe16 e len))

/-- A response: its length and what lies at `resp->data`. -/
structure Resp where
  len : Nat
  data : Mem

def Resp.pull (r : Resp) (n : Nat) : Mem := if n ≤ r.len then fun i => r.data (n + i) else r.data

def Resp.errCode (r : Resp) : Nat := loadLe16 (r.pull 8) 18

/-- A packet that was handed to `hgic_fwctrl_send_data`, and the response. -/
structure Event where
  packet : Packet
  resp : Option Resp

def Event.ok (ev : Event) : Prop := ∃ r, ev.resp = some r ∧ r.errCode = 0

/-! ## Calls -/

structure Ota where
  fwDataq : List Packet
  fwLen : Nat

/-- Where a call is: before `request_firmware`; in `hgic_ota_parse_fw` with the file, `copy_len`, `addr_offset` and the
packet being built; at the test of the queue, the dequeue and the packet taken off; in `hgic_clear_queue` or behind
it, with the result. -/
inductive Pc
  | request
  | setLen (fw : Image)
  | readLen (fw : Image)
  | alloc (fw : Image) (copyLen addrOffset : Nat)
  | fillTest (fw : Image) (copyLen addrOffset : Nat) (skb : Mem)
  | fillHdr (fw : Image) (copyLen addrOffset : Nat) (skb : Mem)
  | queue (fw : Image) (copyLen addrOffset : Nat) (skb : Packet)
  | top
  | deq
  | send (skb : Packet)
  | release (ret : Int)
  | returned (ret : Int)

/-- A call, with the packets it has sent and freed and how often it has released the file. -/
structure Call where
  req : Request
  pc : Pc
  sent : List Event
  freed : List Packet
  released : Nat

def Call.goto (c : Call) (pc : Pc) : Call := { c with pc := pc }

def Call.releaseFirmware (c : Call) (pc : Pc) : Call := { c with pc := pc, released := c.released + 1 }

/-- What a step does not decide: the contents of `ori_fw_info`, the buffer of `dev_alloc_skb` and the response. -/
structure Choice where
  info : OriFwInfo
  alloc : Option Mem
  resp : Option Resp

/-- `if (ret) goto __failed` behind `hgic_ota_parse_fw`. -/
def afterParse (ret : Int) : Pc := if ret ≠ 0 then .release ret else .top

def xferLen (copyLen : Nat) : Nat := if hgOtaFwFlagmentSize < copyLen then hgOtaFwFlagmentSize else copyLen

/-- One step of a call. `addr_offset + copy_len` is the `u32` read from `fw_len`, so nothing wraps. A dequeue from the
empty queue gives a NULL `skb`, and the call is stuck. -/
def hgicOtaSendFw (e : Endian) (s : Ota) (c : Call) (x : Choice) : Option (Ota × Call) :=
  match c.pc with
  | .request => match c.req with
    | .error _ => some (s, c.goto (afterParse enodev))
    | .ok fw => match hgicOtaCheckFw e x.info fw with
      | .error ret => some (s, c.goto (afterParse ret))
      | .ok () => some (s, c.goto (.setLen fw))
  | .setLen fw => some ({ s with fwLen := fw.size % 2 ^ 32 }, c.goto (.readLen fw))
  | .readLen fw => some (s, c.goto (.alloc fw s.fwLen 0))
  | .alloc fw copyLen addrOffset =>
    if copyLen = 0 then some (s, c.releaseFirmware (afterParse 0))
    else match x.alloc with
      | none => some (s, c.releaseFirmware (afterParse enomem))
      | some m =>
        let skb := m.write 0 (fw.data.read addrOffset (xferLen copyLen))
        some (s, c.goto (.fillTest fw copyLen addrOffset skb))
  | .fillTest fw copyLen addrOffset skb =>
    if s.fwLen = 0 then some (s, c.releaseFirmware (afterParse efault))
    else some (s, c.goto (.fillHdr fw copyLen addrOffset skb))
  | .fillHdr fw copyLen addrOffset skb =>
    some (s, c.goto (.queue fw copyLen addrOffset (hgicOtaFillHdr e x.info s.fwLen skb (xferLen copyLen) addrOffset)))
  | .queue fw copyLen addrOffset skb =>
    some ({ s with fwDataq := s.fwDataq ++ [skb] },
      c.goto (.alloc fw (copyLen - xferLen copyLen) (addrOffset + xferLen copyLen)))
  | .top => some (s, c.goto (if s.fwDataq = [] then .release 0 else .deq))
  | .deq => match s.fwDataq with
    | [] => none
    | skb :: q => some ({ s with fwDataq := q }, c.goto (.send skb))
  | .send skb =>
    let c : Call := { c with sent := c.sent ++ [⟨skb, x.resp⟩] }
    match x.resp with
    | none => some (s, c.goto (.release enodev))
    | some r => some (s, c.goto (if r.errCode ≠ 0 then .release r.errCode else .top))
  | .release ret => match s.fwDataq with
    | [] => some (s, c.goto (.returned ret))
    | skb :: q => some ({ s with fwDataq := q }, { c with freed := c.freed ++ [skb] })
  | .returned _ => none

def beginCall (req : Request) : Call := ⟨req, .request, [], [], 0⟩

abbrev otaStep (e : Endian) : Pool Ota Call → PoolAct Request Choice → Option (Pool Ota Call) :=
  poolStep beginCall (hgicOtaSendFw e)

def otaInit : Pool Ota Call := ⟨⟨[], 0⟩, 0, fun _ => beginCall (.error ⟨enodev, by decide⟩)⟩

/-! ## The fragments of an image -/

section Frags
variable (fw : Image)

def fragAt (i : Nat) : Frag where
  off := 1500 * i
  len := min 1500 (fw.size - 1500 * i)
  totLen := fw.size
  payload := fw.data.read (1500 * i) (min 1500 (fw.size - 1500 * i))

def fragCount : Nat := (fw.size + 1499) / 1500

def frags : List Frag := (List.range (fragCount fw)).map (fragAt fw)

end Frags

end HgicFmac.SendFw
