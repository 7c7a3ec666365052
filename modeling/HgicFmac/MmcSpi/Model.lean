import HgicFmac.Lib.Bits
import HgicFmac.Lib.CrcMsb
import HgicFmac.Lib.Mem

/-!
# The MMC-over-SPI host driver: commands and their responses

* `Bus` : the card and the SPI master, as the driver sees them: the bits on MISO from the first clock on, the messages
  that fail, and how many readbacks fit into each time-out;
* `Host` : the state of `mmc_spi_host` between two messages, with the bytes sent on MOSI as history;
* `spiSyncLocked`, `mmcSpiReadbytes`, `mmcSpiSkip` : one message, one readback, and the loop that skips bytes;
* `mmcSpiCommandSend`, `mmcSpiResponseGet` : a command and its response, byte-aligned or not.
-/

namespace HgicFmac.MmcSpi
open Lib

abbrev Byte := BitVec 8

/-- A negative error number. -/
abbrev Errno := {e : Int // e < 0}

def eio : Errno := ⟨-5, by decide⟩
def efault : Errno := ⟨-14, by decide⟩
def einval : Errno := ⟨-22, by decide⟩
def enosys : Errno := ⟨-38, by decide⟩
def eproto : Errno := ⟨-71, by decide⟩
def eilseq : Errno := ⟨-84, by decide⟩
def etimedout : Errno := ⟨-110, by decide⟩

/-- `fails n` is the error of message `n` and the chip select it leaves. A message that fails clocks no byte at all:
this is an assumption, and what a card makes of a message that breaks off inside a transfer is not modelled. `patience n` is
the number of readbacks of loop `n` of `mmc_spi_skip` that are over before its time is. -/
structure Bus where
  miso : Nat → Bool
  fails : Nat → Option (Errno × Bool)
  patience : Nat → Nat

/-- `crcVal` are the two bytes of `scratch->crc_val`, in the order of memory. -/
structure Host where
  clocked : Nat
  messages : Nat
  waits : Nat
  cs : Bool
  crcVal : Byte × Byte
  mosi : List Byte
  deriving DecidableEq, Repr

/-- What the card sends in the byte that is clocked next. -/
def Bus.byte (e : Bus) (k : Nat) : Byte := window 8 e.miso (8 * k)

def Bus.bytes (e : Bus) (k n : Nat) : List Byte := windows 8 e.miso (8 * k) n

def ones (n : Nat) : List Byte := List.replicate n 0xff

/-- `spi_sync_locked` of a message that sends `tx` and receives as many bytes, or fails before the first of them.
`csChange` is the flag of its last transfer: the chip select stays active. -/
def spiSyncLocked (e : Bus) (tx : List Byte) (csChange : Bool) (h : Host) : Except Errno (List Byte) × Host :=
  match e.fails h.messages with
  | some (x, cs) => (.error x, { h with messages := h.messages + 1, cs := cs })
  | none => (.ok (e.bytes h.clocked tx.length),
      { h with clocked := h.clocked + tx.length, messages := h.messages + 1, cs := csChange, mosi := h.mosi ++ tx })

/-- `spi_setup` leaves the chip select inactive. -/
def mmcCsOff (h : Host) : Host := { h with cs := false }

def scratchStatus : Nat := 29

/-- `sizeof(struct scratch)`: the status, the token and the CRC. -/
def scratchSize : Nat := scratchStatus + 3

def mmcSpiReadbytes (e : Bus) (len : Nat) (h : Host) : Except Errno (List Byte) × Host :=
  if scratchSize < len then (.error eio, h) else spiSyncLocked e (ones len) true h

/-- The readback of one byte: `scratch->status[0]`. -/
def readByte (e : Bus) (h : Host) : Except Errno Byte × Host :=
  match mmcSpiReadbytes e 1 h with
  | (.error x, h) => (.error x, h)
  | (.ok status, h) => (.ok (status.headD 0xff), h)

/-- The loop of `mmc_spi_skip`; the time is over behind `left` more readbacks. -/
def skipLoop (e : Bus) (n : Nat) (byte : Byte) : Nat → Host → Except Errno Byte × Host
  | left, h => match mmcSpiReadbytes e n h with
    | (.error x, h) => (.error x, h)
    | (.ok status, h) => match status.find? (· ≠ byte) with
      | some b => (.ok b, h)
      | none => match left with
        | 0 => (.error etimedout, h)
        | left + 1 => skipLoop e n byte left h

def mmcSpiSkip (e : Bus) (n : Nat) (byte : Byte) (h : Host) : Except Errno Byte × Host :=
  skipLoop e n byte (e.patience h.waits) { h with waits := h.waits + 1 }

def mmcSpiWaitUnbusy (e : Bus) (h : Host) : Except Errno Byte × Host := mmcSpiSkip e scratchStatus 0 h

def mmcSpiReadtoken (e : Bus) (h : Host) : Except Errno Byte × Host := mmcSpiSkip e 1 0xff h

/-! ## Commands -/

def mmcRspSpiS1 : BitVec 32 := 0x80
def mmcRspSpiS2 : BitVec 32 := 0x100
def mmcRspSpiB4 : BitVec 32 := 0x200
def mmcRspSpiBusy : BitVec 32 := 0x400
def mmcRspBusy : BitVec 32 := 0x8

/-- The response types, with R4 and R7 as R3, and R5 as R2. -/
inductive RespType
  | r1 | r1b | r2 | r3 | bad
  deriving DecidableEq, Repr

def mmcSpiRespType (flags : BitVec 32) : RespType :=
  let type := flags &&& (mmcRspSpiS1 ||| mmcRspSpiBusy ||| mmcRspSpiS2 ||| mmcRspSpiB4)
  if type = mmcRspSpiS1 then .r1
  else if type = mmcRspSpiS1 ||| mmcRspSpiBusy then .r1b
  else if type = mmcRspSpiS1 ||| mmcRspSpiS2 then .r2
  else if type = mmcRspSpiS1 ||| mmcRspSpiB4 then .r3
  else .bad

structure Cmd where
  opcode : BitVec 32
  arg : BitVec 32
  flags : BitVec 32
  resp0 : BitVec 32
  resp1 : BitVec 32
  error : Int
  deriving DecidableEq, Repr

/-- `crc7_be`: the polynomial `x^7 + x^3 + 1`, the CRC in the high bits. -/
def crc7Be (bs : List Byte) : Byte := crcMsb (0x09 : BitVec 7) 0 (lineBits bs) ++ (0 : BitVec 1)

def putBe32 (x : BitVec 32) : List Byte :=
  [(x >>> 24).setWidth 8, (x >>> 16).setWidth 8, (x >>> 8).setWidth 8, x.setWidth 8]

/-- The opcode and the argument, with the start and the transmission bit. -/
def commandHead (opcode arg : BitVec 32) : List Byte := (0x40 ||| opcode).setWidth 8 :: putBe32 arg

/-- The seven bytes in front of the response. -/
def commandFrame (opcode arg : BitVec 32) : List Byte :=
  0xff :: (commandHead opcode arg ++ [crc7Be (commandHead opcode arg) ||| 1])

/-- The bytes of the message. `reading` is `mrq->data->flags & MMC_DATA_READ`, looked at only with `csOn`. -/
def commandLength (csOn reading : Bool) (flags : BitVec 32) : Nat :=
  if csOn && reading then 7 + 2
  else if flags &&& mmcRspSpiS2 ≠ 0 then 7 + 10 + 1
  else if flags &&& mmcRspSpiB4 ≠ 0 then 7 + 10 + 4
  else if flags &&& mmcRspBusy ≠ 0 then scratchStatus
  else 7 + 10

/-! ## Responses -/

/-- `*cp` and the bytes from `cp` behind it to `end`; at `end` one more byte is read. -/
def nextByte (e : Bus) (cp : List Byte) (h : Host) : Except Errno (Byte × List Byte) × Host :=
  match cp with
  | b :: cp => (.ok (b, cp), h)
  | [] => match readByte e h with
    | (.error x, h) => (.error x, h)
    | (.ok b, h) => (.ok (b, []), h)

/-- The bytes of a slow card, one at a time. -/
def lateStatus (e : Bus) : Nat → Host → Except Errno (Byte × List Byte) × Host
  | 0, h => (.error etimedout, h)
  | n + 1, h => match readByte e h with
    | (.error x, h) => (.error x, h)
    | (.ok b, h) => if b ≠ 0xff then (.ok (b, []), h) else lateStatus e n h

/-- The first byte that is not all ones. The eight bytes under the command are ignored. -/
def findStatus (e : Bus) (status : List Byte) (h : Host) : Except Errno (Byte × List Byte) × Host :=
  match (status.drop 8).dropWhile (· == 0xff) with
  | b :: cp => (.ok (b, cp), h)
  | [] => lateStatus e 14 h

/-- The R1 byte, by how many bits the response is late, and the bits of the next byte that are already here. -/
structure Aligned where
  resp0 : BitVec 32
  bitshift : Nat
  leftover : Byte
  cp : List Byte
  deriving DecidableEq, Repr

def alignStatus (e : Bus) (b : Byte) (cp : List Byte) (h : Host) : Except Errno Aligned × Host :=
  if b.msb then
    match nextByte e cp h with
    | (.error x, h) => (.error x, h)
    | (.ok (c, cp), h) =>
      let rotator := leftAdjust 16 ((b.setWidth 16 <<< 8) ||| c.setWidth 16)
      (.ok ⟨(rotator.2 >>> 8).setWidth 32, rotator.1, rotator.2.setWidth 8, cp⟩, h)
  else (.ok ⟨b.setWidth 32, 0, 0, cp⟩, h)

/-- The error of an R1 byte: a bad parameter or address, an illegal command, a CRC error, an erase error. -/
def statusValue (resp0 : BitVec 32) : Int :=
  if resp0 &&& (0x40 ||| 0x20) ≠ 0 then efault
  else if resp0 &&& 0x04 ≠ 0 then enosys
  else if resp0 &&& 0x08 ≠ 0 then eilseq
  else if resp0 &&& (0x10 ||| 0x02) ≠ 0 then eio
  else 0

/-- A byte of a response that is late by `bitshift` bits, and the register for the next one. -/
def rotate (bitshift : Nat) (rotator : BitVec 16) (c : Byte) : Byte × BitVec 16 :=
  let rotator := rotator ||| (c.setWidth 16 <<< bitshift)
  ((rotator >>> 8).setWidth 8, rotator <<< 8)

/-- The loop over the four bytes of an R3 response. A byte that has to be read sets `value` to what `mmc_spi_readbytes`
returns. -/
def responseBytes (e : Bus) (bitshift : Nat) : Nat → BitVec 16 → List Byte → BitVec 32 → Int → Host →
    Int × BitVec 32 × Bool × Host
  | 0, _, _, resp1, value, h => (value, resp1, true, h)
  | n + 1, rotator, cp, resp1, value, h =>
    match nextByte e cp h with
    | (.error x, h) => (x, resp1 <<< 8, false, h)
    | (.ok (c, rest), h) =>
      let value := if cp = [] then 0 else value
      let next := if bitshift ≠ 0 then rotate bitshift rotator c else (c, rotator)
      responseBytes e bitshift n next.2 rest ((resp1 <<< 8) ||| next.1.setWidth 32) value h

def responseDone (value : Int) (cmd : Cmd) (h : Host) : Int × Cmd × Host :=
  (value, if value < 0 then { cmd with error := value } else cmd, mmcCsOff h)

/-- What stands in front of `done`: the chip select stays active for the data. -/
def responseEnd (csOn : Bool) (value : Int) (cmd : Cmd) (h : Host) : Int × Cmd × Host :=
  if 0 ≤ value ∧ csOn = true then (value, cmd, h) else responseDone value cmd h

/-- The rest of the response behind R1. -/
def responseRest (e : Bus) (csOn : Bool) (cmd : Cmd) (a : Aligned) (h : Host) : Int × Cmd × Host :=
  let value := statusValue a.resp0
  match mmcSpiRespType cmd.flags with
  | .r1 => responseEnd csOn value cmd h
  | .r1b =>
    let h := if a.cp.dropWhile (· == 0) = [] then (mmcSpiWaitUnbusy e h).2 else h
    responseEnd csOn value cmd h
  | .r2 => match nextByte e a.cp h with
    | (.error x, h) => responseDone x cmd h
    | (.ok (c, _), h) =>
      let value := if a.cp = [] then 0 else value
      let second := if a.bitshift ≠ 0 then (rotate a.bitshift (a.leftover.setWidth 16 <<< 8) c).1 else c
      responseEnd csOn value { cmd with resp0 := cmd.resp0 ||| (second.setWidth 32 <<< 8) } h
  | .r3 =>
    let (value, resp1, ok, h) := responseBytes e a.bitshift 4 (a.leftover.setWidth 16 <<< 8) a.cp 0 value h
    if ok then responseEnd csOn value { cmd with resp1 := resp1 } h
    else responseDone value { cmd with resp1 := resp1 } h
  | .bad => responseDone (if 0 ≤ value then einval else value) cmd h

/-- `status` are the bytes received with the command. -/
def mmcSpiResponseGet (e : Bus) (csOn : Bool) (status : List Byte) (cmd : Cmd) (h : Host) : Int × Cmd × Host :=
  match findStatus e status h with
  | (.error x, h) => responseDone x cmd h
  | (.ok (b, cp), h) => match alignStatus e b cp h with
    | (.error x, h) => responseDone x cmd h
    | (.ok a, h) => responseRest e csOn { cmd with resp0 := a.resp0, error := 0 } a h

def mmcSpiCommandSend (e : Bus) (reading : Bool) (cmd : Cmd) (csOn : Bool) (h : Host) : Int × Cmd × Host :=
  let tx := commandFrame cmd.opcode cmd.arg
  match spiSyncLocked e (tx ++ ones (commandLength csOn reading cmd.flags - tx.length)) true h with
  | (.error x, h) => (x, { cmd with error := x }, h)
  | (.ok status, h) => mmcSpiResponseGet e csOn status cmd h

end HgicFmac.MmcSpi
