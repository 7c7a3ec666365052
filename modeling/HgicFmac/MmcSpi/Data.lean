import HgicFmac.MmcSpi.Model

/-!
# The MMC-over-SPI host driver: blocks of data and requests

* `mmcSpiReadblock`, `mmcSpiWriteblock` : one block of a data stage;
* `mmcSpiDataDo` : the data stage: the blocks of every segment (`segmentLoop`, `scatterLoop`) and the token that ends a
  multiblock write (`stopTran`);
* `mmcSpiRequest` : a request: the command, its data, and up to five repetitions after a CRC error.
-/

namespace HgicFmac.MmcSpi
open Lib

/-- `host->mmc->use_spi_crc`, the byte order of the host, and whether the card is an SDIO card. -/
structure Config where
  useSpiCrc : Bool
  order : Endian
  sdio : Bool
  deriving DecidableEq, Repr

/-- `crc_itu_t` with the initial value 0: the polynomial `x^16 + x^12 + x^5 + 1`. -/
def crcItuT (bs : List Byte) : BitVec 16 := crcMsb 0x1021 0 (lineBits bs)

/-! ## A block that is read -/

/-- Byte-aligned data and CRC of a block that came `8 - bitshift` bits late. -/
def realignBlock (bitshift : Nat) (leftover : Byte) (data : List Byte) (crc : Byte × Byte) :
    List Byte × (Byte × Byte) :=
  if bitshift ≠ 0 then
    let block := realign bitshift leftover data
    let tail := realign bitshift block.2 [crc.1, crc.2]
    (block.1, (tail.1.getD 0 0, tail.1.getD 1 0))
  else (data, crc)

/-- `be16_to_cpus`, as the bytes of memory change. -/
def be16ToCpus : Endian → Byte × Byte → Byte × Byte
  | .little, crc => (crc.2, crc.1)
  | .big, crc => crc

/-- The CRC test at the end of `mmc_spi_readblock`. -/
def checkBlock (cfg : Config) (data : List Byte) (crc : Byte × Byte) (h : Host) : Int × List Byte × Host :=
  if cfg.useSpiCrc then
    (if (crc.1 ++ crc.2 : BitVec 16) ≠ crcItuT data then eilseq else 0, data,
      { h with crcVal := be16ToCpus cfg.order crc })
  else (0, data, { h with crcVal := crc })

/-- The first byte of the block: an all-zeroes byte in front of it is skipped, and the ones are. -/
def blockToken (e : Bus) (h : Host) : Except Errno Byte × Host :=
  match readByte e h with
  | (.error x, h) => (.error x, h)
  | (.ok status, h) => if status = 0xff ∨ status = 0 then mmcSpiReadtoken e h else (.ok status, h)

/-- `rx` is what `t->rx_buf` points to. The result of the message with the data is not looked at. -/
def mmcSpiReadblock (cfg : Config) (e : Bus) (multiple : Bool) (rx : List Byte) (h : Host) : Int × List Byte × Host :=
  match blockToken e h with
  | (.error x, h) => (x, rx, h)
  | (.ok token, h) =>
    let first := leftAdjust 8 token
    let bitshift := 7 - first.1
    let leftover := first.2 <<< 1
    let message := spiSyncLocked e (ones (rx.length + 2 + if multiple then 1 else 0)) multiple h
    let raw := match message.1 with
      | .error _ => (rx, h.crcVal)
      | .ok bs => (bs.take rx.length, (bs.getD rx.length 0, bs.getD (rx.length + 1) 0))
    let block := realignBlock bitshift leftover raw.1 raw.2
    checkBlock cfg block.1 block.2 message.2

/-! ## A block that is written -/

def spiTokenSingle : Byte := 0xfe
def spiTokenMultiWrite : Byte := 0xfc
def spiTokenStopTran : Byte := 0xfd

def spiResponseAccepted : BitVec 32 := (2 <<< 1) ||| 1
def spiResponseCrcErr : BitVec 32 := (5 <<< 1) ||| 1
def spiResponseWriteErr : BitVec 32 := (6 <<< 1) ||| 1

/-- The code of the data response, found bit by bit in the first four bytes behind the CRC. -/
def responsePattern (status : List Byte) : BitVec 32 :=
  let pattern : BitVec 32 := (status.getD 0 0 ++ status.getD 1 0 ++ status.getD 2 0 ++ status.getD 3 0) ||| 0xE0000000
  (leftAdjust 32 pattern).2 >>> 27

def patternStatus (pattern : BitVec 32) : Int :=
  if pattern = spiResponseAccepted then 0
  else if pattern = spiResponseCrcErr then eilseq
  else if pattern = spiResponseWriteErr then eio
  else eproto

/-- What `mmc_spi_wait_unbusy` returns. -/
def unbusyStatus : Except Errno Byte → Int
  | .ok b => b.toNat
  | .error x => x

def writeToken (multiple : Bool) : Byte := if multiple then spiTokenMultiWrite else spiTokenSingle

def crcBytes (crc : BitVec 16) : Byte × Byte := ((crc >>> 8).setWidth 8, crc.setWidth 8)

def mmcSpiWriteblock (cfg : Config) (e : Bus) (multiple : Bool) (tx : List Byte) (h : Host) : Int × Host :=
  let crc := if cfg.useSpiCrc then crcBytes (crcItuT tx) else h.crcVal
  let frame := writeToken multiple :: (tx ++ [crc.1, crc.2])
  match spiSyncLocked e (frame ++ ones scratchStatus) true { h with crcVal := crc } with
  | (.error x, h) => (x, h)
  | (.ok bs, h) =>
    let status := bs.drop frame.length
    let result := patternStatus (responsePattern status)
    if result ≠ 0 then (result, h)
    else if (status.drop 4).any (·.getLsbD 0) then (0, h)
    else ((unbusyStatus (mmcSpiWaitUnbusy e h).1), (mmcSpiWaitUnbusy e h).2)

/-! ## The data stage -/

/-- `sg` are the bytes of the segments of the scatter list. -/
structure Data where
  read : Bool
  blksz : Nat
  blocks : Nat
  sg : List (List Byte)
  error : Int
  bytesXfered : Nat
  blksz_pos : 0 < blksz
  deriving DecidableEq, Repr

/-- One block in the direction of the data; a write leaves the bytes of the segment as they are. -/
def dataBlock (cfg : Config) (e : Bus) (read multiple : Bool) (block : List Byte) (h : Host) : Int × List Byte × Host :=
  if read then mmcSpiReadblock cfg e multiple block h
  else ((mmcSpiWriteblock cfg e multiple block h).1, block, (mmcSpiWriteblock cfg e multiple block h).2)

/-- `while (length)` over the bytes of a segment that are left, with the number of bytes that were transferred. A status
that is not negative is 0. Every pass takes one byte at least, so `n` is their number at first. -/
def segmentLoop (cfg : Config) (e : Bus) (read multiple : Bool) (blksz : Nat) :
    Nat → List Byte → Host → Int × List Byte × Nat × Host
  | 0, rest, h => (0, rest, 0, h)
  | n + 1, rest, h =>
    if rest = [] then (0, [], 0, h)
    else
      let block := rest.take blksz
      let after := rest.drop blksz
      let r := dataBlock cfg e read multiple block h
      if r.1 < 0 then (r.1, r.2.1 ++ after, 0, r.2.2)
      else if !multiple then (0, r.2.1 ++ after, block.length, r.2.2)
      else
        let more := segmentLoop cfg e read multiple blksz n after r.2.2
        (more.1, r.2.1 ++ more.2.1, block.length + more.2.2.1, more.2.2.2)

/-- The loop over the scatter list; it ends behind the segment with an error. -/
def scatterLoop (cfg : Config) (e : Bus) (read multiple : Bool) (blksz : Nat) :
    List (List Byte) → Host → Int × List (List Byte) × Nat × Host
  | [], h => (0, [], 0, h)
  | seg :: sg, h =>
    let r := segmentLoop cfg e read multiple blksz seg.length seg h
    if r.1 < 0 then (r.1, r.2.1 :: sg, r.2.2.1, r.2.2.2)
    else
      let more := scatterLoop cfg e read multiple blksz sg r.2.2.2
      (more.1, r.2.1 :: more.2.1, r.2.2.1 + more.2.2.1, more.2.2.2)

/-- The STOP_TRAN token of a multiblock write, with the error of the data stage before and behind it. -/
def stopTran (e : Bus) (error : Int) (h : Host) : Int × Host :=
  match spiSyncLocked e (spiTokenStopTran :: ones (scratchStatus - 1)) true h with
  | (.error x, h) => (if error = 0 then x else error, h)
  | (.ok status, h) =>
    if (status.drop 2).any (· ≠ 0) then (error, h)
    else match mmcSpiWaitUnbusy e h with
      | (.error x, h) => (if error = 0 then x else error, h)
      | (.ok _, h) => (error, h)

def mmcSpiDataDo (cfg : Config) (e : Bus) (d : Data) (h : Host) : Data × Host :=
  let multiple : Bool := 1 < d.blocks
  let r := scatterLoop cfg e d.read multiple d.blksz d.sg h
  let error := if r.1 < 0 then r.1 else d.error
  let stop := if !d.read && multiple then stopTran e error r.2.2.2 else (error, r.2.2.2)
  ({ d with sg := r.2.1, error := stop.1, bytesXfered := d.bytesXfered + r.2.2.1 }, stop.2)

/-! ## Requests -/

structure Request where
  cmd : Cmd
  data : Option Data
  stop : Option Cmd
  deriving DecidableEq, Repr

/-- `MMC_STOP_TRANSMISSION` between two attempts, with an R1B response. -/
def stopTransmission : Cmd := ⟨12, 0, mmcRspSpiS1 ||| mmcRspSpiBusy ||| mmcRspBusy, 0, 0, 0⟩

/-- What follows the data stage that is not repeated. -/
def requestStop (e : Bus) (reading : Bool) (mrq : Request) (h : Host) : Request × Host :=
  match mrq.stop with
  | some stop =>
    let r := mmcSpiCommandSend e reading stop false h
    ({ mrq with stop := some r.2.1 }, r.2.2)
  | none => (mrq, mmcCsOff h)

/-- The label `crc_recover`, with `crc_retry` repetitions left. -/
def crcRecover (cfg : Config) (e : Bus) : Nat → Request → Host → Request × Host
  | retry, mrq, h =>
    match mrq.data with
    | none =>
      let r := mmcSpiCommandSend e false mrq.cmd false h
      ({ mrq with cmd := r.2.1 }, r.2.2)
    | some d =>
      let r := mmcSpiCommandSend e d.read mrq.cmd true h
      let mrq := { mrq with cmd := r.2.1 }
      if r.1 ≠ 0 then (mrq, r.2.2)
      else
        let stage := mmcSpiDataDo cfg e d r.2.2
        match retry with
        | 0 => requestStop e d.read { mrq with data := some stage.1 } stage.2
        | retry + 1 =>
          if stage.1.error = eilseq.val ∧ cfg.sdio = false then
            let stop := mmcSpiCommandSend e d.read stopTransmission false stage.2
            crcRecover cfg e retry { mrq with data := some { stage.1 with error := 0 } } stop.2.2
          else requestStop e d.read { mrq with data := some stage.1 } stage.2

def crcRetry : Nat := 5

def mmcSpiRequest (cfg : Config) (e : Bus) (mrq : Request) (h : Host) : Request × Host :=
  crcRecover cfg e crcRetry mrq h

end HgicFmac.MmcSpi
