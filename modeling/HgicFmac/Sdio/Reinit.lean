import HgicFmac.Lib.Jobs
import Mathlib.Data.BitVec

/-!
# `hgic_sdio_reinit_card`

After a loss of power or a new firmware the card is set up again by hand: reset, voltage, address, width, speed and
interrupts, step by step, three times at most.

* `SdioFunc`, `Env` : what is fixed, and what comes of each call into the MMC layer; `Host`, `Card`, `State` : the
  settings of the host, those of the card, and all together with the variables of the function;
* `ioRwArg`, `ioRwDecode` : the argument of CMD52, from both sides; `sendCmd`, `hgicMmcIoRwDirect` : commands;
* `Part`, `part`, `parts` : one try; `hgicSdioReinitCard` : all of them;
* `SameBut`, `SameRegs` : what a command leaves alone; `ioRw_read`, `ioRw_write`, `ioModify_cases` : CMD52 at the card.
-/

namespace HgicFmac.Reinit
open Lib

abbrev Byte := BitVec 8

/-- The function and the capabilities of host and card. `flagged` : high speed is a flag of the card, as in older
kernels, and not read off the timing of the host. -/
structure SdioFunc where
  fNum : Nat
  isSpi : Bool
  hostHighspeed : Bool
  cccrHighspeed : Bool
  supp4bit : Bool
  widebus : Bool
  disableCd : Bool
  flagged : Bool
  maxClock : Nat
  fMax : Nat

structure Cmd where
  opcode : Nat
  arg : BitVec 32
  deriving DecidableEq, Repr

/-- What comes of a command. The data of a register is the card's own; `executed` : a card may execute a command
although the host sees an error. -/
structure Reply where
  err : Int
  err_le : err ≤ 0
  le_err : -2147483648 ≤ err
  resp0 : BitVec 32
  resp1 : BitVec 32
  executed : Bool

/-- By the number of the call into the MMC layer: the replies, `sdio_set_block_size`, `sdio_enable_func`, and whether
DISABLE_REINIT or SLEEP is set. -/
structure Env where
  reply : Nat → Reply
  setBlockSize : Nat → Int
  enableFunc : Nat → Int
  disabled : Nat → Bool

/-- `ios`, `max_blk_size`, `use_spi_crc`, and the flag of `mmc_card_set_highspeed`. -/
structure Host where
  width4 : Bool
  timingHs : Bool
  hz : Nat
  maxBlkSize : Nat
  useSpiCrc : Bool
  highspeed : Bool
  deriving DecidableEq, Repr

/-- Three registers of the card (IENx, IF, SPEED), whether it uses CRCs on SPI, its address, and whether it is
selected. -/
structure Card where
  intEnable : Byte
  busIf : Byte
  speed : Byte
  crc : Bool
  rca : BitVec 16
  selected : Bool
  deriving DecidableEq, Repr

/-- `clock` counts the calls into the MMC layer. `ocr` and `rca` are variables of the function; `speedRet` is the last
result of `hgic_sdio_set_highspeed`, and `tries` says where on the clock it was tried. -/
structure State where
  clock : Nat
  host : Host
  card : Card
  ocr : BitVec 32
  rca : BitVec 32
  speedRet : BitVec 32
  tries : List Nat

def goIdleState : Nat := 0
def sendRelativeAddr : Nat := 3
def ioSendOpCond : Nat := 5
def selectCard : Nat := 7
def sendIfCond : Nat := 8
def ioRwDirect : Nat := 52
def spiCrcOnOff : Nat := 59

def sdioCccrIenx : Nat := 0x04
def sdioCccrAbort : Nat := 0x06
def sdioCccrIf : Nat := 0x07
def sdioCccrSpeed : Nat := 0x13

/-! ## The card -/

/-- The argument of CMD52, with the data that it reads back: `out`. -/
def ioRwArg (write : Bool) (fn addr : Nat) (inp : Byte) (out : Bool) : BitVec 32 :=
  (if write then 0x80000000#32 else 0) ||| (BitVec.ofNat 32 fn <<< 28) |||
    (if write && out then 0x08000000#32 else 0) ||| (BitVec.ofNat 32 addr <<< 9) ||| inp.setWidth 32

/-- As the card takes it. -/
structure IoRw where
  write : Bool
  fn : BitVec 3
  raw : Bool
  addr : BitVec 17
  data : Byte
  deriving DecidableEq, Repr

def ioRwDecode (arg : BitVec 32) : IoRw :=
  ⟨arg.getLsbD 31, arg.extractLsb' 28 3, arg.getLsbD 27, arg.extractLsb' 9 17, arg.extractLsb' 0 8⟩

theorem getLsbD_ite_shift (b : Bool) {k i : Nat} (hk : k < 32) :
    (if b then 1#32 <<< k else 0).getLsbD i = (b && decide (i = k)) := by
  cases b with
  | false => simp
  | true =>
    simp only [if_true, Bool.true_and, BitVec.getLsbD_shiftLeft, BitVec.getLsbD_one]
    grind

/-- The argument bit by bit. -/
theorem getLsbD_ioRwArg (write : Bool) (fn addr : Nat) (inp : Byte) (out : Bool) {i : Nat} (hi : i < 32) :
    (ioRwArg write fn addr inp out).getLsbD i =
      ((write && decide (i = 31)) || (decide (28 ≤ i) && fn.testBit (i - 28)) || (write && out && decide (i = 27)) ||
        (decide (9 ≤ i) && addr.testBit (i - 9)) || inp.getLsbD i) := by
  have hwrite := @getLsbD_ite_shift write 31 i (by decide)
  have hraw := @getLsbD_ite_shift (write && out) 27 i (by decide)
  rw [show 1#32 <<< 31 = 0x80000000#32 by decide] at hwrite
  rw [show 1#32 <<< 27 = 0x08000000#32 by decide] at hraw
  simp only [ioRwArg, BitVec.getLsbD_or, BitVec.getLsbD_shiftLeft, BitVec.getLsbD_ofNat, BitVec.getLsbD_setWidth,
    hwrite, hraw]
  grind

theorem ioRwDecode_arg (write : Bool) {fn addr : Nat} (hfn : fn < 8) (haddr : addr < 0x20000) (inp : Byte)
    (out : Bool) : ioRwDecode (ioRwArg write fn addr inp out) =
      ⟨write, BitVec.ofNat 3 fn, write && out, BitVec.ofNat 17 addr, inp⟩ := by
  have hf : ∀ i ≥ 3, fn.testBit i = false := fun i hi =>
    Nat.testBit_lt_two_pow (Nat.lt_of_lt_of_le hfn (Nat.pow_le_pow_right (by decide) hi : 2 ^ 3 ≤ 2 ^ i))
  have ha : ∀ i ≥ 17, addr.testBit i = false := fun i hi =>
    Nat.testBit_lt_two_pow (Nat.lt_of_lt_of_le haddr (Nat.pow_le_pow_right (by decide) hi : 2 ^ 17 ≤ 2 ^ i))
  have hin : ∀ i ≥ 8, inp.getLsbD i = false := fun i hi => BitVec.getLsbD_of_ge inp i hi
  unfold ioRwDecode
  congr 1
  · rw [getLsbD_ioRwArg _ _ _ _ _ (by decide), hf _ (by decide), ha _ (by decide), hin _ (by decide)]
    simp
  · refine BitVec.eq_of_getLsbD_eq fun i hi => ?_
    rw [BitVec.getLsbD_extractLsb', getLsbD_ioRwArg _ _ _ _ _ (by omega), BitVec.getLsbD_ofNat, ha _ (by omega),
      hin _ (by omega)]
    grind
  · rw [getLsbD_ioRwArg _ _ _ _ _ (by decide), ha _ (by decide), hin _ (by decide)]
    simp
  · refine BitVec.eq_of_getLsbD_eq fun i hi => ?_
    rw [BitVec.getLsbD_extractLsb', getLsbD_ioRwArg _ _ _ _ _ (by omega), BitVec.getLsbD_ofNat, hin _ (by omega)]
    grind
  · refine BitVec.eq_of_getLsbD_eq fun i hi => ?_
    rw [BitVec.getLsbD_extractLsb', getLsbD_ioRwArg _ _ _ _ _ (by omega)]
    grind

/-- A write to a register of the card; the bit RES of ABORT resets it. -/
def Card.write (c : Card) (addr : Nat) (data : Byte) : Card :=
  if addr = sdioCccrIenx then { c with intEnable := data }
  else if addr = sdioCccrIf then { c with busIf := data }
  else if addr = sdioCccrSpeed then { c with speed := data }
  else if addr = sdioCccrAbort ∧ data.getLsbD 3 = true then
    { c with intEnable := 0, busIf := 0, speed := 0, selected := false }
  else c

def Card.read (c : Card) (addr : Nat) : Byte :=
  if addr = sdioCccrIenx then c.intEnable
  else if addr = sdioCccrIf then c.busIf
  else if addr = sdioCccrSpeed then c.speed
  else 0

/-- What a command does to the card. CMD3 gives it the address in its reply, CMD7 selects it by its address. -/
def Card.exec (c : Card) (cmd : Cmd) (resp0 : BitVec 32) : Card :=
  if cmd.opcode = goIdleState then { c with crc := false }
  else if cmd.opcode = sendRelativeAddr then { c with rca := resp0.extractLsb' 16 16, selected := false }
  else if cmd.opcode = selectCard then { c with selected := cmd.arg.extractLsb' 16 16 = c.rca }
  else if cmd.opcode = spiCrcOnOff then { c with crc := cmd.arg.getLsbD 0 }
  else if cmd.opcode = ioRwDirect then
    let rw := ioRwDecode cmd.arg
    if rw.write ∧ rw.fn = 0 then c.write rw.addr.toNat rw.data else c
  else c

/-! ## Commands -/

section Commands
variable (k : SdioFunc) (e : Env)

/-- `R5_ERROR`, `R5_FUNCTION_NUMBER` and `R5_OUT_OF_RANGE` are not looked at on SPI. -/
def Reply.ok (cmd : Cmd) (r : Reply) : Bool :=
  r.err = 0 && (k.isSpi || cmd.opcode ≠ ioRwDirect || r.resp0 &&& 0xb00#32 = 0#32)

/-- The first word of a reply to CMD52, with the data of the card in its place. -/
def withData (data : Byte) (resp0 : BitVec 32) : BitVec 32 :=
  if k.isSpi then resp0 &&& 0xffff00ff ||| data.setWidth 32 <<< 8 else resp0 &&& 0xffffff00 ||| data.setWidth 32

/-- `hgic_mmc_send_cmd`, one call whatever its `retries` : `mmc_wait_for_cmd` sends the command again by itself, and
what comes of it is the reply to the last one. -/
def sendCmd (cmd : Cmd) (s : State) : Reply × State :=
  let r := e.reply s.clock
  let rw := ioRwDecode cmd.arg
  (if cmd.opcode = ioRwDirect ∧ rw.write = false ∧ rw.fn = 0 then
      { r with resp0 := withData k (s.card.read rw.addr.toNat) r.resp0 }
    else r,
    { s with clock := s.clock + 1, card := if r.ok k cmd || r.executed then s.card.exec cmd r.resp0 else s.card })

/-- What the bits of R5 stand for; on SPI the host has looked at them. -/
def r5Error (resp0 : BitVec 32) : Int :=
  if k.isSpi then 0
  else if resp0 &&& 0x800#32 ≠ 0#32 then -5
  else if resp0 &&& 0x200#32 ≠ 0#32 then -22
  else if resp0 &&& 0x100#32 ≠ 0#32 then -34
  else 0

/-- The error, and the data if there is none. -/
def hgicMmcIoRwDirect (write : Bool) (fn addr : Nat) (inp : Byte) (out : Bool) (s : State) : (Int × Byte) × State :=
  if 0x1ffff < addr then ((-22, 0), s)
  else
    let r := sendCmd k e ⟨ioRwDirect, ioRwArg write fn addr inp out⟩ s
    let err := if r.1.err ≠ 0 then r.1.err else r5Error k r.1.resp0
    let data := if k.isSpi then (r.1.resp0 >>> 8).setWidth 8 else r.1.resp0.setWidth 8
    ((err, if err = 0 then data else 0), r.2)

def hgicSdioReset (s : State) : Int × State :=
  let r := hgicMmcIoRwDirect k e false 0 sdioCccrAbort 0 true s
  let abort := if r.1.1 ≠ 0 then 0x08 else r.1.2 ||| 0x08
  let w := hgicMmcIoRwDirect k e true 0 sdioCccrAbort abort false r.2
  (w.1.1, w.2)

def hgicSdioGoIdle (s : State) : Int × State :=
  let r := sendCmd k e ⟨goIdleState, 0⟩ s
  (r.1.err, { r.2 with host.useSpiCrc := false })

def hgicMmcSendIfCond (ocr : BitVec 32) (s : State) : Int × State :=
  let r := sendCmd k e ⟨sendIfCond, (if ocr &&& 0xff8000 ≠ 0 then 1#32 <<< 8 else 0) ||| 0xaa⟩ s
  let pattern := (if k.isSpi then r.1.resp1 else r.1.resp0) &&& 0xff
  (if r.1.err ≠ 0 then r.1.err else if pattern ≠ 0xaa then -5 else 0, r.2)

/-- The loop, with `i` passes to go. -/
def opCondLoop (ocr : BitVec 32) : Nat → Int → BitVec 32 → State → Int × State
  | 0, err, resp, s => (err, { s with ocr := resp })
  | i + 1, _, _, s =>
    let r := sendCmd k e ⟨ioSendOpCond, ocr⟩ s
    let resp := if k.isSpi then r.1.resp1 else r.1.resp0
    if r.1.err ≠ 0 then (r.1.err, { r.2 with ocr := resp })
    else if ocr = 0 then (0, { r.2 with ocr := resp })
    else if resp &&& 0x80000000 ≠ 0 then (0, { r.2 with ocr := resp })
    else opCondLoop ocr i (-110) resp r.2

def hgicSendIoOpCond (ocr : BitVec 32) (s : State) : Int × State := opCondLoop k e ocr 10 0 0 s

def hgicSdioGetCardAddr (s : State) : Int × State :=
  let r := sendCmd k e ⟨sendRelativeAddr, 0⟩ s
  if r.1.err ≠ 0 then (r.1.err, r.2) else (0, { r.2 with rca := r.1.resp0 >>> 16 })

def hgicSdioSelectCard (s : State) : Int × State :=
  let r := sendCmd k e ⟨selectCard, s.rca <<< 16⟩ s
  (r.1.err, r.2)

/-- A register is read and written. -/
def ioModify (addr : Nat) (f : Byte → Byte) (s : State) : Int × State :=
  let r := hgicMmcIoRwDirect k e false 0 addr 0 true s
  if r.1.1 ≠ 0 then (r.1.1, r.2)
  else
    let w := hgicMmcIoRwDirect k e true 0 addr (f r.1.2) false r.2
    (w.1.1, w.2)

/-- An unsigned result. -/
def hgicSdioSetHighspeed (s : State) : BitVec 32 × State :=
  if !k.hostHighspeed then (0, s)
  else if !k.cccrHighspeed then (0, s)
  else
    let r := ioModify k e sdioCccrSpeed (fun speed => speed ||| 0x02) s
    if r.1 ≠ 0 then (BitVec.ofInt 32 r.1, r.2) else (1, { r.2 with host.highspeed := true })

def hgicSdioDisableCd (s : State) : Int × State :=
  if !k.disableCd then (0, s) else ioModify k e sdioCccrIf (fun ctrl => ctrl ||| 0x80) s

def hgicSdioSetWireWidth (s : State) : Int × State :=
  if !k.supp4bit then (0, s)
  else if k.widebus then (0, s)
  else
    let r := ioModify k e sdioCccrIf (fun ctrl => ctrl &&& ~~~0x03 ||| 0x02) s
    if r.1 ≠ 0 then (r.1, r.2) else (1, { r.2 with host.width4 := true })

def hgicSdioIntEnable (s : State) : Int × State :=
  let w := hgicMmcIoRwDirect k e true 0 sdioCccrIenx (1#8 <<< k.fNum ||| 1) true s
  (w.1.1, w.2)

def hgicMmcSpiSetCrc (useCrc : Bool) (s : State) : Int × State :=
  let r := sendCmd k e ⟨spiCrcOnOff, if useCrc then 1 else 0⟩ s
  (r.1.err, if r.1.err = 0 then { r.2 with host.useSpiCrc := useCrc } else r.2)

def hgicMmcSetClock (hz : Nat) (s : State) : State :=
  { s with host.hz := if k.fMax ≠ 0 ∧ k.fMax < hz then k.fMax else hz }

/-- `mmc_card_highspeed`. -/
def cardHighspeed (h : Host) : Bool := if k.flagged then h.highspeed else h.timingHs

end Commands

/-! ## One try -/

/-- The parts of a try: what comes before `ocr` is asked for, and everything that ends the try when it fails. -/
inductive Part
  | setup | probe | opCond | spiCrc | cardAddr | selectCard | disableCd
  | highspeed | busClock | wireWidth | blockSize | intEnable | enableFunc
  deriving DecidableEq, Repr

section Parts
variable (k : SdioFunc) (e : Env)

def negative (err : Int) : Int := if err < 0 then err else 0

/-- 0 when the try goes on. An unsigned value is never negative. -/
def part : Part → State → Int × State
  | .setup, s =>
    let s := hgicMmcSetClock k 400000 { s with ocr := 0, rca := 0 }
    let addr := hgicSdioGetCardAddr k e { s with host.timingHs := false, host.width4 := false }
    let s := if addr.1 = 0 then (hgicSdioSelectCard k e addr.2).2 else addr.2
    let s := (hgicSdioGoIdle k e (hgicSdioReset k e s).2).2
    (0, (hgicMmcSendIfCond k e s.ocr s).2)
  | .probe, s => hgicSendIoOpCond k e 0 s
  | .opCond, s => hgicSendIoOpCond k e s.ocr s
  | .spiCrc, s => hgicMmcSpiSetCrc k e true s
  | .cardAddr, s => hgicSdioGetCardAddr k e s
  | .selectCard, s => hgicSdioSelectCard k e s
  | .disableCd, s =>
    let r := hgicSdioDisableCd k e s
    (negative r.1, r.2)
  | .highspeed, s =>
    let r := hgicSdioSetHighspeed k e s
    (if r.1 < 0 then -1 else 0, { r.2 with speedRet := r.1 })
  | .busClock, s =>
    let s := hgicMmcSetClock k (if cardHighspeed k s.host then 50000000 else k.maxClock) s
    (0, { s with host.timingHs := true, host.maxBlkSize := 64 })
  | .wireWidth, s =>
    let r := hgicSdioSetWireWidth k e s
    (negative r.1, r.2)
  | .blockSize, s => (e.setBlockSize s.clock, { s with clock := s.clock + 1 })
  | .intEnable, s => hgicSdioIntEnable k e s
  | .enableFunc, s => (e.enableFunc s.clock, { s with clock := s.clock + 1 })

def parts : List Part :=
  [.setup, .probe, .opCond] ++ (if k.isSpi then [.spiCrc] else [.cardAddr, .selectCard, .disableCd]) ++
    [.highspeed, .busClock, .wireWidth, .blockSize, .intEnable, .enableFunc]

def retryLoop : Nat → State → Int × State
  | 0, s => (-1, s)
  | n + 1, s =>
    if e.disabled s.clock then (-1, s)
    else
      let r := untilErr (part k e) (parts k) { s with tries := s.tries ++ [s.clock] }
      if r.1 = 0 then r else retryLoop n r.2

def hgicSdioReinitCard (s : State) : Int × State := retryLoop k e 3 s

end Parts

/-! ## What a part leaves alone -/

/-- Everything but the register `a` of the card. -/
structure SameBut (a : Nat) (s t : State) : Prop where
  host : t.host = s.host
  speedRet : t.speedRet = s.speedRet
  crc : t.card.crc = s.card.crc
  selected : t.card.selected = s.card.selected
  intEnable : a ≠ sdioCccrIenx → t.card.intEnable = s.card.intEnable
  busIf : a ≠ sdioCccrIf → t.card.busIf = s.card.busIf
  speed : a ≠ sdioCccrSpeed → t.card.speed = s.card.speed

/-- The registers of the card, and the settings of the host. -/
structure SameRegs (s t : State) : Prop where
  host : t.host = s.host
  intEnable : t.card.intEnable = s.card.intEnable
  busIf : t.card.busIf = s.card.busIf
  speed : t.card.speed = s.card.speed

section Commands
variable {k : SdioFunc} {e : Env} {s t u : State} {a : Nat}

theorem SameRegs.trans (h : SameRegs s t) (h' : SameRegs t u) : SameRegs s u :=
  ⟨h'.host.trans h.host, h'.intEnable.trans h.intEnable, h'.busIf.trans h.busIf, h'.speed.trans h.speed⟩

theorem sendCmd_sameRegs (k : SdioFunc) (e : Env) {opcode : Nat} (hop : opcode ≠ ioRwDirect) (arg : BitVec 32)
    (s : State) : SameRegs s (sendCmd k e ⟨opcode, arg⟩ s).2 := by
  have hexec : ∀ resp0, SameRegs s { s with clock := s.clock + 1, card := s.card.exec ⟨opcode, arg⟩ resp0 } := by
    intro resp0
    unfold Card.exec
    rw [if_neg hop]
    split_ifs <;> exact ⟨rfl, rfl, rfl, rfl⟩
  unfold sendCmd
  dsimp only
  split
  · exact hexec _
  · exact ⟨rfl, rfl, rfl, rfl⟩

/-- A write to the register `a`, whether the card executes it or not. -/
theorem SameBut.of_write (ha : a ≠ sdioCccrAbort) {data : Byte} {c : Card}
    (hc : c = s.card.write a data ∨ c = s.card) (n : Nat) : SameBut a s { s with clock := n, card := c } := by
  rcases hc with rfl | rfl
  · unfold Card.write
    split_ifs with h1 h2 h3 h4
    · exact ⟨rfl, rfl, rfl, rfl, fun h => absurd h1 h, fun _ => rfl, fun _ => rfl⟩
    · exact ⟨rfl, rfl, rfl, rfl, fun _ => rfl, fun h => absurd h2 h, fun _ => rfl⟩
    · exact ⟨rfl, rfl, rfl, rfl, fun _ => rfl, fun _ => rfl, fun h => absurd h3 h⟩
    · exact absurd h4.1 ha
    · exact ⟨rfl, rfl, rfl, rfl, fun _ => rfl, fun _ => rfl, fun _ => rfl⟩
  · exact ⟨rfl, rfl, rfl, rfl, fun _ => rfl, fun _ => rfl, fun _ => rfl⟩

/-- A card takes CMD52 as it is meant. -/
theorem exec_ioRwArg (c : Card) (write : Bool) (ha : a < 0x20000) (inp : Byte) (out : Bool) (resp0 : BitVec 32) :
    c.exec ⟨ioRwDirect, ioRwArg write 0 a inp out⟩ resp0 = if write then c.write a inp else c := by
  have hmod : a % 2 ^ 17 = a := Nat.mod_eq_of_lt ha
  simp only [Card.exec, ioRwDirect, goIdleState, sendRelativeAddr, selectCard, spiCrcOnOff,
    ioRwDecode_arg write (by decide : 0 < 8) ha, BitVec.toNat_ofNat, hmod]
  cases write <;> simp

theorem data_withData (k : SdioFunc) (data : Byte) (resp0 : BitVec 32) :
    (if k.isSpi then (withData k data resp0 >>> 8).setWidth 8 else (withData k data resp0).setWidth 8) = data := by
  have hspi : ∀ i < 8, BitVec.getLsbD (0xffff00ff : BitVec 32) (8 + i) = false := by decide
  have hbus : ∀ i < 8, BitVec.getLsbD (0xffffff00 : BitVec 32) i = false := by decide
  unfold withData
  cases k.isSpi with
  | true =>
    refine BitVec.eq_of_getLsbD_eq fun i hi => ?_
    simp only [if_true, BitVec.getLsbD_setWidth, BitVec.getLsbD_ushiftRight, BitVec.getLsbD_or, BitVec.getLsbD_and,
      BitVec.getLsbD_shiftLeft]
    grind
  | false =>
    refine BitVec.eq_of_getLsbD_eq fun i hi => ?_
    simp only [Bool.false_eq_true, if_false, BitVec.getLsbD_setWidth, BitVec.getLsbD_or, BitVec.getLsbD_and, hbus i hi]
    grind

theorem ioRw_read (k : SdioFunc) (e : Env) (ha : a < 0x20000) (s : State) :
    let r := hgicMmcIoRwDirect k e false 0 a 0 true s
    r.2 = { s with clock := s.clock + 1 } ∧ (r.1.1 = 0 → r.1.2 = s.card.read a) := by
  have hmod : a % 2 ^ 17 = a := Nat.mod_eq_of_lt ha
  have hsend : sendCmd k e ⟨ioRwDirect, ioRwArg false 0 a 0 true⟩ s =
      ({ e.reply s.clock with resp0 := withData k (s.card.read a) (e.reply s.clock).resp0 },
        { s with clock := s.clock + 1 }) := by
    unfold sendCmd
    simp only [ioRwDecode_arg false (by decide : 0 < 8) ha, BitVec.toNat_ofNat, hmod, exec_ioRwArg s.card false ha,
      Bool.false_eq_true, if_false, ite_self]
    simp
  unfold hgicMmcIoRwDirect
  rw [if_neg (Nat.not_lt.2 (Nat.le_of_lt_succ ha)), hsend]
  refine ⟨rfl, fun h0 => ?_⟩
  dsimp only at h0 ⊢
  rw [if_pos h0]
  exact data_withData k _ _

theorem r5Error_eq_zero {resp0 : BitVec 32} (h : r5Error k resp0 = 0) : k.isSpi = true ∨ resp0 &&& 0xb00#32 = 0#32 := by
  unfold r5Error at h
  split_ifs at h with hspi h1 h2 h3
  · exact .inl hspi
  · refine .inr ?_
    rw [show 0xb00#32 = 0x800#32 ||| 0x200#32 ||| 0x100#32 by decide, BitVec.and_or_distrib_left,
      BitVec.and_or_distrib_left, not_not.1 h1, not_not.1 h2, not_not.1 h3]
    decide

theorem ioRw_write (k : SdioFunc) (e : Env) (ha : a < 0x20000) (inp : Byte) (out : Bool) (s : State) :
    let r := hgicMmcIoRwDirect k e true 0 a inp out s
    ∃ c, r.2 = { s with clock := s.clock + 1, card := c } ∧ (c = s.card.write a inp ∨ c = s.card) ∧
      (r.1.1 = 0 → c = s.card.write a inp) := by
  have hsend : sendCmd k e ⟨ioRwDirect, ioRwArg true 0 a inp out⟩ s =
      (e.reply s.clock, { s with
        clock := s.clock + 1
        card := if (e.reply s.clock).ok k ⟨ioRwDirect, ioRwArg true 0 a inp out⟩ || (e.reply s.clock).executed then
          s.card.write a inp else s.card }) := by
    unfold sendCmd
    simp only [ioRwDecode_arg true (by decide : 0 < 8) ha, exec_ioRwArg s.card true ha, if_true]
    simp
  unfold hgicMmcIoRwDirect
  rw [if_neg (Nat.not_lt.2 (Nat.le_of_lt_succ ha)), hsend]
  refine ⟨_, rfl, ite_eq_or_eq _ _ _, fun h0 => if_pos ?_⟩
  dsimp only at h0
  by_cases herr : (e.reply s.clock).err = 0
  · rw [if_neg (not_not.2 herr)] at h0
    rcases r5Error_eq_zero h0 with hspi | hflags
    · simp [Reply.ok, herr, hspi]
    · simp [Reply.ok, herr, hflags]
  · rw [if_pos herr] at h0
    exact absurd h0 herr

/-- A register that is read and written: whatever fails, it has its old value or the new one. -/
theorem ioModify_cases (k : SdioFunc) (e : Env) (ha : a < 0x20000) (f : Byte → Byte) (s : State) :
    let r := ioModify k e a f s
    ∃ n ≤ s.clock + 2, ∃ c, r.2 = { s with clock := n, card := c } ∧
      (c = s.card.write a (f (s.card.read a)) ∨ c = s.card) ∧ (r.1 = 0 → c = s.card.write a (f (s.card.read a))) := by
  obtain ⟨hstate, hdata⟩ := ioRw_read k e ha s
  obtain ⟨c, hw, hcard, hok⟩ := ioRw_write k e ha (f (hgicMmcIoRwDirect k e false 0 a 0 true s).1.2) false
    (hgicMmcIoRwDirect k e false 0 a 0 true s).2
  unfold ioModify
  dsimp only at hdata ⊢
  split
  · next herr => exact ⟨s.clock + 1, by omega, s.card, hstate, .inr rfl, fun h0 => absurd h0 herr⟩
  · next herr =>
    rw [hdata (not_not.1 herr), hstate] at hw hcard hok ⊢
    exact ⟨_, Nat.le_refl _, c, hw, hcard, hok⟩

end Commands

end HgicFmac.Reinit
