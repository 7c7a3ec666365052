import HgicFmac.Sdio.Reinit
import Mathlib.Tactic.Common

/-!
# What `hgic_sdio_reinit_card` leaves behind

* `Inv` : what holds whenever it is called; `Fresh`, `Attached`, `Fast`, `Clocked` : what its parts establish one after
  the other;
* `reinit_agrees` : host and card agree when 0 is returned, high speed apart;
* `reinit_tries` : how often it is tried, and when it is not.
-/

namespace HgicFmac.Reinit
open Lib

/-! ## The parts of a try -/

/-- 4-bit bus width is used. -/
def SdioFunc.wide (k : SdioFunc) : Bool := k.supp4bit && !k.widebus

/-- The card has its bus width from the host, and high speed is not set without both. -/
structure Inv (k : SdioFunc) (s : State) : Prop where
  busIf : k.wide = false → s.card.busIf &&& 3 = 0
  highspeed : s.host.highspeed = true → k.hostHighspeed = true ∧ k.cccrHighspeed = true

structure Fresh (k : SdioFunc) (s : State) : Prop where
  inv : Inv k s
  width4 : s.host.width4 = false
  timingHs : s.host.timingHs = false

/-- The card listens to the host. -/
structure Attached (k : SdioFunc) (s : State) : Prop where
  crc : k.isSpi = true → s.card.crc = true ∧ s.host.useSpiCrc = true
  selected : k.isSpi = false → s.card.selected = true

/-- High speed is set in the card, or was set once and `hgic_sdio_set_highspeed` has failed. -/
def Fast (s : State) : Prop :=
  s.host.highspeed = true → s.card.speed.getLsbD 1 = true ∨ s.speedRet ≠ 0 ∧ s.speedRet ≠ 1

/-- The settings that last, and a bus width that is the old one or that of a reset. -/
structure Kept (s t : State) : Prop where
  highspeed : t.host.highspeed = s.host.highspeed
  width4 : t.host.width4 = s.host.width4
  timingHs : t.host.timingHs = s.host.timingHs
  busIf : t.card.busIf = s.card.busIf ∨ t.card.busIf = 0

/-- What `hgic_mmc_set_clock` makes of the frequency that fits the speed. -/
def SdioFunc.clockOf (k : SdioFunc) (highspeed : Bool) : Nat :=
  let hz := if k.flagged && highspeed then 50000000 else k.maxClock
  if k.fMax ≠ 0 ∧ k.fMax < hz then k.fMax else hz

/-- The speed is settled. -/
structure Clocked (k : SdioFunc) (s : State) : Prop where
  inv : Inv k s
  attached : Attached k s
  fast : Fast s
  hz : s.host.hz = k.clockOf s.host.highspeed

/-- And the width of the bus. -/
structure Wired (k : SdioFunc) (s : State) : Prop extends Clocked k s where
  width : s.host.width4 = true ↔ s.card.busIf &&& 3 = 2

/-- And the interrupts of the function. -/
structure Agrees (k : SdioFunc) (s : State) : Prop extends Wired k s where
  intEnable : s.card.intEnable = 1#8 <<< k.fNum ||| 1

section Parts
variable {k : SdioFunc} {e : Env} {s t u : State} {a : Nat}

theorem Kept.trans (h : Kept s t) (h' : Kept t u) : Kept s u := by
  refine ⟨h'.highspeed.trans h.highspeed, h'.width4.trans h.width4, h'.timingHs.trans h.timingHs, ?_⟩
  rcases h'.busIf with hsame | hzero
  · rw [hsame]
    exact h.busIf
  · exact .inr hzero

theorem SameRegs.kept (h : SameRegs s t) : Kept s t := ⟨by rw [h.host], by rw [h.host], by rw [h.host], .inl h.busIf⟩

theorem Kept.inv (h : Kept s t) (hi : Inv k s) : Inv k t := by
  refine ⟨fun hw => ?_, fun hhigh => hi.highspeed (h.highspeed ▸ hhigh)⟩
  rcases h.busIf with hsame | hzero
  · rw [hsame]
    exact hi.busIf hw
  · rw [hzero]
    rfl

theorem Kept.fresh (h : Kept s t) (hf : Fresh k s) : Fresh k t :=
  ⟨h.inv hf.inv, h.width4.trans hf.width4, h.timingHs.trans hf.timingHs⟩

theorem Attached.sameBut (h : Attached k s) (hs : SameBut a s t) : Attached k t := by
  refine ⟨fun hspi => ?_, fun hspi => ?_⟩
  · rw [hs.crc, hs.host]
    exact h.crc hspi
  · rw [hs.selected]
    exact h.selected hspi

theorem Fast.sameBut (h : Fast s) (hs : SameBut a s t) (ha : a ≠ sdioCccrSpeed) : Fast t := by
  intro hhigh
  rw [hs.host] at hhigh
  rw [hs.speed ha, hs.speedRet]
  exact h hhigh

theorem getCardAddr_sameRegs (k : SdioFunc) (e : Env) (s : State) : SameRegs s (hgicSdioGetCardAddr k e s).2 := by
  have hsend := sendCmd_sameRegs k e (by decide : sendRelativeAddr ≠ ioRwDirect) 0 s
  unfold hgicSdioGetCardAddr
  dsimp only
  split
  · exact hsend
  · exact ⟨hsend.host, hsend.intEnable, hsend.busIf, hsend.speed⟩

theorem selectCard_sameRegs (k : SdioFunc) (e : Env) (s : State) : SameRegs s (hgicSdioSelectCard k e s).2 :=
  sendCmd_sameRegs k e (by decide : selectCard ≠ ioRwDirect) (s.rca <<< 16) s

theorem opCond_sameRegs (k : SdioFunc) (e : Env) (ocr : BitVec 32) (i : Nat) (err : Int) (resp : BitVec 32)
    (s : State) : SameRegs s (opCondLoop k e ocr i err resp s).2 := by
  induction i generalizing err resp s with
  | zero => exact ⟨rfl, rfl, rfl, rfl⟩
  | succ i ih =>
    have hsend := sendCmd_sameRegs k e (by decide : ioSendOpCond ≠ ioRwDirect) ocr s
    have hleft : ∀ ocr', SameRegs s { (sendCmd k e ⟨ioSendOpCond, ocr⟩ s).2 with ocr := ocr' } :=
      fun _ => ⟨hsend.host, hsend.intEnable, hsend.busIf, hsend.speed⟩
    rw [opCondLoop]
    dsimp only
    generalize (if k.isSpi then _ else _ : BitVec 32) = resp'
    split
    · exact hleft _
    · split
      · exact hleft _
      · split
        · exact hleft _
        · exact hsend.trans (ih _ _ _)

theorem write_abort (c : Card) (data : Byte) :
    (c.write sdioCccrAbort data).busIf = c.busIf ∨ (c.write sdioCccrAbort data).busIf = 0 := by
  rw [Card.write, if_neg (by decide), if_neg (by decide), if_neg (by decide)]
  split
  · exact .inr rfl
  · exact .inl rfl

theorem reset_kept (k : SdioFunc) (e : Env) (s : State) : Kept s (hgicSdioReset k e s).2 := by
  obtain ⟨hstate, -⟩ := ioRw_read k e (by decide : sdioCccrAbort < 0x20000) s
  unfold hgicSdioReset
  dsimp only
  rw [hstate]
  obtain ⟨c, hw, hcard, -⟩ := ioRw_write k e (by decide : sdioCccrAbort < 0x20000)
    (if (hgicMmcIoRwDirect k e false 0 sdioCccrAbort 0 true s).1.1 ≠ 0 then 0x08
      else (hgicMmcIoRwDirect k e false 0 sdioCccrAbort 0 true s).1.2 ||| 0x08) false { s with clock := s.clock + 1 }
  rw [hw]
  refine ⟨rfl, rfl, rfl, ?_⟩
  rcases hcard with rfl | rfl
  · exact write_abort _ _
  · exact .inl rfl

/-- A new try starts with the settings of a card that has just been found. -/
theorem part_setup (e : Env) (hi : Inv k s) : Fresh k (part k e .setup s).2 := by
  have hnew : Fresh k { hgicMmcSetClock k 400000 { s with ocr := 0, rca := 0 } with
      host.timingHs := false, host.width4 := false } := ⟨⟨hi.busIf, hi.highspeed⟩, rfl, rfl⟩
  unfold part
  dsimp only
  generalize ({ hgicMmcSetClock k 400000 { s with ocr := 0, rca := 0 } with
      host.timingHs := false, host.width4 := false } : State) = s0 at hnew ⊢
  have haddr := (getCardAddr_sameRegs k e s0).kept
  have hselect : Kept s0 (if (hgicSdioGetCardAddr k e s0).1 = 0 then
      (hgicSdioSelectCard k e (hgicSdioGetCardAddr k e s0).2).2 else (hgicSdioGetCardAddr k e s0).2) := by
    split
    · exact haddr.trans (selectCard_sameRegs k e _).kept
    · exact haddr
  generalize (if (hgicSdioGetCardAddr k e s0).1 = 0 then
      (hgicSdioSelectCard k e (hgicSdioGetCardAddr k e s0).2).2 else (hgicSdioGetCardAddr k e s0).2) = s1 at hselect
  have hreset := hselect.trans (reset_kept k e s1)
  generalize (hgicSdioReset k e s1).2 = s2 at hreset
  have hidle : Kept s0 (hgicSdioGoIdle k e s2).2 := by
    obtain ⟨h1, h2, h3, h4⟩ := hreset.trans (sendCmd_sameRegs k e (by decide : goIdleState ≠ ioRwDirect) 0 s2).kept
    exact ⟨h1, h2, h3, h4⟩
  generalize (hgicSdioGoIdle k e s2).2 = s3 at hidle
  have hif := hidle.trans (sendCmd_sameRegs k e (by decide : sendIfCond ≠ ioRwDirect)
    ((if s3.ocr &&& 0xff8000 ≠ 0 then 1#32 <<< 8 else 0) ||| 0xaa) s3).kept
  exact hif.fresh hnew

theorem sendCmd_ok {opcode : Nat} (hop : opcode ≠ ioRwDirect) (arg : BitVec 32) (s : State)
    (h : (sendCmd k e ⟨opcode, arg⟩ s).1.err = 0) : sendCmd k e ⟨opcode, arg⟩ s =
      (e.reply s.clock, { s with
        clock := s.clock + 1, card := s.card.exec ⟨opcode, arg⟩ (e.reply s.clock).resp0 }) := by
  have hno : ∀ rest : Prop, ¬(opcode = ioRwDirect ∧ rest) := fun _ hand => hop hand.1
  unfold sendCmd at h ⊢
  dsimp only at h ⊢
  rw [if_neg (hno _)] at h ⊢
  simp [Reply.ok, h, hop]

theorem spiSetCrc_kept (k : SdioFunc) (e : Env) (useCrc : Bool) (s : State) :
    Kept s (hgicMmcSpiSetCrc k e useCrc s).2 := by
  have hsend := (sendCmd_sameRegs k e (by decide : spiCrcOnOff ≠ ioRwDirect) (if useCrc then 1 else 0) s).kept
  rw [hgicMmcSpiSetCrc]
  dsimp only
  generalize sendCmd k e ⟨spiCrcOnOff, if useCrc then 1 else 0⟩ s = r at hsend
  split
  · exact ⟨hsend.highspeed, hsend.width4, hsend.timingHs, hsend.busIf⟩
  · exact hsend

theorem spiSetCrc_ok (h : (hgicMmcSpiSetCrc k e true s).1 = 0) :
    (hgicMmcSpiSetCrc k e true s).2.card.crc = true ∧ (hgicMmcSpiSetCrc k e true s).2.host.useSpiCrc = true := by
  rw [hgicMmcSpiSetCrc, if_pos rfl] at h ⊢
  dsimp only at h ⊢
  rw [if_pos h, sendCmd_ok (by decide) 1 s h]
  exact ⟨rfl, rfl⟩

theorem getCardAddr_ok (h : (hgicSdioGetCardAddr k e s).1 = 0) :
    (hgicSdioGetCardAddr k e s).2.card.rca = (hgicSdioGetCardAddr k e s).2.rca.setWidth 16 := by
  unfold hgicSdioGetCardAddr at h ⊢
  dsimp only at h ⊢
  split at h
  · next herr => exact absurd h herr
  · next herr =>
    rw [if_neg herr, sendCmd_ok (by decide) 0 s (not_not.1 herr)]
    refine BitVec.eq_of_getLsbD_eq fun i hi => ?_
    simp [Card.exec, sendRelativeAddr, goIdleState, hi]

theorem selectCard_ok (hrca : s.card.rca = s.rca.setWidth 16) (h : (hgicSdioSelectCard k e s).1 = 0) :
    (hgicSdioSelectCard k e s).2.card.selected = true := by
  have hnum : (s.rca <<< 16).extractLsb' 16 16 = s.rca.setWidth 16 := by
    refine BitVec.eq_of_getLsbD_eq fun i hi => ?_
    simp only [BitVec.getLsbD_extractLsb', BitVec.getLsbD_shiftLeft, BitVec.getLsbD_setWidth]
    grind
  unfold hgicSdioSelectCard at h ⊢
  dsimp only at h ⊢
  rw [sendCmd_ok (by decide) _ s h]
  simp [Card.exec, selectCard, sendRelativeAddr, goIdleState, hnum, hrca]

theorem negative_eq_zero {err : Int} : negative err = 0 ↔ 0 ≤ err := by
  unfold negative
  split <;> omega

theorem r5Error_bounds (k : SdioFunc) (resp0 : BitVec 32) : -2147483648 ≤ r5Error k resp0 ∧ r5Error k resp0 ≤ 0 := by
  unfold r5Error
  split_ifs <;> decide

theorem ofInt_ne {err : Int} (h : -2147483648 ≤ err) (hneg : err < 0) :
    BitVec.ofInt 32 err ≠ 0 ∧ BitVec.ofInt 32 err ≠ 1 := by
  have htoInt : (BitVec.ofInt 32 err).toInt = err := by
    rw [BitVec.toInt_ofInt]
    exact Int.bmod_eq_of_le (by omega) (by omega)
  refine ⟨fun h0 => ?_, fun h1 => ?_⟩
  · rw [h0, show (0 : BitVec 32).toInt = 0 from rfl] at htoInt
    omega
  · rw [h1, show (1 : BitVec 32).toInt = 1 from rfl] at htoInt
    omega

theorem ioRw_bounds (k : SdioFunc) (e : Env) (write : Bool) (fn a : Nat) (inp : Byte) (out : Bool) (s : State) :
    -2147483648 ≤ (hgicMmcIoRwDirect k e write fn a inp out s).1.1 ∧
      (hgicMmcIoRwDirect k e write fn a inp out s).1.1 ≤ 0 := by
  have hreply : ∀ cmd, -2147483648 ≤ (sendCmd k e cmd s).1.err ∧ (sendCmd k e cmd s).1.err ≤ 0 := fun cmd =>
    ⟨(sendCmd k e cmd s).1.le_err, (sendCmd k e cmd s).1.err_le⟩
  unfold hgicMmcIoRwDirect
  split
  · exact (by decide : -2147483648 ≤ (-22 : Int) ∧ (-22 : Int) ≤ 0)
  · dsimp only
    split
    · exact hreply _
    · exact r5Error_bounds k _

theorem ioModify_bounds (k : SdioFunc) (e : Env) (a : Nat) (f : Byte → Byte) (s : State) :
    -2147483648 ≤ (ioModify k e a f s).1 ∧ (ioModify k e a f s).1 ≤ 0 := by
  unfold ioModify
  dsimp only
  split
  · exact ioRw_bounds k e _ _ _ _ _ _
  · exact ioRw_bounds k e _ _ _ _ _ _

theorem disableCd_cases (k : SdioFunc) (e : Env) (s : State) : SameBut sdioCccrIf s (hgicSdioDisableCd k e s).2 ∧
    (hgicSdioDisableCd k e s).2.card.busIf &&& 3 = s.card.busIf &&& 3 := by
  unfold hgicSdioDisableCd
  split
  · exact ⟨⟨rfl, rfl, rfl, rfl, fun _ => rfl, fun _ => rfl, fun _ => rfl⟩, rfl⟩
  · obtain ⟨n, -, c, hstate, hcard, -⟩ := ioModify_cases k e (by decide : sdioCccrIf < 0x20000)
      (fun ctrl => ctrl ||| 0x80) s
    rw [hstate]
    refine ⟨SameBut.of_write (by decide) hcard n, ?_⟩
    rcases hcard with rfl | rfl
    · have hbits : ∀ ctrl : Byte, (ctrl ||| 0x80) &&& 3 = ctrl &&& 3 := by
        intro ctrl
        rw [BitVec.and_or_distrib_right]
        simp
      exact hbits _
    · rfl

theorem setHighspeed_cases (k : SdioFunc) (e : Env) (s : State) :
    let r := hgicSdioSetHighspeed k e s
    r = (0, s) ∧ ¬(k.hostHighspeed = true ∧ k.cccrHighspeed = true) ∨
      k.hostHighspeed = true ∧ k.cccrHighspeed = true ∧
        ∃ n c, SameBut sdioCccrSpeed s { s with clock := n, card := c } ∧
          (r.1 ≠ 0 ∧ r.1 ≠ 1 ∧ r.2 = { s with clock := n, card := c } ∨
          r = (1, { s with clock := n, card := c, host.highspeed := true }) ∧ c.speed.getLsbD 1 = true) := by
  dsimp only
  unfold hgicSdioSetHighspeed
  split
  · next hhost => exact .inl ⟨rfl, fun hboth => by simp [hboth.1] at hhost⟩
  · next hhost =>
    split
    · next hcard => exact .inl ⟨rfl, fun hboth => by simp [hboth.2] at hcard⟩
    · next hcccr =>
      obtain ⟨n, -, c, hstate, hcard, hok⟩ := ioModify_cases k e (by decide : sdioCccrSpeed < 0x20000)
        (fun speed => speed ||| 0x02) s
      have herr := ioModify_bounds k e sdioCccrSpeed (fun speed => speed ||| 0x02) s
      refine .inr ⟨by simpa using hhost, by simpa using hcccr, n, c, SameBut.of_write (by decide) hcard n, ?_⟩
      dsimp only
      split
      · next hne =>
        obtain ⟨hne0, hne1⟩ := ofInt_ne herr.1 (by omega)
        exact .inl ⟨hne0, hne1, hstate⟩
      · next hzero =>
        rw [hstate, hok (not_not.1 hzero)]
        refine .inr ⟨rfl, ?_⟩
        simp [Card.write, sdioCccrSpeed, sdioCccrIenx, sdioCccrIf]

theorem setWireWidth_cases (k : SdioFunc) (e : Env) (s : State) :
    let r := hgicSdioSetWireWidth k e s
    r = (0, s) ∧ k.wide = false ∨
      k.wide = true ∧ ∃ n c, SameBut sdioCccrIf s { s with clock := n, card := c } ∧
        (r.1 < 0 ∧ r.2 = { s with clock := n, card := c } ∨
          r = (1, { s with clock := n, card := c, host.width4 := true }) ∧ c.busIf &&& 3 = 2) := by
  dsimp only
  unfold hgicSdioSetWireWidth SdioFunc.wide
  split
  · next h4 => exact .inl ⟨rfl, by simp_all⟩
  · next h4 =>
    split
    · next hwide => exact .inl ⟨rfl, by simp [hwide]⟩
    · next hwide =>
      obtain ⟨n, -, c, hstate, hcard, hok⟩ := ioModify_cases k e (by decide : sdioCccrIf < 0x20000)
        (fun ctrl => ctrl &&& ~~~0x03 ||| 0x02) s
      have herr := ioModify_bounds k e sdioCccrIf (fun ctrl => ctrl &&& ~~~0x03 ||| 0x02) s
      refine .inr ⟨by simp_all, n, c, SameBut.of_write (by decide) hcard n, ?_⟩
      dsimp only
      split
      · next hne => exact .inl ⟨by omega, hstate⟩
      · next hzero =>
        rw [hstate, hok (not_not.1 hzero)]
        refine .inr ⟨rfl, ?_⟩
        have hbits : ∀ ctrl : Byte, (ctrl &&& ~~~0x03 ||| 0x02) &&& 3 = 2 := by
          intro ctrl
          rw [BitVec.and_or_distrib_right, BitVec.and_assoc]
          simp
        exact hbits _

theorem intEnable_cases (k : SdioFunc) (e : Env) (s : State) : SameBut sdioCccrIenx s (hgicSdioIntEnable k e s).2 ∧
    ((hgicSdioIntEnable k e s).1 = 0 → (hgicSdioIntEnable k e s).2.card.intEnable = 1#8 <<< k.fNum ||| 1) := by
  obtain ⟨c, hstate, hcard, hok⟩ := ioRw_write k e (by decide : sdioCccrIenx < 0x20000) (1#8 <<< k.fNum ||| 1) true s
  unfold hgicSdioIntEnable
  dsimp only
  rw [hstate]
  refine ⟨SameBut.of_write (by decide) hcard _, fun h0 => ?_⟩
  rw [hok h0]
  rfl

theorem Inv.sameBut (hi : Inv k s) (hs : SameBut a s t) (hbus : t.card.busIf &&& 3 = s.card.busIf &&& 3) : Inv k t := by
  refine ⟨fun hw => ?_, fun hhigh => ?_⟩
  · rw [hbus]
    exact hi.busIf hw
  · rw [hs.host] at hhigh
    exact hi.highspeed hhigh

theorem Fresh.sameBut (hf : Fresh k s) (hs : SameBut a s t) (hbus : t.card.busIf &&& 3 = s.card.busIf &&& 3) :
    Fresh k t := by
  refine ⟨hf.inv.sameBut hs hbus, ?_, ?_⟩
  · rw [hs.host]
    exact hf.width4
  · rw [hs.host]
    exact hf.timingHs

theorem opCond_fresh (e : Env) (ocr : BitVec 32) (hf : Fresh k s) : Fresh k (hgicSendIoOpCond k e ocr s).2 :=
  (opCond_sameRegs k e ocr 10 0 0 s).kept.fresh hf

theorem attach_takes (k : SdioFunc) (e : Env) : Takes (part k e) (Fresh k)
    (if k.isSpi then [.spiCrc] else [.cardAddr, .selectCard, .disableCd]) (fun s => Fresh k s ∧ Attached k s) := by
  cases hspi : k.isSpi with
  | true =>
    refine .cons (fun s hf hok => ⟨(spiSetCrc_kept k e true s).fresh hf, fun _ => spiSetCrc_ok hok, fun hbus => ?_⟩)
      (.nil fun _ => id)
    rw [hspi] at hbus
    cases hbus
  | false =>
    refine .cons (Q := fun s => Fresh k s ∧ s.card.rca = s.rca.setWidth 16)
      (fun s hf hok => ⟨(getCardAddr_sameRegs k e s).kept.fresh hf, getCardAddr_ok hok⟩)
      (.cons (Q := fun s => Fresh k s ∧ Attached k s) (fun s hf hok => ?_)
        (.cons (fun s hf _ => ?_) (.nil fun _ => id)))
    · refine ⟨(selectCard_sameRegs k e s).kept.fresh hf.1, fun hbus => ?_, fun _ => selectCard_ok hf.2 hok⟩
      rw [hspi] at hbus
      cases hbus
    · obtain ⟨hs, hbus⟩ := disableCd_cases k e s
      exact ⟨hf.1.sameBut hs hbus, hf.2.sameBut hs⟩

/-- High speed ends as set in the card, as not asked for, or as a failure that is not noticed. -/
theorem part_highspeed (e : Env) (hf : Fresh k s) (ha : Attached k s) :
    Fresh k (part k e .highspeed s).2 ∧ Attached k (part k e .highspeed s).2 ∧ Fast (part k e .highspeed s).2 := by
  rcases setHighspeed_cases k e s with ⟨hr, hno⟩ | ⟨hhost, hcccr, n, c, hs, hr⟩
  · unfold part
    dsimp only
    rw [hr]
    refine ⟨⟨⟨hf.inv.busIf, hf.inv.highspeed⟩, hf.width4, hf.timingHs⟩, ⟨ha.crc, ha.selected⟩, fun hhigh => ?_⟩
    exact absurd (hf.inv.highspeed hhigh) hno
  · have hbus := hs.busIf (by decide)
    have hinv : ∀ speedRet host, Inv k { s with clock := n, card := c, speedRet := speedRet, host := host } := by
      refine fun speedRet host => ⟨fun hw => ?_, fun _ => ⟨hhost, hcccr⟩⟩
      rw [← hf.inv.busIf hw, ← hbus]
    have hatt := ha.sameBut hs
    unfold part
    dsimp only
    rcases hr with ⟨hne0, hne1, hstate⟩ | ⟨hr, hspeed⟩
    · rw [hstate]
      exact ⟨⟨hinv _ _, hf.width4, hf.timingHs⟩, ⟨hatt.crc, hatt.selected⟩, fun _ => .inr ⟨hne0, hne1⟩⟩
    · rw [hr]
      exact ⟨⟨hinv _ _, hf.width4, hf.timingHs⟩, ⟨hatt.crc, hatt.selected⟩, fun _ => .inl hspeed⟩

/-- `mmc_card_hs` reads the timing, which is the old one until the clock is set. -/
theorem part_busClock (e : Env) (hf : Fresh k s) (ha : Attached k s) (hfast : Fast s) :
    Clocked k (part k e .busClock s).2 ∧ (part k e .busClock s).2.host.width4 = false ∧
      (part k e .busClock s).2.card = s.card := by
  refine ⟨⟨⟨hf.inv.busIf, hf.inv.highspeed⟩, ⟨ha.crc, ha.selected⟩, hfast, ?_⟩, hf.width4, rfl⟩
  have hspeed : cardHighspeed k s.host = (k.flagged && s.host.highspeed) := by
    unfold cardHighspeed
    cases k.flagged with
    | true => rfl
    | false => exact hf.timingHs
  show (if k.fMax ≠ 0 ∧ k.fMax < (if cardHighspeed k s.host then 50000000 else k.maxClock) then k.fMax
    else if cardHighspeed k s.host then 50000000 else k.maxClock) = k.clockOf s.host.highspeed
  rw [hspeed]
  rfl

theorem Clocked.sameBut (hc : Clocked k s) (hs : SameBut a s t) (ha : a ≠ sdioCccrSpeed)
    (hbus : t.card.busIf &&& 3 = s.card.busIf &&& 3) : Clocked k t := by
  refine ⟨hc.inv.sameBut hs hbus, hc.attached.sameBut hs, hc.fast.sameBut hs ha, ?_⟩
  rw [hs.host]
  exact hc.hz

/-- The width of a host that has just been set up is 1, and that of the card as well unless it is written. -/
theorem setWireWidth_wired (e : Env) (hc : Clocked k s) (hw : s.host.width4 = false)
    (hok : 0 ≤ (hgicSdioSetWireWidth k e s).1) : Wired k (hgicSdioSetWireWidth k e s).2 := by
  rcases setWireWidth_cases k e s with ⟨hr, hwide⟩ | ⟨hwide, n, c, hs, ⟨hneg, -⟩ | ⟨hr, h4⟩⟩
  · rw [hr]
    refine ⟨hc, ?_⟩
    rw [hw, hc.inv.busIf hwide]
    decide
  · omega
  · have hatt := hc.attached.sameBut hs
    have hfast := hc.fast.sameBut hs (by decide)
    rw [hr]
    refine ⟨⟨⟨fun hno => ?_, hc.inv.highspeed⟩, ⟨hatt.crc, hatt.selected⟩, hfast, hc.hz⟩, ?_⟩
    · rw [hwide] at hno
      cases hno
    · exact ⟨fun _ => h4, fun _ => rfl⟩

theorem Wired.sameBut (hw : Wired k s) (hs : SameBut a s t) (ha : a ≠ sdioCccrSpeed)
    (hbus : t.card.busIf = s.card.busIf) : Wired k t := by
  refine ⟨hw.toClocked.sameBut hs ha (by rw [hbus]), ?_⟩
  rw [hs.host, hbus]
  exact hw.width

theorem Agrees.of_wired (hw : Wired k s) (hok : (hgicSdioIntEnable k e s).1 = 0) :
    Agrees k (hgicSdioIntEnable k e s).2 := by
  obtain ⟨hs, hint⟩ := intEnable_cases k e s
  exact ⟨hw.sameBut hs (by decide) (hs.busIf (by decide)), hint hok⟩

theorem parts_takes (k : SdioFunc) (e : Env) : Takes (part k e) (Inv k) (parts k) (Agrees k) := by
  have hvoltage : Takes (part k e) (Inv k) [.setup, .probe, .opCond] (Fresh k) :=
    .cons (fun s hi _ => part_setup e hi) (.cons (fun s hf _ => opCond_fresh e 0 hf)
      (.cons (fun s hf _ => opCond_fresh e s.ocr hf) (.nil fun _ => id)))
  have hspeed : Takes (part k e) (fun s => Fresh k s ∧ Attached k s) [.highspeed, .busClock]
      (fun s => Clocked k s ∧ s.host.width4 = false) :=
    .cons (Q := fun s => Fresh k s ∧ Attached k s ∧ Fast s) (fun s hf _ => part_highspeed e hf.1 hf.2)
      (.cons (fun s hf _ => ⟨(part_busClock e hf.1 hf.2.1 hf.2.2).1, (part_busClock e hf.1 hf.2.1 hf.2.2).2.1⟩)
        (.nil fun _ => id))
  have hwidth : Takes (part k e) (fun s => Clocked k s ∧ s.host.width4 = false) [.wireWidth, .blockSize] (Wired k) :=
    .cons (Q := Wired k) (fun s hc hok => setWireWidth_wired e hc.1 hc.2 (negative_eq_zero.1 hok))
      (.cons (fun s hw _ => ⟨⟨⟨hw.inv.busIf, hw.inv.highspeed⟩, ⟨hw.attached.crc, hw.attached.selected⟩,
        hw.fast, hw.hz⟩, hw.width⟩) (.nil fun _ => id))
  have hfunc : Takes (part k e) (Wired k) [.intEnable, .enableFunc] (Agrees k) :=
    .cons (Q := Agrees k) (fun s hw hok => Agrees.of_wired hw hok)
      (.cons (fun s hg _ => ⟨⟨⟨⟨hg.inv.busIf, hg.inv.highspeed⟩, ⟨hg.attached.crc, hg.attached.selected⟩,
        hg.fast, hg.hz⟩, hg.width⟩, hg.intEnable⟩) (.nil fun _ => id))
  exact (hvoltage.append (attach_takes k e)).append (hspeed.append (hwidth.append hfunc))

/-! ## Whatever fails -/

theorem part_inv (k : SdioFunc) (e : Env) (p : Part) (hi : Inv k s) : Inv k (part k e p s).2 := by
  cases p with
  | setup => exact (part_setup e hi).inv
  | probe => exact (opCond_sameRegs k e 0 10 0 0 s).kept.inv hi
  | opCond => exact (opCond_sameRegs k e s.ocr 10 0 0 s).kept.inv hi
  | spiCrc => exact (spiSetCrc_kept k e true s).inv hi
  | cardAddr => exact (getCardAddr_sameRegs k e s).kept.inv hi
  | selectCard => exact (selectCard_sameRegs k e s).kept.inv hi
  | disableCd =>
    obtain ⟨hs, hbus⟩ := disableCd_cases k e s
    exact hi.sameBut hs hbus
  | highspeed =>
    rcases setHighspeed_cases k e s with ⟨hr, -⟩ | ⟨hhost, hcccr, n, c, hs, hr⟩
    · unfold part
      dsimp only
      rw [hr]
      exact ⟨hi.busIf, hi.highspeed⟩
    · have hbus : c.busIf = s.card.busIf := hs.busIf (by decide)
      unfold part
      dsimp only
      rcases hr with ⟨-, -, hstate⟩ | ⟨hr, -⟩
      · rw [hstate]
        exact ⟨fun hw => hbus ▸ hi.busIf hw, fun _ => ⟨hhost, hcccr⟩⟩
      · rw [hr]
        exact ⟨fun hw => hbus ▸ hi.busIf hw, fun _ => ⟨hhost, hcccr⟩⟩
  | busClock => exact ⟨hi.busIf, hi.highspeed⟩
  | wireWidth =>
    unfold part
    dsimp only
    rcases setWireWidth_cases k e s with ⟨hr, -⟩ | ⟨hwide, n, c, -, ⟨-, hstate⟩ | ⟨hr, -⟩⟩
    · rw [hr]
      exact hi
    · rw [hstate]
      exact ⟨fun hno => (by rw [hwide] at hno; cases hno), hi.highspeed⟩
    · rw [hr]
      exact ⟨fun hno => (by rw [hwide] at hno; cases hno), hi.highspeed⟩
  | blockSize => exact ⟨hi.busIf, hi.highspeed⟩
  | intEnable =>
    obtain ⟨hs, -⟩ := intEnable_cases k e s
    exact hi.sameBut hs (congrArg (· &&& 3) (hs.busIf (by decide)))
  | enableFunc => exact ⟨hi.busIf, hi.highspeed⟩

end Parts

/-! ## All tries -/

section Tries
variable {k : SdioFunc} {e : Env} {s : State}

theorem retryLoop_agrees (n : Nat) (hi : Inv k s) : Inv k (retryLoop k e n s).2 ∧
    ((retryLoop k e n s).1 = 0 → Agrees k (retryLoop k e n s).2) := by
  induction n generalizing s with
  | zero => exact ⟨hi, fun h => by cases h⟩
  | succ n ih =>
    have htry : Inv k { s with tries := s.tries ++ [s.clock] } := ⟨hi.busIf, hi.highspeed⟩
    have hparts : Inv k (untilErr (part k e) (parts k) { s with tries := s.tries ++ [s.clock] }).2 :=
      untilErr_keeps (P := Inv k) (fun p _ t ht => part_inv k e p ht) htry
    rw [retryLoop]
    split
    · exact ⟨hi, fun h => by cases h⟩
    · dsimp only
      split
      · next hok => exact ⟨hparts, fun _ => parts_takes k e htry hok⟩
      · exact ih hparts

/-- Whatever the bus and the card do: when `hgic_sdio_reinit_card` returns 0, host and card agree on CRCs, address, bus
width, interrupts and clock. Of the speed this is known only when `hgic_sdio_set_highspeed` has not failed. -/
theorem reinit_agrees (hi : Inv k s) : Inv k (hgicSdioReinitCard k e s).2 ∧
    ((hgicSdioReinitCard k e s).1 = 0 → Agrees k (hgicSdioReinitCard k e s).2) :=
  retryLoop_agrees 3 hi

/-- A card on a 4-bit bus that was at high speed and has lost its power. -/
def lost : State :=
  ⟨0, ⟨true, true, 50000000, 64, false, true⟩, ⟨0, 0, 0, false, 0, false⟩, 0, 0, 0, []⟩

/-- Every command succeeds, but the one at access `n` times out. -/
def timeoutAt (n : Nat) : Env :=
  ⟨fun i => if i = n then ⟨-110, by decide, by decide, 0, 0, false⟩
      else ⟨0, by decide, by decide, 0x80000000, 0, false⟩,
    fun _ => 0, fun _ => 0, fun _ => false⟩

def fastFunc : SdioFunc := ⟨1, false, true, true, true, false, false, true, 25000000, 0⟩

theorem lost_inv : Inv fastFunc lost := ⟨fun _ => rfl, fun _ => ⟨rfl, rfl⟩⟩

theorem reinit_agrees_fast : Agrees fastFunc (hgicSdioReinitCard fastFunc (timeoutAt 100) lost).2 :=
  (reinit_agrees (e := timeoutAt 100) lost_inv).2 (by decide)

/-- The result of `hgic_sdio_set_highspeed` is unsigned: where it fails a second initialization leaves the clock at
50 MHz, and the card at the default speed. -/
example : (hgicSdioReinitCard fastFunc (timeoutAt 10) lost).1 = 0 ∧
    (hgicSdioReinitCard fastFunc (timeoutAt 10) lost).2.host.hz = 50000000 ∧
    (hgicSdioReinitCard fastFunc (timeoutAt 10) lost).2.card.speed.getLsbD 1 = false := by
  decide

end Tries

/-- `n` calls into the MMC layer at most, within one try. -/
structure Costs (n : Nat) (s t : State) : Prop where
  tries : t.tries = s.tries
  le_clock : s.clock ≤ t.clock
  clock_le : t.clock ≤ s.clock + n

/-- The calls into the MMC layer of a part, at most: `sdio_set_block_size` and `sdio_enable_func` are one each, and so
is a command that is sent again. -/
def Part.cost : Part → Nat
  | .setup => 6
  | .opCond => 10
  | .disableCd | .highspeed | .wireWidth => 2
  | .busClock => 0
  | .probe | .spiCrc | .cardAddr | .selectCard | .blockSize | .intEnable | .enableFunc => 1

section Costs
variable {k : SdioFunc} {e : Env} {s t u : State} {m n : Nat}

theorem Costs.trans (h : Costs m s t) (h' : Costs n t u) : Costs (m + n) s u :=
  ⟨h'.tries.trans h.tries, Nat.le_trans h.le_clock h'.le_clock, by have := h.clock_le; have := h'.clock_le; omega⟩

theorem Costs.mono (h : Costs m s t) (hn : m ≤ n) : Costs n s t :=
  ⟨h.tries, h.le_clock, Nat.le_trans h.clock_le (Nat.add_le_add_left hn _)⟩

theorem Costs.refl (n : Nat) (s : State) : Costs n s s := ⟨rfl, Nat.le_refl _, Nat.le_add_right _ _⟩

theorem sendCmd_costs (k : SdioFunc) (e : Env) (cmd : Cmd) (s : State) : Costs 1 s (sendCmd k e cmd s).2 :=
  ⟨rfl, Nat.le_succ _, Nat.le_refl _⟩

theorem ioRw_costs (k : SdioFunc) (e : Env) (write : Bool) (fn a : Nat) (inp : Byte) (out : Bool) (s : State) :
    Costs 1 s (hgicMmcIoRwDirect k e write fn a inp out s).2 := by
  unfold hgicMmcIoRwDirect
  split
  · exact .refl 1 s
  · exact sendCmd_costs k e _ s

theorem ioModify_costs (k : SdioFunc) (e : Env) (a : Nat) (f : Byte → Byte) (s : State) :
    Costs 2 s (ioModify k e a f s).2 := by
  have hread := ioRw_costs k e false 0 a 0 true s
  unfold ioModify
  dsimp only
  split
  · exact hread.mono (by decide)
  · exact hread.trans (ioRw_costs k e true 0 a _ false _)

theorem opCond_costs (k : SdioFunc) (e : Env) (ocr : BitVec 32) (i : Nat) (err : Int) (resp : BitVec 32) (s : State) :
    Costs i s (opCondLoop k e ocr i err resp s).2 := by
  induction i generalizing err resp s with
  | zero => exact ⟨rfl, Nat.le_refl _, Nat.le_refl _⟩
  | succ i ih =>
    have hleft : ∀ ocr', Costs (i + 1) s { (sendCmd k e ⟨ioSendOpCond, ocr⟩ s).2 with ocr := ocr' } := fun _ =>
      ⟨rfl, Nat.le_succ _, Nat.add_le_add_left (Nat.le_add_left 1 i) _⟩
    rw [opCondLoop]
    dsimp only
    generalize (if k.isSpi then _ else _ : BitVec 32) = resp'
    split
    · exact hleft _
    · split
      · exact hleft _
      · split
        · exact hleft _
        · exact ((sendCmd_costs k e _ s).trans (ih _ _ _)).mono (Nat.le_of_eq (Nat.add_comm 1 i))

/-- Without a voltage it is asked once. -/
theorem probe_costs (k : SdioFunc) (e : Env) (s : State) : Costs 1 s (hgicSendIoOpCond k e 0 s).2 := by
  rw [hgicSendIoOpCond, opCondLoop]
  dsimp only
  split <;> exact ⟨rfl, Nat.le_succ _, Nat.le_refl _⟩

theorem getCardAddr_costs (k : SdioFunc) (e : Env) (s : State) : Costs 1 s (hgicSdioGetCardAddr k e s).2 := by
  unfold hgicSdioGetCardAddr
  dsimp only
  split <;> exact ⟨rfl, Nat.le_succ _, Nat.le_refl _⟩

theorem part_costs (k : SdioFunc) (e : Env) (p : Part) (s : State) : Costs p.cost s (part k e p s).2 := by
  cases p with
  | setup =>
    have hset : Costs 0 s { hgicMmcSetClock k 400000 { s with ocr := 0, rca := 0 } with
        host.timingHs := false, host.width4 := false } := ⟨rfl, Nat.le_refl _, Nat.le_refl _⟩
    unfold part
    dsimp only
    generalize ({ hgicMmcSetClock k 400000 { s with ocr := 0, rca := 0 } with
        host.timingHs := false, host.width4 := false } : State) = s0 at hset ⊢
    have hselect : Costs 2 s0 (if (hgicSdioGetCardAddr k e s0).1 = 0 then
        (hgicSdioSelectCard k e (hgicSdioGetCardAddr k e s0).2).2 else (hgicSdioGetCardAddr k e s0).2) := by
      have haddr := getCardAddr_costs k e s0
      split
      · exact haddr.trans (sendCmd_costs k e _ _)
      · exact haddr.mono (by decide)
    generalize (if (hgicSdioGetCardAddr k e s0).1 = 0 then
        (hgicSdioSelectCard k e (hgicSdioGetCardAddr k e s0).2).2 else (hgicSdioGetCardAddr k e s0).2) = s1 at hselect ⊢
    have hreset : Costs 2 s1 (hgicSdioReset k e s1).2 :=
      (ioRw_costs k e false 0 sdioCccrAbort 0 true s1).trans (ioRw_costs k e true 0 sdioCccrAbort _ false _)
    generalize (hgicSdioReset k e s1).2 = s2 at hreset ⊢
    have hidle : Costs 1 s2 (hgicSdioGoIdle k e s2).2 := ⟨rfl, Nat.le_succ _, Nat.le_refl _⟩
    exact (((hset.trans hselect).trans hreset).trans hidle).trans (sendCmd_costs k e _ _)
  | probe => exact probe_costs k e s
  | opCond => exact opCond_costs k e s.ocr 10 0 0 s
  | spiCrc =>
    have hsend := sendCmd_costs k e ⟨spiCrcOnOff, 1⟩ s
    show Costs 1 s (hgicMmcSpiSetCrc k e true s).2
    rw [hgicMmcSpiSetCrc, if_pos rfl]
    dsimp only
    split
    · exact ⟨hsend.tries, hsend.le_clock, hsend.clock_le⟩
    · exact hsend
  | cardAddr => exact getCardAddr_costs k e s
  | selectCard => exact sendCmd_costs k e _ s
  | disableCd =>
    unfold part hgicSdioDisableCd
    dsimp only
    split
    · exact .refl 2 s
    · exact ioModify_costs k e _ _ s
  | highspeed =>
    have hmodify := ioModify_costs k e sdioCccrSpeed (fun speed => speed ||| 0x02) s
    unfold part hgicSdioSetHighspeed
    dsimp only
    split_ifs <;> first
      | exact ⟨rfl, Nat.le_refl _, Nat.le_add_right _ _⟩
      | exact ⟨hmodify.tries, hmodify.le_clock, hmodify.clock_le⟩
  | busClock => exact ⟨rfl, Nat.le_refl _, Nat.le_refl _⟩
  | wireWidth =>
    have hmodify := ioModify_costs k e sdioCccrIf (fun ctrl => ctrl &&& ~~~0x03 ||| 0x02) s
    unfold part hgicSdioSetWireWidth
    dsimp only
    split_ifs <;> first
      | exact .refl 2 s
      | exact ⟨hmodify.tries, hmodify.le_clock, hmodify.clock_le⟩
  | blockSize => exact ⟨rfl, Nat.le_succ _, Nat.le_refl _⟩
  | intEnable => exact ioRw_costs k e true 0 sdioCccrIenx _ true s
  | enableFunc => exact ⟨rfl, Nat.le_succ _, Nat.le_refl _⟩

theorem untilErr_costs (k : SdioFunc) (e : Env) : ∀ (ps : List Part) (s : State),
    Costs (ps.map Part.cost).sum s (untilErr (part k e) ps s).2
  | [], s => .refl 0 s
  | p :: ps, s => by
    have hp := part_costs k e p s
    rw [List.map_cons, List.sum_cons, untilErr]
    split
    · exact hp.trans (untilErr_costs k e ps _)
    · exact hp.mono (Nat.le_add_right _ _)

theorem parts_cost_le (k : SdioFunc) : ((parts k).map Part.cost).sum ≤ 28 := by
  unfold parts
  cases k.isSpi <;> decide

theorem retryLoop_tries (k : SdioFunc) (e : Env) (n : Nat) (s : State) :
    let r := retryLoop k e n s
    ∃ new, r.2.tries = s.tries ++ new ∧ new.length ≤ n ∧ (∀ c ∈ new, e.disabled c = false) ∧
      r.2.clock ≤ s.clock + 28 * new.length ∧ (r.1 = 0 → new ≠ []) ∧
      (r.1 ≠ 0 → r.1 = -1 ∧ (new.length < n → e.disabled r.2.clock = true)) := by
  induction n generalizing s with
  | zero => exact ⟨[], by simp [retryLoop]⟩
  | succ n ih =>
    dsimp only at ih ⊢
    rw [retryLoop]
    split
    · next hdis => exact ⟨[], by simp [hdis]⟩
    · next hdis =>
      have hcost := (untilErr_costs k e (parts k) { s with tries := s.tries ++ [s.clock] }).mono (parts_cost_le k)
      have htries := hcost.tries
      have hclock := hcost.clock_le
      dsimp only at htries hclock ⊢
      split
      · next hok =>
        exact ⟨[s.clock], htries, by simp, by simpa using hdis, by simpa using hclock, by simp, by simp [hok]⟩
      · obtain ⟨new, hnew, hlen, hdisabled, hle, hne, hfail⟩ :=
          ih (untilErr (part k e) (parts k) { s with tries := s.tries ++ [s.clock] }).2
        refine ⟨s.clock :: new, ?_, by simpa using hlen, ?_, ?_, by simp, fun hret => ?_⟩
        · rw [hnew, htries, List.append_assoc]
          rfl
        · intro c hc
          rcases List.mem_cons.1 hc with rfl | hc
          · simpa using hdis
          · exact hdisabled c hc
        · rw [List.length_cons]
          omega
        · obtain ⟨h1, h2⟩ := hfail hret
          exact ⟨h1, fun hlt => h2 (by simpa using hlt)⟩

/-- At most three tries of at most 28 calls into the MMC layer, each begun while neither DISABLE_REINIT nor SLEEP is
set. Without success the result is -1, behind three tries or at the first of the flags. -/
theorem reinit_tries (k : SdioFunc) (e : Env) (s : State) :
    let r := hgicSdioReinitCard k e s
    ∃ new, r.2.tries = s.tries ++ new ∧ new.length ≤ 3 ∧ (∀ c ∈ new, e.disabled c = false) ∧
      r.2.clock ≤ s.clock + 28 * new.length ∧ (r.1 = 0 → new ≠ []) ∧
      (r.1 ≠ 0 → r.1 = -1 ∧ (new.length < 3 → e.disabled r.2.clock = true)) :=
  retryLoop_tries k e 3 s

end Costs

end HgicFmac.Reinit
