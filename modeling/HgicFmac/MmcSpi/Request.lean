import HgicFmac.MmcSpi.WriteStage

/-!
# Requests

* `Ended` : what a command leaves behind, whatever the card answers (`commandSend_ended`);
* `request_releases` : the chip select behind a request;
* `request_write` : what the card has been sent when a request that writes has no error, however often it was repeated.
-/

namespace HgicFmac.MmcSpi
open Lib

variable {e : Bus}

/-! ## Commands -/

/-- The last message failed, and left the chip select active. -/
def LeftActive (e : Bus) (h : Host) : Prop := ∃ n x, h.messages = n + 1 ∧ e.fails n = some (x, true)

/-- The end of a command `cmd`, with its status, the command afterwards and the state. -/
structure Ended (e : Bus) (cmd : Cmd) (csOn : Bool) (r : Int × Cmd × Host) : Prop where
  opcode : r.2.1.opcode = cmd.opcode
  arg : r.2.1.arg = cmd.arg
  error : r.2.1.error = r.1
  status : r.1 ≤ 0
  cs : ¬ (csOn = true ∧ r.1 = 0) → r.2.2.cs = false ∨ LeftActive e r.2.2

/-- The command `cmd'` is `cmd` with other response words. -/
structure Answered (cmd cmd' : Cmd) : Prop where
  opcode : cmd'.opcode = cmd.opcode
  arg : cmd'.arg = cmd.arg
  error : cmd'.error = 0

section Response
variable {cmd cmd' : Cmd} {csOn : Bool} {h : Host}

theorem responseDone_ended {value : Int} (hneg : value < 0) (hop : cmd'.opcode = cmd.opcode)
    (harg : cmd'.arg = cmd.arg) : Ended e cmd csOn (responseDone value cmd' h) := by
  rw [responseDone, if_pos hneg]
  exact ⟨hop, harg, rfl, Int.le_of_lt hneg, fun _ => .inl rfl⟩

theorem responseEnd_ended {value : Int} (hle : value ≤ 0) (ha : Answered cmd cmd') :
    Ended e cmd csOn (responseEnd csOn value cmd' h) := by
  rw [responseEnd]
  by_cases hneg : value < 0
  · rw [if_neg (fun hand => absurd hneg (Int.not_lt.2 hand.1))]
    exact responseDone_ended hneg ha.opcode ha.arg
  · obtain rfl : value = 0 := by omega
    by_cases hon : csOn = true
    · rw [if_pos ⟨Int.le_refl 0, hon⟩]
      exact ⟨ha.opcode, ha.arg, ha.error, Int.le_refl 0, fun hoff => absurd ⟨hon, rfl⟩ hoff⟩
    · rw [if_neg (fun hand => hon hand.2), responseDone, if_neg hneg]
      exact ⟨ha.opcode, ha.arg, ha.error, Int.le_refl 0, fun _ => .inl rfl⟩

theorem responseBytes_value (e : Bus) (bitshift n : Nat) (rotator : BitVec 16) (cp : List Byte) (resp1 : BitVec 32)
    {value : Int} (hle : value ≤ 0) (h : Host) :
    let r := responseBytes e bitshift n rotator cp resp1 value h
    r.1 ≤ 0 ∧ (r.2.2.1 = false → r.1 < 0) := by
  induction n generalizing rotator cp resp1 value h with
  | zero => exact ⟨hle, nofun⟩
  | succ n ih =>
    rw [responseBytes]
    split
    · next x h1 heq => exact ⟨Int.le_of_lt x.2, fun _ => x.2⟩
    · exact ih _ _ _ (by split <;> omega) _

theorem responseRest_ended (e : Bus) (csOn : Bool) {cmd cmd' : Cmd} (ha : Answered cmd cmd') (a : Aligned) (h : Host) :
    Ended e cmd csOn (responseRest e csOn cmd' a h) := by
  have hle := statusValue_le a.resp0
  rw [responseRest]
  dsimp only
  split
  · exact responseEnd_ended hle ha
  · exact responseEnd_ended hle ha
  · split
    · next x h1 heq => exact responseDone_ended x.2 ha.opcode ha.arg
    · exact responseEnd_ended (by split <;> omega) ⟨ha.opcode, ha.arg, ha.error⟩
  · have hvalue := responseBytes_value e a.bitshift 4 (a.leftover.setWidth 16 <<< 8) a.cp 0 hle h
    split
    · exact responseEnd_ended hvalue.1 ⟨ha.opcode, ha.arg, ha.error⟩
    · next hok => exact responseDone_ended (hvalue.2 (by simpa using hok)) ha.opcode ha.arg
  · refine responseDone_ended ?_ ha.opcode ha.arg
    split
    · exact einval.2
    · omega

end Response

theorem commandSend_ended (e : Bus) (reading : Bool) (cmd : Cmd) (csOn : Bool) (h : Host) :
    Ended e cmd csOn (mmcSpiCommandSend e reading cmd csOn h) := by
  rw [mmcSpiCommandSend, spiSyncLocked]
  cases hfail : e.fails h.messages with
  | some failure =>
    obtain ⟨x, cs⟩ := failure
    refine ⟨rfl, rfl, rfl, Int.le_of_lt x.2, fun _ => ?_⟩
    cases cs with
    | false => exact .inl rfl
    | true => exact .inr ⟨h.messages, x, rfl, hfail⟩
  | none =>
    dsimp only
    rw [mmcSpiResponseGet]
    split
    · next x h1 heq => exact responseDone_ended x.2 rfl rfl
    · split
      · next x h1 heq => exact responseDone_ended x.2 rfl rfl
      · next a h1 heq =>
        have ha : Answered cmd { cmd with resp0 := a.resp0, error := 0 } := ⟨rfl, rfl, rfl⟩
        exact responseRest_ended e csOn ha a h1

theorem commandSend_adds (e : Bus) (reading : Bool) (cmd : Cmd) (csOn : Bool) (h : Host) :
    let r := mmcSpiCommandSend e reading cmd csOn h
    ∃ sent, r.2.2.mosi = h.mosi ++ sent ∧
      (r.1 = 0 → ∃ m, sent = 0xff :: commandBytes cmd.opcode cmd.arg ++ ones m) := by
  cases hfail : e.fails h.messages with
  | none =>
    obtain ⟨m, hmosi⟩ := commandSend_mosi hfail reading csOn cmd
    exact ⟨_, hmosi, fun _ => ⟨m, rfl⟩⟩
  | some failure =>
    obtain ⟨x, cs⟩ := failure
    dsimp only
    rw [mmcSpiCommandSend, spiSyncLocked, hfail]
    exact ⟨[], (List.append_nil _).symm, fun h0 => absurd h0 (Int.ne_of_lt x.2)⟩

/-! ## The chip select -/

theorem requestStop_releases (e : Bus) (reading : Bool) (mrq : Request) (h : Host) :
    (requestStop e reading mrq h).2.cs = false ∨ LeftActive e (requestStop e reading mrq h).2 := by
  rw [requestStop]
  cases mrq.stop with
  | none => exact .inl rfl
  | some stop => exact (commandSend_ended e reading stop false h).cs (fun hon => Bool.false_ne_true hon.1)

/-- Behind a request the chip select is not active, whatever happens in it, unless its last message failed and left it
so. -/
theorem request_releases (cfg : Config) (e : Bus) (mrq : Request) (h : Host) :
    (mmcSpiRequest cfg e mrq h).2.cs = false ∨ LeftActive e (mmcSpiRequest cfg e mrq h).2 := by
  rw [mmcSpiRequest]
  generalize crcRetry = retry
  induction retry generalizing mrq h with
  | zero =>
    rw [crcRecover]
    cases mrq.data with
    | none => exact (commandSend_ended e false mrq.cmd false h).cs (fun hon => Bool.false_ne_true hon.1)
    | some d =>
      dsimp only
      split
      · next hne => exact (commandSend_ended e d.read mrq.cmd true h).cs (fun hon => hne hon.2)
      · exact requestStop_releases e d.read _ _
  | succ retry ih =>
    rw [crcRecover]
    cases mrq.data with
    | none => exact (commandSend_ended e false mrq.cmd false h).cs (fun hon => Bool.false_ne_true hon.1)
    | some d =>
      dsimp only
      split
      · next hne => exact (commandSend_ended e d.read mrq.cmd true h).cs (fun hon => hne hon.2)
      · split
        · exact ih _ _
        · exact requestStop_releases e d.read _ _

/-! ## Writing -/

theorem requestStop_write (e : Bus) (reading : Bool) (mrq : Request) (h : Host) :
    (requestStop e reading mrq h).1.cmd = mrq.cmd ∧ (requestStop e reading mrq h).1.data = mrq.data ∧
      ∃ sent, (requestStop e reading mrq h).2.mosi = h.mosi ++ sent := by
  rw [requestStop]
  cases mrq.stop with
  | none => exact ⟨rfl, rfl, [], (List.append_nil _).symm⟩
  | some stop =>
    obtain ⟨sent, hmosi, -⟩ := commandSend_adds e reading stop false h
    exact ⟨rfl, rfl, sent, hmosi⟩

/-- The card finds all blocks of the scatter list, with their CRC, in what is sent. -/
structure Written (cfg : Config) (d : Data) (sent : List Byte) : Prop where
  blocks : (cardBlocks (writeToken (decide (1 < d.blocks))) d.blksz sent).map Prod.fst = stageBlocks d.blksz d.sg
  crc : ∀ p ∈ cardBlocks (writeToken (decide (1 < d.blocks))) d.blksz sent, CrcRight cfg p

theorem bytesXfered_le (cfg : Config) (e : Bus) (d : Data) (h : Host) :
    d.bytesXfered ≤ (mmcSpiDataDo cfg e d h).1.bytesXfered := Nat.le_add_right _ _

/-- The fields of the data that no stage changes. -/
structure SameData (d d' : Data) : Prop where
  read : d'.read = d.read
  blksz : d'.blksz = d.blksz
  blocks : d'.blocks = d.blocks
  sg : d'.sg = d.sg

theorem Written.congr {cfg : Config} {d d' : Data} {sent : List Byte} (hs : SameData d d') (hw : Written cfg d' sent) :
    Written cfg d sent := by
  obtain ⟨hblocks, hcrc⟩ := hw
  rw [hs.blksz, hs.blocks] at hblocks hcrc
  rw [hs.sg] at hblocks
  exact ⟨hblocks, hcrc⟩

theorem dataDo_write (cfg : Config) (e : Bus) {d : Data} (hwrite : d.read = false)
    (hdvd : ∀ seg ∈ d.sg, d.blksz ∣ seg.length) (hm : 1 < d.blocks ∨ ∀ seg ∈ d.sg, seg.length ≤ d.blksz) (h : Host) :
    let r := mmcSpiDataDo cfg e d h
    SameData d r.1 ∧ ∃ sent, r.2.mosi = h.mosi ++ sent ∧
      (∃ n, r.1.bytesXfered = d.bytesXfered + n * d.blksz) ∧
      (r.1.error = 0 → Written cfg d sent ∧ r.1.bytesXfered = d.bytesXfered + d.sg.flatten.length) := by
  obtain ⟨hsg, sent, hmosi, -, hcrc, hcount, hall⟩ := dataDo_sends cfg e hwrite hdvd hm h
  have hle := bytesXfered_le cfg e d h
  refine ⟨⟨rfl, rfl, rfl, hsg⟩, sent, hmosi, ?_, fun h0 => ⟨⟨hall h0, hcrc⟩, ?_⟩⟩
  · rcases hcount with hcount | ⟨-, hcount⟩
    · exact ⟨_, by rw [hcount, Nat.mul_comm]⟩
    · cases hlen : (cardBlocks (writeToken (decide (1 < d.blocks))) d.blksz sent).length with
      | zero =>
        rw [hlen] at hcount
        have hpos := d.blksz_pos
        omega
      | succ n =>
        rw [hlen, Nat.mul_succ] at hcount
        exact ⟨n, by rw [Nat.mul_comm]; omega⟩
  · have hlen := congrArg List.length (hall h0)
    rw [List.length_map] at hlen
    rcases hcount with hcount | ⟨hne, -⟩
    · rw [hcount, hlen, Nat.mul_comm, length_stageBlocks d.blksz_pos hdvd]
    · exact absurd h0 hne

/-- The result of a request that writes: without an error the command was sent, and behind it all blocks of the scatter
list. The blocks that earlier attempts counted are counted once more. -/
def Wrote (cfg : Config) (cmd : Cmd) (d : Data) (h : Host) (r : Request × Host) : Prop :=
  ∃ d', r.1.data = some d' ∧ SameData d d' ∧ (r.1.cmd.error = 0 → d'.error = 0 →
    ∃ before m sent after again,
      r.2.mosi = h.mosi ++ (before ++ (0xff :: commandBytes cmd.opcode cmd.arg ++ ones m) ++ sent ++ after) ∧
      Written cfg d sent ∧ d'.bytesXfered = d.bytesXfered + again * d.blksz + d.sg.flatten.length ∧
      (cfg.sdio = true → again = 0))

section Write
variable {cfg : Config} {mrq : Request} {d : Data} {h : Host}

theorem requestStop_wrote (hwrite : d.read = false) (hdvd : ∀ seg ∈ d.sg, d.blksz ∣ seg.length)
    (hm : 1 < d.blocks ∨ ∀ seg ∈ d.sg, seg.length ≤ d.blksz)
    (hsend : (mmcSpiCommandSend e d.read mrq.cmd true h).1 = 0) :
    let r := mmcSpiCommandSend e d.read mrq.cmd true h
    let stage := mmcSpiDataDo cfg e d r.2.2
    Wrote cfg mrq.cmd d h (requestStop e d.read { mrq with cmd := r.2.1, data := some stage.1 } stage.2) := by
  dsimp only
  obtain ⟨command, hcommand, hok⟩ := commandSend_adds e d.read mrq.cmd true h
  obtain ⟨m, rfl⟩ := hok hsend
  generalize mmcSpiCommandSend e d.read mrq.cmd true h = r at *
  obtain ⟨hsame, sent, hsent, -, hall⟩ := dataDo_write cfg e hwrite hdvd hm r.2.2
  generalize mmcSpiDataDo cfg e d r.2.2 = stage at *
  obtain ⟨-, hdata, after, hafter⟩ :=
    requestStop_write e d.read { mrq with cmd := r.2.1, data := some stage.1 } stage.2
  refine ⟨stage.1, hdata, hsame, fun _ h0 => ⟨[], m, sent, after, 0, ?_, (hall h0).1, ?_, fun _ => rfl⟩⟩
  · rw [hafter, hsent, hcommand, List.nil_append]
    simp only [List.append_assoc]
  · rw [(hall h0).2, Nat.zero_mul, Nat.add_zero]

/-- What an earlier attempt sends and counts comes in front. -/
theorem Wrote.after {cmd cmd' : Cmd} {d' : Data} {h' : Host} {r : Request × Host} {sent : List Byte} {n : Nat}
    (hw : Wrote cfg cmd' d' h' r) (hop : cmd'.opcode = cmd.opcode) (harg : cmd'.arg = cmd.arg) (hsame : SameData d d')
    (hsent : h'.mosi = h.mosi ++ sent) (hn : d'.bytesXfered = d.bytesXfered + n * d.blksz)
    (hsdio : cfg.sdio = false) : Wrote cfg cmd d h r := by
  obtain ⟨d'', hdata, hs, hok⟩ := hw
  refine ⟨d'', hdata, ⟨hs.read.trans hsame.read, hs.blksz.trans hsame.blksz, hs.blocks.trans hsame.blocks,
    hs.sg.trans hsame.sg⟩, fun hcmd h0 => ?_⟩
  obtain ⟨before, m, last, after, again, hmosi, hwritten, hcount, -⟩ := hok hcmd h0
  refine ⟨sent ++ before, m, last, after, n + again, ?_, hwritten.congr hsame, ?_, fun hon => ?_⟩
  · rw [hmosi, hsent, hop, harg]
    simp only [List.append_assoc]
  · rw [hcount, hn, hsame.blksz, hsame.sg, Nat.add_mul, Nat.add_assoc d.bytesXfered]
  · rw [hsdio] at hon
    cases hon

theorem crcRecover_write (retry : Nat) (hdata : mrq.data = some d) (hwrite : d.read = false)
    (hdvd : ∀ seg ∈ d.sg, d.blksz ∣ seg.length) (hm : 1 < d.blocks ∨ ∀ seg ∈ d.sg, seg.length ≤ d.blksz) :
    Wrote cfg mrq.cmd d h (crcRecover cfg e retry mrq h) := by
  induction retry generalizing mrq d h with
  | zero =>
    rw [crcRecover, hdata]
    dsimp only
    split
    · next hne =>
      have hended := commandSend_ended e d.read mrq.cmd true h
      exact ⟨d, rfl, ⟨rfl, rfl, rfl, rfl⟩, fun h0 => absurd (hended.error.symm.trans h0) hne⟩
    · next hsend => exact requestStop_wrote hwrite hdvd hm (not_not.1 hsend)
  | succ retry ih =>
    have hended := commandSend_ended e d.read mrq.cmd true h
    rw [crcRecover, hdata]
    dsimp only
    split
    · next hne => exact ⟨d, rfl, ⟨rfl, rfl, rfl, rfl⟩, fun h0 => absurd (hended.error.symm.trans h0) hne⟩
    · next hsend =>
      split
      · next hagain =>
        obtain ⟨command, hcommand, -⟩ := commandSend_adds e d.read mrq.cmd true h
        obtain ⟨hsame, sent, hsent, ⟨n, hn⟩, -⟩ :=
          dataDo_write cfg e hwrite hdvd hm (mmcSpiCommandSend e d.read mrq.cmd true h).2.2
        obtain ⟨stop, hstop, -⟩ := commandSend_adds e d.read stopTransmission false
          (mmcSpiDataDo cfg e d (mmcSpiCommandSend e d.read mrq.cmd true h).2.2).2
        rw [hsent, hcommand, List.append_assoc, List.append_assoc] at hstop
        have hsg := hsame.sg
        refine Wrote.after (ih rfl hwrite ?_ ?_) hended.opcode hended.arg ⟨rfl, rfl, rfl, hsg⟩ hstop hn hagain.2
        · rw [hsg]
          exact hdvd
        · rw [hsg]
          exact hm
      · exact requestStop_wrote hwrite hdvd hm (not_not.1 hsend)

/-- However often it was repeated: when neither the command nor the data of a request that writes has an error, the
card was sent the command, and behind it all blocks of the scatter list in order, with their CRC. `bytes_xfered` is
their length, and that of the blocks that the attempts before have counted; an SDIO card gets one attempt. -/
theorem request_write (cfg : Config) (e : Bus) {mrq : Request} {d : Data} (hdata : mrq.data = some d)
    (hwrite : d.read = false) (hdvd : ∀ seg ∈ d.sg, d.blksz ∣ seg.length)
    (hm : 1 < d.blocks ∨ ∀ seg ∈ d.sg, seg.length ≤ d.blksz) (h : Host) :
    let r := mmcSpiRequest cfg e mrq h
    ∃ d', r.1.data = some d' ∧ d'.sg = d.sg ∧ (r.1.cmd.error = 0 → d'.error = 0 →
      ∃ before frame m sent after again, r.2.mosi = h.mosi ++ (before ++ (0xff :: frame ++ ones m) ++ sent ++ after) ∧
        cardCommand frame = (if mrq.cmd.opcode.getLsbD 7 then none else some (mrq.cmd.opcode.setWidth 6, mrq.cmd.arg)) ∧
        Written cfg d sent ∧ d'.bytesXfered = d.bytesXfered + again * d.blksz + d.sg.flatten.length ∧
        (cfg.sdio = true → again = 0)) := by
  have hwrote : Wrote cfg mrq.cmd d h (mmcSpiRequest cfg e mrq h) := crcRecover_write crcRetry hdata hwrite hdvd hm
  obtain ⟨d', hd', hsame, hok⟩ := hwrote
  refine ⟨d', hd', hsame.sg, fun hcmd h0 => ?_⟩
  obtain ⟨before, m, sent, after, again, hmosi, hrest⟩ := hok hcmd h0
  exact ⟨before, _, m, sent, after, again, hmosi, cardCommand_commandBytes _ _, hrest⟩

/-- A card that takes the block `0x55` behind the command. -/
def takesBlock : Bus :=
  ⟨fun i => decide (i < 64 ∨ 72 ≤ i ∧ i ≠ 171 ∧ i ≠ 172 ∧ i ≠ 174), fun _ => none, fun _ => 0⟩

def writeBlockRequest : Request :=
  ⟨⟨24, 0, mmcRspSpiS1, 0, 0, 0⟩, some ⟨false, 1, 1, [[0x55]], 0, 0, by decide⟩, none⟩

theorem request_write_block : ∃ sent, Written spiCrc ⟨false, 1, 1, [[0x55]], 0, 0, by decide⟩ sent ∧
    ∃ before after, (mmcSpiRequest spiCrc takesBlock writeBlockRequest idleHost).2.mosi = before ++ sent ++ after := by
  obtain ⟨d', hd', -, hok⟩ := @request_write spiCrc takesBlock writeBlockRequest _ rfl rfl (by decide)
    (.inr (by decide)) idleHost
  have hcmd : (mmcSpiRequest spiCrc takesBlock writeBlockRequest idleHost).1.cmd.error = 0 := by decide +kernel
  have h0 : (mmcSpiRequest spiCrc takesBlock writeBlockRequest idleHost).1.data.map Data.error = some 0 := by
    decide +kernel
  rw [hd'] at h0
  obtain ⟨before, frame, m, sent, after, again, hmosi, -, hwritten, -⟩ := hok hcmd (Option.some.inj h0)
  exact ⟨sent, hwritten, _, after, hmosi⟩

end Write

end HgicFmac.MmcSpi
