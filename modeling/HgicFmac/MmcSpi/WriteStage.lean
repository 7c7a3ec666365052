import HgicFmac.MmcSpi.Command
import HgicFmac.MmcSpi.Stage

/-!
# What a card finds in the data that is sent to it

* `cardBlocks token n bytes` : the blocks that a card takes from the bytes it is sent: the driver's framing, from the
  card's side;
* `Sends` : what is sent between two states, as a card reads it; `writeblock_sends`, `transfer_write` : one block, all
  blocks;
* `write_stage` : whichever messages fail, the card finds a prefix of the blocks of the scatter list.
-/

namespace HgicFmac.MmcSpi
open Lib

/-- The blocks of `n` bytes with their CRC: a card skips ones in front of a token, and anything else than the token of
a block, as STOP_TRAN, ends the data. -/
def cardBlocks (token : Byte) (n : Nat) : List Byte → List (List Byte × Byte × Byte)
  | [] => []
  | b :: bytes =>
    if b = 0xff then cardBlocks token n bytes
    else if b = token then
      (bytes.take n, bytes.getD n 0, bytes.getD (n + 1) 0) :: cardBlocks token n (bytes.drop (n + 2))
    else []
  termination_by bytes => bytes.length

section Card
variable {token : Byte} {n : Nat}

theorem cardBlocks_ones (m : Nat) (rest : List Byte) :
    cardBlocks token n (ones m ++ rest) = cardBlocks token n rest := by
  induction m with
  | zero => rfl
  | succ m ih => rw [ones, List.replicate_succ, List.cons_append, cardBlocks, if_pos rfl, ← ih, ones]

theorem cardBlocks_block (ht : token ≠ 0xff) {block : List Byte} (hn : block.length = n) (crc : Byte × Byte)
    (rest : List Byte) : cardBlocks token n (token :: (block ++ [crc.1, crc.2]) ++ rest) =
      (block, crc) :: cardBlocks token n rest := by
  subst hn
  rw [List.cons_append, cardBlocks, if_neg ht, if_pos rfl, List.append_assoc, List.take_left, ← List.drop_drop,
    List.drop_left]
  simp

theorem cardBlocks_stop (ht : token ≠ spiTokenStopTran) (rest : List Byte) :
    cardBlocks token n (spiTokenStopTran :: rest) = [] := by
  rw [cardBlocks, if_neg (by decide), if_neg ht.symm]

end Card

/-! ## Messages -/

/-- Between `h` and `h'` the card is sent the blocks `blocks`, and nothing else that it would not skip. -/
def Sends (token : Byte) (n : Nat) (h h' : Host) (blocks : List (List Byte × Byte × Byte)) : Prop :=
  ∃ sent, h'.mosi = h.mosi ++ sent ∧
    ∀ rest, cardBlocks token n (sent ++ rest) = blocks ++ cardBlocks token n rest

section Sends
variable {token : Byte} {n : Nat} {h h' h'' : Host} {bs cs : List (List Byte × Byte × Byte)}

theorem Sends.refl (token : Byte) (n : Nat) (h : Host) : Sends token n h h [] :=
  ⟨[], (List.append_nil _).symm, fun _ => rfl⟩

theorem Sends.trans (h1 : Sends token n h h' bs) (h2 : Sends token n h' h'' cs) : Sends token n h h'' (bs ++ cs) := by
  obtain ⟨sent1, hm1, hr1⟩ := h1
  obtain ⟨sent2, hm2, hr2⟩ := h2
  refine ⟨sent1 ++ sent2, by rw [hm2, hm1, List.append_assoc], fun rest => ?_⟩
  rw [List.append_assoc, hr1, hr2, List.append_assoc]

theorem Idles.sends (hi : Idles h h') : Sends token n h h' [] := by
  obtain ⟨m, hm⟩ := hi
  exact ⟨_, hm, cardBlocks_ones m⟩

end Sends

/-! ## Blocks -/

def CrcRight (cfg : Config) (p : List Byte × Byte × Byte) : Prop := cfg.useSpiCrc = true → p.2 = crcBytes (crcItuT p.1)

theorem writeToken_ne (multiple : Bool) : writeToken multiple ≠ 0xff ∧ writeToken multiple ≠ spiTokenStopTran := by
  cases multiple <;> decide

theorem writeblock_sends (cfg : Config) (e : Bus) (multiple : Bool) (tx : List Byte) (h : Host) :
    (mmcSpiWriteblock cfg e multiple tx h).1 < 0 ∧
      Sends (writeToken multiple) tx.length h (mmcSpiWriteblock cfg e multiple tx h).2 [] ∨
    ∃ crc, CrcRight cfg (tx, crc) ∧
      Sends (writeToken multiple) tx.length h (mmcSpiWriteblock cfg e multiple tx h).2 [(tx, crc)] := by
  obtain ⟨crc, hcrc⟩ : ∃ crc, (if cfg.useSpiCrc then crcBytes (crcItuT tx) else h.crcVal) = crc := ⟨_, rfl⟩
  rw [mmcSpiWriteblock, hcrc]
  dsimp only
  rw [spiSyncLocked]
  cases hfail : e.fails h.messages with
  | some failure => exact .inl ⟨failure.1.2, [], by simp, fun _ => rfl⟩
  | none =>
    refine .inr ⟨crc, fun huse => by rw [← hcrc, if_pos huse], ?_⟩
    dsimp only
    generalize hh : ({ h with
      clocked := h.clocked + _, messages := h.messages + 1, cs := true, crcVal := crc
      mosi := h.mosi ++ _ } : Host) = h1
    have hsent : Sends (writeToken multiple) tx.length h h1 [(tx, crc)] := by
      subst hh
      refine ⟨_, rfl, fun rest => ?_⟩
      rw [List.append_assoc, cardBlocks_block (writeToken_ne multiple).1 rfl, cardBlocks_ones]
      rfl
    split
    · exact hsent
    · split
      · exact hsent
      · exact hsent.trans (waitUnbusy_idles e h1).sends

/-- All blocks: a prefix of them is sent. It is all of them if there was no error, and otherwise the last one may be one
that is not counted. -/
theorem transfer_write (cfg : Config) (e : Bus) (multiple : Bool) {n : Nat} {bs : List (List Byte)}
    (hlen : ∀ b ∈ bs, b.length = n) (h : Host) :
    let r := transfer (dataBlock cfg e false multiple) bs h
    r.2.1 = bs ∧ ∃ sent, Sends (writeToken multiple) n h r.2.2.2 sent ∧ sent.map Prod.fst <+: bs ∧
      (∀ p ∈ sent, CrcRight cfg p) ∧ (¬ r.1 < 0 → sent.map Prod.fst = bs) ∧
      (r.2.2.1 = n * sent.length ∨ r.1 < 0 ∧ r.2.2.1 + n = n * sent.length) := by
  induction bs generalizing h with
  | nil => exact ⟨rfl, [], .refl _ _ h, List.prefix_rfl, List.forall_mem_nil _, fun _ => rfl, .inl rfl⟩
  | cons b bs ih =>
    have hb : b.length = n := hlen b List.mem_cons_self
    have hone := writeblock_sends cfg e multiple b h
    rw [hb] at hone
    by_cases hneg : (dataBlock cfg e false multiple b h).1 < 0
    · dsimp only
      rw [transfer_of_neg _ hneg]
      refine ⟨rfl, ?_⟩
      rcases hone with ⟨-, hnone⟩ | ⟨crc, hcrc, hsent⟩
      · exact ⟨[], hnone, List.nil_prefix, List.forall_mem_nil _, fun hpos => absurd hneg hpos, .inl rfl⟩
      · refine ⟨_, hsent, ?_, List.forall_mem_singleton.2 hcrc, fun hpos => absurd hneg hpos, .inr ⟨hneg, ?_⟩⟩
        · exact List.prefix_append [b] bs
        · simp
    · obtain ⟨hsame, sent, hsent, hpre, hright, hall, hcount⟩ :=
        ih (fun x hx => hlen x (List.mem_cons_of_mem b hx)) (dataBlock cfg e false multiple b h).2.2
      dsimp only at hsame hall hcount ⊢
      rw [transfer_of_nonneg _ hneg]
      rcases hone with ⟨hfail, -⟩ | ⟨crc, hcrc, hfirst⟩
      · exact absurd hfail hneg
      · refine ⟨by rw [hsame]; rfl, (b, crc) :: sent, hfirst.trans hsent, ?_, ?_, ?_, ?_⟩
        · exact (List.prefix_cons_inj b).2 hpre
        · exact List.forall_mem_cons.2 ⟨hcrc, hright⟩
        · intro hpos
          rw [List.map_cons, hall hpos]
        · rw [List.length_cons, Nat.mul_succ, hb]
          rcases hcount with hcount | ⟨hneg', hcount⟩
          · exact .inl (by dsimp only; omega)
          · exact .inr ⟨hneg', by dsimp only; omega⟩

/-! ## The data stage -/

theorem stopTran_sends {token : Byte} (ht : token ≠ spiTokenStopTran) (n : Nat) (e : Bus) (error : Int) (h : Host) :
    ∃ sent, (stopTran e error h).2.mosi = h.mosi ++ sent ∧ cardBlocks token n sent = [] := by
  rw [stopTran, spiSyncLocked]
  cases e.fails h.messages with
  | some failure => exact ⟨[], (List.append_nil _).symm, by rw [cardBlocks]⟩
  | none =>
    dsimp only
    split
    · exact ⟨_, rfl, cardBlocks_stop ht _⟩
    · generalize hh : ({ h with
        clocked := h.clocked + _, messages := h.messages + 1, cs := true, mosi := h.mosi ++ _ } : Host) = h1
      have hm : h1.mosi = h.mosi ++ spiTokenStopTran :: ones (scratchStatus - 1) := by rw [← hh]
      obtain ⟨m, hmore⟩ := waitUnbusy_idles e h1
      have hall : h.mosi ++ (spiTokenStopTran :: ones (scratchStatus - 1) ++ ones m) =
          (mmcSpiWaitUnbusy e h1).2.mosi := by
        rw [hmore, hm, List.append_assoc]
      refine ⟨_, ?_, cardBlocks_stop ht (ones (scratchStatus - 1) ++ ones m)⟩
      rw [← List.cons_append, hall]
      split
      · next heq => rw [heq]
      · next heq => rw [heq]

theorem stopTran_error (e : Bus) {error : Int} (hne : error ≠ 0) (h : Host) : (stopTran e error h).1 = error := by
  rw [stopTran]
  rcases spiSyncLocked e _ true h with ⟨_ | status, h1⟩
  · exact if_neg hne
  · dsimp only
    split
    · rfl
    · rcases mmcSpiWaitUnbusy e h1 with ⟨_ | b, h2⟩ <;> rfl

/-- What the card finds of the data `d`, of which `d'` is left: the first blocks of the scatter list, and the last of
them may not be counted. -/
structure Found (cfg : Config) (d d' : Data) (blocks : List (List Byte × Byte × Byte)) : Prop where
  inOrder : blocks.map Prod.fst <+: stageBlocks d.blksz d.sg
  crc : ∀ p ∈ blocks, CrcRight cfg p
  count : d'.bytesXfered = d.bytesXfered + d.blksz * blocks.length ∨
    d'.error ≠ 0 ∧ d'.bytesXfered + d.blksz = d.bytesXfered + d.blksz * blocks.length
  all : d'.error = 0 → blocks.map Prod.fst = stageBlocks d.blksz d.sg

theorem dataDo_sends (cfg : Config) (e : Bus) {d : Data} (hwrite : d.read = false)
    (hdvd : ∀ seg ∈ d.sg, d.blksz ∣ seg.length) (hm : 1 < d.blocks ∨ ∀ seg ∈ d.sg, seg.length ≤ d.blksz) (h : Host) :
    let r := mmcSpiDataDo cfg e d h
    r.1.sg = d.sg ∧ ∃ sent, r.2.mosi = h.mosi ++ sent ∧
      Found cfg d r.1 (cardBlocks (writeToken (decide (1 < d.blocks))) d.blksz sent) := by
  have hpos := d.blksz_pos
  have hm' : decide (1 < d.blocks) = true ∨ ∀ seg ∈ d.sg, seg.length ≤ d.blksz := hm.imp_left decide_eq_true
  obtain ⟨hstatus, hflat, hrest⟩ := scatterLoop_eq cfg e false (decide (1 < d.blocks)) hpos hm' h
  have hlens := length_scatterLoop cfg e false (decide (1 < d.blocks)) d.blksz d.sg h
  obtain ⟨hsame, blocks, ⟨sent, hmosi, hsent⟩, hpre, hright, hall, hcount⟩ :=
    transfer_write cfg e (decide (1 < d.blocks)) (fun b hb => length_of_mem_stageBlocks hdvd hb) h
  dsimp only at hflat hsame ⊢
  rw [hsame, flatten_stageBlocks hpos] at hflat
  have hsg := List.eq_iff_flatten_eq.2 ⟨hflat, hlens⟩
  rw [mmcSpiDataDo, hwrite]
  dsimp only
  rw [hstatus, hrest]
  generalize transfer (dataBlock cfg e false (decide (1 < d.blocks))) (stageBlocks d.blksz d.sg) h = t at *
  obtain ⟨stop, hstop⟩ : ∃ stop, (if !false && decide (1 < d.blocks) then
    stopTran e (if t.1 < 0 then t.1 else d.error) t.2.2.2 else (if t.1 < 0 then t.1 else d.error, t.2.2.2)) = stop :=
    ⟨_, rfl⟩
  have hneg : t.1 < 0 → stop.1 ≠ 0 := by
    intro hneg
    rw [← hstop, if_pos hneg]
    split
    · rw [stopTran_error e (Int.ne_of_lt hneg)]
      exact Int.ne_of_lt hneg
    · exact Int.ne_of_lt hneg
  obtain ⟨tail, htail, hend⟩ : ∃ tail, stop.2.mosi = t.2.2.2.mosi ++ tail ∧
      cardBlocks (writeToken (decide (1 < d.blocks))) d.blksz tail = [] := by
    rw [← hstop]
    split
    · exact stopTran_sends (writeToken_ne _).2 d.blksz e _ _
    · exact ⟨[], (List.append_nil _).symm, by rw [cardBlocks]⟩
  rw [hstop]
  refine ⟨hsg, sent ++ tail, by rw [htail, hmosi, List.append_assoc], ?_⟩
  rw [hsent, hend, List.append_nil]
  refine ⟨hpre, hright, ?_, fun h0 => hall fun hlt => hneg hlt h0⟩
  rcases hcount with hcount | ⟨hlt, hcount⟩
  · exact .inl (congrArg (d.bytesXfered + ·) hcount)
  · exact .inr ⟨hneg hlt, by dsimp only; omega⟩

/-- A data stage that writes, whichever messages fail before their first byte. What the card finds are the first blocks
of the scatter list, in order, with their CRC; the last of them may not be counted. Without an error they are all
blocks, all counted. -/
theorem write_stage (cfg : Config) (e : Bus) {d : Data} (hwrite : d.read = false)
    (hdvd : ∀ seg ∈ d.sg, d.blksz ∣ seg.length) (hm : 1 < d.blocks ∨ ∀ seg ∈ d.sg, seg.length ≤ d.blksz) (h : Host) :
    let r := mmcSpiDataDo cfg e d h
    r.1.sg = d.sg ∧ ∃ sent, r.2.mosi = h.mosi ++ sent ∧
      let blocks := cardBlocks (writeToken (decide (1 < d.blocks))) d.blksz sent
      blocks.map Prod.fst <+: stageBlocks d.blksz d.sg ∧ (∀ p ∈ blocks, CrcRight cfg p) ∧
      (r.1.bytesXfered = d.bytesXfered + d.blksz * blocks.length ∨
        r.1.error ≠ 0 ∧ r.1.bytesXfered + d.blksz = d.bytesXfered + d.blksz * blocks.length) ∧
      (r.1.error = 0 → blocks.map Prod.fst = stageBlocks d.blksz d.sg) := by
  obtain ⟨hsg, sent, hmosi, hfound⟩ := dataDo_sends cfg e hwrite hdvd hm h
  exact ⟨hsg, sent, hmosi, hfound.inOrder, hfound.crc, hfound.count, hfound.all⟩

/-- The block of `acceptsLate`. -/
theorem write_stage_accepted : ∃ sent,
    (mmcSpiDataDo spiCrc acceptsLate ⟨false, 1, 1, [[0x55]], 0, 0, by decide⟩ idleHost).2.mosi = sent ∧
      (cardBlocks 0xfe 1 sent).map Prod.fst <+: [[0x55]] := by
  obtain ⟨-, sent, hmosi, hblocks, -⟩ :=
    write_stage spiCrc acceptsLate (d := ⟨false, 1, 1, [[0x55]], 0, 0, by decide⟩) rfl (by decide) (.inr (by decide))
      idleHost
  exact ⟨sent, hmosi, hblocks⟩

end HgicFmac.MmcSpi
