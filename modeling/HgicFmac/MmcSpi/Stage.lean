import HgicFmac.Lib.Blocks
import HgicFmac.MmcSpi.WriteBlock

/-!
# The data stage

* `scatterLoop_eq` : the two loops over the scatter list are the transfer of its blocks; `length_scatterLoop` : every
  segment keeps its length;
* `BlocksAt`, `transfer_read` : the card sends its blocks one after another, and they are read up to the first one with
  a wrong CRC;
* `read_stage` : what a data stage that reads comes to.
-/

namespace HgicFmac.MmcSpi
open Lib

variable {e : Bus}

/-! ## The loops -/

section Loops
variable (cfg : Config) (e : Bus) (read multiple : Bool)

def stageBlocks (blksz : Nat) (sg : List (List Byte)) : List (List Byte) := sg.flatMap (chunks blksz)

theorem flatten_stageBlocks {blksz : Nat} (hb : 0 < blksz) (sg : List (List Byte)) :
    (stageBlocks blksz sg).flatten = sg.flatten := by
  induction sg with
  | nil => rfl
  | cons seg sg ih =>
    have hcons : stageBlocks blksz (seg :: sg) = chunks blksz seg ++ stageBlocks blksz sg := rfl
    rw [hcons, List.flatten_append, flatten_chunks hb, ih, List.flatten_cons]

theorem length_of_mem_stageBlocks {blksz : Nat} {sg : List (List Byte)} (hdvd : ∀ seg ∈ sg, blksz ∣ seg.length)
    {b : List Byte} (hb : b ∈ stageBlocks blksz sg) : b.length = blksz := by
  obtain ⟨seg, hseg, hb⟩ := List.mem_flatMap.1 hb
  exact length_of_mem_chunks (hdvd seg hseg) hb

theorem segmentLoop_eq {blksz : Nat} (hb : 0 < blksz) {n : Nat} {rest : List Byte} (hn : rest.length ≤ n)
    (hm : multiple = true ∨ rest.length ≤ blksz) (h : Host) :
    segmentLoop cfg e read multiple blksz n rest h =
      let r := transfer (dataBlock cfg e read multiple) (chunkLoop blksz n rest) h
      (r.1, r.2.1.flatten, r.2.2.1, r.2.2.2) := by
  induction n generalizing rest h with
  | zero =>
    obtain rfl : rest = [] := List.length_eq_zero_iff.1 (by omega)
    rfl
  | succ n ih =>
    cases rest with
    | nil => rfl
    | cons x rest =>
      have hdrop : ((x :: rest).drop blksz).length ≤ n := by
        rw [List.length_drop]
        omega
      have hflat := flatten_chunkLoop hb hdrop
      have hm' : multiple = true ∨ ((x :: rest).drop blksz).length ≤ blksz := by
        rcases hm with hm | hle
        · exact .inl hm
        · exact .inr (by rw [List.length_drop]; omega)
      rw [segmentLoop, if_neg (List.cons_ne_nil x rest), chunkLoop, List.isEmpty_cons, if_neg Bool.false_ne_true]
      dsimp only
      by_cases hneg : (dataBlock cfg e read multiple ((x :: rest).take blksz) h).1 < 0
      · rw [if_pos hneg, transfer_of_neg _ hneg]
        dsimp only
        rw [List.flatten_cons, hflat]
      · rw [if_neg hneg, transfer_of_nonneg _ hneg]
        dsimp only
        cases multiple with
        | true =>
          rw [Bool.not_true, if_neg Bool.false_ne_true, ih hdrop hm', List.flatten_cons]
        | false =>
          -- nothing is left of the segment
          have hle : (x :: rest).length ≤ blksz := by
            rcases hm with hm | hle
            · cases hm
            · exact hle
          have hnil : chunkLoop blksz n ((x :: rest).drop blksz) = [] := by
            rw [List.drop_of_length_le hle]
            cases n <;> rfl
          rw [Bool.not_false, if_pos rfl, hnil, List.drop_of_length_le hle, List.flatten_cons]
          rfl

theorem scatterLoop_eq {blksz : Nat} (hb : 0 < blksz) {sg : List (List Byte)}
    (hm : multiple = true ∨ ∀ seg ∈ sg, seg.length ≤ blksz) (h : Host) :
    let r := transfer (dataBlock cfg e read multiple) (stageBlocks blksz sg) h
    let t := scatterLoop cfg e read multiple blksz sg h
    t.1 = r.1 ∧ t.2.1.flatten = r.2.1.flatten ∧ t.2.2 = r.2.2 := by
  induction sg generalizing h with
  | nil => exact ⟨rfl, rfl, rfl⟩
  | cons seg sg ih =>
    have hcons : stageBlocks blksz (seg :: sg) = chunks blksz seg ++ stageBlocks blksz sg := rfl
    have hseg : multiple = true ∨ seg.length ≤ blksz := hm.imp_right fun hall => hall seg List.mem_cons_self
    have hrest : multiple = true ∨ ∀ s ∈ sg, s.length ≤ blksz :=
      hm.imp_right fun hall s hs => hall s (List.mem_cons_of_mem seg hs)
    have hloop := segmentLoop_eq cfg e read multiple hb (Nat.le_refl seg.length) hseg h
    dsimp only at hloop ⊢
    rw [hcons, transfer_append, scatterLoop, hloop]
    dsimp only
    have hchunks : chunkLoop blksz seg.length seg = chunks blksz seg := rfl
    rw [hchunks]
    by_cases hneg : (transfer (dataBlock cfg e read multiple) (chunks blksz seg) h).1 < 0
    · rw [if_pos hneg, if_pos hneg]
      refine ⟨rfl, ?_, rfl⟩
      dsimp only
      rw [List.flatten_cons, List.flatten_append, flatten_stageBlocks hb]
    · obtain ⟨h1, h2, h3⟩ := ih hrest (transfer (dataBlock cfg e read multiple) (chunks blksz seg) h).2.2.2
      rw [if_neg hneg, if_neg hneg]
      refine ⟨h1, ?_, ?_⟩
      · dsimp only
        rw [List.flatten_cons, List.flatten_append, h2]
      · dsimp only
        rw [h3]

end Loops

/-! ## Reading -/

theorem length_realign (right : Nat) (leftover : Byte) (xs : List Byte) :
    (realign right leftover xs).1.length = xs.length := by
  induction xs generalizing leftover with
  | nil => rfl
  | cons x xs ih => rw [realign, List.length_cons, ih, List.length_cons]

/-- Whatever comes over the bus, a buffer is filled in its length. -/
theorem length_readblock (cfg : Config) (e : Bus) (multiple : Bool) (rx : List Byte) (h : Host) :
    (mmcSpiReadblock cfg e multiple rx h).2.1.length = rx.length := by
  have hcheck : ∀ data crc h, (checkBlock cfg data crc h).2.1 = data := by
    intro data crc h
    unfold checkBlock
    split <;> rfl
  have hre : ∀ bitshift leftover data crc, (realignBlock bitshift leftover data crc).1.length = data.length := by
    intro bitshift leftover data crc
    unfold realignBlock
    split
    · exact length_realign _ _ _
    · rfl
  unfold mmcSpiReadblock
  split
  · rfl
  · dsimp only
    rw [hcheck, hre, spiSyncLocked]
    split
    · rfl
    · next heq =>
      split at heq
      · cases heq
      · cases heq
        rw [List.length_take, Bus.bytes, length_windows, ones, List.length_replicate]
        omega

/-- The byte of the line behind a block whose token ends at bit `z`. -/
def blockStop (multiple : Bool) (n z : Nat) : Nat := z / 8 + 1 + (n + 2 + if multiple then 1 else 0)

/-- The tokens of blocks of `n` bytes end at the bits `zs`; the first block is looked for from byte `c` on, each other
one from behind the block before it. -/
def BlocksAt (e : Bus) (multiple : Bool) (n : Nat) : Nat → List Nat → Prop
  | _, [] => True
  | c, z :: zs => (∀ h : Host, h.clocked = c → BlockAt e h z) ∧ BlocksAt e multiple n (blockStop multiple n z) zs

def blocksStop (multiple : Bool) (n : Nat) : Nat → List Nat → Nat
  | c, [] => c
  | _, z :: zs => blocksStop multiple n (blockStop multiple n z) zs

def Passes (cfg : Config) (e : Bus) (n z : Nat) : Prop := cfg.useSpiCrc = true → e.crc z n = crcItuT (e.data z n)

theorem blocksAt_append {multiple : Bool} {n c z : Nat} {zs : List Nat} (h : BlocksAt e multiple n c (zs ++ [z])) :
    BlocksAt e multiple n c zs ∧ ∀ host : Host, host.clocked = blocksStop multiple n c zs → BlockAt e host z := by
  induction zs generalizing c with
  | nil => exact ⟨trivial, h.1⟩
  | cons y zs ih =>
    obtain ⟨hzs, hz⟩ := ih h.2
    exact ⟨⟨h.1, hzs⟩, hz⟩

theorem transfer_read (hw : e.Works) (cfg : Config) (multiple : Bool) {n c : Nat} {bs : List (List Byte)}
    {zs : List Nat} (hlen : ∀ b ∈ bs, b.length = n) (hzs : zs.length ≤ bs.length) {h : Host} (hc : h.clocked = c)
    (hat : BlocksAt e multiple n c zs) (hpass : ∀ z ∈ zs, Passes cfg e n z) :
    ∃ h' : Host, h'.clocked = blocksStop multiple n c zs ∧ transfer (dataBlock cfg e true multiple) bs h =
      let more := transfer (dataBlock cfg e true multiple) (bs.drop zs.length) h'
      (more.1, zs.map (e.data · n) ++ more.2.1, n * zs.length + more.2.2.1, more.2.2.2) := by
  induction zs generalizing bs c h with
  | nil => exact ⟨h, hc, by simp⟩
  | cons z zs ih =>
    cases bs with
    | nil => exact absurd hzs (by simp)
    | cons b bs =>
      have hb : b.length = n := hlen b List.mem_cons_self
      obtain ⟨h1, hread, hc1, -⟩ := readblock_eq hw cfg multiple b (hat.1 h hc)
      rw [hb, if_neg fun hbad => hbad.2 (hpass z List.mem_cons_self hbad.1)] at hread
      rw [hb] at hc1
      obtain ⟨h', hc', hrest⟩ := ih (fun x hx => hlen x (List.mem_cons_of_mem b hx)) (Nat.le_of_succ_le_succ hzs) hc1
        hat.2 fun y hy => hpass y (List.mem_cons_of_mem z hy)
      have hjob : dataBlock cfg e true multiple b h = (0, e.data z n, h1) := hread
      refine ⟨h', hc', ?_⟩
      rw [transfer_of_nonneg _ (by rw [hjob]; exact Int.lt_irrefl 0), hjob, hrest, hb]
      dsimp only
      rw [List.length_cons, List.drop_succ_cons, List.map_cons, List.cons_append, Nat.mul_succ, Nat.add_comm (n * _) n,
        Nat.add_assoc]

/-- The data of the blocks of the card. -/
def Bus.blocksData (e : Bus) (n : Nat) (zs : List Nat) : List Byte := zs.flatMap (e.data · n)

theorem length_stageBlocks {blksz : Nat} (hb : 0 < blksz) {sg : List (List Byte)}
    (hdvd : ∀ seg ∈ sg, blksz ∣ seg.length) : (stageBlocks blksz sg).length * blksz = sg.flatten.length := by
  rw [← flatten_stageBlocks hb, List.length_flatten, List.map_congr_left fun b hm => length_of_mem_stageBlocks hdvd hm]
  simp

theorem length_dataBlock (cfg : Config) (e : Bus) (read multiple : Bool) (block : List Byte) (h : Host) :
    (dataBlock cfg e read multiple block h).2.1.length = block.length := by
  cases read with
  | true => exact length_readblock cfg e multiple block h
  | false => rfl

theorem length_segmentLoop (cfg : Config) (e : Bus) (read multiple : Bool) (blksz n : Nat) (rest : List Byte)
    (h : Host) : (segmentLoop cfg e read multiple blksz n rest h).2.1.length = rest.length := by
  have hsplit : ∀ rest : List Byte, (rest.take blksz).length + (rest.drop blksz).length = rest.length := by
    intro rest
    rw [← List.length_append, List.take_append_drop]
  induction n generalizing rest h with
  | zero => rfl
  | succ n ih =>
    rw [segmentLoop]
    split
    · next hnil => rw [hnil]
    · dsimp only
      split
      · rw [List.length_append, length_dataBlock, hsplit]
      · split
        · rw [List.length_append, length_dataBlock, hsplit]
        · rw [List.length_append, length_dataBlock, ih, hsplit]

theorem length_scatterLoop (cfg : Config) (e : Bus) (read multiple : Bool) (blksz : Nat) (sg : List (List Byte))
    (h : Host) : (scatterLoop cfg e read multiple blksz sg h).2.1.map List.length = sg.map List.length := by
  induction sg generalizing h with
  | nil => rfl
  | cons seg sg ih =>
    rw [scatterLoop]
    dsimp only
    split
    · rw [List.map_cons, List.map_cons, length_segmentLoop]
    · rw [List.map_cons, List.map_cons, length_segmentLoop, ih]

theorem flatten_drop_blocks {n k : Nat} {bs : List (List Byte)} (hlen : ∀ b ∈ bs, b.length = n) (hk : k ≤ bs.length) :
    (bs.drop k).flatten = bs.flatten.drop (k * n) := by
  induction k generalizing bs with
  | zero => simp
  | succ k ih =>
    cases bs with
    | nil => exact absurd hk (by simp)
    | cons b bs =>
      have hb : b.length = n := hlen b List.mem_cons_self
      rw [List.drop_succ_cons, ih (fun x hx => hlen x (List.mem_cons_of_mem b hx)) (Nat.le_of_succ_le_succ hk),
        List.flatten_cons, Nat.succ_mul, Nat.add_comm (k * n) n, ← List.drop_drop, List.drop_left' hb]

/-- A data stage that reads. The blocks that pass arrive in order, in the segments of the scatter list. When they are
all there is, the stage has no error and has counted every byte; when the next one does not pass, it ends with
`-EILSEQ`, has counted the blocks before this one, and has not touched what follows it. -/
theorem read_stage (hw : e.Works) (cfg : Config) {d : Data} (hread : d.read = true)
    (hdvd : ∀ seg ∈ d.sg, d.blksz ∣ seg.length) (hm : 1 < d.blocks ∨ ∀ seg ∈ d.sg, seg.length ≤ d.blksz) {h : Host}
    {zs : List Nat} (hat : BlocksAt e (decide (1 < d.blocks)) d.blksz h.clocked zs)
    (hpass : ∀ z ∈ zs, Passes cfg e d.blksz z) :
    let r := (mmcSpiDataDo cfg e d h).1
    r.sg.map List.length = d.sg.map List.length ∧
    (zs.length * d.blksz = d.sg.flatten.length → r.sg.flatten = e.blocksData d.blksz zs ∧ r.error = d.error ∧
      r.bytesXfered = d.bytesXfered + d.sg.flatten.length) ∧
    ∀ z, BlocksAt e (decide (1 < d.blocks)) d.blksz h.clocked (zs ++ [z]) → ¬ Passes cfg e d.blksz z →
      zs.length * d.blksz < d.sg.flatten.length → r.error = eilseq.val ∧
      r.bytesXfered = d.bytesXfered + zs.length * d.blksz ∧
      r.sg.flatten = e.blocksData d.blksz (zs ++ [z]) ++ d.sg.flatten.drop ((zs.length + 1) * d.blksz) := by
  have hpos := d.blksz_pos
  have hlen : ∀ b ∈ stageBlocks d.blksz d.sg, b.length = d.blksz := fun b hb => length_of_mem_stageBlocks hdvd hb
  have htotal := length_stageBlocks hpos hdvd
  have hm' : decide (1 < d.blocks) = true ∨ ∀ seg ∈ d.sg, seg.length ≤ d.blksz := hm.imp_left decide_eq_true
  obtain ⟨hstatus, hflat, hrest⟩ := scatterLoop_eq cfg e true (decide (1 < d.blocks)) hpos hm' h
  have hlens := length_scatterLoop cfg e true (decide (1 < d.blocks)) d.blksz d.sg h
  dsimp only
  rw [mmcSpiDataDo, hread]
  dsimp only
  rw [Bool.not_true, Bool.false_and, if_neg Bool.false_ne_true]
  refine ⟨hlens, fun hall => ?_, fun z hatz hbad hlt => ?_⟩
  · have hcount : (stageBlocks d.blksz d.sg).length = zs.length :=
      Nat.eq_of_mul_eq_mul_right hpos (htotal.trans hall.symm)
    obtain ⟨h', -, htrans⟩ := transfer_read hw cfg (decide (1 < d.blocks)) hlen (by omega) rfl hat hpass
    rw [List.drop_of_length_le (Nat.le_of_eq hcount)] at htrans
    rw [htrans] at hstatus hflat hrest
    dsimp only [transfer] at hstatus hflat hrest
    rw [List.append_nil] at hflat
    rw [hstatus, if_neg (Int.lt_irrefl 0), hrest]
    refine ⟨hflat, rfl, ?_⟩
    rw [← hall, Nat.mul_comm zs.length]
    rfl
  · have hcount : zs.length < (stageBlocks d.blksz d.sg).length := by
      rw [← htotal] at hlt
      exact Nat.lt_of_mul_lt_mul_right hlt
    obtain ⟨h', hc', htrans⟩ := transfer_read hw cfg (decide (1 < d.blocks)) hlen (Nat.le_of_lt hcount) rfl hat hpass
    obtain ⟨b, bs, hdrop⟩ := List.exists_cons_of_ne_nil (List.drop_eq_nil_iff.not.2 (Nat.not_le_of_lt hcount))
    have hb : b.length = d.blksz := hlen b (List.mem_of_mem_drop (hdrop ▸ List.mem_cons_self))
    obtain ⟨h2, hbadread, -⟩ := readblock_eq hw cfg (decide (1 < d.blocks)) b ((blocksAt_append hatz).2 h' hc')
    rw [hb, if_pos (by unfold Passes at hbad; tauto)] at hbadread
    have hjob : dataBlock cfg e true (decide (1 < d.blocks)) b h' = (eilseq.val, e.data z d.blksz, h2) := hbadread
    rw [hdrop, transfer_of_neg _ (by rw [hjob]; exact eilseq.2), hjob] at htrans
    have hafter := flatten_drop_blocks hlen (k := zs.length + 1) (by omega)
    rw [flatten_stageBlocks hpos, ← List.drop_drop, hdrop, List.drop_one, List.tail_cons] at hafter
    rw [htrans] at hstatus hflat hrest
    dsimp only at hstatus hflat hrest
    rw [hstatus, if_pos eilseq.2, hrest]
    refine ⟨rfl, ?_, ?_⟩
    · rw [Nat.mul_comm zs.length]
      rfl
    · rw [hflat, List.flatten_append, List.flatten_cons, hafter, Bus.blocksData, List.flatMap_append,
        List.flatMap_singleton, ← List.flatMap_def, List.append_assoc]

/-- The block of `readblock_at_any_bit_zeros`, into one segment. -/
theorem read_stage_zeros : (mmcSpiDataDo spiCrc (lowFor 13 33) ⟨true, 2, 1, [[1, 1]], 0, 0, by decide⟩ idleHost).1.sg =
    [[0, 0]] := by
  have hat : BlocksAt (lowFor 13 33) false 2 0 [13] := by
    refine ⟨fun h hc => ?_, trivial⟩
    exact blockAt_lowFor (by decide) (by rw [hc]; decide) (by omega) (by omega)
  have hcrc : (lowFor 13 33).crc 13 2 = crcItuT ((lowFor 13 33).data 13 2) := by decide +kernel
  have hstage := read_stage (e := lowFor 13 33) (fun _ => rfl) spiCrc (d := ⟨true, 2, 1, [[1, 1]], 0, 0, by decide⟩) rfl
    (by decide) (.inr (by decide)) (h := idleHost) hat (by simp [Passes, hcrc])
  have hdata : (lowFor 13 33).blocksData 2 [13] = [0, 0] := by decide +kernel
  rw [List.eq_iff_flatten_eq]
  exact ⟨(hstage.2.1 rfl).1.trans hdata, hstage.1⟩

end HgicFmac.MmcSpi
