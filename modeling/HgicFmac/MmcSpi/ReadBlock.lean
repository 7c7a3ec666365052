import HgicFmac.MmcSpi.Data
import HgicFmac.MmcSpi.Response

/-!
# Blocks that are read, at any bit

* `BlockAt e h z` : the card's block starts with the zero at bit `z` of the line, in time;
* `blockToken_eq` : the driver finds the byte with this bit; `realignBlock_eq` : data and CRC are put together again;
* `readblock_eq`, `readblock_at_any_bit` : the block that is read is the one on the line;
* `readblock_burst` : with the CRC on, a burst of up to 16 bits in the data and the CRC does not pass.
-/

namespace HgicFmac.MmcSpi
open Lib

variable {e : Bus}

/-- Behind an all-zeroes byte, or at once, the line is high up to bit `z`; the time-out is not over before. -/
structure BlockAt (e : Bus) (h : Host) (z : Nat) : Prop where
  lo : 8 * (if e.byte h.clocked = 0 then h.clocked + 1 else h.clocked) ≤ z
  ones : ∀ i, 8 * (if e.byte h.clocked = 0 then h.clocked + 1 else h.clocked) ≤ i → i < z → e.miso i = true
  zero : e.miso z = false
  inTime : z / 8 ≤ h.clocked + 1 + e.patience h.waits

def Bus.data (e : Bus) (z n : Nat) : List Byte := windows 8 e.miso (z + 1) n

/-- What the card sends behind the data. -/
def Bus.crc (e : Bus) (z n : Nat) : BitVec 16 := window 16 e.miso (z + 1 + 8 * n)

/-! ## The token -/

theorem waits_readByte (e : Bus) (h : Host) : (readByte e h).2.waits = h.waits := by
  have hsync : ∀ tx csChange, (spiSyncLocked e tx csChange h).2.waits = h.waits := by
    intro tx csChange
    unfold spiSyncLocked
    split <;> rfl
  rw [readByte, mmcSpiReadbytes, if_neg (by decide), ← hsync (ones 1) true]
  split <;> next heq => rw [heq]

theorem bytes_one (e : Bus) (k : Nat) : e.bytes k 1 = [e.byte k] := rfl

theorem skipLoop_eq (hw : e.Works) {left b : Nat} {h : Host} (hff : ∀ i, h.clocked ≤ i → i < b → e.byte i = 0xff)
    (hb : e.byte b ≠ 0xff) (hk : h.clocked ≤ b) (hleft : b ≤ h.clocked + left) :
    ∃ h', skipLoop e 1 0xff left h = (.ok (e.byte b), h') ∧ h'.clocked = b + 1 := by
  induction left generalizing h with
  | zero =>
    obtain rfl : h.clocked = b := by omega
    obtain ⟨h', hr, hc, -⟩ := mmcSpiReadbytes_eq hw (by decide : 1 ≤ scratchSize) h
    have hfind : [e.byte h.clocked].find? (· ≠ 0xff) = some (e.byte h.clocked) := by
      rw [List.find?_cons_of_pos (by simpa using hb)]
    rw [skipLoop, hr, bytes_one]
    dsimp only
    rw [hfind]
    exact ⟨h', rfl, hc⟩
  | succ left ih =>
    obtain ⟨h', hr, hc, -⟩ := mmcSpiReadbytes_eq hw (by decide : 1 ≤ scratchSize) h
    rw [skipLoop, hr, bytes_one]
    dsimp only
    rcases Nat.eq_or_lt_of_le hk with heq | hlt
    · have hfind : [e.byte h.clocked].find? (· ≠ 0xff) = some (e.byte b) := by
        rw [heq, List.find?_cons_of_pos (by simpa using hb)]
      rw [hfind]
      exact ⟨h', rfl, by omega⟩
    · have hfind : [e.byte h.clocked].find? (· ≠ 0xff) = none := by
        rw [hff _ (Nat.le_refl _) hlt]
        decide
      rw [hfind]
      exact ih (fun i hi => hff i (by omega)) (by omega) (by omega)

theorem blockToken_eq (hw : e.Works) {h : Host} {z : Nat} (hb : BlockAt e h z) :
    ∃ h', blockToken e h = (.ok (e.byte (z / 8)), h') ∧ h'.clocked = z / 8 + 1 := by
  obtain ⟨hlo, hones, hzero, htime⟩ := hb
  have hz : 8 * (z / 8) + z % 8 = z := Nat.div_add_mod z 8
  have hz8 : z % 8 < 8 := Nat.mod_lt z (by decide)
  have hne : e.byte (z / 8) ≠ 0xff := byte_ne_ff hz8 (by rwa [hz])
  obtain ⟨h1, hr, hc, -⟩ := readByte_eq hw h
  have hwaits : h1.waits = h.waits := by
    have hkeep := waits_readByte e h
    rwa [hr] at hkeep
  rw [blockToken, hr]
  dsimp only
  -- the loop starts behind the byte that was read, unless this is the one with the zero
  by_cases hfirst : z / 8 = h.clocked ∧ e.byte h.clocked ≠ 0
  · obtain ⟨heq, h0⟩ := hfirst
    rw [heq] at hne ⊢
    rw [if_neg (not_or.2 ⟨hne, h0⟩)]
    exact ⟨h1, rfl, hc⟩
  · have hlater : h.clocked + 1 ≤ z / 8 := by
      by_cases h0 : e.byte h.clocked = 0
      · rw [if_pos h0] at hlo
        omega
      · rw [if_neg h0] at hlo
        have hneq : z / 8 ≠ h.clocked := fun heq => hfirst ⟨heq, h0⟩
        omega
    have hff : ∀ i, h.clocked + 1 ≤ i → i < z / 8 → e.byte i = 0xff := by
      intro i hi hlt
      refine byte_eq_ff fun j hj => hones _ ?_ (by omega)
      split <;> omega
    have hskip : e.byte h.clocked = 0xff ∨ e.byte h.clocked = 0 := by
      by_cases h0 : e.byte h.clocked = 0
      · exact .inr h0
      · rw [if_neg h0] at hones
        exact .inl (byte_eq_ff fun j hj => hones _ (by omega) (by omega))
    obtain ⟨h', hs, hc'⟩ := skipLoop_eq hw (h := { h1 with waits := h1.waits + 1 })
      (fun i hi => hff i (by dsimp only at hi; omega)) hne (by dsimp only; omega)
      (show z / 8 ≤ h1.clocked + e.patience h1.waits by rw [hwaits]; omega)
    rw [if_pos hskip, mmcSpiReadtoken, mmcSpiSkip, hs]
    exact ⟨h', rfl, hc'⟩

/-! ## Data and CRC -/

theorem realignBlock_eq (e : Bus) {k s n : Nat} (hs : s < 8) :
    realignBlock (7 - s) (e.byte k <<< s <<< 1) (e.bytes (k + 1) n) (e.byte (k + 1 + n), e.byte (k + 1 + n + 1)) =
      (e.data (8 * k + s) n,
        (window 8 e.miso (8 * k + s + 1 + 8 * n), window 8 e.miso (8 * k + s + 1 + 8 * n + 8))) := by
  have hleft : e.byte k <<< s <<< 1 = window 8 e.miso (8 * k) <<< (8 - (7 - s)) := by
    rw [← BitVec.shiftLeft_add, show 8 - (7 - s) = s + 1 by omega]
    rfl
  have hpos : 8 * k + (8 - (7 - s)) = 8 * k + s + 1 := by omega
  by_cases h7 : s = 7
  · subst h7
    have hcrc : 8 * (k + 1 + n) = 8 * k + 7 + 1 + 8 * n := by omega
    have hcrc' : 8 * (k + 1 + n + 1) = 8 * k + 7 + 1 + 8 * n + 8 := by omega
    rw [realignBlock, if_neg (by decide), Bus.byte, Bus.byte, hcrc, hcrc']
    rfl
  · have hdata : e.bytes (k + 1) n = windows 8 e.miso (8 * k + 8) n := rfl
    have htail : [e.byte (k + 1 + n), e.byte (k + 1 + n + 1)] = windows 8 e.miso (8 * k + 8 * n + 8) 2 := by
      rw [windows, windows, windows, Bus.byte, Bus.byte, show 8 * (k + 1 + n) = 8 * k + 8 * n + 8 by omega,
        show 8 * (k + 1 + n + 1) = 8 * k + 8 * n + 8 + 8 by omega]
    rw [realignBlock, if_pos (by omega)]
    dsimp only
    rw [hleft, hdata, realign_windows e.miso (8 * k) n (by omega), htail, realign_windows e.miso _ 2 (by omega), hpos,
      show 8 * k + 8 * n + (8 - (7 - s)) = 8 * k + s + 1 + 8 * n by omega]
    rfl

theorem getD_bytes (e : Bus) (k : Nat) {i n : Nat} (hi : i < n) : (e.bytes k n).getD i 0 = e.byte (k + i) := by
  induction n generalizing k i with
  | zero => omega
  | succ n ih =>
    rw [byte_cons_bytes]
    cases i with
    | zero => rfl
    | succ i =>
      rw [List.getD_cons_succ, ih (k + 1) (by omega), Nat.add_assoc, Nat.add_comm 1 i]

theorem take_bytes (e : Bus) (k : Nat) {i n : Nat} (hi : i ≤ n) : (e.bytes k n).take i = e.bytes k i := by
  obtain ⟨m, rfl⟩ := Nat.exists_eq_add_of_le hi
  rw [Bus.bytes, windows_add, List.take_left' (length_windows _ _ _)]
  rfl

theorem checkBlock_eq (cfg : Config) (data : List Byte) (crc : Byte × Byte) (h : Host) :
    ∃ h', checkBlock cfg data crc h =
        (if cfg.useSpiCrc = true ∧ (crc.1 ++ crc.2 : BitVec 16) ≠ crcItuT data then eilseq.val else 0, data, h') ∧
      h'.clocked = h.clocked ∧ h'.cs = h.cs := by
  rw [checkBlock]
  by_cases hcrc : cfg.useSpiCrc = true
  · simp only [hcrc, if_true, true_and]
    split <;> exact ⟨_, rfl, rfl, rfl⟩
  · rw [if_neg hcrc, if_neg (fun hand => hcrc hand.1)]
    exact ⟨_, rfl, rfl, rfl⟩

theorem readblock_eq (hw : e.Works) (cfg : Config) (multiple : Bool) (rx : List Byte) {h : Host} {z : Nat}
    (hb : BlockAt e h z) : ∃ h', mmcSpiReadblock cfg e multiple rx h =
        (if cfg.useSpiCrc = true ∧ e.crc z rx.length ≠ crcItuT (e.data z rx.length) then eilseq.val else 0,
          e.data z rx.length, h') ∧
      h'.clocked = z / 8 + 1 + (rx.length + 2 + if multiple then 1 else 0) ∧ h'.cs = multiple := by
  obtain ⟨h1, htoken, hc⟩ := blockToken_eq hw hb
  have hz : 8 * (z / 8) + z % 8 = z := Nat.div_add_mod z 8
  have hs : z % 8 < 8 := Nat.mod_lt z (by decide)
  have hones : ∀ i < z % 8, e.miso (8 * (z / 8) + i) = true := by
    intro i hi
    have hlo := hb.lo
    exact hb.ones _ (by omega) (by omega)
  have hzero : e.miso (8 * (z / 8) + z % 8) = false := by
    rw [hz]
    exact hb.zero
  have hlen : (ones (rx.length + 2 + if multiple then 1 else 0)).length = rx.length + 2 + if multiple then 1 else 0 :=
    List.length_replicate
  rw [mmcSpiReadblock, htoken]
  dsimp only
  rw [Bus.byte, leftAdjust_window e.miso _ hs hones hzero, spiSyncLocked_eq hw, hlen, hc]
  dsimp only
  rw [take_bytes e _ (by omega), getD_bytes e _ (by omega), getD_bytes e _ (by omega), ← Bus.byte, ← Nat.add_assoc,
    realignBlock_eq e hs, hz]
  obtain ⟨h', hcheck, hc', hcs'⟩ := checkBlock_eq cfg (e.data z rx.length)
    (window 8 e.miso (z + 1 + 8 * rx.length), window 8 e.miso (z + 1 + 8 * rx.length + 8)) { h1 with
      clocked := z / 8 + 1 + (rx.length + 2 + if multiple then 1 else 0), messages := h1.messages + 1, cs := multiple,
      mosi := h1.mosi ++ ones (rx.length + 2 + if multiple then 1 else 0) }
  refine ⟨h', hcheck.trans ?_, hc', hcs'⟩
  rw [window_append]
  rfl

/-- The frame of a block on the line: its bits and those of its CRC. -/
def Bus.frame (e : Bus) (z n : Nat) : List Bool := (List.range (8 * n + 16)).map fun i => e.miso (z + 1 + i)

theorem frame_eq (e : Bus) (z n : Nat) : e.frame z n = lineBits (e.data z n) ++ wordBits (e.crc z n) := by
  rw [Bus.frame, Bus.data, lineBits_windows, Bus.crc, wordBits_window, List.range_add, List.map_append, List.map_map]
  rfl

/-- What the card sends for a block: the data and its CRC. -/
def blockFrame (block : List Byte) : List Bool := lineBits block ++ wordBits (crcItuT block)

theorem crcMsb_blockFrame (block : List Byte) : crcMsb 0x1021#16 0 (blockFrame block) = 0 :=
  (crcMsb_frame_iff (by decide) (by decide) _ _ _).2 rfl

/-- Wherever the token starts, aligned or not, the data of the block on the line is what arrives in memory, and with the
CRC on the block is refused exactly if the CRC on the line is not that of the data. -/
theorem readblock_at_any_bit (hw : e.Works) (cfg : Config) (multiple : Bool) (rx : List Byte) {h : Host} {z : Nat}
    (hb : BlockAt e h z) : (mmcSpiReadblock cfg e multiple rx h).2.1 = e.data z rx.length ∧
      (mmcSpiReadblock cfg e multiple rx h).1 =
        if cfg.useSpiCrc = true ∧ e.crc z rx.length ≠ crcItuT (e.data z rx.length) then eilseq.val else 0 := by
  obtain ⟨h', hr, -⟩ := readblock_eq hw cfg multiple rx hb
  rw [hr]
  exact ⟨rfl, rfl⟩

/-- A block of the card, with up to 16 bits in a row of its data and its CRC changed on the line, is refused. -/
theorem readblock_burst (hw : e.Works) {cfg : Config} (hcrc : cfg.useSpiCrc = true) (multiple : Bool) (rx : List Byte)
    {h : Host} {z : Nat} (hb : BlockAt e h z) {block : List Byte} (hlen : block.length = rx.length) {q : Nat}
    (hdiff : DifferIn q 16 (e.frame z rx.length) (blockFrame block)) (hne : e.frame z rx.length ≠ blockFrame block) :
    (mmcSpiReadblock cfg e multiple rx h).1 = eilseq.val := by
  obtain ⟨h', hr, -⟩ := readblock_eq hw cfg multiple rx hb
  rw [hr]
  dsimp only
  rw [if_pos]
  refine ⟨hcrc, fun heq => hne ?_⟩
  have hframe : crcMsb 0x1021#16 0 (e.frame z rx.length) = 0 := by
    rw [frame_eq]
    exact (crcMsb_frame_iff (by decide) (by decide) _ _ _).2 heq
  refine frame_eq_of_differIn (by decide) (by decide) ?_ hdiff hframe (crcMsb_blockFrame block)
  rw [Bus.frame, blockFrame, List.length_map, List.length_range, List.length_append, length_lineBits, length_wordBits,
    hlen]

def spiCrc : Config := ⟨true, .little, false⟩

theorem blockAt_lowFor {h : Host} {q n : Nat} (hn : 0 < n) (hc : (lowFor q n).byte h.clocked ≠ 0)
    (hlo : 8 * h.clocked ≤ q) (hhi : q < 8 * h.clocked + 16) : BlockAt (lowFor q n) h q := by
  rw [Nat.add_comm] at hhi
  refine ⟨by rwa [if_neg hc], fun i _ hi => ?_, ?_, ?_⟩
  · simp [lowFor, hi]
  · have hlow : ¬ q + n ≤ q := by omega
    simp [lowFor, hlow]
  · dsimp only [lowFor]
    omega

/-- Two bytes of zeros and their CRC, behind 13 bits. -/
theorem readblock_at_any_bit_zeros : (mmcSpiReadblock spiCrc (lowFor 13 33) false [1, 1] idleHost).1 = 0 := by
  have hread := (readblock_at_any_bit (e := lowFor 13 33) (fun _ => rfl) spiCrc false [1, 1]
    (blockAt_lowFor (h := idleHost) (by decide) (by decide) (by decide) (by decide))).2
  have hcrc : (lowFor 13 33).crc 13 2 = crcItuT ((lowFor 13 33).data 13 2) := by decide +kernel
  exact hread.trans (if_neg fun hand => hand.2 hcrc)

/-- The last four bits of the CRC of this block are changed. -/
theorem readblock_burst_zeros : (mmcSpiReadblock spiCrc (lowFor 13 29) false [1, 1] idleHost).1 = eilseq.val :=
  have hblock := blockAt_lowFor (h := idleHost) (q := 13) (n := 29) (by decide) (by decide) (by decide) (by decide)
  @readblock_burst (lowFor 13 29) (fun _ => rfl) spiCrc rfl false [1, 1] idleHost 13 hblock [0, 0] rfl 16
    (by decide +kernel) (by decide +kernel)

end HgicFmac.MmcSpi
