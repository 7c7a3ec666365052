import HgicFmac.MmcSpi.ReadBlock

/-!
# The answer of the card to a block that is written

* `responsePattern_eq` : the code of the data response, by how many bits it is late; `responsePattern_late` : later than
  24 bits it is not one of the codes;
* `StillBusy`, `skipLoop_busy` : the card is busy until the time is over;
* `writeblock_at_any_bit` : what a block that is written comes to.
-/

namespace HgicFmac.MmcSpi
open Lib

variable {e : Bus}

/-! ## The data response -/

/-- The four bytes behind the CRC, with the first three bits set. -/
def patternWord (e : Bus) (p : Nat) : BitVec 32 := window 32 e.miso p ||| 0xE0000000

theorem getMsbD_top (i : Nat) : (0xE0000000 : BitVec 32).getMsbD i = decide (i < 3) := by
  by_cases hi : i < 32
  · have hall : ∀ i < 32, (0xE0000000 : BitVec 32).getMsbD i = decide (i < 3) := by decide
    exact hall i hi
  · rw [BitVec.getMsbD_of_ge _ _ (by omega), decide_eq_false (by omega)]

theorem getMsbD_patternWord (e : Bus) (p : Nat) (i : Nat) :
    (patternWord e p).getMsbD i = (decide (i < 32) && e.miso (p + i) || decide (i < 3)) := by
  rw [patternWord, BitVec.getMsbD_or, getMsbD_window, getMsbD_top]

theorem window_four (line : Nat → Bool) (p : Nat) :
    (window 8 line p ++ window 8 line (p + 8) ++ window 8 line (p + 16) ++ window 8 line (p + 24) : BitVec 32) =
      window 32 line p := by
  rw [window_append line p, window_append line p, window_append line p]

theorem responsePattern_word (e : Bus) {k n : Nat} (hn : 4 ≤ n) :
    responsePattern (e.bytes k n) = (leftAdjust 32 (patternWord e (8 * k))).2 >>> 27 := by
  rw [responsePattern, getD_bytes e k (by omega), getD_bytes e k (by omega), getD_bytes e k (by omega),
    getD_bytes e k (by omega), patternWord, ← window_four]
  rfl

/-- A response that is late by `j` bits. -/
theorem responsePattern_eq {k n j : Nat} (hn : 4 ≤ n) (hj : j ≤ 24) (hones : ∀ i < j, e.miso (8 * k + 3 + i) = true)
    (hzero : e.miso (8 * k + 3 + j) = false) :
    responsePattern (e.bytes k n) = (window 5 e.miso (8 * k + 3 + j)).setWidth 32 := by
  have hadjust : leftAdjust 32 (patternWord e (8 * k)) = (3 + j, patternWord e (8 * k) <<< (3 + j)) := by
    refine leftAdjust_eq 32 _ (fun i hi => ?_) ?_ (by omega)
    · rw [getMsbD_patternWord]
      by_cases h3 : i < 3
      · rw [decide_eq_true h3, Bool.or_true]
      · have hbit := hones (i - 3) (by omega)
        rw [show 8 * k + 3 + (i - 3) = 8 * k + i by omega] at hbit
        rw [hbit, decide_eq_true (by omega)]
        rfl
    · rw [getMsbD_patternWord, ← Nat.add_assoc, hzero, Bool.and_false, decide_eq_false (by omega)]
      rfl
  rw [responsePattern_word e hn, hadjust]
  apply BitVec.eq_of_getMsbD_eq
  intro i hi
  rw [BitVec.getMsbD_ushiftRight, BitVec.getMsbD_shiftLeft, getMsbD_patternWord, BitVec.getMsbD_setWidth,
    getMsbD_window]
  by_cases h27 : i < 27
  · have hle : ¬ 27 ≤ i := by omega
    simp [h27, hle]
  · have h3 : ¬ i - 27 + (3 + j) < 3 := by omega
    have h32 : i - 27 + (3 + j) < 32 := by omega
    have hle : 27 ≤ i := by omega
    have hpos : 8 * k + (i - 27 + (3 + j)) = 8 * k + 3 + j + (i - 27) := by omega
    have h5 : i - 27 < 5 := by omega
    simp [h27, h3, h32, hi, hle, hpos, h5]

/-- Without a zero in the first 28 bits the last bit of the pattern is 0. -/
theorem responsePattern_late {k n : Nat} (hn : 4 ≤ n) (hones : ∀ i ≤ 24, e.miso (8 * k + 3 + i) = true) :
    (responsePattern (e.bytes k n)).getLsbD 0 = false := by
  have hset : ∀ i < 28, (patternWord e (8 * k)).getMsbD i = true := by
    intro i hi
    rw [getMsbD_patternWord]
    by_cases h3 : i < 3
    · rw [decide_eq_true h3, Bool.or_true]
    · have hbit := hones (i - 3) (by omega)
      rw [show 8 * k + 3 + (i - 3) = 8 * k + i by omega] at hbit
      rw [hbit, decide_eq_true (by omega)]
      rfl
  -- the first zero, which may be the one behind the word
  obtain ⟨z, hz28, hz32, hones', hzero⟩ : ∃ z, 28 ≤ z ∧ z ≤ 32 ∧ (∀ i < z, (patternWord e (8 * k)).getMsbD i = true) ∧
      (patternWord e (8 * k)).getMsbD z = false := by
    have hex : ∃ z, (patternWord e (8 * k)).getMsbD z = false := ⟨32, BitVec.getMsbD_of_ge _ _ (Nat.le_refl _)⟩
    refine ⟨Nat.find hex, ?_, Nat.find_min' hex (BitVec.getMsbD_of_ge _ _ (Nat.le_refl _)), fun i hi => ?_,
      Nat.find_spec hex⟩
    · by_contra hlt
      have hfalse := Nat.find_spec hex
      rw [hset _ (by omega)] at hfalse
      cases hfalse
    · simpa using Nat.find_min hex hi
  rw [responsePattern_word e hn, leftAdjust_eq 32 _ hones' hzero hz32, BitVec.getLsbD_ushiftRight,
    BitVec.getLsbD_shiftLeft]
  by_cases hge : 27 < z
  · simp [hge]
  · omega

theorem patternStatus_even {pattern : BitVec 32} (h : pattern.getLsbD 0 = false) : patternStatus pattern = eproto := by
  have hne : ∀ code : BitVec 32, code.getLsbD 0 = true → pattern ≠ code := by
    rintro code hcode rfl
    rw [hcode] at h
    cases h
  rw [patternStatus, if_neg (hne _ (by decide)), if_neg (hne _ (by decide)), if_neg (hne _ (by decide))]

/-! ## Busy -/

/-- No byte of the status behind the fourth ends in a one, and all bytes that are read until the time is over are
zero. -/
def StillBusy (e : Bus) (k w : Nat) : Prop :=
  (∀ i, 4 ≤ i → i < scratchStatus → e.miso (8 * (k + i) + 7) = false) ∧
    ∀ i < scratchStatus * (e.patience w + 1), e.byte (k + scratchStatus + i) = 0

theorem find_bytes_eq_none {k n : Nat} : (e.bytes k n).find? (· ≠ 0) = none ↔ ∀ i < n, e.byte (k + i) = 0 := by
  induction n generalizing k with
  | zero => simp [Bus.bytes, windows]
  | succ n ih =>
    rw [byte_cons_bytes, List.find?_cons]
    by_cases h0 : e.byte k = 0
    · simp only [h0, ne_eq, not_true_eq_false, decide_false]
      rw [ih]
      constructor
      · intro h i hi
        cases i with
        | zero => exact h0
        | succ i =>
          rw [← Nat.add_assoc, Nat.add_right_comm]
          exact h i (by omega)
      · intro h i hi
        rw [Nat.add_right_comm]
        exact h (i + 1) (by omega)
    · simp only [h0, ne_eq, not_false_eq_true, decide_true]
      exact iff_of_false (Option.some_ne_none _) fun h => h0 (h 0 (by omega))

theorem skipLoop_busy (hw : e.Works) (left : Nat) (h : Host) :
    if ∀ i < scratchStatus * (left + 1), e.byte (h.clocked + i) = 0 then
      (skipLoop e scratchStatus 0 left h).1 = .error etimedout
    else ∃ b, (skipLoop e scratchStatus 0 left h).1 = .ok b := by
  induction left generalizing h with
  | zero =>
    obtain ⟨h', hr, hc, -⟩ := mmcSpiReadbytes_eq hw (by decide : scratchStatus ≤ scratchSize) h
    rw [skipLoop, hr]
    dsimp only
    split
    · next hall =>
      have hnone : (e.bytes h.clocked scratchStatus).find? (· ≠ 0) = none := find_bytes_eq_none.2 hall
      rw [hnone]
    · next hall =>
      cases hf : (e.bytes h.clocked scratchStatus).find? (· ≠ 0) with
      | none => exact absurd (find_bytes_eq_none.1 hf) hall
      | some b => exact ⟨b, rfl⟩
  | succ left ih =>
    obtain ⟨h', hr, hc, -⟩ := mmcSpiReadbytes_eq hw (by decide : scratchStatus ≤ scratchSize) h
    have ih' := ih h'
    rw [skipLoop, hr]
    dsimp only
    cases hf : (e.bytes h.clocked scratchStatus).find? (· ≠ 0) with
    | some b =>
      have hne : ¬ ∀ i < scratchStatus * (left + 1 + 1), e.byte (h.clocked + i) = 0 := by
        intro hall
        rw [find_bytes_eq_none.2 fun i hi => hall i (by unfold scratchStatus at hi ⊢; omega)] at hf
        cases hf
      rw [if_neg hne]
      exact ⟨b, rfl⟩
    | none =>
      have hfirst := find_bytes_eq_none.1 hf
      have hsplit : (∀ i < scratchStatus * (left + 1 + 1), e.byte (h.clocked + i) = 0) ↔
          ∀ i < scratchStatus * (left + 1), e.byte (h'.clocked + i) = 0 := by
        rw [hc]
        constructor
        · intro hall i hi
          rw [Nat.add_assoc]
          exact hall _ (by unfold scratchStatus at hi ⊢; omega)
        · intro hall i hi
          by_cases hlt : i < scratchStatus
          · exact hfirst i hlt
          · have hrest := hall (i - scratchStatus) (by unfold scratchStatus at hi ⊢ hlt; omega)
            rwa [Nat.add_assoc, Nat.add_sub_cancel' (Nat.le_of_not_lt hlt)] at hrest
      simp only [hsplit]
      exact ih'

theorem waitUnbusy_busy (hw : e.Works) (h : Host) :
    if ∀ i < scratchStatus * (e.patience h.waits + 1), e.byte (h.clocked + i) = 0 then
      (mmcSpiWaitUnbusy e h).1 = .error etimedout
    else ∃ b, (mmcSpiWaitUnbusy e h).1 = .ok b :=
  skipLoop_busy hw (e.patience h.waits) { h with waits := h.waits + 1 }

theorem any_drop_bytes (e : Bus) (k : Nat) {n m : Nat} (f : Byte → Bool) :
    ((e.bytes k n).drop m).any f = false ↔ ∀ i, m ≤ i → i < n → f (e.byte (k + i)) = false := by
  induction n generalizing k m with
  | zero => simp [Bus.bytes, windows]
  | succ n ih =>
    rw [byte_cons_bytes]
    cases m with
    | zero =>
      have ih0 := ih (k + 1) (m := 0)
      rw [List.drop_zero] at ih0
      rw [List.drop_zero, List.any_cons, Bool.or_eq_false_iff, ih0]
      constructor
      · rintro ⟨h0, hrest⟩ i _ hi
        cases i with
        | zero => exact h0
        | succ i =>
          rw [← Nat.add_assoc, Nat.add_right_comm]
          exact hrest i (by omega) (by omega)
      · intro hall
        refine ⟨hall 0 (by omega) (by omega), fun i _ hi => ?_⟩
        rw [Nat.add_right_comm]
        exact hall (i + 1) (by omega) (by omega)
    | succ m =>
      rw [List.drop_succ_cons, ih]
      constructor
      · intro hall i hm hi
        obtain ⟨i, rfl⟩ : ∃ j, i = j + 1 := ⟨i - 1, by omega⟩
        rw [← Nat.add_assoc, Nat.add_right_comm]
        exact hall i (by omega) (by omega)
      · intro hall i hm hi
        rw [Nat.add_right_comm]
        exact hall (i + 1) (by omega) (by omega)

/-! ## A block that is written -/

/-- The byte of the line behind the token, the data and the CRC. -/
def writeStop (h : Host) (tx : List Byte) : Nat := h.clocked + tx.length + 3

/-- The message of a block: the bytes that are sent, and the status behind them. -/
theorem writeblock_sync (hw : e.Works) (cfg : Config) (multiple : Bool) (tx : List Byte) (h : Host) :
    ∃ crc : Byte × Byte, ∃ h1 : Host, (cfg.useSpiCrc = true → crc = crcBytes (crcItuT tx)) ∧ h1.waits = h.waits ∧
      h1.clocked = writeStop h tx + scratchStatus ∧ h1.cs = true ∧
      h1.mosi = h.mosi ++ (writeToken multiple :: (tx ++ [crc.1, crc.2]) ++ ones scratchStatus) ∧
      mmcSpiWriteblock cfg e multiple tx h =
        let result := patternStatus (responsePattern (e.bytes (writeStop h tx) scratchStatus))
        if result ≠ 0 then (result, h1)
        else if ((e.bytes (writeStop h tx) scratchStatus).drop 4).any (·.getLsbD 0) then (0, h1)
        else (unbusyStatus (mmcSpiWaitUnbusy e h1).1, (mmcSpiWaitUnbusy e h1).2) := by
  obtain ⟨crc, hcrc⟩ : ∃ crc, (if cfg.useSpiCrc then crcBytes (crcItuT tx) else h.crcVal) = crc := ⟨_, rfl⟩
  have hframe : (writeToken multiple :: (tx ++ [crc.1, crc.2])).length = tx.length + 3 := by
    rw [List.length_cons, List.length_append]
    rfl
  have hlen : (writeToken multiple :: (tx ++ [crc.1, crc.2]) ++ ones scratchStatus).length =
      tx.length + 3 + scratchStatus := by
    rw [List.length_append, hframe, ones, List.length_replicate]
  have hdrop : (e.bytes h.clocked (tx.length + 3 + scratchStatus)).drop (tx.length + 3) =
      e.bytes (writeStop h tx) scratchStatus := by
    have hpos : 8 * h.clocked + 8 * (tx.length + 3) = 8 * writeStop h tx := by
      unfold writeStop
      omega
    rw [Bus.bytes, windows_add, List.drop_left' (length_windows _ _ _), hpos]
    rfl
  refine ⟨crc, { h with
    clocked := h.clocked + (tx.length + 3 + scratchStatus), messages := h.messages + 1, cs := true, crcVal := crc,
    mosi := h.mosi ++ (writeToken multiple :: (tx ++ [crc.1, crc.2]) ++ ones scratchStatus) },
    fun huse => by rw [← hcrc, if_pos huse], rfl, by rw [writeStop]; dsimp only; omega, rfl, rfl, ?_⟩
  rw [mmcSpiWriteblock, hcrc]
  dsimp only
  rw [spiSyncLocked_eq hw, hlen]
  dsimp only
  rw [hframe, hdrop]

/-- By how many bits the data response of the card is late, up to 24, the driver finds it: it returns the error that the
response stands for, or after an accepting one waits until the card is not busy, and times out if it stays so. Without a
response in these bits it returns `-EPROTO`. -/
theorem writeblock_at_any_bit (hw : e.Works) (cfg : Config) (multiple : Bool) (tx : List Byte) (h : Host) :
    (∀ j ≤ 24, (∀ i < j, e.miso (8 * writeStop h tx + 3 + i) = true) → e.miso (8 * writeStop h tx + 3 + j) = false →
      let status := patternStatus ((window 5 e.miso (8 * writeStop h tx + 3 + j)).setWidth 32)
      (status ≠ 0 → (mmcSpiWriteblock cfg e multiple tx h).1 = status) ∧
      (status = 0 → StillBusy e (writeStop h tx) h.waits → (mmcSpiWriteblock cfg e multiple tx h).1 = etimedout.val) ∧
      (status = 0 → ¬ StillBusy e (writeStop h tx) h.waits → 0 ≤ (mmcSpiWriteblock cfg e multiple tx h).1)) ∧
    ((∀ j ≤ 24, e.miso (8 * writeStop h tx + 3 + j) = true) →
      (mmcSpiWriteblock cfg e multiple tx h).1 = eproto.val) := by
  obtain ⟨crc, h1, -, hwaits, hclk, -, -, hwrite⟩ := writeblock_sync hw cfg multiple tx h
  have hlsb : ∀ k, (e.byte k).getLsbD 0 = e.miso (8 * k + 7) := by
    intro k
    have hbit := getMsbD_window (w := 8) e.miso (8 * k) 7
    rw [BitVec.getMsbD_eq_getLsbD] at hbit
    exact hbit
  have hany : ((e.bytes (writeStop h tx) scratchStatus).drop 4).any (·.getLsbD 0) = false ↔
      ∀ i, 4 ≤ i → i < scratchStatus → e.miso (8 * (writeStop h tx + i) + 7) = false := by
    rw [any_drop_bytes]
    simp only [hlsb]
  have hskip := waitUnbusy_busy hw h1
  rw [hwaits, hclk] at hskip
  rw [hwrite]
  dsimp only
  constructor
  · intro j hj hones hzero
    rw [responsePattern_eq (by decide) hj hones hzero]
    generalize patternStatus ((window 5 e.miso (8 * writeStop h tx + 3 + j)).setWidth 32) = status
    refine ⟨fun hne => by rw [if_pos hne], fun h0 hbusy => ?_, fun h0 hfree => ?_⟩
    · rw [if_neg (not_not.2 h0), hany.2 hbusy.1, if_neg Bool.false_ne_true]
      rw [if_pos hbusy.2] at hskip
      rw [hskip]
      rfl
    · rw [if_neg (not_not.2 h0)]
      by_cases hfound : ((e.bytes (writeStop h tx) scratchStatus).drop 4).any (·.getLsbD 0) = true
      · rw [if_pos hfound]
      · have hnone := hany.1 (Bool.eq_false_of_not_eq_true hfound)
        rw [if_neg fun hall => hfree ⟨hnone, hall⟩] at hskip
        obtain ⟨b, hb⟩ := hskip
        rw [if_neg hfound, hb]
        exact Int.natCast_nonneg _
  · intro hones
    rw [patternStatus_even (responsePattern_late (by decide) hones), if_pos (by decide)]

/-- A card that takes a block of one byte, with a response that is three bits late, and then is not busy. -/
def acceptsLate : Bus := ⟨fun i => decide (i < 38 ∨ i = 40 ∨ 41 < i), fun _ => none, fun _ => 0⟩

theorem writeblock_at_any_bit_accepted : 0 ≤ (mmcSpiWriteblock spiCrc acceptsLate false [0x55] idleHost).1 := by
  have hwrite := (writeblock_at_any_bit (e := acceptsLate) (fun _ => rfl) spiCrc false [0x55] idleHost).1 3 (by decide)
    (by decide) (by decide)
  refine hwrite.2.2 (by decide +kernel) fun hbusy => ?_
  have hend := hbusy.1 4 (by decide) (by decide)
  revert hend
  decide

end HgicFmac.MmcSpi
