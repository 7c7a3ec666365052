import HgicFmac.MmcSpi.Model

/-!
# Responses at any bit

A response starts at the first zero of the line behind the byte that the driver ignores, wherever this is: the driver
puts the bytes together again.

* `Bus.Works` : no message fails; `Reads e k cp h` : `cp` are the bytes of the line from byte `k` on that are here
  already;
* `nextByte_eq`, `findStatus_eq`, `alignStatus_eq`, `responseBytes_eq` : one lemma a step of `mmc_spi_response_get`;
* `commandSend_eq` : a command and its response; `response_at_any_bit` and `response_value` : what it comes to.
-/

namespace HgicFmac.MmcSpi
open Lib

def Bus.Works (e : Bus) : Prop := ∀ n, e.fails n = none

variable {e : Bus}

/-! ## Reading -/

theorem spiSyncLocked_eq (hw : e.Works) (tx : List Byte) (csChange : Bool) (h : Host) :
    spiSyncLocked e tx csChange h = (.ok (e.bytes h.clocked tx.length),
      { h with
        clocked := h.clocked + tx.length, messages := h.messages + 1, cs := csChange, mosi := h.mosi ++ tx }) := by
  rw [spiSyncLocked, hw]

theorem mmcSpiReadbytes_eq (hw : e.Works) {len : Nat} (hlen : len ≤ scratchSize) (h : Host) :
    ∃ h', mmcSpiReadbytes e len h = (.ok (e.bytes h.clocked len), h') ∧ h'.clocked = h.clocked + len ∧
      h'.cs = true := by
  have hones : (ones len).length = len := List.length_replicate
  rw [mmcSpiReadbytes, if_neg (by omega), spiSyncLocked_eq hw, hones]
  exact ⟨_, rfl, rfl, rfl⟩

theorem readByte_eq (hw : e.Works) (h : Host) :
    ∃ h', readByte e h = (.ok (e.byte h.clocked), h') ∧ h'.clocked = h.clocked + 1 ∧ h'.cs = true := by
  obtain ⟨h', hr, hc, hcs⟩ := mmcSpiReadbytes_eq hw (by decide : 1 ≤ scratchSize) h
  rw [readByte, hr]
  exact ⟨h', rfl, hc, hcs⟩

theorem cs_skipLoop (hw : e.Works) {n : Nat} (hn : n ≤ scratchSize) (byte : Byte) (left : Nat) (h : Host) :
    (skipLoop e n byte left h).2.cs = true := by
  induction left generalizing h with
  | zero =>
    obtain ⟨h', hr, -, hcs⟩ := mmcSpiReadbytes_eq hw hn h
    rw [skipLoop, hr]
    dsimp only
    split <;> exact hcs
  | succ left ih =>
    obtain ⟨h', hr, -, hcs⟩ := mmcSpiReadbytes_eq hw hn h
    rw [skipLoop, hr]
    dsimp only
    split
    · exact hcs
    · exact ih h'

theorem byte_cons_bytes (e : Bus) (k n : Nat) : e.bytes k (n + 1) = e.byte k :: e.bytes (k + 1) n := by
  rw [Bus.bytes, windows]
  rfl

def Reads (e : Bus) (k : Nat) (cp : List Byte) (h : Host) : Prop := k ≤ h.clocked ∧ cp = e.bytes k (h.clocked - k)

theorem Reads.nil_iff {k : Nat} {cp : List Byte} {h : Host} (hr : Reads e k cp h) : cp = [] ↔ h.clocked = k := by
  obtain ⟨hle, rfl⟩ := hr
  rw [← List.length_eq_zero_iff, Bus.bytes, length_windows]
  omega

theorem nextByte_eq (hw : e.Works) {k : Nat} {cp : List Byte} {h : Host} (hr : Reads e k cp h) (hcs : h.cs = true) :
    ∃ cp' h', nextByte e cp h = (.ok (e.byte k, cp'), h') ∧ Reads e (k + 1) cp' h' ∧
      h'.clocked = max h.clocked (k + 1) ∧ h'.cs = true := by
  obtain ⟨hle, rfl⟩ := hr
  rcases Nat.eq_or_lt_of_le hle with heq | hlt
  · obtain ⟨h', hrb, hc, hcs'⟩ := readByte_eq hw h
    have hnil : e.bytes k (h.clocked - k) = [] := by
      rw [heq, Nat.sub_self]
      rfl
    refine ⟨[], h', ?_, ⟨by omega, ?_⟩, by omega, hcs'⟩
    · rw [hnil, nextByte, hrb, heq]
    · have hzero : h'.clocked - (k + 1) = 0 := by omega
      rw [hzero]
      rfl
  · obtain ⟨n, hn⟩ : ∃ n, h.clocked - k = n + 1 := ⟨h.clocked - k - 1, by omega⟩
    have hrest : h.clocked - (k + 1) = n := by omega
    refine ⟨e.bytes (k + 1) n, h, ?_, ⟨hlt, by rw [hrest]⟩, by omega, hcs⟩
    rw [hn, byte_cons_bytes, nextByte]

/-! ## The first byte of the response -/

theorem dropWhile_bytes {k b n : Nat} (hff : ∀ i, k ≤ i → i < b → e.byte i = 0xff) (hb : e.byte b ≠ 0xff) (hk : k ≤ b)
    (hbn : b < k + n) : (e.bytes k n).dropWhile (· == 0xff) = e.byte b :: e.bytes (b + 1) (k + n - (b + 1)) := by
  induction n generalizing k with
  | zero => omega
  | succ n ih =>
    rw [byte_cons_bytes]
    rcases Nat.eq_or_lt_of_le hk with rfl | hlt
    · have hne : (e.byte k == 0xff) = false := beq_false_of_ne hb
      have hlen : k + (n + 1) - (k + 1) = n := by omega
      rw [List.dropWhile_cons, hne, hlen]
      rfl
    · have hlen : k + (n + 1) = k + 1 + n := by omega
      have heq : (e.byte k == 0xff) = true := beq_iff_eq.2 (hff k (Nat.le_refl k) hlt)
      rw [List.dropWhile_cons, heq, if_pos rfl, ih (fun i hi => hff i (by omega)) hlt (by omega), hlen]

theorem dropWhile_bytes_eq_nil {k n : Nat} (hff : ∀ i, k ≤ i → i < k + n → e.byte i = 0xff) :
    (e.bytes k n).dropWhile (· == 0xff) = [] := by
  induction n generalizing k with
  | zero => rfl
  | succ n ih =>
    have heq : (e.byte k == 0xff) = true := beq_iff_eq.2 (hff k (Nat.le_refl k) (by omega))
    rw [byte_cons_bytes, List.dropWhile_cons, heq, if_pos rfl]
    exact ih fun i hi hlt => hff i (by omega) (by omega)

theorem lateStatus_eq (hw : e.Works) {n b : Nat} {h : Host} (hff : ∀ i, h.clocked ≤ i → i < b → e.byte i = 0xff)
    (hb : e.byte b ≠ 0xff) (hk : h.clocked ≤ b) (hn : b < h.clocked + n) :
    ∃ h', lateStatus e n h = (.ok (e.byte b, []), h') ∧ h'.clocked = b + 1 ∧ h'.cs = true := by
  induction n generalizing h with
  | zero => omega
  | succ n ih =>
    obtain ⟨h', hr, hc, hcs⟩ := readByte_eq hw h
    rw [lateStatus, hr]
    dsimp only
    rcases Nat.eq_or_lt_of_le hk with heq | hlt
    · rw [heq, if_pos hb]
      exact ⟨h', rfl, by omega, hcs⟩
    · rw [hff h.clocked (Nat.le_refl _) hlt, if_neg (by decide)]
      exact ih (fun i hi => hff i (by omega)) (by omega) (by omega)

theorem findStatus_eq (hw : e.Works) {c len b : Nat} {h : Host} (hlen : 8 ≤ len) (hc : h.clocked = c + len)
    (hcs : h.cs = true) (hff : ∀ i, c + 8 ≤ i → i < b → e.byte i = 0xff) (hb : e.byte b ≠ 0xff) (hlo : c + 8 ≤ b)
    (hhi : b < c + len + 14) : ∃ cp h', findStatus e (e.bytes c len) h = (.ok (e.byte b, cp), h') ∧
      Reads e (b + 1) cp h' ∧ h'.clocked = max (c + len) (b + 1) ∧ h'.cs = true := by
  have hdrop : (e.bytes c len).drop 8 = e.bytes (c + 8) (len - 8) := by
    obtain ⟨n, rfl⟩ : ∃ n, len = 8 + n := ⟨len - 8, by omega⟩
    have hpos : 8 * c + 8 * 8 = 8 * (c + 8) := by omega
    rw [Bus.bytes, windows_add, List.drop_left' (length_windows _ _ _), hpos, Nat.add_sub_cancel_left]
    rfl
  have hend : c + 8 + (len - 8) = c + len := by omega
  rw [findStatus, hdrop]
  by_cases hin : b < c + len
  · rw [dropWhile_bytes hff hb hlo (by omega), hend]
    exact ⟨_, h, rfl, ⟨by omega, by rw [hc]⟩, by omega, hcs⟩
  · obtain ⟨h', hl, hc', hcs'⟩ := lateStatus_eq hw (n := 14) (h := h) (fun i hi => hff i (by omega)) hb (by omega)
      (by omega)
    rw [dropWhile_bytes_eq_nil (fun i hi hlt => hff i hi (by omega))]
    refine ⟨[], h', hl, ⟨by omega, ?_⟩, by omega, hcs'⟩
    rw [hc', Nat.sub_self]
    rfl

theorem byte_eq_ff {k : Nat} (h : ∀ i < 8, e.miso (8 * k + i) = true) : e.byte k = 0xff := by
  have hff : ∀ i < 8, (0xff : Byte).getMsbD i = true := by decide
  symm
  apply eq_window
  intro i hi
  rw [hff i hi, h i hi]

theorem byte_ne_ff {k i : Nat} (hi : i < 8) (h : e.miso (8 * k + i) = false) : e.byte k ≠ 0xff := by
  have hff : ∀ i < 8, (0xff : Byte).getMsbD i = true := by decide
  intro heq
  have hbit := congrArg (fun x => x.getMsbD i) heq
  rw [hff i hi, Bus.byte, getMsbD_window, h, Bool.and_false] at hbit
  cases hbit

/-! ## Bits in the register -/

theorem shift_append (x y : Byte) {s : Nat} (hs : s ≤ 8) :
    ((x <<< s).setWidth 16 <<< 8) ||| (y.setWidth 16 <<< s) = ((x ++ y : BitVec 16) <<< s) := by
  apply BitVec.eq_of_getLsbD_eq
  intro i hi
  simp only [BitVec.getLsbD_or, BitVec.getLsbD_shiftLeft, BitVec.getLsbD_setWidth, BitVec.getLsbD_append]
  grind

theorem high_shift_append (x y : Byte) {s : Nat} (hs : s ≤ 8) :
    (((x ++ y : BitVec 16) <<< s) >>> 8).setWidth 8 = (x <<< s) ||| (y >>> (8 - s)) := by
  apply BitVec.eq_of_getLsbD_eq
  intro i hi
  simp only [BitVec.getLsbD_or, BitVec.getLsbD_shiftLeft, BitVec.getLsbD_ushiftRight, BitVec.getLsbD_setWidth,
    BitVec.getLsbD_append]
  grind

theorem low_shift_append (x y : Byte) (s : Nat) : ((x ++ y : BitVec 16) <<< s).setWidth 8 = y <<< s := by
  apply BitVec.eq_of_getLsbD_eq
  intro i hi
  simp only [BitVec.getLsbD_shiftLeft, BitVec.getLsbD_setWidth, BitVec.getLsbD_append]
  grind

theorem shift_shift_append (x y : Byte) (s : Nat) :
    ((x ++ y : BitVec 16) <<< s) <<< 8 = (y <<< s).setWidth 16 <<< 8 := by
  apply BitVec.eq_of_getLsbD_eq
  intro i hi
  simp only [BitVec.getLsbD_shiftLeft, BitVec.getLsbD_setWidth, BitVec.getLsbD_append]
  grind

theorem setWidth_high (x : BitVec 16) : (x >>> 8).setWidth 32 = ((x >>> 8).setWidth 8).setWidth 32 := by
  apply BitVec.eq_of_getLsbD_eq
  intro i hi
  simp only [BitVec.getLsbD_ushiftRight, BitVec.getLsbD_setWidth]
  grind

theorem byte_append (e : Bus) (k : Nat) : (e.byte k ++ e.byte (k + 1) : BitVec 16) = window 16 e.miso (8 * k) :=
  window_append e.miso (8 * k)

theorem high_byte_append (e : Bus) (k : Nat) {s : Nat} (hs : s ≤ 8) :
    (((e.byte k ++ e.byte (k + 1) : BitVec 16) <<< s) >>> 8).setWidth 8 = window 8 e.miso (8 * k + s) := by
  rw [high_shift_append _ _ hs]
  exact window_shift e.miso (8 * k) hs

/-! ## The rest of the response -/

/-- A response that is not aligned ends in one more byte. -/
def lateByte (s : Nat) : Nat := if s = 0 then 0 else 1

theorem alignStatus_eq (hw : e.Works) {b s : Nat} {cp : List Byte} {h : Host} (hs : s < 8)
    (hones : ∀ i < s, e.miso (8 * b + i) = true) (hzero : e.miso (8 * b + s) = false) (hr : Reads e (b + 1) cp h)
    (hcs : h.cs = true) : ∃ a h', alignStatus e (e.byte b) cp h = (.ok a, h') ∧
      a.resp0 = (window 8 e.miso (8 * b + s)).setWidth 32 ∧ a.bitshift = s ∧
      (s ≠ 0 → a.leftover = e.byte (b + 1) <<< s) ∧ Reads e (b + 1 + lateByte s) a.cp h' ∧
      h'.clocked = max h.clocked (b + 1 + lateByte s) ∧ h'.cs = true := by
  have hmsb : (e.byte b).msb = e.miso (8 * b) := by
    rw [BitVec.msb_eq_getMsbD_zero, Bus.byte, getMsbD_window]
    rfl
  rw [alignStatus, hmsb]
  by_cases h0 : s = 0
  · subst h0
    have hle := hr.1
    rw [Nat.add_zero] at hzero
    rw [hzero, if_neg Bool.false_ne_true]
    refine ⟨_, h, rfl, rfl, rfl, fun hne => absurd rfl hne, hr, ?_, hcs⟩
    change h.clocked = max h.clocked (b + 1)
    omega
  · obtain ⟨cp', h', hn, hr', hc, hcs'⟩ := nextByte_eq hw hr hcs
    have hfirst := hones 0 (by omega)
    rw [Nat.add_zero] at hfirst
    have hword : ((e.byte b).setWidth 16 <<< 8) ||| (e.byte (b + 1)).setWidth 16 = window 16 e.miso (8 * b) := by
      have hjoin := shift_append (e.byte b) (e.byte (b + 1)) (Nat.zero_le 8)
      rw [BitVec.shiftLeft_zero, BitVec.shiftLeft_zero, BitVec.shiftLeft_zero] at hjoin
      rw [hjoin, byte_append]
    have hadjust := leftAdjust_window e.miso (8 * b) (show s < 16 by omega) hones hzero
    have hlate : lateByte s = 1 := if_neg h0
    rw [hfirst, if_pos rfl, hn]
    dsimp only
    rw [hword, hadjust, hlate]
    refine ⟨_, h', rfl, ?_, rfl, fun _ => ?_, hr', hc, hcs'⟩
    · change ((window 16 e.miso (8 * b) <<< s) >>> 8).setWidth 32 = _
      rw [setWidth_high, ← byte_append, high_byte_append e b (by omega)]
    · change (window 16 e.miso (8 * b) <<< s).setWidth 8 = _
      rw [← byte_append, low_shift_append]

/-- The register holds the bits of the byte in front of `k` that belong to the next byte of the response. -/
def Holds (e : Bus) (s k : Nat) (rotator : BitVec 16) : Prop :=
  s ≠ 0 → ∃ j, k = j + 1 ∧ rotator = (e.byte j <<< s).setWidth 16 <<< 8

theorem nextResponse_eq {s k : Nat} {rotator : BitVec 16} (hs : s < 8) (hh : Holds e s k rotator) :
    ∃ next : Byte × BitVec 16, (if s ≠ 0 then rotate s rotator (e.byte k) else (e.byte k, rotator)) = next ∧
      next.1 = window 8 e.miso (8 * (k - lateByte s) + s) ∧ Holds e s (k + 1) next.2 := by
  by_cases h0 : s = 0
  · subst h0
    rw [if_neg (by simp)]
    exact ⟨_, rfl, rfl, fun hne => absurd rfl hne⟩
  · obtain ⟨j, rfl, rfl⟩ := hh h0
    have hlate : lateByte s = 1 := if_neg h0
    rw [if_pos h0, hlate, Nat.add_sub_cancel]
    refine ⟨_, rfl, ?_, fun _ => ⟨j + 1, rfl, ?_⟩⟩
    · dsimp only [rotate]
      rw [shift_append _ _ (by omega), high_byte_append e j (by omega)]
    · dsimp only [rotate]
      rw [shift_append _ _ (by omega), shift_shift_append]

def shiftIn (r : BitVec 32) (c : Byte) : BitVec 32 := (r <<< 8) ||| c.setWidth 32

/-- The bytes of the loop are those of the line, and `value` is lost when one of them has to be read. -/
theorem responseBytes_eq (hw : e.Works) {n s k : Nat} {rotator : BitVec 16} {cp : List Byte} (resp1 : BitVec 32)
    (value : Int) {h : Host} (hs : s < 8) (hk : lateByte s ≤ k) (hh : Holds e s k rotator) (hr : Reads e k cp h)
    (hcs : h.cs = true) : ∃ h', responseBytes e s n rotator cp resp1 value h =
        (if k + n ≤ max h.clocked k then value else 0,
          (windows 8 e.miso (8 * (k - lateByte s) + s) n).foldl shiftIn resp1, true, h') ∧
      h'.clocked = max h.clocked (k + n) ∧ h'.cs = true := by
  induction n generalizing k rotator cp resp1 value h with
  | zero =>
    have hle := hr.1
    rw [if_pos (by omega)]
    exact ⟨h, rfl, by omega, hcs⟩
  | succ n ih =>
    obtain ⟨cp', h1, hn, hr', hc, hcs'⟩ := nextByte_eq hw hr hcs
    obtain ⟨next, hnext, hbyte, hh'⟩ := nextResponse_eq hs hh
    have hnil := hr.nil_iff
    have hle := hr.1
    have hpos : 8 * (k + 1 - lateByte s) + s = 8 * (k - lateByte s) + s + 8 := by omega
    rw [responseBytes, hn]
    dsimp only
    rw [hnext, hbyte]
    obtain ⟨h2, hres, hc2, hcs2⟩ := ih ((resp1 <<< 8) ||| (window 8 e.miso (8 * (k - lateByte s) + s)).setWidth 32)
      (if cp = [] then 0 else value) (by omega) hh' hr' hcs'
    refine ⟨h2, ?_, by omega, hcs2⟩
    rw [hres, hpos, windows, List.foldl_cons, hc]
    congr 1
    by_cases hcp : cp = []
    · have hclk := hnil.1 hcp
      rw [if_pos hcp, if_neg (show ¬ k + (n + 1) ≤ max h.clocked k by omega), ite_self]
    · have hne : h.clocked ≠ k := fun heq => hcp (hnil.2 heq)
      rw [if_neg hcp]
      split <;> split <;> first | rfl | omega

theorem shiftIn_append {n : Nat} (x : BitVec n) (y : Byte) :
    shiftIn (x.setWidth 32) y = ((x ++ y : BitVec (n + 8))).setWidth 32 := by
  apply BitVec.eq_of_getLsbD_eq
  intro i hi
  simp only [shiftIn, BitVec.getLsbD_or, BitVec.getLsbD_shiftLeft, BitVec.getLsbD_setWidth, BitVec.getLsbD_append]
  grind

theorem foldl_shiftIn (line : Nat → Bool) (p n m : Nat) :
    (windows 8 line (p + n) m).foldl shiftIn ((window n line p).setWidth 32) =
      (window (n + 8 * m) line p).setWidth 32 := by
  induction m generalizing n with
  | zero => rfl
  | succ m ih =>
    have hpos : p + n + 8 = p + (n + 8) := by omega
    have hlen : n + 8 + 8 * m = n + 8 * (m + 1) := by omega
    rw [windows, List.foldl_cons, shiftIn_append, window_append, hpos, ih, hlen]

theorem responseWord_eq (line : Nat → Bool) (p : Nat) : (windows 8 line p 4).foldl shiftIn 0 = window 32 line p := by
  have h := foldl_shiftIn line p 0 4
  rw [Nat.add_zero, BitVec.eq_nil (window 0 line p)] at h
  rw [show (0 : BitVec 32) = (BitVec.nil).setWidth 32 from rfl, h]
  exact BitVec.setWidth_eq _

theorem resp_append (x y : Byte) : y.setWidth 32 ||| (x.setWidth 32 <<< 8) = ((x ++ y : BitVec 16)).setWidth 32 := by
  apply BitVec.eq_of_getLsbD_eq
  intro i hi
  simp only [BitVec.getLsbD_or, BitVec.getLsbD_shiftLeft, BitVec.getLsbD_setWidth, BitVec.getLsbD_append]
  grind

/-! ## A command and its response -/

/-- The message of the command has `len` bytes from byte `c` on, and the response starts with the zero at bit `q`. -/
structure Answers (e : Bus) (c len q : Nat) : Prop where
  lo : 8 * (c + 8) ≤ q
  hi : q < 8 * (c + len + 14)
  ones : ∀ i, 8 * (c + 8) ≤ i → i < q → e.miso i = true
  zero : e.miso q = false

/-- The bytes of a response behind R1 that the driver reads. -/
def RespType.rest : RespType → Nat
  | .r2 => 1
  | .r3 => 4
  | _ => 0

/-- The byte of the line behind the last one that a response at bit `q` takes. -/
def responseStop (type : RespType) (q : Nat) : Nat := q / 8 + 1 + lateByte (q % 8) + type.rest

/-- The response of the card: R1 in the low byte, and what follows it. -/
def response (e : Bus) (cmd : Cmd) (q : Nat) : Cmd :=
  let r1 := window 8 e.miso q
  match mmcSpiRespType cmd.flags with
  | .r2 => { cmd with resp0 := (window 8 e.miso (q + 8) ++ r1 : BitVec 16).setWidth 32 }
  | .r3 => { cmd with resp0 := r1.setWidth 32, resp1 := window 32 e.miso (q + 8) }
  | _ => { cmd with resp0 := r1.setWidth 32 }

theorem statusValue_le (resp0 : BitVec 32) : statusValue resp0 ≤ 0 := by
  unfold statusValue
  split_ifs <;> decide

theorem responseEnd_eq (csOn : Bool) {value : Int} (cmd : Cmd) {h : Host} (hv : value ≤ 0) (herr : cmd.error = 0)
    (hcs : h.cs = true) : ∃ h', responseEnd csOn value cmd h = (value, { cmd with error := value }, h') ∧
      h'.clocked = h.clocked ∧ h'.cs = (csOn && decide (value = 0)) := by
  rw [responseEnd]
  by_cases h0 : value = 0
  · subst h0
    have hcmd : { cmd with error := 0 } = cmd := by rw [← herr]
    rw [hcmd]
    by_cases hon : csOn = true
    · rw [if_pos ⟨Int.le_refl 0, hon⟩]
      exact ⟨h, rfl, rfl, by rw [hcs, hon]; rfl⟩
    · have hoff : csOn = false := by simpa using hon
      rw [if_neg (fun hh => hon hh.2), responseDone, if_neg (by decide)]
      exact ⟨_, rfl, rfl, by rw [hoff]; rfl⟩
  · have hneg : value < 0 := by omega
    rw [if_neg (by omega), responseDone, if_pos hneg]
    exact ⟨_, rfl, rfl, by rw [decide_eq_false h0, Bool.and_false]; rfl⟩

theorem length_commandFrame (opcode arg : BitVec 32) : (commandFrame opcode arg).length = 7 := rfl

theorem nine_le_commandLength (csOn reading : Bool) (flags : BitVec 32) : 9 ≤ commandLength csOn reading flags := by
  unfold commandLength scratchStatus
  split_ifs <;> omega

/-- R1 is read in full, and `a` says where the rest is. -/
structure Started (e : Bus) (c len q : Nat) (a : Aligned) (h : Host) : Prop where
  resp0 : a.resp0 = (window 8 e.miso q).setWidth 32
  bitshift : a.bitshift = q % 8
  holds : Holds e (q % 8) (q / 8 + 1 + lateByte (q % 8)) (a.leftover.setWidth 16 <<< 8)
  reads : Reads e (q / 8 + 1 + lateByte (q % 8)) a.cp h
  clocked : h.clocked = max (c + len) (q / 8 + 1 + lateByte (q % 8))
  cs : h.cs = true

theorem responseGet_started (hw : e.Works) (csOn : Bool) {c len q : Nat} (cmd : Cmd) {h : Host} (hlen : 9 ≤ len)
    (ha : Answers e c len q) (hc : h.clocked = c + len) (hcs : h.cs = true) : ∃ a h', Started e c len q a h' ∧
      mmcSpiResponseGet e csOn (e.bytes c len) cmd h =
        responseRest e csOn { cmd with resp0 := a.resp0, error := 0 } a h' := by
  obtain ⟨hlo, hhi, hones, hzero⟩ := ha
  have hq : 8 * (q / 8) + q % 8 = q := Nat.div_add_mod q 8
  have hs : q % 8 < 8 := Nat.mod_lt q (by decide)
  have hff : ∀ i, c + 8 ≤ i → i < q / 8 → e.byte i = 0xff := by
    intro i hi hlt
    exact byte_eq_ff fun j hj => hones _ (by omega) (by omega)
  have hb : e.byte (q / 8) ≠ 0xff := byte_ne_ff hs (by rwa [hq])
  obtain ⟨cp, h1, hfind, hr, hc1, hcs1⟩ := findStatus_eq hw (by omega) hc hcs hff hb (by omega) (by omega)
  obtain ⟨a, h2, halign, hresp, hshift, hleft, hr2, hc2, hcs2⟩ :=
    alignStatus_eq hw hs (fun i hi => hones _ (by omega) (by omega)) (by rwa [hq]) hr hcs1
  rw [hq] at hresp
  refine ⟨a, h2, ⟨hresp, hshift, fun h0 => ⟨q / 8 + 1, ?_, by rw [hleft h0]⟩, hr2, by omega, hcs2⟩, ?_⟩
  · rw [lateByte, if_neg h0]
  · rw [mmcSpiResponseGet, hfind]
    dsimp only
    rw [halign]

theorem responseRest_eq (hw : e.Works) (csOn : Bool) {c len q : Nat} {cmd : Cmd} {a : Aligned} {h : Host}
    (hs : Started e c len q a h) (htype : mmcSpiRespType cmd.flags ≠ .bad) (value : Int)
    (hvalue : value = if responseStop (mmcSpiRespType cmd.flags) q ≤ c + len ∨ (mmcSpiRespType cmd.flags).rest = 0 then
      statusValue a.resp0 else 0) : ∃ h', responseRest e csOn { cmd with resp0 := a.resp0, error := 0 } a h =
        (value, { response e cmd q with error := value }, h') ∧ h'.cs = (csOn && decide (value = 0)) ∧
      (mmcSpiRespType cmd.flags ≠ .r1b → h'.clocked = max (c + len) (responseStop (mmcSpiRespType cmd.flags) q)) := by
  obtain ⟨hresp, hshift, hholds, hreads, hclk, hcs⟩ := hs
  have hle := statusValue_le a.resp0
  have hq : 8 * (q / 8 + 1 + lateByte (q % 8) - lateByte (q % 8)) + q % 8 = q + 8 := by omega
  have hs8 : q % 8 < 8 := Nat.mod_lt q (by decide)
  unfold responseRest response
  dsimp only
  cases ht : mmcSpiRespType cmd.flags with
  | bad => exact absurd ht htype
  | r1 =>
    rw [ht] at hvalue
    rw [if_pos (.inr rfl)] at hvalue
    obtain ⟨h', he, hc', hcs'⟩ := responseEnd_eq csOn { cmd with resp0 := a.resp0, error := 0 } hle rfl hcs
    refine ⟨h', ?_, by rw [hcs', hvalue], fun _ => by rw [hc', hclk]; rfl⟩
    dsimp only
    rw [he, hvalue, hresp]
  | r1b =>
    rw [ht] at hvalue
    rw [if_pos (.inr rfl)] at hvalue
    have hcs2 : (if a.cp.dropWhile (· == 0) = [] then (mmcSpiWaitUnbusy e h).2 else h).cs = true := by
      split
      · exact cs_skipLoop hw (by decide) _ _ _
      · exact hcs
    obtain ⟨h', he, -, hcs'⟩ := responseEnd_eq csOn { cmd with resp0 := a.resp0, error := 0 } hle rfl hcs2
    refine ⟨h', ?_, by rw [hcs', hvalue], fun hne => absurd rfl hne⟩
    dsimp only
    rw [he, hvalue, hresp]
  | r2 =>
    rw [ht] at hvalue
    obtain ⟨cp', h1, hn, -, hc1, hcs1⟩ := nextByte_eq hw hreads hcs
    obtain ⟨next, hnext, hbyte, -⟩ := nextResponse_eq hs8 hholds
    have hsecond : (if a.bitshift ≠ 0 then (rotate a.bitshift (a.leftover.setWidth 16 <<< 8)
        (e.byte (q / 8 + 1 + lateByte (q % 8)))).1 else e.byte (q / 8 + 1 + lateByte (q % 8))) =
        window 8 e.miso (q + 8) := by
      rw [← hq, ← hbyte, ← hnext, hshift, apply_ite Prod.fst]
    have hlost : (if a.cp = [] then 0 else statusValue a.resp0) = value := by
      have hnil := hreads.nil_iff
      have hstop : responseStop .r2 q = q / 8 + 1 + lateByte (q % 8) + 1 := rfl
      by_cases hin : responseStop .r2 q ≤ c + len
      · rw [if_pos (.inl hin)] at hvalue
        rw [hvalue, if_neg (fun hcp => by have := hnil.1 hcp; omega)]
      · rw [if_neg (not_or.2 ⟨hin, by decide⟩)] at hvalue
        rw [hvalue, if_pos (hnil.2 (by omega))]
    have hv : value ≤ 0 := by
      rw [← hlost]
      split
      · exact Int.le_refl 0
      · exact hle
    dsimp only
    rw [hn]
    dsimp only
    rw [hsecond, hlost, hresp, resp_append]
    obtain ⟨h', he, hc', hcs'⟩ := responseEnd_eq csOn { cmd with
      resp0 := (window 8 e.miso (q + 8) ++ window 8 e.miso q : BitVec 16).setWidth 32, error := 0 } hv rfl hcs1
    refine ⟨h', he, hcs', fun _ => ?_⟩
    rw [hc', hc1, hclk]
    simp only [responseStop, RespType.rest]
    omega
  | r3 =>
    rw [ht] at hvalue
    obtain ⟨h1, hres, hc1, hcs1⟩ := responseBytes_eq hw (n := 4) 0 (statusValue a.resp0) hs8 (by omega)
      hholds hreads hcs
    rw [hq, responseWord_eq] at hres
    have hlost : (if q / 8 + 1 + lateByte (q % 8) + 4 ≤ max h.clocked (q / 8 + 1 + lateByte (q % 8)) then
        statusValue a.resp0 else 0) = value := by
      have hstop : responseStop .r3 q = q / 8 + 1 + lateByte (q % 8) + 4 := rfl
      by_cases hin : responseStop .r3 q ≤ c + len
      · rw [if_pos (.inl hin)] at hvalue
        rw [hvalue, if_pos (by omega)]
      · rw [if_neg (not_or.2 ⟨hin, by decide⟩)] at hvalue
        rw [hvalue, if_neg (by omega)]
    have hv : value ≤ 0 := by
      rw [← hlost]
      split
      · exact hle
      · exact Int.le_refl 0
    dsimp only
    rw [hshift, hres, hlost]
    dsimp only
    obtain ⟨h', he, hc', hcs'⟩ := responseEnd_eq csOn { cmd with
      resp0 := a.resp0, resp1 := window 32 e.miso (q + 8), error := 0 } hv rfl hcs1
    rw [if_pos rfl, he, hresp]
    refine ⟨h', rfl, hcs', fun _ => ?_⟩
    rw [hc', hc1, hclk]
    simp only [responseStop, RespType.rest]
    omega

theorem commandSend_eq (hw : e.Works) (reading csOn : Bool) {cmd : Cmd} {h : Host} {q : Nat}
    (ha : Answers e h.clocked (commandLength csOn reading cmd.flags) q) (htype : mmcSpiRespType cmd.flags ≠ .bad)
    (value : Int) (hvalue : value =
      if responseStop (mmcSpiRespType cmd.flags) q ≤ h.clocked + commandLength csOn reading cmd.flags ∨
        (mmcSpiRespType cmd.flags).rest = 0 then statusValue ((window 8 e.miso q).setWidth 32) else 0) :
    ∃ h', mmcSpiCommandSend e reading cmd csOn h = (value, { response e cmd q with error := value }, h') ∧
      h'.cs = (csOn && decide (value = 0)) ∧ (mmcSpiRespType cmd.flags ≠ .r1b → h'.clocked =
        max (h.clocked + commandLength csOn reading cmd.flags) (responseStop (mmcSpiRespType cmd.flags) q)) := by
  have hnine := nine_le_commandLength csOn reading cmd.flags
  have hlen : (commandFrame cmd.opcode cmd.arg ++ ones (commandLength csOn reading cmd.flags -
      (commandFrame cmd.opcode cmd.arg).length)).length = commandLength csOn reading cmd.flags := by
    rw [List.length_append, ones, List.length_replicate, length_commandFrame]
    omega
  rw [mmcSpiCommandSend]
  dsimp only
  rw [spiSyncLocked_eq hw, hlen]
  dsimp only
  obtain ⟨a, h', hs, hget⟩ := responseGet_started hw csOn cmd (h := { h with
    clocked := h.clocked + commandLength csOn reading cmd.flags, messages := h.messages + 1, cs := true,
    mosi := h.mosi ++ (commandFrame cmd.opcode cmd.arg ++ ones (commandLength csOn reading cmd.flags -
      (commandFrame cmd.opcode cmd.arg).length)) }) hnine ha rfl rfl
  rw [hget]
  exact responseRest_eq hw csOn hs htype value (by rw [hs.resp0]; exact hvalue)

/-- The line stays high under the command, in the bytes behind it and in those that the driver still waits for. -/
def Silent (e : Bus) (c len : Nat) : Prop := ∀ i, 8 * (c + 8) ≤ i → i < 8 * (c + len + 14) → e.miso i = true

theorem lateStatus_silent (hw : e.Works) {n : Nat} {h : Host}
    (hff : ∀ i, h.clocked ≤ i → i < h.clocked + n → e.byte i = 0xff) :
    ∃ h', lateStatus e n h = (.error etimedout, h') := by
  induction n generalizing h with
  | zero => exact ⟨h, rfl⟩
  | succ n ih =>
    obtain ⟨h', hr, hc, -⟩ := readByte_eq hw h
    rw [lateStatus, hr]
    dsimp only
    rw [hff h.clocked (Nat.le_refl _) (by omega), if_neg (by decide)]
    exact ih fun i hi hlt => hff i (by omega) (by omega)

theorem commandSend_silent (hw : e.Works) (reading csOn : Bool) {cmd : Cmd} {h : Host}
    (hs : Silent e h.clocked (commandLength csOn reading cmd.flags)) :
    ∃ h', mmcSpiCommandSend e reading cmd csOn h = (etimedout.val, { cmd with error := etimedout.val }, h') ∧
      h'.cs = false := by
  have hnine := nine_le_commandLength csOn reading cmd.flags
  obtain ⟨n, hn⟩ : ∃ n, commandLength csOn reading cmd.flags = 8 + n := ⟨_, (Nat.add_sub_cancel' (by omega)).symm⟩
  have hlen : (commandFrame cmd.opcode cmd.arg ++ ones (commandLength csOn reading cmd.flags -
      (commandFrame cmd.opcode cmd.arg).length)).length = 8 + n := by
    rw [List.length_append, ones, List.length_replicate, length_commandFrame]
    omega
  have hff : ∀ i, h.clocked + 8 ≤ i → i < h.clocked + (8 + n) + 14 → e.byte i = 0xff := by
    intro i hi hlt
    exact byte_eq_ff fun j hj => hs _ (by omega) (by omega)
  have hdrop : (e.bytes h.clocked (8 + n)).drop 8 = e.bytes (h.clocked + 8) n := by
    have hpos : 8 * h.clocked + 8 * 8 = 8 * (h.clocked + 8) := by omega
    rw [Bus.bytes, windows_add, List.drop_left' (length_windows _ _ _), hpos]
    rfl
  rw [mmcSpiCommandSend, spiSyncLocked_eq hw, hlen]
  dsimp only
  rw [mmcSpiResponseGet, findStatus, hdrop, dropWhile_bytes_eq_nil fun i hi hlt => hff i (by omega) (by omega)]
  dsimp only
  obtain ⟨h', hl⟩ := lateStatus_silent hw (n := 14) (h := { h with
    clocked := h.clocked + (8 + n), messages := h.messages + 1, cs := true,
    mosi := h.mosi ++ (commandFrame cmd.opcode cmd.arg ++ ones (commandLength csOn reading cmd.flags -
      (commandFrame cmd.opcode cmd.arg).length)) }) fun i hi hlt => hff i (by dsimp only at hi; omega) hlt
  rw [hl]
  exact ⟨mmcCsOff h', rfl, rfl⟩

/-- Wherever the response starts, aligned or not, under the command or up to 14 bytes behind it, `cmd` comes back with
the response that the card sent and with the error that is returned, and the chip select stays active exactly for data
behind a command without an error. If no response starts there, the command times out. -/
theorem response_at_any_bit (hw : e.Works) (reading csOn : Bool) (cmd : Cmd) (h : Host)
    (htype : mmcSpiRespType cmd.flags ≠ .bad) :
    (∀ q, Answers e h.clocked (commandLength csOn reading cmd.flags) q → ∃ value h',
      mmcSpiCommandSend e reading cmd csOn h = (value, { response e cmd q with error := value }, h') ∧
      h'.cs = (csOn && decide (value = 0))) ∧
    (Silent e h.clocked (commandLength csOn reading cmd.flags) → ∃ h',
      mmcSpiCommandSend e reading cmd csOn h = (etimedout.val, { cmd with error := etimedout.val }, h') ∧
      h'.cs = false) := by
  refine ⟨fun q ha => ?_, commandSend_silent hw reading csOn⟩
  obtain ⟨h', he, hcs, -⟩ := commandSend_eq hw reading csOn ha htype _ rfl
  exact ⟨_, h', he, hcs⟩

/-- A line that is low from bit `q` on for `n` bits, and high everywhere else. -/
def lowFor (q n : Nat) : Bus := ⟨fun i => decide (i < q) || decide (q + n ≤ i), fun _ => none, fun _ => 0⟩

def idleHost : Host := ⟨0, 0, 0, false, (0, 0), []⟩

def ioSendOpCond : Cmd := ⟨5, 0, mmcRspSpiS1 ||| mmcRspSpiB4, 0, 0, 0⟩

def ioRwExtended : Cmd := ⟨53, 0x14000001, mmcRspSpiS1 ||| mmcRspSpiS2, 0, 0, 0⟩

theorem answers_lowFor {c len q n : Nat} (hlo : 8 * (c + 8) ≤ q) (hhi : q < 8 * (c + len + 14)) (hn : 0 < n) :
    Answers (lowFor q n) c len q := by
  refine ⟨hlo, hhi, fun i _ hi => ?_, ?_⟩
  · simp [lowFor, hi]
  · have hlow : ¬ q + n ≤ q := by omega
    simp [lowFor, hlow]

/-- A response that starts in the middle of a byte. -/
theorem response_at_any_bit_shifted : ∃ value h', mmcSpiCommandSend (lowFor 67 12) false ioSendOpCond false idleHost =
    (value, { ioSendOpCond with resp0 := 0, resp1 := 0x0fffffff, error := value }, h') := by
  obtain ⟨value, h', he, -⟩ := (response_at_any_bit (e := lowFor 67 12) (fun _ => rfl) false false ioSendOpCond idleHost
    (by decide)).1 67 (answers_lowFor (by decide) (by decide) (by decide))
  have hresp : response (lowFor 67 12) ioSendOpCond 67 = { ioSendOpCond with resp0 := 0, resp1 := 0x0fffffff } := by
    decide +kernel
  rw [hresp] at he
  exact ⟨value, h', he⟩

/-- The error bits of R1 are what is returned, if the rest of the response came in the message of the command; a byte
that has to be read behind R1 overwrites them. So a command that reads data never fails on R1, unless R1 is all there
is. -/
theorem response_value (hw : e.Works) (reading csOn : Bool) {cmd : Cmd} {h : Host} {q : Nat}
    (ha : Answers e h.clocked (commandLength csOn reading cmd.flags) q) (htype : mmcSpiRespType cmd.flags ≠ .bad) :
    (mmcSpiCommandSend e reading cmd csOn h).1 =
      (if responseStop (mmcSpiRespType cmd.flags) q ≤ h.clocked + commandLength csOn reading cmd.flags ∨
        (mmcSpiRespType cmd.flags).rest = 0 then statusValue ((window 8 e.miso q).setWidth 32) else 0) ∧
    (csOn = true → reading = true → (mmcSpiRespType cmd.flags).rest ≠ 0 →
      (mmcSpiCommandSend e reading cmd csOn h).1 = 0) := by
  obtain ⟨h', he, -⟩ := commandSend_eq hw reading csOn ha htype _ rfl
  rw [he]
  refine ⟨rfl, fun hon hread hrest => if_neg ?_⟩
  have hlo := ha.lo
  have hlen : commandLength csOn reading cmd.flags = 9 := by
    rw [hon, hread]
    rfl
  rintro (hin | h0)
  · unfold responseStop at hin
    omega
  · exact hrest h0

/-- The card reports an illegal command, and the command that reads data is taken to be accepted. -/
theorem response_value_lost : statusValue ((window 8 (lowFor 64 4).miso 64).setWidth 32) = enosys ∧
    (mmcSpiCommandSend (lowFor 64 4) true ioRwExtended true idleHost).1 = 0 := by
  have hvalue := @response_value (lowFor 64 4) (fun _ => rfl) true true ioRwExtended idleHost 64
    (answers_lowFor (by decide) (by decide) (by decide)) (by decide)
  exact ⟨by decide, hvalue.2 rfl rfl (by decide)⟩

end HgicFmac.MmcSpi
