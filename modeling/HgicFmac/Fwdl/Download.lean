import HgicFmac.Fwdl.Sends

/-!
# The loop of `hgic_bootdl_download`

* `fragments b len` : the number of passes of the loop for `len` bytes; `downloadJob` : the `i`-th pass, or the RUN
  command behind the last one;
* `download_eq` : the download is these jobs in order, until one fails;
* `copyLen info` : the signed counter that the loop starts with.
-/

namespace HgicFmac.Fwdl
open Lib HgicFmac.Core Fwctrl Fwinfo

section Frag
variable {b : Bootdl} {copyLen : Nat}

def SdioBlock (b : Bootdl) : Prop := b.busType = .sdio → b.blkSize = 64

theorem fragmentProc_of_lt (h : b.fragSize < copyLen) : hgicBootdlFragmentProc b copyLen = b.fragSize := by
  unfold hgicBootdlFragmentProc
  by_cases hs : b.busType = .sdio
  · rw [if_pos hs, if_neg (by omega)]
  · rw [if_neg hs, if_pos h]

theorem fragmentProc_ge (hb : SdioBlock b) (h : copyLen ≤ b.fragSize) : copyLen ≤ hgicBootdlFragmentProc b copyLen := by
  unfold hgicBootdlFragmentProc
  by_cases hs : b.busType = .sdio
  · rw [if_pos hs, hb hs, align]
    split <;> omega
  · rw [if_neg hs]
    split <;> omega

theorem fragmentProc_le (hb : SdioBlock b) : hgicBootdlFragmentProc b copyLen ≤ copyLen + 63 := by
  unfold hgicBootdlFragmentProc
  by_cases hs : b.busType = .sdio
  · rw [if_pos hs, hb hs, align]
    split <;> omega
  · rw [if_neg hs]
    split <;> omega

theorem fragmentProc_le_fragSize (hb : SdioBlock b) (hd : b.busType = .sdio → 64 ∣ b.fragSize) :
    hgicBootdlFragmentProc b copyLen ≤ b.fragSize := by
  unfold hgicBootdlFragmentProc
  by_cases hs : b.busType = .sdio
  · obtain ⟨k, hk⟩ := hd hs
    rw [if_pos hs, hb hs, align]
    split <;> omega
  · rw [if_neg hs]
    split <;> omega

end Frag

/-! ## The loop as jobs -/

def fragments (b : Bootdl) (len : Nat) : Nat := (len + b.fragSize - 1) / b.fragSize

theorem mul_lt_iff_lt_fragments {b : Bootdl} (hF : 0 < b.fragSize) {i len : Nat} :
    i * b.fragSize < len ↔ i < fragments b len := by
  unfold fragments
  rw [Nat.lt_div_iff_mul_lt hF]
  omega

section Jobs
variable (b : Bootdl) (o : Nat → Outcome) (fw : Firmware) (info : FwInfo) (len : Nat)

/-- The address and the length of the `i`-th fragment. -/
def fragAddr (i : Nat) : Nat := (info.writeAddr + i * b.fragSize) % 2 ^ 32
def fragLen (i : Nat) : Nat := hgicBootdlFragmentProc b (len - i * b.fragSize)

def downloadJob (i : Nat) (x : Xfer) : Int × Xfer :=
  if i < fragments b len then
    sendFragment b o fw info x (fragAddr b info i) (i * b.fragSize) (fragLen b len i)
  else hgicBootdlCmdRun b o x info

variable {b o fw info len}

theorem downloadLoop_done {copyLen : Int} (h : copyLen ≤ 0) (fuel : Nat) (x : Xfer) (writeAddr addrOffset : Nat) :
    downloadLoop b o fw info fuel x copyLen writeAddr addrOffset = some (0, x) := by
  cases fuel <;> rw [downloadLoop, if_pos h]

/-- From the `i`-th pass on: by induction on the number `k` of passes left. A pass before the last one takes
`fragSize` bytes, the last one at least what is left. -/
theorem downloadLoop_eq (hF : 0 < b.fragSize) (hb : SdioBlock b) : ∀ (k i fuel : Nat) (x : Xfer),
    i + k = fragments b len → len ≤ i * b.fragSize + fuel →
    downloadLoop b o fw info fuel x (len - (i * b.fragSize : Nat) : Int) (fragAddr b info i) (i * b.fragSize) =
      some (untilErr (downloadJob b o fw info len) (List.range' i k) x) := by
  intro k
  induction k with
  | zero =>
    intro i fuel x hi _
    have hle : ¬ i * b.fragSize < len := by
      rw [mul_lt_iff_lt_fragments hF]
      omega
    rw [downloadLoop_done (by omega)]
    rfl
  | succ k ih =>
    intro i fuel x hi hfuel
    have hlt : i < fragments b len := by omega
    have hpos := (mul_lt_iff_lt_fragments hF).mpr hlt
    obtain ⟨fuel, rfl⟩ : ∃ f, fuel = f + 1 := ⟨fuel - 1, by omega⟩
    have hnat : ((len - (i * b.fragSize : Nat) : Int)).toNat = len - i * b.fragSize := by omega
    have hjob : downloadJob b o fw info len i x =
        sendFragment b o fw info x (fragAddr b info i) (i * b.fragSize) (fragLen b len i) := if_pos hlt
    rw [downloadLoop, if_neg (by omega), List.range'_succ, untilErr, hnat, hjob]
    dsimp only
    rw [show hgicBootdlFragmentProc b (len - i * b.fragSize) = fragLen b len i from rfl]
    generalize hy : sendFragment b o fw info x (fragAddr b info i) (i * b.fragSize) (fragLen b len i) = y
    by_cases h0 : y.1 = 0
    · rw [if_pos h0, if_pos h0]
      by_cases hlast : b.fragSize < len - i * b.fragSize
      · have hfl : fragLen b len i = b.fragSize := fragmentProc_of_lt hlast
        have hsucc : (i + 1) * b.fragSize = i * b.fragSize + b.fragSize := Nat.succ_mul i b.fragSize
        have haddr : (fragAddr b info i + b.fragSize) % 2 ^ 32 = fragAddr b info (i + 1) := by
          rw [fragAddr, fragAddr, hsucc, Nat.mod_add_mod, Nat.add_assoc]
        have hrest : (len - (i * b.fragSize : Nat) : Int) - (b.fragSize : Int) =
            len - ((i + 1) * b.fragSize : Nat) := by
          rw [hsucc]
          omega
        rw [hfl, haddr, hrest, ← hsucc]
        exact ih (i + 1) fuel y.2 (by omega) (by omega)
      · have hge : len - i * b.fragSize ≤ fragLen b len i := fragmentProc_ge hb (by omega)
        have hk : k = 0 := by
          have hn : ¬ (i + 1) * b.fragSize < len := by
            rw [Nat.succ_mul]
            omega
          rw [mul_lt_iff_lt_fragments hF] at hn
          omega
        subst hk
        rw [downloadLoop_done (by omega)]
        rfl
    · rw [if_neg h0, if_neg h0]

theorem parseFw_of_hdr_ne (h : hgicCheckFwinfoHdr b.e fw.data ≠ 0) :
    hgicBootdlParseFw b fw = .error (hgicCheckFwinfoHdr b.e fw.data) := by
  simp only [hgicBootdlParseFw, hgicGetFwDlAddr, fwField, ne_eq, h, not_false_eq_true, if_true, bind, Except.bind]

/-- The information in a good header. -/
def goodInfo (e : Endian) (fw : Firmware) : FwInfo where
  writeAddr := load32 e fw.data 4
  aesEn := modeBit e fw.data 2 5 % 2 ^ 8
  crcEn := modeBit e fw.data 3 4 % 2 ^ 8
  spCfg := 1
  fwLen := sub32 fw.size (load32 e fw.data 12)
  localCrc32 := load32 e fw.data 123
  hdrLen := load32 e fw.data 12

theorem parseFw_of_hdr (h : hgicCheckFwinfoHdr b.e fw.data = 0) : hgicBootdlParseFw b fw = .ok (goodInfo b.e fw) := by
  simp only [goodInfo, hgicBootdlParseFw, hgicGetFwDlAddr, hgicGetFwAesEn, hgicGetFwCrcEn, hgicGetFwLocalCrc32,
    hgicGetFwCodeOffset, fwField, h, ne_eq, not_true, if_false, bind, Except.bind, pure, Except.pure]

theorem parseFw_ok (h : hgicBootdlParseFw b fw = .ok info) : info.writeAddr < 2 ^ 32 ∧
    info.hdrLen = load32 b.e fw.data 12 ∧ info.fwLen = sub32 fw.size info.hdrLen ∧ info.aesEn < 2 ∧ info.crcEn < 2 ∧
    info.spCfg = 1 := by
  by_cases hret : hgicCheckFwinfoHdr b.e fw.data = 0
  · rw [parseFw_of_hdr hret, Except.ok.injEq] at h
    subst h
    refine ⟨load32_lt _ _ _, rfl, rfl, ?_, ?_, rfl⟩
    · simp only [goodInfo, modeBit]
      cases b.e <;> dsimp only <;> omega
    · simp only [goodInfo, modeBit]
      cases b.e <;> dsimp only <;> omega
  · rw [parseFw_of_hdr_ne hret] at h
    cases h

theorem parseFw_error : ErrNe (hgicBootdlParseFw b fw) := by
  unfold hgicBootdlParseFw
  refine (errNe_fwField _ _ _).bind fun _ => (errNe_fwField _ _ _).bind fun _ => ?_
  refine (errNe_fwField _ _ _).bind fun _ => (errNe_fwField _ _ _).bind fun _ => ?_
  exact (errNe_fwField _ _ _).bind fun _ => errNe_pure _

/-- The signed counter of the loop: the number of code bytes it will send. -/
def copyLen (info : FwInfo) : Nat := (toS32 info.fwLen).toNat

theorem copyLen_eq (h : info.fwLen = sub32 fw.size info.hdrLen) (hle : info.hdrLen ≤ fw.size)
    (hlt : fw.size - info.hdrLen < 2 ^ 31) : copyLen info = fw.size - info.hdrLen := by
  have hfw : info.fwLen = fw.size - info.hdrLen := by
    rw [h, sub32]
    omega
  have hmod : info.fwLen % 2 ^ 32 = fw.size - info.hdrLen := by omega
  unfold copyLen toS32
  rw [hmod, if_pos hlt]
  exact Int.toNat_natCast _

theorem download_eq (hp : hgicBootdlParseFw b fw = .ok info) (hF : 0 < b.fragSize) (hb : SdioBlock b) (x : Xfer) :
    hgicBootdlDownload b o (.ok fw) x = some (untilErr (downloadJob b o fw info (copyLen info))
      (List.range (fragments b (copyLen info) + 1)) { x with downloads := x.downloads + 1 }) := by
  have haddr : fragAddr b info 0 = info.writeAddr := by
    rw [fragAddr, Nat.zero_mul, Nat.add_zero, Nat.mod_eq_of_lt (parseFw_ok hp).1]
  have hloop : downloadLoop b o fw info (copyLen info) { x with downloads := x.downloads + 1 } (toS32 info.fwLen)
      info.writeAddr 0 = some (untilErr (downloadJob b o fw info (copyLen info))
        (List.range (fragments b (copyLen info))) { x with downloads := x.downloads + 1 }) := by
    by_cases hpos : toS32 info.fwLen ≤ 0
    · have hz : copyLen info = 0 := Int.toNat_eq_zero.mpr hpos
      have hfr : fragments b (copyLen info) = 0 := by
        rw [hz, fragments]
        exact Nat.div_eq_of_lt (by omega)
      rw [downloadLoop_done hpos, hfr]
      rfl
    · have hcast : toS32 info.fwLen = (copyLen info : Int) - ((0 * b.fragSize : Nat) : Int) := by
        unfold copyLen
        omega
      have h := @downloadLoop_eq b o fw info (copyLen info) hF hb (fragments b (copyLen info)) 0 (copyLen info)
        { x with downloads := x.downloads + 1 } (Nat.zero_add _) (by omega)
      rw [← hcast, haddr, Nat.zero_mul, ← List.range_eq_range'] at h
      exact h
  have hrun : ∀ y, downloadJob b o fw info (copyLen info) (fragments b (copyLen info)) y =
      hgicBootdlCmdRun b o y info := fun y => if_neg (Nat.lt_irrefl _)
  unfold hgicBootdlDownload
  dsimp only
  rw [hp]
  dsimp only
  rw [show (toS32 info.fwLen).toNat = copyLen info from rfl, hloop, List.range_succ, untilErr_concat, hrun]
  rfl

end Jobs

end HgicFmac.Fwdl
