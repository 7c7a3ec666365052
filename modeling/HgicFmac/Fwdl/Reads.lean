import HgicFmac.Fwdl.Cover

/-!
# What the download reads of the file

* `checkReads`, `parseFwReads`, `loopReads`, `downloadReads` : the ranges of `fw->data` that the functions read, in
  order, as the offset and the number of bytes. `download_congr` : the download depends on no other byte of the file;
* `xferTotal b len` : the bytes that the loop takes for `len` bytes of code; `loopReads_le`, `loopReads_attained` : where
  its reads end;
* `ReadsInside b fw` : whatever the device answers, all reads are in the file. `readsInside_iff` : the files for which
  they are. The header is read without a look at the size, the code offset is not compared with it, and the last fragment
  is rounded up on SDIO.
-/

namespace HgicFmac.Fwdl
open Lib HgicFmac.Core Fwctrl Fwinfo

/-- `hgic_check_fwinfo_hdr`: a flag is read when the ones before it are right. -/
def checkReads (e : Endian) (m : Mem) : List (Nat × Nat) :=
  if load16 e m 0 ≠ hgicFwinfoBootHdr then [(0, 2)]
  else if (m 106).toNat ≠ hgicFwinfoCodeHdr then [(0, 2), (106, 1)]
  else [(0, 2), (106, 1), (32, 1)]

/-- A getter of the field of `n` bytes at `off`. -/
def getterReads (e : Endian) (m : Mem) (off n : Nat) : List (Nat × Nat) :=
  checkReads e m ++ if hgicCheckFwinfoHdr e m = 0 then [(off, n)] else []

/-- `hgic_bootdl_parse_fw`: the getters of the download address, of the two bits of `mode`, of the CRC and of the code
offset, until one fails. -/
def parseFwReads (e : Endian) (m : Mem) : List (Nat × Nat) :=
  getterReads e m 4 4 ++
    if hgicCheckFwinfoHdr e m = 0 then
      List.flatten [getterReads e m 26 2, getterReads e m 26 2, getterReads e m 123 4, getterReads e m 12 4]
    else []

section
variable (b : Bootdl) (o : Nat → Outcome)

/-- The loop of `hgic_bootdl_download`: a fragment is copied as soon as it is allocated. -/
def loopReads (fw : Firmware) (info : FwInfo) : Nat → Xfer → Int → Nat → Nat → List (Nat × Nat)
  | 0, _, _, _, _ => []
  | fuel + 1, x, copyLen, writeAddr, addrOffset =>
    if copyLen ≤ 0 then []
    else
      let xferLen := hgicBootdlFragmentProc b copyLen.toNat
      let y := sendFragment b o fw info x writeAddr addrOffset xferLen
      (if (o x.n).alloc then [(info.hdrLen + addrOffset, xferLen)] else []) ++
        if y.1 = 0 then
          loopReads fw info fuel y.2 (copyLen - xferLen) ((writeAddr + xferLen) % 2 ^ 32) (addrOffset + xferLen)
        else []

def downloadReads (fw : Firmware) (x : Xfer) : List (Nat × Nat) :=
  parseFwReads b.e fw.data ++
    match hgicBootdlParseFw b fw with
    | .error _ => []
    | .ok info =>
      loopReads b o fw info (toS32 info.fwLen).toNat { x with downloads := x.downloads + 1 } (toS32 info.fwLen)
        info.writeAddr 0

end

/-! ## Nothing else is read -/

/-- The bytes of the ranges are the same. -/
def SameOn (rs : List (Nat × Nat)) (m m' : Mem) : Prop := ∀ r ∈ rs, ∀ i, r.1 ≤ i → i < r.1 + r.2 → m' i = m i

theorem SameOn.left {rs ts : List (Nat × Nat)} {m m' : Mem} (h : SameOn (rs ++ ts) m m') : SameOn rs m m' :=
  fun r hr => h r (List.mem_append_left _ hr)

theorem SameOn.right {rs ts : List (Nat × Nat)} {m m' : Mem} (h : SameOn (rs ++ ts) m m') : SameOn ts m m' :=
  fun r hr => h r (List.mem_append_right _ hr)

theorem SameOn.load16 {rs : List (Nat × Nat)} {m m' : Mem} (h : SameOn rs m m') (e : Endian) {off : Nat}
    (hr : (off, 2) ∈ rs) : load16 e m' off = load16 e m off :=
  load16_congr e (h _ hr off (by simp) (by simp)) (h _ hr (off + 1) (by simp) (by simp))

theorem SameOn.load32 {rs : List (Nat × Nat)} {m m' : Mem} (h : SameOn rs m m') (e : Endian) {off : Nat}
    (hr : (off, 4) ∈ rs) : load32 e m' off = load32 e m off := by
  have hat : ∀ k < 4, m' (off + k) = m (off + k) := by
    intro k hk
    exact h _ hr (off + k) (by simp) (by simpa using hk)
  have h0 := hat 0 (by decide)
  have h1 := hat 1 (by decide)
  have h2 := hat 2 (by decide)
  have h3 := hat 3 (by decide)
  cases e <;> simp only [Lib.load32, Lib.load16, loadLe16, Nat.add_zero, Nat.add_assoc] at * <;> rw [h0, h1, h2, h3]

theorem check_congr {e : Endian} {m m' : Mem} (h : SameOn (checkReads e m) m m') :
    hgicCheckFwinfoHdr e m' = hgicCheckFwinfoHdr e m := by
  have hflag : load16 e m' 0 = load16 e m 0 := by
    apply h.load16 e
    unfold checkReads
    split
    · simp
    · split <;> simp
  unfold hgicCheckFwinfoHdr
  rw [hflag]
  by_cases h0 : load16 e m 0 = hgicFwinfoBootHdr
  · have h106 : m' 106 = m 106 := by
      apply h (106, 1) _ 106 (by simp) (by simp)
      rw [checkReads, if_neg (not_not.2 h0)]
      split <;> simp
    rw [h106]
    by_cases h1 : (m 106).toNat = hgicFwinfoCodeHdr
    · have h32 : m' 32 = m 32 := by
        apply h (32, 1) _ 32 (by simp) (by simp)
        rw [checkReads, if_neg (not_not.2 h0), if_neg (not_not.2 h1)]
        simp
      rw [h32]
    · rw [if_neg (not_not.2 h0), if_pos h1, if_neg (not_not.2 h0), if_pos h1]
  · rw [if_pos h0, if_pos h0]

section
variable {b : Bootdl} {o : Nat → Outcome} {fw fw' : Firmware} {info : FwInfo}

theorem parseFw_congr (hsize : fw'.size = fw.size) (h : SameOn (parseFwReads b.e fw.data) fw.data fw'.data) :
    hgicBootdlParseFw b fw' = hgicBootdlParseFw b fw := by
  have hcheck : hgicCheckFwinfoHdr b.e fw'.data = hgicCheckFwinfoHdr b.e fw.data := check_congr h.left.left
  by_cases h0 : hgicCheckFwinfoHdr b.e fw.data = 0
  · have hmem : ∀ r ∈ [((4 : Nat), (4 : Nat)), (26, 2), (123, 4), (12, 4)], r ∈ parseFwReads b.e fw.data := by
      intro r hr
      simp only [parseFwReads, getterReads, h0, if_true, List.flatten_cons, List.flatten_nil, List.mem_append,
        List.mem_cons, List.not_mem_nil, or_false] at hr ⊢
      tauto
    have h27 : fw'.data 27 = fw.data 27 := h (26, 2) (hmem _ (by simp)) 27 (by simp) (by simp)
    have hbit : ∀ little big, modeBit b.e fw'.data little big = modeBit b.e fw.data little big := by
      intro little big
      unfold modeBit
      rw [h27]
    rw [parseFw_of_hdr h0, parseFw_of_hdr (hcheck.trans h0), goodInfo, goodInfo, hsize, hbit, hbit,
      h.load32 b.e (hmem (4, 4) (by simp)), h.load32 b.e (hmem (12, 4) (by simp)),
      h.load32 b.e (hmem (123, 4) (by simp))]
  · rw [parseFw_of_hdr_ne h0, parseFw_of_hdr_ne (by rw [hcheck]; exact h0), hcheck]

theorem sendFragment_congr {x : Xfer} {writeAddr addrOffset xferLen : Nat}
    (h : SameOn (if (o x.n).alloc then [(info.hdrLen + addrOffset, xferLen)] else []) fw.data fw'.data) :
    sendFragment b o fw' info x writeAddr addrOffset xferLen =
      sendFragment b o fw info x writeAddr addrOffset xferLen := by
  unfold sendFragment
  by_cases halloc : (o x.n).alloc = true
  · rw [if_pos halloc] at h
    have hread : fw'.data.read (info.hdrLen + addrOffset) xferLen = fw.data.read (info.hdrLen + addrOffset) xferLen :=
      read_congr fun i hi hi' => h _ List.mem_cons_self i hi hi'
    rw [hread]
  · rw [if_neg halloc, if_neg halloc]

/-- By induction on the passes: what a pass reads decides the next one. -/
theorem downloadLoop_congr : ∀ (fuel : Nat) (x : Xfer) (copyLen : Int) (writeAddr addrOffset : Nat),
    SameOn (loopReads b o fw info fuel x copyLen writeAddr addrOffset) fw.data fw'.data →
    downloadLoop b o fw' info fuel x copyLen writeAddr addrOffset =
      downloadLoop b o fw info fuel x copyLen writeAddr addrOffset := by
  intro fuel
  induction fuel with
  | zero =>
    intro x copyLen writeAddr addrOffset _
    rfl
  | succ fuel ih =>
    intro x copyLen writeAddr addrOffset h
    unfold loopReads at h
    unfold downloadLoop
    split
    · rfl
    · next hpos =>
      rw [if_neg hpos] at h
      dsimp only at h ⊢
      rw [sendFragment_congr h.left]
      split
      · next h0 =>
        have hrest := h.right
        rw [if_pos h0] at hrest
        exact ih _ _ _ _ hrest
      · rfl

/-- The download depends on no byte of the file that is not in `downloadReads`. -/
theorem download_congr {x : Xfer} (hsize : fw'.size = fw.size)
    (h : SameOn (downloadReads b o fw x) fw.data fw'.data) :
    hgicBootdlDownload b o (.ok fw') x = hgicBootdlDownload b o (.ok fw) x := by
  unfold hgicBootdlDownload
  dsimp only
  rw [parseFw_congr hsize h.left]
  have hloop := h.right
  cases hp : hgicBootdlParseFw b fw with
  | error ret => rfl
  | ok info =>
    rw [hp] at hloop
    dsimp only at hloop ⊢
    rw [downloadLoop_congr _ _ _ _ _ hloop]

end

/-! ## Where the reads of the loop end -/

/-- The bytes that the loop takes for `len` bytes of code: the last fragment is rounded up on SDIO. -/
def xferTotal (b : Bootdl) (len : Nat) : Nat :=
  if b.busType = .sdio then len / b.fragSize * b.fragSize + align (len % b.fragSize) 64 else len

section
variable {b : Bootdl} (hF : 0 < b.fragSize) (hb : SdioBlock b)
include hF

theorem xferTotal_of_lt {len : Nat} (h : b.fragSize < len) :
    xferTotal b len = b.fragSize + xferTotal b (len - b.fragSize) := by
  unfold xferTotal
  split
  · have hle : b.fragSize ≤ len := by omega
    rw [Nat.mod_eq_sub_mod hle, Nat.div_eq_sub_div hF hle, Nat.succ_mul]
    omega
  · omega

include hb

theorem xferTotal_of_le {len : Nat} (h : len ≤ b.fragSize) : xferTotal b len = hgicBootdlFragmentProc b len := by
  unfold xferTotal hgicBootdlFragmentProc
  by_cases hs : b.busType = .sdio
  · rw [if_pos hs, if_pos hs, hb hs]
    rcases Nat.lt_or_eq_of_le h with hlt | rfl
    · rw [if_pos hlt, Nat.div_eq_of_lt hlt, Nat.mod_eq_of_lt hlt, Nat.zero_mul, Nat.zero_add]
    · rw [if_neg (Nat.lt_irrefl _), Nat.div_self hF, Nat.mod_self, Nat.one_mul]
      rfl
  · rw [if_neg hs, if_neg hs, if_neg (by omega)]

/-- No pass reads behind the whole fragments and the rounded last one. -/
theorem loopReads_le (o : Nat → Outcome) (fw : Firmware) (info : FwInfo) :
    ∀ (fuel : Nat) (x : Xfer) (copyLen : Int) (writeAddr addrOffset : Nat),
      ∀ r ∈ loopReads b o fw info fuel x copyLen writeAddr addrOffset,
        r.1 + r.2 ≤ info.hdrLen + addrOffset + xferTotal b copyLen.toNat := by
  intro fuel
  induction fuel with
  | zero =>
    intro x copyLen writeAddr addrOffset r hr
    cases hr
  | succ fuel ih =>
    intro x copyLen writeAddr addrOffset r hr
    rw [loopReads] at hr
    split at hr
    · cases hr
    · next hpos =>
      dsimp only at hr
      -- the pass itself, then the rest of the loop
      have hpass : hgicBootdlFragmentProc b copyLen.toNat ≤ xferTotal b copyLen.toNat := by
        by_cases hlt : b.fragSize < copyLen.toNat
        · rw [fragmentProc_of_lt hlt, xferTotal_of_lt hF hlt]
          omega
        · exact Nat.le_of_eq (xferTotal_of_le hF hb (Nat.not_lt.1 hlt)).symm
      rcases List.mem_append.1 hr with hr | hr
      · split at hr
        · rw [List.mem_singleton] at hr
          subst hr
          dsimp only
          omega
        · cases hr
      · split at hr
        · by_cases hlt : b.fragSize < copyLen.toNat
          · rw [fragmentProc_of_lt hlt] at hr
            have hle := ih _ _ _ _ r hr
            rw [xferTotal_of_lt hF hlt]
            rw [show (copyLen - (b.fragSize : Int)).toNat = copyLen.toNat - b.fragSize by omega] at hle
            omega
          · have hge := fragmentProc_ge hb (Nat.not_lt.1 hlt)
            have hdone : copyLen - (hgicBootdlFragmentProc b copyLen.toNat : Int) ≤ 0 := by omega
            cases fuel with
            | zero => cases hr
            | succ fuel =>
              rw [loopReads, if_pos hdone] at hr
              cases hr
        · cases hr

end

/-- Every allocation succeeds and every packet is acknowledged. -/
def allOk (b : Bootdl) (_ : Nat) : Outcome := ⟨true, 0, some (okReply b.checksumMode .writeMem)⟩

theorem sendFragment_allOk (b : Bootdl) (fw : Firmware) (info : FwInfo) (x : Xfer) (writeAddr addrOffset xferLen : Nat) :
    (sendFragment b (allOk b) fw info x writeAddr addrOffset xferLen).1 = 0 := by
  have hw : (hgicBootdlCmdWriteMemory b (allOk b) { x with n := x.n + 1 } writeAddr xferLen).1 = 0 :=
    cmdRet_okReply b.checksumMode .writeMem
  unfold sendFragment
  dsimp only
  rw [if_pos (show (allOk b x.n).alloc = true from rfl), if_pos hw]
  exact dataRet_okReply b.checksumMode .writeMem

theorem loopReads_attained {b : Bootdl} (hF : 0 < b.fragSize) (hb : SdioBlock b) (fw : Firmware) (info : FwInfo) :
    ∀ (fuel : Nat) (x : Xfer) (copyLen : Int) (writeAddr addrOffset : Nat), 0 < copyLen → copyLen.toNat ≤ fuel →
      ∃ r ∈ loopReads b (allOk b) fw info fuel x copyLen writeAddr addrOffset,
        r.1 + r.2 = info.hdrLen + addrOffset + xferTotal b copyLen.toNat := by
  intro fuel
  induction fuel with
  | zero =>
    intro x copyLen writeAddr addrOffset hpos hfuel
    omega
  | succ fuel ih =>
    intro x copyLen writeAddr addrOffset hpos hfuel
    rw [loopReads, if_neg (by omega)]
    dsimp only
    rw [if_pos (show (allOk b x.n).alloc = true from rfl), if_pos (sendFragment_allOk ..)]
    by_cases hlt : b.fragSize < copyLen.toNat
    · rw [fragmentProc_of_lt hlt]
      obtain ⟨r, hr, heq⟩ := ih (sendFragment b (allOk b) fw info x writeAddr addrOffset b.fragSize).2
        (copyLen - b.fragSize) ((writeAddr + b.fragSize) % 2 ^ 32) (addrOffset + b.fragSize) (by omega) (by omega)
      refine ⟨r, List.mem_append_right _ hr, ?_⟩
      rw [heq, xferTotal_of_lt hF hlt, show (copyLen - (b.fragSize : Int)).toNat = copyLen.toNat - b.fragSize by omega]
      omega
    · refine ⟨_, List.mem_append_left _ (List.mem_singleton.2 rfl), ?_⟩
      rw [xferTotal_of_le hF hb (by omega)]

/-! ## The file -/

/-- Whatever is allocated and answered, every byte that is read is in the file. -/
def ReadsInside (b : Bootdl) (fw : Firmware) : Prop :=
  ∀ (o : Nat → Outcome) (x : Xfer), ∀ r ∈ downloadReads b o fw x, r.1 + r.2 ≤ fw.size

/-- The file has the flags as far as they are read, and with good flags the fields of the header. -/
structure HdrFits (e : Endian) (fw : Firmware) : Prop where
  boot : 2 ≤ fw.size
  flags : load16 e fw.data 0 = hgicFwinfoBootHdr → 107 ≤ fw.size
  fields : hgicCheckFwinfoHdr e fw.data = 0 → 127 ≤ fw.size

/-- The code that is sent with a good header. -/
def CodeFits (b : Bootdl) (fw : Firmware) : Prop :=
  hgicCheckFwinfoHdr b.e fw.data = 0 →
    let offset := load32 b.e fw.data 12
    let copyLen := toS32 (sub32 fw.size offset)
    0 < copyLen → offset + xferTotal b copyLen.toNat ≤ fw.size

theorem checkReads_inside {e : Endian} {m : Mem} {size : Nat} :
    (∀ r ∈ checkReads e m, r.1 + r.2 ≤ size) ↔ 2 ≤ size ∧ (load16 e m 0 = hgicFwinfoBootHdr → 107 ≤ size) := by
  unfold checkReads
  by_cases h0 : load16 e m 0 = hgicFwinfoBootHdr
  · rw [if_neg (not_not.2 h0)]
    split
    · simp [h0]
    · simp [h0]
      omega
  · simp [h0]

theorem getterReads_inside {e : Endian} {m : Mem} {off n size : Nat} :
    (∀ r ∈ getterReads e m off n, r.1 + r.2 ≤ size) ↔
      (∀ r ∈ checkReads e m, r.1 + r.2 ≤ size) ∧ (hgicCheckFwinfoHdr e m = 0 → off + n ≤ size) := by
  unfold getterReads
  rw [List.forall_mem_append]
  by_cases h : hgicCheckFwinfoHdr e m = 0 <;> simp [h]

theorem parseFwReads_inside {e : Endian} {fw : Firmware} :
    (∀ r ∈ parseFwReads e fw.data, r.1 + r.2 ≤ fw.size) ↔ HdrFits e fw := by
  unfold parseFwReads
  rw [List.forall_mem_append, getterReads_inside, checkReads_inside]
  by_cases h : hgicCheckFwinfoHdr e fw.data = 0
  · simp only [h, if_true, List.flatten_cons, List.flatten_nil, List.forall_mem_append, getterReads_inside,
      checkReads_inside, true_implies]
    constructor
    · rintro ⟨⟨⟨hboot, hflags⟩, -⟩, -, -, ⟨-, hcrc⟩, -⟩
      exact ⟨hboot, hflags, fun _ => hcrc⟩
    · rintro ⟨hboot, hflags, hfields⟩
      have hsize := hfields h
      refine ⟨⟨⟨hboot, hflags⟩, by omega⟩, ⟨⟨hboot, hflags⟩, by omega⟩, ⟨⟨hboot, hflags⟩, by omega⟩,
        ⟨⟨hboot, hflags⟩, by omega⟩, ⟨⟨hboot, hflags⟩, by omega⟩, nofun⟩
  · simp only [h, if_false, false_implies, and_true]
    constructor
    · rintro ⟨⟨hboot, hflags⟩, -⟩
      exact ⟨hboot, hflags, fun h0 => absurd h0 h⟩
    · rintro ⟨hboot, hflags, -⟩
      exact ⟨⟨hboot, hflags⟩, nofun⟩

/-- The files whose download stays in them. -/
theorem readsInside_iff {b : Bootdl} (hF : 0 < b.fragSize) (hb : SdioBlock b) (fw : Firmware) :
    ReadsInside b fw ↔ HdrFits b.e fw ∧ CodeFits b fw := by
  constructor
  · intro h
    constructor
    · apply parseFwReads_inside.1
      intro r hr
      exact h (allOk b) ⟨0, 0, []⟩ r (List.mem_append_left _ hr)
    · intro hcheck offset copyLen hpos
      obtain ⟨r, hr, heq⟩ := loopReads_attained hF hb fw (goodInfo b.e fw) copyLen.toNat ⟨0, 1, []⟩ copyLen
        (goodInfo b.e fw).writeAddr 0 hpos (Nat.le_refl _)
      have hin := h (allOk b) ⟨0, 0, []⟩ r (by
        unfold downloadReads
        rw [parseFw_of_hdr hcheck]
        exact List.mem_append_right _ hr)
      rw [heq, Nat.add_zero] at hin
      exact hin
  · rintro ⟨hhdr, hcode⟩ o x r hr
    rcases List.mem_append.1 hr with hr | hr
    · exact parseFwReads_inside.2 hhdr r hr
    · by_cases hcheck : hgicCheckFwinfoHdr b.e fw.data = 0
      · rw [parseFw_of_hdr hcheck] at hr
        by_cases hpos : 0 < toS32 (goodInfo b.e fw).fwLen
        · have hle := loopReads_le hF hb o fw (goodInfo b.e fw) _ _ _ _ _ r hr
          rw [Nat.add_zero] at hle
          exact Nat.le_trans hle (hcode hcheck hpos)
        · have hfuel : (toS32 (goodInfo b.e fw).fwLen).toNat = 0 := Int.toNat_of_nonpos (Int.not_lt.1 hpos)
          dsimp only at hr
          rw [hfuel] at hr
          cases hr
      · rw [parseFw_of_hdr_ne hcheck] at hr
        cases hr

def sdio1024 : Bootdl := ⟨.little, .sdio, 64, 1024, hgicBusBootdlCheck0XFD⟩

/-- A file with 64 bytes of code. -/
theorem readsInside_sdio_64 : ReadsInside sdio1024 (imageOf 0 131 0 (List.replicate 64 0)) := by
  refine (readsInside_iff (by decide) (fun _ => rfl) _).2 ⟨⟨by decide, fun _ => by decide, fun _ => by decide⟩, ?_⟩
  intro _ offset copyLen _
  have hoffset : offset = 131 := by decide +kernel
  have hlen : copyLen = 64 := by decide +kernel
  rw [hoffset, hlen]
  decide

/-- With one byte of code the fragment is 64 bytes long. -/
theorem not_readsInside_sdio_1 :
    ¬ ∀ (b : Bootdl) (fw : Firmware), 0 < b.fragSize → SdioBlock b → ReadsInside b fw := by
  intro h
  have hin := h sdio1024 (imageOf 0 131 0 [0]) (by decide) (fun _ => rfl) (allOk sdio1024) ⟨0, 0, []⟩ (131, 64)
    (by decide +kernel)
  exact absurd hin (by decide)

end HgicFmac.Fwdl
