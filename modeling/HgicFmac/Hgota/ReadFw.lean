import HgicFmac.Fwdl.Reads
import HgicFmac.Fwinfo.Checksum
import HgicFmac.Hgota.Device

/-!
# The file of an upgrade: `hgic_read_firmware`

`fwinfo.c` of the tool has the header and the checks of the driver; the tool does not look at `err` and takes the length
of the image from the header.

* `ReadFile` : what `hgic_read_firmware` has read; the memory at `fwdata` goes on behind the file;
* `hgicReadFirmware`, `readFirmwareReads` : the information for `hgic_ota_device`, and the ranges that are read for it
  (`readFirmware_congr` : nothing else is);
* `StaysInFile` : all bytes that are read or sent are in the file, and so is the length that is sent.
  `staysInFile_iff` : the files with which it is so.
-/

namespace HgicFmac.Hgota
open Lib Fwinfo

/-- `file_len`, the number of bytes that `fread` has read, and the memory from `malloc`. -/
structure ReadFile where
  fileLen : Nat
  rlen : Nat
  fwdata : Option Mem

/-- The value of a getter of `bits` bits: -1 when the header check fails. -/
def fwVal (bits : Nat) : Except Int Nat → Nat
  | .ok x => x
  | .error _ => 2 ^ bits - 1

def flashLen (e : Endian) (m : Mem) : Nat := load32 e m 16

def fwinfoGetFwLength (e : Endian) (m : Mem) : Except Int Nat := fwField e m ((flashLen e m + load32 e m 12) % 2 ^ 32)

def readInfo (e : Endian) (m : Mem) : FwInfo where
  chipid := fwVal 16 (hgicGetFwChipid e m)
  totLen := fwVal 32 (fwinfoGetFwLength e m)
  version := fwVal 32 (hgicGetFwSdkVersion e m)
  svnVersion := fwVal 32 (hgicGetFwSvnVersion e m)

def hgicReadFirmware (e : Endian) (f : ReadFile) : Option FwInfo :=
  match f.fwdata with
  | none => none
  | some m =>
    if f.fileLen = f.rlen ∧ hgicGetFwCodeChecksum e m (toS32 (readInfo e m).totLen) = 0 then some (readInfo e m)
    else none

/-! ## What is read -/

def lengthReads (e : Endian) (m : Mem) : List (Nat × Nat) :=
  Fwdl.checkReads e m ++ if hgicCheckFwinfoHdr e m = 0 then [(16, 4), (12, 4)] else []

/-- The bytes of the CRC, if it is taken. -/
def rangeReads : Except Int (Nat × Nat) → List (Nat × Nat)
  | .ok r => [r]
  | .error _ => []

/-- `fwinfo_get_fw_code_checksum`: the stored CRC, the offset of the code and the code. -/
def checksumReads (e : Endian) (m : Mem) (len : Int) : List (Nat × Nat) :=
  Fwdl.getterReads e m 123 4 ++
    if hgicCheckFwinfoHdr e m = 0 then
      Fwdl.getterReads e m 12 4 ++ rangeReads (crcRange e m len)
    else []

def infoReads (e : Endian) (m : Mem) : List (Nat × Nat) :=
  List.flatten [Fwdl.getterReads e m 120 2, lengthReads e m, Fwdl.getterReads e m 108 4, Fwdl.getterReads e m 112 4]

def readFirmwareReads (e : Endian) (f : ReadFile) : List (Nat × Nat) :=
  match f.fwdata with
  | none => []
  | some m => if f.fileLen = f.rlen then infoReads e m ++ checksumReads e m (toS32 (readInfo e m).totLen) else []

def Inside (n : Nat) (rs : List (Nat × Nat)) : Prop := ∀ r ∈ rs, 0 < r.2 → r.1 + r.2 ≤ n

/-- Whatever station is upgraded and whatever frames are received. -/
def SendsInside (h : Host) (info : FwInfo) (m : Mem) (n : Nat) : Prop :=
  ∀ (mac : Mac) (t : Libota) (rxbuf : Mem) (as : List Act) (s : Loop),
    otaRun ⟨h, mac, info, m⟩ t rxbuf as = some s → ∀ x ∈ s.sent, x.off + x.len ≤ n

def StaysInFile (h : Host) (f : ReadFile) : Prop :=
  Inside f.rlen (readFirmwareReads h.e f) ∧
  ∀ m info, f.fwdata = some m → hgicReadFirmware h.e f = some info →
    SendsInside h info m f.rlen ∧ info.totLen ≤ f.rlen

/-- The code that the header announces. Without code, the file is accepted when the stored CRC is that of no bytes or
its complement, and the length that is sent is the offset. -/
def FlashFits (e : Endian) (m : Mem) (n : Nat) : Prop :=
  hgicCheckFwinfoHdr e m = 0 → flashLen e m < 2 ^ 31 →
    (0 < flashLen e m → load32 e m 12 + flashLen e m ≤ n) ∧
    (flashLen e m = 0 → load32 e m 123 = 0 ∨ load32 e m 123 = 2 ^ 32 - 1 → load32 e m 12 ≤ n)

def FileFits (e : Endian) (f : ReadFile) : Prop :=
  ∀ m, f.fwdata = some m → f.fileLen = f.rlen → Fwdl.HdrFits e ⟨m, f.rlen⟩ ∧ FlashFits e m f.rlen

/-! ## The ranges -/

section Ranges
variable {e : Endian} {m m' : Mem} {n : Nat}

theorem inside_append {rs ts : List (Nat × Nat)} : Inside n (rs ++ ts) ↔ Inside n rs ∧ Inside n ts :=
  List.forall_mem_append

theorem inside_checkReads :
    Inside n (Fwdl.checkReads e m) ↔ 2 ≤ n ∧ (load16 e m 0 = hgicFwinfoBootHdr → 107 ≤ n) := by
  unfold Fwdl.checkReads Inside
  by_cases h0 : load16 e m 0 = hgicFwinfoBootHdr
  · rw [if_neg (not_not.2 h0)]
    split
    · simp [h0]
    · simp [h0]
      omega
  · simp [h0]

theorem inside_getterReads {off k : Nat} (hk : 0 < k) : Inside n (Fwdl.getterReads e m off k) ↔
    Inside n (Fwdl.checkReads e m) ∧ (hgicCheckFwinfoHdr e m = 0 → off + k ≤ n) := by
  unfold Fwdl.getterReads
  rw [inside_append]
  by_cases h : hgicCheckFwinfoHdr e m = 0 <;> simp [h, Inside, hk]

theorem inside_lengthReads : Inside n (lengthReads e m) ↔
    Inside n (Fwdl.checkReads e m) ∧ (hgicCheckFwinfoHdr e m = 0 → 20 ≤ n) := by
  unfold lengthReads
  rw [inside_append]
  by_cases h : hgicCheckFwinfoHdr e m = 0
  · simp [h, Inside]
    omega
  · simp [h, Inside]

/-- The last field that is read for the information is `chip_id`. -/
theorem inside_infoReads : Inside n (infoReads e m) ↔
    Inside n (Fwdl.checkReads e m) ∧ (hgicCheckFwinfoHdr e m = 0 → 122 ≤ n) := by
  unfold infoReads
  simp only [List.flatten_cons, List.flatten_nil, List.append_nil, inside_append, inside_lengthReads,
    inside_getterReads (by decide : 0 < 2), inside_getterReads (by decide : 0 < 4)]
  constructor
  · rintro ⟨⟨hcheck, hchip⟩, -⟩
    exact ⟨hcheck, hchip⟩
  · rintro ⟨hcheck, hchip⟩
    have hle : ∀ k ≤ 122, hgicCheckFwinfoHdr e m = 0 → k ≤ n := fun k hk h0 => Nat.le_trans hk (hchip h0)
    exact ⟨⟨hcheck, hchip⟩, ⟨hcheck, hle 20 (by decide)⟩, ⟨hcheck, hle 112 (by decide)⟩, hcheck, hle 116 (by decide)⟩

/-- The length that `fwinfo_get_fw_length` gives makes the code of the check that of the header, as a signed number. -/
theorem toS32_flashLen {len off : Nat} (hlen : len < 2 ^ 32) :
    toS32 ((toS32 ((len + off) % 2 ^ 32) - off) % 2 ^ 32).toNat =
      if len < 2 ^ 31 then (len : Int) else len - 2 ^ 32 := by
  unfold toS32
  split_ifs <;> omega

theorem totLen_of_hdr (h : hgicCheckFwinfoHdr e m = 0) :
    (readInfo e m).totLen = (flashLen e m + load32 e m 12) % 2 ^ 32 := by
  unfold readInfo fwinfoGetFwLength fwField
  simp only [h, ne_eq, not_true_eq_false, if_false, fwVal]

/-- The CRC is over the bytes that the header announces, if they are less than `2 ^ 31`. -/
theorem crcRange_readInfo (h : hgicCheckFwinfoHdr e m = 0) : crcRange e m (toS32 (readInfo e m).totLen) =
    if flashLen e m < 2 ^ 31 then .ok (load32 e m 12, flashLen e m) else .error einval := by
  have hlen : flashLen e m < 2 ^ 32 := load32_lt e m 16
  rw [crcRange_of_hdr h, totLen_of_hdr h, toS32_flashLen hlen]
  by_cases hs : flashLen e m < 2 ^ 31
  · rw [if_pos hs, if_pos hs, if_neg (by omega), Int.toNat_natCast]
  · rw [if_neg hs, if_neg hs, if_pos (by omega)]

theorem inside_checksumReads : Inside n (checksumReads e m (toS32 (readInfo e m).totLen)) ↔
    Inside n (Fwdl.checkReads e m) ∧ (hgicCheckFwinfoHdr e m = 0 → 127 ≤ n ∧
      (flashLen e m < 2 ^ 31 → 0 < flashLen e m → load32 e m 12 + flashLen e m ≤ n)) := by
  unfold checksumReads
  rw [inside_append, inside_getterReads (by decide)]
  by_cases h : hgicCheckFwinfoHdr e m = 0
  · rw [if_pos h, inside_append, inside_getterReads (by decide), crcRange_readInfo h]
    have hcrc : Inside n (rangeReads (if flashLen e m < 2 ^ 31 then .ok (load32 e m 12, flashLen e m) else
        .error einval)) ↔ (flashLen e m < 2 ^ 31 → 0 < flashLen e m → load32 e m 12 + flashLen e m ≤ n) := by
      by_cases hs : flashLen e m < 2 ^ 31
      · rw [if_pos hs, rangeReads, Inside, List.forall_mem_singleton]
        exact ⟨fun hin _ => hin, fun hin => hin hs⟩
      · rw [if_neg hs]
        exact ⟨fun _ hlt => absurd hlt hs, fun _ => nofun⟩
    rw [hcrc]
    simp only [h, true_implies]
    constructor
    · rintro ⟨⟨hcheck, hfield⟩, -, hcode⟩
      exact ⟨hcheck, hfield, hcode⟩
    · rintro ⟨hcheck, hfield, hcode⟩
      exact ⟨⟨hcheck, hfield⟩, ⟨hcheck, by omega⟩, hcode⟩
  · simp [h, Inside]

/-- All reads for a file that was read. -/
theorem inside_reads : Inside n (infoReads e m ++ checksumReads e m (toS32 (readInfo e m).totLen)) ↔
    Fwdl.HdrFits e ⟨m, n⟩ ∧ (hgicCheckFwinfoHdr e m = 0 → flashLen e m < 2 ^ 31 → 0 < flashLen e m →
      load32 e m 12 + flashLen e m ≤ n) := by
  rw [inside_append, inside_infoReads, inside_checksumReads, inside_checkReads]
  constructor
  · rintro ⟨-, ⟨hboot, hflags⟩, hrest⟩
    exact ⟨⟨hboot, hflags, fun h => (hrest h).1⟩, fun h => (hrest h).2⟩
  · rintro ⟨⟨hboot, hflags, hfields⟩, hcode⟩
    have hfields : hgicCheckFwinfoHdr e m = 0 → 127 ≤ n := hfields
    exact ⟨⟨⟨hboot, hflags⟩, fun h => by have := hfields h; omega⟩, ⟨hboot, hflags⟩, fun h => ⟨hfields h, hcode h⟩⟩

theorem checksum_of_hdr_ne (h : hgicCheckFwinfoHdr e m ≠ 0) (len : Int) : hgicGetFwCodeChecksum e m len ≠ 0 := by
  rw [hgicGetFwCodeChecksum_eq, crcRange_of_hdr_ne h]
  exact h

theorem accepted_iff (h : hgicCheckFwinfoHdr e m = 0) :
    hgicGetFwCodeChecksum e m (toS32 (readInfo e m).totLen) = 0 ↔
      flashLen e m < 2 ^ 31 ∧ CrcAccepts e m (m.read (load32 e m 12) (flashLen e m)) := by
  rw [hgicGetFwCodeChecksum_eq, crcRange_readInfo h]
  by_cases hs : flashLen e m < 2 ^ 31
  · rw [if_pos hs]
    dsimp only
    split
    · next hacc => exact ⟨fun _ => ⟨hs, hacc⟩, fun _ => rfl⟩
    · next hacc => exact ⟨fun h0 => absurd h0 (by decide), fun h0 => absurd h0.2 hacc⟩
  · rw [if_neg hs]
    exact ⟨fun h0 => absurd (show einval = 0 from h0) (by decide), fun h0 => absurd h0.1 hs⟩

theorem readFirmware_congr {fileLen rlen : Nat}
    (h : Fwdl.SameOn (readFirmwareReads e ⟨fileLen, rlen, some m⟩) m m') :
    hgicReadFirmware e ⟨fileLen, rlen, some m'⟩ = hgicReadFirmware e ⟨fileLen, rlen, some m⟩ := by
  unfold hgicReadFirmware
  dsimp only [readFirmwareReads] at h ⊢
  by_cases hlen : fileLen = rlen
  · rw [if_pos hlen] at h
    have hcheck : hgicCheckFwinfoHdr e m' = hgicCheckFwinfoHdr e m := Fwdl.check_congr h.left.left.left
    by_cases h0 : hgicCheckFwinfoHdr e m = 0
    · have hinfo : ∀ r ∈ [((120 : Nat), (2 : Nat)), (16, 4), (12, 4), (108, 4), (112, 4)], r ∈ infoReads e m := by
        intro r hr
        simp only [infoReads, lengthReads, Fwdl.getterReads, h0, if_true, List.flatten_cons, List.flatten_nil,
          List.mem_append, List.mem_cons, List.not_mem_nil, or_false] at hr ⊢
        tauto
      have hl := h.left
      have h16 : flashLen e m' = flashLen e m := hl.load32 e (hinfo (16, 4) (by simp))
      have h12 : load32 e m' 12 = load32 e m 12 := hl.load32 e (hinfo (12, 4) (by simp))
      have hval : readInfo e m' = readInfo e m := by
        simp only [readInfo, hgicGetFwChipid, fwinfoGetFwLength, hgicGetFwSdkVersion, hgicGetFwSvnVersion, fwField,
          hcheck, h16, h12, hl.load16 e (hinfo (120, 2) (by simp)), hl.load32 e (hinfo (108, 4) (by simp)),
          hl.load32 e (hinfo (112, 4) (by simp))]
      have hr := h.right
      rw [checksumReads, if_pos h0, crcRange_readInfo h0] at hr
      have hcrc : load32 e m' 123 = load32 e m 123 := hr.load32 e (by simp [Fwdl.getterReads, h0])
      have hcode : flashLen e m < 2 ^ 31 →
          m'.read (load32 e m 12) (flashLen e m) = m.read (load32 e m 12) (flashLen e m) := by
        intro hs
        apply read_congr
        intro i hi hi'
        rw [if_pos hs] at hr
        exact hr.right.right _ List.mem_cons_self i hi hi'
      have hacc : hgicGetFwCodeChecksum e m' (toS32 (readInfo e m').totLen) = 0 ↔
          hgicGetFwCodeChecksum e m (toS32 (readInfo e m).totLen) = 0 := by
        rw [accepted_iff h0, accepted_iff (hcheck.trans h0), h12, h16]
        apply and_congr_right
        intro hs
        rw [hcode hs, CrcAccepts, CrcAccepts, hcrc]
      rw [hval] at hacc ⊢
      simp only [hacc]
    · have hne : hgicCheckFwinfoHdr e m' ≠ 0 := by rwa [hcheck]
      simp only [checksum_of_hdr_ne h0, checksum_of_hdr_ne hne, and_false, if_false]
  · simp only [hlen, false_and, if_false]

end Ranges

/-! ## What is sent -/

theorem sent_le_totLen {c : Session} {t : Libota} {rxbuf : Mem} {as : List Act} {s : Loop}
    (h : otaRun c t rxbuf as = some s) : ∀ x ∈ s.sent, x.off + x.len ≤ c.info.totLen := by
  obtain ⟨s0, h0, h⟩ := Option.bind_eq_some_iff.mp h
  have hinit : ∀ x ∈ s0.sent, x.off + x.len ≤ c.info.totLen := by
    rw [(hgicOtaDevice_eq h0).2.2.2.2.1]
    exact nofun
  have hkeep : ∀ s a u, (∀ x ∈ s.sent, x.off + x.len ≤ c.info.totLen) → step c s a = some u →
      ∀ x ∈ u.sent, x.off + x.len ≤ c.info.totLen := by
    intro s a u hi hs
    rcases step_cases hs with ⟨alloc, -, -, hg, rfl⟩ | ⟨r, -, -, rfl⟩
    · intro x hx
      rcases sendHalf_sent hx with hx | ⟨hoff, hlen⟩
      · exact hi x hx
      · have hlt := hg.1
        have hfrag := (fragLen_le c s.otaOff).2
        omega
    · exact hi
  exact reach_invariant (step c) hkeep hinit h

section File
variable {e : Endian} {m : Mem}

theorem crcAccepts_nil : CrcAccepts e m [] ↔ load32 e m 123 = 0 ∨ load32 e m 123 = 2 ^ 32 - 1 := by
  unfold CrcAccepts
  have hcrc : (hgicCrc32 []).toNat = 0 := by decide +kernel
  have hnot : (~~~ hgicCrc32 []).toNat = 2 ^ 32 - 1 := by decide +kernel
  rw [hcrc, hnot, eq_comm, @eq_comm _ (2 ^ 32 - 1)]

/-- When the reads are in the file, an accepted image that is too long has no code. -/
theorem totLen_le_iff {n : Nat} (hcode : hgicCheckFwinfoHdr e m = 0 → flashLen e m < 2 ^ 31 → 0 < flashLen e m →
      load32 e m 12 + flashLen e m ≤ n) :
    (hgicGetFwCodeChecksum e m (toS32 (readInfo e m).totLen) = 0 → (readInfo e m).totLen ≤ n) ↔
      (hgicCheckFwinfoHdr e m = 0 → flashLen e m < 2 ^ 31 → flashLen e m = 0 →
        load32 e m 123 = 0 ∨ load32 e m 123 = 2 ^ 32 - 1 → load32 e m 12 ≤ n) := by
  by_cases h : hgicCheckFwinfoHdr e m = 0
  · have hoff := load32_lt e m 12
    rw [accepted_iff h, totLen_of_hdr h]
    constructor
    · intro hle _ hs h0 hcrc
      have hnil : CrcAccepts e m (m.read (load32 e m 12) (flashLen e m)) := by
        rw [h0]
        exact crcAccepts_nil.2 hcrc
      have hlen := hle ⟨hs, hnil⟩
      rwa [h0, Nat.zero_add, Nat.mod_eq_of_lt hoff] at hlen
    · rintro hle ⟨hs, hacc⟩
      rcases Nat.eq_zero_or_pos (flashLen e m) with h0 | hpos
      · rw [h0] at hacc ⊢
        rw [Nat.zero_add, Nat.mod_eq_of_lt hoff]
        exact hle h hs h0 (crcAccepts_nil.1 hacc)
      · have hend := hcode h hs hpos
        omega
  · simp [h, checksum_of_hdr_ne h]

end File

/-- The tool reads and sends bytes of the file only, and a length that is not larger, exactly for the files that have
the header as far as it is read, the code that it announces, and, if they announce none and are accepted, an offset in
the file. -/
theorem staysInFile_iff (h : Host) (f : ReadFile) : StaysInFile h f ↔ FileFits h.e f := by
  obtain ⟨fileLen, rlen, fwdata⟩ := f
  unfold StaysInFile FileFits readFirmwareReads hgicReadFirmware
  cases fwdata with
  | none => exact ⟨fun _ => nofun, fun _ => ⟨nofun, nofun⟩⟩
  | some m =>
    dsimp only
    by_cases hlen : fileLen = rlen
    · rw [if_pos hlen, inside_reads]
      constructor
      · rintro ⟨⟨hhdr, hcode⟩, hsent⟩ m' hm' -
        obtain rfl : m = m' := Option.some.inj hm'
        have htot := (totLen_le_iff hcode).1 fun hacc => (hsent m _ rfl (if_pos ⟨hlen, hacc⟩)).2
        exact ⟨hhdr, fun h0 hs => ⟨hcode h0 hs, htot h0 hs⟩⟩
      · intro hfits
        obtain ⟨hhdr, hflash⟩ := hfits m rfl hlen
        have hcode := fun h0 hs => (hflash h0 hs).1
        refine ⟨⟨hhdr, hcode⟩, fun m' info hm' hinfo => ?_⟩
        obtain ⟨⟨-, hacc⟩, hval⟩ := Option.ite_none_right_eq_some.1 hinfo
        obtain rfl : readInfo h.e m = info := Option.some.inj hval
        have htot := (totLen_le_iff hcode).2 (fun h0 hs => (hflash h0 hs).2) hacc
        refine ⟨fun mac t rxbuf as s hrun x hx => ?_, htot⟩
        exact Nat.le_trans (sent_le_totLen hrun x hx) htot
    · rw [if_neg hlen]
      refine ⟨fun _ m' _ heq => absurd heq hlen, fun _ => ⟨nofun, fun m' info _ hinfo => ?_⟩⟩
      rw [if_neg fun hacc => hlen hacc.1] at hinfo
      cases hinfo

/-- A file of 131 bytes without code that has the code offset 4096 is accepted, and 4096 bytes are sent. -/
theorem staysInFile_fails : ¬ ∀ (h : Host) (f : ReadFile), StaysInFile h f := by
  intro hall
  have hacc : hgicReadFirmware .little ⟨131, 131, some (imageOf 0 4096 0 []).data⟩ =
      some (readInfo .little (imageOf 0 4096 0 []).data) := by decide +kernel
  exact absurd ((hall ⟨.little, true⟩ ⟨131, 131, some (imageOf 0 4096 0 []).data⟩).2 _ _ rfl hacc).2 (by decide +kernel)

end HgicFmac.Hgota
