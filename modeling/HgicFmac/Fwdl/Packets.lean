import HgicFmac.Fwdl.Download

/-!
# The packets of a download

* `jobPackets`, `sends_jobs` : what the jobs of a download send;
* `flatMap_raw` : the fragments, one after another, are the code and what lies behind it;
* `decodeRun`, `decodeRun_runWord` : the word of the RUN command;
* `download_packets` : the packets of a download that is acknowledged throughout, and that nothing follows a packet
  that is not.
-/

namespace HgicFmac.Fwdl
open Lib HgicFmac.Core Fwctrl Fwinfo

section Jobs
variable (b : Bootdl) (o : Nat → Outcome) (fw : Firmware) (info : FwInfo) (len : Nat)

def rawFragment (i : Nat) : List UInt8 := fw.data.read (info.hdrLen + i * b.fragSize) (fragLen b len i)

/-- WRITE_MEM and the fragment of the `i`-th pass, when the first outcome is the `n`-th one. -/
def passPackets (n i : Nat) : List Packet :=
  [.cmd .writeMem (writeMemPacket b (fragAddr b info i) (fragLen b len i) (o (n + 2 * i + 1)).cookie),
    .data (i * b.fragSize) (fragLen b len i) (rawFragment b fw info len i)]

def jobPackets (n i : Nat) : List Packet :=
  if i < fragments b len then passPackets b o fw info len n i
  else [.cmd .run (runPacket b info (o (n + 2 * i)).cookie)]

variable {b o fw info len}

theorem sends_job {x : Xfer} {n i : Nat} (hn : x.n = n + 2 * i) :
    Sends b o (jobPackets b o fw info len n i) x (downloadJob b o fw info len i x) := by
  unfold jobPackets downloadJob
  rw [← hn]
  split
  · have h := sends_fragment (b := b) (o := o) fw info x (fragAddr b info i) (i * b.fragSize) (fragLen b len i)
    rw [hn] at h
    exact h
  · exact sends_bootdlCmd x .run (bytes32 .little info.writeAddr) (bytes32 .little (runWord info))

theorem length_jobPackets {n : Nat} : ∀ k ≤ fragments b len,
    ((List.range k).flatMap (jobPackets b o fw info len n)).length = 2 * k
  | 0, _ => rfl
  | k + 1, hk => by
    rw [List.range_succ, List.flatMap_append, List.length_append, length_jobPackets k (by omega), List.flatMap_cons,
      List.flatMap_nil, List.append_nil, jobPackets, if_pos (by omega)]
    rfl

theorem sends_jobs (x : Xfer) : ∀ k ≤ fragments b len + 1,
    Sends b o ((List.range k).flatMap (jobPackets b o fw info len x.n)) x
      (untilErr (downloadJob b o fw info len) (List.range k) x)
  | 0, _ => Sends.nil x
  | k + 1, hk => by
    have ih := sends_jobs x k (by omega)
    rw [List.range_succ, List.flatMap_append, untilErr_concat, List.flatMap_cons, List.flatMap_nil, List.append_nil]
    refine ih.append fun h0 => sends_job ?_
    obtain ⟨L, hL⟩ := ih
    rw [(hL.success h0).2.1, length_jobPackets k (by omega)]

theorem flatMap_jobPackets (n : Nat) :
    (List.range (fragments b len + 1)).flatMap (jobPackets b o fw info len n) =
      (List.range (fragments b len)).flatMap (passPackets b o fw info len n) ++
        [.cmd .run (runPacket b info (o (n + 2 * fragments b len)).cookie)] := by
  have hpass : ∀ i ∈ List.range (fragments b len), jobPackets b o fw info len n i = passPackets b o fw info len n i :=
    fun i hi => if_pos (List.mem_range.mp hi)
  have hrun : jobPackets b o fw info len n (fragments b len) =
      [.cmd .run (runPacket b info (o (n + 2 * fragments b len)).cookie)] := if_neg (Nat.lt_irrefl _)
  rw [List.range_succ, List.flatMap_append, List.flatMap_congr hpass, List.flatMap_cons, hrun]
  rfl

/-! ## The fragments and the code -/

theorem fragLen_of_lt (hF : 0 < b.fragSize) {i : Nat} (hi : i + 1 < fragments b len) : fragLen b len i = b.fragSize := by
  have h := (mul_lt_iff_lt_fragments hF).mpr hi
  rw [Nat.succ_mul] at h
  exact fragmentProc_of_lt (by omega)

theorem le_fragLen (hF : 0 < b.fragSize) (hb : SdioBlock b) {i : Nat} (hi : i + 1 = fragments b len) :
    len ≤ i * b.fragSize + fragLen b len i := by
  have h : ¬ (i + 1) * b.fragSize < len := by
    rw [mul_lt_iff_lt_fragments hF]
    omega
  rw [Nat.succ_mul] at h
  have hge : len - i * b.fragSize ≤ fragLen b len i := fragmentProc_ge hb (by omega)
  omega

theorem flatMap_raw_of_lt (hF : 0 < b.fragSize) : ∀ k < fragments b len,
    (List.range k).flatMap (rawFragment b fw info len) = fw.data.read info.hdrLen (k * b.fragSize)
  | 0, _ => by rw [Nat.zero_mul]; rfl
  | k + 1, hk => by
    rw [List.range_succ, List.flatMap_append, flatMap_raw_of_lt hF k (by omega), List.flatMap_cons, List.flatMap_nil,
      List.append_nil, rawFragment, fragLen_of_lt hF hk, Nat.succ_mul, read_add]

/-- The fragments are the code, and what lies behind it up to the alignment of the bus. -/
theorem flatMap_raw (hF : 0 < b.fragSize) (hb : SdioBlock b) (hlen : 0 < len) :
    ((List.range (fragments b len)).flatMap (rawFragment b fw info len)).take len = fw.data.read info.hdrLen len := by
  have hpos : 0 < fragments b len := by
    rw [← mul_lt_iff_lt_fragments hF, Nat.zero_mul]
    exact hlen
  obtain ⟨k, hk⟩ : ∃ k, k + 1 = fragments b len := ⟨fragments b len - 1, by omega⟩
  have hle := le_fragLen hF hb hk
  rw [← hk, List.range_succ, List.flatMap_append, flatMap_raw_of_lt hF k (by omega), List.flatMap_cons,
    List.flatMap_nil, List.append_nil, rawFragment, ← read_add, take_read _ _ hle]

end Jobs

/-! ## The RUN command -/

/-- The length and the flags of the word that the device gets: AES, CRC and SP. -/
def decodeRun (w : Nat) : Nat × Nat × Nat × Nat := (w % 2 ^ 29, w / 2 ^ 31 % 2, w / 2 ^ 30 % 2, w / 2 ^ 29 % 2)

theorem runWord_eq {info : FwInfo} (h : info.fwLen < 2 ^ 29) : runWord info = 2 ^ 29 *
    ((if info.aesEn ≠ 0 then 4 else 0) + (if info.crcEn ≠ 0 then 2 else 0) + (if info.spCfg ≠ 0 then 1 else 0)) +
      info.fwLen := by
  rw [Nat.two_pow_add_eq_or_of_lt h, Nat.or_comm]
  unfold runWord
  rw [Nat.or_assoc, Nat.or_assoc]
  congr 1
  split <;> split <;> split <;> decide

theorem decodeRun_runWord {info : FwInfo} (h : info.fwLen < 2 ^ 29) (ha : info.aesEn < 2) (hc : info.crcEn < 2)
    (hs : info.spCfg < 2) : decodeRun (runWord info) = (info.fwLen, info.aesEn, info.crcEn, info.spCfg) := by
  have hbit : ∀ {v k : Nat}, v < 2 → (if v ≠ 0 then k else 0) = k * v := by
    intro v k hv
    obtain rfl | rfl : v = 0 ∨ v = 1 := by omega
    · simp
    · simp
  rw [runWord_eq h, hbit ha, hbit hc, hbit hs]
  simp only [decodeRun, Prod.mk.injEq]
  omega

/-! ## The download -/

def Xfer.wire (x : Xfer) : List (List UInt8) := x.log.map fun ev => ev.sent.bytes

theorem last_of_ret_ne {b : Bootdl} {L pre post : List Event} {ev : Event} (hack : ∀ ev ∈ L.dropLast, ev.ret b = 0)
    (hL : L = pre ++ ev :: post) (hev : ev.ret b ≠ 0) : post = [] := by
  cases post with
  | nil => rfl
  | cons e post =>
    refine absurd (hack ev ?_) hev
    rw [hL, List.dropLast_append_cons, List.dropLast_cons_cons]
    exact List.mem_append_right pre List.mem_cons_self

/-- For every image with less than 2^29 bytes of code: when every command and fragment is acknowledged with 0, the
packets handed to the bus are WRITE_MEM and a raw fragment for each part of the code, then RUN; and nothing follows a
packet that is not acknowledged with 0. -/
theorem download_packets (b : Bootdl) (o : Nat → Outcome) (fw : Firmware) (info : FwInfo)
    (hp : hgicBootdlParseFw b fw = .ok info) (hoff : info.hdrLen < fw.size) (hlen : fw.size - info.hdrLen < 2 ^ 29)
    (hF : 0 < b.fragSize) (hb : SdioBlock b) (hd : b.busType = .sdio → 64 ∣ b.fragSize) :
    ∃ (ret : Int) (x : Xfer) (raw : Nat → List UInt8),
      hgicBootdlDownload b o (.ok fw) ⟨0, 0, []⟩ = some (ret, x) ∧
      ((∀ k, (o k).alloc = true) → (∀ ev ∈ x.log, ev.ret b = 0) → ret = 0 ∧
        x.wire = ((List.range (fragments b (fw.size - info.hdrLen))).flatMap fun i =>
          [writeMemPacket b ((info.writeAddr + i * b.fragSize) % 2 ^ 32) (raw i).length (o (2 * i + 1)).cookie, raw i]) ++
          [runPacket b info (o (2 * fragments b (fw.size - info.hdrLen))).cookie]) ∧
      (∀ i, (raw i).length ≤ b.fragSize) ∧
      ((List.range (fragments b (fw.size - info.hdrLen))).flatMap raw).take (fw.size - info.hdrLen) =
        fw.data.read info.hdrLen (fw.size - info.hdrLen) ∧
      decodeRun (runWord info) = (fw.size - info.hdrLen, info.aesEn, info.crcEn, info.spCfg) ∧
      ∀ pre ev post, x.log = pre ++ ev :: post → ev.ret b ≠ 0 → post = [] := by
  obtain ⟨-, -, hfw, haes, hcrc, hsp⟩ := parseFw_ok hp
  have hcl : copyLen info = fw.size - info.hdrLen := copyLen_eq hfw (by omega) (by omega)
  have hfl : info.fwLen = fw.size - info.hdrLen := by
    rw [hfw, sub32]
    omega
  have hdl := download_eq (o := o) hp hF hb ⟨0, 0, []⟩
  obtain ⟨L, hL⟩ := @sends_jobs b o fw info (copyLen info) ⟨0, 1, []⟩ (fragments b (copyLen info) + 1) (Nat.le_refl _)
  rw [hcl] at hdl hL
  rw [flatMap_jobPackets] at hL
  have hlog := hL.log
  rw [List.nil_append] at hlog
  refine ⟨_, _, rawFragment b fw info (fw.size - info.hdrLen), hdl, fun halloc hack => ?_, fun i => ?_,
    flatMap_raw hF hb (by omega), ?_, fun pre ev post hpre hev => ?_⟩
  · rw [hlog] at hack
    have hret : (untilErr (downloadJob b o fw info (fw.size - info.hdrLen))
        (List.range (fragments b (fw.size - info.hdrLen) + 1)) ⟨0, 1, []⟩).1 = 0 := by
      apply Decidable.byContradiction
      intro hne
      rcases hL.failure hne with ⟨k, hk⟩ | ⟨ev, hev, hne⟩
      · rw [halloc k] at hk
        cases hk
      · exact hne (hack ev hev)
    refine ⟨hret, ?_⟩
    have hwire : ∀ x : Xfer, x.wire = (x.log.map Event.sent).map Packet.bytes := fun x => by
      rw [List.map_map]
      rfl
    rw [hwire, hlog, (hL.success hret).1, List.map_append, List.map_flatMap]
    congr 1
    · apply List.flatMap_congr
      intro i _
      rw [rawFragment, length_read]
      simp only [passPackets, Nat.zero_add]
      rfl
    · rw [Nat.zero_add]
      rfl
  · rw [rawFragment, length_read]
    exact fragmentProc_le_fragSize hb hd
  · rw [decodeRun_runWord (hfl ▸ hlen) haes hcrc (by rw [hsp]; decide), hfl]
  · rw [hlog] at hpre
    exact last_of_ret_ne hL.acked hpre hev

/-- A device on USB with fragments of four bytes. -/
def usbFour : Bootdl := ⟨.little, .usb, 512, 4, hgicBusBootdlCheck0XFD⟩

/-- Every command and fragment of a download in `passes` passes is acknowledged. -/
def allAcked (passes k : Nat) : Outcome := ⟨true, k, some (reply0XFD (if k = 2 * passes then .run else .writeMem) 0)⟩

theorem download_packets_ten : ∃ x, hgicBootdlDownload usbFour (allAcked 3)
      (.ok (imageOf 0x20000000 131 0 [1, 2, 3, 4, 5, 6, 7, 8, 9, 10])) ⟨0, 0, []⟩ = some (0, x) ∧
    x.wire.length = 7 := by
  obtain ⟨info, hp, hhdr⟩ : ∃ info, hgicBootdlParseFw usbFour
    (imageOf 0x20000000 131 0 [1, 2, 3, 4, 5, 6, 7, 8, 9, 10]) = .ok info ∧ info.hdrLen = 131 := ⟨_, rfl, rfl⟩
  have hsize : (imageOf 0x20000000 131 0 [1, 2, 3, 4, 5, 6, 7, 8, 9, 10]).size - info.hdrLen = 10 := by
    rw [hhdr]
    rfl
  obtain ⟨ret, x, raw, hx, hall, -⟩ := download_packets usbFour (allAcked 3) _ info hp (by rw [hhdr]; decide)
    (by rw [hsize]; decide) (by decide) nofun nofun
  have hack : (hgicBootdlDownload usbFour (allAcked 3)
      (.ok (imageOf 0x20000000 131 0 [1, 2, 3, 4, 5, 6, 7, 8, 9, 10])) ⟨0, 0, []⟩).map
        (fun r => decide (∀ ev ∈ r.2.log, ev.ret usbFour = 0)) = some true := by decide
  rw [hx] at hack
  obtain ⟨rfl, hwire⟩ := hall (fun _ => rfl) (of_decide_eq_true (Option.some.inj hack))
  refine ⟨x, hx, ?_⟩
  rw [hwire, hsize, List.length_append, List.length_flatMap]
  rfl

end HgicFmac.Fwdl
