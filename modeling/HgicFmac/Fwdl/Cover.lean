import HgicFmac.Fwdl.Enter
import HgicFmac.Fwdl.Packets

/-!
# RUN only behind the whole code

`fw_len` is an unsigned difference and the counter of the loop is signed, so the number of bytes sent may be less than
the number of code bytes, and RUN is sent all the same.

* `RunCovered` : RUN is sent only behind acknowledged fragments that cover the code, and only for an image whose code
  offset lies in the file;
* `okReply`, `jobs_ok` : a device that acknowledges everything;
* `run_covered_iff` : whatever the device answers, `RunCovered` holds, exactly for the images whose code offset lies
  in the file and that have less than 2^31 bytes of code.
-/

namespace HgicFmac.Fwdl
open Lib HgicFmac.Core Fwctrl Fwinfo

def RunCovered (fw : Firmware) (info : FwInfo) (x : Xfer) : Prop :=
  ∀ pre bytes resp post, x.log = pre ++ ⟨.cmd .run bytes, resp⟩ :: post →
    info.hdrLen ≤ fw.size ∧ ∀ p < fw.size - info.hdrLen, ∃ off len resp,
      ⟨.data off len (fw.data.read (info.hdrLen + off) len), resp⟩ ∈ pre ∧ dataRet resp = 0 ∧ off ≤ p ∧ p < off + len

/-! ## A device that acknowledges everything -/

/-- The bytes of an acknowledgement from `cmd` up to its check byte; they sum to 0. -/
def okBytes (c : BootCmd) : List UInt8 := [cmdByte c, 0, 0, 0, 0, 0, 0 - cmdByte c]

def okReply (mode : UInt8) (c : BootCmd) : Mem :=
  Mem.ofList (List.flatten [List.replicate 8 0, okBytes c, [hgicBootdlCmdCheckVal mode (okBytes c)]])

theorem cmdRet_okReply (mode : UInt8) (c : BootCmd) : cmdRet mode c (some (okReply mode c)) = 0 := by
  have hread : (okReply mode c).read 8 7 = okBytes c := by cases c <;> rfl
  have hcheck : rspCheck (okReply mode c) = hgicBootdlCmdCheckVal mode (okBytes c) := by cases c <;> rfl
  have hcmd : rspCmd (okReply mode c) = cmdByte c := by cases c <;> rfl
  have hcode : rspCode (okReply mode c) = 0 := by cases c <;> rfl
  have hval : rspCheck (okReply mode c) = hgicBootdlCmdCheckVal mode ((okReply mode c).read 8 8) := by
    rw [read_check, hread, hcheck]
    by_cases hmode : mode = hgicBusBootdlCheckSum
    · rw [hmode, checkVal_sum]
      cases c <;> decide
    · exact checkVal_const hmode _ _
  unfold cmdRet hgicBootdlCmdRspHandle
  dsimp only
  rw [if_neg (not_not.mpr hval), if_neg (not_not.mpr hcmd), hcode]
  rfl

theorem dataRet_okReply (mode : UInt8) (c : BootCmd) : dataRet (some (okReply mode c)) = 0 := by
  cases c <;> rfl

/-- The outcomes of a download in `passes` passes that is acknowledged throughout. -/
def okOutcome (mode : UInt8) (passes k : Nat) : Outcome :=
  ⟨true, 0, some (okReply mode (if k = 2 * passes then .run else .writeMem))⟩

section Ok
variable {b : Bootdl} {fw : Firmware} {info : FwInfo} {len : Nat}

theorem job_ok {x : Xfer} {i : Nat} (hi : i ≤ fragments b len) (hn : x.n = 2 * i) :
    (downloadJob b (okOutcome b.checksumMode (fragments b len)) fw info len i x).1 = 0 := by
  unfold downloadJob
  split
  · next hlt =>
    have hw : ∀ y : Xfer, y.n = 2 * i + 1 → ∀ addr dataLen, (hgicBootdlCmdWriteMemory b
        (okOutcome b.checksumMode (fragments b len)) y addr dataLen).1 = 0 := by
      intro y hy addr dataLen
      have hne : y.n ≠ 2 * fragments b len := by omega
      simp only [hgicBootdlCmdWriteMemory, bootdlCmd, okOutcome, if_true, if_neg hne]
      exact cmdRet_okReply b.checksumMode .writeMem
    unfold sendFragment
    dsimp only
    rw [if_pos (show (okOutcome b.checksumMode (fragments b len) x.n).alloc = true from rfl),
      if_pos (hw { x with n := x.n + 1 } (by rw [hn]) _ _)]
    exact dataRet_okReply b.checksumMode _
  · have hn : x.n = 2 * fragments b len := by omega
    simp only [hgicBootdlCmdRun, bootdlCmd, okOutcome, if_true, if_pos hn]
    exact cmdRet_okReply b.checksumMode .run

theorem jobs_ok {x : Xfer} (hx : x.n = 0) : ∀ k ≤ fragments b len + 1,
    (untilErr (downloadJob b (okOutcome b.checksumMode (fragments b len)) fw info len) (List.range k) x).1 = 0
  | 0, _ => rfl
  | k + 1, hk => by
    have ih := jobs_ok hx k (by omega)
    obtain ⟨L, hL⟩ := @sends_jobs b (okOutcome b.checksumMode (fragments b len)) fw info len x k (by omega)
    have hn := (hL.success ih).2.1
    rw [length_jobPackets k (by omega), hx, Nat.zero_add] at hn
    rw [List.range_succ, untilErr_concat, if_pos ih]
    exact job_ok (by omega) hn

end Ok

/-! ## The log of a download -/

/-- The RUN packet ends the packets of a download. -/
theorem pre_eq_of_prefix {α : Type*} {A B P : List α} {r R : α} (h : A ++ r :: B <+: P ++ [R]) (hr : r ∉ P) :
    A = P := by
  have hle : A ++ [r] <+: P ++ [R] := by
    refine List.IsPrefix.trans ?_ h
    exact (List.prefix_append_right_inj A).mpr ⟨B, rfl⟩
  rcases List.prefix_concat_iff.mp hle with heq | hle
  · exact (List.append_inj' heq rfl).1
  · exact absurd (hle.subset (List.mem_append_right A (List.mem_singleton.mpr rfl))) hr

section Cover
variable {b : Bootdl} {o : Nat → Outcome} {fw : Firmware} {info : FwInfo} {len : Nat}

theorem run_not_mem (n : Nat) (bytes : List UInt8) :
    .cmd .run bytes ∉ (List.range (fragments b len)).flatMap (passPackets b o fw info len n) := by
  simp [passPackets]

/-- Every byte that the loop counts lies in a fragment. -/
theorem mem_passPackets (hF : 0 < b.fragSize) (hb : SdioBlock b) (n : Nat) {p : Nat} (hp : p < len) :
    ∃ off k, .data off k (fw.data.read (info.hdrLen + off) k) ∈
        (List.range (fragments b len)).flatMap (passPackets b o fw info len n) ∧ off ≤ p ∧ p < off + k := by
  have hle : p / b.fragSize * b.fragSize ≤ p := Nat.div_mul_le_self p b.fragSize
  have hlt : p / b.fragSize < fragments b len := (mul_lt_iff_lt_fragments hF).mp (Nat.lt_of_le_of_lt hle hp)
  refine ⟨p / b.fragSize * b.fragSize, fragLen b len (p / b.fragSize), ?_, hle, ?_⟩
  · exact List.mem_flatMap.mpr ⟨p / b.fragSize, List.mem_range.mpr hlt, List.mem_cons_of_mem _ List.mem_cons_self⟩
  · by_cases hlast : p / b.fragSize + 1 < fragments b len
    · rw [fragLen_of_lt hF hlast, ← Nat.succ_mul]
      exact Nat.lt_mul_of_div_lt (Nat.lt_succ_self _) hF
    · have hlast : p / b.fragSize + 1 = fragments b len := by omega
      have := le_fragLen hF hb hlast
      omega

/-- No fragment reaches far beyond what the loop counts. -/
theorem data_le (hF : 0 < b.fragSize) (hb : SdioBlock b) (n : Nat) {off k : Nat} {bytes : List UInt8}
    (h : .data off k bytes ∈ (List.range (fragments b len)).flatMap (passPackets b o fw info len n)) :
    0 < len ∧ off + k ≤ len + 63 := by
  obtain ⟨i, hi, hmem⟩ := List.mem_flatMap.mp h
  have hlt := (mul_lt_iff_lt_fragments hF).mpr (List.mem_range.mp hi)
  have hle : fragLen b len i ≤ len - i * b.fragSize + 63 := fragmentProc_le hb
  simp only [passPackets, List.mem_cons, reduceCtorEq, Packet.data.injEq, List.not_mem_nil, or_false, false_or] at hmem
  obtain ⟨rfl, rfl, -⟩ := hmem
  omega

end Cover

section Image
variable {b : Bootdl} {o : Nat → Outcome} {fw : Firmware} {info : FwInfo}

/-- The log of a download: a prefix of the packets of the passes and RUN, all but the last one acknowledged. -/
theorem log_download (hp : hgicBootdlParseFw b fw = .ok info) (hF : 0 < b.fragSize) (hb : SdioBlock b) {ret : Int}
    {x : Xfer} (h : hgicBootdlDownload b o (.ok fw) ⟨0, 0, []⟩ = some (ret, x)) :
    x.log.map Event.sent <+: (List.range (fragments b (copyLen info))).flatMap
        (passPackets b o fw info (copyLen info) 0) ++
      [.cmd .run (runPacket b info (o (0 + 2 * fragments b (copyLen info))).cookie)] ∧
    ∀ ev ∈ x.log.dropLast, ev.ret b = 0 := by
  obtain ⟨L, hL⟩ := @sends_jobs b o fw info (copyLen info) ⟨0, 1, []⟩ (fragments b (copyLen info) + 1) (Nat.le_refl _)
  rw [flatMap_jobPackets] at hL
  have hx := Option.some.inj ((download_eq hp hF hb ⟨0, 0, []⟩).symm.trans h)
  have hlog : x.log = L := by
    rw [← List.nil_append L, ← hL.log]
    exact congrArg (fun r => r.2.log) hx.symm
  rw [hlog]
  exact ⟨hL.le, hL.acked⟩

theorem covered_of_le (hp : hgicBootdlParseFw b fw = .ok info) (hF : 0 < b.fragSize) (hb : SdioBlock b)
    (hle : info.hdrLen ≤ fw.size) (hlt : fw.size - info.hdrLen < 2 ^ 31) {ret : Int} {x : Xfer}
    (h : hgicBootdlDownload b o (.ok fw) ⟨0, 0, []⟩ = some (ret, x)) : RunCovered fw info x := by
  obtain ⟨hpre, hack⟩ := log_download hp hF hb h
  rw [copyLen_eq (parseFw_ok hp).2.2.1 hle hlt] at hpre
  intro pre bytes resp post hlog
  rw [hlog, List.map_append, List.map_cons] at hpre
  have heq := pre_eq_of_prefix hpre (run_not_mem 0 bytes)
  refine ⟨hle, fun p hp => ?_⟩
  obtain ⟨off, k, hmem, hlo, hhi⟩ := mem_passPackets (o := o) hF hb 0 hp
  rw [← heq] at hmem
  obtain ⟨⟨sent, r⟩, hev, rfl⟩ := List.mem_map.mp hmem
  -- the RUN command follows the fragment
  have hdl : ⟨.data off k (fw.data.read (info.hdrLen + off) k), r⟩ ∈ x.log.dropLast := by
    rw [hlog, List.dropLast_append_cons]
    exact List.mem_append_left _ hev
  exact ⟨off, k, r, hev, hack _ hdl, hlo, hhi⟩

theorem run_sent (hp : hgicBootdlParseFw b fw = .ok info) (hF : 0 < b.fragSize) (hb : SdioBlock b) :
    ∃ x pre ev, hgicBootdlDownload b (okOutcome b.checksumMode (fragments b (copyLen info))) (.ok fw) ⟨0, 0, []⟩ =
      some (0, x) ∧ x.log = pre ++ [ev] ∧ (∃ bytes, ev.sent = .cmd .run bytes) ∧
      pre.map Event.sent = (List.range (fragments b (copyLen info))).flatMap
        (passPackets b (okOutcome b.checksumMode (fragments b (copyLen info))) fw info (copyLen info) 0) := by
  have hret := @jobs_ok b fw info (copyLen info) ⟨0, 1, []⟩ rfl (fragments b (copyLen info) + 1) (Nat.le_refl _)
  obtain ⟨L, hL⟩ := @sends_jobs b (okOutcome b.checksumMode (fragments b (copyLen info))) fw info (copyLen info)
    ⟨0, 1, []⟩ (fragments b (copyLen info) + 1) (Nat.le_refl _)
  have hmap := (hL.success hret).1
  rw [flatMap_jobPackets] at hmap
  obtain ⟨pre, last, hsplit, hpre, hlast⟩ := List.map_eq_append_iff.mp hmap
  obtain ⟨ev, rfl⟩ : ∃ ev, last = [ev] := by
    have hlen := congrArg List.length hlast
    rw [List.length_map] at hlen
    exact List.length_eq_one_iff.mp hlen
  refine ⟨(untilErr (downloadJob b (okOutcome b.checksumMode (fragments b (copyLen info))) fw info (copyLen info))
    (List.range (fragments b (copyLen info) + 1)) ⟨0, 1, []⟩).2, pre, ev, ?_, ?_, ⟨_, (List.cons.inj hlast).1⟩, hpre⟩
  · rw [download_eq hp hF hb]
    exact congrArg some (Prod.ext hret rfl)
  · rw [hL.log, List.nil_append, hsplit]

/-- What the loop counts is less than 2^31, and congruent to the number of code bytes. -/
theorem copyLen_lt (h : info.fwLen = sub32 fw.size info.hdrLen) (hle : info.hdrLen ≤ fw.size)
    (hpos : 0 < copyLen info) : copyLen info < 2 ^ 31 ∧ copyLen info = (fw.size - info.hdrLen) % 2 ^ 32 := by
  have hmod : info.fwLen % 2 ^ 32 = (fw.size - info.hdrLen) % 2 ^ 32 := by
    rw [h, sub32]
    omega
  unfold copyLen toS32 at hpos ⊢
  rw [hmod] at hpos ⊢
  by_cases hlt : (fw.size - info.hdrLen) % 2 ^ 32 < 2 ^ 31
  · rw [if_pos hlt]
    omega
  · rw [if_neg hlt] at hpos
    omega

end Image

/-- Whatever the device answers, RUN is sent only behind acknowledged fragments that cover the code, if and only if
the code offset lies in the file and less than 2^31 bytes follow it. -/
theorem run_covered_iff (b : Bootdl) (fw : Firmware) (info : FwInfo) (hp : hgicBootdlParseFw b fw = .ok info)
    (hF : 0 < b.fragSize) (hb : SdioBlock b) :
    (∀ o ret x, hgicBootdlDownload b o (.ok fw) ⟨0, 0, []⟩ = some (ret, x) → RunCovered fw info x) ↔
      info.hdrLen ≤ fw.size ∧ fw.size - info.hdrLen < 2 ^ 31 := by
  refine ⟨fun hall => ?_, fun hc o ret x => covered_of_le hp hF hb hc.1 hc.2⟩
  obtain ⟨x, pre, ev, hx, hlog, ⟨bytes, hsent⟩, hpre⟩ := run_sent hp hF hb
  have hev : ev = ⟨.cmd .run bytes, ev.resp⟩ := by rw [← hsent]
  rw [hev] at hlog
  obtain ⟨hle, hcov⟩ := hall _ _ x hx pre bytes ev.resp [] hlog
  refine ⟨hle, Nat.lt_of_not_le fun hge => ?_⟩
  -- the last code byte is beyond every fragment
  obtain ⟨off, k, resp, hmem, -, -, hhi⟩ := hcov (fw.size - info.hdrLen - 1) (by omega)
  have hdata : .data off k (fw.data.read (info.hdrLen + off) k) ∈ pre.map Event.sent :=
    List.mem_map.mpr ⟨_, hmem, rfl⟩
  rw [hpre] at hdata
  obtain ⟨hpos, hend⟩ := data_le hF hb 0 hdata
  have := copyLen_lt (parseFw_ok hp).2.2.1 hle hpos
  omega

/-- An image of ten code bytes, in a file that holds its code offset. -/
theorem run_covered_ten : ∃ info, hgicBootdlParseFw usbFour (imageOf 0 131 0 (List.replicate 10 0)) = .ok info ∧
    ∀ o ret x, hgicBootdlDownload usbFour o (.ok (imageOf 0 131 0 (List.replicate 10 0))) ⟨0, 0, []⟩ = some (ret, x) →
      RunCovered (imageOf 0 131 0 (List.replicate 10 0)) info x := by
  obtain ⟨info, hp, hhdr⟩ : ∃ info, hgicBootdlParseFw usbFour (imageOf 0 131 0 (List.replicate 10 0)) = .ok info ∧
    info.hdrLen = 131 := ⟨_, rfl, rfl⟩
  refine ⟨info, hp, (run_covered_iff usbFour _ info hp (by decide) nofun).mpr ?_⟩
  rw [hhdr]
  decide

/-- The code offset is beyond the end of the file: no fragment is sent, and RUN is. -/
theorem run_covered_fails : ¬ ∀ (b : Bootdl) (o : Nat → Outcome) (fw : Firmware) (info : FwInfo) (ret : Int) (x : Xfer),
    0 < b.fragSize → hgicBootdlParseFw b fw = .ok info →
    hgicBootdlDownload b o (.ok fw) ⟨0, 0, []⟩ = some (ret, x) → RunCovered fw info x := by
  intro hall
  have h := (hall usbFour (okOutcome usbFour.checksumMode 0) (imageOf 0 4608 0 []) _ _ _ (by decide) rfl rfl
    [] _ _ [] rfl).1
  revert h
  decide

end HgicFmac.Fwdl
