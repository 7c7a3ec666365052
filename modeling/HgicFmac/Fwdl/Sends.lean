import HgicFmac.Fwdl.Model
import HgicFmac.Lib.Jobs

/-!
# What a sequence of commands and fragments sends

* `ctrlData_cmdPacket`, `ctrlData_dataPacket` : a command reaches the bus as it is, a fragment without its header;
* `Sends b o P x r` : from `x` to `r` a prefix of the packets `P` is queued, all of `P` when `r` is a success, and
  every packet but the last one is acknowledged with 0;
* `Sends.append` : one sequence after another, unless the first one fails;
* `sends_bootdlCmd`, `sends_fragment` : the two kinds of steps.
-/

namespace HgicFmac.Fwdl
open Lib HgicFmac.Core Fwctrl Fwinfo

/-! ## The packets on the bus -/

theorem type_hdr (e : Endian) (h : Hdr) (rest : List UInt8) (ht : h.type < 256) :
    Skb.type ⟨h.bytes e ++ rest, []⟩ = h.type := by
  cases e <;> simp [Skb.type, Skb.mem, Mem.ofList, Hdr.bytes, bytes16] <;> omega

theorem ctrlData_cmdPacket (b : Bootdl) (c : BootCmd) (addr len : List UInt8) (cookie : Nat) :
    (ctrlData ⟨cmdPacket b c addr len cookie, []⟩).data = cmdPacket b c addr len cookie := by
  have hlt : HdrType.bootdl.byte < 256 := by decide
  have hne : HdrType.bootdl.byte ≠ HdrType.bootdlData.byte := by decide
  have htype : Skb.type ⟨cmdPacket b c addr len cookie, []⟩ = HdrType.bootdl.byte := by
    unfold cmdPacket
    rw [List.flatten_cons]
    exact type_hdr _ _ _ hlt
  unfold ctrlData
  rw [if_neg (htype ▸ hne)]

theorem ctrlData_dataPacket (b : Bootdl) (payload : List UInt8) :
    (ctrlData ⟨dataPacket b payload, []⟩).data = payload := by
  have hdrop : (dataPacket b payload).drop bootdlCmdHdrSize = payload := by
    simp only [dataPacket, List.flatten_cons, List.flatten_nil, List.append_nil, ← List.append_assoc]
    exact List.drop_left' (by simp [bootdlCmdHdrSize])
  have hlt : HdrType.bootdlData.byte < 256 := by decide
  have htype : Skb.type ⟨dataPacket b payload, []⟩ = HdrType.bootdlData.byte := by
    unfold dataPacket
    rw [List.flatten_cons]
    exact type_hdr _ _ _ hlt
  have hlen : bootdlCmdHdrSize ≤ (dataPacket b payload).length := by
    simp only [dataPacket, List.flatten_cons, List.length_append, length_bytes, List.length_replicate,
      bootdlCmdHdrSize]
    omega
  unfold ctrlData Skb.pull
  rw [if_pos htype, if_pos hlen, hdrop]

def writeMemPacket (b : Bootdl) (writeAddr dataLen cookie : Nat) : List UInt8 :=
  cmdPacket b .writeMem (bytes32 .little writeAddr)
    (bytes32 .little (if b.busType = .sdio then dataLen else dataLen + 1024)) cookie

def runPacket (b : Bootdl) (info : FwInfo) (cookie : Nat) : List UInt8 :=
  cmdPacket b .run (bytes32 .little info.writeAddr) (bytes32 .little (runWord info)) cookie

/-! ## Sequences -/

section Sends
variable (b : Bootdl) (o : Nat → Outcome)

/-- From `x` to `r` the events `L` are logged: a prefix of `P`. -/
structure SendsLog (P : List Packet) (x : Xfer) (r : Int × Xfer) (L : List Event) : Prop where
  log : r.2.log = x.log ++ L
  downloads : r.2.downloads = x.downloads
  le : L.map Event.sent <+: P
  /-- Nothing is sent after a packet that is not acknowledged with 0. -/
  acked : ∀ ev ∈ L.dropLast, ev.ret b = 0
  success : r.1 = 0 → L.map Event.sent = P ∧ r.2.n = x.n + P.length ∧ ∀ ev ∈ L, ev.ret b = 0
  failure : r.1 ≠ 0 → (∃ k, (o k).alloc = false) ∨ ∃ ev ∈ L, ev.ret b ≠ 0

def Sends (P : List Packet) (x : Xfer) (r : Int × Xfer) : Prop := ∃ L, SendsLog b o P x r L

variable {b o} {P Q : List Packet} {x : Xfer} {r r' : Int × Xfer}

theorem Sends.nil (x : Xfer) : Sends b o [] x (0, x) :=
  ⟨[], ⟨(List.append_nil _).symm, rfl, List.prefix_refl _, nofun, fun _ => ⟨rfl, rfl, nofun⟩,
    fun h => absurd rfl h⟩⟩

theorem Sends.append (h : Sends b o P x r) (h' : r.1 = 0 → Sends b o Q r.2 r') :
    Sends b o (P ++ Q) x (if r.1 = 0 then r' else r) := by
  obtain ⟨L, hL⟩ := h
  by_cases h0 : r.1 = 0
  · obtain ⟨M, hM⟩ := h' h0
    obtain ⟨hsent, hn, hack⟩ := hL.success h0
    rw [if_pos h0]
    refine ⟨L ++ M, ?_, hM.downloads.trans hL.downloads, ?_, fun ev hev => ?_, fun h1 => ?_, fun h1 => ?_⟩
    · rw [hM.log, hL.log, List.append_assoc]
    · rw [List.map_append, hsent]
      exact (List.prefix_append_right_inj P).mpr hM.le
    · rw [List.dropLast_append] at hev
      split at hev
      · exact hack ev (List.dropLast_subset L hev)
      · rcases List.mem_append.mp hev with hev | hev
        · exact hack ev hev
        · exact hM.acked ev hev
    · obtain ⟨hsent', hn', hack'⟩ := hM.success h1
      refine ⟨by rw [List.map_append, hsent, hsent'], by rw [hn', hn, List.length_append, Nat.add_assoc], ?_⟩
      intro ev hev
      rcases List.mem_append.mp hev with hev | hev
      · exact hack ev hev
      · exact hack' ev hev
    · rcases hM.failure h1 with ha | ⟨ev, hev, hne⟩
      · exact .inl ha
      · exact .inr ⟨ev, List.mem_append_right L hev, hne⟩
  · rw [if_neg h0]
    exact ⟨L, hL.log, hL.downloads, hL.le.trans (List.prefix_append P Q), hL.acked, fun h1 => absurd h1 h0,
      hL.failure⟩

theorem enomem_ne_zero : enomem ≠ 0 := by decide

/-- A failed allocation, with nothing sent. -/
theorem Sends.noMem {k : Nat} (P : List Packet) (hk : (o k).alloc = false) {y : Xfer} (hlog : y.log = x.log)
    (hd : y.downloads = x.downloads) : Sends b o P x (enomem, y) :=
  ⟨[], by rw [List.append_nil]; exact hlog, hd, List.nil_prefix, nofun, fun h => absurd h enomem_ne_zero,
    fun _ => .inl ⟨k, hk⟩⟩

theorem sends_bootdlCmd (x : Xfer) (c : BootCmd) (addr len : List UInt8) :
    Sends b o [.cmd c (cmdPacket b c addr len (o x.n).cookie)] x (bootdlCmd b o x c addr len) := by
  unfold bootdlCmd
  dsimp only
  cases ha : (o x.n).alloc with
  | false => exact Sends.noMem _ ha rfl rfl
  | true =>
    rw [if_pos rfl, ctrlData_cmdPacket]
    refine ⟨_, rfl, rfl, List.prefix_refl _, nofun, fun h => ⟨rfl, rfl, fun ev hev => ?_⟩, fun h => ?_⟩
    · rw [List.mem_singleton.mp hev]
      exact h
    · exact .inr ⟨_, List.mem_singleton.mpr rfl, h⟩

/-- A pass of the download loop uses two outcomes, and sends WRITE_MEM and the fragment. -/
theorem sends_fragment (fw : Firmware) (info : FwInfo) (x : Xfer) (writeAddr addrOffset xferLen : Nat) :
    Sends b o [.cmd .writeMem (writeMemPacket b writeAddr xferLen (o (x.n + 1)).cookie),
      .data addrOffset xferLen (fw.data.read (info.hdrLen + addrOffset) xferLen)] x
      (sendFragment b o fw info x writeAddr addrOffset xferLen) := by
  unfold sendFragment
  dsimp only
  cases ha : (o x.n).alloc with
  | false => exact Sends.noMem _ ha rfl rfl
  | true =>
    rw [if_pos rfl]
    obtain ⟨L, hL⟩ : Sends b o [.cmd .writeMem (writeMemPacket b writeAddr xferLen (o (x.n + 1)).cookie)]
      { x with n := x.n + 1 } (hgicBootdlCmdWriteMemory b o { x with n := x.n + 1 } writeAddr xferLen) :=
      sends_bootdlCmd { x with n := x.n + 1 } .writeMem (bytes32 .little writeAddr)
        (bytes32 .little (if b.busType = .sdio then xferLen else xferLen + 1024))
    generalize hgicBootdlCmdWriteMemory b o { x with n := x.n + 1 } writeAddr xferLen = y at hL ⊢
    by_cases h0 : y.1 = 0
    · obtain ⟨hsent, hn, hack⟩ := hL.success h0
      rw [if_pos h0]
      unfold hgicBootdlSendFw
      rw [ctrlData_dataPacket, length_read]
      refine ⟨L ++ [⟨.data addrOffset xferLen (fw.data.read (info.hdrLen + addrOffset) xferLen), (o x.n).resp⟩],
        ?_, hL.downloads, ?_, fun ev hev => ?_, fun h1 => ⟨?_, ?_, fun ev hev => ?_⟩, fun h1 => ?_⟩
      · rw [← List.append_assoc, ← hL.log]
      · rw [List.map_append, hsent]
        exact List.prefix_refl _
      · rw [List.dropLast_concat] at hev
        exact hack ev hev
      · rw [List.map_append, hsent]
        rfl
      · exact hn
      · rcases List.mem_append.mp hev with hev | hev
        · exact hack ev hev
        · rw [List.mem_singleton.mp hev]
          exact h1
      · exact .inr ⟨_, List.mem_append_right L (List.mem_singleton.mpr rfl), h1⟩
    · rw [if_neg h0]
      exact ⟨L, hL.log, hL.downloads, hL.le.trans (List.prefix_append _ [_]), hL.acked, fun h1 => absurd h1 h0,
        hL.failure⟩

end Sends

end HgicFmac.Fwdl
