import HgicFmac.Core.Tx
import HgicFmac.Fwctrl.Bytes

/-!
# SLEEP and the packets of the control queue: `hgicf_tx_ctrl_frm`

* `CtrlPkt` : the packets that are put into `ctrl.txq`, by the function that builds them; `CtrlPkt.skb` : their bytes;
* `hgicfTxCtrlFrm` : one call of `hgicf_tx_ctrl_frm`, the accesses of `workStep` from `skb_dequeue` on
  (`hgicfTxCtrlFrm_run`);
* `CtrlPkt.EntersSleep` : the packet tells the device to sleep; `LooksEnterSleep` : the code takes it for such a packet;
* `sleep_iff_entersSleep_iff` : the packets for which SLEEP is set exactly when the device is told to sleep. `sleep_cmd`
  has 8 of the 16 bits of the argument, and a fragment of the firmware is looked at without its header.
-/

namespace HgicFmac.Core
open Lib Fwctrl

def hgicWdevIdSta : Nat := 1

/-- A packet of `ctrl.txq`. `tail` is the rest of its buffer; a header that is not cleared has the flags it finds. -/
inductive CtrlPkt
  | cmd (room : Mem) (headroom cookie ifidx cmdId : Nat) (input : Option Mem) (inLen : Nat)
  | bootdl (ifidx flags cookie : Nat) (body tail : List UInt8)
  /-- `hgic_bootdl_send_data`, with a fragment of the firmware. -/
  | bootdlData (frag tail : List UInt8)
  | ota (flags cookie : Nat) (body tail : List UInt8)
  | hci (type : Nat) (data tail : List UInt8)

def pktHdr (e : Endian) (type : HdrType) (ifidx flags len cookie : Nat) : List UInt8 :=
  Hdr.bytes e
    { magic := cpuToLe16 e hgicHdrTxMagic
      type := type.byte
      ifidx := ifidx
      flags := flags
      length := cpuToLe16 e len
      cookie := cpuToLe16 e cookie }

/-- The packet in the queue; a command that is too long is not queued. -/
def CtrlPkt.skb (e : Endian) : CtrlPkt → Option Skb
  | .cmd room headroom cookie ifidx cmdId input inLen =>
    doCmdSkb e (some room) headroom cookie ifidx cmdId input inLen
  | .bootdl ifidx flags cookie body tail =>
    some ⟨pktHdr e .bootdl ifidx flags (hdrSize + body.length) cookie ++ body, tail⟩
  | .bootdlData frag tail =>
    some ⟨pktHdr e .bootdlData 0 0 0 0 ++ List.replicate (bootdlCmdHdrSize - hdrSize) 0 ++ frag, tail⟩
  | .ota flags cookie body tail =>
    some ⟨pktHdr e .ota hgicWdevIdSta flags (hdrSize + body.length) cookie ++ body, tail⟩
  | .hci type data tail =>
    some ⟨pktHdr e .bluetooth 1 0 (ctrlHdrSize + data.length) 0 ++ [UInt8.ofNat type, 0, 0, 0] ++ data, tail⟩

/-! ## One call -/

def Wdev.passes (s : Wdev) (p : Skb) : Bool :=
  p.type = HdrType.bootdl.byte ∨ p.type = HdrType.bootdlData.byte ∨ s.inboot = false

/-- The second half of `hgicf_tx_ctrl_frm`; `err` is the result of `bus->tx_packet`. -/
def Wdev.sendCtrl (s : Wdev) (err : Bool) (p : Skb) : Wdev :=
  { s with wire := s.wire ++ [.ctrl p], sleep := s.sleep || (!err && sleepCmd p ≠ 0) }

def hgicfTxCtrlFrm (err : Bool) (s : Wdev) : Wdev :=
  match s.ctrlq with
  | [] => s
  | p :: ctrlq => if s.passes p then { s with ctrlq := ctrlq }.sendCtrl err (ctrlData p) else { s with ctrlq := ctrlq }

theorem sendCtrl_run (cfg : Cfg) (o : Env) {s : Wdev} {p : Skb} (hpc : s.pc = .ctrlSend p) :
    ∃ n, runFrom (step cfg) s (List.replicate n (.work o)) = some ((s.sendCtrl o.err p).goto .ctrlTop) := by
  have hstep : step cfg s (.work o) =
      some (s.send (.ctrl p) (if !o.err && sleepCmd p ≠ 0 then .ctrlSetSleep else .ctrlTop)) := by
    simp only [step, workStep, hpc]
  unfold Wdev.sendCtrl
  generalize (!o.err && decide (sleepCmd p ≠ 0)) = set at hstep ⊢
  cases set with
  | false =>
    refine ⟨1, ?_⟩
    rw [List.replicate_one, runFrom, hstep, Bool.or_false]
    rfl
  | true =>
    refine ⟨2, ?_⟩
    rw [List.replicate_succ, List.replicate_one, runFrom, hstep, Bool.or_true]
    rfl

/-- A call is a run of the work item from `skb_dequeue` to the next test of the queue. -/
theorem hgicfTxCtrlFrm_run (cfg : Cfg) (o : Env) (s : Wdev) (hpc : s.pc = .ctrlDeq) :
    ∃ n, runFrom (step cfg) s (List.replicate n (.work o)) = some ((hgicfTxCtrlFrm o.err s).goto .ctrlTop) := by
  cases hq : s.ctrlq with
  | nil => exact ⟨1, by simp [runFrom, step, workStep, hpc, hq, hgicfTxCtrlFrm]⟩
  | cons p q =>
    have hdeq : step cfg s (.work o) = some ({ s with ctrlq := q }.goto (ctrlNext p)) := by
      simp only [step, workStep, hpc, hq]
    unfold hgicfTxCtrlFrm
    simp only [hq]
    by_cases hboot : p.type = HdrType.bootdl.byte ∨ p.type = HdrType.bootdlData.byte
    · have hnext : ctrlNext p = .ctrlSend (ctrlData p) := if_pos hboot
      obtain ⟨n, hn⟩ := sendCtrl_run cfg o (s := { s with ctrlq := q }.goto (ctrlNext p)) (p := ctrlData p) hnext
      refine ⟨n + 1, ?_⟩
      rw [List.replicate_succ, runFrom, hdeq, Option.bind_some, hn, if_pos (by simp [Wdev.passes, ← or_assoc, hboot])]
      rfl
    · have hnext : ctrlNext p = .ctrlInboot (ctrlData p) := if_neg hboot
      have htest : step cfg ({ s with ctrlq := q }.goto (ctrlNext p)) (.work o) =
          some ({ s with ctrlq := q }.goto (if s.inboot then .ctrlTop else .ctrlSend (ctrlData p))) := by
        rw [hnext]
        rfl
      have hpasses : s.passes p = !s.inboot := by
        simp [Wdev.passes, ← or_assoc, hboot]
      by_cases hin : s.inboot = true
      · refine ⟨2, ?_⟩
        rw [List.replicate_succ, List.replicate_one, runFrom, hdeq, Option.bind_some, runFrom, htest, if_pos hin,
          if_neg (by simp [hpasses, hin])]
        rfl
      · obtain ⟨n, hn⟩ :=
          sendCtrl_run cfg o (s := { s with ctrlq := q }.goto (.ctrlSend (ctrlData p))) (p := ctrlData p) rfl
        refine ⟨n + 2, ?_⟩
        rw [List.replicate_succ, List.replicate_succ, runFrom, hdeq, Option.bind_some, runFrom, htest, if_neg hin,
          if_pos (by simp [hpasses, hin]), Option.bind_some]
        exact hn

/-! ## The packets that set SLEEP -/

/-- What `hgic_is_enter_sleep` looks for, with an argument that is not zero in its low byte. -/
def LooksEnterSleep (p : Skb) : Prop :=
  (loadLe16 p.mem 0 = hgicHdrTxMagic ∨ loadLe16 p.mem 0 = hgicHdrRxMagic) ∧
  (p.type = HdrType.cmd.byte ∨ p.type = HdrType.cmd2.byte) ∧ hdrCmdid p = hgicCmdEnterSleep ∧ p.mem 12 ≠ 0

theorem sleepCmd_ne_zero_iff (p : Skb) : sleepCmd p ≠ 0 ↔ LooksEnterSleep p := by
  have hlow : loadLe16 p.mem 12 % 2 ^ 8 = (p.mem 12).toNat := by
    have := (p.mem 12).toNat_lt
    unfold loadLe16
    omega
  unfold sleepCmd hgicIsEnterSleep LooksEnterSleep
  split
  · next h =>
    rw [hlow]
    constructor
    · intro hne
      exact ⟨h.1, h.2.1, h.2.2, fun h0 => hne (by rw [h0]; rfl)⟩
    · rintro ⟨-, -, -, hne⟩ h0
      exact hne (UInt8.toNat_inj.1 h0)
  · next h =>
    constructor
    · intro h0
      exact absurd rfl h0
    · rintro ⟨h1, h2, h3, -⟩
      exact absurd ⟨h1, h2, h3⟩ h

/-- The command ENTER_SLEEP with a 16-bit argument that is not zero. -/
def CtrlPkt.EntersSleep : CtrlPkt → Prop
  | .cmd _ _ _ _ cmdId input inLen =>
    wireId cmdId = hgicCmdEnterSleep ∧ 2 ≤ inLen ∧ loadLe16 (Mem.ofList (cmdPayload input inLen)) 0 ≠ 0
  | _ => False

/-- The packets that the driver takes for what they are: of an ENTER_SLEEP command only the first byte of the argument is
looked at, of a fragment of the firmware the bytes behind its header. -/
def CtrlPkt.SleepCond : CtrlPkt → Prop
  | .cmd room headroom _ _ cmdId input inLen =>
    wireId cmdId = hgicCmdEnterSleep →
      match cmdPayload input inLen with
      | lo :: hi :: _ => lo = 0 → hi = 0
      | [lo] => lo = 0
      | [] => room (headroom + ctrlHdrSize) = 0
  | .bootdlData frag tail => ¬ LooksEnterSleep ⟨frag, tail⟩
  | _ => True

theorem type_pktHdr {e : Endian} {p : Skb} {type : HdrType} {ifidx flags len cookie : Nat} {rest : List UInt8}
    (h : p.data = pktHdr e type ifidx flags len cookie ++ rest) : p.type = type.byte := by
  unfold Skb.type
  rw [mem_of_data h (by simp [pktHdr])]
  cases type <;> simp [pktHdr, Hdr.bytes, bytes16_cpuToLe16, HdrType.byte]

theorem ctrlData_of_type {p : Skb} {type : HdrType} (h : p.type = type.byte) (hne : type ≠ .bootdlData) :
    ctrlData p = p := by
  apply if_neg
  rw [h]
  revert hne
  cases type <;> decide

theorem not_looksEnterSleep {p : Skb} {type : HdrType} (h : p.type = type.byte) (hdata : type ≠ .bootdlData)
    (hcmd : type ≠ .cmd) (hcmd2 : type ≠ .cmd2) : ¬ LooksEnterSleep (ctrlData p) := by
  rw [ctrlData_of_type h hdata]
  rintro ⟨-, ht, -⟩
  rw [h] at ht
  revert ht hcmd hcmd2
  cases type <;> decide

/-- The fragment is what is left of the packet when its header is off. -/
theorem ctrlData_bootdlData {e : Endian} {frag tail : List UInt8} {p : Skb}
    (hp : (CtrlPkt.bootdlData frag tail).skb e = some p) : ctrlData p = ⟨frag, tail⟩ := by
  have hdata : p.data = pktHdr e .bootdlData 0 0 0 0 ++ (List.replicate (bootdlCmdHdrSize - hdrSize) 0 ++ frag) := by
    cases hp
    exact List.append_assoc ..
  have htail : p.tail = tail := by
    cases hp
    rfl
  have hhdr : (pktHdr e .bootdlData 0 0 0 0 ++ List.replicate (bootdlCmdHdrSize - hdrSize) (0 : UInt8)).length =
      bootdlCmdHdrSize := by
    simp [pktHdr, bootdlCmdHdrSize, hdrSize]
  rw [ctrlData, if_pos (type_pktHdr hdata), Skb.pull, if_pos]
  · rw [hdata, htail, ← List.append_assoc, List.drop_left' hhdr]
  · rw [hdata, ← List.append_assoc, List.length_append, hhdr]
    omega

/-- A command is looked at as a whole; the byte behind its header is the first of its payload, or the first that the
buffer had there. -/
theorem looksEnterSleep_cmd {e : Endian} {room : Mem} {headroom cookie ifidx cmdId inLen : Nat} {input : Option Mem}
    {p : Skb} (hp : (CtrlPkt.cmd room headroom cookie ifidx cmdId input inLen).skb e = some p) :
    LooksEnterSleep (ctrlData p) ↔ wireId cmdId = hgicCmdEnterSleep ∧
      (cmdPayload input inLen ++ [room (headroom + ctrlHdrSize)]).getD 0 0 ≠ 0 := by
  have hlen : inLen ≤ maxCmdLen := by
    by_contra hlong
    rw [CtrlPkt.skb, doCmdSkb, if_pos (by omega)] at hp
    cases hp
  obtain ⟨p', hp', hdata⟩ := doCmdSkb_data e room headroom cookie ifidx cmdId input hlen
  obtain rfl : p' = p := Option.some.inj (hp'.symm.trans hp)
  have htype : p'.type = HdrType.cmd.byte ∨ p'.type = HdrType.cmd2.byte := by
    rw [cmd_type hdata]
    unfold cmdType
    split
    · exact .inr rfl
    · exact .inl rfl
  have hself : ctrlData p' = p' := by
    rcases htype with h | h
    · exact ctrlData_of_type h (by decide)
    · exact ctrlData_of_type h (by decide)
  have hbyte : p'.mem 12 = (cmdPayload input inLen ++ [room (headroom + ctrlHdrSize)]).getD 0 0 := by
    have hbehind : p'.mem 12 = _ := cmd_mem_behind hdata
    have hlength := length_cmdPayload input inLen
    cases hpay : cmdPayload input inLen with
    | nil =>
      rw [hpay] at hbehind hlength
      obtain rfl : inLen = 0 := hlength.symm
      rw [hbehind, List.nil_append, doCmdSkb_tail hp']
      rfl
    | cons b rest =>
      rw [hbehind, hpay]
      rfl
  rw [hself, LooksEnterSleep, cmd_hdrCmdid hdata (wireId_lt cmdId), hbyte]
  constructor
  · rintro ⟨-, -, h⟩
    exact h
  · intro h
    exact ⟨.inl (cmd_magic hdata), htype, h⟩

theorem firstByte_iff (payload : List UInt8) (stale : UInt8) :
    ((payload ++ [stale]).getD 0 0 ≠ 0 ↔ 2 ≤ payload.length ∧ loadLe16 (Mem.ofList payload) 0 ≠ 0) ↔
      match payload with
      | lo :: hi :: _ => lo = 0 → hi = 0
      | [lo] => lo = 0
      | [] => stale = 0 := by
  match payload with
  | [] => simp
  | [lo] => simp
  | lo :: hi :: rest =>
    have hzero : ∀ b : UInt8, b.toNat = 0 ↔ b = 0 := fun b => by rw [← UInt8.toNat_inj]; rfl
    have harg : loadLe16 (Mem.ofList (lo :: hi :: rest)) 0 = 0 ↔ lo = 0 ∧ hi = 0 := by
      rw [← hzero lo, ← hzero hi]
      simp only [loadLe16, Mem.ofList, List.getD_cons_zero, List.getD_cons_succ, Nat.zero_add]
      omega
    simp only [List.cons_append, List.getD_cons_zero, List.length_cons, harg, ne_eq, not_and]
    constructor
    · intro h h0
      by_contra hhi
      exact h.2 ⟨by omega, fun _ => hhi⟩ h0
    · intro h
      constructor
      · intro hlo
        exact ⟨by omega, fun h0 => absurd h0 hlo⟩
      · rintro ⟨-, hhi⟩ h0
        exact hhi h0 (h h0)

theorem looksEnterSleep_iff {e : Endian} {pkt : CtrlPkt} {p : Skb} (hp : pkt.skb e = some p) :
    (LooksEnterSleep (ctrlData p) ↔ pkt.EntersSleep) ↔ pkt.SleepCond := by
  cases pkt with
  | cmd room headroom cookie ifidx cmdId input inLen =>
    have hlength := length_cmdPayload input inLen
    rw [looksEnterSleep_cmd hp]
    simp only [CtrlPkt.EntersSleep, CtrlPkt.SleepCond]
    generalize cmdPayload input inLen = payload at hlength ⊢
    subst hlength
    by_cases hid : wireId cmdId = hgicCmdEnterSleep
    · simp only [hid, true_and, true_implies]
      exact firstByte_iff payload _
    · simp only [hid, false_and, false_implies]
  | bootdl ifidx flags cookie body tail =>
    have hdata : p.data = pktHdr e .bootdl ifidx flags (hdrSize + body.length) cookie ++ body := by
      cases hp
      rfl
    exact iff_of_true (iff_of_false (not_looksEnterSleep (type_pktHdr hdata) nofun nofun nofun) id) trivial
  | bootdlData frag tail =>
    rw [ctrlData_bootdlData hp]
    exact iff_false_right id
  | ota flags cookie body tail =>
    have hdata : p.data = pktHdr e .ota hgicWdevIdSta flags (hdrSize + body.length) cookie ++ body := by
      cases hp
      rfl
    exact iff_of_true (iff_of_false (not_looksEnterSleep (type_pktHdr hdata) nofun nofun nofun) id) trivial
  | hci type data tail =>
    have hdata : p.data = pktHdr e .bluetooth 1 0 (ctrlHdrSize + data.length) 0 ++
        ([UInt8.ofNat type, 0, 0, 0] ++ data) := by
      cases hp
      exact List.append_assoc ..
    exact iff_of_true (iff_of_false (not_looksEnterSleep (type_pktHdr hdata) nofun nofun nofun) id) trivial

theorem sleep_hgicfTxCtrlFrm {s : Wdev} {p : Skb} {q : List Skb} (hq : s.ctrlq = p :: q) (hsleep : s.sleep = false)
    (hpass : s.passes p = true) : (hgicfTxCtrlFrm false s).sleep = true ↔ LooksEnterSleep (ctrlData p) := by
  rw [← sleepCmd_ne_zero_iff]
  simp only [hgicfTxCtrlFrm, hq, if_pos hpass, Wdev.sendCtrl, hsleep]
  simp

/-- The packets that the bus accepts and that set SLEEP exactly if they tell the device to sleep. -/
theorem sleep_iff_entersSleep_iff {e : Endian} {pkt : CtrlPkt} {p : Skb} {s : Wdev} {q : List Skb}
    (hp : pkt.skb e = some p) (hq : s.ctrlq = p :: q) (hsleep : s.sleep = false) (hpass : s.passes p = true) :
    ((hgicfTxCtrlFrm false s).sleep = true ↔ pkt.EntersSleep) ↔ pkt.SleepCond := by
  rw [sleep_hgicfTxCtrlFrm hq hsleep hpass]
  exact looksEnterSleep_iff hp

/-- `hgic_fwctrl_enter_sleep` with the argument `sleep`, and the time `0xffffffff`. -/
def enterSleepPkt (sleep : Nat) : CtrlPkt :=
  .cmd (fun _ => 0) 16 7 1 hgicCmdEnterSleep (some (Mem.ofList (bytes16 .little sleep ++ List.replicate 4 0xff))) 6

def enterSleepDev (sleep : Nat) : Wdev :=
  { hgicfCoreProbe with ctrlq := ((enterSleepPkt sleep).skb .little).toList }

/-- The argument 1 is seen. -/
theorem sleep_iff_entersSleep_one :
    ((hgicfTxCtrlFrm false (enterSleepDev 1)).sleep = true ↔ (enterSleepPkt 1).EntersSleep) := by
  refine (sleep_iff_entersSleep_iff (e := .little) (p := ((enterSleepPkt 1).skb .little).get (by decide)) (q := [])
    (by decide +kernel) (by decide +kernel) rfl (by decide +kernel)).2 ?_
  intro _
  exact (by decide : (1 : UInt8) = 0 → (0 : UInt8) = 0)

/-- The argument 256 is not. -/
theorem not_sleep_iff_entersSleep_256 :
    ¬ ∀ (e : Endian) (pkt : CtrlPkt) (p : Skb) (s : Wdev) (q : List Skb), pkt.skb e = some p → s.ctrlq = p :: q →
      s.sleep = false → s.passes p = true → ((hgicfTxCtrlFrm false s).sleep = true ↔ pkt.EntersSleep) := by
  intro h
  have hiff := h .little (enterSleepPkt 256) (((enterSleepPkt 256).skb .little).get (by decide)) (enterSleepDev 256) []
    (by decide +kernel) (by decide +kernel) rfl (by decide +kernel)
  have hset : (hgicfTxCtrlFrm false (enterSleepDev 256)).sleep = true := hiff.2 ⟨by decide, by decide, by decide⟩
  exact absurd hset (by decide +kernel)

end HgicFmac.Core
