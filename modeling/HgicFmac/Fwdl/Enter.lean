import HgicFmac.Fwdl.Model

/-!
# What `hgic_bootdl_cmd_enter` returns

`STATE_FW` and `STATE_BOOT` share their range with the response codes of the device, which are returned as they are.

* `ValidReply` : the check byte is right over the bytes before it, and the command byte is that of ENTER;
* `Classifies` : STATE_BOOT exactly for a valid reply with code 0, STATE_FW exactly for one with IN_FW;
* `Unambiguous` : no accepted reply has the code `HG_BOOTDL_RSP_ERR_CMD`, whose value is that of STATE_BOOT, and with
  the checksum mode SUM the check byte of a reply with code 0 or IN_FW is right exactly when the bytes before it sum
  to 0, which is what the driver tests;
* `enter_classifies_iff` : these are the cases in which the result is right.
-/

namespace HgicFmac.Fwdl
open Lib HgicFmac.Core Fwctrl

/-- A valid reply to the ENTER command: the check byte covers the bytes from `cmd` up to it, as the driver fills that
of a command. -/
def ValidReply (mode : UInt8) (m : Mem) : Prop :=
  rspCheck m = hgicBootdlCmdCheckVal mode (m.read 8 7) ∧ rspCmd m = cmdByte .enter

def Received (r : Outcome) (m : Mem) : Prop := r.alloc = true ∧ r.resp = some m

def Classifies (b : Bootdl) (o : Nat → Outcome) (x : Xfer) : Prop :=
  ((hgicBootdlCmdEnter b o x).1 = stateBoot ↔
    ∃ m, Received (o x.n) m ∧ ValidReply b.checksumMode m ∧ rspCode m = hgBootdlRspOk) ∧
  ((hgicBootdlCmdEnter b o x).1 = stateFw ↔
    ∃ m, Received (o x.n) m ∧ ValidReply b.checksumMode m ∧ rspCode m = hgBootdlRspErrInFw)

def Unambiguous (mode : UInt8) (m : Mem) : Prop :=
  rspCmd m = cmdByte .enter →
    (rspCode m = hgBootdlRspErrCmd → rspCheck m ≠ hgicBootdlCmdCheckVal mode (m.read 8 8)) ∧
    (rspCode m = hgBootdlRspOk ∨ rspCode m = hgBootdlRspErrInFw → mode = hgicBusBootdlCheckSum →
      (rspCheck m = hgicBootdlCmdCheckVal mode (m.read 8 7) ↔ hgicBootdlCmdCheckVal mode (m.read 8 7) = 0))

def Accepted (mode : UInt8) (m : Mem) : Prop :=
  rspCheck m = hgicBootdlCmdCheckVal mode (m.read 8 8) ∧ rspCmd m = cmdByte .enter

theorem read_check (m : Mem) : m.read 8 8 = m.read 8 7 ++ [rspCheck m] := read_add m 8 7 1

theorem checkVal_sum (bs : List UInt8) (v : UInt8) : hgicBootdlCmdCheckVal hgicBusBootdlCheckSum (bs ++ [v]) =
    hgicBootdlCmdCheckVal hgicBusBootdlCheckSum bs + v := by
  simp only [hgicBootdlCmdCheckVal, if_pos, List.foldl_append, List.foldl_cons, List.foldl_nil]

/-- Without SUM the check value does not depend on the bytes. -/
theorem checkVal_const {mode : UInt8} (h : mode ≠ hgicBusBootdlCheckSum) (bs bs' : List UInt8) :
    hgicBootdlCmdCheckVal mode bs = hgicBootdlCmdCheckVal mode bs' := by
  simp only [hgicBootdlCmdCheckVal, if_neg h, crc8]

/-- With SUM the driver accepts a reply when the bytes before the check byte sum to 0, whatever that byte is. -/
theorem accepted_sum {m : Mem} : rspCheck m = hgicBootdlCmdCheckVal hgicBusBootdlCheckSum (m.read 8 8) ↔
    hgicBootdlCmdCheckVal hgicBusBootdlCheckSum (m.read 8 7) = 0 := by
  rw [read_check, checkVal_sum]
  exact UInt8.right_eq_add

/-- The driver's test is the right one for a reply whose check byte is not ambiguous. -/
theorem accepted_iff_valid {mode : UInt8} {m : Mem} :
    (Accepted mode m ↔ ValidReply mode m) ↔ (rspCmd m = cmdByte .enter → mode = hgicBusBootdlCheckSum →
      (rspCheck m = hgicBootdlCmdCheckVal mode (m.read 8 7) ↔ hgicBootdlCmdCheckVal mode (m.read 8 7) = 0)) := by
  unfold Accepted ValidReply
  by_cases hcmd : rspCmd m = cmdByte .enter
  · by_cases hmode : mode = hgicBusBootdlCheckSum
    · subst hmode
      rw [accepted_sum]
      simp only [hcmd, and_true, forall_true_left]
      exact iff_comm
    · simp only [checkVal_const hmode (m.read 8 8) (m.read 8 7), hmode, false_implies, implies_true]
  · simp only [hcmd, and_false, false_implies]

/-! ## The result -/

section Result
variable (b : Bootdl) (o : Nat → Outcome) (x : Xfer)

theorem enter_not_alloc (h : (o x.n).alloc = false) : (hgicBootdlCmdEnter b o x).1 = enomem := by
  simp [hgicBootdlCmdEnter, bootdlCmd, h, enomem, hgBootdlRspErrInFw]

theorem enter_no_resp (ha : (o x.n).alloc = true) (h : (o x.n).resp = none) :
    (hgicBootdlCmdEnter b o x).1 = -1 := by
  simp [hgicBootdlCmdEnter, bootdlCmd, ha, h, cmdRet, hgBootdlRspErrInFw]

/-- The classification of a response: the response codes other than 0 and IN_FW go through. -/
def enterCode (mode : UInt8) (m : Mem) : Int :=
  let ret := hgicBootdlCmdRspHandle mode (cmdByte .enter) m
  if ret = 0 ∨ ret = 0xFF then if ret = 0xFF then stateFw else stateBoot else ret

theorem enter_received {m : Mem} (h : Received (o x.n) m) :
    (hgicBootdlCmdEnter b o x).1 = enterCode b.checksumMode m := by
  obtain ⟨ha, hr⟩ := h
  simp only [hgicBootdlCmdEnter, bootdlCmd, ha, hr, if_true, cmdRet, hgBootdlRspErrInFw]
  rfl

theorem rspHandle_eq (mode : UInt8) (m : Mem) : Accepted mode m ∧
      hgicBootdlCmdRspHandle mode (cmdByte .enter) m = (rspCode m).toNat ∨
    ¬ Accepted mode m ∧ hgicBootdlCmdRspHandle mode (cmdByte .enter) m = hgBootdlErrRspPacket := by
  unfold hgicBootdlCmdRspHandle
  by_cases hcheck : rspCheck m = hgicBootdlCmdCheckVal mode (m.read 8 8)
  · by_cases hcmd : rspCmd m = cmdByte .enter
    · rw [if_neg (not_not.mpr hcheck), if_neg (not_not.mpr hcmd)]
      exact .inl ⟨⟨hcheck, hcmd⟩, rfl⟩
    · rw [if_neg (not_not.mpr hcheck), if_pos hcmd]
      exact .inr ⟨fun h => hcmd h.2, rfl⟩
  · rw [if_pos hcheck]
    exact .inr ⟨fun h => hcheck h.1, rfl⟩

theorem enterCode_boot (mode : UInt8) (m : Mem) : enterCode mode m = stateBoot ↔
    Accepted mode m ∧ (rspCode m = hgBootdlRspOk ∨ rspCode m = hgBootdlRspErrCmd) := by
  have hlt := (rspCode m).toNat_lt
  simp only [enterCode, ← UInt8.toNat_inj, hgBootdlRspOk, hgBootdlRspErrCmd]
  rcases rspHandle_eq mode m with ⟨ha, hret⟩ | ⟨ha, hret⟩
  · simp only [hret, ha, true_and, stateFw, stateBoot, UInt8.reduceToNat]
    split
    · split <;> omega
    · omega
  · simp only [hret, ha, false_and, iff_false]
    decide

theorem enterCode_fw (mode : UInt8) (m : Mem) :
    enterCode mode m = stateFw ↔ Accepted mode m ∧ rspCode m = hgBootdlRspErrInFw := by
  have hlt := (rspCode m).toNat_lt
  simp only [enterCode, ← UInt8.toNat_inj, hgBootdlRspErrInFw]
  rcases rspHandle_eq mode m with ⟨ha, hret⟩ | ⟨ha, hret⟩
  · simp only [hret, ha, true_and, stateFw, stateBoot, UInt8.reduceToNat]
    split
    · split <;> omega
    · omega
  · simp only [hret, ha, false_and, iff_false]
    decide

/-- For a received reply the classification is right exactly when the reply is not ambiguous. -/
theorem enterCode_right_iff (mode : UInt8) (m : Mem) :
    ((enterCode mode m = stateBoot ↔ ValidReply mode m ∧ rspCode m = hgBootdlRspOk) ∧
      (enterCode mode m = stateFw ↔ ValidReply mode m ∧ rspCode m = hgBootdlRspErrInFw)) ↔ Unambiguous mode m := by
  rw [enterCode_boot, enterCode_fw]
  have h01 : hgBootdlRspErrCmd ≠ hgBootdlRspOk := by decide
  have hf0 : hgBootdlRspErrInFw ≠ hgBootdlRspOk := by decide
  have hf1 : hgBootdlRspErrInFw ≠ hgBootdlRspErrCmd := by decide
  unfold Unambiguous
  by_cases h0 : rspCode m = hgBootdlRspOk
  · simp only [h0, h01.symm, hf0.symm, or_false, and_true, and_false, false_implies, true_and, forall_true_left]
    exact accepted_iff_valid
  by_cases hff : rspCode m = hgBootdlRspErrInFw
  · simp only [hff, hf0, hf1, or_self, or_true, and_true, and_false, false_implies, true_and, forall_true_left]
    exact accepted_iff_valid
  by_cases h1 : rspCode m = hgBootdlRspErrCmd
  · simp only [h1, h01, hf1.symm, or_true, or_self, and_true, and_false, false_implies, iff_false, forall_true_left,
      Accepted, not_and]
    exact ⟨fun h hcmd hcheck => h hcheck hcmd, fun h hcheck hcmd => h hcmd hcheck⟩
  · simp only [h0, h1, hff, or_self, and_false, false_implies, and_self, implies_true]

/-- `hgic_bootdl_cmd_enter` reports STATE_BOOT and STATE_FW exactly for the replies that mean them if and only if no
reply is received or the received one is not ambiguous. -/
theorem enter_classifies_iff : Classifies b o x ↔ ∀ m, Received (o x.n) m → Unambiguous b.checksumMode m := by
  unfold Classifies
  by_cases hr : ∃ m, Received (o x.n) m
  · obtain ⟨m, hm⟩ := hr
    have huniq : ∀ {m'}, Received (o x.n) m' → m' = m := fun hm' => Option.some.inj (hm'.2.symm.trans hm.2)
    have hex : ∀ P : Mem → Prop, (∃ m', Received (o x.n) m' ∧ P m') ↔ P m := by
      refine fun P => ⟨?_, fun hp => ⟨m, hm, hp⟩⟩
      rintro ⟨m', hm', hp⟩
      exact huniq hm' ▸ hp
    rw [enter_received b o x hm, hex, hex, enterCode_right_iff]
    exact ⟨fun h m' hm' => huniq hm' ▸ h, fun h => h m hm⟩
  · have hret : (hgicBootdlCmdEnter b o x).1 = enomem ∨ (hgicBootdlCmdEnter b o x).1 = -1 := by
      cases ha : (o x.n).alloc with
      | false => exact .inl (enter_not_alloc b o x ha)
      | true =>
        cases hm : (o x.n).resp with
        | none => exact .inr (enter_no_resp b o x ha hm)
        | some m => exact absurd ⟨m, ha, hm⟩ hr
    have hno : ∀ P : Mem → Prop, ¬ ∃ m, Received (o x.n) m ∧ P m := fun P ⟨m, hm, _⟩ => hr ⟨m, hm⟩
    simp only [hno, iff_false]
    refine ⟨fun _ m hm => absurd ⟨m, hm⟩ hr, fun _ => ?_⟩
    rcases hret with h | h <;> rw [h] <;> decide

end Result

/-- The reply that rejects the command is taken for STATE_BOOT. -/
theorem enter_classifies_fails : ¬ ∀ (b : Bootdl) (o : Nat → Outcome) (x : Xfer), Classifies b o x := by
  intro hall
  obtain ⟨m, hm, -, h0⟩ := (hall ⟨.little, .usb, 512, 2048, hgicBusBootdlCheck0XFD⟩
    (fun _ => ⟨true, 0, some (reply0XFD .enter hgBootdlRspErrCmd)⟩) ⟨0, 0, []⟩).1.mp (by decide)
  cases hm.2
  revert h0
  decide

end HgicFmac.Fwdl
