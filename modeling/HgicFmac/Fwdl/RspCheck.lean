import HgicFmac.Fwdl.Enter

/-!
# The check byte of commands and of responses

* `FillsCheck` : the check byte of every command is the check value of the 11 bytes from `cmd` up to it;
* `ValidRsp` : the same rule for a response, whose check byte lies behind 7 bytes;
* `RspAccepted` : what `hgic_bootdl_cmd_rsp_handle` tests before it returns the response code;
* `rsp_checked_alike_iff` : the two agree unless the mode is SUM, where the driver adds the check byte to the bytes that
  it covers.
-/

namespace HgicFmac.Fwdl
open Lib HgicFmac.Core Fwctrl

def ValidRsp (mode cmd : UInt8) (m : Mem) : Prop :=
  rspCmd m = cmd ∧ rspCheck m = hgicBootdlCmdCheckVal mode (m.read 8 7)

def RspAccepted (mode cmd : UInt8) (m : Mem) : Prop :=
  rspCheck m = hgicBootdlCmdCheckVal mode (m.read 8 8) ∧ rspCmd m = cmd

instance (mode cmd : UInt8) (m : Mem) : Decidable (RspAccepted mode cmd m) := inferInstanceAs (Decidable (_ ∧ _))

def FillsCheck (b : Bootdl) : Prop :=
  ∀ (c : BootCmd) (addr len : List UInt8) (cookie : Nat), addr.length = 4 → len.length = 4 →
    (cmdPacket b c addr len cookie).drop 19 =
      [hgicBootdlCmdCheckVal b.checksumMode (((cmdPacket b c addr len cookie).drop 8).take 11)]

/-- Commands and responses go by the same rule. -/
def CheckedAlike (b : Bootdl) (cmd : UInt8) (m : Mem) : Prop :=
  FillsCheck b ∧ (RspAccepted b.checksumMode cmd m ↔ ValidRsp b.checksumMode cmd m)

theorem fillsCheck (b : Bootdl) : FillsCheck b := by
  intro c addr len cookie ha hl
  unfold cmdPacket
  simp only [List.flatten_cons, List.flatten_nil, List.append_nil]
  generalize hhdr : Hdr.bytes b.e _ = hdr
  generalize hbody : [cmdByte c, 12, b.checksumMode] ++ (addr ++ len) = body
  have hh : hdr.length = 8 := hhdr ▸ length_bytes b.e _
  have hb : body.length = 11 := by
    rw [← hbody, List.length_append, List.length_append, ha, hl]
    rfl
  have h19 : 19 = hdr.length + body.length := by rw [hh, hb]
  rw [h19, ← List.append_assoc, ← List.length_append, List.drop_left, ← hh, ← hb, List.append_assoc, List.drop_left,
    List.take_left]

theorem rspHandle_accepted {mode cmd : UInt8} {m : Mem} (h : RspAccepted mode cmd m) :
    hgicBootdlCmdRspHandle mode cmd m = (rspCode m).toNat := by
  unfold hgicBootdlCmdRspHandle
  rw [if_neg (not_not.mpr h.1), if_neg (not_not.mpr h.2)]

theorem rspHandle_refused {mode cmd : UInt8} {m : Mem} (h : ¬ RspAccepted mode cmd m) :
    hgicBootdlCmdRspHandle mode cmd m = hgBootdlErrRspPacket := by
  unfold hgicBootdlCmdRspHandle
  by_cases hcheck : rspCheck m = hgicBootdlCmdCheckVal mode (m.read 8 8)
  · rw [if_neg (not_not.mpr hcheck), if_pos fun hcmd => h ⟨hcheck, hcmd⟩]
  · rw [if_pos hcheck]

/-- The check byte is among the bytes whose check value it is compared with, so with SUM a response is accepted when
the bytes before it sum to 0. -/
theorem accepted_iff_valid_rsp (mode cmd : UInt8) (m : Mem) :
    (RspAccepted mode cmd m ↔ ValidRsp mode cmd m) ↔ (rspCmd m = cmd → mode = hgicBusBootdlCheckSum →
      (rspCheck m = hgicBootdlCmdCheckVal mode (m.read 8 7) ↔ hgicBootdlCmdCheckVal mode (m.read 8 7) = 0)) := by
  unfold RspAccepted ValidRsp
  by_cases hcmd : rspCmd m = cmd
  · by_cases hmode : mode = hgicBusBootdlCheckSum
    · subst hmode
      rw [accepted_sum]
      simp only [hcmd, and_true, true_and, forall_true_left]
      exact iff_comm
    · simp only [checkVal_const hmode (m.read 8 8) (m.read 8 7), hcmd, hmode, and_true, true_and, false_implies,
        implies_true]
  · simp only [hcmd, and_false, false_and, false_implies]

/-- A command carries the check value of its 11 bytes, and a response is accepted, so that its code is returned, by
the same rule exactly when the mode is not SUM, or the command byte is another one, or the check byte is right
exactly if the 7 bytes before it sum to 0. -/
theorem rsp_checked_alike_iff (b : Bootdl) (cmd : UInt8) (m : Mem) :
    hgicBootdlCmdRspHandle b.checksumMode cmd m =
      (if RspAccepted b.checksumMode cmd m then ((rspCode m).toNat : Int) else hgBootdlErrRspPacket) ∧
    (CheckedAlike b cmd m ↔ (rspCmd m = cmd → b.checksumMode = hgicBusBootdlCheckSum →
      (rspCheck m = hgicBootdlCmdCheckVal b.checksumMode (m.read 8 7) ↔
        hgicBootdlCmdCheckVal b.checksumMode (m.read 8 7) = 0))) := by
  constructor
  · split
    · next h => exact rspHandle_accepted h
    · next h => exact rspHandle_refused h
  · unfold CheckedAlike
    rw [and_iff_right (fillsCheck b)]
    exact accepted_iff_valid_rsp b.checksumMode cmd m

def replySum (c : BootCmd) (rsp : UInt8) : Mem :=
  Mem.ofList (List.flatten [List.replicate 8 0, [cmdByte c, rsp], List.replicate 5 0, [cmdByte c + rsp]])

/-- The right sum is refused. -/
theorem rsp_checked_alike_fails : ¬ ∀ (b : Bootdl) (cmd : UInt8) (m : Mem), CheckedAlike b cmd m := by
  intro hall
  have hacc := (hall ⟨.little, .usb, 512, 2048, hgicBusBootdlCheckSum⟩ (cmdByte .writeMem)
    (replySum .writeMem hgBootdlRspOk)).2.mpr ⟨by decide, by decide⟩
  exact absurd hacc.1 (by decide)

end HgicFmac.Fwdl
