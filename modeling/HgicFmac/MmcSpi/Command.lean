import HgicFmac.MmcSpi.Response

/-!
# What a card finds in a command

* `cardCommand frame` : the index and the argument that a card takes from six bytes;
* `Idles` : the driver sends nothing but ones, as behind a command (`responseGet_idles`);
* `command_on_the_line` : a command arrives as it is, and a burst of up to 7 bits in it is refused.
-/

namespace HgicFmac.MmcSpi
open Lib

/-- The start bit, the transmission bit, the index, the argument, their CRC and the end bit. -/
def cardCommand : List Byte → Option (BitVec 6 × BitVec 32)
  | [head, a3, a2, a1, a0, last] =>
    if head.getMsbD 0 = false ∧ head.getMsbD 1 = true ∧ last = crc7Be [head, a3, a2, a1, a0] ||| 1 then
      some (head.setWidth 6, a3 ++ a2 ++ a1 ++ a0)
    else none
  | _ => none

def commandBytes (opcode arg : BitVec 32) : List Byte := (commandFrame opcode arg).drop 1

theorem commandFrame_eq (opcode arg : BitVec 32) : commandFrame opcode arg = 0xff :: commandBytes opcode arg := rfl

theorem putBe32_append (x : BitVec 32) :
    ((x >>> 24).setWidth 8 ++ (x >>> 16).setWidth 8 ++ (x >>> 8).setWidth 8 ++ x.setWidth 8 : BitVec 32) = x := by
  apply BitVec.eq_of_getLsbD_eq
  intro i hi
  simp only [BitVec.getLsbD_append, BitVec.getLsbD_setWidth, BitVec.getLsbD_ushiftRight]
  grind

theorem cardCommand_commandBytes (opcode arg : BitVec 32) :
    cardCommand (commandBytes opcode arg) = if opcode.getLsbD 7 then none else some (opcode.setWidth 6, arg) := by
  have hstart : ((0x40 ||| opcode).setWidth 8).getMsbD 0 = opcode.getLsbD 7 := by
    rw [BitVec.getMsbD_eq_getLsbD, BitVec.getLsbD_setWidth, BitVec.getLsbD_or]
    simp
  have htrans : ((0x40 ||| opcode).setWidth 8).getMsbD 1 = true := by
    rw [BitVec.getMsbD_eq_getLsbD, BitVec.getLsbD_setWidth, BitVec.getLsbD_or]
    simp
  have hindex : ((0x40 ||| opcode).setWidth 8).setWidth 6 = opcode.setWidth 6 := by
    apply BitVec.eq_of_getLsbD_eq
    intro i hi
    have hall : ∀ i < 6, (0x40 : BitVec 32).getLsbD i = false := by decide
    have h8 : i < 8 := by omega
    rw [BitVec.getLsbD_setWidth, BitVec.getLsbD_setWidth, BitVec.getLsbD_or, hall i hi, BitVec.getLsbD_setWidth]
    simp [h8]
  have hbytes : commandBytes opcode arg = [(0x40 ||| opcode).setWidth 8, (arg >>> 24).setWidth 8,
    (arg >>> 16).setWidth 8, (arg >>> 8).setWidth 8, arg.setWidth 8, crc7Be (commandHead opcode arg) ||| 1] := rfl
  rw [hbytes, cardCommand, hstart, htrans, hindex, putBe32_append]
  cases opcode.getLsbD 7 with
  | true => rw [if_neg (fun hand => Bool.noConfusion hand.1), if_pos rfl]
  | false => rw [if_pos ⟨rfl, rfl, rfl⟩, if_neg Bool.false_ne_true]

/-! ## Bursts -/

theorem wordBits_one_append (crc : BitVec 7) :
    wordBits ((crc ++ (0 : BitVec 1) : Byte) ||| 1) = wordBits crc ++ [true] := by
  have hlast : (crc ++ (0 : BitVec 1) : Byte) ||| 1 = crc ++ (1 : BitVec 1) := by
    revert crc
    decide
  rw [hlast, wordBits_append]
  rfl

theorem wordBits_crc7Be (bs : List Byte) :
    wordBits (crc7Be bs ||| 1) = wordBits (crcMsb (0x09 : BitVec 7) 0 (lineBits bs)) ++ [true] :=
  wordBits_one_append _

theorem cardCommand_eq_some {frame : List Byte} {command : BitVec 6 × BitVec 32}
    (h : cardCommand frame = some command) : ∃ bs, bs.length = 5 ∧ frame = bs ++ [crc7Be bs ||| 1] := by
  unfold cardCommand at h
  split at h
  · split at h
    · next head a3 a2 a1 a0 last hcheck => exact ⟨[head, a3, a2, a1, a0], rfl, by rw [hcheck.2.2]; rfl⟩
    · cases h
  · cases h

theorem frame_eq_of_burst {bs cs : List Byte} (hlen : bs.length = cs.length) {q : Nat}
    (hdiff : DifferIn q 7 (lineBits (bs ++ [crc7Be bs ||| 1])) (lineBits (cs ++ [crc7Be cs ||| 1]))) : bs = cs := by
  have hbits : ∀ bs : List Byte, lineBits (bs ++ [crc7Be bs ||| 1]) =
      (lineBits bs ++ wordBits (crcMsb (0x09 : BitVec 7) 0 (lineBits bs))) ++ [true] := by
    intro bs
    rw [lineBits_append, List.append_assoc, ← wordBits_crc7Be]
    simp [lineBits]
  have hcheck : ∀ bs : List Byte,
      crcMsb (0x09 : BitVec 7) 0 (lineBits bs ++ wordBits (crcMsb (0x09 : BitVec 7) 0 (lineBits bs))) = 0 :=
    fun bs => (crcMsb_frame_iff (by decide) (by decide) _ _ _).2 rfl
  rw [hbits, hbits] at hdiff
  have hlen' : (lineBits bs ++ wordBits (crcMsb (0x09 : BitVec 7) 0 (lineBits bs))).length =
      (lineBits cs ++ wordBits (crcMsb (0x09 : BitVec 7) 0 (lineBits cs))).length := by simp [hlen]
  have heq := frame_eq_of_differIn (by decide) (by decide) hlen' (hdiff.of_append hlen') (hcheck bs) (hcheck cs)
  exact lineBits_inj hlen (List.append_inj_left heq (by simp [hlen]))

theorem cardCommand_burst {opcode arg : BitVec 32} {frame : List Byte} {q : Nat}
    (hdiff : DifferIn q 7 (lineBits frame) (lineBits (commandBytes opcode arg)))
    (hne : frame ≠ commandBytes opcode arg) : cardCommand frame = none := by
  by_contra hsome
  obtain ⟨command, hsome⟩ := Option.ne_none_iff_exists'.1 hsome
  obtain ⟨bs, hlen, rfl⟩ := cardCommand_eq_some hsome
  have hsent : commandBytes opcode arg = commandHead opcode arg ++ [crc7Be (commandHead opcode arg) ||| 1] := rfl
  rw [hsent] at hdiff hne
  exact hne (by rw [frame_eq_of_burst (hlen.trans rfl) hdiff])

/-! ## Behind the command -/

def Idles (h h' : Host) : Prop := ∃ m, h'.mosi = h.mosi ++ ones m

section Idles
variable {h h' h'' : Host}

theorem Idles.refl (h : Host) : Idles h h := ⟨0, (List.append_nil _).symm⟩

theorem Idles.trans (h1 : Idles h h') (h2 : Idles h' h'') : Idles h h'' := by
  obtain ⟨m1, h1⟩ := h1
  obtain ⟨m2, h2⟩ := h2
  exact ⟨m1 + m2, by rw [h2, h1, List.append_assoc, ones, ones, ones, List.replicate_append_replicate]⟩

theorem readbytes_idles (e : Bus) (len : Nat) (h : Host) : Idles h (mmcSpiReadbytes e len h).2 := by
  rw [mmcSpiReadbytes]
  split
  · exact .refl h
  · rw [spiSyncLocked]
    split
    · exact .refl h
    · exact ⟨len, rfl⟩

theorem readByte_idles (e : Bus) (h : Host) : Idles h (readByte e h).2 := by
  have hread := readbytes_idles e 1 h
  rw [readByte]
  split <;> next heq => rwa [heq] at hread

theorem skipLoop_idles (e : Bus) (n : Nat) (byte : Byte) (left : Nat) (h : Host) :
    Idles h (skipLoop e n byte left h).2 := by
  induction left generalizing h with
  | zero =>
    have hread := readbytes_idles e n h
    rw [skipLoop]
    split <;> next heq =>
      rw [heq] at hread
      first | exact hread | (split <;> exact hread)
  | succ left ih =>
    have hread := readbytes_idles e n h
    rw [skipLoop]
    split
    · next heq => rwa [heq] at hread
    · next heq =>
      rw [heq] at hread
      split
      · exact hread
      · exact hread.trans (ih _)

theorem waitUnbusy_idles (e : Bus) (h : Host) : Idles h (mmcSpiWaitUnbusy e h).2 := skipLoop_idles e scratchStatus 0 _ _

theorem nextByte_idles (e : Bus) (cp : List Byte) (h : Host) : Idles h (nextByte e cp h).2 := by
  cases cp with
  | cons b cp => exact .refl h
  | nil =>
    have hread := readByte_idles e h
    rw [nextByte]
    split <;> next heq => rwa [heq] at hread

theorem findStatus_idles (e : Bus) (status : List Byte) (h : Host) : Idles h (findStatus e status h).2 := by
  have hlate : ∀ n h, Idles h (lateStatus e n h).2 := by
    intro n
    induction n with
    | zero => exact Idles.refl
    | succ n ih =>
      intro h
      have hread := readByte_idles e h
      rw [lateStatus]
      split
      · next heq => rwa [heq] at hread
      · next heq =>
        rw [heq] at hread
        split
        · exact hread
        · exact hread.trans (ih _)
  rw [findStatus]
  split
  · exact .refl h
  · exact hlate 14 h

theorem alignStatus_idles (e : Bus) (b : Byte) (cp : List Byte) (h : Host) : Idles h (alignStatus e b cp h).2 := by
  have hnext := nextByte_idles e cp h
  rw [alignStatus]
  split
  · split <;> next heq => rwa [heq] at hnext
  · exact .refl h

theorem responseBytes_idles (e : Bus) (bitshift n : Nat) (rotator : BitVec 16) (cp : List Byte) (resp1 : BitVec 32)
    (value : Int) (h : Host) : Idles h (responseBytes e bitshift n rotator cp resp1 value h).2.2.2 := by
  induction n generalizing rotator cp resp1 value h with
  | zero => exact .refl h
  | succ n ih =>
    have hnext := nextByte_idles e cp h
    rw [responseBytes]
    split
    · next heq => rwa [heq] at hnext
    · next heq =>
      rw [heq] at hnext
      exact hnext.trans (ih _ _ _ _ _)

theorem responseDone_idles (value : Int) (cmd : Cmd) (h : Host) : Idles h (responseDone value cmd h).2.2 :=
  ⟨0, (List.append_nil _).symm⟩

theorem responseEnd_idles (csOn : Bool) (value : Int) (cmd : Cmd) (h : Host) :
    Idles h (responseEnd csOn value cmd h).2.2 := by
  rw [responseEnd]
  split
  · exact .refl h
  · exact responseDone_idles value cmd h

theorem responseRest_idles (e : Bus) (csOn : Bool) (cmd : Cmd) (a : Aligned) (h : Host) :
    Idles h (responseRest e csOn cmd a h).2.2 := by
  rw [responseRest]
  dsimp only
  split
  · exact responseEnd_idles csOn _ cmd h
  · split
    · exact (waitUnbusy_idles e h).trans (responseEnd_idles csOn _ cmd _)
    · exact responseEnd_idles csOn _ cmd h
  · have hnext := nextByte_idles e a.cp h
    split
    · next heq =>
      rw [heq] at hnext
      exact hnext.trans (responseDone_idles _ cmd _)
    · next heq =>
      rw [heq] at hnext
      exact hnext.trans (responseEnd_idles csOn _ _ _)
  · have hbytes := responseBytes_idles e a.bitshift 4 (a.leftover.setWidth 16 <<< 8) a.cp 0 (statusValue a.resp0) h
    split
    · exact hbytes.trans (responseEnd_idles csOn _ _ _)
    · exact hbytes.trans (responseDone_idles _ _ _)
  · exact responseDone_idles _ cmd h

theorem responseGet_idles (e : Bus) (csOn : Bool) (status : List Byte) (cmd : Cmd) (h : Host) :
    Idles h (mmcSpiResponseGet e csOn status cmd h).2.2 := by
  have hfind := findStatus_idles e status h
  rw [mmcSpiResponseGet]
  split
  · next heq =>
    rw [heq] at hfind
    exact hfind.trans (responseDone_idles _ cmd _)
  · next b cp h1 heq =>
    rw [heq] at hfind
    have halign := alignStatus_idles e b cp h1
    split
    · next heq =>
      rw [heq] at halign
      exact (hfind.trans halign).trans (responseDone_idles _ cmd _)
    · next heq =>
      rw [heq] at halign
      exact (hfind.trans halign).trans (responseRest_idles e csOn _ _ _)

end Idles

/-- What is sent is the command in ones, whatever the card answers. -/
theorem commandSend_mosi {e : Bus} {h : Host} (hsend : e.fails h.messages = none) (reading csOn : Bool) (cmd : Cmd) :
    ∃ m, (mmcSpiCommandSend e reading cmd csOn h).2.2.mosi =
      h.mosi ++ (0xff :: commandBytes cmd.opcode cmd.arg ++ ones m) := by
  rw [mmcSpiCommandSend, commandFrame_eq, spiSyncLocked, hsend]
  dsimp only
  generalize commandLength csOn reading cmd.flags - _ = n
  obtain ⟨m, hm⟩ := responseGet_idles e csOn (e.bytes h.clocked _) cmd { h with
    clocked := _, messages := h.messages + 1, cs := true,
    mosi := h.mosi ++ (0xff :: commandBytes cmd.opcode cmd.arg ++ ones n) }
  refine ⟨n + m, hm.trans ?_⟩
  rw [List.append_assoc, List.append_assoc, ones, ones, ones, List.replicate_append_replicate]

/-- A card takes the index and the argument from what is sent, unless bit 7 of the opcode is in the way of the start
bit, and takes nothing from it when up to 7 bits in a row are changed. -/
theorem command_on_the_line {e : Bus} {h : Host} (hsend : e.fails h.messages = none) (reading csOn : Bool) (cmd : Cmd) :
    ∃ frame m, (mmcSpiCommandSend e reading cmd csOn h).2.2.mosi = h.mosi ++ (0xff :: frame ++ ones m) ∧
      cardCommand frame = (if cmd.opcode.getLsbD 7 then none else some (cmd.opcode.setWidth 6, cmd.arg)) ∧
      ∀ changed q, DifferIn q 7 (lineBits changed) (lineBits frame) → changed ≠ frame → cardCommand changed = none := by
  obtain ⟨m, hmosi⟩ := commandSend_mosi hsend reading csOn cmd
  exact ⟨commandBytes cmd.opcode cmd.arg, m, hmosi, cardCommand_commandBytes cmd.opcode cmd.arg,
    fun changed q hdiff hne => cardCommand_burst hdiff hne⟩

theorem command_on_the_line_op_cond : ∃ frame m,
    (mmcSpiCommandSend (lowFor 67 12) false ioSendOpCond false idleHost).2.2.mosi = 0xff :: frame ++ ones m ∧
      cardCommand frame = some (5, 0) := by
  obtain ⟨frame, m, hmosi, hcard, -⟩ :=
    command_on_the_line (e := lowFor 67 12) (h := idleHost) rfl false false ioSendOpCond
  exact ⟨frame, m, hmosi, hcard⟩

end HgicFmac.MmcSpi
