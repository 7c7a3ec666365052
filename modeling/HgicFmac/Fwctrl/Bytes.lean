import HgicFmac.Core.Frame
import HgicFmac.Fwctrl.Cmd
import HgicFmac.Lib.Guarded

/-!
# The bytes of a command and of its response

* `SkBuff` : an skb in its allocation; `hgicAllocCtrlSkb`, `hgicFwctrlSendCmd` : the buffer of a command and the header
  that is pushed in front of its payload, store by store; `doCmdSkb` : what `hgic_fwctrl_do_cmd` queues;
* `doCmdSkb_data` : the queued bytes, header and payload; `doCmdSkb_decode` : a little-endian host reads the command back
  from them;
* `doCmdResp` : the response as `hgic_fwctrl_do_cmd` reads it (`doCmdResp_eq`); `RespInside` : every byte it reads and
  copies is one of the response. `respInside_iff` : the responses for which it is.
-/

namespace HgicFmac.Fwctrl
open Lib HgicFmac.Core

/-- `sizeof(struct hgic_ctrl_hdr)`: the structures in the union have the alignment of a `short`. -/
def ctrlHdrSize : Nat := 12

def hgicCmdStart : Nat := 0

/-! ## The command -/

/-- An skb: the memory of its buffer, the offset of `skb->data` and `skb->len`. -/
structure SkBuff where
  mem : Mem
  data : Nat
  len : Nat

namespace SkBuff

/-- A store to `skb->data + off`. -/
def put (b : SkBuff) (off : Nat) (bs : List UInt8) : SkBuff := { b with mem := b.mem.write (b.data + off) bs }

def push (b : SkBuff) (n : Nat) : SkBuff := { b with data := b.data - n, len := b.len + n }

/-- The packet, with the `spare` bytes of the buffer behind it. -/
def toSkb (b : SkBuff) (spare : Nat) : Skb where
  data := b.mem.read b.data b.len
  tail := b.mem.read (b.data + b.len) spare

end SkBuff

/-- `hgic_alloc_ctrl_skb`: the header and the payload are cleared, the four bytes behind them are as they were. -/
def hgicAllocCtrlSkb (room : Mem) (headroom size : Nat) : SkBuff where
  mem := room.write headroom (List.replicate (ctrlHdrSize + size) 0)
  data := headroom + ctrlHdrSize
  len := size

/-- The bit field `ifidx` in the byte that it shares with `flags`. -/
def setIfidx : Endian → UInt8 → Nat → UInt8
  | .little, b, ifidx => UInt8.ofNat (b.toNat / 16 * 16 + ifidx % 16)
  | .big, b, ifidx => UInt8.ofNat (16 * (ifidx % 16) + b.toNat % 16)

def hdrCmdidSet (e : Endian) (b : SkBuff) (id : Nat) : SkBuff :=
  if 255 < id then (b.put 2 [UInt8.ofNat HdrType.cmd2.byte]).put 8 (bytes16 e (cpuToLe16 e id))
  else (b.put 2 [UInt8.ofNat HdrType.cmd.byte]).put 8 [UInt8.ofNat id]

def wireId (cmdId : Nat) : Nat := (((cmdId : Int) - hgicCmdStart) % 2 ^ 16).toNat

/-- `hgic_fwctrl_send_cmd` up to `hgic_fwctrl_send_data`. -/
def hgicFwctrlSendCmd (e : Endian) (cookie ifidx cmdId : Nat) (b : SkBuff) : SkBuff :=
  let b := b.push ctrlHdrSize
  let b := b.put 8 (List.replicate 4 0)
  let b := b.put 0 (bytes16 e (cpuToLe16 e hgicHdrTxMagic))
  let b := b.put 4 (bytes16 e (cpuToLe16 e b.len))
  let b := b.put 6 (bytes16 e (cpuToLe16 e cookie))
  let b := b.put 3 [setIfidx e (b.mem (b.data + 3)) ifidx]
  hdrCmdidSet e b (wireId cmdId)

/-- `if (in && in_len > 0)`: the payload, and a zero behind it. -/
def fillCmd (input : Option Mem) (inLen : Nat) (b : SkBuff) : SkBuff :=
  match input with
  | some m => if 0 < inLen then (b.put 0 (m.read 0 inLen)).put inLen [0] else b
  | none => b

/-- What `hgic_fwctrl_do_cmd` queues, in a buffer with the contents `room`; nothing if there is no buffer. -/
def doCmdSkb (e : Endian) (room : Option Mem) (headroom cookie ifidx cmdId : Nat) (input : Option Mem) (inLen : Nat) :
    Option Skb :=
  if maxCmdLen < inLen then none
  else room.map fun m =>
    (hgicFwctrlSendCmd e cookie ifidx cmdId (fillCmd input inLen (hgicAllocCtrlSkb m headroom inLen))).toSkb 4

/-- The payload: the caller's bytes, or zeros if `in` is null. -/
def cmdPayload (input : Option Mem) (inLen : Nat) : List UInt8 :=
  match input with
  | some m => m.read 0 inLen
  | none => List.replicate inLen 0

def cmdType (id : Nat) : HdrType := if 255 < id then .cmd2 else .cmd

/-- The four bytes of the union in `struct hgic_ctrl_hdr`. -/
def cmdInfo (e : Endian) (id : Nat) : List UInt8 :=
  if 255 < id then bytes16 e (cpuToLe16 e id) ++ [0, 0] else [UInt8.ofNat id, 0, 0, 0]

def cmdHdr (e : Endian) (cookie ifidx id len : Nat) : Hdr where
  magic := cpuToLe16 e hgicHdrTxMagic
  type := (cmdType id).byte
  ifidx := ifidx
  flags := 0
  length := cpuToLe16 e len
  cookie := cpuToLe16 e cookie

theorem alloc_clear (room : Mem) (headroom size : Nat) {i : Nat} (hi : i < ctrlHdrSize + size) :
    (hgicAllocCtrlSkb room headroom size).mem (headroom + i) = 0 := by
  unfold hgicAllocCtrlSkb
  dsimp only
  rw [write_at _ _ (by simpa using hi)]
  simp [hi]

theorem alloc_payload (room : Mem) (headroom size : Nat) :
    (hgicAllocCtrlSkb room headroom size).mem.read (headroom + ctrlHdrSize) size = List.replicate size 0 := by
  rw [List.eq_replicate_iff]
  refine ⟨length_read _ _ _, ?_⟩
  intro b hb
  obtain ⟨i, hi, rfl⟩ := List.mem_map.1 hb
  rw [List.mem_range] at hi
  rw [Nat.add_assoc]
  exact alloc_clear room headroom size (by omega)

/-- The payload does not reach into the cleared header in front of it. -/
theorem fillCmd_alloc (input : Option Mem) (room : Mem) (headroom inLen : Nat) :
    (fillCmd input inLen (hgicAllocCtrlSkb room headroom inLen)).data = headroom + ctrlHdrSize ∧
    (fillCmd input inLen (hgicAllocCtrlSkb room headroom inLen)).len = inLen ∧
    (fillCmd input inLen (hgicAllocCtrlSkb room headroom inLen)).mem (headroom + 3) = 0 ∧
    (fillCmd input inLen (hgicAllocCtrlSkb room headroom inLen)).mem.read (headroom + ctrlHdrSize) inLen =
      cmdPayload input inLen := by
  have h3 := alloc_clear room headroom inLen (i := 3) (by unfold ctrlHdrSize; omega)
  cases input with
  | none => exact ⟨rfl, rfl, h3, alloc_payload room headroom inLen⟩
  | some m =>
    by_cases hpos : 0 < inLen
    · simp only [fillCmd, if_pos hpos]
      refine ⟨rfl, rfl, ?_, ?_⟩
      · simp only [SkBuff.put]
        have hd : headroom + 3 < (hgicAllocCtrlSkb room headroom inLen).data := by
          simp only [hgicAllocCtrlSkb, ctrlHdrSize]
          omega
        rw [write_of_lt _ _ (by omega), write_of_lt _ _ (by omega), h3]
      · have hself := read_write_self (hgicAllocCtrlSkb room headroom inLen).mem (headroom + ctrlHdrSize) (m.read 0 inLen)
        rw [length_read] at hself
        refine Eq.trans (read_congr ?_) hself
        intro i _ hi
        exact write_of_lt _ _ hi
    · obtain rfl : inLen = 0 := by omega
      exact ⟨rfl, rfl, h3, rfl⟩

/-- The header that `hgic_fwctrl_send_cmd` pushes in front of a payload. -/
theorem sendCmd_hdr (e : Endian) (cookie ifidx cmdId : Nat) {b : SkBuff} {headroom : Nat}
    (hdata : b.data = headroom + ctrlHdrSize) (hflags : b.mem (headroom + 3) = 0) :
    (hgicFwctrlSendCmd e cookie ifidx cmdId b).mem.read headroom ctrlHdrSize =
      (cmdHdr e cookie ifidx (wireId cmdId) (b.len + ctrlHdrSize)).bytes e ++ cmdInfo e (wireId cmdId) := by
  cases e <;> by_cases hid : 255 < wireId cmdId <;>
    simp [hgicFwctrlSendCmd, hdrCmdidSet, SkBuff.put, SkBuff.push, Mem.read, Mem.write, List.range_succ, hid,
      ctrlHdrSize, hdata, cmdHdr, cmdInfo, cmdType, Hdr.bytes, bytes16, nibbles, setIfidx, hflags, Nat.add_assoc]

theorem put_mem_of_ge {b : SkBuff} {off i : Nat} {bs : List UInt8} (hoff : off + bs.length ≤ ctrlHdrSize)
    (hi : b.data + ctrlHdrSize ≤ i) : (b.put off bs).mem i = b.mem i := write_of_le _ _ (by omega)

theorem sendCmd_frame (e : Endian) (cookie ifidx cmdId : Nat) (b : SkBuff) :
    (hgicFwctrlSendCmd e cookie ifidx cmdId b).data = b.data - ctrlHdrSize ∧
    (hgicFwctrlSendCmd e cookie ifidx cmdId b).len = b.len + ctrlHdrSize ∧
    ∀ i, b.data - ctrlHdrSize + ctrlHdrSize ≤ i → (hgicFwctrlSendCmd e cookie ifidx cmdId b).mem i = b.mem i := by
  unfold hgicFwctrlSendCmd hdrCmdidSet
  split <;> refine ⟨rfl, rfl, ?_⟩ <;> intro i hi
  all_goals
    iterate 7 rw [put_mem_of_ge (by simp [ctrlHdrSize, length_bytes16]) hi]
    rfl

/-- The queued bytes: the header, the union of `struct hgic_ctrl_hdr` and the payload. -/
theorem doCmdSkb_data (e : Endian) (room : Mem) (headroom cookie ifidx cmdId : Nat) (input : Option Mem) {inLen : Nat}
    (hlen : inLen ≤ maxCmdLen) :
    ∃ p, doCmdSkb e (some room) headroom cookie ifidx cmdId input inLen = some p ∧
      p.data = (cmdHdr e cookie ifidx (wireId cmdId) (inLen + ctrlHdrSize)).bytes e ++ cmdInfo e (wireId cmdId) ++
        cmdPayload input inLen := by
  obtain ⟨hdata, hlen', h3, hpayload⟩ := fillCmd_alloc input room headroom inLen
  obtain ⟨hd, hl, hframe⟩ :=
    sendCmd_frame e cookie ifidx cmdId (fillCmd input inLen (hgicAllocCtrlSkb room headroom inLen))
  have hhdr := sendCmd_hdr e cookie ifidx cmdId hdata h3
  rw [hdata, Nat.add_sub_cancel] at hd hframe
  rw [hlen'] at hl hhdr
  refine ⟨_, by rw [doCmdSkb, if_neg (by omega)]; rfl, ?_⟩
  simp only [SkBuff.toSkb]
  rw [hd, hl, Nat.add_comm inLen, read_add, hhdr, ← hpayload, Nat.add_comm inLen]
  congr 1
  apply read_congr
  intro i hi _
  exact hframe i hi

/-- Behind the header of a command without payload lies what the buffer had there. -/
theorem doCmdSkb_tail {e : Endian} {room : Mem} {headroom cookie ifidx cmdId : Nat} {input : Option Mem} {p : Skb}
    (h : doCmdSkb e (some room) headroom cookie ifidx cmdId input 0 = some p) :
    p.tail.getD 0 0 = room (headroom + ctrlHdrSize) := by
  rw [doCmdSkb, if_neg (by decide), Option.map_some, Option.some.injEq] at h
  subst h
  have hfill : fillCmd input 0 (hgicAllocCtrlSkb room headroom 0) = hgicAllocCtrlSkb room headroom 0 := by
    cases input <;> rfl
  obtain ⟨hd, hl, hframe⟩ := sendCmd_frame e cookie ifidx cmdId (hgicAllocCtrlSkb room headroom 0)
  have hdata : (hgicAllocCtrlSkb room headroom 0).data - ctrlHdrSize = headroom := Nat.add_sub_cancel ..
  rw [hdata] at hd hframe
  simp only [SkBuff.toSkb, hfill]
  rw [getD_read _ _ (by decide), hd, hl]
  have hlen : headroom + ((hgicAllocCtrlSkb room headroom 0).len + ctrlHdrSize) + 0 = headroom + ctrlHdrSize := by
    simp [hgicAllocCtrlSkb]
  rw [hlen, hframe _ (Nat.le_refl _)]
  exact write_of_le _ _ (by simp)

theorem wireId_lt (cmdId : Nat) : wireId cmdId < 65536 := by
  unfold wireId
  omega

theorem wireId_start {id : Nat} (h : id < 65536) : wireId (hgicCmdStart + id) = id := by
  unfold wireId
  push_cast
  omega

/-- What a little-endian host decodes from a packet with the header, the union and the payload of a command. -/
structure Decodes (p : Skb) (id ifidx cookie : Nat) (payload : List UInt8) : Prop where
  magic : load16 .little p.mem 0 = hgicHdrTxMagic
  length : load16 .little p.mem 4 = ctrlHdrSize + payload.length
  len : p.data.length = ctrlHdrSize + payload.length
  type : p.type = if id ≤ 255 then HdrType.cmd.byte else HdrType.cmd2.byte
  cmdid : hdrCmdid p = id
  ifidx : (p.mem 3).toNat % 16 = ifidx
  cookie : load16 .little p.mem 6 = cookie
  payload : p.data.drop ctrlHdrSize = payload
  status : load16 .little p.mem 10 = 0

theorem length_cmdInfo (e : Endian) (id : Nat) : (cmdInfo e id).length = 4 := by
  unfold cmdInfo
  split
  · rw [List.length_append, length_bytes16]
    rfl
  · rfl

theorem length_cmdPayload (input : Option Mem) (inLen : Nat) : (cmdPayload input inLen).length = inLen := by
  cases input with
  | none => exact List.length_replicate
  | some m => exact length_read m 0 inLen

theorem mem_of_data {p : Skb} {hdr rest : List UInt8} (h : p.data = hdr ++ rest) {i : Nat} (hi : i < hdr.length) :
    p.mem i = hdr.getD i 0 := by
  unfold Skb.mem Mem.ofList
  rw [h, List.append_assoc, List.getD_eq_getElem?_getD, List.getD_eq_getElem?_getD, List.getElem?_append_left hi]

theorem bytes16_cpuToLe16 (e : Endian) (x : Nat) :
    bytes16 e (cpuToLe16 e x) = [UInt8.ofNat (x % 256), UInt8.ofNat (x / 256 % 256)] := by
  have hlo := Nat.mod_lt x (by decide : 0 < 256)
  have hhi := Nat.mod_lt (x / 256) (by decide : 0 < 256)
  cases e with
  | little =>
    rw [bytes16, cpuToLe16, show x % 65536 % 256 = x % 256 by omega,
      show x % 65536 / 256 % 256 = x / 256 % 256 by omega]
  | big =>
    rw [bytes16, cpuToLe16]
    generalize x % 256 = lo at *
    generalize x / 256 % 256 = hi at *
    rw [show (lo * 256 + hi) / 256 % 256 = lo by omega, show (lo * 256 + hi) % 256 = hi by omega]

section
variable {e : Endian} {p : Skb} {id ifidx cookie len : Nat} {payload : List UInt8}
  (hdata : p.data = (cmdHdr e cookie ifidx id len).bytes e ++ cmdInfo e id ++ payload)
include hdata

theorem cmd_mem {i : Nat} (hi : i < ctrlHdrSize) :
    p.mem i = ((cmdHdr e cookie ifidx id len).bytes e ++ cmdInfo e id).getD i 0 :=
  mem_of_data hdata (by simpa [length_cmdInfo, ctrlHdrSize] using hi)

theorem cmd_mem_behind : p.mem ctrlHdrSize = (payload ++ p.tail).getD 0 0 := by
  unfold Skb.mem Mem.ofList
  rw [hdata, List.append_assoc, List.getD_eq_getElem?_getD, List.getD_eq_getElem?_getD,
    List.getElem?_append_right (by simp [length_cmdInfo, ctrlHdrSize])]
  simp [length_cmdInfo, ctrlHdrSize]

theorem cmd_magic : loadLe16 p.mem 0 = hgicHdrTxMagic := by
  rw [loadLe16, cmd_mem hdata (by decide), cmd_mem hdata (by decide)]
  simp [cmdHdr, Hdr.bytes, bytes16_cpuToLe16, hgicHdrTxMagic]

theorem cmd_type : p.type = (cmdType id).byte := by
  unfold Skb.type
  rw [cmd_mem hdata (by decide)]
  by_cases hbig : 255 < id <;> simp [cmdHdr, Hdr.bytes, bytes16_cpuToLe16, cmdType, HdrType.byte, hbig]

theorem cmd_hdrCmdid (hid : id < 65536) : hdrCmdid p = id := by
  unfold hdrCmdid
  rw [cmd_type hdata, loadLe16, cmd_mem hdata (by decide), cmd_mem hdata (by decide)]
  by_cases hbig : 255 < id
  · simp [cmdHdr, Hdr.bytes, bytes16_cpuToLe16, cmdType, cmdInfo, hbig]
    omega
  · simp [cmdHdr, Hdr.bytes, bytes16_cpuToLe16, cmdType, cmdInfo, hbig, HdrType.byte]
    omega

end

theorem decodes_of_data {p : Skb} {id ifidx cookie : Nat} {payload : List UInt8} (hid : id < 65536)
    (hifidx : ifidx < 16) (hcookie : cookie < 65536) (hlen : payload.length ≤ maxCmdLen)
    (hdata : p.data = (cmdHdr .little cookie ifidx id (payload.length + ctrlHdrSize)).bytes .little ++
      cmdInfo .little id ++ payload) : Decodes p id ifidx cookie payload := by
  unfold maxCmdLen at hlen
  have hsize : ctrlHdrSize = 12 := rfl
  have hhdr : ((cmdHdr .little cookie ifidx id (payload.length + ctrlHdrSize)).bytes .little ++
      cmdInfo .little id).length = ctrlHdrSize := by
    rw [List.length_append, length_bytes, length_cmdInfo]
    rfl
  have hload : ∀ i, load16 .little p.mem i = (p.mem i).toNat + 256 * (p.mem (i + 1)).toNat := fun _ => rfl
  exact
    { magic := cmd_magic hdata
      length := by
        rw [hload, cmd_mem hdata (by decide), cmd_mem hdata (by decide)]
        simp [cmdHdr, Hdr.bytes, bytes16_cpuToLe16, hsize]
        omega
      len := by
        rw [hdata, List.length_append, hhdr]
      type := by
        rw [cmd_type hdata]
        unfold cmdType
        split <;> split <;> first | rfl | omega
      cmdid := cmd_hdrCmdid hdata hid
      ifidx := by
        rw [cmd_mem hdata (by decide)]
        simp [cmdHdr, Hdr.bytes, bytes16_cpuToLe16, nibbles]
        omega
      cookie := by
        rw [hload, cmd_mem hdata (by decide), cmd_mem hdata (by decide)]
        simp [cmdHdr, Hdr.bytes, bytes16_cpuToLe16]
        omega
      payload := by
        rw [hdata, List.drop_left' hhdr]
      status := by
        rw [hload, cmd_mem hdata (by decide), cmd_mem hdata (by decide)]
        by_cases hbig : 255 < id <;> simp [cmdHdr, Hdr.bytes, bytes16_cpuToLe16, cmdInfo, hbig] }

/-- A little-endian host reads the command back from the packet it queued. -/
theorem doCmdSkb_decode (room : Mem) (headroom : Nat) {id ifidx cookie inLen : Nat} (input : Option Mem)
    (hid : id < 65536) (hifidx : ifidx < 16) (hcookie : cookie < 65536) (hlen : inLen ≤ maxCmdLen) :
    ∃ p, doCmdSkb .little (some room) headroom cookie ifidx (hgicCmdStart + id) input inLen = some p ∧
      Decodes p id ifidx cookie (cmdPayload input inLen) := by
  obtain ⟨p, hp, hdata⟩ := doCmdSkb_data .little room headroom cookie ifidx (hgicCmdStart + id) input hlen
  refine ⟨p, hp, decodes_of_data hid hifidx hcookie ?_ ?_⟩
  · rw [length_cmdPayload]
    exact hlen
  · rw [hdata, wireId_start hid, length_cmdPayload]

/-- A command with an id of more than a byte. -/
theorem doCmdSkb_decode_300 :
    ∃ p, doCmdSkb .little (some fun _ => 0xcc) 16 7 1 (hgicCmdStart + 300) (some (Mem.ofList [1, 2, 3])) 3 = some p ∧
      Decodes p 300 1 7 [1, 2, 3] :=
  doCmdSkb_decode _ _ _ (by decide) (by decide) (by decide) (by decide)

/-! ## The response -/

/-- `hgic_fwctrl_do_cmd` on a response: the status, and the copy to `out` of as many bytes as it says. `rd off n` reads
`n` bytes of the response at `off`; `out` is the size of the caller's buffer, if there is one. -/
def doCmdResp {M : Type → Type} [Monad M] (rd : Nat → Nat → M (List UInt8)) (out : Option Nat) :
    M (Int × List UInt8) := do
  let status ← rd 10 2
  let ret := toS16 (loadLe16 (Mem.ofList status) 0)
  match out with
  | some outSize =>
    if 0 < ret then return (ret, ← rd ctrlHdrSize (min ret.toNat outSize)) else return (ret, [])
  | none => return (ret, [])

def respOf (m : Mem) : Resp where
  status := loadLe16 m 10
  data := fun i => m (ctrlHdrSize + i)

/-- With plain reads of the memory this is the response part of `hgic_fwctrl_do_cmd`. -/
theorem doCmdResp_eq (m : Mem) {inLen : Nat} (hlen : inLen ≤ maxCmdLen) (outSize : Nat) :
    doCmdResp (M := Id) m.read (some outSize) = hgicFwctrlDoCmd ⟨true, some (respOf m)⟩ inLen outSize := by
  unfold hgicFwctrlDoCmd
  rw [if_neg (by omega), if_pos rfl]
  have hread : ∀ n, m.read ctrlHdrSize n = (respOf m).data.read 0 n := by
    intro n
    simp [Mem.read, respOf]
  have hstatus : loadLe16 (Mem.ofList (m.read 10 2)) 0 = (respOf m).status := rfl
  simp only [doCmdResp, bind, pure, hstatus, ← hread]
  split <;> rfl

/-- `n` bytes of a response, if it has them. -/
def readIn (bs : List UInt8) (off n : Nat) : Except Unit (List UInt8) :=
  if off + n ≤ bs.length then .ok ((bs.drop off).take n) else .error ()

/-- Only bytes of the response are read, whatever follows it in memory, and `out` receives as many bytes of its payload as
the status says and the buffer holds. -/
def RespInside (bs : List UInt8) (out : Option Nat) : Prop :=
  ∃ r, doCmdResp (readIn bs) out = .ok r ∧ (∀ rest, doCmdResp (M := Id) (Mem.ofList (bs ++ rest)).read out = r) ∧
    ∀ outSize ∈ out, r.2 = (bs.drop ctrlHdrSize).take (min r.1.toNat outSize) ∧ r.2.length = min r.1.toNat outSize

def respStatus (bs : List UInt8) : Int := toS16 (loadLe16 (Mem.ofList bs) 10)

theorem read_ofList_append {bs rest : List UInt8} {off n : Nat} (h : off + n ≤ bs.length) :
    (Mem.ofList (bs ++ rest)).read off n = (bs.drop off).take n := by
  apply List.ext_getElem
  · simp
    omega
  · intro k hk hk'
    have hk2 : k < n := by simpa using hk
    have hin : off + k < bs.length := by omega
    simp only [Mem.read, Mem.ofList, List.getElem_map, List.getElem_range, List.getElem_take, List.getElem_drop]
    rw [List.getD_eq_getElem?_getD, List.getElem?_append_left hin, List.getElem?_eq_getElem hin]
    rfl

theorem readIn_eq_ok {bs : List UInt8} {off n : Nat} (h : off + n ≤ bs.length) :
    readIn bs off n = .ok ((bs.drop off).take n) := if_pos h

theorem status_readIn {bs : List UInt8} (h : ctrlHdrSize ≤ bs.length) :
    toS16 (loadLe16 (Mem.ofList ((bs.drop 10).take 2)) 0) = respStatus bs := by
  unfold ctrlHdrSize at h
  have hread := @read_ofList_append bs [] 10 2 (by omega)
  rw [← hread, List.append_nil]
  rfl

section
variable {bs : List UInt8} {outSize : Nat} (h : ctrlHdrSize ≤ bs.length)
include h

theorem doCmdResp_none (rest : List UInt8) :
    doCmdResp (readIn bs) none = .ok (respStatus bs, []) ∧
    doCmdResp (M := Id) (Mem.ofList (bs ++ rest)).read none = (respStatus bs, []) := by
  have h' : 10 + 2 ≤ bs.length := h
  rw [← status_readIn h]
  constructor
  · simp only [doCmdResp, readIn_eq_ok h']
    rfl
  · simp only [doCmdResp, read_ofList_append h']
    rfl

theorem doCmdResp_of_le (hret : ¬ 0 < respStatus bs) (rest : List UInt8) :
    doCmdResp (readIn bs) (some outSize) = .ok (respStatus bs, []) ∧
    doCmdResp (M := Id) (Mem.ofList (bs ++ rest)).read (some outSize) = (respStatus bs, []) := by
  have h' : 10 + 2 ≤ bs.length := h
  rw [← status_readIn h] at hret ⊢
  constructor
  · simp only [doCmdResp, readIn_eq_ok h', bind, Except.bind, if_neg hret]
    rfl
  · simp only [doCmdResp, read_ofList_append h', bind, if_neg hret]
    rfl

theorem doCmdResp_of_pos (hret : 0 < respStatus bs) (rest : List UInt8) :
    doCmdResp (readIn bs) (some outSize) =
      (readIn bs ctrlHdrSize (min (respStatus bs).toNat outSize)).map (respStatus bs, ·) ∧
    doCmdResp (M := Id) (Mem.ofList (bs ++ rest)).read (some outSize) =
      (respStatus bs, (Mem.ofList (bs ++ rest)).read ctrlHdrSize (min (respStatus bs).toNat outSize)) := by
  have h' : 10 + 2 ≤ bs.length := h
  rw [← status_readIn h] at hret ⊢
  constructor
  · simp only [doCmdResp, readIn_eq_ok h', bind, Except.bind, if_pos hret]
    rfl
  · simp only [doCmdResp, read_ofList_append h', bind, if_pos hret]
    rfl

end

theorem RespInside.hdr_le {bs : List UInt8} {out : Option Nat} (hr : RespInside bs out) :
    ctrlHdrSize ≤ bs.length := by
  obtain ⟨r, hr, -⟩ := hr
  by_contra hshort
  have hstatus : readIn bs 10 2 = .error () := if_neg hshort
  simp only [doCmdResp, hstatus] at hr
  cases hr

theorem RespInside.payload_le {bs : List UInt8} {outSize : Nat} (hr : RespInside bs (some outSize))
    (hret : 0 < respStatus bs) : ctrlHdrSize + min (respStatus bs).toNat outSize ≤ bs.length := by
  have h := hr.hdr_le
  obtain ⟨r, hr, -⟩ := hr
  by_contra hover
  have hpayload : readIn bs ctrlHdrSize (min (respStatus bs).toNat outSize) = .error () := if_neg hover
  rw [(doCmdResp_of_pos h hret []).1, hpayload] at hr
  cases hr

/-- The responses that have what the driver reads. -/
theorem respInside_iff (bs : List UInt8) (out : Option Nat) :
    RespInside bs out ↔ ctrlHdrSize ≤ bs.length ∧
      ∀ outSize ∈ out, 0 < respStatus bs → ctrlHdrSize + min (respStatus bs).toNat outSize ≤ bs.length := by
  constructor
  · intro hr
    refine ⟨hr.hdr_le, ?_⟩
    rintro outSize rfl hret
    exact hr.payload_le hret
  · rintro ⟨h, hpayload⟩
    cases out with
    | none => exact ⟨_, (doCmdResp_none h []).1, fun rest => (doCmdResp_none h rest).2, nofun⟩
    | some outSize =>
      by_cases hret : 0 < respStatus bs
      · have hin := hpayload outSize rfl hret
        refine ⟨(respStatus bs, (bs.drop ctrlHdrSize).take (min (respStatus bs).toNat outSize)), ?_, ?_, ?_⟩
        · rw [(doCmdResp_of_pos h hret []).1, readIn_eq_ok hin]
          rfl
        · intro rest
          rw [(doCmdResp_of_pos h hret rest).2, read_ofList_append hin]
        · rintro _ ⟨⟩
          refine ⟨rfl, ?_⟩
          rw [List.length_take, List.length_drop]
          omega
      · refine ⟨_, (doCmdResp_of_le h hret []).1, fun rest => (doCmdResp_of_le h hret rest).2, ?_⟩
        rintro _ ⟨⟩
        simp [Int.toNat_of_nonpos (Int.not_lt.1 hret)]

/-- A response of 12 bytes with the status 4, for a caller that waits for four bytes. -/
def bareResp : List UInt8 := [0x1a, 0x2b, 3, 0, 12, 0, 7, 0, 22, 0, 4, 0]

theorem not_respInside_bareResp : ¬ ∀ (bs : List UInt8) (out : Option Nat), RespInside bs out := by
  intro h
  have hin := (h bareResp (some 4)).payload_le (by decide)
  exact absurd hin (by decide)

end HgicFmac.Fwctrl
