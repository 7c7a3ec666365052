import HgicFmac.Hdr
import HgicFmac.Lib.Mem

/-!
# A command and its response: `hgic_fwctrl_do_cmd`

What a caller sees of one command, whatever the queues and the other callers do.

* `Resp` : a response, `cmd.status` and what lies behind its header; `Reply` : whether the command could be built, and
  the response that came in time;
* `hgicFwctrlDoCmd` : the result and the bytes copied to `out`. The status is returned as it is, the copy is bounded
  (`doCmd_length`);
* `FwInfo`, `hgicFwctrlGetFwinfo` : `struct hgic_fw_info` and the query that fills it.
-/

namespace HgicFmac.Fwctrl
open Lib

def toS16 (x : Nat) : Int := if x % 2 ^ 16 < 2 ^ 15 then (x % 2 ^ 16 : Nat) else (x % 2 ^ 16 : Nat) - 2 ^ 16

/-- A response. Its payload may be shorter than the status says; then `memcpy` reads what lies behind it. -/
structure Resp where
  status : Nat
  data : Mem

/-- The outcome of a command that the driver does not decide. -/
structure Reply where
  alloc : Bool
  resp : Option Resp

/-- The bound of `hgic_fwctrl_do_cmd` on `in_len`. -/
def maxCmdLen : Nat := 2000

def Reply.sends (r : Reply) (inLen : Nat) : Bool := inLen ≤ maxCmdLen && r.alloc

/-- The result of `hgic_fwctrl_do_cmd`, and what it copies to a buffer `out` of `outSize` bytes. -/
def hgicFwctrlDoCmd (r : Reply) (inLen outSize : Nat) : Int × List UInt8 :=
  if maxCmdLen < inLen then (einval, [])
  else if r.alloc then
    match r.resp with
    | none => (-1, [])
    | some resp =>
      let ret := toS16 resp.status
      (ret, if 0 < ret then resp.data.read 0 (min ret.toNat outSize) else [])
  else (-1, [])

theorem toS16_range (x : Nat) : -2 ^ 15 ≤ toS16 x ∧ toS16 x < 2 ^ 15 := by
  unfold toS16
  split <;> omega

/-- Bytes are copied only for a positive status, and no more than it says or `out` holds. -/
theorem doCmd_length (r : Reply) (inLen outSize : Nat) :
    (hgicFwctrlDoCmd r inLen outSize).2.length = min (hgicFwctrlDoCmd r inLen outSize).1.toNat outSize := by
  unfold hgicFwctrlDoCmd
  split
  · simp [einval]
  · split
    · split
      · simp
      · dsimp only
        split
        · rw [length_read]
        · next h =>
          have : (toS16 (_)).toNat = 0 := Int.toNat_of_nonpos (Int.not_lt.mp h)
          simp [this]
    · simp

theorem doCmd_range (r : Reply) (inLen outSize : Nat) :
    -2 ^ 15 ≤ (hgicFwctrlDoCmd r inLen outSize).1 ∧ (hgicFwctrlDoCmd r inLen outSize).1 < 2 ^ 15 := by
  unfold hgicFwctrlDoCmd
  split
  · decide
  · split
    · split
      · decide
      · exact toS16_range _
    · decide

/-! ## The firmware's own description -/

/-- `struct hgic_fw_info`; `resv` is never written. -/
structure FwInfo where
  version : Nat
  svnVersion : Nat
  chipId : Nat
  cpuId : Nat
  mac : List UInt8
  appVersion : Nat
  smtDat : Nat
  deriving DecidableEq, Repr

def fwInfoSize : Nat := 28

/-- `hg->fwinfo` of a new device. -/
def FwInfo.zero : FwInfo := ⟨0, 0, 0, 0, List.replicate 6 0, 0, 0⟩

/-- The fields of a `struct hgic_fw_info` in little-endian order at `m`. -/
def FwInfo.ofMem (m : Mem) : FwInfo where
  version := load32 .little m 0
  svnVersion := load32 .little m 4
  chipId := loadLe16 m 8
  cpuId := loadLe16 m 10
  mac := m.read 12 6
  appVersion := load32 .little m 20
  smtDat := load32 .little m 24

/-- `hgic_fwctrl_get_fwinfo`: the result, and the fields if it is positive. A response shorter than the structure
leaves the rest of the local copy as it was on the stack. -/
def hgicFwctrlGetFwinfo (r : Reply) (stack : Mem) (info : FwInfo) : Int × FwInfo :=
  let d := hgicFwctrlDoCmd r 0 fwInfoSize
  (d.1, if 0 < d.1 then .ofMem (stack.write 0 d.2) else info)

end HgicFmac.Fwctrl
