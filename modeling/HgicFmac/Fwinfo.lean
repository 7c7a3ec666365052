import HgicFmac.Hdr
import HgicFmac.Lib.Mem

/-!
# The firmware header: `fwinfo.c`

* `Firmware` : `struct firmware`, the memory at `fw->data` and the size of the file. The driver reads through
  `fw->data` without a look at the size;
* `hgicCheckFwinfoHdr`, `hgicGetFw*` : the packed header `struct hgic_fw_info_hdr` as the host reads it; every getter
  checks the header first and fails with the error of the check (`fwField`);
* `ErrNe` : a failure with a non-zero code; that of a getter is (`errNe_fwField`), and so is that of a chain of such
  checks (`ErrNe.bind`, `ErrNe.guard`);
* `hgicCrc32`, `hgicGetFwCodeChecksum` : the CRC over the code.
-/

namespace HgicFmac.Fwinfo
open Lib

structure Firmware where
  data : Mem
  size : Nat

/-- A 32-bit value as a signed integer. -/
def toS32 (x : Nat) : Int := if x % 2 ^ 32 < 2 ^ 31 then (x % 2 ^ 32 : Nat) else (x % 2 ^ 32 : Nat) - 2 ^ 32

/-- A difference of two sizes, as a `u32`. -/
def sub32 (a b : Nat) : Nat := (((a : Int) - b) % 2 ^ 32).toNat

def hgicFwinfoBootHdr : Nat := 0x5a69
def hgicFwinfoSpiHdr : Nat := 0x1
def hgicFwinfoCodeHdr : Nat := 0x2

/-- The flags of the boot header, of the firmware information and of the SPI information. -/
def hgicCheckFwinfoHdr (e : Endian) (m : Mem) : Int :=
  if load16 e m 0 ≠ hgicFwinfoBootHdr then einval
  else if (m 106).toNat ≠ hgicFwinfoCodeHdr then einval
  else if (m 32).toNat ≠ hgicFwinfoSpiHdr then einval
  else 0

/-- A getter of a field with the value `x`: the value, or the `err_code` of the check. -/
def fwField (e : Endian) (m : Mem) (x : Nat) : Except Int Nat :=
  let ret := hgicCheckFwinfoHdr e m
  if ret ≠ 0 then .error ret else .ok x

/-- The code of a failure is not 0. -/
def ErrNe {α : Type} (x : Except Int α) : Prop := ∀ ret, x = .error ret → ret ≠ 0

theorem errNe_pure {α : Type} (a : α) : ErrNe (pure a : Except Int α) := by
  intro ret h
  cases h

theorem ErrNe.bind {α β : Type} {x : Except Int α} {f : α → Except Int β} (hx : ErrNe x) (hf : ∀ a, ErrNe (f a)) :
    ErrNe (x >>= f) := by
  intro ret h
  cases x with
  | error err =>
    cases h
    exact hx ret rfl
  | ok a => exact hf a ret h

theorem ErrNe.guard {β : Type} {p : Prop} [Decidable p] {err : Int} {y : Except Int β} (herr : p → err ≠ 0)
    (hy : ErrNe y) : ErrNe (if p then throw err else y) := by
  split
  · next hp =>
    intro ret h
    cases h
    exact herr hp
  · exact hy

theorem errNe_fwField (e : Endian) (m : Mem) (x : Nat) : ErrNe (fwField e m x) := by
  unfold fwField
  exact ErrNe.guard id (errNe_pure x)

/-- The bit `little` or `big` of the second byte of `mode`, where the compiler places the bit field. -/
def modeBit (e : Endian) (m : Mem) (little big : Nat) : Nat :=
  match e with
  | .little => (m 27).toNat / 2 ^ little % 2
  | .big => (m 27).toNat / 2 ^ big % 2

def hgicGetFwAesEn (e : Endian) (m : Mem) : Except Int Nat := fwField e m (modeBit e m 2 5)
def hgicGetFwCrcEn (e : Endian) (m : Mem) : Except Int Nat := fwField e m (modeBit e m 3 4)
def hgicGetFwDlAddr (e : Endian) (m : Mem) : Except Int Nat := fwField e m (load32 e m 4)
def hgicGetFwCodeOffset (e : Endian) (m : Mem) : Except Int Nat := fwField e m (load32 e m 12)
def hgicGetFwLocalCrc32 (e : Endian) (m : Mem) : Except Int Nat := fwField e m (load32 e m 123)
def hgicGetFwSdkVersion (e : Endian) (m : Mem) : Except Int Nat := fwField e m (load32 e m 108)
def hgicGetFwSvnVersion (e : Endian) (m : Mem) : Except Int Nat := fwField e m (load32 e m 112)
def hgicGetFwChipid (e : Endian) (m : Mem) : Except Int Nat := fwField e m (load16 e m 120)
def hgicGetFwCpuid (e : Endian) (m : Mem) : Except Int Nat := fwField e m (m 122).toNat

/-! ## The CRC -/

/-- One pass of the inner loop of a reflected CRC. -/
def crcBit {w : Nat} (poly crc : BitVec w) : BitVec w := if crc.getLsbD 0 then (crc >>> 1) ^^^ poly else crc >>> 1

def crcByte {w : Nat} (poly crc : BitVec w) (b : UInt8) : BitVec w :=
  Nat.repeat (crcBit poly) 8 (crc ^^^ b.toBitVec.setWidth w)

def hgicCrc32 (bs : List UInt8) : BitVec 32 := ~~~ bs.foldl (crcByte 0xEDB88320#32) 0xffffffff#32

/-- `len` and `code_len` are signed; the subtraction of the offset is unsigned. -/
def hgicGetFwCodeChecksum (e : Endian) (m : Mem) (len : Int) : Int :=
  match hgicGetFwLocalCrc32 e m, hgicGetFwCodeOffset e m with
  | .error ret, _ => ret
  | .ok _, .error ret => ret
  | .ok localChksum, .ok codeOffset =>
    let codeLen := toS32 ((len - codeOffset) % 2 ^ 32).toNat
    if codeLen < 0 then einval
    else
      let curCrc := hgicCrc32 (m.read codeOffset codeLen.toNat)
      if curCrc.toNat ≠ localChksum ∧ (~~~curCrc).toNat ≠ localChksum then efault else 0

/-- A file with the code behind a header that has the download address, the offset of the code and its CRC. -/
def imageOf (addr offset crc : Nat) (code : List UInt8) : Firmware where
  data := Mem.ofList (List.flatten [bytes16 .little hgicFwinfoBootHdr, [0, 0], bytes32 .little addr,
    List.replicate 4 0, bytes32 .little offset, List.replicate 16 0, [1], List.replicate 73 0, [2],
    List.replicate 16 0, bytes32 .little crc, List.replicate 4 0, code])
  size := 131 + code.length

end HgicFmac.Fwinfo
