import Mathlib.Algebra.GroupWithZero.Nat
import Mathlib.Data.List.Basic

/-!
# The packet header and the constants of `hgic.h` and `hgic_def.h`

* `HdrType` : `enum hgic_hdr_type`, with the byte on the wire (`HdrType.byte`);
* `hgicHdrTxMagic`, `hgicHdrRxMagic`, `hgicTxCookieMask` : the constants of `hgic_def.h`;
* `enomem`, `efault`, `enodev`, `einval` : the negative error numbers that the driver returns.
-/

namespace HgicFmac

inductive HdrType
  | ack | frm | cmd | event | firmware | nlmsg | bootdl | test | frm2 | test2 | softfc | ota | cmd2 | event2
  | bootdlData | ifbr | beacon | aggfrm | bluetooth
  deriving DecidableEq, Repr

def HdrType.byte : HdrType → Nat
  | .ack => 1
  | .frm => 2
  | .cmd => 3
  | .event => 4
  | .firmware => 5
  | .nlmsg => 6
  | .bootdl => 7
  | .test => 8
  | .frm2 => 9
  | .test2 => 10
  | .softfc => 11
  | .ota => 12
  | .cmd2 => 13
  | .event2 => 14
  | .bootdlData => 15
  | .ifbr => 16
  | .beacon => 17
  | .aggfrm => 18
  | .bluetooth => 19

def hgicHdrTxMagic : Nat := 0x1A2B

def hgicHdrRxMagic : Nat := 0x2B1A

def hgicTxCookieMask : Nat := 0x7FFF

/-- The error numbers, negated as they are returned. -/
def enomem : Int := -12
def efault : Int := -14
def enodev : Int := -19
def einval : Int := -22

end HgicFmac
