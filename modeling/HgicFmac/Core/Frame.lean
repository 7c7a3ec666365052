import HgicFmac.Hdr
import HgicFmac.Lib.Mem

/-!
# Data frames and aggregates

* `Hdr` : `struct hgic_hdr`, its 16-bit fields as the host reads them; `Hdr.bytes` : its 8 bytes;
* `Frm` : an skb of `tx_dataq`, as `hgicf_netif_xmit` builds it (`xmitFrm`);
* `Agg` : the buffer of `hgicf_tx_agg_frm`. Its length field lives in the buffer, where `memcpy` could reach it;
  `aggInit`, `aggFits`, `aggAdd` are the header, the test and one pass of the copy loop;
* `hgicIsEnterSleep` : `hgic_is_enter_sleep` on the bytes of a control packet.
-/

namespace HgicFmac.Core
open Lib

def align4 (x : Nat) : Nat := (x + 3) / 4 * 4

structure Hdr where
  magic : Nat
  type : Nat
  ifidx : Nat
  flags : Nat
  length : Nat
  cookie : Nat
  deriving DecidableEq, Repr

/-- The bit fields `ifidx: 4, flags: 4` share a byte; the first one is the low half on a little-endian host. -/
def nibbles : Endian → Nat → Nat → UInt8
  | .little, ifidx, flags => UInt8.ofNat (ifidx % 16 + 16 * (flags % 16))
  | .big, ifidx, flags => UInt8.ofNat (16 * (ifidx % 16) + flags % 16)

def Hdr.bytes (e : Endian) (h : Hdr) : List UInt8 :=
  List.flatten [bytes16 e h.magic, [UInt8.ofNat h.type, nibbles e h.ifidx h.flags], bytes16 e h.length,
    bytes16 e h.cookie]

@[simp] theorem length_bytes (e : Endian) (h : Hdr) : (h.bytes e).length = 8 := by
  cases e <;> rfl

/-- `sizeof(struct hgic_hdr)`, also `sizeof(struct hgic_frm_hdr2)`. -/
def hdrSize : Nat := 8

/-- A data skb: `skb->data` holds the header and `payload`; `tail` is the memory behind it. -/
structure Frm where
  hdr : Hdr
  payload : List UInt8
  tail : List UInt8
  deriving DecidableEq, Repr

/-- The memory at `skb->data`. -/
def Frm.mem (e : Endian) (f : Frm) : Mem := Mem.ofList (List.flatten [f.hdr.bytes e, f.payload, f.tail])

def Frm.len (f : Frm) : Nat := hdrSize + f.payload.length

/-- A frame of the network stack: its data, the two bytes of the headroom that the cookie will lie on, and the memory
behind the data. `ether_setup` bounds the MTU, so the 16-bit length field can hold the length with the header. -/
structure Pkt where
  payload : List UInt8
  headroom : Nat
  tail : List UInt8
  len_lt : hdrSize + payload.length < 2 ^ 16

/-- What `hgicf_netif_xmit` queues for `p`. The cookie is not written. -/
def xmitFrm (e : Endian) (fwifidx : Nat) (p : Pkt) : Frm where
  hdr :=
    { magic := cpuToLe16 e hgicHdrTxMagic
      type := HdrType.frm2.byte
      ifidx := fwifidx
      flags := 0
      length := cpuToLe16 e (hdrSize + p.payload.length)
      cookie := p.headroom }
  payload := p.payload
  tail := p.tail

/-- A frame on its way to the bus: the queued skb and the header it is sent with. -/
structure Sub where
  frm : Frm
  hdr : Hdr
  deriving DecidableEq, Repr

def Sub.skb (x : Sub) : Frm := { x.frm with hdr := x.hdr }

/-- The header of `hgicf_tx_single_frm`: only the cookie is written. -/
def singleSub (e : Endian) (f : Frm) (cookie : Nat) : Sub := ⟨f, { f.hdr with cookie := cpuToLe16 e cookie }⟩

/-- The buffer of an aggregate; `subs` are the frames copied into it. -/
structure Agg where
  mem : Mem
  subs : List Sub

def Agg.length (e : Endian) (a : Agg) : Nat := load16 e a.mem 4

def Agg.cookie (e : Endian) (a : Agg) : Nat := load16 e a.mem 6

/-- The header of a new aggregate in a buffer with the contents `m`. -/
def aggInit (e : Endian) (m : Mem) (cookie : Nat) : Agg where
  mem := m.write 0 (Hdr.bytes e
    { magic := cpuToLe16 e hgicHdrTxMagic
      type := HdrType.aggfrm.byte
      ifidx := 0
      flags := 0
      length := hdrSize
      cookie := cpuToLe16 e cookie })
  subs := []

/-- Not `agghdr->length + ALIGN(cpylen, 4) > if_agg`. -/
def aggFits (e : Endian) (ifAgg : Nat) (a : Agg) (f : Frm) : Bool := a.length e + align4 f.hdr.length ≤ ifAgg

/-- The header that a sub-frame is copied with. -/
def subHdr (e : Endian) (f : Frm) (cookie : Nat) : Hdr :=
  { f.hdr with length := align4 f.hdr.length % 2 ^ 16, cookie := cpuToLe16 e cookie }

/-- One pass of the copy loop: `cpylen` bytes to the end of the aggregate, whose length field then grows by
the aligned length. -/
def aggAdd (e : Endian) (a : Agg) (f : Frm) (cookie : Nat) : Agg :=
  let x : Sub := ⟨f, subHdr e f cookie⟩
  let m := a.mem.write (a.length e) ((x.skb.mem e).read 0 f.hdr.length)
  { mem := m.write 4 (bytes16 e ((load16 e m 4 + x.hdr.length) % 2 ^ 16))
    subs := a.subs ++ [x] }

/-- A control packet: `skb->data` and the memory behind it. -/
structure Skb where
  data : List UInt8
  tail : List UInt8
  deriving DecidableEq, Repr

def Skb.mem (p : Skb) : Mem := Mem.ofList (p.data ++ p.tail)

def Skb.type (p : Skb) : Nat := (p.mem 2).toNat

/-- `skb_pull`: nothing happens when the packet is shorter. -/
def Skb.pull (p : Skb) (n : Nat) : Skb := if n ≤ p.data.length then { p with data := p.data.drop n } else p

def hdrCmdid (p : Skb) : Nat := if p.type = HdrType.cmd2.byte then loadLe16 p.mem 8 else (p.mem 8).toNat

def hgicCmdEnterSleep : Nat := 46

/-- `hgic_is_enter_sleep`: the sleep argument behind the 12 bytes of `struct hgic_ctrl_hdr`. -/
def hgicIsEnterSleep (p : Skb) : Nat :=
  if (loadLe16 p.mem 0 = hgicHdrTxMagic ∨ loadLe16 p.mem 0 = hgicHdrRxMagic) ∧
      (p.type = HdrType.cmd.byte ∨ p.type = HdrType.cmd2.byte) ∧ hdrCmdid p = hgicCmdEnterSleep then
    loadLe16 p.mem 12
  else 0

end HgicFmac.Core
