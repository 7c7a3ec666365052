import HgicFmac.Core.Transparent
import HgicFmac.Lib.Determined

/-!
# The bytes that go over the bus

What `hgic_sdio_tx_packet` and `hgic_usb_tx_packet` transfer for an skb, with the memory that is not part of the packet:
the room behind the data, a bounce buffer, the buffer of an aggregate, the two bytes in front of a frame that the cookie
will overwrite.

* `Bus`, `txLen` : the bus and the length of a transfer; `Bus.Exact` : the lengths that are not rounded up;
* `txPacket` : the transferred bytes, from `skb->data` or from a bounce buffer;
* `Handover`, `busBytes` : a call of `bus->tx_packet`, for an skb that is ready, for a frame of the network stack or for
  an aggregate of `tx_dataq`; `Handover.Same` : the same packets at the same alignment.
-/

namespace HgicFmac.BusBytes
open Lib HgicFmac.Core

def sdioBlockSize : Nat := 64

/-- The bus driver. For USB, `ep_out_size` when the driver is built with `CONFIG_USB_ZERO_PACKET`. -/
inductive Bus
  | sdio
  | usb (zeroPacket : Option Nat)
  deriving DecidableEq, Repr

def alignBlock (x : Nat) : Nat := (x + (sdioBlockSize - 1)) / sdioBlockSize * sdioBlockSize

/-- `IS_ALIGNED(x, a)` in 32 bits. -/
def isAligned (x a : Nat) : Prop := x &&& ((a + (2 ^ 32 - 1)) % 2 ^ 32) = 0

instance (x a : Nat) : Decidable (isAligned x a) := inferInstanceAs (Decidable (_ = _))

/-- `len`: the number of bytes that are transferred for `skb->len`. -/
def txLen : Bus → Nat → Nat
  | .sdio, n => if sdioBlockSize < n then alignBlock n else align4 n
  | .usb none, n => align4 n
  | .usb (some epOutSize), n => if isAligned (align4 n) epOutSize then align4 n + 4 else align4 n

/-- The transfer for an skb with the bytes `data`: `tail` is the memory from `skb->data` on as it is behind the data,
`bounce` the new buffer that an unaligned packet is copied to. -/
def txPacket (bus : Bus) (aligned : Bool) (data : List UInt8) (tail bounce : Mem) : List UInt8 :=
  let txbuff := if aligned then tail.write 0 data else bounce.write 0 data
  txbuff.read 0 (txLen bus data.length)

/-- The host: its byte order, `if_agg` and `vif->fwifidx`. -/
structure Cfg where
  bus : Bus
  e : Endian
  ifAgg : Nat
  fwifidx : Nat

/-- A call of `bus->tx_packet` that comes to a transfer. -/
inductive Handover
  /-- An skb that is ready: a control packet. -/
  | ready (aligned : Bool) (data : List UInt8) (tail bounce : Mem)
  /-- `hgicf_tx_single_frm` for a packet of the network stack. -/
  | single (aligned : Bool) (p : Pkt) (cookie : Nat) (tail bounce : Mem)
  /-- `hgicf_tx_agg_frm` for the packets of the queue, in a new buffer with the contents `buf`. -/
  | aggregate (aligned : Bool) (ps : List Pkt) (cookie : Nat) (buf bounce : Mem)

def singleBytes (cfg : Cfg) (p : Pkt) (cookie : Nat) : List UInt8 :=
  (singleSub cfg.e (xmitFrm cfg.e cfg.fwifidx p) cookie).hdr.bytes cfg.e ++ p.payload

/-- The frames that `hgicf_netif_xmit` queued. -/
def frames (cfg : Cfg) (ps : List Pkt) : List Core.Frm := ps.map (xmitFrm cfg.e cfg.fwifidx)

/-- The bytes on the bus. An aggregate that is only a header is not sent. -/
def busBytes (cfg : Cfg) : Handover → List UInt8
  | .ready aligned data tail bounce => txPacket cfg.bus aligned data tail bounce
  | .single aligned p cookie tail bounce => txPacket cfg.bus aligned (singleBytes cfg p cookie) tail bounce
  | .aggregate aligned ps cookie buf bounce =>
    let a := (hgicfTxAggFrm cfg.e cfg.ifAgg buf cookie (frames cfg ps)).1
    if hdrSize < a.length cfg.e then txPacket cfg.bus aligned (a.mem.read 0 (a.length cfg.e)) a.mem bounce else []

/-- The same packet of the network stack: equal bytes, with any memory around them. -/
def SamePkt (p q : Pkt) : Prop := p.payload = q.payload

/-- The same packets at the same alignment, with any contents of all other memory. -/
inductive Handover.Same : Handover → Handover → Prop
  | ready (aligned : Bool) (data : List UInt8) (tail bounce tail' bounce' : Mem) :
      Same (.ready aligned data tail bounce) (.ready aligned data tail' bounce')
  | single (aligned : Bool) (p q : Pkt) (cookie : Nat) (tail bounce tail' bounce' : Mem) (h : SamePkt p q) :
      Same (.single aligned p cookie tail bounce) (.single aligned q cookie tail' bounce')
  | aggregate (aligned : Bool) (ps qs : List Pkt) (cookie : Nat) (buf bounce buf' bounce' : Mem)
      (h : List.Forall₂ SamePkt ps qs) :
      Same (.aggregate aligned ps cookie buf bounce) (.aggregate aligned qs cookie buf' bounce')

theorem Handover.Same.refl (x : Handover) : x.Same x := by
  cases x with
  | ready => exact .ready ..
  | single aligned p => exact .single _ p p _ _ _ _ _ rfl
  | aggregate aligned ps =>
    apply Handover.Same.aggregate
    induction ps with
    | nil => exact .nil
    | cons p ps ih => exact .cons rfl ih

/-! ## Lengths that are not rounded up -/

/-- A transfer of `n` bytes for a packet of `n` bytes. -/
def Bus.Exact : Bus → Nat → Prop
  | .sdio, n => sdioBlockSize ∣ n ∨ n ≤ sdioBlockSize ∧ 4 ∣ n
  | .usb none, n => 4 ∣ n
  | .usb (some epOutSize), n => 4 ∣ n ∧ ¬ isAligned n epOutSize

instance (bus : Bus) (n : Nat) : Decidable (bus.Exact n) :=
  match bus with
  | .sdio => inferInstanceAs (Decidable (_ ∨ _ ∧ _))
  | .usb none => inferInstanceAs (Decidable (_ ∣ _))
  | .usb (some _) => inferInstanceAs (Decidable (_ ∧ ¬ _))

theorem le_txLen (bus : Bus) (n : Nat) : n ≤ txLen bus n := by
  have h4 := le_align4 n
  match bus with
  | .sdio =>
    simp only [txLen]
    split
    · simp only [alignBlock, sdioBlockSize]
      omega
    · exact h4
  | .usb none => exact h4
  | .usb (some _) =>
    simp only [txLen]
    split
    · omega
    · exact h4

theorem txLen_eq_iff (bus : Bus) (n : Nat) : txLen bus n = n ↔ bus.Exact n := by
  have h4 := align4_eq_iff n
  match bus with
  | .sdio =>
    simp only [txLen, Bus.Exact]
    split
    · simp only [alignBlock, sdioBlockSize] at *
      omega
    · simp only [sdioBlockSize] at *
      omega
  | .usb none => exact h4
  | .usb (some epOutSize) =>
    have hle := le_align4 n
    simp only [txLen, Bus.Exact]
    split
    · next hal =>
      constructor
      · intro h
        omega
      · rintro ⟨hn, hno⟩
        rw [h4.mpr hn] at hal
        exact absurd hal hno
    · next hal =>
      constructor
      · intro h
        rw [h] at hal
        exact ⟨h4.mp h, hal⟩
      · rintro ⟨hn, -⟩
        exact h4.mpr hn

end HgicFmac.BusBytes
