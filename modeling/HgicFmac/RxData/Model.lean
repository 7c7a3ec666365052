import HgicFmac.Core.Frame
import HgicFmac.Lib.Loop

/-!
# The receive path as the code runs it

`hgicf_rx_data` and the two functions it hands data frames to, with the `int` lengths of the source, on hosts of both
byte orders: the header fields are converted in place, where a later header may overlap them.

* `hgicSkipPadding` : `hgic_skip_padding`; `hdrToCpu` : the three conversions of a header;
* `Call` : a call of `hgicf_rx_single_frm` that gets past its test, with the sizes that it computes (`Call.n`,
  `Call.allocSize`, `Call.copySize`, `Call.putSize`);
* `hgicfRxSingleFrm`, `aggPass`, `hgicfRxAggFrm` : the functions of the source, the loop as one pass of `Lib.Pass`;
* `hgicfRxData` : what a received buffer comes to.
-/

namespace HgicFmac.RxData
open Lib HgicFmac.Core

/-- The host: its byte order, and the bits of its `unsigned long` and `size_t`. -/
structure Host where
  endian : Endian
  word : Nat
  word_ge : 32 ≤ word

/-- The fields of `struct net_device` that the receive path reads. Both are `unsigned short`. -/
structure Netdev where
  neededHeadroom : Nat
  neededTailroom : Nat
  headroom_lt : neededHeadroom < 2 ^ 16
  tailroom_lt : neededTailroom < 2 ^ 16

/-- What does not change while a buffer is handled: `hg->vif`, `hg->if_test`, which calls of `dev_alloc_skb` succeed and
what the new skbs hold, and `eth_type_trans` of the kernel, on the Ethernet header at `skb->data` and on the packet. -/
structure Env where
  vif : Option Netdev
  ifTest : Nat
  alloc : Nat → Bool
  room : Nat → Mem
  ethTypeTrans : List UInt8 → List UInt8 → Nat

/-! ## Headers -/

/-- `x = le16_to_cpu(x)` for the 16-bit field at `off`. -/
def swap16 (e : Endian) (m : Mem) (off : Nat) : Mem := m.write off (bytes16 e (le16ToCpu e (load16 e m off)))

/-- The conversions of `magic`, `length` and `cookie` of the header at `off`. -/
def hdrToCpu (e : Endian) (m : Mem) (off : Nat) : Mem := swap16 e (swap16 e (swap16 e m off) (off + 4)) (off + 6)

def hdrType (m : Mem) (off : Nat) : Nat := (m (off + 2)).toNat

/-- `hdr->flags`: the second bit field, in the high half of its byte on a little-endian host. -/
def hdrFlags : Endian → Mem → Nat → Nat
  | .little, m, off => (m (off + 3)).toNat / 16
  | .big, m, off => (m (off + 3)).toNat % 16

/-- `hgic_skip_padding`: up to three bytes 0xFF. -/
def hgicSkipPadding (m : Mem) : Nat :=
  if m 0 ≠ 0xFF then 0 else if m 1 ≠ 0xFF then 1 else if m 2 ≠ 0xFF then 2 else 3

/-- `len > sizeof(struct hgic_frm_hdr2)`: the `int` is converted to `size_t`, where a negative one is huge. -/
def aboveHdr (len : Int) : Prop := len < 0 ∨ (hdrSize : Int) < len

instance (len : Int) : Decidable (aboveHdr len) := inferInstanceAs (Decidable (_ ∨ _))

/-! ## One frame -/

/-- A call of `hgicf_rx_single_frm` past its test: its arguments and the buffer they point into. -/
structure Call where
  mem : Mem
  data : Nat
  len : Int

/-- `len` after `len -= sizeof(struct hgic_frm_hdr2) + hdr->flags`. -/
def Call.n (e : Endian) (c : Call) : Int := c.len - (hdrSize + hdrFlags e c.mem c.data : Nat)

def Call.allocSize (e : Endian) (nd : Netdev) (c : Call) : BitVec 32 :=
  BitVec.ofInt 32 (c.n e + nd.neededHeadroom + nd.neededTailroom)

/-- The size given to `memcpy`, a `size_t`. -/
def Call.copySize (h : Host) (c : Call) : BitVec h.word := BitVec.ofInt h.word (c.n h.endian)

/-- The size given to `skb_put`, an `unsigned int`. -/
def Call.putSize (e : Endian) (c : Call) : BitVec 32 := BitVec.ofInt 32 (c.n e)

def ethHlen : Nat := 14

/-- The Ethernet header at `skb->data`. Behind a shorter packet it goes on with what the skb held. -/
def ethHeader (room : Mem) (packet : List UInt8) : List UInt8 := (room.write 0 packet).read 0 ethHlen

/-- The fields of `struct hgicf_wdev` that receiving a frame changes: `rx_cookie`, the statistics of the interface and
the packets given to `netif_rx` with their protocols, and the calls made so far. -/
structure Dev (w : Nat) where
  rxCookie : Nat
  rxBytes : BitVec w
  rxDropped : BitVec w
  packets : List (List UInt8)
  protocols : List Nat
  calls : List Call

/-- `hgicf_rx_single_frm`. The packet holds the bytes of the copy; one of a negative size has none here, and what it
does to the memory is left open. -/
def hgicfRxSingleFrm (h : Host) (env : Env) (m : Mem) (data : Nat) (len : Int) (d : Dev h.word) : Dev h.word :=
  if env.vif.isSome ∧ aboveHdr len then
    let c : Call := ⟨m, data, len⟩
    let d1 :=
      { d with
        rxCookie := load16 h.endian m (data + 6)
        rxBytes := d.rxBytes + BitVec.ofInt h.word len
        calls := d.calls ++ [c] }
    if env.alloc d.calls.length then
      let packet := m.read (data + hdrSize) (c.n h.endian).toNat
      { d1 with
        packets := d.packets ++ [packet]
        protocols := d.protocols ++ [env.ethTypeTrans (ethHeader (env.room d.calls.length) packet) packet] }
    else { d1 with rxDropped := d.rxDropped + BitVec.ofInt h.word (c.n h.endian) }
  else d

/-! ## Aggregates -/

/-- The loop of `hgicf_rx_agg_frm`: `data` and `len`, the buffer and the device. `touched` lists the sub-headers that
were read and converted and the frames that were passed on, as offset and number of bytes. -/
structure Walk (w : Nat) where
  mem : Mem
  data : Nat
  len : Int
  dev : Dev w
  touched : List (Nat × Nat)

/-- The test on a sub-header in host order: the magic number, the type, and a length of at most `len`. -/
def subHdrOk (e : Endian) (m : Mem) (off : Nat) (len : Int) : Prop :=
  load16 e m off = hgicHdrRxMagic ∧ hdrType m off = HdrType.frm2.byte ∧ (load16 e m (off + 4) : Int) ≤ len

instance (e : Endian) (m : Mem) (off : Nat) (len : Int) : Decidable (subHdrOk e m off len) :=
  inferInstanceAs (Decidable (_ ∧ _ ∧ _))

/-- One pass of the loop. -/
def aggPass (h : Host) (env : Env) (s : Walk h.word) : Pass (Walk h.word) :=
  if aboveHdr s.len then
    let m := hdrToCpu h.endian s.mem s.data
    let length := load16 h.endian m (s.data + 4)
    if subHdrOk h.endian m s.data s.len then
      .again
        { mem := m
          data := s.data + length
          len := s.len - length
          dev := hgicfRxSingleFrm h env m s.data length s.dev
          touched := s.touched ++ [(s.data, hdrSize), (s.data, length)] }
    else .leave { s with mem := m, touched := s.touched ++ [(s.data, hdrSize)] }
  else .leave s

/-- `hgicf_rx_agg_frm` up to its loop. -/
def hgicfRxAggFrm (h : Host) (m : Mem) (data : Nat) (len : Int) (d : Dev h.word) : Walk h.word where
  mem := m
  data := data + hdrSize
  len := len - hdrSize
  dev := { d with rxCookie := load16 h.endian m (data + 6) }
  touched := []

/-! ## A received buffer -/

/-- What `hgicf_rx_data` does with a buffer: it returns an error, hands the frame to one of the two functions (for an
aggregate, the state its loop is entered in), drops it because there is no interface or a test runs, gives it to
`hgic_fwctrl_rx`, counts it as test data, whose check may fail, takes the transmit window from it, or does not know its
type. -/
inductive Received (w : Nat)
  | invalid
  | frame (d : Dev w)
  | aggregate (s : Walk w)
  | dropped
  | control (data : Nat) (len : Int)
  | testData (len : Int) (verifyFail : Bool)
  | window (cookie : Nat)
  | unknown

def controlTypes : List Nat :=
  [HdrType.cmd.byte, HdrType.cmd2.byte, HdrType.event.byte, HdrType.event2.byte, HdrType.ota.byte, HdrType.bootdl.byte]

/-- "data verify fail": with `if_test` 3, the 1492 bytes behind the header are compared with 0xAA. -/
def verifyFails (env : Env) (m : Mem) (data : Nat) : Bool :=
  env.ifTest == 3 && (List.range' hdrSize (1500 - hdrSize)).any fun i => m (data + i) != 0xAA

def hgicfRxData (h : Host) (env : Env) (m : Mem) (len : Int) (d : Dev h.word) : Received h.word :=
  let data := hgicSkipPadding m
  let m := hdrToCpu h.endian m data
  let type := hdrType m data
  let length : Int := load16 h.endian m (data + 4)
  let rest := len - data
  if load16 h.endian m data ≠ hgicHdrRxMagic then .invalid
  else if rest < length ∧ type ≠ HdrType.bootdl.byte then .invalid
  else
    let n := if rest < length then rest else length
    if type = HdrType.frm2.byte ∨ type = HdrType.aggfrm.byte then
      if env.vif.isNone ∨ env.ifTest ≠ 0 then .dropped
      else if type = HdrType.aggfrm.byte then .aggregate (hgicfRxAggFrm h m data n d)
      else .frame (hgicfRxSingleFrm h env m data n d)
    else if type ∈ controlTypes then .control data n
    else if type = HdrType.test2.byte then .testData n (verifyFails env m data)
    else if type = HdrType.softfc.byte then .window (load16 h.endian m (data + 6))
    else .unknown

/-! ## A host, an interface and a device to try the functions on -/

/-- A little-endian host with words of 64 bits. -/
def host64 : Host := ⟨.little, 64, by decide⟩

/-- The protocol that the header names; a number below 0x600 is a length of 802.3, whose two kinds the first bytes
behind the header tell apart. -/
def etherType (header packet : List UInt8) : Nat :=
  let proto := load16 .big (Mem.ofList header) 12
  let rest := if packet.length < ethHlen then packet else packet.drop ethHlen
  if 0x600 ≤ proto then proto else if rest.take 2 = [0xFF, 0xFF] then 1 else 4

/-- An interface that is up, on a machine where every allocation succeeds. -/
def calmEnv : Env := ⟨some ⟨28, 0, by decide, by decide⟩, 0, fun _ => true, fun _ _ => 0, etherType⟩

def freshDev (w : Nat) : Dev w := ⟨0, 0, 0, [], [], []⟩

end HgicFmac.RxData
