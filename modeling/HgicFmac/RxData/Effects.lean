import HgicFmac.RxData.Bounds
import HgicFmac.Lib.Determined

/-!
# The effects of a received buffer

What `hgicf_rx_data` leaves behind, and what `hgic_fwctrl_work` later does with a control packet, on a buffer whose
received bytes are followed by other memory. Messages to the kernel log are left out.

* `hgicFwctrlRx`, `hgicFwctrlWork`, `hgicFwctrlRxResponse` : a control packet is copied to an skb with contents of its
  own, and dispatched by its type and cookie;
* `Effect`, `Dev.seen` : the packets with the bytes copied for them, their Ethernet headers and protocols, the queued
  control packet and its dispatch for any list of pending requests, and the fields of the device;
* `Arrival`, `effects` : the received bytes, the memory behind them and the memory of the new skbs.
-/

namespace HgicFmac.RxData
open Lib HgicFmac.Core

/-! ## Control packets -/

/-- A control packet in `ctrl->rxq`: the memory at `skb->data`, and `skb->len`. -/
structure CtrlSkb where
  mem : Mem
  len : Nat

/-- `hgic_fwctrl_rx` with a new skb that holds `room`. -/
def hgicFwctrlRx (h : Host) (m : Mem) (data : Nat) (len : Int) (room : Mem) : CtrlSkb where
  mem := room.write 0 (m.read data (BitVec.ofInt h.word len).toNat)
  len := (BitVec.ofInt 32 len).toNat

/-- The way of a control packet: to the request of `pd_list` with its cookie, freed because there is none, to
`rx_event`, or freed because of its type. -/
inductive Dispatch
  | response (k : Nat)
  | unclaimed
  | event
  | freed
  deriving DecidableEq, Repr

/-- The cookie of a request. `hgic_ctrl_cookie` masks its counter. -/
abbrev PdCookie := Fin (hgicTxCookieMask + 1)

/-- `hgic_fwctrl_rx_response`: `pdList` are the cookies of the pending requests. -/
def hgicFwctrlRxResponse (e : Endian) (skb : Mem) (pdList : List PdCookie) : Dispatch :=
  match pdList.findIdx? (fun c => c.val == load16 e skb 6) with
  | some k => .response k
  | none => .unclaimed

def responseTypes : List Nat := [HdrType.cmd.byte, HdrType.cmd2.byte, HdrType.bootdl.byte, HdrType.ota.byte]

def eventTypes : List Nat := [HdrType.event.byte, HdrType.event2.byte]

def hgicFwctrlWork (e : Endian) (skb : Mem) (pdList : List PdCookie) : Dispatch :=
  if hdrType skb 0 ∈ responseTypes then hgicFwctrlRxResponse e skb pdList
  else if hdrType skb 0 ∈ eventTypes then .event
  else .freed

/-! ## Effects -/

/-- What calls of `hgicf_rx_single_frm` change: for every call the bytes of its skb and the Ethernet header there, if it
gets one, and the protocols. A copy of a negative size takes the huge number that it is as a `size_t`. -/
structure Seen (w : Nat) where
  rxCookie : Nat
  rxBytes : BitVec w
  rxDropped : BitVec w
  protocols : List Nat
  skbs : List (Option (List UInt8 × List UInt8))

def Call.copied (h : Host) (c : Call) : List UInt8 := c.mem.read (c.data + hdrSize) (c.copySize h).toNat

def Call.skb (h : Host) (room : Mem) (c : Call) : List UInt8 × List UInt8 := (c.copied h, ethHeader room (c.copied h))

def skbsOf (h : Host) (env : Env) (calls : List Call) : List (Option (List UInt8 × List UInt8)) :=
  calls.mapIdx fun k c => if env.alloc k then some (c.skb h (env.room k)) else none

def Dev.seen (h : Host) (env : Env) (d : Dev h.word) : Seen h.word where
  rxCookie := d.rxCookie
  rxBytes := d.rxBytes
  rxDropped := d.rxDropped
  protocols := d.protocols
  skbs := skbsOf h env d.calls

/-- What a buffer comes to: `hgicf_rx_data` returns -1; it hands frames on (what is seen after any number of passes);
it only takes the time of the arrival; it queues a control packet, with its bytes and its dispatch for any `pd_list`, or
fails to; it counts test data, sets the window, or does nothing. -/
inductive Effect (w : Nat)
  | invalid
  | frames (seen : Nat → Seen w)
  | dropped
  | control (queued : Option (List UInt8 × (List PdCookie → Dispatch)))
  | testData (len : Int)
  | window (cookie : Nat)
  | unknown

/-- A buffer handed to `hgicf_rx_data`: the received bytes, the memory behind them, and the contents of the skb that
`hgic_fwctrl_rx` would get and of those for frames. The length is an `int`. -/
structure Arrival where
  bytes : List UInt8
  tail : Mem
  room : Mem
  rooms : Nat → Mem
  len_lt : bytes.length < 2 ^ 31

/-- The memory at `data`. -/
def Arrival.mem (x : Arrival) : Mem := x.tail.write 0 x.bytes

/-- The same received bytes. -/
def Arrival.Same (x y : Arrival) : Prop := x.bytes = y.bytes

/-- With other contents of the new skbs. -/
def Env.withRooms (env : Env) (rooms : Nat → Mem) : Env := { env with room := rooms }

/-- The skbs of `n` calls, and then new ones with these contents. -/
def Env.roomsAfter (env : Env) (n : Nat) (rooms : Nat → Mem) : Nat → Mem :=
  fun k => if k < n then env.room k else rooms (k - n)

abbrev Arrival.env (env : Env) {w : Nat} (d : Dev w) (x : Arrival) : Env :=
  env.withRooms (env.roomsAfter d.calls.length x.rooms)

def received (h : Host) (env : Env) (d : Dev h.word) (x : Arrival) : Received h.word :=
  hgicfRxData h (x.env env d) x.mem x.bytes.length d

/-- The effects of a buffer. `queues` : `ctrl->wq` is there and `hgic_fwctrl_rx` gets its skb. -/
def effects (h : Host) (env : Env) (queues : Bool) (d : Dev h.word) (x : Arrival) : Effect h.word :=
  match received h env d x with
  | .invalid => .invalid
  | .frame d' => .frames fun _ => d'.seen h (x.env env d)
  | .aggregate s => .frames fun n =>
    (passes (aggPass h (x.env env d)) n s).state.dev.seen h (x.env env d)
  | .dropped => .dropped
  | .control data len =>
    .control <| if queues then
      let skb := hgicFwctrlRx h (hdrToCpu h.endian x.mem data) data len x.room
      some (skb.mem.read 0 skb.len, hgicFwctrlWork h.endian skb.mem)
    else none
  | .testData len _ => .testData len
  | .window cookie => .window cookie
  | .unknown => .unknown

end HgicFmac.RxData
