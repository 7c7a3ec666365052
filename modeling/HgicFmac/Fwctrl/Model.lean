import HgicFmac.Hdr
import HgicFmac.Lib.Run
import Mathlib.Logic.Function.Basic

/-!
# The firmware control channel: senders, device and `hgic_fwctrl_work`

The state is `struct hgic_fwctrl` (with `last_cookie` of `struct hgic_bootdl`), the stack frame of every
call that goes through `hgic_fwctrl_send_data`, and the device behind the bus. A step is one access to
the shared state: a critical section of `ctrl->lock`, one operation on a queue, one read or write of a
shared field. A thread that makes several calls owns one call after the other.

* `Sender` : the four functions that build a packet and call `hgic_fwctrl_send_data`;
* `Call`, `Pc` : a call and the instruction it is at;
* `Ctrl` : the whole state. `answered`, `dropped`, `freed`, `handled`, `drawn` are history that no
  instruction reads;
* `start`, `callStep`, `txCtrl`, `answer`, `fwctrlRx`, `fwctrlDeq`, `fwctrlDispatch` : the steps;
* `step` : the transition function over `Act`.
-/

namespace HgicFmac.Fwctrl

/-- The commands of the boot loader that the driver issues. -/
inductive BootCmd
  | enter | writeMem | run
  deriving DecidableEq, Repr

/-- Who builds the packet: `hgic_fwctrl_send_cmd`, `hgic_bootdl_send_cmd`, `hgic_bootdl_send_data`,
`hgic_ota_send_packet_tmo`. -/
inductive Sender
  | cmd
  | bootCmd (c : BootCmd)
  | bootData
  | ota
  deriving DecidableEq, Repr

/-- A packet of `ctrl->txq`. `call` is the call that built it. -/
structure TxSkb where
  call : Nat
  sender : Sender
  /-- `hdr.cookie`; a raw data packet has a zeroed header, which is pulled before the transfer. -/
  cookie : Nat
  deriving DecidableEq, Repr

/-- A received control packet. `id` names the skb; `src` is the call whose packet the device answers, if any. -/
structure RxSkb where
  id : Nat
  src : Option Nat
  type : HdrType
  cookie : Nat
  /-- The status the device reports (0 in the response). -/
  ok : Bool
  deriving DecidableEq, Repr

inductive Pc
  | idle
  | built
  /-- Before `list_add(&resp->list, &ctrl->pd_list)`. -/
  | toAdd
  /-- Before the test `ctrl->txq.qlen > 4`. -/
  | toCheck
  /-- The queue was full: before `kfree_skb(skb_dequeue(&ctrl->txq))`. -/
  | toDrop
  /-- Before `skb_queue_tail(&ctrl->txq, skb)`. -/
  | toQueue
  | waiting
  /-- Before `list_del(&resp->list)`. -/
  | woken
  /-- Before `return resp->skb`. -/
  | toReturn
  | returned
  deriving DecidableEq, Repr

/-- The stack frame of a call: `struct hgic_cmd_response resp` and the returned pointer. -/
structure Call where
  sender : Sender := .cmd
  pc : Pc := .idle
  cookie : Nat := 0
  cmpl : Nat := 0
  skb : Option RxSkb := none
  /-- What `hgic_fwctrl_send_data` returned. -/
  out : Option RxSkb := none
  deriving DecidableEq, Repr

def Call.goto (c : Call) (pc : Pc) : Call := { c with pc := pc }

/-- A packet the device has received and not answered, with the cookie it answers with. -/
structure DevSkb where
  skb : TxSkb
  cookie : Nat
  deriving DecidableEq, Repr

/-- `struct hgic_fwctrl`, the calls and the device. -/
structure Ctrl where
  cookie : Nat
  pdList : List Nat
  txq : List TxSkb
  rxq : List RxSkb
  /-- The skb `hgic_fwctrl_work` has dequeued and not dispatched. -/
  cur : Option RxSkb
  /-- `last_cookie` of `struct hgic_bootdl`. -/
  lastCookie : Nat
  call : Nat → Call
  calls : Nat
  dev : List DevSkb
  /-- The cookie of the last WRITE_MEM command the device received. -/
  devLast : Nat
  nextRx : Nat
  answered : List Nat
  /-- Calls whose packet left `txq` without reaching the device. -/
  dropped : List Nat
  freed : List Nat
  handled : List Nat
  drawn : Nat

/-- After `hgic_fwctrl_init` and `hgic_bootdl_init`. -/
def hgicFwctrlInit : Ctrl where
  cookie := 0
  pdList := []
  txq := []
  rxq := []
  cur := none
  lastCookie := 0
  call := fun _ => {}
  calls := 0
  dev := []
  devLast := 0
  nextRx := 0
  answered := []
  dropped := []
  freed := []
  handled := []
  drawn := 0

def Ctrl.setCall (s : Ctrl) (i : Nat) (c : Call) : Ctrl := { s with call := Function.update s.call i c }

/-- `hgic_ctrl_cookie`: post-increment of a `u16`, then the mask. -/
def hgicCtrlCookie (s : Ctrl) : Nat × Ctrl :=
  (s.cookie, { s with cookie := (s.cookie + 1) % 2 ^ 16 &&& hgicTxCookieMask, drawn := s.drawn + 1 })

/-- The first access of a new call: the senders of commands draw a cookie, `hgic_bootdl_send_data` reads
`last_cookie`. `hgic_ota_send_packet_tmo` draws a cookie into `resp` and then clears `resp`. -/
def start (s : Ctrl) (k : Sender) : Ctrl :=
  let (cookie, t) : Nat × Ctrl := match k with
    | .cmd | .bootCmd _ => hgicCtrlCookie s
    | .bootData => (s.lastCookie, s)
    | .ota => (0, (hgicCtrlCookie s).2)
  { t.setCall s.calls { sender := k, pc := .built, cookie := cookie } with calls := s.calls + 1 }

/-- The packet of call `i`: the header carries `resp.cookie`, except that the header of a raw data packet
is cleared. -/
def Ctrl.packet (s : Ctrl) (i : Nat) : TxSkb where
  call := i
  sender := (s.call i).sender
  cookie := if (s.call i).sender = .bootData then 0 else (s.call i).cookie

/-- The next instruction of call `i`, in `hgic_bootdl_send_cmd` up to the store of `last_cookie` and then
in `hgic_fwctrl_send_data`. A waiting call continues when its completion is done. -/
def callStep (s : Ctrl) (i : Nat) : Option Ctrl :=
  let c := s.call i
  match c.pc with
  | .idle | .returned => none
  | .built =>
    match c.sender with
    | .bootCmd _ => some ({ s with lastCookie := c.cookie }.setCall i (c.goto .toAdd))
    | _ => some (s.setCall i (c.goto .toAdd))
  | .toAdd => some ({ s with pdList := i :: s.pdList }.setCall i { c.goto .toCheck with cmpl := 0 })
  | .toCheck => some (s.setCall i (c.goto (if 4 < s.txq.length then .toDrop else .toQueue)))
  | .toDrop =>
    some ({ s with txq := s.txq.tail, dropped := (s.txq.head?.map TxSkb.call).toList ++ s.dropped }.setCall i
      (c.goto .toQueue))
  | .toQueue => some ({ s with txq := s.txq ++ [s.packet i] }.setCall i (c.goto .waiting))
  | .waiting => if 0 < c.cmpl then some (s.setCall i { c.goto .woken with cmpl := c.cmpl - 1 }) else none
  | .woken => some ({ s with pdList := s.pdList.erase i }.setCall i (c.goto .toReturn))
  | .toReturn => some (s.setCall i { c.goto .returned with out := c.skb })

/-- The wait of call `i` times out. -/
def timeout (s : Ctrl) (i : Nat) : Option Ctrl :=
  if (s.call i).pc = .waiting then some (s.setCall i ((s.call i).goto .woken)) else none

/-- `hgicf_tx_ctrl_frm` takes the oldest packet of `txq`. It reaches the device, or it is freed: by
`hgic_clear_queue`, while the device is in boot, or after a failed transfer. -/
def txCtrl (s : Ctrl) (sent : Bool) : Option Ctrl :=
  match s.txq with
  | [] => none
  | p :: txq =>
    if sent then
      some { s with
        txq := txq
        dev := s.dev ++ [⟨p, if p.sender = .bootData then s.devLast else p.cookie⟩]
        devLast := if p.sender = .bootCmd .writeMem then p.cookie else s.devLast }
    else some { s with txq := txq, dropped := p.call :: s.dropped }

/-- `hgic_fwctrl_rx`: the packet is copied and queued, unless the allocation fails. -/
def fwctrlRx (s : Ctrl) (src : Option Nat) (type : HdrType) (cookie : Nat) (ok alloc : Bool) : Ctrl :=
  if alloc then { s with rxq := s.rxq ++ [⟨s.nextRx, src, type, cookie, ok⟩], nextRx := s.nextRx + 1 } else s

/-- The device answers its `k`-th unanswered packet, once. -/
def answer (s : Ctrl) (k : Nat) (type : HdrType) (ok alloc : Bool) : Option Ctrl :=
  match s.dev[k]? with
  | none => none
  | some d =>
    some (fwctrlRx { s with dev := s.dev.eraseIdx k, answered := d.skb.call :: s.answered }
      (some d.skb.call) type d.cookie ok alloc)

def fwctrlDeq (s : Ctrl) : Option Ctrl :=
  match s.cur, s.rxq with
  | none, r :: rxq => some { s with rxq := rxq, cur := some r }
  | _, _ => none

/-- The pending entry `hgic_fwctrl_rx_response` finds: the first one with the cookie. -/
def Ctrl.find (s : Ctrl) (cookie : Nat) : Option Nat := s.pdList.find? fun i => (s.call i).cookie = cookie

/-- The types that `hgic_fwctrl_work` gives to `hgic_fwctrl_rx_response`. -/
def isResponse : HdrType → Bool
  | .cmd | .cmd2 | .bootdl | .ota => true
  | _ => false

def hgicFwctrlRxResponse (s : Ctrl) (r : RxSkb) : Ctrl :=
  match s.find r.cookie with
  | some i =>
    { s with handled := r.id :: s.handled }.setCall i
      { s.call i with skb := some r, cmpl := (s.call i).cmpl + 1 }
  | none => { s with handled := r.id :: s.handled, freed := r.id :: s.freed }

/-- The switch of `hgic_fwctrl_work` on the dequeued packet: events and unknown types leave the channel. -/
def fwctrlDispatch (s : Ctrl) : Option Ctrl :=
  match s.cur with
  | none => none
  | some r =>
    let s := { s with cur := none }
    some (if isResponse r.type then hgicFwctrlRxResponse s r else s)

inductive Act
  | start (k : Sender)
  | call (i : Nat)
  | timeout (i : Nat)
  | tx (sent : Bool)
  | answer (k : Nat) (type : HdrType) (ok alloc : Bool)
  | inject (type : HdrType) (cookie : Nat) (ok alloc : Bool)
  | deq
  | dispatch
  deriving DecidableEq, Repr

/-- Call `i` executes its next `n` instructions. -/
def runCall (i n : Nat) : List Act := List.replicate n (.call i)

def step (s : Ctrl) : Act → Option Ctrl
  | .start k => some (start s k)
  | .call i => callStep s i
  | .timeout i => timeout s i
  | .tx sent => txCtrl s sent
  | .answer k type ok alloc => answer s k type ok alloc
  | .inject type cookie ok alloc => some (fwctrlRx s none type cookie ok alloc)
  | .deq => fwctrlDeq s
  | .dispatch => fwctrlDispatch s

end HgicFmac.Fwctrl
