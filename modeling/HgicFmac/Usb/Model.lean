import HgicFmac.Lib.Run
import Mathlib.Logic.Function.Basic

/-!
# The buffers of the USB bus driver

`hgic_usb_tx_packet` calls, completions of URBs and resubmissions run concurrently. Each of them is a context (`Ctx`)
at its next access to the shared state; `runCtx` executes it.

* `UsbDev` : the lists, flags and the semaphore of `struct hgic_usb`, the submitted URBs and the contexts;
* `hgicUsbProbe` : the state after `hgic_usb_qinit` created the buffers;
* `hgicUsbDeq`, `hgicUsbEnq` : the moves between the lists, under `qlock`;
* `Act`, `step` : a new call, a completion, a change of the status bits, or a step of a context.
-/

namespace HgicFmac.Usb
open Lib

/-- The next access of a context. A call of `hgic_usb_tx_packet` carries its skb, the `k`-th one. -/
inductive Ctx
  /-- `hgic_usb_tx_packet`: the test of the status, `down_timeout`, the test again, `hgic_usb_deq`. -/
  | txCheck (k : Nat)
  | txDown (k : Nat)
  | txRecheck (k : Nat)
  | txDeq (k : Nat)
  /-- The bounce buffer, `usb_submit_urb`, and `hgic_usb_enq` behind `__fail`. -/
  | txAlloc (k b : Nat)
  | txSubmit (k b : Nat)
  | txFail (k b : Nat)
  /-- `bus.tx_complete` without success, the last access of a call that gives up. -/
  | txAbort (k : Nat)
  /-- `hgic_usb_tx_complete`: `bus.tx_complete`, `hgic_usb_enq`, `up`. -/
  | txDone (b : Nat)
  | txEnq (b : Nat)
  | txUp
  /-- `hgic_usb_receive`: the test of STOP. -/
  | rxStop (b : Nat)
  /-- `hgic_usb_submit_rx_urb`, in the loop of `hgic_usb_submit_rx_urbs` or not: the test of the status and
  `usb_submit_urb`. -/
  | rxStatus (b : Nat) (loop : Bool)
  | rxSubmit (b : Nat) (loop : Bool)
  /-- `hgic_usb_enq` of a buffer that is not submitted again. -/
  | rxEnq (b : Nat)
  /-- After a failed submission: `hgic_usb_enq`, ERR, `hgic_usb_cancle`. -/
  | rxFail (b : Nat)
  | rxErr
  | rxCancle
  /-- `hgic_usb_submit_rx_urbs`: `hgic_usb_deq`. -/
  | rxDeq
  deriving DecidableEq, Repr

/-- A buffer is a number; `flagUsed` and `flagRx` are the bits of `buf->flag`. -/
structure UsbDev where
  /-- `HGIC_USB_STATUS_STOP`, `HGIC_USB_STATUS_ERR`. -/
  stop : Bool
  err : Bool
  txFreeq : List Nat
  rxFreeq : List Nat
  used : List Nat
  flagUsed : Nat → Bool
  flagRx : Nat → Bool
  /-- `buf->data` of a transmit buffer. -/
  data : Nat → Option Nat
  txSema : Nat
  /-- The buffers of the submitted URBs, by their completion handler. -/
  txUrbs : List Nat
  rxUrbs : List Nat
  ctxs : List Ctx
  /-- The number of calls so far, and as history the skbs given to `bus.tx_complete`. -/
  calls : Nat
  completed : List Nat

/-- The state of `hgic_usb_probe` when `hgic_usb_qinit` has created `tx` and `rx` buffers. -/
def hgicUsbProbe (tx rx : Nat) : UsbDev where
  stop := false
  err := false
  txFreeq := List.range tx
  rxFreeq := (List.range rx).map (tx + ·)
  used := []
  flagUsed := fun _ => false
  flagRx := fun b => tx ≤ b
  data := fun _ => none
  txSema := tx
  txUrbs := []
  rxUrbs := []
  ctxs := []
  calls := 0
  completed := []

inductive Queue
  | tx | rx
  deriving DecidableEq, Repr

def UsbDev.listDel (s : UsbDev) (b : Nat) : UsbDev :=
  { s with txFreeq := s.txFreeq.erase b, rxFreeq := s.rxFreeq.erase b, used := s.used.erase b }

def UsbDev.freeq (s : UsbDev) : Queue → List Nat
  | .tx => s.txFreeq
  | .rx => s.rxFreeq

def UsbDev.addTail (s : UsbDev) (b : Nat) : Queue → UsbDev
  | .tx => { s with txFreeq := s.txFreeq ++ [b] }
  | .rx => { s with rxFreeq := s.rxFreeq ++ [b] }

/-- The first buffer of `q`, if there is one, and the state after it has become used. -/
def hgicUsbDeq (s : UsbDev) (q : Queue) : Option Nat × UsbDev :=
  match s.freeq q with
  | [] => (none, s)
  | b :: _ =>
    let t := s.listDel b
    (some b, { t with used := t.used ++ [b], flagUsed := Function.update t.flagUsed b true })

def hgicUsbEnq (s : UsbDev) (b : Nat) (q : Queue) : UsbDev :=
  { s.listDel b with flagUsed := Function.update s.flagUsed b false }.addTail b q

/-- `status & (HGIC_USB_STATUS_STOP | HGIC_USB_STATUS_ERR)`. -/
def UsbDev.down (s : UsbDev) : Bool := s.stop || s.err

/-- One access of a context: the state and what is left of the context. `ok` is the outcome that the driver does not
decide: `down_timeout` before the timeout, the bounce buffer not needed or allocated, `usb_submit_urb` without error. -/
def runCtx (s : UsbDev) (ok : Bool) : Ctx → Option (UsbDev × List Ctx)
  | .txCheck k => some (s, if s.down then [.txAbort k] else [.txDown k])
  | .txDown k =>
    if ok then if 0 < s.txSema then some ({ s with txSema := s.txSema - 1 }, [.txRecheck k]) else none
    else some (s, [.txAbort k])
  | .txRecheck k => some (s, if s.down then [.txAbort k] else [.txDeq k])
  | .txDeq k => match hgicUsbDeq s .tx with
    | (none, t) => some (t, [.txAbort k])
    | (some b, t) => some (t, [.txAlloc k b])
  | .txAlloc k b => some (s, if ok then [.txSubmit k b] else [.txAbort k])
  | .txSubmit k b =>
    let t := { s with data := Function.update s.data b (some k) }
    some (if ok then ({ t with txUrbs := t.txUrbs ++ [b] }, []) else (t, [.txFail k b]))
  | .txFail k b => some (hgicUsbEnq { s with data := Function.update s.data b none } b .tx, [.txAbort k])
  | .txAbort k => some ({ s with completed := s.completed ++ [k] }, [])
  | .txDone b =>
    some ({ s with completed := s.completed ++ (s.data b).toList, data := Function.update s.data b none }, [.txEnq b])
  | .txEnq b => some (hgicUsbEnq s b .tx, [.txUp])
  | .txUp => some ({ s with txSema := s.txSema + 1 }, [])
  | .rxStop b => some (s, if s.stop then [.rxEnq b] else [.rxStatus b false])
  | .rxStatus b loop => some (s, if s.down then [.rxEnq b] else [.rxSubmit b loop])
  | .rxSubmit b loop =>
    some (if ok then ({ s with rxUrbs := s.rxUrbs ++ [b] }, if loop then [.rxDeq] else []) else (s, [.rxFail b]))
  | .rxEnq b => some (hgicUsbEnq s b .rx, [])
  | .rxFail b => some (hgicUsbEnq s b .rx, [.rxErr])
  | .rxErr => some ({ s with err := true }, [.rxCancle])
  -- the URBs of the buffers in `used` are unlinked under `qlock`; they complete later, as any URB may at any time
  | .rxCancle => some (s, [])
  | .rxDeq => match hgicUsbDeq s .rx with
    | (none, t) => some (t, [])
    | (some b, t) => some (t, [.rxStatus b true])

inductive Act
  /-- A call of `hgic_usb_tx_packet`, and of `hgic_usb_submit_rx_urbs`. -/
  | txPacket
  | submitRxUrbs
  | txComplete (b : Nat)
  | rxComplete (b : Nat)
  | status (stop err : Bool)
  | run (i : Nat) (ok : Bool)
  deriving DecidableEq, Repr

def step (s : UsbDev) : Act → Option UsbDev
  | .txPacket => some { s with ctxs := s.ctxs ++ [.txCheck s.calls], calls := s.calls + 1 }
  | .submitRxUrbs => some { s with ctxs := s.ctxs ++ [.rxDeq] }
  | .txComplete b =>
    if b ∈ s.txUrbs then some { s with txUrbs := s.txUrbs.erase b, ctxs := s.ctxs ++ [.txDone b] } else none
  | .rxComplete b =>
    if b ∈ s.rxUrbs then some { s with rxUrbs := s.rxUrbs.erase b, ctxs := s.ctxs ++ [.rxStop b] } else none
  | .status stop err => some { s with stop := stop, err := err }
  | .run i ok => match s.ctxs.drop i with
    | [] => none
    | c :: post => (runCtx s ok c).map fun r => { r.1 with ctxs := s.ctxs.take i ++ r.2 ++ post }

end HgicFmac.Usb
