import HgicFmac.Core.Frame
import HgicFmac.Lib.Run

/-!
# The transmit path: `hgicf_netif_xmit` and `hgicf_tx_work`

`hgicf_tx_work` runs on an ordered workqueue, so at most one instance is active; every other context may run
between any two of its accesses to the shared state. `Pc` is the next access of the work item, `workStep` executes
it, and the other actions are what the network stack, the senders of commands, the receive path, the detect work,
the bus and the power management do meanwhile.

* `Wdev` : the part of `struct hgicf_wdev`, `struct hgic_bus` and `struct hgic_fwctrl` that the path reads, the work
  item, and as history the packets handed to `bus->tx_packet` (`wire`) and the accepted frames (`accepted`);
* `workStep` : one access of `hgicf_tx_work`, `hgicf_tx_ctrl_frm`, `hgicf_check_txwnd`, `hgicf_request_txwnd`,
  `hgicf_tx_single_frm` or `hgicf_tx_agg_frm`;
* `hgicfNetifXmit`, `step` : the other actions.
-/

namespace HgicFmac.Core
open Lib

structure Cfg where
  e : Endian
  ifAgg : Nat
  txqSize : Nat
  fwifidx : Nat

def txwndInitVal : Int := 3

def stateFw : Nat := 0

def bootdlCmdHdrSize : Nat := 20

inductive Wire
  | ctrl (p : Skb)
  /-- The window request of `hgicf_request_txwnd`. -/
  | softfc
  | frm (x : Sub)
  | agg (a : Agg)

/-- The next access of the work item to the shared state. -/
inductive Pc
  | idle
  /-- `_CTRLQ_TX`: `while (!skb_queue_empty(&hg->ctrl.txq))`. -/
  | ctrlTop
  | ctrlSleep
  | ctrlRunning
  | ctrlClear
  /-- `skb_dequeue` of `hgicf_tx_ctrl_frm`. -/
  | ctrlDeq
  | ctrlInboot (p : Skb)
  | ctrlSend (p : Skb)
  | ctrlSetSleep
  /-- The four tests of the data loop. -/
  | dataTop | dataFw | dataRunning | dataSuspend
  | dataSleep | dataInboot
  | dataClear
  /-- `hgicf_check_txwnd`. -/
  | wndFc | wndInboot | wndSleep | wndSuspend | wndRunning | wndFirst | wndRequest | wndSecond | wndDec
  | dataDeq
  /-- `!skb_queue_empty(&hg->tx_dataq) && if_agg`. -/
  | pick (f : Frm)
  | single (f : Frm)
  | singleSend (x : Sub)
  /-- `dev_alloc_skb` of `hgicf_tx_agg_frm`, and the cookie of the aggregate. -/
  | aggAlloc (f : Frm)
  /-- The loop: the test and the copy for `f`, or `skb_queue_head`. -/
  | aggLoop (a : Agg) (f : Frm)
  | aggDeq (a : Agg)
  | aggSend (a : Agg)
  | dataNext

/-- The next access of `hgicf_netif_xmit`. The device has one transmit queue, whose lock admits one call at a time. -/
inductive Xmit
  | idle
  | running (p : Pkt)
  | qlen (p : Pkt)
  | sleep (p : Pkt)
  | queue (f : Frm)

structure Wdev where
  /-- `HGICF_DEV_FLAGS_RUNNING`, `HGICF_DEV_FLAGS_SUSPEND`. -/
  running : Bool
  suspend : Bool
  /-- `HGIC_BUS_FLAGS_SLEEP`, `HGIC_BUS_FLAGS_INBOOT`. -/
  sleep : Bool
  inboot : Bool
  fwState : Nat
  softFc : Bool
  txwnd : Int
  ctrlq : List Skb
  dataq : List Frm
  dataCookie : Nat
  pc : Pc
  xmit : Xmit
  wire : List Wire
  accepted : List Frm

/-- The state that `hgicf_core_probe` leaves. -/
def hgicfCoreProbe : Wdev where
  running := true
  suspend := false
  sleep := false
  inboot := false
  fwState := 255
  softFc := false
  txwnd := txwndInitVal
  ctrlq := []
  dataq := []
  dataCookie := 0
  pc := .idle
  xmit := .idle
  wire := []
  accepted := []

/-- The outcomes a step does not decide: the allocation and its memory, and the result of `bus->tx_packet`. -/
structure Env where
  alloc : Bool
  mem : Mem
  err : Bool

namespace Wdev

def goto (s : Wdev) (pc : Pc) : Wdev := { s with pc := pc }

/-- A branch on a flag. -/
def branch (s : Wdev) (b : Bool) (yes no : Pc) : Wdev := s.goto (if b then yes else no)

def send (s : Wdev) (w : Wire) (pc : Pc) : Wdev := { s with wire := s.wire ++ [w], pc := pc }

def nextCookie (s : Wdev) : Wdev := { s with dataCookie := (s.dataCookie + 1) % 2 ^ 16 }

end Wdev

/-- What `hgicf_tx_ctrl_frm` hands to the bus for `p`: raw data for the boot loader goes without its header. -/
def ctrlData (p : Skb) : Skb := if p.type = HdrType.bootdlData.byte then p.pull bootdlCmdHdrSize else p

/-- The `switch` of `hgicf_tx_ctrl_frm`: packets for the boot loader pass without the test of INBOOT. -/
def ctrlNext (p : Skb) : Pc :=
  if p.type = HdrType.bootdl.byte ∨ p.type = HdrType.bootdlData.byte then .ctrlSend (ctrlData p)
  else .ctrlInboot (ctrlData p)

/-- `sleep_cmd`, a `u8`: the low byte of the sleep argument. -/
def sleepCmd (p : Skb) : Nat := hgicIsEnterSleep p % 2 ^ 8

def workStep (cfg : Cfg) (o : Env) (s : Wdev) : Option Wdev :=
  match s.pc with
  | .idle => none
  | .ctrlTop => some (s.branch s.ctrlq.isEmpty .dataTop .ctrlSleep)
  | .ctrlSleep => some (s.branch s.sleep .ctrlClear .ctrlRunning)
  | .ctrlRunning => some (s.branch s.running .ctrlDeq .ctrlClear)
  | .ctrlClear => some (if s.ctrlq.isEmpty then s.goto .ctrlTop else { s with ctrlq := s.ctrlq.tail })
  | .ctrlDeq =>
    match s.ctrlq with
    | [] => some (s.goto .ctrlTop)
    | p :: ctrlq => some ({ s with ctrlq := ctrlq }.goto (ctrlNext p))
  | .ctrlInboot p => some (s.branch s.inboot .ctrlTop (.ctrlSend p))
  | .ctrlSend p => some (s.send (.ctrl p) (if !o.err && sleepCmd p ≠ 0 then .ctrlSetSleep else .ctrlTop))
  | .ctrlSetSleep => some ({ s with sleep := true }.goto .ctrlTop)
  | .dataTop => some (s.branch s.dataq.isEmpty .idle .dataFw)
  | .dataFw => some (s.branch (s.fwState = stateFw) .dataRunning .idle)
  | .dataRunning => some (s.branch s.running .dataSuspend .idle)
  | .dataSuspend => some (s.branch s.suspend .idle .dataSleep)
  | .dataSleep => some (s.branch s.sleep .dataClear .dataInboot)
  | .dataInboot => some (s.branch s.inboot .dataClear .wndFc)
  | .dataClear => some (if s.dataq.isEmpty then s.goto .ctrlTop else { s with dataq := s.dataq.tail })
  | .wndFc => some (s.branch s.softFc .wndInboot .dataDeq)
  | .wndInboot => some (s.branch s.inboot .dataDeq .wndSleep)
  | .wndSleep => some (s.branch s.sleep .ctrlTop .wndSuspend)
  | .wndSuspend => some (s.branch s.suspend .ctrlTop .wndRunning)
  | .wndRunning => some (s.branch s.running .wndFirst .ctrlTop)
  | .wndFirst => some (s.branch (s.txwnd < txwndInitVal) .wndRequest .wndSecond)
  | .wndRequest => some (if o.alloc then s.send .softfc .wndSecond else s.goto .wndSecond)
  | .wndSecond => some (s.branch (s.txwnd < txwndInitVal) .ctrlTop .wndDec)
  | .wndDec => some ({ s with txwnd := s.txwnd - 1 }.goto .dataDeq)
  | .dataDeq =>
    match s.dataq with
    | [] => some (s.goto .dataNext)
    | f :: dataq => some ({ s with dataq := dataq }.goto (.pick f))
  | .pick f => some (s.branch (!s.dataq.isEmpty && cfg.ifAgg ≠ 0) (.aggAlloc f) (.single f))
  | .single f => some (s.nextCookie.goto (.singleSend (singleSub cfg.e f s.dataCookie)))
  | .singleSend x => some (s.send (.frm x) .dataNext)
  | .aggAlloc f =>
    some (if o.alloc then s.nextCookie.goto (.aggLoop (aggInit cfg.e o.mem s.dataCookie) f) else s.goto (.single f))
  | .aggLoop a f =>
    some (if aggFits cfg.e cfg.ifAgg a f then s.nextCookie.goto (.aggDeq (aggAdd cfg.e a f s.dataCookie))
      else { s with dataq := f :: s.dataq }.goto (.aggSend a))
  | .aggDeq a =>
    match s.dataq with
    | [] => some (s.goto (.aggSend a))
    | f :: dataq => some ({ s with dataq := dataq }.goto (.aggLoop a f))
  | .aggSend a => some (if hdrSize < a.length cfg.e then s.send (.agg a) .dataNext else s.goto .dataNext)
  | .dataNext => some (s.branch s.ctrlq.isEmpty .dataTop .ctrlTop)

/-- One access of `hgicf_netif_xmit`. The frame is dropped while the device does not run, has a full queue or sleeps,
and when the headroom cannot be made. -/
def hgicfNetifXmit (cfg : Cfg) (expanded : Bool) (s : Wdev) : Option Wdev :=
  match s.xmit with
  | .idle => none
  | .running p => some { s with xmit := if s.running then .qlen p else .idle }
  | .qlen p => some { s with xmit := if cfg.txqSize < s.dataq.length then .idle else .sleep p }
  | .sleep p =>
    some { s with xmit := if s.sleep || !expanded then .idle else .queue (xmitFrm cfg.e cfg.fwifidx p) }
  | .queue f => some { s with dataq := s.dataq ++ [f], accepted := s.accepted ++ [f], xmit := .idle }

inductive Act
  | work (o : Env)
  | kick
  | xmit (p : Pkt)
  | xmitStep (expanded : Bool)
  /-- A command is queued, or the oldest one dropped (`hgic_fwctrl_send_data`, `hgic_clear_queue`). -/
  | command (p : Skb)
  | dropCommand
  /-- `hgicf_detect_work` drops the oldest frame (`hgic_clear_queue`). -/
  | dropFrame
  /-- Another context sets the flags that the path tests, except SLEEP. -/
  | flags (running suspend inboot softFc : Bool) (fwState : Nat)
  | window (n : Int)
  /-- SLEEP is cleared: by `hgicf_tx_complete` for a failed ENTER_SLEEP, by `hgicf_core_resume`, or by the setting
  of `hgic_iwpriv_set_sleep`. No context but `hgicf_tx_ctrl_frm` sets it. -/
  | wakeUp

def step (cfg : Cfg) (s : Wdev) : Act → Option Wdev
  | .work o => workStep cfg o s
  | .kick => match s.pc with
    | .idle => some (s.goto .ctrlTop)
    | _ => some s
  | .xmit p => match s.xmit with
    | .idle => some { s with xmit := .running p }
    | _ => none
  | .xmitStep expanded => hgicfNetifXmit cfg expanded s
  | .command p => some { s with ctrlq := s.ctrlq ++ [p] }
  | .dropCommand => some { s with ctrlq := s.ctrlq.tail }
  | .dropFrame => some { s with dataq := s.dataq.tail }
  | .flags running suspend inboot softFc fwState =>
    some { s with running := running, suspend := suspend, inboot := inboot, softFc := softFc, fwState := fwState }
  | .window n => some { s with txwnd := n }
  | .wakeUp => some { s with sleep := false }

end HgicFmac.Core
