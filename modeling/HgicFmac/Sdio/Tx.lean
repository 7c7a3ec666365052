import HgicFmac.Usb.Complete

/-!
# `hgic_sdio_tx_packet`, and `bus.tx_complete` on both buses

A call of `hgic_sdio_tx_packet` is a state machine of its own: what other contexts do to the status and the flags, and
what the card and the allocator do, are choices of its steps.

* `Pc`, `TxCall`, `hgicSdioTxPacket` : where a call is, and one step of it;
* `sdioInv_step` : `bus.tx_complete` has been called once when the call has returned, and not before;
* `reaches_returned` : a call returns once the device is not busy;
* `tx_complete_once` : on either bus every skb is completed exactly once.
-/

namespace HgicFmac.Sdio
open Lib

def sdioDmaAlign : Nat := 4

/-- Where a call is: the test of STOP and SLEEP on entry; the test of the loop with `busy` and `loop`;
`hgic_sdio_is_busy`; the test behind `wait_for_completion_timeout`; the bounce buffer; `hgic_sdio_copy_toio` with
its first transfer, `hgic_sdio_reinit_card` and the second one; `bus.tx_complete`; and behind it. -/
inductive Pc
  | enter
  | poll (busy : Bool) (loop : Nat)
  | isBusy (loop : Nat)
  | waited
  | bounce
  | copy
  | reinit (err : Int)
  | retry
  | complete (success : Bool) (ret : Int)
  | returned (ret : Int)
  deriving DecidableEq, Repr

/-- A call with the address of its data, and as history the calls of `bus.tx_complete` for its skb. -/
structure TxCall where
  data : Nat
  pc : Pc
  completed : List Bool
  deriving DecidableEq, Repr

/-- What a step finds: the status and the flags, what `hgic_sdio_readb` gives, the allocation, and the results of a
transfer and of `hgic_sdio_reinit_card`. -/
structure Choice where
  stop : Bool
  sleep : Bool
  softfc : Bool
  val : UInt8
  readErr : Int
  alloc : Bool
  transfer : Int
  reinit : Int

/-- A failed read counts as busy. -/
def hgicSdioIsBusy (x : Choice) : Bool := x.readErr ≠ 0 || x.val.toNat % 2 = 1

def TxCall.goto (c : TxCall) (pc : Pc) : TxCall := { c with pc := pc }

def hgicSdioTxPacket (c : TxCall) (x : Choice) : Option TxCall :=
  match c.pc with
  | .enter => some (c.goto (if x.stop || x.sleep then .complete false (-1) else .poll true 0))
  | .poll busy loop => some (c.goto (if busy && !x.softfc then .isBusy loop else .bounce))
  | .isBusy loop =>
    some (c.goto (if hgicSdioIsBusy x then if 5 < loop then .waited else .poll true (loop + 1) else .poll false loop))
  | .waited => some (c.goto (if x.stop || x.sleep then .complete false (-1) else .poll true 0))
  | .bounce => some (c.goto (if c.data % sdioDmaAlign ≠ 0 ∧ x.alloc = false then .complete false (-1) else .copy))
  | .copy => some (c.goto (if x.transfer ≠ 0 then .reinit x.transfer else .complete true 0))
  | .reinit err => some (c.goto (if x.reinit = 0 then .retry else .complete false err))
  | .retry => some (c.goto (.complete (x.transfer = 0) x.transfer))
  | .complete success ret => some { c with pc := .returned ret, completed := c.completed ++ [success] }
  | .returned _ => none

def txCall (data : Nat) : TxCall := ⟨data, .enter, []⟩

/-! ## Exactly once -/

/-- The result that a call is about to return goes with what it tells `bus.tx_complete`. -/
def SdioInv (c : TxCall) : Prop :=
  match c.pc with
  | .complete success ret => c.completed = [] ∧ (success = true ↔ ret = 0)
  | .reinit err => c.completed = [] ∧ err ≠ 0
  | .returned ret => ∃ success, c.completed = [success] ∧ (success = true ↔ ret = 0)
  | _ => c.completed = []

theorem sdioInv_step {c d : TxCall} {x : Choice} (hc : SdioInv c) (h : hgicSdioTxPacket c x = some d) : SdioInv d := by
  obtain ⟨data, pc, completed⟩ := c
  have hfail : ((false : Bool) = true ↔ (-1 : Int) = 0) := by decide
  cases pc with
  | enter | waited =>
    simp only [hgicSdioTxPacket, Option.some.injEq] at h
    subst h
    split
    · exact ⟨hc, hfail⟩
    · exact hc
  | poll busy loop =>
    simp only [hgicSdioTxPacket, Option.some.injEq] at h
    subst h
    split
    · exact hc
    · exact hc
  | isBusy loop =>
    simp only [hgicSdioTxPacket, Option.some.injEq] at h
    subst h
    split
    · split
      · exact hc
      · exact hc
    · exact hc
  | bounce =>
    simp only [hgicSdioTxPacket, Option.some.injEq] at h
    subst h
    split
    · exact ⟨hc, hfail⟩
    · exact hc
  | copy =>
    simp only [hgicSdioTxPacket, Option.some.injEq] at h
    subst h
    split
    · next htr => exact ⟨hc, htr⟩
    · exact ⟨hc, by decide⟩
  | reinit err =>
    simp only [hgicSdioTxPacket, Option.some.injEq] at h
    subst h
    split
    · exact hc.1
    · exact ⟨hc.1, by simp [hc.2]⟩
  | retry =>
    simp only [hgicSdioTxPacket, Option.some.injEq] at h
    subst h
    exact ⟨hc, by simp⟩
  | complete success ret =>
    simp only [hgicSdioTxPacket, Option.some.injEq] at h
    subst h
    obtain ⟨hnil, hret⟩ := hc
    exact ⟨success, by rw [show completed = [] from hnil]; rfl, hret⟩
  | returned ret => cases h

theorem SdioInv.completed_eq {c : TxCall} (hc : SdioInv c) (h : ∀ ret, c.pc ≠ .returned ret) : c.completed = [] := by
  unfold SdioInv at hc
  cases hpc : c.pc with
  | returned ret => exact absurd hpc (h ret)
  | complete | reinit =>
    rw [hpc] at hc
    exact hc.1
  | enter | poll | isBusy | waited | bounce | copy | retry =>
    rw [hpc] at hc
    exact hc

/-! ## The call returns -/

/-- The device is read without an error, and is not busy. -/
def Choice.ready (x : Choice) : Choice := { x with val := 0, readErr := 0 }

def Pc.left : Pc → Nat
  | .enter | .waited => 9
  | .poll true _ => 8
  | .isBusy _ => 7
  | .poll false _ => 6
  | .bounce => 5
  | .copy => 4
  | .reinit _ => 3
  | .retry => 2
  | .complete _ _ => 1
  | .returned _ => 0

theorem left_lt (c : TxCall) (x : Choice) : (∃ ret, c.pc = .returned ret) ∨
    ∃ d, hgicSdioTxPacket c x.ready = some d ∧ d.pc.left < c.pc.left := by
  obtain ⟨data, pc, completed⟩ := c
  cases pc with
  | returned ret => exact .inl ⟨ret, rfl⟩
  | enter | waited =>
    refine .inr ⟨_, rfl, ?_⟩
    dsimp only [TxCall.goto]
    split <;> decide
  | poll busy loop =>
    refine .inr ⟨_, rfl, ?_⟩
    cases busy with
    | false => exact Nat.lt_succ_self 5
    | true =>
      dsimp only [TxCall.goto]
      split <;> simp [Pc.left]
  | isBusy loop =>
    have hready : hgicSdioIsBusy x.ready = false := rfl
    refine .inr ⟨_, rfl, ?_⟩
    rw [hready]
    exact Nat.lt_succ_self 6
  | bounce =>
    refine .inr ⟨_, rfl, ?_⟩
    dsimp only [TxCall.goto]
    split <;> decide
  | copy =>
    refine .inr ⟨_, rfl, ?_⟩
    dsimp only [TxCall.goto]
    split <;> simp [Pc.left]
  | reinit err =>
    refine .inr ⟨_, rfl, ?_⟩
    dsimp only [TxCall.goto]
    split <;> simp [Pc.left]
  | retry => exact .inr ⟨_, rfl, by simp [TxCall.goto, Pc.left]⟩
  | complete success ret => exact .inr ⟨_, rfl, by simp [Pc.left]⟩

theorem reaches_returned (c : TxCall) :
    Reaches (fun c (x : Choice) => hgicSdioTxPacket c x.ready) (fun c => ∃ ret, c.pc = .returned ret) c := by
  have hstep : ∀ (c : TxCall) (x : Choice), True → (∃ ret, c.pc = .returned ret) ∨
      ∃ d, hgicSdioTxPacket c x.ready = some d ∧ True ∧ d.pc.left < c.pc.left := by
    intro c x _
    rcases left_lt c x with hd | ⟨d, hd, hlt⟩
    · exact .inl hd
    · exact .inr ⟨d, hd, trivial, hlt⟩
  exact reaches_of_measure _ (fun c => c.pc.left) hstep trivial

/-! ## Both buses -/

/-- On SDIO, in every state of a call: when it has returned, `bus.tx_complete` was called once, with success exactly
when 0 is returned; before, it was not called, and the call returns once the device is not busy. On USB, in every
state of any interleaving of calls and completions: an skb that was given to `hgic_usb_tx_packet` is in the call, or
is carried by one URB whose handler has not called `bus.tx_complete`, or was given to `bus.tx_complete` once, and only
one of these; a call that is in progress returns; and when no call, URB or handler is left, every skb has been given
to `bus.tx_complete` exactly once. -/
theorem tx_complete_once :
    (∀ data xs c, runFrom hgicSdioTxPacket (txCall data) xs = some c →
      (∀ ret, c.pc = .returned ret → ∃ success, c.completed = [success] ∧ (success = true ↔ ret = 0)) ∧
      ((∀ ret, c.pc ≠ .returned ret) → c.completed = []) ∧
      Reaches (fun c (x : Choice) => hgicSdioTxPacket c x.ready) (fun c => ∃ ret, c.pc = .returned ret) c) ∧
    (∀ tx rx as s, runFrom Usb.step (Usb.hgicUsbProbe tx rx) as = some s → ∀ k < s.calls,
      s.completed.count k + s.inCall.count k + s.carried.count k = 1 ∧
      (∀ i c post, s.ctxs.drop i = c :: post → c.call = [k] →
        Reaches (Usb.runOrTimeout i) (fun t => k ∉ t.inCall) s) ∧
      (s.ctxs = [] → s.txUrbs = [] → s.completed.count k = 1)) := by
  refine ⟨fun data xs c hr => ?_, fun tx rx as s hr k hk => ?_⟩
  · have hinv : SdioInv c :=
      reach_invariant hgicSdioTxPacket (fun _ _ _ => sdioInv_step) (show SdioInv (txCall data) from rfl) hr
    refine ⟨fun ret hret => ?_, hinv.completed_eq, reaches_returned c⟩
    unfold SdioInv at hinv
    rw [hret] at hinv
    exact hinv
  · have hinv : Usb.SkbInv (tx + rx) s :=
      reach_invariant Usb.step (fun _ _ _ => Usb.skbInv_step) (Usb.skbInv_init tx rx) hr
    have hone := hinv.one k
    rw [if_pos hk] at hone
    refine ⟨hone, fun i c post hdrop hc => Usb.call_returns hinv (.inr ⟨c, post, hdrop, hc⟩), fun hctxs hurbs => ?_⟩
    simpa [Usb.UsbDev.inCall, Usb.UsbDev.carried, hctxs, hurbs] using hone

def busyDevice : Choice := ⟨false, false, false, 1, 0, true, 0, 0⟩

/-- The device is put to sleep while the call waits for it. -/
def sleepWhileBusy : List Choice :=
  List.flatten [List.replicate 15 busyDevice, List.replicate 2 { busyDevice with sleep := true }]

/-- The URB of the first packet completes, the second one is not accepted. -/
def oneAccepted : List Usb.Act :=
  List.flatten [[.txPacket], List.replicate 6 (.run 0 true), [.txPacket], List.replicate 5 (.run 0 true),
    List.replicate 3 (.run 0 false), [.txComplete 0], List.replicate 3 (.run 0 true)]

theorem tx_complete_once_runs :
    (∃ c, runFrom hgicSdioTxPacket (txCall 2) sleepWhileBusy = some c ∧ c.pc = .returned (-1) ∧
      ∃ success, c.completed = [success] ∧ (success = true ↔ (-1 : Int) = 0)) ∧
    ∃ s, runFrom Usb.step (Usb.hgicUsbProbe 2 0) oneAccepted = some s ∧ s.completed.count 0 = 1 ∧
      s.completed.count 1 = 1 := by
  constructor
  · obtain ⟨c, hr, hpc⟩ : ∃ c, runFrom hgicSdioTxPacket (txCall 2) sleepWhileBusy = some c ∧ c.pc = .returned (-1) :=
      ⟨_, rfl, rfl⟩
    exact ⟨c, hr, hpc, (tx_complete_once.1 2 sleepWhileBusy c hr).1 (-1) hpc⟩
  · obtain ⟨s, hr, hcalls, hctxs, hurbs⟩ : ∃ s, runFrom Usb.step (Usb.hgicUsbProbe 2 0) oneAccepted = some s ∧
        s.calls = 2 ∧ s.ctxs = [] ∧ s.txUrbs = [] := ⟨_, rfl, rfl, rfl, rfl⟩
    have honce := tx_complete_once.2 2 0 oneAccepted s hr
    exact ⟨s, hr, (honce 0 (by omega)).2.2 hctxs hurbs, (honce 1 (by omega)).2.2 hctxs hurbs⟩

end HgicFmac.Sdio
