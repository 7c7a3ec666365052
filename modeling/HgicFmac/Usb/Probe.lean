import HgicFmac.Core.Probe
import HgicFmac.Usb.Complete

/-!
# What `hgic_usb_probe` allocates

* `qinitLoop`, `hgicUsbProbeAlloc` : `hgic_usb_qinit` and the probe until the URBs are submitted;
* `hgicUsbFree`, `hgicUsbRelease` : the end of a probe that fails and of `hgic_usb_disconnect`;
* `DataInv` : a buffer that is free has no packet;
* `disconnect_frees` : behind any run of the bus everything is freed once, a URB apart whose buffer was refused;
* `failed_frees` : the same of a probe without device, but with a reference that it never took.
-/

namespace HgicFmac.Usb
open Lib Probe

/-! ## The probe -/

/-- `hgic_usb_qinit`, with `n` of the buffers to go: the number of buffers in the queue. -/
def qinitLoop (e : Nat → Bool) (rx : Bool) (base : Nat) : Nat → Nat → Ledger Obj → Nat × Ledger Obj
  | 0, i, h => (i, h)
  | n + 1, i, h => match h.tryAlloc e (.buf (base + i)) with
    | (false, h) => (i, h)
    | (true, h) => match h.tryAlloc e (.urb (base + i)) with
      | (false, h) => (i, h.free (.buf (base + i)))
      | (true, h) =>
        if !rx then qinitLoop e rx base n (i + 1) h
        else match h.tryAlloc e (.rxbuff (base + i)) with
          | (false, h) => (i, h.free (.buf (base + i)))
          | (true, h) => qinitLoop e rx base n (i + 1) h

def hgicUsbQinit (e : Nat → Bool) (rx : Bool) (base qsize : Nat) (h : Ledger Obj) : Nat × Ledger Obj :=
  qinitLoop e rx base qsize 0 h

/-! ## The end -/

/-- The URB of `b` is submitted or its handler runs. -/
def Ctx.handler : Ctx → List Nat
  | .txDone b | .txEnq b | .rxStop b | .rxStatus b _ | .rxSubmit b _ | .rxEnq b | .rxFail b => [b]
  | _ => []

def UsbDev.inFlight (s : UsbDev) (b : Nat) : Bool :=
  b ∈ s.txUrbs || b ∈ s.rxUrbs || s.ctxs.any (b ∈ ·.handler)

/-- `none` : the function does not return. `usb_kill_urb` waits for the handler, and that for `qlock`, which is held. -/
def hgicUsbFree (s : UsbDev) (h : Ledger Obj) : Option (Ledger Obj) :=
  if s.used.any s.inFlight then none
  else
    let h := h.freeAll (s.txFreeq.flatMap fun b => .urb b :: ((s.data b).map Obj.skb).toList ++ [.buf b])
    let h := h.freeAll (s.rxFreeq.flatMap fun b => [.rxbuff b, .urb b, .buf b])
    some (h.freeAll (s.used.flatMap fun b => (if s.flagRx b then [.rxbuff b] else []) ++ [.urb b, .buf b]))

/-- `bus.remove`, if there is one, `usb_put_dev`, `hgic_usb_free`, and `kfree` of the device. -/
def hgicUsbRelease (hg : Option Wdev) (s : UsbDev) (h : Ledger Obj) : Option (Ledger Obj) :=
  (hgicUsbFree s ((hgicfCoreRemove hg h).free .udevRef)).map (·.free .usbdev)

/-- What has come of the probe before it submits URBs: the number of buffers and the device, if there is one. -/
inductive Probed
  | nomem (h : Ledger Obj)
  | failed (tx rx : Nat) (h : Option (Ledger Obj))
  | bound (tx rx : Nat) (w : Wdev) (h : Ledger Obj)

/-- `txq`, `rxq` : the module's `txq_cnt` and `rxq_cnt`. The end of a probe that fails is the one of `disconnect`. -/
def hgicUsbProbeAlloc (e : Nat → Bool) (devId txq rxq : Nat) : Probed :=
  match Ledger.empty.tryAlloc e .usbdev with
  | (false, h) => .nomem h
  | (true, h) =>
    let tx := hgicUsbQinit e false 0 txq h
    let rx := hgicUsbQinit e true tx.1 rxq tx.2
    match hgicfCoreProbe e devId rx.2 with
    | (none, h) => .failed tx.1 rx.1 (hgicUsbRelease none (hgicUsbProbe tx.1 rx.1) h)
    | (some w, h) => .bound tx.1 rx.1 w (h.alloc .udevRef)

/-! ## What the queues hold -/

def bufObjs (rx : Bool) (b : Nat) : List Obj := (if rx then [.rxbuff b] else []) ++ [.urb b, .buf b]

/-- `tx` buffers for sending, and behind them `rx` for receiving. -/
def queueObjs (tx rx : Nat) : List Obj :=
  (List.range' 0 tx).flatMap (bufObjs false) ++ (List.range' tx rx).flatMap (bufObjs true)

section Qinit
variable {e : Nat → Bool} {rx : Bool} {base : Nat} {h : Ledger Obj} {os : List Obj}

/-- What the loop leaves: the buffers of the queue, and the URB of a buffer whose data was refused. -/
structure Filled (rx : Bool) (base i n : Nat) (h : Ledger Obj) (os : List Obj) (r : Nat × Ledger Obj)
    (leak : List Obj) : Prop where
  holds : Holds r.2 ((List.range' (base + i) (r.1 - i)).flatMap (bufObjs rx) ++ leak ++ os)
  le : i ≤ r.1
  orphans : orphans r.2 = leak ++ orphans h
  short : leak.length ≤ 1
  no_leak : rx = false → leak = []

theorem qinitLoop_filled (n i : Nat) (hh : Holds h os) :
    ∃ leak, Filled rx base i n h os (qinitLoop e rx base n i h) leak := by
  induction n generalizing i h os with
  | zero => exact ⟨[], by simpa [qinitLoop] using hh, Nat.le_refl _, rfl, Nat.zero_le _, fun _ => rfl⟩
  | succ n ih =>
    -- the buffer `i` is in the queue, and the rest of the loop fills it further
    have hnext : ∀ {h' : Ledger Obj}, Holds h' (bufObjs rx (base + i) ++ os) → orphans h' = orphans h →
        ∃ leak, Filled rx base i (n + 1) h os (qinitLoop e rx base n (i + 1) h') leak := by
      intro h' hh' hsame
      obtain ⟨leak, hfill⟩ := ih (i + 1) hh'
      generalize qinitLoop e rx base n (i + 1) h' = r at hfill ⊢
      have hle := hfill.le
      refine ⟨leak, hfill.holds.perm ?_, by omega, hfill.orphans.trans (by rw [hsame]), hfill.short, hfill.no_leak⟩
      rw [show r.1 - i = r.1 - (i + 1) + 1 by omega, List.range'_succ, List.flatMap_cons, List.perm_iff_count]
      intro o
      simp only [List.count_append, Nat.add_assoc]
      omega
    rw [qinitLoop]
    split
    · next h1 hbuf =>
      refine ⟨[], ?_, Nat.le_refl _, tryAlloc_orphans rfl hbuf, Nat.zero_le _, fun _ => rfl⟩
      simpa using hh.tryAlloc_false hbuf
    · next h1 hbuf =>
      have h1hold := hh.tryAlloc_true hbuf
      have h1same : orphans h1 = orphans h := tryAlloc_orphans rfl hbuf
      split
      · next h2 hurb =>
        refine ⟨[], ?_, Nat.le_refl _, ?_, Nat.zero_le _, fun _ => rfl⟩
        · simpa using (h1hold.tryAlloc_false hurb).free
        · rw [free_orphans, tryAlloc_orphans rfl hurb, h1same]
          rfl
      · next h2 hurb =>
        have h2hold := h1hold.tryAlloc_true hurb
        have h2same : orphans h2 = orphans h := (tryAlloc_orphans rfl hurb).trans h1same
        split
        · next hrx =>
          have hno : rx = false := by simpa using hrx
          subst hno
          exact hnext h2hold h2same
        · next hrx =>
          have hyes : rx = true := by simpa using hrx
          subst hyes
          split
          · next h3 hdata =>
            have h3hold := (h2hold.tryAlloc_false hdata).perm (.swap _ _ _)
            refine ⟨[.urb (base + i)], ?_, Nat.le_refl _, ?_, Nat.le_refl _, fun hno => by cases hno⟩
            · simpa using h3hold.free
            · rw [free_orphans, orphans, Ledger.tryAlloc_refused hdata, ← h2same]
              rfl
          · next h3 hdata =>
            refine hnext (h2hold.tryAlloc_true hdata) ?_
            rw [orphans, Ledger.tryAlloc_refused hdata, ← h2same]
            rfl

end Qinit

/-! ## Between -/

/-- The buffers that a handler or the way out of `hgic_usb_tx_packet` has still to clear. -/
def Ctx.loaded : Ctx → List Nat
  | .txFail _ b | .txDone b => [b]
  | _ => []

/-- Only URBs that are submitted and such buffers have a packet; and a buffer is one for receiving from `tx` on. -/
structure DataInv (tx : Nat) (s : UsbDev) : Prop where
  data : ∀ b, s.data b ≠ none → b ∈ s.txUrbs ∨ b ∈ s.ctxs.flatMap Ctx.loaded
  flagRx : ∀ b, s.flagRx b = decide (tx ≤ b)

section Between
variable {tx : Nat} {s t : UsbDev} {c : Ctx} {cs : List Ctx} {ok : Bool}

/-- What an access does to `data`, with what it leaves of the context. -/
def Loads (s : UsbDev) (c : Ctx) (t : UsbDev) (cs : List Ctx) : Prop :=
  ∀ b, t.data b ≠ none → b ∈ t.txUrbs ∨ b ∈ cs.flatMap Ctx.loaded ∨
    s.data b ≠ none ∧ b ∉ c.loaded ∧ (b ∈ s.txUrbs → b ∈ t.txUrbs)

theorem loads_move (hd : t.data = s.data) (hu : t.txUrbs = s.txUrbs) (hc : c.loaded = []) : Loads s c t cs := by
  intro b hb
  rw [hd] at hb
  rw [hu, hc]
  exact .inr (.inr ⟨hb, List.not_mem_nil, id⟩)

theorem loads_clear {b : Nat} (hd : t.data = Function.update s.data b none) (hu : t.txUrbs = s.txUrbs)
    (hc : c.loaded = [b]) : Loads s c t cs := by
  intro x hx
  rw [hd] at hx
  rw [hu, hc, List.mem_singleton]
  by_cases hxb : x = b
  · rw [hxb, Function.update_self] at hx
    exact absurd rfl hx
  · rw [Function.update_of_ne hxb] at hx
    exact .inr (.inr ⟨hx, hxb, id⟩)

theorem runCtx_loads (h : runCtx s ok c = some (t, cs)) : Loads s c t cs := by
  cases c with
  | txSubmit j b =>
    simp only [runCtx, Option.some.injEq] at h
    split at h <;> rw [Prod.mk.injEq] at h <;> obtain ⟨rfl, rfl⟩ := h <;> intro x hx <;> by_cases hxb : x = b
    · exact .inl (List.mem_append_right _ (List.mem_singleton.2 hxb))
    · exact .inr (.inr ⟨by simpa [Function.update_of_ne hxb] using hx, List.not_mem_nil, List.mem_append_left _⟩)
    · exact .inr (.inl (List.mem_singleton.2 hxb))
    · exact .inr (.inr ⟨by simpa [Function.update_of_ne hxb] using hx, List.not_mem_nil, id⟩)
  | txFail j b =>
    simp only [runCtx, Option.some.injEq, Prod.mk.injEq] at h
    obtain ⟨rfl, rfl⟩ := h
    obtain ⟨-, hu, hd, -⟩ := enq_frame { s with data := Function.update s.data b none } b .tx
    exact loads_clear hd hu rfl
  | txDone b =>
    simp only [runCtx, Option.some.injEq, Prod.mk.injEq] at h
    obtain ⟨rfl, rfl⟩ := h
    exact loads_clear rfl rfl rfl
  | txDeq j =>
    have hframe := deq_frame s .tx
    simp only [runCtx] at h
    split at h <;> next he =>
      simp only [Option.some.injEq, Prod.mk.injEq] at h
      obtain ⟨rfl, rfl⟩ := h
      rw [he] at hframe
      exact loads_move hframe.2.2.1 hframe.2.1 rfl
  | rxDeq =>
    have hframe := deq_frame s .rx
    simp only [runCtx] at h
    split at h <;> next he =>
      simp only [Option.some.injEq, Prod.mk.injEq] at h
      obtain ⟨rfl, rfl⟩ := h
      rw [he] at hframe
      exact loads_move hframe.2.2.1 hframe.2.1 rfl
  | txEnq b | rxEnq b | rxFail b =>
    simp only [runCtx, Option.some.injEq, Prod.mk.injEq] at h
    obtain ⟨rfl, rfl⟩ := h
    exact loads_move (enq_frame s b _).2.2.1 (enq_frame s b _).2.1 rfl
  | txDown j =>
    simp only [runCtx] at h
    split_ifs at h <;> simp only [Option.some.injEq, Prod.mk.injEq] at h <;> obtain ⟨rfl, rfl⟩ := h <;>
      exact loads_move rfl rfl rfl
  | rxSubmit b loop =>
    simp only [runCtx, Option.some.injEq] at h
    split at h <;> rw [Prod.mk.injEq] at h <;> obtain ⟨rfl, rfl⟩ := h <;> exact loads_move rfl rfl rfl
  | txCheck j | txRecheck j | txAlloc j b | txAbort j | txUp | rxStop b | rxStatus b loop | rxErr | rxCancle =>
    simp only [runCtx, Option.some.injEq, Prod.mk.injEq] at h
    obtain ⟨rfl, rfl⟩ := h
    exact loads_move rfl rfl rfl

theorem dataInv_init (tx rx : Nat) : DataInv tx (hgicUsbProbe tx rx) :=
  ⟨fun _ hb => absurd rfl hb, fun _ => rfl⟩

theorem flagRx_step {a : Act} (h : step s a = some t) : t.flagRx = s.flagRx := by
  cases buf_cases h with
  | keep hl _ => exact congrArg (fun l => l.2.2.2.2) hl
  | deq q b rest hq hl _ =>
    have hsame : (hgicUsbDeq s q).2.flagRx = s.flagRx := by
      unfold hgicUsbDeq
      split <;> rfl
    exact (congrArg (fun l => l.2.2.2.2) hl).trans hsame
  | enq q b hl _ =>
    have hsame : (hgicUsbEnq s b q).flagRx = s.flagRx := by cases q <;> rfl
    exact (congrArg (fun l => l.2.2.2.2) hl).trans hsame

theorem dataInv_step {a : Act} (hs : DataInv tx s) (h : step s a = some t) : DataInv tx t := by
  refine ⟨fun b hb => ?_, fun b => by rw [flagRx_step h]; exact hs.flagRx b⟩
  cases a with
  | txPacket | submitRxUrbs | status =>
    simp only [step, Option.some.injEq] at h
    subst h
    simpa [Ctx.loaded] using hs.data b hb
  | txComplete x =>
    simp only [step] at h
    split at h
    · rw [Option.some.injEq] at h
      subst h
      by_cases hbx : b = x
      · exact .inr (by simp [Ctx.loaded, hbx])
      · rcases hs.data b hb with hu | hc
        · exact .inl ((List.mem_erase_of_ne hbx).2 hu)
        · refine .inr ?_
          rw [List.flatMap_append]
          exact List.mem_append_left _ hc
    · cases h
  | rxComplete x =>
    simp only [step] at h
    split at h
    · rw [Option.some.injEq] at h
      subst h
      simpa [Ctx.loaded] using hs.data b hb
    · cases h
  | run i ok =>
    obtain ⟨c, post, u, cs, hsplit, -, hrun, rfl⟩ := run_cases h
    rcases runCtx_loads hrun b hb with hu | hc | ⟨hold, hnot, hmono⟩
    · exact .inl hu
    · refine .inr ?_
      simp only [List.flatMap_append, List.mem_append]
      exact .inl (.inr hc)
    · rcases hs.data b hold with hu | hc
      · exact .inl (hmono hu)
      · rw [hsplit] at hc
        simp only [List.flatMap_append, List.flatMap_singleton, List.mem_append] at hc ⊢
        exact .inr (hc.imp_left fun hl => .inl (hl.resolve_right hnot))

end Between

/-! ## The ledger of a device -/

/-- No URB is submitted, and no call or handler is under way. -/
structure Quiet (s : UsbDev) : Prop where
  txUrbs : s.txUrbs = []
  rxUrbs : s.rxUrbs = []
  ctxs : s.ctxs = []

section Free
variable {tx rx : Nat} {s : UsbDev} {h : Ledger Obj} {os : List Obj}

theorem Quiet.not_inFlight (hq : Quiet s) (b : Nat) : s.inFlight b = false := by
  simp [UsbDev.inFlight, hq.txUrbs, hq.rxUrbs, hq.ctxs]

theorem Quiet.data (hq : Quiet s) (hd : DataInv tx s) (b : Nat) : s.data b = none := by
  by_contra hne
  rcases hd.data b hne with hu | hc
  · rw [hq.txUrbs] at hu
    cases hu
  · rw [hq.ctxs] at hc
    cases hc

/-- The three lists are the buffers that `hgic_usb_qinit` made. -/
theorem lists_perm (hb : BufInv (tx + rx) s) :
    (s.txFreeq ++ s.rxFreeq ++ s.used).Perm (List.range' 0 tx ++ List.range' tx rx) := by
  have happ : List.range' 0 tx ++ List.range' tx rx = List.range (tx + rx) := by
    rw [List.range_eq_range', ← List.range'_append_1, Nat.zero_add]
  rw [happ, List.perm_iff_count]
  intro b
  rw [List.count_append, List.count_append, hb.one b]
  split
  · next hlt => exact (List.count_eq_one_of_mem List.nodup_range (List.mem_range.2 hlt)).symm
  · next hlt => exact (List.count_eq_zero_of_not_mem fun hmem => hlt (List.mem_range.1 hmem)).symm

/-- Every buffer with its URB, and with its data if it is one for receiving, whatever list it is in. -/
theorem free_perm (hb : BufInv (tx + rx) s) (hd : DataInv tx s) (hq : Quiet s)
    (hh : h.live.Perm (queueObjs tx rx ++ os)) :
    ∃ h', hgicUsbFree s h = some h' ∧ h'.live.Perm os ∧ h'.bad = h.bad := by
  have htxFree : (s.txFreeq.flatMap fun b => .urb b :: ((s.data b).map Obj.skb).toList ++ [.buf b]) =
      s.txFreeq.flatMap fun b => bufObjs (s.flagRx b) b := by
    refine List.flatMap_congr fun b hmem => ?_
    rw [hq.data hd, hb.kind .tx b hmem]
    rfl
  have hrxFree : (s.rxFreeq.flatMap fun b => [.rxbuff b, .urb b, .buf b]) =
      s.rxFreeq.flatMap fun b => bufObjs (s.flagRx b) b := by
    refine List.flatMap_congr fun b hmem => ?_
    rw [hb.kind .rx b hmem]
    rfl
  have hused : (s.used.flatMap fun b => (if s.flagRx b then [.rxbuff b] else []) ++ [.urb b, .buf b]) =
      s.used.flatMap fun b => bufObjs (s.flagRx b) b := rfl
  have htx : (List.range' 0 tx).flatMap (bufObjs false) =
      (List.range' 0 tx).flatMap fun b => bufObjs (s.flagRx b) b := by
    refine List.flatMap_congr fun b hmem => ?_
    have hlt := (List.mem_range'_1.1 hmem).2
    rw [hd.flagRx, decide_eq_false (by omega)]
  have hrx : (List.range' tx rx).flatMap (bufObjs true) =
      (List.range' tx rx).flatMap fun b => bufObjs (s.flagRx b) b := by
    refine List.flatMap_congr fun b hmem => ?_
    rw [hd.flagRx, decide_eq_true (List.mem_range'_1.1 hmem).1]
  have hall : h.live.Perm (s.txFreeq.flatMap (fun b => bufObjs (s.flagRx b) b) ++
      (s.rxFreeq.flatMap (fun b => bufObjs (s.flagRx b) b) ++
        (s.used.flatMap (fun b => bufObjs (s.flagRx b) b) ++ os))) := by
    refine hh.trans ?_
    rw [queueObjs, htx, hrx, ← List.flatMap_append, ← List.append_assoc, ← List.append_assoc, ← List.flatMap_append,
      ← List.flatMap_append]
    exact ((lists_perm hb).symm.flatMap_right _).append_right os
  obtain ⟨hlive1, hbad1⟩ := Ledger.freeAll_of_perm hall
  obtain ⟨hlive2, hbad2⟩ := Ledger.freeAll_of_perm hlive1
  obtain ⟨hlive3, hbad3⟩ := Ledger.freeAll_of_perm hlive2
  refine ⟨_, ?_, hlive3, hbad3.trans (hbad2.trans hbad1)⟩
  rw [hgicUsbFree, if_neg, htxFree, hrxFree, hused]
  simp [hq.not_inFlight]

theorem free_usbdev (hb : BufInv (tx + rx) s) (hd : DataInv tx s) (hq : Quiet s)
    (hh : h.live.Perm (queueObjs tx rx ++ .usbdev :: os)) :
    ∃ h', (hgicUsbFree s h).map (·.free .usbdev) = some h' ∧ h'.live.Perm os ∧ h'.bad = h.bad := by
  obtain ⟨h', hfree, hlive, hbad⟩ := free_perm hb hd hq hh
  obtain ⟨hleft, hsame⟩ := Ledger.free_of_perm hlive
  exact ⟨h'.free .usbdev, by rw [hfree]; rfl, hleft, hsame.trans hbad⟩

theorem release_orphans {hg : Option Wdev} {h' : Ledger Obj} (hr : hgicUsbRelease hg s h = some h') :
    orphans h' = orphans (hgicfCoreRemove hg h) := by
  unfold hgicUsbRelease hgicUsbFree at hr
  split at hr
  · cases hr
  · cases hr
    simp only [orphans, Ledger.free_refused, Ledger.freeAll_refused]

/-- `usb_get_dev` is the only one to take it. -/
theorem udevRef_not_mem (tx rx : Nat) (h : Ledger Obj) :
    Obj.udevRef ∉ owned none ++ (queueObjs tx rx ++ .usbdev :: orphans h) := by
  have horphan : ∀ o, orphan o ≠ some .udevRef := fun o ho => by cases o <;> cases ho
  simp [owned, queueObjs, bufObjs, orphans, horphan]

end Free

section Device
variable {e : Nat → Bool} {devId txq rxq tx rx : Nat} {w : Wdev} {h : Ledger Obj}

theorem qinits_holds (e : Nat → Bool) (txq rxq : Nat) (hh : Holds h [.usbdev]) (horphan : orphans h = []) :
    let qtx := hgicUsbQinit e false 0 txq h
    let qrx := hgicUsbQinit e true qtx.1 rxq qtx.2
    (orphans qrx.2).length ≤ 1 ∧ Holds qrx.2 (queueObjs qtx.1 qrx.1 ++ .usbdev :: orphans qrx.2) := by
  dsimp only
  obtain ⟨ltx, htx⟩ := @qinitLoop_filled e false 0 h [.usbdev] txq 0 hh
  rw [← hgicUsbQinit] at htx
  generalize hgicUsbQinit e false 0 txq h = qtx at htx ⊢
  obtain ⟨lrx, hrx⟩ := @qinitLoop_filled e true qtx.1 qtx.2 _ rxq 0 htx.holds
  rw [← hgicUsbQinit] at hrx
  generalize hgicUsbQinit e true qtx.1 rxq qtx.2 = qrx at hrx ⊢
  have hleft : orphans qrx.2 = lrx := by
    rw [hrx.orphans, htx.orphans, horphan, htx.no_leak rfl, List.append_nil, List.append_nil]
  rw [hleft]
  refine ⟨hrx.short, hrx.holds.perm ?_⟩
  rw [htx.no_leak rfl, queueObjs, List.perm_iff_count]
  intro o
  simp only [List.count_append, List.count_cons, List.count_nil, Nat.zero_add, Nat.add_zero, Nat.sub_zero]
  omega

theorem probe_cases (e : Nat → Bool) (devId txq rxq : Nat) :
    (∃ h, hgicUsbProbeAlloc e devId txq rxq = .nomem h) ∨
      ∃ tx rx h, (orphans h).length ≤ 1 ∧ Holds h (queueObjs tx rx ++ .usbdev :: orphans h) ∧
        hgicUsbProbeAlloc e devId txq rxq = match hgicfCoreProbe e devId h with
          | (none, h) => .failed tx rx (hgicUsbRelease none (hgicUsbProbe tx rx) h)
          | (some w, h) => .bound tx rx w (h.alloc .udevRef) := by
  unfold hgicUsbProbeAlloc
  split
  · next h husb => exact .inl ⟨h, rfl⟩
  · next h husb =>
    obtain ⟨hone, hheld⟩ := qinits_holds e txq rxq (Holds.empty.tryAlloc_true husb)
      ((tryAlloc_orphans rfl husb).trans rfl)
    exact .inr ⟨_, _, _, hone, hheld, rfl⟩

theorem bound_holds (hp : hgicUsbProbeAlloc e devId txq rxq = .bound tx rx w h) : (orphans h).length ≤ 1 ∧
    Holds h (w.owns ++ .udevRef :: (queueObjs tx rx ++ .usbdev :: orphans h)) := by
  rcases probe_cases e devId txq rxq with ⟨h1, hno⟩ | ⟨tx', rx', h1, hone, hheld, heq⟩
  · rw [hno] at hp
    cases hp
  · have hcore := coreProbe_holds e devId hheld
    have hsame := coreProbe_orphans e devId h1
    rw [heq] at hp
    split at hp
    · cases hp
    · next v h2 hprobe =>
      rw [hprobe] at hcore hsame
      cases hp
      rw [show orphans (h2.alloc .udevRef) = orphans h1 from hsame]
      exact ⟨hone, ⟨(hcore.live.cons _).trans List.perm_middle.symm, hcore.bad⟩⟩

/-- Whatever is refused to the probe of a device that is bound, and whatever the bus and the device do until nothing is
under way any more: the end frees everything once, but the URBs whose data was refused, and of these there is one at
most. `rs` : the tries of `hgicf_delay_init` to create the interface. -/
theorem disconnect_frees (hp : hgicUsbProbeAlloc e devId txq rxq = .bound tx rx w h) (rs : List Bool) {as : List Act}
    {s : UsbDev} (hr : runFrom step (hgicUsbProbe tx rx) as = some s) (hq : Quiet s) :
    let r := delayInits e rs w h
    (orphans h).length ≤ 1 ∧
      ∃ h', hgicUsbRelease (some r.1) s r.2 = some h' ∧ h'.live.Perm (orphans h) ∧ h'.bad = [] := by
  obtain ⟨hone, hheld⟩ := bound_holds hp
  have hb : BufInv (tx + rx) s := reach_invariant step (fun _ _ _ => bufInv_step) (bufInv_init tx rx) hr
  have hd : DataInv tx s := reach_invariant step (fun _ _ _ => dataInv_step) (dataInv_init tx rx) hr
  have hinits := delayInits_holds e rs hheld
  have hremoved := (@coreRemove_holds _ _ (some (delayInits e rs w h).1) hinits).free
  obtain ⟨h', hrelease, hlive, hbad⟩ := free_usbdev hb hd hq hremoved.live
  exact ⟨hone, h', hrelease, hlive, hbad.trans hremoved.bad⟩

/-- A probe that finds no device in the end returns everything as well, and a reference to the USB device that it has
not taken. -/
theorem failed_frees {r : Option (Ledger Obj)} (hp : hgicUsbProbeAlloc e devId txq rxq = .failed tx rx r) :
    ∃ h', r = some h' ∧ (orphans h').length ≤ 1 ∧ h'.live.Perm (orphans h') ∧ h'.bad = [.udevRef] := by
  rcases probe_cases e devId txq rxq with ⟨h1, hno⟩ | ⟨tx', rx', h1, hone, hheld, heq⟩
  · rw [hno] at hp
    cases hp
  · have hcore := coreProbe_holds e devId hheld
    rw [heq] at hp
    split at hp
    · next h2 hprobe =>
      rw [hprobe] at hcore
      cases hp
      have hquiet : Quiet (hgicUsbProbe tx rx) := ⟨rfl, rfl, rfl⟩
      have hno : Obj.udevRef ∉ h2.live := fun hmem => udevRef_not_mem _ _ _ (hcore.live.mem_iff.1 hmem)
      have hput := Ledger.free_of_not_mem hno
      obtain ⟨h', hrelease, hlive, hbad⟩ := @free_usbdev tx rx _ (h2.free .udevRef) _
        (bufInv_init _ _) (dataInv_init _ _) hquiet (by rw [hput]; exact hcore.live)
      have hsame : orphans h' = orphans h1 := by
        rw [@release_orphans _ h2 none h' hrelease, coreRemove_orphans none, ← coreProbe_orphans e devId h1, hprobe]
      refine ⟨h', hrelease, ?_, ?_, ?_⟩
      · rw [hsame]
        exact hone
      · rw [hsame]
        exact hlive
      · rw [hbad, hput, hcore.bad]
    · cases hp

end Device

/-- The data of the second receive buffer is refused. The one that is left is submitted, and completes when the device
is unplugged. -/
theorem disconnect_frees_refused : ∃ w h s h',
    hgicUsbProbeAlloc (· != 8) 0x4002 1 2 = .bound 1 1 w h ∧
      runFrom step (hgicUsbProbe 1 1) [.submitRxUrbs, .run 0 true, .run 0 true, .run 0 true, .run 0 true,
        .status true false, .rxComplete 1, .run 0 true, .run 0 true] = some s ∧
      hgicUsbRelease (some (delayInits (· != 8) [false, true] w h).1) s (delayInits (· != 8) [false, true] w h).2 =
        some h' ∧ h'.live = [.urb 2] ∧ h'.bad = [] := by
  obtain ⟨w, h, hp, horphans⟩ : ∃ w h, hgicUsbProbeAlloc (· != 8) 0x4002 1 2 = .bound 1 1 w h ∧
    orphans h = [.urb 2] := ⟨_, _, rfl, rfl⟩
  obtain ⟨s, hr, hq⟩ : ∃ s, runFrom step (hgicUsbProbe 1 1) [.submitRxUrbs, .run 0 true, .run 0 true, .run 0 true,
    .run 0 true, .status true false, .rxComplete 1, .run 0 true, .run 0 true] = some s ∧ Quiet s :=
    ⟨_, rfl, rfl, rfl, rfl⟩
  obtain ⟨-, h', hrelease, hlive, hbad⟩ := disconnect_frees hp [false, true] hr hq
  rw [horphans] at hlive
  exact ⟨w, h, s, h', hp, hr, hrelease, List.perm_singleton.1 hlive, hbad⟩

/-- Nothing is refused to a device of the table of the bus driver that `hgicf_match_devid` does not know. -/
theorem failed_frees_4104 : ∃ h', hgicUsbProbeAlloc (fun _ => true) 0x4104 16 32 = .failed 16 32 (some h') ∧
    h'.bad = [.udevRef] := by
  obtain ⟨r, hp⟩ : ∃ r, hgicUsbProbeAlloc (fun _ => true) 0x4104 16 32 = .failed 16 32 r := ⟨_, rfl⟩
  obtain ⟨h', rfl, -, -, hbad⟩ := failed_frees hp
  exact ⟨h', hp, hbad⟩

/-- The second URB cannot be submitted while the first is: `hgic_usb_free` does not come back from the failed probe. -/
example : ∃ as s, runFrom step (hgicUsbProbe 1 2) as = some s ∧ s.ctxs = [] ∧ s.err = true ∧
    ∀ hg h, hgicUsbRelease hg s h = none :=
  ⟨[.submitRxUrbs, .run 0 true, .run 0 true, .run 0 true, .run 0 true, .run 0 true, .run 0 false, .run 0 true,
    .run 0 true, .run 0 true], _, rfl, rfl, rfl, fun _ _ => rfl⟩

end HgicFmac.Usb
