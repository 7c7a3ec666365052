import HgicFmac.Usb.Queues

/-!
# The semaphore and the free queue

`tx_sema` counts the buffers of `tx_freeq`. A call between `down_timeout` and `hgic_usb_deq` has taken its token and
not yet its buffer, and a completion between `hgic_usb_enq` and `up` has returned the buffer and not yet the token;
`Ctx.token` counts both. As long as no call fails behind `down_timeout` (`Ctx.good`) the two representations agree
(`SlotInv`). The paths behind `__fail` return the buffer, or nothing, and never the token.
-/

namespace HgicFmac.Usb
open Lib

/-- The difference between the free queue and the semaphore that a context makes. -/
def Ctx.token : Ctx → Nat
  | .txRecheck _ | .txDeq _ | .txUp => 1
  | _ => 0

def tokens (cs : List Ctx) : Nat := (cs.map Ctx.token).sum

/-- A call of `hgic_usb_tx_packet`. -/
def Ctx.inTxPacket : Ctx → Bool
  | .txCheck _ | .txDown _ | .txRecheck _ | .txDeq _ | .txAlloc _ _ | .txSubmit _ _ | .txFail _ _ | .txAbort _ => true
  | _ => false

/-- `hgic_usb_tx_complete` before `hgic_usb_enq`: the handler of a URB that still has its buffer. -/
def Ctx.beforeEnq : Ctx → Bool
  | .txDone _ | .txEnq _ => true
  | _ => false

/-- `hgic_usb_tx_complete` between `hgic_usb_enq` and `up`. -/
def Ctx.beforeUp : Ctx → Bool
  | .txUp => true
  | _ => false

/-- The access does not fail behind `down_timeout`: the status is clear at the second test, the bounce buffer is
there, and `usb_submit_urb` succeeds. -/
def Ctx.good (s : UsbDev) (ok : Bool) : Ctx → Bool
  | .txRecheck _ => !s.down
  | .txAlloc _ _ | .txSubmit _ _ => ok
  | _ => true

def Act.good (s : UsbDev) : Act → Bool
  | .run i ok => (s.ctxs.drop i).head?.all fun c => c.good s ok
  | _ => true

@[simp] theorem tokens_append (cs ds : List Ctx) : tokens (cs ++ ds) = tokens cs + tokens ds := by
  simp [tokens]

@[simp] theorem tokens_nil : tokens [] = 0 := rfl

@[simp] theorem tokens_cons (c : Ctx) (cs : List Ctx) : tokens (c :: cs) = c.token + tokens cs := by
  simp [tokens]

structure SlotInv (tx rx : Nat) (s : UsbDev) : Prop where
  buf : BufInv (tx + rx) s
  sema : s.txSema + tokens s.ctxs = s.txFreeq.length
  slots : s.txFreeq.length + (s.held .tx).length = tx
  noFail : ∀ k b, .txFail k b ∉ s.ctxs

/-- What one access of a context changes: the semaphore and the free queue together, and the slots together. -/
structure Balanced (s : UsbDev) (c : Ctx) (t : UsbDev) (cs : List Ctx) : Prop where
  sema : t.txSema + tokens cs + s.txFreeq.length = s.txSema + c.token + t.txFreeq.length
  slots : t.txFreeq.length + t.txUrbs.length + (cs.flatMap (Ctx.buf .tx)).length =
    s.txFreeq.length + s.txUrbs.length + (c.buf .tx).length
  noFail : ∀ k b, .txFail k b ∉ cs

section Step
variable {n : Nat} {s t : UsbDev}

theorem erase_txFreeq (hs : BufInv n s) {b : Nat} (h : 0 < s.rxFreeq.count b + s.used.count b) :
    s.txFreeq.erase b = s.txFreeq := by
  have := hs.count_of_pos (b := b) (by omega)
  exact List.erase_of_not_mem (List.count_eq_zero.mp (by omega))

theorem Balanced.move {c : Ctx} {cs : List Ctx} (hsema : t.txSema + tokens cs = s.txSema + c.token)
    (hq : t.txFreeq = s.txFreeq) (hu : t.txUrbs = s.txUrbs) (hb : cs.flatMap (Ctx.buf .tx) = c.buf .tx)
    (hf : ∀ k b, .txFail k b ∉ cs) : Balanced s c t cs := by
  refine ⟨?_, ?_, hf⟩
  · rw [hq, hsema]
  · rw [hq, hu, hb]

theorem runCtx_balanced {c : Ctx} {ok : Bool} {cs : List Ctx} (hs : BufInv n s)
    (hheld : ∀ q, ∀ b ∈ c.buf q, b ∈ s.used) (hgood : c.good s ok) (hfail : ∀ k b, c ≠ .txFail k b)
    (hfree : ∀ k, c = .txDeq k → s.txFreeq ≠ []) (h : runCtx s ok c = some (t, cs)) : Balanced s c t cs := by
  have herase : ∀ q, ∀ b ∈ c.buf q, s.txFreeq.erase b = s.txFreeq := fun q b hb =>
    erase_txFreeq hs (Nat.add_pos_right _ (List.count_pos_iff.mpr (hheld q b hb)))
  cases c with
  | txFail k b => exact absurd rfl (hfail k b)
  | txCheck k =>
    simp only [runCtx, Option.some.injEq, Prod.mk.injEq] at h
    obtain ⟨rfl, rfl⟩ := h
    split <;> exact .move rfl rfl rfl rfl (by simp)
  | txDown k =>
    simp only [runCtx] at h
    split at h
    · split at h
      · rename_i hpos
        simp only [Option.some.injEq, Prod.mk.injEq] at h
        obtain ⟨rfl, rfl⟩ := h
        refine .move ?_ rfl rfl rfl (by simp)
        simp only [tokens_cons, tokens_nil, Ctx.token]
        omega
      · cases h
    · simp only [Option.some.injEq, Prod.mk.injEq] at h
      obtain ⟨rfl, rfl⟩ := h
      exact .move rfl rfl rfl rfl (by simp)
  | txRecheck k =>
    -- the token would be lost here
    simp only [Ctx.good, Bool.not_eq_true'] at hgood
    simp only [runCtx, hgood, Option.some.injEq, Prod.mk.injEq] at h
    obtain ⟨rfl, rfl⟩ := h
    exact .move rfl rfl rfl rfl (by simp)
  | txDeq k =>
    cases hq : s.txFreeq with
    | nil => exact absurd hq (hfree k rfl)
    | cons b rest =>
      simp only [runCtx, hgicUsbDeq, UsbDev.freeq, hq, UsbDev.listDel, List.erase_cons_head, Option.some.injEq,
        Prod.mk.injEq] at h
      obtain ⟨rfl, rfl⟩ := h
      refine ⟨?_, ?_, by simp⟩ <;> simp [hq, Ctx.token, Ctx.buf] <;> omega
  | txAlloc k b | txSubmit k b =>
    simp only [Ctx.good] at hgood
    simp only [runCtx, hgood, if_true, Option.some.injEq, Prod.mk.injEq] at h
    obtain ⟨rfl, rfl⟩ := h
    refine ⟨?_, ?_, by simp⟩ <;> simp [Ctx.token, Ctx.buf] <;> omega
  | txEnq b =>
    simp only [runCtx, hgicUsbEnq, UsbDev.addTail, UsbDev.listDel, herase .tx b List.mem_cons_self, Option.some.injEq,
      Prod.mk.injEq] at h
    obtain ⟨rfl, rfl⟩ := h
    refine ⟨?_, ?_, by simp⟩ <;> simp [Ctx.token, Ctx.buf] <;> omega
  | txUp =>
    simp only [runCtx, Option.some.injEq, Prod.mk.injEq] at h
    obtain ⟨rfl, rfl⟩ := h
    exact .move rfl rfl rfl rfl (by simp)
  | rxEnq b | rxFail b =>
    simp only [runCtx, hgicUsbEnq, UsbDev.addTail, UsbDev.listDel, herase .rx b List.mem_cons_self, Option.some.injEq,
      Prod.mk.injEq] at h
    obtain ⟨rfl, rfl⟩ := h
    exact .move rfl rfl rfl rfl (by simp)
  | rxDeq =>
    cases hq : s.rxFreeq with
    | nil =>
      simp only [runCtx, hgicUsbDeq, UsbDev.freeq, hq, Option.some.injEq, Prod.mk.injEq] at h
      obtain ⟨rfl, rfl⟩ := h
      exact .move rfl rfl rfl rfl (by simp)
    | cons b rest =>
      have hb : s.txFreeq.erase b = s.txFreeq := erase_txFreeq hs (by rw [hq, List.count_cons_self]; omega)
      simp only [runCtx, hgicUsbDeq, UsbDev.freeq, hq, UsbDev.listDel, hb, Option.some.injEq, Prod.mk.injEq] at h
      obtain ⟨rfl, rfl⟩ := h
      exact .move rfl rfl rfl rfl (by simp)
  | txAbort | txDone | rxErr | rxCancle =>
    simp only [runCtx, Option.some.injEq, Prod.mk.injEq] at h
    obtain ⟨rfl, rfl⟩ := h
    exact .move rfl rfl rfl rfl (by simp)
  | rxStop | rxStatus =>
    simp only [runCtx, Option.some.injEq, Prod.mk.injEq] at h
    obtain ⟨rfl, rfl⟩ := h
    split <;> exact .move rfl rfl rfl rfl (by simp)
  | rxSubmit b loop =>
    simp only [runCtx, Option.some.injEq] at h
    split at h <;> rw [Prod.mk.injEq] at h <;> obtain ⟨rfl, rfl⟩ := h
    · split <;> exact .move rfl rfl rfl rfl (by simp)
    · exact .move rfl rfl rfl rfl (by simp)

theorem BufInv.mem_used (hs : BufInv n s) {q : Queue} {b : Nat} (h : b ∈ s.held q) : b ∈ s.used := by
  have hheld := hs.held b
  have hpos := List.count_pos_iff.mpr h
  rw [← List.count_pos_iff]
  cases q <;> omega

theorem slotInv_init (tx rx : Nat) : SlotInv tx rx (hgicUsbProbe tx rx) where
  buf := bufInv_init tx rx
  sema := by simp [hgicUsbProbe]
  slots := by simp [hgicUsbProbe, UsbDev.held, UsbDev.urbs]
  noFail k b := by simp [hgicUsbProbe]

theorem slotInv_run {tx rx i : Nat} {ok : Bool} (hs : SlotInv tx rx s) (hgood : (Act.run i ok).good s)
    (h : step s (.run i ok) = some t) : SlotInv tx rx t := by
  have hbuf := bufInv_step hs.buf h
  obtain ⟨c, post, u, cs, hsplit, hhead, hrun, rfl⟩ := run_cases h
  simp only [Act.good, hhead, Option.all_some] at hgood
  have hmem : c ∈ s.ctxs := by
    rw [hsplit]
    simp
  have hsema := hs.sema
  have hslots := hs.slots
  have hheldEq : s.held .tx = s.txUrbs ++ s.ctxs.flatMap (Ctx.buf .tx) := rfl
  rw [hsplit, tokens_append, tokens_append, tokens_cons, tokens_nil] at hsema
  rw [hheldEq, hsplit, List.flatMap_append, List.flatMap_append, List.flatMap_singleton] at hslots
  simp only [List.length_append] at hslots
  have hbal : Balanced s c u cs := by
    refine runCtx_balanced hs.buf (fun q b hb => ?_) hgood (fun k b he => ?_) (fun k he hnil => ?_) hrun
    · exact hs.buf.mem_used (q := q) (List.mem_append_right _ (List.mem_flatMap.mpr ⟨c, hmem, hb⟩))
    · exact hs.noFail k b (he ▸ hmem)
    · -- the call has taken a token, so a buffer is free
      rw [he, hnil, List.length_nil] at hsema
      simp only [Ctx.token] at hsema
      omega
  refine ⟨hbuf, ?_, ?_, fun k b hf => ?_⟩
  · have := hbal.sema
    simp only [tokens_append]
    omega
  · have := hbal.slots
    show u.txFreeq.length + (u.txUrbs ++ (s.ctxs.take i ++ cs ++ post).flatMap (Ctx.buf .tx)).length = tx
    simp only [List.flatMap_append, List.length_append]
    omega
  · have hnot := hs.noFail k b
    rw [hsplit] at hnot
    simp only [List.mem_append, not_or] at hnot hf
    rcases hf with (hf | hf) | hf
    · exact hnot.1.1 hf
    · exact hbal.noFail k b hf
    · exact hnot.2 hf

theorem slotInv_step {tx rx : Nat} {a : Act} (hs : SlotInv tx rx s) (hgood : a.good s) (h : step s a = some t) :
    SlotInv tx rx t := by
  have hbuf := bufInv_step hs.buf h
  have hslots := hs.slots
  have hnot := hs.noFail
  cases a with
  | run i ok => exact slotInv_run hs hgood h
  | status =>
    simp only [step, Option.some.injEq] at h
    subst h
    exact ⟨hbuf, hs.sema, hs.slots, hs.noFail⟩
  | txPacket | submitRxUrbs =>
    simp only [step, Option.some.injEq] at h
    subst h
    refine ⟨hbuf, ?_, ?_, by simpa using hnot⟩
    · simp only [tokens_append, tokens_cons, tokens_nil, Ctx.token, Nat.add_zero]
      exact hs.sema
    · simpa [UsbDev.held, UsbDev.urbs, Ctx.buf] using hslots
  | txComplete b =>
    simp only [step] at h
    split at h
    · rename_i hmem
      rw [Option.some.injEq] at h
      subst h
      refine ⟨hbuf, ?_, ?_, by simpa using hnot⟩
      · simp only [tokens_append, tokens_cons, tokens_nil, Ctx.token, Nat.add_zero]
        exact hs.sema
      · have hpos := List.length_pos_of_mem hmem
        simp only [UsbDev.held, UsbDev.urbs, List.length_append] at hslots
        simp only [UsbDev.held, UsbDev.urbs, List.flatMap_append, List.flatMap_singleton, Ctx.buf, List.length_append,
          List.length_singleton, List.length_erase_of_mem hmem]
        omega
    · cases h
  | rxComplete b =>
    simp only [step] at h
    split at h
    · rw [Option.some.injEq] at h
      subst h
      refine ⟨hbuf, ?_, ?_, by simpa using hnot⟩
      · simp only [tokens_append, tokens_cons, tokens_nil, Ctx.token, Nat.add_zero]
        exact hs.sema
      · simpa [UsbDev.held, UsbDev.urbs, Ctx.buf] using hslots
    · cases h

end Step

/-! ## Runs -/

theorem sum_eq_countP {cs : List Ctx} {g : Ctx → Nat} {p : Ctx → Bool} (h : ∀ c ∈ cs, g c = if p c then 1 else 0) :
    (cs.map g).sum = cs.countP p := by
  induction cs with
  | nil => rfl
  | cons c cs ih =>
    rw [List.map_cons, List.sum_cons, List.countP_cons, h c List.mem_cons_self,
      ih fun d hd => h d (List.mem_cons_of_mem c hd), Nat.add_comm]

/-- Without a call of `hgic_usb_tx_packet` only completions make a difference. -/
theorem tokens_eq {cs : List Ctx} (h : ∀ c ∈ cs, c.inTxPacket = false) : tokens cs = cs.countP Ctx.beforeUp := by
  apply sum_eq_countP
  intro c hc
  have hout := h c hc
  cases c <;> first | rfl | cases hout

theorem length_buf_eq {cs : List Ctx} (h : ∀ c ∈ cs, c.inTxPacket = false) :
    (cs.flatMap (Ctx.buf .tx)).length = cs.countP Ctx.beforeEnq := by
  rw [List.length_flatMap]
  apply sum_eq_countP
  intro c hc
  have hout := h c hc
  cases c <;> first | rfl | cases hout

/-- In every run without a failure behind `down_timeout`, whenever no call of `hgic_usb_tx_packet` is in progress:
`tx_sema` is the number of buffers in `tx_freeq`, up to the completions that have returned their buffer and are about
to call `up`; and these buffers and the submitted transmit URBs, with those whose handler still has its buffer, are
all that `hgic_usb_qinit` created. -/
theorem no_slot_lost {tx rx : Nat} {as : List Act} {s : UsbDev}
    (hg : Steps step (fun s a => a.good s) (hgicUsbProbe tx rx) as)
    (hr : runFrom step (hgicUsbProbe tx rx) as = some s) (hq : ∀ c ∈ s.ctxs, c.inTxPacket = false) :
    s.txSema + s.ctxs.countP Ctx.beforeUp = s.txFreeq.length ∧
    s.txFreeq.length + (s.txUrbs.length + s.ctxs.countP Ctx.beforeEnq) = tx ∧
    ((∀ c ∈ s.ctxs, c.beforeUp = false ∧ c.beforeEnq = false) →
      s.txSema = s.txFreeq.length ∧ s.txFreeq.length + s.txUrbs.length = tx) := by
  have hs : SlotInv tx rx s := run_invariant step (fun _ _ _ => slotInv_step) (slotInv_init tx rx) hg hr
  have hsema := hs.sema
  have hslots : s.txFreeq.length + (s.txUrbs ++ s.ctxs.flatMap (Ctx.buf .tx)).length = tx := hs.slots
  rw [tokens_eq hq] at hsema
  rw [List.length_append, length_buf_eq hq] at hslots
  refine ⟨hsema, hslots, fun hidle => ?_⟩
  have hup : s.ctxs.countP Ctx.beforeUp = 0 := by
    rw [List.countP_eq_zero]
    intro c hc
    simp [(hidle c hc).1]
  have henq : s.ctxs.countP Ctx.beforeEnq = 0 := by
    rw [List.countP_eq_zero]
    intro c hc
    simp [(hidle c hc).2]
  omega

/-- Two packets are submitted and one of them completes. -/
def twoPackets : List Act :=
  List.flatten [[.txPacket], List.replicate 6 (.run 0 true), [.txPacket], List.replicate 6 (.run 0 true),
    [.txComplete 0], List.replicate 3 (.run 0 true)]

theorem no_slot_lost_twoPackets :
    ∃ s, runFrom step (hgicUsbProbe 3 2) twoPackets = some s ∧ s.txUrbs = [1] ∧ s.txSema = s.txFreeq.length ∧
      s.txFreeq.length + s.txUrbs.length = 3 := by
  obtain ⟨s, hr, hurbs, hctxs⟩ : ∃ s, runFrom step (hgicUsbProbe 3 2) twoPackets = some s ∧ s.txUrbs = [1] ∧
    s.ctxs = [] := ⟨_, rfl, rfl, rfl⟩
  have h := (no_slot_lost (by decide) hr (by simp [hctxs])).2.2 (by simp [hctxs])
  exact ⟨s, hr, hurbs, h⟩

/-- `usb_submit_urb` fails: the buffer is free again, and its token is gone. -/
theorem no_slot_lost_fails : ¬ ∀ (tx rx : Nat) (as : List Act) (s : UsbDev),
    runFrom step (hgicUsbProbe tx rx) as = some s → s.ctxs = [] →
    s.txSema = s.txFreeq.length ∧ s.txFreeq.length + s.txUrbs.length = tx := by
  intro hall
  have h := (hall 1 0 (.txPacket :: List.flatten [List.replicate 5 (.run 0 true), List.replicate 3 (.run 0 false)]) _
    rfl rfl).1
  revert h
  decide

end HgicFmac.Usb
