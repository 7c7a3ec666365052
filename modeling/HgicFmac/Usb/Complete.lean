import HgicFmac.Usb.Queues

/-!
# The skbs of the USB bus driver and `bus.tx_complete`

An skb that was given to `hgic_usb_tx_packet` is in the call (`Ctx.call`), is carried by a URB, submitted or with its
handler at `bus.tx_complete` (`UsbDev.carried`), or has been given to `bus.tx_complete`. Every access moves it from one
of these places to another (`runCtx_account`), so it is in exactly one of them (`SkbInv`).

A call that is in progress returns: `hgic_usb_tx_packet` has no loop, and the wait for the semaphore times out
(`call_returns`).
-/

namespace HgicFmac.Usb
open Lib

/-- The skb of a call of `hgic_usb_tx_packet`. -/
def Ctx.call : Ctx → List Nat
  | .txCheck k | .txDown k | .txRecheck k | .txDeq k | .txAlloc k _ | .txSubmit k _ | .txFail k _ | .txAbort k => [k]
  | _ => []

/-- The buffer of a handler that is about to call `bus.tx_complete`. -/
def Ctx.carries : Ctx → List Nat
  | .txDone b => [b]
  | _ => []

def UsbDev.inCall (s : UsbDev) : List Nat := s.ctxs.flatMap Ctx.call

/-- The skbs of the URBs whose handler has not called `bus.tx_complete`. -/
def UsbDev.carried (s : UsbDev) : List Nat := (s.txUrbs ++ s.ctxs.flatMap Ctx.carries).filterMap s.data

structure SkbInv (n : Nat) (s : UsbDev) : Prop where
  buf : BufInv n s
  one : ∀ k, s.completed.count k + s.inCall.count k + s.carried.count k = if k < s.calls then 1 else 0

theorem skbInv_init (tx rx : Nat) : SkbInv (tx + rx) (hgicUsbProbe tx rx) :=
  ⟨bufInv_init tx rx, fun _ => rfl⟩

section Access
variable {s t : UsbDev} {c : Ctx} {cs : List Ctx} {ok : Bool}

/-- What one access does to the skbs, with the buffers `rest` that other contexts carry. -/
structure Accounts (s : UsbDev) (c : Ctx) (t : UsbDev) (cs : List Ctx) (rest : List Nat) : Prop where
  calls : t.calls = s.calls
  skb : ∀ k, t.completed.count k + (cs.flatMap Ctx.call).count k +
      ((t.txUrbs ++ cs.flatMap Ctx.carries ++ rest).filterMap t.data).count k =
    s.completed.count k + c.call.count k + ((s.txUrbs ++ c.carries ++ rest).filterMap s.data).count k

/-- The context goes on, and the skb stays where it is. -/
theorem accounts_move {rest : List Nat} (hc : t.completed = s.completed ∧ t.txUrbs = s.txUrbs ∧ t.data = s.data ∧
    t.calls = s.calls) (hcall : cs.flatMap Ctx.call = c.call) (hcar : cs.flatMap Ctx.carries = c.carries) :
    Accounts s c t cs rest := by
  obtain ⟨hcompl, hu, hd, hcalls⟩ := hc
  refine ⟨hcalls, fun k => ?_⟩
  rw [hcompl, hu, hd, hcall, hcar]

/-- The buffers that are carried do not see the `data` of another one. -/
theorem filterMap_update {d : Nat → Option Nat} {b : Nat} {l : List Nat} (h : b ∉ l) (v : Option Nat) :
    l.filterMap (Function.update d b v) = l.filterMap d := by
  apply List.filterMap_congr
  intro x hx
  have hne : x ≠ b := fun he => h (he ▸ hx)
  exact Function.update_of_ne hne v d

theorem deq_frame (s : UsbDev) (q : Queue) : (hgicUsbDeq s q).2.completed = s.completed ∧
    (hgicUsbDeq s q).2.txUrbs = s.txUrbs ∧ (hgicUsbDeq s q).2.data = s.data ∧ (hgicUsbDeq s q).2.calls = s.calls := by
  unfold hgicUsbDeq
  split <;> exact ⟨rfl, rfl, rfl, rfl⟩

theorem enq_frame (s : UsbDev) (b : Nat) (q : Queue) : (hgicUsbEnq s b q).completed = s.completed ∧
    (hgicUsbEnq s b q).txUrbs = s.txUrbs ∧ (hgicUsbEnq s b q).data = s.data ∧ (hgicUsbEnq s b q).calls = s.calls := by
  cases q <;> exact ⟨rfl, rfl, rfl, rfl⟩

theorem runCtx_account {rest : List Nat} (hb : ∀ b ∈ c.buf .tx, b ∉ s.txUrbs ++ rest)
    (h : runCtx s ok c = some (t, cs)) : Accounts s c t cs rest := by
  have hsame : s.completed = s.completed ∧ s.txUrbs = s.txUrbs ∧ s.data = s.data ∧ s.calls = s.calls :=
    ⟨rfl, rfl, rfl, rfl⟩
  cases c with
  | txCheck j | txRecheck j | txAlloc j b =>
    simp only [runCtx, Option.some.injEq, Prod.mk.injEq] at h
    obtain ⟨rfl, rfl⟩ := h
    split <;> exact accounts_move hsame rfl rfl
  | txDown j =>
    simp only [runCtx] at h
    split at h
    · split at h
      · simp only [Option.some.injEq, Prod.mk.injEq] at h
        obtain ⟨rfl, rfl⟩ := h
        exact accounts_move hsame rfl rfl
      · cases h
    · simp only [Option.some.injEq, Prod.mk.injEq] at h
      obtain ⟨rfl, rfl⟩ := h
      exact accounts_move hsame rfl rfl
  | txDeq j =>
    have hframe := deq_frame s .tx
    simp only [runCtx] at h
    split at h <;> next he =>
      simp only [Option.some.injEq, Prod.mk.injEq] at h
      obtain ⟨rfl, rfl⟩ := h
      rw [he] at hframe
      exact accounts_move hframe rfl rfl
  | rxDeq =>
    have hframe := deq_frame s .rx
    simp only [runCtx] at h
    split at h <;> next he =>
      simp only [Option.some.injEq, Prod.mk.injEq] at h
      obtain ⟨rfl, rfl⟩ := h
      rw [he] at hframe
      exact accounts_move hframe rfl rfl
  | txSubmit j b =>
    have hnot := hb b List.mem_cons_self
    simp only [runCtx, Option.some.injEq] at h
    split at h <;> rw [Prod.mk.injEq] at h <;> obtain ⟨rfl, rfl⟩ := h
    · -- the URB takes over the skb
      rw [List.mem_append, not_or] at hnot
      refine ⟨rfl, fun k => ?_⟩
      simp only [Ctx.call, Ctx.carries, List.flatMap_nil, List.append_nil, List.filterMap_append, List.count_append,
        filterMap_update hnot.1, filterMap_update hnot.2, List.filterMap_cons, List.filterMap_nil,
        Function.update_self, List.count_nil]
      omega
    · refine ⟨rfl, fun k => ?_⟩
      simp only [Ctx.call, Ctx.carries, List.flatMap_singleton, List.append_nil, filterMap_update hnot]
  | txFail j b =>
    have hnot := hb b List.mem_cons_self
    simp only [runCtx, Option.some.injEq, Prod.mk.injEq] at h
    obtain ⟨rfl, rfl⟩ := h
    obtain ⟨hc, hu, hd, hcalls⟩ := enq_frame { s with data := Function.update s.data b none } b .tx
    refine ⟨hcalls, fun k => ?_⟩
    rw [hc, hu, hd]
    simp only [Ctx.call, Ctx.carries, List.flatMap_singleton, List.append_nil, filterMap_update hnot]
  | txAbort j =>
    simp only [runCtx, Option.some.injEq, Prod.mk.injEq] at h
    obtain ⟨rfl, rfl⟩ := h
    refine ⟨rfl, fun k => ?_⟩
    change (s.completed ++ [j]).count k + 0 + ((s.txUrbs ++ [] ++ rest).filterMap s.data).count k =
      s.completed.count k + [j].count k + ((s.txUrbs ++ [] ++ rest).filterMap s.data).count k
    rw [List.count_append, Nat.add_zero]
  | txDone b =>
    have hnot := hb b List.mem_cons_self
    rw [List.mem_append, not_or] at hnot
    simp only [runCtx, Option.some.injEq, Prod.mk.injEq] at h
    obtain ⟨rfl, rfl⟩ := h
    have hcarry : [b].filterMap s.data = (s.data b).toList := by
      cases hd : s.data b <;> simp [hd]
    refine ⟨rfl, fun k => ?_⟩
    simp only [Ctx.call, Ctx.carries, List.flatMap_singleton, List.append_nil, List.filterMap_append,
      List.count_append, filterMap_update hnot.1, filterMap_update hnot.2, hcarry, List.count_nil]
    omega
  | txEnq b =>
    simp only [runCtx, Option.some.injEq, Prod.mk.injEq] at h
    obtain ⟨rfl, rfl⟩ := h
    exact accounts_move (enq_frame s b .tx) rfl rfl
  | rxEnq b | rxFail b =>
    simp only [runCtx, Option.some.injEq, Prod.mk.injEq] at h
    obtain ⟨rfl, rfl⟩ := h
    exact accounts_move (enq_frame s b .rx) rfl rfl
  | txUp | rxErr | rxCancle =>
    simp only [runCtx, Option.some.injEq, Prod.mk.injEq] at h
    obtain ⟨rfl, rfl⟩ := h
    exact accounts_move hsame rfl rfl
  | rxStop b | rxStatus b loop =>
    simp only [runCtx, Option.some.injEq, Prod.mk.injEq] at h
    obtain ⟨rfl, rfl⟩ := h
    split <;> exact accounts_move hsame rfl rfl
  | rxSubmit b loop =>
    simp only [runCtx, Option.some.injEq] at h
    split at h <;> rw [Prod.mk.injEq] at h <;> obtain ⟨rfl, rfl⟩ := h
    · split <;> exact accounts_move hsame rfl rfl
    · exact accounts_move hsame rfl rfl

end Access

/-! ## The system -/

theorem carries_subset_buf {c : Ctx} {b : Nat} (h : b ∈ c.carries) : b ∈ c.buf .tx := by
  cases c with
  | txDone b' => exact h
  | txCheck | txDown | txRecheck | txDeq | txAlloc | txSubmit | txFail | txAbort | txEnq | txUp | rxStop | rxStatus
  | rxSubmit | rxEnq | rxFail | rxErr | rxCancle | rxDeq => cases h

section Step
variable {n : Nat} {s t : UsbDev}

theorem BufInv.count_held_le (hs : BufInv n s) (b : Nat) : (s.held .tx).count b ≤ 1 := by
  have hheld := hs.held b
  have hone := hs.one b
  split at hone <;> omega

theorem BufInv.not_carried (hs : BufInv n s) {c : Ctx} {pre post : List Ctx} (hsplit : s.ctxs = pre ++ [c] ++ post) :
    ∀ b ∈ c.buf .tx, b ∉ s.txUrbs ++ (pre ++ post).flatMap Ctx.carries := by
  intro b hb hmem
  have hle := hs.count_held_le b
  have hheld : s.held .tx = s.txUrbs ++ s.ctxs.flatMap (Ctx.buf .tx) := rfl
  rw [hheld, hsplit] at hle
  simp only [List.flatMap_append, List.flatMap_singleton, List.count_append] at hle
  have hpos := List.count_pos_iff.mpr hb
  have hother : 0 < (s.txUrbs ++ (pre ++ post).flatMap (Ctx.buf .tx)).count b := by
    rw [List.count_pos_iff]
    rcases List.mem_append.mp hmem with hmem | hmem
    · exact List.mem_append_left _ hmem
    · obtain ⟨d, hd, hbd⟩ := List.mem_flatMap.mp hmem
      exact List.mem_append_right _ (List.mem_flatMap.mpr ⟨d, hd, carries_subset_buf hbd⟩)
  simp only [List.flatMap_append, List.count_append] at hother
  omega

theorem skbInv_run {i : Nat} {ok : Bool} (hs : SkbInv n s) (h : step s (.run i ok) = some t) : SkbInv n t := by
  have hbuf := bufInv_step hs.buf h
  obtain ⟨c, post, u, cs, hsplit, -, hrun, rfl⟩ := run_cases h
  refine ⟨hbuf, fun k => ?_⟩
  have haccount := runCtx_account (hs.buf.not_carried hsplit) hrun
  have hacc := haccount.skb k
  have hone := hs.one k
  unfold UsbDev.inCall UsbDev.carried at hone ⊢
  rw [hsplit] at hone
  dsimp only
  rw [haccount.calls]
  simp only [List.flatMap_append, List.flatMap_singleton, List.filterMap_append, List.count_append] at hacc hone ⊢
  omega

theorem inCall_concat {c : Ctx} (h : t.ctxs = s.ctxs ++ [c]) : t.inCall = s.inCall ++ c.call := by
  unfold UsbDev.inCall
  rw [h, List.flatMap_append, List.flatMap_singleton]

theorem carried_concat {c : Ctx} (h : t.ctxs = s.ctxs ++ [c]) (hd : t.data = s.data) :
    t.carried = (t.txUrbs ++ (s.ctxs.flatMap Ctx.carries ++ c.carries)).filterMap s.data := by
  unfold UsbDev.carried
  rw [h, hd, List.flatMap_append, List.flatMap_singleton]

theorem skbInv_concat {c : Ctx} (hs : SkbInv n s) (hbuf : BufInv n t) (h : t.ctxs = s.ctxs ++ [c])
    (hd : t.data = s.data) (hu : t.txUrbs = s.txUrbs) (hc : t.completed = s.completed) (hk : t.calls = s.calls)
    (hcall : c.call = []) (hcar : c.carries = []) : SkbInv n t := by
  refine ⟨hbuf, fun k => ?_⟩
  rw [inCall_concat h, carried_concat h hd, hcall, hcar, hu, hc, hk, List.append_nil, List.append_nil]
  exact hs.one k

theorem skbInv_step {a : Act} (hs : SkbInv n s) (h : step s a = some t) : SkbInv n t := by
  have hbuf := bufInv_step hs.buf h
  cases a with
  | run i ok => exact skbInv_run hs h
  | status =>
    simp only [step, Option.some.injEq] at h
    subst h
    exact ⟨hbuf, hs.one⟩
  | txPacket =>
    simp only [step, Option.some.injEq] at h
    have hctxs : t.ctxs = s.ctxs ++ [.txCheck s.calls] := by rw [← h]
    have hcalls : t.calls = s.calls + 1 := by rw [← h]
    refine ⟨hbuf, fun k => ?_⟩
    have hone := hs.one k
    have hsame : t.completed = s.completed ∧ t.carried = s.carried := by
      refine ⟨by rw [← h], ?_⟩
      rw [carried_concat hctxs (by rw [← h]), show t.txUrbs = s.txUrbs by rw [← h]]
      rw [show (Ctx.txCheck s.calls).carries = [] from rfl, List.append_nil]
      rfl
    rw [hsame.1, hsame.2, hcalls, inCall_concat hctxs, List.count_append, show (Ctx.txCheck s.calls).call = [s.calls]
      from rfl, List.count_singleton]
    by_cases hk : s.calls = k
    · rw [if_neg (by omega)] at hone
      rw [if_pos (by simp [hk]), if_pos (by omega)]
      omega
    · rw [if_neg (by simp [hk])]
      by_cases hlt : k < s.calls
      · rw [if_pos hlt] at hone
        rw [if_pos (by omega)]
        omega
      · rw [if_neg hlt] at hone
        rw [if_neg (by omega)]
        omega
  | submitRxUrbs =>
    simp only [step, Option.some.injEq] at h
    subst h
    exact skbInv_concat hs hbuf rfl rfl rfl rfl rfl rfl rfl
  | txComplete b =>
    simp only [step] at h
    split at h
    · next hmem =>
      rw [Option.some.injEq] at h
      have hctxs : t.ctxs = s.ctxs ++ [.txDone b] := by rw [← h]
      refine ⟨hbuf, fun k => ?_⟩
      have hone := hs.one k
      -- the handler carries the skb of the URB
      have hperm : (s.txUrbs.filterMap s.data).count k = (([b] ++ s.txUrbs.erase b).filterMap s.data).count k :=
        ((List.perm_cons_erase hmem).filterMap s.data).count_eq k
      have hcar : t.carried.count k = s.carried.count k := by
        rw [carried_concat hctxs (by rw [← h]), show t.txUrbs = s.txUrbs.erase b by rw [← h]]
        simp only [UsbDev.carried, Ctx.carries, List.filterMap_append, List.count_append] at hperm ⊢
        omega
      rw [hcar, inCall_concat hctxs, show t.completed = s.completed by rw [← h], show t.calls = s.calls by rw [← h],
        show (Ctx.txDone b).call = [] from rfl, List.append_nil]
      exact hone
    · cases h
  | rxComplete b =>
    simp only [step] at h
    split at h
    · rw [Option.some.injEq] at h
      subst h
      exact skbInv_concat hs hbuf rfl rfl rfl rfl rfl rfl rfl
    · cases h

end Step

/-! ## A call returns -/

/-- The accesses that are left to a call of `hgic_usb_tx_packet`, at most. -/
def Ctx.left : Ctx → Nat
  | .txCheck _ => 8
  | .txDown _ => 7
  | .txRecheck _ => 6
  | .txDeq _ => 5
  | .txAlloc _ _ => 4
  | .txSubmit _ _ => 3
  | .txFail _ _ => 2
  | .txAbort _ => 1
  | _ => 0

/-- The `i`-th context goes on; a wait for the semaphore times out when there is no token. -/
def runOrTimeout (i : Nat) (s : UsbDev) (ok : Bool) : Option UsbDev :=
  (step s (.run i ok)).or (step s (.run i false))

section Returns
variable {n : Nat} {s t : UsbDev} {c : Ctx} {k i : Nat}

theorem runCtx_left (hc : c.call = [k]) (ok : Bool) : ∃ t cs, (runCtx s ok c).or (runCtx s false c) = some (t, cs) ∧
    (cs = [] ∨ ∃ d, cs = [d] ∧ d.call = [k] ∧ d.left < c.left) := by
  cases c with
  | txCheck j | txRecheck j =>
    refine ⟨s, _, rfl, .inr ?_⟩
    split
    · exact ⟨_, rfl, hc, by simp [Ctx.left]⟩
    · exact ⟨_, rfl, hc, by simp [Ctx.left]⟩
  | txDown j =>
    cases ok with
    | false => exact ⟨s, _, rfl, .inr ⟨_, rfl, hc, by simp [Ctx.left]⟩⟩
    | true =>
      simp only [runCtx, if_true, Bool.false_eq_true, if_false]
      split
      · exact ⟨_, _, rfl, .inr ⟨.txRecheck j, rfl, hc, by simp [Ctx.left]⟩⟩
      · exact ⟨_, _, rfl, .inr ⟨.txAbort j, rfl, hc, by simp [Ctx.left]⟩⟩
  | txDeq j =>
    simp only [runCtx]
    split
    · exact ⟨_, _, rfl, .inr ⟨.txAbort j, rfl, hc, by simp [Ctx.left]⟩⟩
    · exact ⟨_, _, rfl, .inr ⟨.txAlloc j _, rfl, hc, by simp [Ctx.left]⟩⟩
  | txAlloc j b =>
    refine ⟨s, _, rfl, .inr ?_⟩
    cases ok with
    | true => exact ⟨.txSubmit j b, rfl, hc, by simp [Ctx.left]⟩
    | false => exact ⟨.txAbort j, rfl, hc, by simp [Ctx.left]⟩
  | txSubmit j b =>
    cases ok with
    | true => exact ⟨_, _, rfl, .inl rfl⟩
    | false => exact ⟨_, _, rfl, .inr ⟨.txFail j b, rfl, hc, by simp [Ctx.left]⟩⟩
  | txFail j b => exact ⟨_, _, rfl, .inr ⟨.txAbort j, rfl, hc, by simp [Ctx.left]⟩⟩
  | txAbort j => exact ⟨_, _, rfl, .inl rfl⟩
  | txDone | txEnq | txUp | rxStop | rxStatus | rxSubmit | rxEnq | rxFail | rxErr | rxCancle | rxDeq => cases hc

theorem runOrTimeout_eq {post : List Ctx} (hdrop : s.ctxs.drop i = c :: post) (ok : Bool) :
    runOrTimeout i s ok = ((runCtx s ok c).or (runCtx s false c)).map
      fun r => { r.1 with ctxs := s.ctxs.take i ++ r.2 ++ post } := by
  simp only [runOrTimeout, step, hdrop, Option.map_or]

theorem skbInv_runOrTimeout {ok : Bool} (hs : SkbInv n s) (h : runOrTimeout i s ok = some t) : SkbInv n t := by
  rcases Option.or_eq_some_iff.mp h with h | ⟨-, h⟩
  · exact skbInv_step hs h
  · exact skbInv_step hs h

theorem SkbInv.count_inCall_le (hs : SkbInv n s) (k : Nat) : s.inCall.count k ≤ 1 := by
  have := hs.one k
  split at this <;> omega

/-- The context of the call has the place `i`, or the call has returned. -/
def CallAt (i k : Nat) (s : UsbDev) : Prop :=
  k ∉ s.inCall ∨ ∃ c post, s.ctxs.drop i = c :: post ∧ c.call = [k]

def callLeft (i k : Nat) (s : UsbDev) : Nat :=
  if k ∈ s.inCall then (s.ctxs.drop i).head?.elim 0 Ctx.left else 0

theorem callAt_step (hs : SkbInv n s) (h : CallAt i k s) (ok : Bool) : k ∉ s.inCall ∨
    ∃ t, runOrTimeout i s ok = some t ∧ CallAt i k t ∧ callLeft i k t < callLeft i k s := by
  by_cases hk : k ∈ s.inCall
  · obtain ⟨c, post, hdrop, hc⟩ := h.resolve_left (not_not.mpr hk)
    obtain ⟨u, cs, hrun, hcs⟩ := runCtx_left (s := s) hc ok
    have hsplit : s.ctxs = s.ctxs.take i ++ c :: post := by rw [← hdrop, List.take_append_drop]
    have hlen : (s.ctxs.take i).length = i := by
      rw [List.length_take]
      have hlt := congrArg List.length hdrop
      rw [List.length_drop, List.length_cons] at hlt
      omega
    have hleft : callLeft i k s = c.left := by
      rw [callLeft, if_pos hk, hdrop]
      rfl
    refine .inr ⟨{ u with ctxs := s.ctxs.take i ++ cs ++ post }, by rw [runOrTimeout_eq hdrop, hrun]; rfl, ?_⟩
    rcases hcs with rfl | ⟨d, rfl, hd, hlt⟩
    · -- the skb was only in this context
      have hle := hs.count_inCall_le k
      have hnot : k ∉ ({ u with ctxs := s.ctxs.take i ++ [] ++ post } : UsbDev).inCall := by
        rw [← List.count_eq_zero]
        rw [UsbDev.inCall, hsplit] at hle
        simp only [List.flatMap_append, List.flatMap_cons, List.count_append, hc, List.count_singleton_self] at hle
        simp only [UsbDev.inCall, List.append_nil, List.flatMap_append, List.count_append]
        omega
      refine ⟨.inl hnot, ?_⟩
      rw [callLeft, if_neg hnot, hleft]
      cases c with
      | txCheck | txDown | txRecheck | txDeq | txAlloc | txSubmit | txFail | txAbort => exact Nat.succ_pos _
      | txDone | txEnq | txUp | rxStop | rxStatus | rxSubmit | rxEnq | rxFail | rxErr | rxCancle | rxDeq => cases hc
    · have hdrop' : (s.ctxs.take i ++ [d] ++ post).drop i = d :: post := by
        rw [List.append_assoc]
        exact List.drop_left' hlen
      refine ⟨.inr ⟨d, post, hdrop', hd⟩, ?_⟩
      rw [hleft, callLeft]
      split
      · dsimp only
        rw [hdrop']
        exact hlt
      · exact Nat.lt_of_le_of_lt (Nat.zero_le _) hlt
  · exact .inl hk

/-- Every call of `hgic_usb_tx_packet` returns, whatever the outcomes are. -/
theorem call_returns (hs : SkbInv n s) (h : CallAt i k s) : Reaches (runOrTimeout i) (fun t => k ∉ t.inCall) s := by
  have hstep : ∀ u ok, SkbInv n u ∧ CallAt i k u → k ∉ u.inCall ∨
      ∃ t, runOrTimeout i u ok = some t ∧ (SkbInv n t ∧ CallAt i k t) ∧ callLeft i k t < callLeft i k u := by
    intro u ok hu
    rcases callAt_step hu.1 hu.2 ok with hd | ⟨t, ht, hat, hlt⟩
    · exact .inl hd
    · exact .inr ⟨t, ht, ⟨skbInv_runOrTimeout hu.1 ht, hat⟩, hlt⟩
  exact reaches_of_measure _ (callLeft i k) hstep ⟨hs, h⟩

end Returns

end HgicFmac.Usb
