import HgicFmac.Usb.Model
import Mathlib.Data.List.Nodup

/-!
# Every buffer is in one list

Every step leaves the lists alone, takes the first buffer of a free queue into `used` for a context, or returns the
buffer of a context to its free queue (`BufCase`). So the buffers stay in exactly one list each, and those that a
context or a submitted URB holds are in `used` (`BufInv`).
-/

namespace HgicFmac.Usb
open Lib

/-- The buffer that a context holds, by the queue it belongs to. -/
def Ctx.buf : Queue → Ctx → List Nat
  | .tx, .txAlloc _ b | .tx, .txSubmit _ b | .tx, .txFail _ b | .tx, .txDone b | .tx, .txEnq b => [b]
  | .rx, .rxStop b | .rx, .rxStatus b _ | .rx, .rxSubmit b _ | .rx, .rxEnq b | .rx, .rxFail b => [b]
  | _, _ => []

def UsbDev.urbs (s : UsbDev) : Queue → List Nat
  | .tx => s.txUrbs
  | .rx => s.rxUrbs

def UsbDev.held (s : UsbDev) (q : Queue) : List Nat := s.urbs q ++ s.ctxs.flatMap (Ctx.buf q)

def UsbDev.lists (s : UsbDev) : List Nat × List Nat × List Nat × (Nat → Bool) × (Nat → Bool) :=
  (s.txFreeq, s.rxFreeq, s.used, s.flagUsed, s.flagRx)

/-- One for the buffer `b` of the queue `q`. -/
def oneOf (q : Queue) (b : Nat) (q' : Queue) (x : Nat) : Nat := if q' = q ∧ x = b then 1 else 0

theorem count_one (q q' : Queue) (b x : Nat) : (if q' = q then [b] else []).count x = oneOf q b q' x := by
  unfold oneOf
  by_cases hq : q' = q
  · by_cases hx : x = b
    · simp [hq, hx]
    · simp [hq, hx, Ne.symm hx]
  · simp [hq]

/-- The effect of a step on the lists, with the URBs and the contexts `cs` before and `cs'` after it. -/
inductive BufCase (s : UsbDev) (cs : List Ctx) (t : UsbDev) (cs' : List Ctx) : Prop
  | keep (hl : t.lists = s.lists)
      (hh : ∀ q x, (t.urbs q ++ cs'.flatMap (Ctx.buf q)).count x ≤ (s.urbs q ++ cs.flatMap (Ctx.buf q)).count x)
  | deq (q : Queue) (b : Nat) (rest : List Nat) (hq : s.freeq q = b :: rest)
      (hl : t.lists = (hgicUsbDeq s q).2.lists)
      (hh : ∀ q' x, (t.urbs q' ++ cs'.flatMap (Ctx.buf q')).count x =
        (s.urbs q' ++ cs.flatMap (Ctx.buf q')).count x + oneOf q b q' x)
  | enq (q : Queue) (b : Nat) (hl : t.lists = (hgicUsbEnq s b q).lists)
      (hh : ∀ q' x, (t.urbs q' ++ cs'.flatMap (Ctx.buf q')).count x + oneOf q b q' x =
        (s.urbs q' ++ cs.flatMap (Ctx.buf q')).count x)

theorem BufCase.frame {s t : UsbDev} {cs cs' : List Ctx} (h : BufCase s cs t cs') (pre post : List Ctx) :
    BufCase s (pre ++ cs ++ post) t (pre ++ cs' ++ post) := by
  have hcount : ∀ (u : UsbDev) (ds : List Ctx) (q : Queue) (x : Nat),
      (u.urbs q ++ (pre ++ ds ++ post).flatMap (Ctx.buf q)).count x =
        (u.urbs q ++ ds.flatMap (Ctx.buf q)).count x + ((pre ++ post).flatMap (Ctx.buf q)).count x := by
    intro u ds q x
    simp only [List.count_append, List.flatMap_append]
    omega
  cases h with
  | keep hl hh =>
    refine .keep hl fun q x => ?_
    rw [hcount, hcount]
    exact Nat.add_le_add_right (hh q x) _
  | deq q b rest hq hl hh =>
    refine .deq q b rest hq hl fun q' x => ?_
    rw [hcount, hcount, hh q' x]
    omega
  | enq q b hl hh =>
    refine .enq q b hl fun q' x => ?_
    rw [hcount, hcount, ← hh q' x]
    omega

section Cases
variable {s t : UsbDev}

theorem BufCase.move {c : Ctx} {cs : List Ctx} (hl : t.lists = s.lists) (hu : ∀ q, t.urbs q = s.urbs q)
    (hb : ∀ q, cs.flatMap (Ctx.buf q) = c.buf q ∨ cs.flatMap (Ctx.buf q) = []) : BufCase s [c] t cs := by
  refine .keep hl fun q x => ?_
  have hle : (cs.flatMap (Ctx.buf q)).count x ≤ (c.buf q).count x := by
    rcases hb q with hb | hb
    · exact Nat.le_of_eq (by rw [hb])
    · rw [hb, List.count_nil]
      exact Nat.zero_le _
  rw [hu, List.count_append, List.count_append, List.flatMap_singleton]
  omega

theorem deq_cases (q : Queue) : (hgicUsbDeq s q = (none, s)) ∨
    ∃ b rest, s.freeq q = b :: rest ∧ hgicUsbDeq s q = (some b, (hgicUsbDeq s q).2) ∧
      ∀ q', (hgicUsbDeq s q).2.urbs q' = s.urbs q' := by
  cases hq : s.freeq q with
  | nil => exact .inl (by simp [hgicUsbDeq, hq])
  | cons b rest =>
    refine .inr ⟨b, rest, rfl, by simp [hgicUsbDeq, hq], fun q' => ?_⟩
    cases q' <;> simp [hgicUsbDeq, hq, UsbDev.urbs, UsbDev.listDel]

theorem urbs_enq (b : Nat) (q q' : Queue) : (hgicUsbEnq s b q).urbs q' = s.urbs q' := by
  cases q <;> cases q' <;> rfl

theorem BufCase.take {c : Ctx} {cs : List Ctx} {q : Queue} {b : Nat} {rest : List Nat} (hq : s.freeq q = b :: rest)
    (hl : t.lists = (hgicUsbDeq s q).2.lists) (hu : ∀ q', t.urbs q' = s.urbs q')
    (hb : ∀ q', c.buf q' = [] ∧ cs.flatMap (Ctx.buf q') = if q' = q then [b] else []) : BufCase s [c] t cs := by
  refine .deq q b rest hq hl fun q' x => ?_
  rw [hu, List.count_append, List.count_append, List.flatMap_singleton, (hb q').1, (hb q').2, List.count_nil,
    count_one]
  omega

theorem BufCase.give {c : Ctx} {cs : List Ctx} {q : Queue} {b : Nat} (hl : t.lists = (hgicUsbEnq s b q).lists)
    (hu : ∀ q', t.urbs q' = s.urbs q')
    (hb : ∀ q', cs.flatMap (Ctx.buf q') = [] ∧ c.buf q' = if q' = q then [b] else []) : BufCase s [c] t cs := by
  refine .enq q b hl fun q' x => ?_
  rw [hu, List.count_append, List.count_append, List.flatMap_singleton, (hb q').1, (hb q').2, List.count_nil,
    count_one]
  omega

theorem BufCase.submit {c : Ctx} {cs : List Ctx} {q : Queue} {b : Nat} (hl : t.lists = s.lists)
    (hu : ∀ q', t.urbs q' = s.urbs q' ++ if q' = q then [b] else [])
    (hb : ∀ q', cs.flatMap (Ctx.buf q') = [] ∧ c.buf q' = if q' = q then [b] else []) : BufCase s [c] t cs := by
  refine .keep hl fun q' x => Nat.le_of_eq ?_
  rw [hu, List.flatMap_singleton, (hb q').1, (hb q').2, List.append_nil]

theorem BufCase.complete {c : Ctx} {cs : List Ctx} {q : Queue} {b : Nat} (hl : t.lists = s.lists)
    (hmem : b ∈ s.urbs q) (hu : ∀ q', t.urbs q' = if q' = q then (s.urbs q').erase b else s.urbs q')
    (hb : ∀ q', c.buf q' = if q' = q then [b] else []) : BufCase s cs t (cs ++ [c]) := by
  refine .keep hl fun q' x => ?_
  rw [List.flatMap_append, List.flatMap_singleton, List.count_append, List.count_append, List.count_append, hu, hb,
    count_one, oneOf]
  have hpos := List.count_pos_iff.mpr hmem
  by_cases hq : q' = q
  · subst hq
    by_cases hx : x = b
    · subst hx
      rw [if_pos rfl, if_pos ⟨rfl, rfl⟩, List.count_erase_self]
      omega
    · rw [if_pos rfl, if_neg (fun hn => hx hn.2), List.count_erase_of_ne hx]
      omega
  · rw [if_neg hq, if_neg (fun hn => hq hn.1)]
    omega

theorem BufCase.withCtxs {cs cs' ds : List Ctx} (h : BufCase s cs t cs') : BufCase s cs { t with ctxs := ds } cs' := by
  have hu : ∀ q, ({ t with ctxs := ds } : UsbDev).urbs q = t.urbs q := fun q => by cases q <;> rfl
  cases h with
  | keep hl hh => exact .keep hl fun q x => by rw [hu]; exact hh q x
  | deq q b rest hq hl hh => exact .deq q b rest hq hl fun q' x => by rw [hu]; exact hh q' x
  | enq q b hl hh => exact .enq q b hl fun q' x => by rw [hu]; exact hh q' x

theorem runCtx_cases {c : Ctx} {ok : Bool} {cs : List Ctx} (h : runCtx s ok c = some (t, cs)) :
    BufCase s [c] t cs := by
  cases c with
  | txCheck k | txRecheck k =>
    simp only [runCtx, Option.some.injEq, Prod.mk.injEq] at h
    obtain ⟨rfl, rfl⟩ := h
    refine .move rfl (fun _ => rfl) fun q => .inr ?_
    split <;> cases q <;> rfl
  | txDown k =>
    simp only [runCtx] at h
    split at h
    · split at h
      · simp only [Option.some.injEq, Prod.mk.injEq] at h
        obtain ⟨rfl, rfl⟩ := h
        exact .move rfl (fun q => by cases q <;> rfl) fun q => .inr (by cases q <;> rfl)
      · cases h
    · simp only [Option.some.injEq, Prod.mk.injEq] at h
      obtain ⟨rfl, rfl⟩ := h
      exact .move rfl (fun _ => rfl) fun q => .inr (by cases q <;> rfl)
  | txDeq k =>
    simp only [runCtx] at h
    rcases @deq_cases s .tx with he | ⟨b, rest, hq, he, hu⟩ <;> rw [he] at h <;>
      simp only [Option.some.injEq, Prod.mk.injEq] at h <;> obtain ⟨rfl, rfl⟩ := h
    · exact .move rfl (fun _ => rfl) fun q => .inr (by cases q <;> rfl)
    · exact .take hq rfl hu fun q' => by cases q' <;> exact ⟨rfl, rfl⟩
  | rxDeq =>
    simp only [runCtx] at h
    rcases @deq_cases s .rx with he | ⟨b, rest, hq, he, hu⟩ <;> rw [he] at h <;>
      simp only [Option.some.injEq, Prod.mk.injEq] at h <;> obtain ⟨rfl, rfl⟩ := h
    · exact .move rfl (fun _ => rfl) fun q => .inr (by cases q <;> rfl)
    · exact .take hq rfl hu fun q' => by cases q' <;> exact ⟨rfl, rfl⟩
  | txAlloc k b =>
    simp only [runCtx, Option.some.injEq, Prod.mk.injEq] at h
    obtain ⟨rfl, rfl⟩ := h
    refine .move rfl (fun _ => rfl) fun q => ?_
    split
    · exact .inl (by cases q <;> rfl)
    · -- the buffer is left in `used`
      exact .inr (by cases q <;> rfl)
  | txSubmit k b =>
    simp only [runCtx, Option.some.injEq] at h
    split at h <;> rw [Prod.mk.injEq] at h <;> obtain ⟨rfl, rfl⟩ := h
    · exact @BufCase.submit _ _ _ _ .tx b rfl (fun q' => by cases q' <;> simp [UsbDev.urbs])
        fun q' => by cases q' <;> exact ⟨rfl, rfl⟩
    · exact .move rfl (fun q => by cases q <;> rfl) fun q => .inl (by cases q <;> rfl)
  | txFail k b =>
    simp only [runCtx, Option.some.injEq, Prod.mk.injEq] at h
    obtain ⟨rfl, rfl⟩ := h
    exact @BufCase.give _ _ _ _ .tx b rfl (fun q' => by cases q' <;> rfl) fun q' => by cases q' <;> exact ⟨rfl, rfl⟩
  | txEnq b =>
    simp only [runCtx, Option.some.injEq, Prod.mk.injEq] at h
    obtain ⟨rfl, rfl⟩ := h
    exact .give rfl (urbs_enq b .tx) fun q' => by cases q' <;> exact ⟨rfl, rfl⟩
  | rxEnq b | rxFail b =>
    simp only [runCtx, Option.some.injEq, Prod.mk.injEq] at h
    obtain ⟨rfl, rfl⟩ := h
    exact .give rfl (urbs_enq b .rx) fun q' => by cases q' <;> exact ⟨rfl, rfl⟩
  | txAbort | txDone | txUp | rxErr | rxCancle =>
    simp only [runCtx, Option.some.injEq, Prod.mk.injEq] at h
    obtain ⟨rfl, rfl⟩ := h
    exact .move rfl (fun q => by cases q <;> rfl) fun q => .inl (by cases q <;> rfl)
  | rxStop b | rxStatus b loop =>
    simp only [runCtx, Option.some.injEq, Prod.mk.injEq] at h
    obtain ⟨rfl, rfl⟩ := h
    refine .move rfl (fun _ => rfl) fun q => .inl ?_
    split <;> cases q <;> rfl
  | rxSubmit b loop =>
    simp only [runCtx, Option.some.injEq] at h
    split at h <;> rw [Prod.mk.injEq] at h <;> obtain ⟨rfl, rfl⟩ := h
    · exact @BufCase.submit _ _ _ _ .rx b rfl (fun q' => by cases q' <;> simp [UsbDev.urbs])
        fun q' => by cases q' <;> cases loop <;> exact ⟨rfl, rfl⟩
    · exact .move rfl (fun _ => rfl) fun q => .inl (by cases q <;> rfl)

/-- The `i`-th context makes one access, and what is left of it takes its place. -/
theorem run_cases {i : Nat} {ok : Bool} (h : step s (.run i ok) = some t) :
    ∃ c post u cs, s.ctxs = s.ctxs.take i ++ [c] ++ post ∧ (s.ctxs.drop i).head? = some c ∧
      runCtx s ok c = some (u, cs) ∧ t = { u with ctxs := s.ctxs.take i ++ cs ++ post } := by
  simp only [step] at h
  split at h
  · cases h
  · rename_i c post hdrop
    rw [Option.map_eq_some_iff] at h
    obtain ⟨⟨u, cs⟩, hrun, rfl⟩ := h
    refine ⟨c, post, u, cs, ?_, by rw [hdrop]; rfl, hrun, rfl⟩
    rw [List.append_assoc, List.singleton_append, ← hdrop, List.take_append_drop]

theorem buf_cases {a : Act} (h : step s a = some t) : BufCase s s.ctxs t t.ctxs := by
  cases a with
  | txPacket | submitRxUrbs =>
    simp only [step, Option.some.injEq] at h
    subst h
    refine .keep rfl fun q x => ?_
    cases q <;> simp [UsbDev.urbs, Ctx.buf]
  | txComplete b =>
    simp only [step] at h
    split at h
    · rename_i hmem
      rw [Option.some.injEq] at h
      subst h
      exact @BufCase.complete _ _ _ _ .tx b rfl hmem (fun q' => by cases q' <;> simp [UsbDev.urbs])
        fun q' => by cases q' <;> rfl
    · cases h
  | rxComplete b =>
    simp only [step] at h
    split at h
    · rename_i hmem
      rw [Option.some.injEq] at h
      subst h
      exact @BufCase.complete _ _ _ _ .rx b rfl hmem (fun q' => by cases q' <;> simp [UsbDev.urbs])
        fun q' => by cases q' <;> rfl
    · cases h
  | status =>
    simp only [step, Option.some.injEq] at h
    subst h
    exact .keep rfl fun q x => by cases q <;> exact Nat.le_refl _
  | run i ok =>
    obtain ⟨c, post, u, cs, hsplit, -, hrun, rfl⟩ := run_cases h
    have hframe := (runCtx_cases hrun).frame (s.ctxs.take i) post
    rw [← hsplit] at hframe
    exact hframe.withCtxs

end Cases

/-! ## The invariant -/

def Queue.isRx : Queue → Bool
  | .tx => false
  | .rx => true

/-- For the `n` buffers that `hgic_usb_qinit` created. -/
structure BufInv (n : Nat) (s : UsbDev) : Prop where
  one : ∀ b, s.txFreeq.count b + s.rxFreeq.count b + s.used.count b = if b < n then 1 else 0
  flag : ∀ b, s.flagUsed b = true ↔ b ∈ s.used
  kind : ∀ q, ∀ b ∈ s.freeq q, s.flagRx b = q.isRx
  held : ∀ b, (s.held .tx).count b + (s.held .rx).count b ≤ s.used.count b
  heldKind : ∀ q, ∀ b ∈ s.held q, s.flagRx b = q.isRx

theorem bufInv_init (tx rx : Nat) : BufInv (tx + rx) (hgicUsbProbe tx rx) where
  one b := by
    have hmap : (List.range rx).map (tx + ·) = List.range' tx rx := by
      rw [List.range'_eq_map_range]
    have happ : List.range tx ++ List.range' tx rx = List.range (tx + rx) := by
      rw [List.range_eq_range', List.range_eq_range', ← List.range'_append_1, Nat.zero_add]
    show (List.range tx).count b + ((List.range rx).map (tx + ·)).count b + 0 = _
    rw [hmap, Nat.add_zero, ← List.count_append, happ]
    split
    · rename_i hlt
      exact List.count_eq_one_of_mem List.nodup_range (List.mem_range.mpr hlt)
    · rename_i hlt
      exact List.count_eq_zero_of_not_mem fun hmem => hlt (List.mem_range.mp hmem)
  flag b := by simp [hgicUsbProbe]
  kind q b hb := by
    cases q with
    | tx =>
      have hlt : b < tx := List.mem_range.mp hb
      simp [hgicUsbProbe, Queue.isRx, hlt]
    | rx =>
      obtain ⟨i, -, rfl⟩ := List.mem_map.mp hb
      simp [hgicUsbProbe, Queue.isRx]
  held b := Nat.le_refl 0
  heldKind q b hb := by
    cases q <;> simp [UsbDev.held, UsbDev.urbs, hgicUsbProbe] at hb

section Step
variable {n : Nat} {s t : UsbDev}

theorem BufInv.count_of_pos (hs : BufInv n s) {b : Nat}
    (h : 0 < s.txFreeq.count b + s.rxFreeq.count b + s.used.count b) :
    s.txFreeq.count b + s.rxFreeq.count b + s.used.count b = 1 := by
  have := hs.one b
  split at this <;> omega

theorem count_freeq_le (s : UsbDev) (q : Queue) (b : Nat) :
    (s.freeq q).count b ≤ s.txFreeq.count b + s.rxFreeq.count b := by
  cases q with
  | tx => exact Nat.le_add_right _ _
  | rx => exact Nat.le_add_left _ _

theorem oneOf_add (q : Queue) (b x : Nat) : oneOf q b .tx x + oneOf q b .rx x = if x = b then 1 else 0 := by
  cases q <;> by_cases hx : x = b <;> simp [oneOf, hx]

theorem count_erase_eq (l : List Nat) (b x : Nat) : (l.erase b).count x = l.count x - if x = b then 1 else 0 := by
  by_cases hx : x = b
  · subst hx
    rw [List.count_erase_self, if_pos rfl]
  · rw [List.count_erase_of_ne hx, if_neg hx, Nat.sub_zero]

theorem bufInv_deq (hs : BufInv n s) {q : Queue} {b : Nat} {rest : List Nat} (hq : s.freeq q = b :: rest)
    (hl : t.lists = (hgicUsbDeq s q).2.lists)
    (hh : ∀ q' x, (t.held q').count x = (s.held q').count x + oneOf q b q' x) : BufInv n t := by
  simp only [UsbDev.lists, hgicUsbDeq, hq, UsbDev.listDel, Prod.mk.injEq] at hl
  obtain ⟨htx, hrx, hused, hflag, hkind⟩ := hl
  -- the buffer is in this queue and nowhere else
  have hmem : 0 < (s.freeq q).count b := by
    rw [hq, List.count_cons_self]
    omega
  have hle := count_freeq_le s q b
  have hone := hs.count_of_pos (b := b) (by omega)
  have hb := hs.kind q b (by rw [hq]; exact List.mem_cons_self)
  have hfree : ∀ q' x, x ∈ t.freeq q' → x ∈ s.freeq q' := by
    intro q' x hx
    cases q' with
    | tx =>
      rw [UsbDev.freeq, htx] at hx
      exact List.mem_of_mem_erase hx
    | rx =>
      rw [UsbDev.freeq, hrx] at hx
      exact List.mem_of_mem_erase hx
  refine ⟨fun x => ?_, fun x => ?_, fun q' x hx => ?_, fun x => ?_, fun q' x hx => ?_⟩
  · rw [htx, hrx, hused, List.count_append, count_erase_eq, count_erase_eq, count_erase_eq, ← hs.one x]
    by_cases hx : x = b
    · subst hx
      simp only [if_true, List.count_singleton_self]
      omega
    · simp [hx, Ne.symm hx]
  · rw [hflag, hused, List.mem_append, List.mem_singleton]
    by_cases hx : x = b
    · subst hx
      simp
    · rw [Function.update_of_ne hx, List.mem_erase_of_ne hx, hs.flag x]
      simp [hx]
  · rw [hkind]
    exact hs.kind q' x (hfree q' x hx)
  · have hheld := hs.held x
    have hsum := oneOf_add q b x
    rw [hh, hh, hused, List.count_append, count_erase_eq]
    by_cases hx : x = b
    · subst hx
      simp only [if_true] at hsum
      simp only [if_true, List.count_singleton_self]
      omega
    · rw [if_neg hx] at hsum
      rw [if_neg hx]
      omega
  · rw [hkind]
    have hpos := List.count_pos_iff.mpr hx
    rw [hh, oneOf] at hpos
    split at hpos
    · rename_i he
      rw [he.1, he.2]
      exact hb
    · exact hs.heldKind q' x (List.count_pos_iff.mp hpos)

theorem bufInv_enq (hs : BufInv n s) {q : Queue} {b : Nat} (hl : t.lists = (hgicUsbEnq s b q).lists)
    (hh : ∀ q' x, (t.held q').count x + oneOf q b q' x = (s.held q').count x) : BufInv n t := by
  -- the buffer is held, so it is in `used` and nowhere else
  have hhold : 0 < (s.held q).count b := by
    rw [← hh q b, oneOf, if_pos ⟨rfl, rfl⟩]
    omega
  have hb := hs.heldKind q b (List.count_pos_iff.mp hhold)
  have hle : (s.held q).count b ≤ (s.held .tx).count b + (s.held .rx).count b := by
    cases q <;> omega
  have hheld := hs.held b
  have hone := hs.count_of_pos (b := b) (by omega)
  have hlists : (∀ q', t.freeq q' = (s.freeq q').erase b ++ if q' = q then [b] else []) ∧ t.used = s.used.erase b ∧
      t.flagUsed = Function.update s.flagUsed b false ∧ t.flagRx = s.flagRx := by
    cases q <;> simp only [UsbDev.lists, hgicUsbEnq, UsbDev.addTail, UsbDev.listDel, Prod.mk.injEq] at hl <;>
      obtain ⟨htx, hrx, hrest⟩ := hl <;> refine ⟨fun q' => ?_, hrest⟩ <;> cases q' <;>
      simp [UsbDev.freeq, htx, hrx]
  obtain ⟨hfree, hused, hflag, hkind⟩ := hlists
  refine ⟨fun x => ?_, fun x => ?_, fun q' x hx => ?_, fun x => ?_, fun q' x hx => ?_⟩
  · have htx : t.txFreeq.count x = (s.txFreeq.erase b).count x + oneOf q b .tx x := by
      rw [← count_one, ← List.count_append]
      exact congrArg (List.count x) (hfree .tx)
    have hrx : t.rxFreeq.count x = (s.rxFreeq.erase b).count x + oneOf q b .rx x := by
      rw [← count_one, ← List.count_append]
      exact congrArg (List.count x) (hfree .rx)
    have hsum := oneOf_add q b x
    rw [htx, hrx, hused, count_erase_eq, count_erase_eq, count_erase_eq, ← hs.one x]
    by_cases hx : x = b
    · subst hx
      simp only [if_true] at hsum ⊢
      omega
    · rw [if_neg hx] at hsum ⊢
      omega
  · rw [hflag, hused]
    by_cases hx : x = b
    · subst hx
      have hnot : x ∉ s.used.erase x := by
        rw [← List.count_eq_zero, List.count_erase_self]
        omega
      simp [hnot]
    · rw [Function.update_of_ne hx, List.mem_erase_of_ne hx]
      exact hs.flag x
  · rw [hkind]
    rw [hfree, List.mem_append] at hx
    rcases hx with hx | hx
    · exact hs.kind q' x (List.mem_of_mem_erase hx)
    · split at hx
      · rename_i hqq
        rw [List.mem_singleton] at hx
        rw [hqq, hx]
        exact hb
      · cases hx
  · have hheldx := hs.held x
    have hsum := oneOf_add q b x
    rw [← hh, ← hh] at hheldx
    rw [hused, count_erase_eq]
    omega
  · rw [hkind]
    refine hs.heldKind q' x (List.count_pos_iff.mp ?_)
    have := List.count_pos_iff.mpr hx
    rw [← hh]
    omega

theorem bufInv_step {a : Act} (hs : BufInv n s) (h : step s a = some t) : BufInv n t := by
  cases buf_cases h with
  | keep hl hh =>
    simp only [UsbDev.lists, Prod.mk.injEq] at hl
    obtain ⟨htx, hrx, hused, hflag, hkind⟩ := hl
    have hfree : ∀ q, t.freeq q = s.freeq q := fun q => by cases q <;> assumption
    refine ⟨fun b => ?_, fun b => ?_, fun q b hb => ?_, fun b => ?_, fun q b hb => ?_⟩
    · rw [htx, hrx, hused]
      exact hs.one b
    · rw [hflag, hused]
      exact hs.flag b
    · rw [hkind]
      exact hs.kind q b (hfree q ▸ hb)
    · rw [hused]
      exact Nat.le_trans (Nat.add_le_add (hh .tx b) (hh .rx b)) (hs.held b)
    · rw [hkind]
      refine hs.heldKind q b (List.count_pos_iff.mp ?_)
      exact Nat.lt_of_lt_of_le (List.count_pos_iff.mpr hb) (hh q b)
  | deq q b rest hq hl hh => exact bufInv_deq hs hq hl hh
  | enq q b hl hh => exact bufInv_enq hs hl hh

end Step

/-- In every state of every interleaving of submissions, completions, resubmissions and status changes: every created
buffer is in exactly one of the three lists, once; its USED flag is set exactly when it is in `used`; receive buffers
are not in `tx_freeq` and transmit buffers not in `rx_freeq`; and a URB is in flight only for a buffer in `used`. -/
theorem buffers_in_one_list {tx rx : Nat} {as : List Act} {s : UsbDev}
    (hr : runFrom step (hgicUsbProbe tx rx) as = some s) :
    (∀ b, s.txFreeq.count b + s.rxFreeq.count b + s.used.count b = if b < tx + rx then 1 else 0) ∧
    (∀ b, s.flagUsed b = true ↔ b ∈ s.used) ∧
    (∀ b, s.flagRx b = true → b ∉ s.txFreeq) ∧ (∀ b, s.flagRx b = false → b ∉ s.rxFreeq) ∧
    ∀ b, b ∈ s.txUrbs ∨ b ∈ s.rxUrbs → b ∈ s.used := by
  have hs : BufInv (tx + rx) s := reach_invariant step (fun _ _ _ => bufInv_step) (bufInv_init tx rx) hr
  refine ⟨hs.one, hs.flag, fun b hrx hmem => ?_, fun b hrx hmem => ?_, fun b hb => ?_⟩
  · have := hs.kind .tx b hmem
    rw [hrx] at this
    cases this
  · have := hs.kind .rx b hmem
    rw [hrx] at this
    cases this
  · have hheld := hs.held b
    rw [← List.count_pos_iff]
    rcases hb with hb | hb
    · have : 0 < (s.held .tx).count b := List.count_pos_iff.mpr (List.mem_append_left _ hb)
      omega
    · have : 0 < (s.held .rx).count b := List.count_pos_iff.mpr (List.mem_append_left _ hb)
      omega

/-- Both receive buffers are submitted, a packet is sent, and a receive URB completes and cannot be submitted again. -/
def rxFailRun : List Act :=
  [.submitRxUrbs, .run 0 true, .run 0 true, .run 0 true, .run 0 true, .run 0 true, .run 0 true, .run 0 true,
    .txPacket, .run 0 true, .run 0 true, .run 0 true, .run 0 true, .run 0 true, .run 0 true,
    .rxComplete 2, .run 0 true, .run 0 true, .run 0 false, .run 0 true, .run 0 true]

theorem buffers_in_one_list_rxFail :
    ∃ s, runFrom step (hgicUsbProbe 2 2) rxFailRun = some s ∧ s.err = true ∧ s.txUrbs = [0] ∧ s.rxUrbs = [3] ∧
      0 ∈ s.used ∧ 3 ∈ s.used := by
  obtain ⟨s, hr, herr, htx, hrx⟩ : ∃ s, runFrom step (hgicUsbProbe 2 2) rxFailRun = some s ∧ s.err = true ∧
    s.txUrbs = [0] ∧ s.rxUrbs = [3] := ⟨_, rfl, rfl, rfl, rfl⟩
  have h := (buffers_in_one_list hr).2.2.2.2
  exact ⟨s, hr, herr, htx, hrx, h 0 (.inl (by simp [htx])), h 3 (.inr (by simp [hrx]))⟩

end HgicFmac.Usb
