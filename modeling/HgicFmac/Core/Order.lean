import HgicFmac.Core.Step
import HgicFmac.Core.Agg

/-!
# Order of the frames and cookies on the wire

While the flags permit transmission and nothing else empties the data queue, the data packets sent and being built
hold the accepted frames from the first one on, in order; the rest is in the hands of the work item and in the queue
(`OrderInv.order`, `OrderInv.frames`). Every header drew the next cookie (`OrderInv.cookies`, `OrderInv.wireCookies`).
This is the order of the history; that of the bytes is in `Core.OnWire`.
-/

namespace HgicFmac.Core
open Lib

def Wdev.Permits (s : Wdev) : Prop :=
  s.running ∧ ¬ s.suspend ∧ ¬ s.sleep ∧ ¬ s.inboot ∧ s.fwState = stateFw

instance (s : Wdev) : Decidable s.Permits := inferInstanceAs (Decidable (_ ∧ _))

/-- Nothing was accepted or sent yet, and no call is under way. -/
structure Wdev.Fresh (s : Wdev) : Prop where
  pc : s.pc = .idle
  xmit : s.xmit = .idle
  dataq : s.dataq = []
  wire : s.wire = []
  accepted : s.accepted = []

/-- The frame fits an aggregate of its own. -/
def fitsAlone (cfg : Cfg) (f : Frm) : Prop := hdrSize + align4 f.hdr.length ≤ cfg.ifAgg

/-! ## Consecutive cookies -/

/-- `n` consecutive 16-bit cookies from `c` on. -/
def consecutive (c n : Nat) : List Nat := (List.range n).map fun k => (c + k) % 2 ^ 16

theorem consecutive_succ (c n : Nat) : consecutive c (n + 1) = consecutive c n ++ [(c + n) % 2 ^ 16] := by
  simp [consecutive, List.range_succ]

theorem eq_consecutive_of_append {c n : Nat} {xs ys : List Nat} (h : xs ++ ys = consecutive c n) :
    xs = consecutive c xs.length := by
  have hlen : xs.length ≤ n := by
    have := congrArg List.length h
    simp only [List.length_append, consecutive, List.length_map, List.length_range] at this
    omega
  calc xs = (xs ++ ys).take xs.length := List.take_left.symm
    _ = consecutive c xs.length := by
      rw [h]
      unfold consecutive
      rw [← List.map_take, List.take_range, Nat.min_eq_left hlen]

/-- The cookies drawn since `c`, and the counter after them. -/
def Numbered (c counter : Nat) (xs : List Nat) : Prop :=
  xs = consecutive c xs.length ∧ counter % 2 ^ 16 = (c + xs.length) % 2 ^ 16

theorem Numbered.push {c counter : Nat} {xs : List Nat} (e : Endian) (h : Numbered c counter xs) :
    Numbered c ((counter + 1) % 2 ^ 16) (xs ++ [le16ToCpu e (cpuToLe16 e counter)]) := by
  rw [le16ToCpu_cpuToLe16, show counter % 65536 = (c + xs.length) % 2 ^ 16 from h.2]
  refine ⟨?_, ?_⟩
  · rw [List.length_append, List.length_singleton, consecutive_succ, ← h.1]
  · rw [List.length_append, List.length_singleton]
    have := h.2
    omega

/-! ## The invariant -/

def frmsOf (ws : List Wire) : List Frm := ws.flatMap Wire.frms

/-- The cookies of the packets, as the device reads them. -/
def cookiesOf (e : Endian) (ws : List Wire) : List Nat := (ws.flatMap (Wire.cookies e)).map (le16ToCpu e)

@[simp] theorem frmsOf_append (ws vs : List Wire) : frmsOf (ws ++ vs) = frmsOf ws ++ frmsOf vs :=
  List.flatMap_append

@[simp] theorem cookiesOf_append (e : Endian) (ws vs : List Wire) :
    cookiesOf e (ws ++ vs) = cookiesOf e ws ++ cookiesOf e vs := by
  unfold cookiesOf
  rw [List.flatMap_append, List.map_append]

/-- What holds at the positions of the work item that later steps rely on. -/
def Pc.Ok (cfg : Cfg) : Pc → Prop
  | .dataClear => False
  | .aggAlloc _ | .aggLoop _ _ => cfg.ifAgg ≠ 0
  | .aggDeq a => cfg.ifAgg ≠ 0 ∧ a.subs ≠ []
  | .aggSend a => a.subs ≠ []
  | _ => True

structure OrderInv (cfg : Cfg) (c : Nat) (s : Wdev) : Prop where
  order : frmsOf s.packets ++ s.rest = s.accepted
  cookies : Numbered c s.dataCookie (cookiesOf cfg.e s.packets)
  aggs : ∀ a, .agg a ∈ s.packets → a.Wf cfg.e ∧ a.length cfg.e ≤ cfg.ifAgg
  pc : s.pc.Ok cfg
  xmit : ∀ f ∈ s.accepted, ∃ p, f = xmitFrm cfg.e cfg.fwifidx p
  queue : ∀ f, s.xmit = .queue f → ∃ p, f = xmitFrm cfg.e cfg.fwifidx p

theorem xmitFrm_pos (e : Endian) (fwifidx : Nat) (p : Pkt) : 0 < (xmitFrm e fwifidx p).hdr.length :=
  cpuToLe16_pos e (Nat.add_pos_left (by decide) _) p.len_lt

theorem orderInv_init (cfg : Cfg) {s : Wdev} (h : s.Fresh) : OrderInv cfg s.dataCookie s where
  order := by simp [Wdev.packets, Wdev.rest, h.pc, h.dataq, h.wire, h.accepted, Pc.packet, Pc.hand, frmsOf]
  cookies := by simp [Wdev.packets, h.pc, h.wire, Pc.packet, cookiesOf, Numbered, consecutive]
  aggs a ha := by simp [Wdev.packets, h.pc, h.wire, Pc.packet] at ha
  pc := by
    rw [h.pc]
    trivial
  xmit f hf := by simp [h.accepted] at hf
  queue f hf := by simp [h.xmit] at hf

section Step
variable {cfg : Cfg} {c : Nat} {s t : Wdev} {a : Act}

theorem pc_ok (hp : s.Permits) (hs : s.pc.Ok cfg)
    (hback : ∀ a f, s.pc = .aggLoop a f → a.subs = [] → aggFits cfg.e cfg.ifAgg a f) (h : step cfg s a = some t) :
    t.pc.Ok cfg := by
  obtain ⟨-, -, hsleep, hinboot, -⟩ := hp
  rw [Bool.not_eq_true] at hsleep hinboot
  rcases step_work_or h with ⟨o, -, h⟩ | henv
  · simp only [workStep] at h
    cases hpc : s.pc with
    | idle => simp [hpc] at h
    | dataClear =>
      rw [hpc] at hs
      exact hs.elim
    | pick f =>
      simp only [hpc, Option.some.injEq] at h
      subst h
      simp only [Wdev.branch, Wdev.goto]
      split
      · rename_i hb
        simp only [Bool.and_eq_true, decide_eq_true_eq] at hb
        exact hb.2
      · trivial
    | aggAlloc f =>
      simp only [hpc, Option.some.injEq] at h
      subst h
      rw [hpc] at hs
      split
      · exact hs
      · trivial
    | aggLoop a f =>
      simp only [hpc, Option.some.injEq] at h
      subst h
      rw [hpc] at hs
      split
      · exact ⟨hs, by simp [aggAdd]⟩
      · rename_i hfit
        exact fun hnil => hfit (hback a f hpc hnil)
    | aggDeq a =>
      simp only [hpc] at h
      rw [hpc] at hs
      split at h <;> rw [Option.some.injEq] at h <;> subst h
      · exact hs.2
      · exact hs.1
    | ctrlDeq =>
      simp only [hpc] at h
      split at h <;> rw [Option.some.injEq] at h <;> subst h
      · trivial
      · simp only [Wdev.goto, ctrlNext]
        split <;> trivial
    | dataDeq =>
      simp only [hpc] at h
      split at h <;> rw [Option.some.injEq] at h <;> subst h <;> trivial
    | ctrlSend p =>
      simp only [hpc, Option.some.injEq] at h
      subst h
      simp only [Wdev.send]
      split <;> trivial
    | ctrlTop | ctrlSleep | ctrlRunning | ctrlClear | ctrlInboot | ctrlSetSleep | dataTop | dataFw | dataRunning
    | dataSuspend | dataSleep | dataInboot | wndFc | wndInboot | wndSleep | wndSuspend | wndRunning | wndFirst
    | wndRequest | wndSecond | wndDec | single | singleSend | aggSend | dataNext =>
      simp only [hpc, Option.some.injEq] at h
      subst h
      simp only [Wdev.branch, Wdev.goto, Wdev.send, Wdev.nextCookie, hsleep, hinboot]
      first
      | trivial
      | split <;> trivial
  · rcases henv.pc with he | he <;> rw [he]
    · exact hs
    · trivial

theorem queue_xmitFrm (hs : ∀ f, s.xmit = .queue f → ∃ p, f = xmitFrm cfg.e cfg.fwifidx p)
    (h : step cfg s a = some t) : ∀ f, t.xmit = .queue f → ∃ p, f = xmitFrm cfg.e cfg.fwifidx p := by
  rcases step_cases h with ⟨o, -, h⟩ | h
  · rw [(work_xmit h).1]
    exact hs
  · cases h with
    | move a x ha hx => exact hx
    | accept expanded f hx =>
      intro g hg
      cases hg
    | kick | busy | dropFrame | commands | flags | window | wakeUp => exact hs

theorem aggFits_of_subs_nil {a : Agg} {f : Frm} (ha : a.Wf cfg.e) (hnil : a.subs = []) (hf : fitsAlone cfg f) :
    aggFits cfg.e cfg.ifAgg a f := by
  unfold fitsAlone at hf
  simp only [aggFits, decide_eq_true_eq]
  rw [ha.length, hnil, subsLength_nil]
  omega

/-- A step that writes a header: the frame moves into the packet, which gets the next cookie. -/
theorem orderInv_header (hs : OrderInv cfg c s) {pc : Pc}
    (hfrms : frmsOf pc.packet ++ pc.hand = frmsOf s.pc.packet ++ s.pc.hand)
    (hcookies : cookiesOf cfg.e pc.packet =
      cookiesOf cfg.e s.pc.packet ++ [le16ToCpu cfg.e (cpuToLe16 cfg.e s.dataCookie)])
    (haggs : ∀ a, .agg a ∈ pc.packet → a.Wf cfg.e ∧ a.length cfg.e ≤ cfg.ifAgg) (hpc : pc.Ok cfg) :
    OrderInv cfg c (s.nextCookie.goto pc) := by
  have horder := hs.order
  have hnum := hs.cookies.push cfg.e
  unfold Wdev.packets at horder hnum
  rw [cookiesOf_append, List.append_assoc, ← hcookies, ← cookiesOf_append] at hnum
  rw [frmsOf_append, Wdev.rest, List.append_assoc, ← List.append_assoc (frmsOf s.pc.packet), ← hfrms] at horder
  refine ⟨?_, hnum, fun a ha => ?_, hpc, hs.xmit, hs.queue⟩
  · show frmsOf (s.wire.filter Wire.isData ++ pc.packet) ++ (pc.hand ++ s.dataq) = s.accepted
    rw [← horder, frmsOf_append]
    simp only [List.append_assoc]
  · rcases List.mem_append.mp ha with ha | ha
    · exact hs.aggs a (List.mem_append_left _ ha)
    · exact haggs a ha

/-- The frames have to fit only where an aggregate is built. -/
theorem orderInv_step (hagg : cfg.ifAgg < 2 ^ 16) (hs : OrderInv cfg c s) (hp : s.Permits) (ha : a.keepsFrames)
    (h : step cfg s a = some t)
    (hfit : ∀ g, .agg g ∈ s.packets ∨ .agg g ∈ t.packets → ∀ f ∈ s.accepted, cfg.ifAgg ≠ 0 → fitsAlone cfg f) :
    OrderInv cfg c t := by
  have hhand : ∀ f ∈ s.pc.hand, f ∈ s.accepted := fun f hf => by
    rw [← hs.order]
    simp [Wdev.rest, hf]
  have hpc : t.pc.Ok cfg := by
    refine pc_ok hp hs.pc (fun a f hpc hnil => ?_) h
    have hok := hs.pc
    rw [hpc] at hok hhand
    have hmem : .agg a ∈ s.packets := by simp [Wdev.packets, hpc, Pc.packet]
    exact aggFits_of_subs_nil (hs.aggs a hmem).1 hnil (hfit a (.inl hmem) f (hhand f (by simp [Pc.hand])) hok)
  have hqueue := queue_xmitFrm hs.queue h
  have hclear : s.pc ≠ .dataClear := fun hpc => by
    have := hs.pc
    rw [hpc] at this
    exact this
  cases frame_cases ha hclear h with
  | quiet hv =>
    simp only [Wdev.view, Prod.mk.injEq] at hv
    obtain ⟨hpk, hrest, hacc, hck⟩ := hv
    refine ⟨?_, ?_, ?_, hpc, ?_, hqueue⟩
    · rw [hpk, hrest, hacc]
      exact hs.order
    · rw [hpk, hck]
      exact hs.cookies
    · rw [hpk]
      exact hs.aggs
    · rw [hacc]
      exact hs.xmit
  | accept f hx =>
    refine ⟨?_, hs.cookies, hs.aggs, hpc, fun g hg => ?_, hqueue⟩
    · show frmsOf s.packets ++ (s.pc.hand ++ (s.dataq ++ [f])) = s.accepted ++ [f]
      rw [← hs.order]
      simp [Wdev.rest]
    · rw [List.mem_append, List.mem_singleton] at hg
      rcases hg with hg | rfl
      · exact hs.xmit g hg
      · exact hs.queue g hx
  | single f hf =>
    refine orderInv_header hs ?_ ?_ (fun a ha => ?_) hpc
    · simp [hf, Pc.packet, Pc.hand, frmsOf, Wire.frms, Wire.subs, singleSub]
    · simp [hf, Pc.packet, cookiesOf, Wire.cookies, singleSub]
    · simp [Pc.packet] at ha
  | alloc f m hf =>
    have hok := hs.pc
    rw [hf] at hok hhand
    refine orderInv_header hs ?_ ?_ (fun a ha => ?_) hpc
    · simp [hf, Pc.packet, Pc.hand, frmsOf, Wire.frms, Wire.subs, aggInit]
    · have hsubs : (aggInit cfg.e m s.dataCookie).subs = [] := rfl
      simp [hf, Pc.packet, cookiesOf, Wire.cookies, aggInit_cookie, hsubs]
    · have hmem : .agg (aggInit cfg.e m s.dataCookie) ∈
          (s.nextCookie.goto (.aggLoop (aggInit cfg.e m s.dataCookie) f)).packets :=
        List.mem_append_right _ (List.mem_singleton_self _)
      have hfits := hfit _ (.inr hmem) f (hhand f (by simp [Pc.hand])) hok
      unfold fitsAlone at hfits
      simp only [Pc.packet, List.mem_singleton, Wire.agg.injEq] at ha
      subst ha
      refine ⟨aggInit_wf cfg.e m s.dataCookie, ?_⟩
      rw [aggInit_length]
      omega
  | add a f hf hfits =>
    have hwf := (hs.aggs a (by simp [Wdev.packets, hf, Pc.packet])).1
    have h8 : hdrSize ≤ a.length cfg.e := by
      rw [hwf.length]
      omega
    simp only [aggFits, decide_eq_true_eq] at hfits
    have hsubs : (aggAdd cfg.e a f s.dataCookie).subs = a.subs ++ [⟨f, subHdr cfg.e f s.dataCookie⟩] := rfl
    refine orderInv_header hs ?_ ?_ (fun a' ha => ?_) hpc
    · simp [hf, Pc.packet, Pc.hand, frmsOf, Wire.frms, Wire.subs, hsubs]
    · simp [hf, Pc.packet, cookiesOf, Wire.cookies, aggAdd_cookie h8, hsubs, subHdr]
    · simp only [Pc.packet, List.mem_singleton, Wire.agg.injEq] at ha
      subst ha
      have hlt : a.length cfg.e + align4 f.hdr.length < 2 ^ 16 := by omega
      refine ⟨aggAdd_wf hwf hlt, ?_⟩
      rw [aggAdd_length h8, Nat.mod_eq_of_lt hlt]
      exact hfits
  | invalid a hf hlen =>
    -- an aggregate has a sub-frame here, and no frame has the length 0
    have hok := hs.pc
    rw [hf] at hok
    have hwf := (hs.aggs a (by simp [Wdev.packets, hf, Pc.packet])).1
    obtain ⟨x, xs, hx⟩ := List.exists_cons_of_ne_nil hok
    have hmem : x.frm ∈ s.accepted := by
      rw [← hs.order]
      simp [Wdev.packets, hf, Pc.packet, frmsOf, Wire.frms, Wire.subs, hx]
    obtain ⟨p, hp⟩ := hs.xmit x.frm hmem
    have hpos := xmitFrm_pos cfg.e cfg.fwifidx p
    rw [← hp] at hpos
    have hle := le_align4 x.frm.hdr.length
    rw [hwf.length, hx, subsLength_cons, hwf.aligned x (by simp [hx])] at hlen
    omega

end Step

/-! ## Runs -/

theorem flatMap_filter_isData {α : Type} {g : Wire → List α} (hg : ∀ w, w.isData = false → g w = [])
    (ws : List Wire) : (ws.filter Wire.isData).flatMap g = ws.flatMap g := by
  induction ws with
  | nil => rfl
  | cons w ws ih =>
    rw [List.filter_cons]
    split
    · rw [List.flatMap_cons, List.flatMap_cons, ih]
    · rename_i hw
      rw [List.flatMap_cons, hg w (by simpa using hw), ih, List.nil_append]

theorem frmsOf_filter (ws : List Wire) : frmsOf (ws.filter Wire.isData) = frmsOf ws :=
  flatMap_filter_isData (fun w hw => by cases w <;> first | rfl | cases hw) ws

theorem cookiesOf_filter (e : Endian) (ws : List Wire) : cookiesOf e (ws.filter Wire.isData) = cookiesOf e ws := by
  unfold cookiesOf
  rw [flatMap_filter_isData fun w hw => by cases w <;> first | rfl | cases hw]

theorem length_xmitFrm {fwifidx : Nat} (p : Pkt) :
    (xmitFrm .little fwifidx p).hdr.length = hdrSize + p.payload.length :=
  Nat.mod_eq_of_lt p.len_lt

/-- The invariant rule for what a step keeps while every accepted frame has `Q`: the frames of an earlier state are
among those of the last one. -/
theorem fitting_run {cfg : Cfg} {P : Wdev → Act → Prop} {Inv : Wdev → Prop} {Q : Frm → Prop} {s0 s : Wdev}
    {as : List Act}
    (hstep : ∀ u a v, Inv u → P u a → step cfg u a = some v → (∀ f ∈ u.accepted, Q f) → Inv v)
    (h0 : Inv s0) (hs : Steps (step cfg) P s0 as) (hr : runFrom (step cfg) s0 as = some s)
    (hQ : ∀ f ∈ s.accepted, Q f) : Inv s := by
  have hall : ∀ u a v, ((∀ f ∈ u.accepted, Q f) → Inv u) → P u a → step cfg u a = some v →
      (∀ f ∈ v.accepted, Q f) → Inv v := by
    intro u a v hu hp h hv
    have hsub : ∀ f ∈ u.accepted, Q f := fun f hf => hv f (accepted_subset h hf)
    exact hstep u a v (hu hsub) hp h hsub
  exact run_invariant (step cfg) hall (fun _ => h0) hs hr hQ

section History
variable {cfg : Cfg} {c : Nat} {s : Wdev}

/-- The packets handed to the bus hold the accepted frames from the first one on; the others are with the work item, in
its packet and then in its hands, or in the queue. -/
theorem OrderInv.frames (hs : OrderInv cfg c s) :
    frmsOf s.wire ++ (frmsOf s.pc.packet ++ s.pc.hand ++ s.dataq) = s.accepted := by
  rw [← hs.order, Wdev.packets, Wdev.rest, frmsOf_append, frmsOf_filter]
  simp only [List.append_assoc]

theorem OrderInv.wireCookies (hs : OrderInv cfg c s) :
    cookiesOf cfg.e s.wire = consecutive c (cookiesOf cfg.e s.wire).length := by
  have hck := hs.cookies.1
  rw [Wdev.packets, cookiesOf_append, cookiesOf_filter] at hck
  exact eq_consecutive_of_append hck

theorem OrderInv.xmitFrm_of_wire (hs : OrderInv cfg c s) {w : Wire} (hw : w ∈ s.wire) {x : Sub} (hx : x ∈ w.subs) :
    ∃ p, x.frm = xmitFrm cfg.e cfg.fwifidx p := by
  apply hs.xmit
  rw [← hs.frames]
  exact List.mem_append_left _ (List.mem_flatMap.mpr ⟨w, hw, List.mem_map_of_mem hx⟩)

end History

def upAndRunning : Wdev := { hgicfCoreProbe with fwState := stateFw }

end HgicFmac.Core
