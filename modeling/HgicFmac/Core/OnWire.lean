import HgicFmac.Core.ByteOrder
import Mathlib.Data.List.Forall2

/-!
# The order of the frames in the bytes on the bus

`Core.Order` follows the frames through the history of the model. Here they are looked for where the device looks: in
the bytes of the packets, whose 16-bit fields are little-endian.

* `Wire.data` : the bytes that `bus->tx_packet` gets;
* `walk`, `framesIn`, `cookiesIn` : the way of the device through a packet, by the length fields;
* `Holds`, `InOrder` : what the device finds is a frame, and in the packets the accepted frames in order;
* `startsAgg` : the steps that start an aggregate; `tx_in_order` : without them on a big-endian host, all is in order.
-/

namespace HgicFmac.Core
open Lib

/-! ## What the device finds -/

/-- `skb->data` up to `skb->len` of a data packet. -/
def Wire.data (e : Endian) : Wire → Option (List UInt8)
  | .frm x => some ((x.skb.mem e).read 0 x.skb.len)
  | .agg a => some (a.mem.read 0 (a.length e))
  | .ctrl _ | .softfc => none

/-- The data packets, in the order of the calls. -/
def Wdev.sent (e : Endian) (s : Wdev) : List (List UInt8) := s.wire.filterMap (Wire.data e)

/-- `length` and `cookie` of the header in front of `bs`. -/
def lengthIn (bs : List UInt8) : Nat := loadLe16 (Mem.ofList bs) 4
def cookieIn (bs : List UInt8) : Nat := loadLe16 (Mem.ofList bs) 6

def IsAgg (bs : List UInt8) : Prop := bs.getD 2 0 = UInt8.ofNat HdrType.aggfrm.byte

instance (bs : List UInt8) : Decidable (IsAgg bs) := inferInstanceAs (Decidable (_ = _))

/-- From one length field to the next, as long as they lead on inside the packet; a sub-frame has at least its
header, so the number of bytes bounds the passes. -/
def walk : Nat → List UInt8 → List (List UInt8)
  | 0, _ => []
  | k + 1, bs =>
    if hdrSize ≤ lengthIn bs ∧ lengthIn bs ≤ bs.length then
      bs.take (lengthIn bs) :: walk k (bs.drop (lengthIn bs))
    else []

def framesIn (p : List UInt8) : List (List UInt8) :=
  if IsAgg p then walk p.length (p.drop hdrSize) else [p]

/-- The cookies of a packet: the outer header, then the sub-headers. -/
def cookiesIn (p : List UInt8) : List Nat :=
  if IsAgg p then cookieIn p :: (framesIn p).map cookieIn else (framesIn p).map cookieIn

/-- The bytes are the frame `f`: its magic, type and interface, its whole payload, and padding up to a multiple of 4 at
most, all of it counted by the length field. -/
structure Holds (e : Endian) (bs : List UInt8) (f : Frm) : Prop where
  fixed : bs.take 4 = (f.hdr.bytes e).take 4
  payload : (bs.drop hdrSize).take f.payload.length = f.payload
  whole : f.len ≤ bs.length ∧ bs.length ≤ align4 f.len
  length : lengthIn bs = bs.length

/-- `dev_alloc_skb` of `hgicf_tx_agg_frm` gives a buffer. -/
def startsAgg (s : Wdev) : Act → Bool
  | .work o => o.alloc && match s.pc with
    | .aggAlloc _ => true
    | _ => false
  | _ => false

structure InOrder (cfg : Cfg) (c : Nat) (s : Wdev) : Prop where
  /-- The accepted frames from the first one on, each once; the others are with the work item or in the queue. -/
  frames : ∃ fs, List.Forall₂ (Holds cfg.e) ((s.sent cfg.e).flatMap framesIn) fs ∧
    fs ++ (frmsOf s.pc.packet ++ s.pc.hand ++ s.dataq) = s.accepted
  /-- The length field of an aggregate counts its header and its sub-frames. -/
  aggs : ∀ p ∈ s.sent cfg.e, IsAgg p → lengthIn p = hdrSize + ((framesIn p).map lengthIn).sum ∧
    lengthIn p = p.length ∧ lengthIn p ≤ cfg.ifAgg
  cookies : (s.sent cfg.e).flatMap cookiesIn = consecutive c ((s.sent cfg.e).flatMap cookiesIn).length

/-! ## A frame in a window of the memory -/

theorem loadLe16_frm_cookie (e : Endian) (f : Frm) : loadLe16 (f.mem e) 6 = cpuToLe16 e f.hdr.cookie := by
  cases e with
  | little =>
    simp [loadLe16, Frm.mem, Mem.ofList, Hdr.bytes, bytes16, cpuToLe16]
    omega
  | big =>
    simp [loadLe16, Frm.mem, Mem.ofList, Hdr.bytes, bytes16, cpuToLe16]
    omega

/-- The window is the frame of `x`, with the cookie and the length of its header. -/
structure Sub.Found (e : Endian) (bs : List UInt8) (x : Sub) : Prop where
  holds : Holds e bs x.frm
  length : bs.length = cpuToLe16 e x.hdr.length
  cookie : cookieIn bs = le16ToCpu e x.hdr.cookie

/-- The header is that of the queued frame up to the length and the cookie. -/
def Sub.SameFixed (x : Sub) : Prop := ∃ n c, x.hdr = { x.frm.hdr with length := n, cookie := c }

theorem fixed_of_sameFixed {x : Sub} (hx : x.SameFixed) (e : Endian) :
    (x.hdr.bytes e).take 4 = (x.frm.hdr.bytes e).take 4 := by
  obtain ⟨n, c, hx⟩ := hx
  rw [hx]
  cases e <;> rfl

theorem mem_skb (e : Endian) (x : Sub) :
    (x.skb.mem e).read 0 x.frm.len = x.hdr.bytes e ++ x.frm.payload := by
  have hlen : x.frm.len = (x.hdr.bytes e ++ x.frm.payload).length := by
    rw [List.length_append, length_bytes]
    rfl
  have hflat : List.flatten [x.hdr.bytes e, x.frm.payload, x.frm.tail] =
      x.hdr.bytes e ++ x.frm.payload ++ x.frm.tail := by simp
  show (Mem.ofList (List.flatten [x.hdr.bytes e, x.frm.payload, x.frm.tail])).read 0 x.frm.len = _
  rw [hflat, hlen, read_ofList _ (List.sublist_append_left _ _).length_le]
  exact List.take_left

/-- A frame that was copied whole, in a window of the length that the device reads. -/
theorem found_window {e : Endian} {m : Mem} {off n : Nat} {x : Sub} (hx : x.SameFixed)
    (hread : m.read off x.frm.len = (x.skb.mem e).read 0 x.frm.len) (hn : n = cpuToLe16 e x.hdr.length)
    (hle : x.frm.len ≤ n) (hpad : n ≤ align4 x.frm.len) : x.Found e (m.read off n) := by
  have h8 : hdrSize ≤ x.frm.len := Nat.le_add_right _ _
  have hfield : ∀ k, k + 2 ≤ hdrSize → loadLe16 (Mem.ofList (m.read off n)) k = loadLe16 (x.skb.mem e) k := by
    intro k hk
    have hm := loadLe16_read m off (show k + 2 ≤ x.frm.len by omega)
    rw [hread, loadLe16_read _ 0 (by omega), Nat.zero_add] at hm
    rw [loadLe16_read m off (by omega), hm]
  have hbytes := hread.trans (mem_skb e x)
  refine ⟨⟨?_, ?_, ?_, ?_⟩, ?_, ?_⟩
  · have htake : (m.read off n).take 4 = (m.read off x.frm.len).take 4 := by
      unfold hdrSize at h8
      rw [take_read m off (by omega), take_read m off (by omega)]
    rw [htake, hbytes, List.take_append_of_le_length (by rw [length_bytes]; decide)]
    exact fixed_of_sameFixed hx e
  · have hdrop : ((m.read off n).drop hdrSize).take x.frm.payload.length = (m.read off x.frm.len).drop hdrSize := by
      rw [drop_read m off (Nat.le_trans h8 hle), drop_read m off h8]
      have hlen : x.frm.len - hdrSize = x.frm.payload.length := Nat.add_sub_cancel_left _ _
      rw [hlen]
      exact take_read m _ (by omega)
    rw [hdrop, hbytes]
    exact List.drop_left' (length_bytes e x.hdr)
  · rw [length_read]
    exact ⟨hle, hpad⟩
  · rw [lengthIn, hfield 4 (by decide), length_read, hn]
    exact loadLe16_frm_length e x.skb
  · rw [length_read, hn]
  · rw [cookieIn, hfield 6 (by decide)]
    exact loadLe16_frm_cookie e x.skb

/-! ## A packet -/

/-- How the packets are made: frames alone on every host, aggregates on a little-endian one. -/
def Wire.Made (cfg : Cfg) : Wire → Prop
  | .frm x => ∃ c, x = singleSub cfg.e x.frm c
  | .agg a => cfg.e = .little ∧ IsAgg (a.mem.read 0 hdrSize) ∧ ∀ x ∈ a.subs, x.SameFixed
  | .ctrl _ | .softfc => True

/-- Behind each header the walk finds the next one. -/
theorem walk_layout {m : Mem} {xs : List Sub} {off k : Nat} (hl : layout .little m off xs)
    (hx : ∀ x ∈ xs, x.SameFixed ∧ x.frm.hdr.length = x.frm.len ∧ x.hdr.length = align4 x.frm.len)
    (hlt : subsLength xs < 2 ^ 16) (hk : xs.length ≤ k) :
    List.Forall₂ (Sub.Found .little) (walk k (m.read off (subsLength xs))) xs := by
  induction xs generalizing off k with
  | nil =>
    cases k with
    | zero => exact .nil
    | succ k => exact .nil
  | cons x xs ih =>
    obtain ⟨hsame, hcopied, hlen⟩ := hx x List.mem_cons_self
    cases k with
    | zero => exact absurd hk (Nat.not_succ_le_zero _)
    | succ k =>
      rw [subsLength_cons] at hlt ⊢
      have hpad := le_align4 x.frm.len
      have h8 : hdrSize ≤ x.frm.len := Nat.le_add_right _ _
      have hread : m.read off x.frm.len = (x.skb.mem .little).read 0 x.frm.len := by
        rw [← hcopied]
        exact hl.1
      have hn : x.hdr.length = cpuToLe16 .little x.hdr.length := (Nat.mod_eq_of_lt (by omega)).symm
      have hfound := found_window hsame hread hn (by omega) (by omega)
      have hfirst : lengthIn (m.read off (x.hdr.length + subsLength xs)) = x.hdr.length := by
        have hall := hfound.holds.length
        unfold lengthIn at hall ⊢
        unfold hdrSize at h8
        rw [loadLe16_read m off (by omega), length_read] at hall
        rw [loadLe16_read m off (by omega), hall]
      rw [walk, hfirst, length_read, if_pos ⟨by omega, by omega⟩, take_read m off (by omega),
        drop_read m off (by omega), Nat.add_sub_cancel_left]
      exact .cons hfound (ih hl.2 (fun y hy => hx y (List.mem_cons_of_mem x hy)) (by omega) (Nat.le_of_succ_le_succ hk))

theorem isAgg_read (m : Mem) {n : Nat} (h : hdrSize ≤ n) : IsAgg (m.read 0 n) ↔ IsAgg (m.read 0 hdrSize) := by
  unfold hdrSize at *
  unfold IsAgg
  rw [getD_read m 0 (by omega), getD_read m 0 (by omega)]

theorem lengths_of_found {e : Endian} {ps : List (List UInt8)} {xs : List Sub} (h : List.Forall₂ (Sub.Found e) ps xs) :
    ps.map lengthIn = xs.map fun x => cpuToLe16 e x.hdr.length := by
  induction h with
  | nil => rfl
  | cons hx _ ih => rw [List.map_cons, List.map_cons, hx.holds.length, hx.length, ih]

theorem cookies_of_found {e : Endian} {ps : List (List UInt8)} {xs : List Sub} (h : List.Forall₂ (Sub.Found e) ps xs) :
    ps.map cookieIn = (xs.map fun x => x.hdr.cookie).map (le16ToCpu e) := by
  induction h with
  | nil => rfl
  | cons hx _ ih => rw [List.map_cons, List.map_cons, List.map_cons, hx.cookie, ih]

/-- What the device finds in a packet: the frames and the cookies that the history has. -/
structure Wire.Found (e : Endian) (p : List UInt8) (w : Wire) : Prop where
  frames : List.Forall₂ (Sub.Found e) (framesIn p) w.subs
  cookies : cookiesIn p = (w.cookies e).map (le16ToCpu e)

theorem found_single {cfg : Cfg} {x : Sub} {p : List UInt8} (hmade : (Wire.frm x).Made cfg)
    (hxmit : ∃ q, x.frm = xmitFrm cfg.e cfg.fwifidx q) (hp : (Wire.frm x).data cfg.e = some p) :
    ¬ IsAgg p ∧ (Wire.frm x).Found cfg.e p := by
  obtain ⟨c, hmade⟩ := hmade
  obtain ⟨q, hq⟩ := hxmit
  have hhdr : x.hdr = { x.frm.hdr with cookie := cpuToLe16 cfg.e c } := congrArg Sub.hdr hmade
  have hlen : x.frm.len = cpuToLe16 cfg.e x.hdr.length := by
    rw [hhdr, hq]
    exact ((le16ToCpu_cpuToLe16 cfg.e _).trans (Nat.mod_eq_of_lt q.len_lt)).symm
  have hp : p = (x.skb.mem cfg.e).read 0 x.frm.len := (Option.some.inj hp).symm
  have hfound : x.Found cfg.e p := by
    rw [hp]
    exact found_window ⟨_, _, hhdr⟩ rfl hlen (Nat.le_refl _) (le_align4 _)
  have hnot : ¬ IsAgg p := by
    unfold IsAgg
    rw [hp, mem_skb, hhdr, hq]
    cases cfg.e <;> exact of_decide_eq_false rfl
  have hframes : List.Forall₂ (Sub.Found cfg.e) (framesIn p) [x] := by
    rw [framesIn, if_neg hnot]
    exact .cons hfound .nil
  refine ⟨hnot, hframes, ?_⟩
  rw [cookiesIn, if_neg hnot]
  exact cookies_of_found hframes

theorem found_agg {cfg : Cfg} {a : Agg} {p : List UInt8} (hmade : (Wire.agg a).Made cfg) (hwf : a.Wf cfg.e)
    (hxmit : ∀ x ∈ a.subs, ∃ q, x.frm = xmitFrm cfg.e cfg.fwifidx q) (hp : (Wire.agg a).data cfg.e = some p) :
    IsAgg p ∧ (Wire.agg a).Found cfg.e p := by
  obtain ⟨he, hagg, hsame⟩ := hmade
  rw [he] at hwf hxmit hp ⊢
  have h8 : hdrSize ≤ a.length .little := by
    rw [hwf.length]
    omega
  have hp : p = a.mem.read 0 (a.length .little) := (Option.some.inj hp).symm
  have hmark : IsAgg p := by
    rw [hp]
    exact (isAgg_read a.mem h8).mpr hagg
  have hx : ∀ x ∈ a.subs, x.SameFixed ∧ x.frm.hdr.length = x.frm.len ∧ x.hdr.length = align4 x.frm.len := by
    intro x hx
    obtain ⟨q, hq⟩ := hxmit x hx
    have hcopied : x.frm.hdr.length = x.frm.len := by
      rw [hq]
      exact length_xmitFrm q
    exact ⟨hsame x hx, hcopied, by rw [hwf.aligned x hx, hcopied]⟩
  have hlt : hdrSize + subsLength a.subs < 2 ^ 16 := by
    rw [← hwf.length]
    exact load16_lt .little a.mem 4
  have hframes : List.Forall₂ (Sub.Found .little) (framesIn p) a.subs := by
    have hcount : a.subs.length ≤ subsLength a.subs := by
      apply length_le_subsLength
      intro x hmem
      obtain ⟨-, -, hlen⟩ := hx x hmem
      rw [hlen]
      exact Nat.le_trans (Nat.le_add_right _ _) (le_align4 _)
    rw [framesIn, if_pos hmark, hp, drop_read _ _ h8, length_read, hwf.length, Nat.add_sub_cancel_left]
    exact walk_layout hwf.layout hx (by omega) (by omega)
  refine ⟨hmark, hframes, ?_⟩
  have hcookie : cookieIn p = le16ToCpu .little (a.cookie .little) := by
    unfold hdrSize at h8
    rw [hp, cookieIn, loadLe16_read _ _ (by omega)]
    exact (le16ToCpu_load16 .little a.mem 6).symm
  rw [cookiesIn, if_pos hmark, hcookie, cookies_of_found hframes]
  rfl

theorem aggLength_of_found {cfg : Cfg} {a : Agg} {p : List UInt8} (he : cfg.e = .little) (hwf : a.Wf cfg.e)
    (hle : a.length cfg.e ≤ cfg.ifAgg) (hfound : (Wire.agg a).Found cfg.e p) (hp : (Wire.agg a).data cfg.e = some p) :
    lengthIn p = hdrSize + ((framesIn p).map lengthIn).sum ∧ lengthIn p = p.length ∧ lengthIn p ≤ cfg.ifAgg := by
  have hlengths := lengths_of_found hfound.frames
  rw [he] at hwf hle hp hlengths
  have h8 : hdrSize ≤ a.length .little := by
    rw [hwf.length]
    omega
  have hp : p = a.mem.read 0 (a.length .little) := (Option.some.inj hp).symm
  have hfield : lengthIn p = a.length .little := by
    unfold hdrSize at h8
    rw [hp, lengthIn, loadLe16_read _ _ (by omega), Nat.zero_add]
    rfl
  have hlt : hdrSize + subsLength a.subs < 2 ^ 16 := by
    rw [← hwf.length]
    exact load16_lt .little a.mem 4
  have hsum : ((framesIn p).map lengthIn).sum = subsLength a.subs := by
    rw [hlengths, subsLength]
    refine congrArg List.sum (List.map_congr_left fun x hx => ?_)
    have hx := List.le_sum_of_mem (List.mem_map_of_mem (f := fun x : Sub => x.hdr.length) (show x ∈ a.subs from hx))
    unfold subsLength at hlt
    exact Nat.mod_eq_of_lt (by omega)
  rw [hsum, hfield, ← hwf.length]
  refine ⟨rfl, ?_, hle⟩
  rw [hp, length_read]

/-! ## Runs -/

section Step
variable {cfg : Cfg} {c : Nat} {s t : Wdev} {a : Act}

theorem startsAgg_of_aggLoop {f : Frm} (hpc : s.pc = .aggAlloc f) (h : step cfg s a = some t) {g : Agg} {f' : Frm}
    (ht : t.pc = .aggLoop g f') : startsAgg s a := by
  rcases step_work_or h with ⟨o, rfl, hwork⟩ | henv
  · simp only [workStep, hpc, Option.some.injEq] at hwork
    subst hwork
    cases halloc : o.alloc with
    | true => simp [startsAgg, halloc, hpc]
    | false =>
      rw [halloc] at ht
      cases ht
  · rcases henv.pc with he | he
    · rw [he, hpc] at ht
      cases ht
    · rw [he] at ht
      cases ht

theorem isAgg_aggInit (e : Endian) (m : Mem) (cookie : Nat) : IsAgg ((aggInit e m cookie).mem.read 0 hdrSize) := by
  cases e <;> rfl

theorem isAgg_aggAdd {e : Endian} {g : Agg} (h8 : hdrSize ≤ g.length e) (f : Frm) (cookie : Nat)
    (hagg : IsAgg (g.mem.read 0 hdrSize)) : IsAgg ((aggAdd e g f cookie).mem.read 0 hdrSize) := by
  unfold IsAgg hdrSize at *
  rw [getD_read _ 0 (by decide)] at hagg ⊢
  rw [aggAdd_mem h8, write_of_lt _ _ (by decide), write_of_lt _ _ (by omega)]
  exact hagg

theorem made_step (hinv : OrderInv cfg c s) (hs : ∀ w ∈ s.packets, w.Made cfg) (ha : a.keepsFrames)
    (hbig : cfg.e = .big → ¬ startsAgg s a) (h : step cfg s a = some t) : ∀ w ∈ t.packets, w.Made cfg := by
  have hclear : s.pc ≠ .dataClear := by
    intro hpc
    have hok := hinv.pc
    rw [hpc] at hok
    exact hok
  -- the packets on the wire stay, and the work item has at most one more
  have hnew : ∀ pc, (∀ w ∈ pc.packet, w.Made cfg) → ∀ w ∈ (s.nextCookie.goto pc).packets, w.Made cfg := by
    intro pc hpc w hw
    rcases List.mem_append.mp hw with hw | hw
    · exact hs w (List.mem_append_left _ hw)
    · exact hpc w hw
  cases frame_cases ha hclear h with
  | quiet hv =>
    have hpackets : t.packets = s.packets := congrArg Prod.fst hv
    rw [hpackets]
    exact hs
  | accept f hx => exact hs
  | single f hpc =>
    refine hnew _ fun w hw => ?_
    rw [List.mem_singleton.mp hw]
    exact ⟨s.dataCookie, rfl⟩
  | alloc f m hpc =>
    refine hnew _ fun w hw => ?_
    rw [List.mem_singleton.mp hw]
    have hlittle : cfg.e = .little := by
      cases he : cfg.e with
      | little => rfl
      | big => exact absurd (startsAgg_of_aggLoop hpc h rfl) (hbig he)
    exact ⟨hlittle, isAgg_aggInit _ _ _, fun x hx => absurd hx List.not_mem_nil⟩
  | add g f hpc hfit =>
    have hmem : .agg g ∈ s.packets := by simp [Wdev.packets, hpc, Pc.packet]
    obtain ⟨hlittle, hagg, hsame⟩ := hs _ hmem
    have h8 : hdrSize ≤ g.length cfg.e := by
      rw [(hinv.aggs g hmem).1.length]
      omega
    refine hnew _ fun w hw => ?_
    rw [List.mem_singleton.mp hw]
    refine ⟨hlittle, isAgg_aggAdd h8 f _ hagg, fun x hx => ?_⟩
    rcases List.mem_append.mp hx with hx | hx
    · exact hsame x hx
    · rw [List.mem_singleton.mp hx]
      exact ⟨_, _, rfl⟩
  | invalid g hpc hlen =>
    intro w hw
    rcases List.mem_append.mp hw with hw | hw
    · exact hs w (List.mem_append_left _ hw)
    · exact absurd hw List.not_mem_nil

end Step

theorem found_sent {e : Endian} {ws : List Wire} (h : ∀ w ∈ ws, ∀ p, w.data e = some p → w.Found e p) :
    List.Forall₂ (Sub.Found e) ((ws.filterMap (Wire.data e)).flatMap framesIn) (ws.flatMap Wire.subs) ∧
      (ws.filterMap (Wire.data e)).flatMap cookiesIn = cookiesOf e ws := by
  induction ws with
  | nil => exact ⟨.nil, rfl⟩
  | cons w ws ih =>
    obtain ⟨hframes, hcookies⟩ := ih fun v hv => h v (List.mem_cons_of_mem w hv)
    cases hp : w.data e with
    | none =>
      -- a control packet
      have hempty : w.subs = [] ∧ w.cookies e = [] := by
        cases w with
        | ctrl p => exact ⟨rfl, rfl⟩
        | softfc => exact ⟨rfl, rfl⟩
        | frm x => cases hp
        | agg a => cases hp
      rw [List.filterMap_cons_none hp, List.flatMap_cons, hempty.1, hcookies]
      refine ⟨hframes, ?_⟩
      unfold cookiesOf
      rw [List.flatMap_cons, hempty.2]
      rfl
    | some p =>
      have hfound := h w List.mem_cons_self p hp
      rw [List.filterMap_cons_some hp, List.flatMap_cons, List.flatMap_cons, List.flatMap_cons, hcookies,
        hfound.cookies]
      refine ⟨List.rel_append hfound.frames hframes, ?_⟩
      unfold cookiesOf
      rw [List.flatMap_cons, List.map_append]

section Run
variable {cfg : Cfg} {s0 s : Wdev} {as : List Act}

/-- The order of the history and how the packets are made hold together along a run. Only on a little-endian host is
there an aggregate that the frames have to fit. -/
theorem made_run (hagg : cfg.ifAgg < 2 ^ 16) (h0 : s0.Fresh)
    (hs : Steps (step cfg) (fun s a => s.Permits ∧ a.keepsFrames ∧ (cfg.e = .big → ¬ startsAgg s a)) s0 as)
    (hr : runFrom (step cfg) s0 as = some s)
    (hfit : ∀ f ∈ s.accepted, cfg.e = .little → cfg.ifAgg ≠ 0 → fitsAlone cfg f) :
    OrderInv cfg s0.dataCookie s ∧ ∀ w ∈ s.packets, w.Made cfg := by
  refine @fitting_run cfg _ (fun u => OrderInv cfg s0.dataCookie u ∧ ∀ w ∈ u.packets, w.Made cfg) _ s0 s as
    ?_ ?_ hs hr hfit
  · rintro u a v ⟨hinv, hmade⟩ ⟨hp, ha, hbig⟩ h hu
    have hnext := made_step hinv hmade ha hbig h
    refine ⟨orderInv_step hagg hinv hp ha h fun g hg f hf => hu f hf ?_, hnext⟩
    rcases hg with hg | hg
    · exact (hmade _ hg).1
    · exact (hnext _ hg).1
  · refine ⟨orderInv_init cfg h0, fun w hw => ?_⟩
    simp [Wdev.packets, h0.pc, h0.wire, Pc.packet] at hw

/-- While the flags permit transmission, with `if_agg` 0 or at most 65535 and, on a little-endian host, every accepted
frame fitting an aggregate, and with no aggregate started on a big-endian host: in the bytes that `bus->tx_packet`
gets, read by the length fields in the order of the wire, lie the accepted frames in order, each once and whole; the
length field of an aggregate is 8 plus those of its sub-frames, its number of bytes and at most `if_agg`; and all
cookies are consecutive. -/
theorem tx_in_order (hagg : cfg.ifAgg = 0 ∨ cfg.ifAgg ≤ 65535) (h0 : s0.Fresh)
    (hs : Steps (step cfg) (fun s a => s.Permits ∧ a.keepsFrames ∧ (cfg.e = .big → ¬ startsAgg s a)) s0 as)
    (hr : runFrom (step cfg) s0 as = some s)
    (hfit : ∀ f ∈ s.accepted, cfg.e = .little → cfg.ifAgg ≠ 0 → fitsAlone cfg f) :
    InOrder cfg s0.dataCookie s := by
  obtain ⟨hinv, hmade⟩ := made_run (by omega) h0 hs hr hfit
  have hpacket : ∀ w ∈ s.wire, ∀ p, w.data cfg.e = some p → w ∈ s.packets := by
    intro w hw p hp
    refine List.mem_append_left _ (List.mem_filter.mpr ⟨hw, ?_⟩)
    cases w <;> first | rfl | cases hp
  have hagg : ∀ g, .agg g ∈ s.wire → ∀ p, (Wire.agg g).data cfg.e = some p →
      IsAgg p ∧ (Wire.agg g).Found cfg.e p := by
    intro g hw p hp
    have hmem := hpacket _ hw p hp
    exact found_agg (hmade _ hmem) (hinv.aggs g hmem).1 (fun x hx => hinv.xmitFrm_of_wire hw hx) hp
  have hfound : ∀ w ∈ s.wire, ∀ p, w.data cfg.e = some p → w.Found cfg.e p := by
    intro w hw p hp
    cases w with
    | ctrl | softfc => cases hp
    | frm x => exact (found_single (hmade _ (hpacket _ hw p hp)) (hinv.xmitFrm_of_wire hw List.mem_cons_self) hp).2
    | agg g => exact (hagg g hw p hp).2
  obtain ⟨hframes, hcookies⟩ := found_sent hfound
  refine ⟨⟨frmsOf s.wire, ?_, hinv.frames⟩, fun p hp hmark => ?_, ?_⟩
  · have hmap : frmsOf s.wire = (s.wire.flatMap Wire.subs).map Sub.frm := (List.map_flatMap ..).symm
    rw [hmap, List.forall₂_map_right_iff]
    exact hframes.imp fun _ _ h => h.holds
  · obtain ⟨w, hw, hp⟩ := List.mem_filterMap.mp hp
    cases w with
    | ctrl | softfc => cases hp
    | frm x =>
      exact absurd hmark (found_single (hmade _ (hpacket _ hw p hp)) (hinv.xmitFrm_of_wire hw List.mem_cons_self) hp).1
    | agg g =>
      have hmem := hpacket _ hw p hp
      exact aggLength_of_found (hmade _ hmem).1 (hinv.aggs g hmem).1 (hinv.aggs g hmem).2 (hagg g hw p hp).2 hp
  · unfold Wdev.sent
    rw [hcookies]
    exact hinv.wireCookies

end Run

/-- Two frames are queued, and the work item is started. -/
def twoQueued (p q : Pkt) : List Act :=
  List.flatten [[.xmit p], List.replicate 4 (.xmitStep true), [.xmit q], List.replicate 4 (.xmitStep true), [.kick],
    List.replicate 16 (.work ⟨true, fun _ => 0, false⟩)]

theorem tx_in_order_little : ∃ s,
    runFrom (step ⟨.little, 64, 1024, 1⟩) upAndRunning (twoQueued (plainPkt 5 (by decide)) (plainPkt 2 (by decide))) =
      some s ∧ (s.sent .little).map List.length = [36] ∧ s.accepted.length = 2 ∧
      InOrder ⟨.little, 64, 1024, 1⟩ 0 s := by
  obtain ⟨s, hr⟩ : ∃ s, runFrom (step ⟨.little, 64, 1024, 1⟩) upAndRunning
      (twoQueued (plainPkt 5 (by decide)) (plainPkt 2 (by decide))) = some s := ⟨_, rfl⟩
  have hfit : ∀ f ∈ s.accepted, fitsAlone ⟨.little, 64, 1024, 1⟩ f := by
    cases hr
    unfold fitsAlone
    decide
  have h := tx_in_order (.inr (by decide)) ⟨rfl, rfl, rfl, rfl, rfl⟩ (by decide) hr fun f hf _ _ => hfit f hf
  refine ⟨s, hr, ?_, ?_, h⟩
  · cases hr
    decide
  · cases hr
    rfl

/-- A big-endian host and two frames of 256 bytes: all that is sent is an aggregate of 16 bytes, in which the device
finds no frame. -/
theorem tx_in_order_fails : ∃ s,
    runFrom (step ⟨.big, 4096, 1024, 1⟩) upAndRunning (twoQueued pkt256 pkt256) = some s ∧ upAndRunning.Fresh ∧
      Steps (step ⟨.big, 4096, 1024, 1⟩) (fun s a => s.Permits ∧ a.keepsFrames) upAndRunning (twoQueued pkt256 pkt256) ∧
      (∀ f ∈ s.accepted, fitsAlone ⟨.big, 4096, 1024, 1⟩ f) ∧ (s.sent .big).map List.length = [16] ∧
      ¬ InOrder ⟨.big, 4096, 1024, 1⟩ 0 s := by
  have hrun : (runFrom (step ⟨.big, 4096, 1024, 1⟩) upAndRunning (twoQueued pkt256 pkt256)).map (fun s =>
      (s.accepted.map (fun f => hdrSize + align4 f.hdr.length), (frmsOf s.pc.packet ++ s.pc.hand ++ s.dataq).length,
        (s.sent .big).map List.length, ((s.sent .big).flatMap framesIn).length)) =
      some ([12, 12], 0, [16], 0) := by decide +kernel
  obtain ⟨s, hr, hs⟩ := Option.map_eq_some_iff.mp hrun
  simp only [Prod.mk.injEq] at hs
  obtain ⟨hfit, hrest, hsent, hfound⟩ := hs
  refine ⟨s, hr, ⟨rfl, rfl, rfl, rfl, rfl⟩, by decide +kernel, fun f hf => ?_, hsent, fun h => ?_⟩
  · have hmem := List.mem_map_of_mem (f := fun f : Frm => hdrSize + align4 f.hdr.length) hf
    rw [hfit, List.mem_cons, List.mem_singleton, or_self] at hmem
    unfold fitsAlone
    rw [hmem]
    decide
  · obtain ⟨fs, hall, haccepted⟩ := h.frames
    have hfs : fs.length = 0 := hall.length_eq.symm.trans hfound
    have hcount := congrArg List.length hfit
    rw [← haccepted, List.length_map, List.length_append, hfs, hrest] at hcount
    exact absurd hcount (by decide)

end HgicFmac.Core
