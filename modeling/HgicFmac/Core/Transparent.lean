import HgicFmac.Core.Rx
import HgicFmac.Core.Drain
import Mathlib.Algebra.Order.BigOperators.Group.List
import Mathlib.Algebra.Order.Group.Nat

/-!
# Aggregation and the rule of the receiver

* `hgicfTxAggFrm` : the aggregate that `hgicf_tx_agg_frm` builds from a queue, and the frames it leaves; the work
  item alone does the same (`tx_agg_frm_run`);
* `rxSingles` : the packets that the receiver delivers for frames sent alone;
* `agg_transparent_iff` : it delivers the same for the aggregate exactly when every length is a multiple of 4. The
  host rounds the length field of a sub-frame up and leaves `flags` at 0, where the receiver looks for the padding.
-/

namespace HgicFmac.Core
open Lib

/-- The loop of `hgicf_tx_agg_frm` over the queue. -/
def aggTake (e : Endian) (ifAgg : Nat) : Agg → List Frm → Nat → Agg × List Frm
  | a, [], _ => (a, [])
  | a, f :: fs, cookie =>
    if aggFits e ifAgg a f then aggTake e ifAgg (aggAdd e a f cookie) fs ((cookie + 1) % 2 ^ 16) else (a, f :: fs)

/-- `hgicf_tx_agg_frm` in a buffer with the contents `m`: the aggregate and the frames that are left in the queue. -/
def hgicfTxAggFrm (e : Endian) (ifAgg : Nat) (m : Mem) (cookie : Nat) (fs : List Frm) : Agg × List Frm :=
  aggTake e ifAgg (aggInit e m cookie) fs ((cookie + 1) % 2 ^ 16)

/-- The packets that the receiver delivers for these frames from `hgicf_tx_single_frm`. -/
def rxSingles : List Frm → Nat → Option (List (List UInt8))
  | [], _ => some []
  | f :: fs, cookie =>
    (hgicfRxSingleFrm ((singleSub .little f cookie).skb.mem .little) 0 f.hdr.length).bind fun out =>
      (rxSingles fs ((cookie + 1) % 2 ^ 16)).map (out ++ ·)

/-! ## The work item alone -/

theorem aggTake_run {cfg : Cfg} (m : Mem) {a : Agg} {f : Frm} {fs : List Frm} {s : Wdev} (hpc : s.pc = .aggLoop a f)
    (hq : s.dataq = fs) :
    ∃ n t, runFrom (workAlone cfg) s (List.replicate n m) = some t ∧
      t.pc = .aggSend (aggTake cfg.e cfg.ifAgg a (f :: fs) s.dataCookie).1 ∧
      t.dataq = (aggTake cfg.e cfg.ifAgg a (f :: fs) s.dataCookie).2 := by
  induction fs generalizing a f s with
  | nil =>
    rw [aggTake]
    by_cases hfit : aggFits cfg.e cfg.ifAgg a f = true
    · rw [if_pos hfit, aggTake]
      refine ⟨2, s.nextCookie.goto (.aggSend (aggAdd cfg.e a f s.dataCookie)), ?_, rfl, hq⟩
      simp [List.replicate, runFrom, workAlone, workStep, hpc, hfit, Wdev.nextCookie, Wdev.goto, hq]
    · rw [if_neg hfit]
      refine ⟨1, { s with dataq := f :: s.dataq }.goto (.aggSend a), ?_, rfl, by simp [Wdev.goto, hq]⟩
      simp [List.replicate, runFrom, workAlone, workStep, hpc, hfit]
  | cons g fs ih =>
    rw [aggTake]
    by_cases hfit : aggFits cfg.e cfg.ifAgg a f = true
    · rw [if_pos hfit]
      -- the frame is added, and the next one is dequeued
      obtain ⟨n, t, hr, ht, hd⟩ := @ih (aggAdd cfg.e a f s.dataCookie) g
        ({ s.nextCookie with dataq := fs }.goto (.aggLoop (aggAdd cfg.e a f s.dataCookie) g)) rfl rfl
      refine ⟨n + 2, t, ?_, ht, hd⟩
      rw [← hr]
      simp [List.replicate, runFrom, workAlone, workStep, hpc, hfit, Wdev.nextCookie, Wdev.goto, hq]
    · rw [if_neg hfit]
      refine ⟨1, { s with dataq := f :: s.dataq }.goto (.aggSend a), ?_, rfl, by simp [Wdev.goto, hq]⟩
      simp [List.replicate, runFrom, workAlone, workStep, hpc, hfit]

/-- The work item at the allocation, alone: what it hands to `bus->tx_packet` and what it leaves is
`hgicfTxAggFrm`. -/
theorem tx_agg_frm_run {cfg : Cfg} (m : Mem) {f : Frm} {s : Wdev} (hpc : s.pc = .aggAlloc f) :
    ∃ n t, runFrom (workAlone cfg) s (List.replicate n m) = some t ∧
      t.pc = .aggSend (hgicfTxAggFrm cfg.e cfg.ifAgg m s.dataCookie (f :: s.dataq)).1 ∧
      t.dataq = (hgicfTxAggFrm cfg.e cfg.ifAgg m s.dataCookie (f :: s.dataq)).2 := by
  obtain ⟨n, t, hr, ht, hd⟩ := @aggTake_run cfg m (aggInit cfg.e m s.dataCookie) f s.dataq
    (s.nextCookie.goto (.aggLoop (aggInit cfg.e m s.dataCookie) f)) rfl rfl
  refine ⟨n + 1, t, ?_, ht, hd⟩
  rw [← hr]
  simp [List.replicate, runFrom, workAlone, workStep, hpc]

/-! ## What the aggregate holds -/

/-- The sub-frames that the frames become. -/
def subsOf (e : Endian) : List Frm → Nat → List Sub
  | [], _ => []
  | f :: fs, cookie => ⟨f, subHdr e f cookie⟩ :: subsOf e fs ((cookie + 1) % 2 ^ 16)

def alignedSum (fs : List Frm) : Nat := (fs.map fun f => align4 f.hdr.length).sum

@[simp] theorem alignedSum_cons (f : Frm) (fs : List Frm) :
    alignedSum (f :: fs) = align4 f.hdr.length + alignedSum fs := by
  simp [alignedSum]

theorem aggTake_length_le (e : Endian) (ifAgg : Nat) (a : Agg) (fs : List Frm) (cookie : Nat) :
    (aggTake e ifAgg a fs cookie).2.length ≤ fs.length := by
  induction fs generalizing a cookie with
  | nil => exact Nat.le_refl _
  | cons f fs ih =>
    rw [aggTake]
    split
    · exact Nat.le_succ_of_le (ih _ _)
    · exact Nat.le_refl _

section Take
variable {e : Endian} {ifAgg : Nat}

/-- When `fs` are the frames that the loop takes, the first one fits and the others are taken after it. -/
theorem aggTake_cons {a : Agg} {f : Frm} {fs gs : List Frm} {cookie : Nat}
    (h : (aggTake e ifAgg a (f :: fs ++ gs) cookie).2 = gs) :
    aggFits e ifAgg a f ∧ aggTake e ifAgg a (f :: fs ++ gs) cookie =
      aggTake e ifAgg (aggAdd e a f cookie) (fs ++ gs) ((cookie + 1) % 2 ^ 16) := by
  by_cases hfit : aggFits e ifAgg a f = true
  · refine ⟨hfit, ?_⟩
    rw [List.cons_append, aggTake, if_pos hfit]
  · rw [List.cons_append, aggTake, if_neg hfit] at h
    have := congrArg List.length h
    simp only [List.length_cons, List.length_append] at this
    omega

theorem aggTake_nil {a : Agg} {gs : List Frm} {cookie : Nat} (h : (aggTake e ifAgg a gs cookie).2 = gs) :
    (aggTake e ifAgg a gs cookie).1 = a := by
  cases gs with
  | nil => rfl
  | cons g gs =>
    rw [aggTake] at h ⊢
    split
    · rename_i hfit
      rw [if_pos hfit] at h
      have := aggTake_length_le e ifAgg (aggAdd e a g cookie) gs ((cookie + 1) % 2 ^ 16)
      rw [h, List.length_cons] at this
      omega
    · rfl

theorem aggTake_subs {a : Agg} {fs gs : List Frm} {cookie : Nat} (h : (aggTake e ifAgg a (fs ++ gs) cookie).2 = gs) :
    (aggTake e ifAgg a (fs ++ gs) cookie).1.subs = a.subs ++ subsOf e fs cookie := by
  induction fs generalizing a cookie with
  | nil =>
    rw [List.nil_append] at h ⊢
    rw [aggTake_nil h, subsOf, List.append_nil]
  | cons f fs ih =>
    obtain ⟨-, heq⟩ := aggTake_cons h
    rw [heq] at h ⊢
    rw [ih h]
    simp [aggAdd, subsOf]

theorem aggTake_wf {a : Agg} {fs gs : List Frm} {cookie : Nat} (ha : a.Wf e)
    (h : (aggTake e ifAgg a (fs ++ gs) cookie).2 = gs) (hlt : a.length e + alignedSum fs < 2 ^ 16) :
    (aggTake e ifAgg a (fs ++ gs) cookie).1.Wf e := by
  induction fs generalizing a cookie with
  | nil =>
    rw [List.nil_append] at h ⊢
    rw [aggTake_nil h]
    exact ha
  | cons f fs ih =>
    obtain ⟨-, heq⟩ := aggTake_cons h
    rw [heq] at h ⊢
    rw [alignedSum_cons] at hlt
    have h8 : hdrSize ≤ a.length e := by
      rw [ha.length]
      omega
    apply ih (aggAdd_wf ha (by omega)) h
    rw [aggAdd_length h8, Nat.mod_eq_of_lt (by omega)]
    omega

/-- With `if_agg` below 65536 the length cannot overflow. -/
theorem aggTake_lt {a : Agg} {fs gs : List Frm} {cookie : Nat} (hagg : ifAgg < 2 ^ 16) (ha : hdrSize ≤ a.length e)
    (h : (aggTake e ifAgg a (fs ++ gs) cookie).2 = gs) : a.length e + alignedSum fs < 2 ^ 16 := by
  induction fs generalizing a cookie with
  | nil => exact load16_lt e a.mem 4
  | cons f fs ih =>
    obtain ⟨hfit, heq⟩ := aggTake_cons h
    rw [heq] at h
    simp only [aggFits, decide_eq_true_eq] at hfit
    have hlen : (aggAdd e a f cookie).length e = a.length e + align4 f.hdr.length := by
      rw [aggAdd_length ha, Nat.mod_eq_of_lt (by omega)]
    have := ih (by omega) h
    rw [alignedSum_cons]
    omega

end Take

/-! ## What the receiver delivers -/

def payloadOf (p : Pkt) : List (List UInt8) := if p.payload.isEmpty then [] else [p.payload]

def bytesOf (out : List (List UInt8)) : Nat := (out.map List.length).sum

@[simp] theorem bytesOf_append (out out' : List (List UInt8)) :
    bytesOf (out ++ out') = bytesOf out + bytesOf out' := by
  simp [bytesOf]

theorem bytesOf_packetAt (m : Mem) (off len : Nat) : bytesOf (packetAt m off len) = len - hdrSize := by
  unfold packetAt
  split
  · simp only [bytesOf, List.map_nil, List.sum_nil]
    omega
  · simp [bytesOf]

theorem bytesOf_payloadOf (p : Pkt) : bytesOf (payloadOf p) = p.payload.length := by
  unfold payloadOf bytesOf
  split
  · simp_all
  · simp

section Little
variable {fwifidx : Nat}

theorem length_subHdr {p : Pkt} {cookie : Nat} (hlt : align4 (xmitFrm .little fwifidx p).hdr.length < 2 ^ 16) :
    (subHdr .little (xmitFrm .little fwifidx p) cookie).length = align4 (hdrSize + p.payload.length) := by
  show align4 (xmitFrm .little fwifidx p).hdr.length % 2 ^ 16 = _
  rw [Nat.mod_eq_of_lt hlt, length_xmitFrm]

theorem regular_sub (p : Pkt) (cookie : Nat) (hlt : align4 (xmitFrm .little fwifidx p).hdr.length < 2 ^ 16) :
    (⟨xmitFrm .little fwifidx p, subHdr .little (xmitFrm .little fwifidx p) cookie⟩ : Sub).Regular where
  magic := rfl
  type := rfl
  flags := rfl
  whole := length_xmitFrm p
  le := by
    show _ ≤ align4 (xmitFrm .little fwifidx p).hdr.length % 2 ^ 16
    rw [Nat.mod_eq_of_lt hlt]
    exact le_align4 _
  lt := Nat.mod_lt _ (by decide)

theorem regular_single (p : Pkt) (cookie : Nat) : (singleSub .little (xmitFrm .little fwifidx p) cookie).Regular where
  magic := rfl
  type := rfl
  flags := rfl
  whole := length_xmitFrm p
  le := Nat.le_refl _
  lt := by
    show (xmitFrm .little fwifidx p).hdr.length < 65536
    rw [length_xmitFrm]
    exact p.len_lt

/-- The packet at the copy of a frame, taken to the end of the frame, is the payload. -/
theorem packetAt_eq {m : Mem} {off : Nat} {x : Sub} {p : Pkt} (hx : x.Regular) (hp : x.frm = xmitFrm .little fwifidx p)
    (hm : m.read off x.frm.hdr.length = (x.skb.mem .little).read 0 x.frm.hdr.length) :
    packetAt m off (hdrSize + p.payload.length) = payloadOf p := by
  have hpay := (hx.read_eq hm).2
  rw [hp] at hpay
  unfold packetAt payloadOf
  rw [Nat.add_sub_cancel_left, show m.read (off + hdrSize) p.payload.length = p.payload from hpay]
  cases p.payload <;> simp

theorem rxSingles_eq (ps : List Pkt) (cookie : Nat) :
    rxSingles (ps.map (xmitFrm .little fwifidx)) cookie = some (ps.flatMap payloadOf) := by
  induction ps generalizing cookie with
  | nil => rfl
  | cons p ps ih =>
    have hreg := @regular_single fwifidx p cookie
    have hflags : flagsAt ((singleSub .little (xmitFrm .little fwifidx p) cookie).skb.mem .little) 0 = 0 := by
      rw [flags_of_read (hreg.read_eq rfl).1]
      rfl
    rw [List.map_cons, rxSingles, rxSingle_of_flags hflags, length_xmitFrm, packetAt_eq hreg rfl rfl, ih]
    simp

theorem regular_subsOf {ps : List Pkt} {cookie : Nat}
    (hlt : ∀ p ∈ ps, align4 (xmitFrm .little fwifidx p).hdr.length < 2 ^ 16) :
    ∀ x ∈ subsOf .little (ps.map (xmitFrm .little fwifidx)) cookie, x.Regular := by
  induction ps generalizing cookie with
  | nil => exact fun x hx => absurd hx List.not_mem_nil
  | cons p ps ih =>
    intro x hx
    rw [List.map_cons, subsOf, List.mem_cons] at hx
    rcases hx with rfl | hx
    · exact regular_sub p cookie (hlt p List.mem_cons_self)
    · exact ih (fun q hq => hlt q (List.mem_cons_of_mem p hq)) x hx

theorem packetsAt_eq {m : Mem} {ps : List Pkt} {off cookie : Nat}
    (hlt : ∀ p ∈ ps, align4 (xmitFrm .little fwifidx p).hdr.length < 2 ^ 16)
    (hl : layout .little m off (subsOf .little (ps.map (xmitFrm .little fwifidx)) cookie))
    (h4 : ∀ p ∈ ps, 4 ∣ hdrSize + p.payload.length) :
    packetsAt m off (subsOf .little (ps.map (xmitFrm .little fwifidx)) cookie) = ps.flatMap payloadOf := by
  induction ps generalizing off cookie with
  | nil => rfl
  | cons p ps ih =>
    have hp := hlt p List.mem_cons_self
    have hlen : (subHdr .little (xmitFrm .little fwifidx p) cookie).length = hdrSize + p.payload.length := by
      rw [length_subHdr hp]
      exact (align4_eq_iff _).mpr (h4 p List.mem_cons_self)
    rw [List.map_cons, subsOf, packetsAt, List.flatMap_cons,
      ih (fun q hq => hlt q (List.mem_cons_of_mem p hq)) hl.2 (fun q hq => h4 q (List.mem_cons_of_mem p hq))]
    congr 1
    rw [hlen]
    exact packetAt_eq (regular_sub p cookie hp) rfl hl.1

/-- The receiver gets at least the bytes of the payloads, and more when some length is not a multiple of 4. -/
theorem bytesOf_packetsAt {m : Mem} {ps : List Pkt} {off cookie : Nat}
    (hlt : ∀ p ∈ ps, align4 (xmitFrm .little fwifidx p).hdr.length < 2 ^ 16) :
    bytesOf (ps.flatMap payloadOf) ≤
      bytesOf (packetsAt m off (subsOf .little (ps.map (xmitFrm .little fwifidx)) cookie)) ∧
    (bytesOf (packetsAt m off (subsOf .little (ps.map (xmitFrm .little fwifidx)) cookie)) =
      bytesOf (ps.flatMap payloadOf) → ∀ p ∈ ps, 4 ∣ hdrSize + p.payload.length) := by
  induction ps generalizing off cookie with
  | nil => exact ⟨Nat.le_refl _, fun _ p hp => absurd hp List.not_mem_nil⟩
  | cons p ps ih =>
    have hlen := @length_subHdr fwifidx p cookie (hlt p List.mem_cons_self)
    have hle := le_align4 (hdrSize + p.payload.length)
    obtain ⟨ihle, iheq⟩ := @ih (off + align4 (hdrSize + p.payload.length)) ((cookie + 1) % 2 ^ 16)
      fun q hq => hlt q (List.mem_cons_of_mem p hq)
    rw [List.map_cons, subsOf, packetsAt, List.flatMap_cons, bytesOf_append, bytesOf_append, bytesOf_packetAt,
      bytesOf_payloadOf]
    simp only [hlen]
    refine ⟨by omega, fun heq q hq => ?_⟩
    rcases List.mem_cons.mp hq with rfl | hq
    · rw [← align4_eq_iff]
      omega
    · exact iheq (by omega) q hq

end Little

/-- The rule of the receiver gives the same packets for the aggregate `a` as for the frames sent alone. -/
def Transparent (a : Agg) (fs : List Frm) (cookie : Nat) : Prop :=
  hgicfRxAggFrm hgicHdrTxMagic a.mem (a.length .little) = rxSingles fs cookie

/-- The frames that `hgicf_netif_xmit` queues on a little-endian host. -/
def queueOf (fwifidx : Nat) (ps : List Pkt) : List Frm := ps.map (xmitFrm .little fwifidx)

section Result
variable {ifAgg fwifidx cookie : Nat} {m : Mem} {ps qs : List Pkt} {a : Agg}

theorem align4_lt_of_sum (hlt : hdrSize + alignedSum (queueOf fwifidx ps) < 2 ^ 16) :
    ∀ p ∈ ps, align4 (xmitFrm .little fwifidx p).hdr.length < 2 ^ 16 := by
  intro p hp
  have hmem : align4 (xmitFrm .little fwifidx p).hdr.length ∈ (queueOf fwifidx ps).map fun f => align4 f.hdr.length :=
    List.mem_map_of_mem (List.mem_map_of_mem hp)
  have := List.le_sum_of_mem hmem
  unfold alignedSum at hlt
  omega

/-- The aggregate of the frames `ps`, and what the receiver makes of it. -/
theorem rxAgg_eq (ha : hgicfTxAggFrm .little ifAgg m cookie (queueOf fwifidx (ps ++ qs)) = (a, queueOf fwifidx qs))
    (hlt : hdrSize + alignedSum (queueOf fwifidx ps) < 2 ^ 16) :
    layout .little a.mem hdrSize (subsOf .little (queueOf fwifidx ps) ((cookie + 1) % 2 ^ 16)) ∧
    hgicfRxAggFrm hgicHdrTxMagic a.mem (a.length .little) =
      some (packetsAt a.mem hdrSize (subsOf .little (queueOf fwifidx ps) ((cookie + 1) % 2 ^ 16))) := by
  have hreg := @regular_subsOf fwifidx ps ((cookie + 1) % 2 ^ 16) (align4_lt_of_sum hlt)
  rw [hgicfTxAggFrm, queueOf, List.map_append] at ha
  have hrest := congrArg Prod.snd ha
  have hsubs := aggTake_subs hrest
  have hwf := aggTake_wf (aggInit_wf .little m cookie) hrest (by rw [aggInit_length]; exact hlt)
  rw [ha] at hsubs hwf
  rw [show (aggInit .little m cookie).subs = [] from rfl, List.nil_append] at hsubs
  have hl := hwf.layout
  rw [hsubs] at hl
  refine ⟨hl, ?_⟩
  rw [hgicfRxAggFrm, hwf.length, hsubs, Nat.add_sub_cancel_left]
  have hfuel := length_le_subsLength fun x hx => (hreg x hx).hdrSize_le
  exact rxAggLoop_layout hreg hl (by omega)

end Result

/-- For every queue of which `hgicf_tx_agg_frm` takes the frames `ps`, on a little-endian host: when every frame taken
has a length that is a multiple of 4 and the 16-bit length of the aggregate does not overflow (it cannot with `if_agg`
below 65536), the receiver gets from the aggregate exactly the payloads it gets from the frames sent alone; and
without overflow it does so only then. -/
theorem agg_transparent_iff {ifAgg fwifidx cookie : Nat} {m : Mem} {ps qs : List Pkt} {a : Agg}
    (ha : hgicfTxAggFrm .little ifAgg m cookie (queueOf fwifidx (ps ++ qs)) = (a, queueOf fwifidx qs)) (c : Nat) :
    ((∀ p ∈ ps, 4 ∣ hdrSize + p.payload.length) ∧ hdrSize + alignedSum (queueOf fwifidx ps) < 65536 →
      Transparent a (queueOf fwifidx ps) c) ∧
    (ifAgg < 65536 ∨ hdrSize + alignedSum (queueOf fwifidx ps) < 65536 → Transparent a (queueOf fwifidx ps) c →
      ∀ p ∈ ps, 4 ∣ hdrSize + p.payload.length) := by
  have hsingle := @rxSingles_eq fwifidx ps c
  refine ⟨fun ⟨h4, hlt⟩ => ?_, fun hagg ht => ?_⟩
  · obtain ⟨hl, hrx⟩ := rxAgg_eq ha hlt
    rw [Transparent, hrx, queueOf, hsingle]
    exact congrArg some (packetsAt_eq (align4_lt_of_sum hlt) hl h4)
  · have hlt : hdrSize + alignedSum (queueOf fwifidx ps) < 2 ^ 16 := by
      rcases hagg with hagg | hagg
      · have hrest := congrArg Prod.snd ha
        rw [hgicfTxAggFrm, queueOf, List.map_append] at hrest
        have := aggTake_lt hagg (Nat.le_of_eq (aggInit_length .little m cookie).symm) hrest
        rw [aggInit_length] at this
        exact this
      · exact hagg
    obtain ⟨hl, hrx⟩ := rxAgg_eq ha hlt
    rw [Transparent, hrx, queueOf, hsingle, Option.some.injEq] at ht
    exact (bytesOf_packetsAt (align4_lt_of_sum hlt)).2 (congrArg bytesOf ht)

def oddAndEven : List Pkt :=
  [⟨[11, 12, 13, 14, 15], 0, [], by decide⟩, ⟨[21, 22, 23, 24], 0, [], by decide⟩]

theorem agg_transparent_iff_oddAndEven :
    Transparent (hgicfTxAggFrm .little 64 (fun _ => 0) 0 (queueOf 1 (oddAndEven.drop 1))).1
        (queueOf 1 (oddAndEven.drop 1)) 0 ∧
      ¬ Transparent (hgicfTxAggFrm .little 64 (fun _ => 0) 0 (queueOf 1 oddAndEven)).1 (queueOf 1 oddAndEven) 0 := by
  refine ⟨(@agg_transparent_iff 64 1 0 (fun _ => 0) (oddAndEven.drop 1) [] _ ?_ 0).1 (by decide), fun ht => ?_⟩
  · exact Prod.ext rfl (by decide)
  · have h4 := (@agg_transparent_iff 64 1 0 (fun _ => 0) oddAndEven [] _ (Prod.ext rfl (by decide)) 0).2
      (.inl (by decide)) ht
    revert h4
    decide

/-- The receiver gets three bytes of padding behind the payload of a frame of 13 bytes. -/
theorem agg_transparent_fails : ¬ ∀ (ifAgg fwifidx cookie : Nat) (m : Mem) (ps qs : List Pkt) (a : Agg),
    hgicfTxAggFrm .little ifAgg m cookie (queueOf fwifidx (ps ++ qs)) = (a, queueOf fwifidx qs) →
    ∀ c, Transparent a (queueOf fwifidx ps) c := by
  intro hall
  have ht := hall 64 1 0 (fun _ => 0) oddAndEven [] _ (Prod.ext rfl (by decide)) 0
  revert ht
  unfold Transparent
  decide

end HgicFmac.Core
