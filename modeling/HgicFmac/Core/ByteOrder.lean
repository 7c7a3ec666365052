import HgicFmac.Core.Transparent
import Mathlib.Algebra.BigOperators.Ring.List
import Mathlib.Algebra.Ring.Nat

/-!
# Aggregates of hosts of both byte orders

`hgicf_netif_xmit` stores the length of a frame in the order of the wire. `hgicf_tx_agg_frm` takes it as a number of the
host, and stores the lengths that it computes in the order of the host.

* `hostAgg` : the aggregate that a host builds from a queue;
* `Agg.onWire` : what the device gets of it, its 16-bit fields read as little-endian ones and the payloads;
* `Agg.WireOk` : the lengths on the wire are little-endian and those of the frames, which are copied whole;
* `wireOk_little` : so it is on a little-endian host while `if_agg` is below 65536;
* `sameOnWire_iff` : on hosts of both orders it is, with the same on the wire, exactly when neither takes the first
  frame of the queue.
-/

namespace HgicFmac.Core
open Lib

/-- The aggregate of `hgicf_tx_agg_frm` from the packets that `hgicf_netif_xmit` queued on a host of the order `e`, in
a new buffer with the contents `buf`. -/
def hostAgg (e : Endian) (ifAgg fwifidx : Nat) (ps : List Pkt) (cookie : Nat) (buf : Mem) : Agg :=
  (hgicfTxAggFrm e ifAgg buf cookie (ps.map (xmitFrm e fwifidx))).1

/-- `magic`, `length` and `cookie` of the header at `off`, as the device reads them. -/
def wireFields (m : Mem) (off : Nat) : Nat × Nat × Nat := (loadLe16 m off, loadLe16 m (off + 4), loadLe16 m (off + 6))

/-- The sub-frames where the loop put them: their fields, and behind each header as many bytes as the frame has. -/
def wireSubs (m : Mem) : Nat → List Sub → List ((Nat × Nat × Nat) × List UInt8)
  | _, [] => []
  | off, x :: xs =>
    (wireFields m off, m.read (off + hdrSize) x.frm.payload.length) :: wireSubs m (off + x.hdr.length) xs

/-- What the device gets. An aggregate that is only a header is freed. -/
def Agg.onWire (e : Endian) (a : Agg) : Option ((Nat × Nat × Nat) × List ((Nat × Nat × Nat) × List UInt8)) :=
  if hdrSize < a.length e then some (wireFields a.mem 0, wireSubs a.mem hdrSize a.subs) else none

/-- The length fields on the wire, and the bytes that were copied. -/
structure Agg.WireOk (e : Endian) (a : Agg) : Prop where
  handed : a.subs ≠ [] → hdrSize < a.length e
  /-- `cpylen` is `skb->len`. -/
  copied : ∀ x ∈ a.subs, x.frm.hdr.length = x.frm.len
  outer : hdrSize < a.length e → loadLe16 a.mem 4 = hdrSize + (a.subs.map fun x => align4 x.frm.len).sum
  inner : hdrSize < a.length e →
    (wireSubs a.mem hdrSize a.subs).map (fun w => w.1.2.1) = a.subs.map fun x => align4 x.frm.len
  /-- `skb_put(agg_skb, agghdr->length)`. -/
  skbLen : hdrSize < a.length e → a.length e = loadLe16 a.mem 4

/-- The aggregates of a little-endian and of a big-endian host, in any two buffers. -/
structure SameOnWire (ifAgg fwifidx : Nat) (ps : List Pkt) (cookie : Nat) (buf : Endian → Mem) : Prop where
  ok : ∀ e, (hostAgg e ifAgg fwifidx ps cookie (buf e)).WireOk e
  same : (hostAgg .little ifAgg fwifidx ps cookie (buf .little)).onWire .little =
    (hostAgg .big ifAgg fwifidx ps cookie (buf .big)).onWire .big

/-! ## The frames that are taken -/

theorem aggTake_split (e : Endian) (ifAgg : Nat) (a : Agg) (fs : List Frm) (cookie : Nat) :
    ∃ hs, fs = hs ++ (aggTake e ifAgg a fs cookie).2 := by
  induction fs generalizing a cookie with
  | nil => exact ⟨[], rfl⟩
  | cons f fs ih =>
    rw [aggTake]
    split
    · obtain ⟨hs, heq⟩ := ih (aggAdd e a f cookie) ((cookie + 1) % 2 ^ 16)
      exact ⟨f :: hs, congrArg (List.cons f) heq⟩
    · exact ⟨[], rfl⟩

theorem aggTake_subs_ne_nil {e : Endian} {ifAgg : Nat} {a : Agg} (fs : List Frm) (cookie : Nat) (ha : a.subs ≠ []) :
    (aggTake e ifAgg a fs cookie).1.subs ≠ [] := by
  induction fs generalizing a cookie with
  | nil => exact ha
  | cons f fs ih =>
    rw [aggTake]
    split
    · apply ih
      exact List.append_ne_nil_of_right_ne_nil _ (List.cons_ne_nil _ _)
    · exact ha

theorem mem_subsOf {e : Endian} {fs : List Frm} {cookie : Nat} {x : Sub} (hx : x ∈ subsOf e fs cookie) :
    x.frm ∈ fs := by
  induction fs generalizing cookie with
  | nil => exact absurd hx List.not_mem_nil
  | cons f fs ih =>
    rw [subsOf, List.mem_cons] at hx
    rcases hx with rfl | hx
    · exact List.mem_cons_self
    · exact List.mem_cons_of_mem f (ih hx)

theorem frm_subsOf (e : Endian) (fs : List Frm) (cookie : Nat) : (subsOf e fs cookie).map Sub.frm = fs := by
  induction fs generalizing cookie with
  | nil => rfl
  | cons f fs ih => rw [subsOf, List.map_cons, ih]

theorem sum_subsOf (e : Endian) (fs : List Frm) (cookie : Nat) :
    ((subsOf e fs cookie).map fun x => align4 x.frm.hdr.length).sum = alignedSum fs := by
  have hmap : (subsOf e fs cookie).map (fun x => align4 x.frm.hdr.length) =
      ((subsOf e fs cookie).map Sub.frm).map fun f => align4 f.hdr.length := by
    rw [List.map_map]
    rfl
  rw [hmap, frm_subsOf, alignedSum]

section Host
variable {e : Endian} {ifAgg fwifidx : Nat} {ps : List Pkt} {cookie : Nat} {buf : Mem}

theorem hostAgg_split (e : Endian) (ifAgg fwifidx : Nat) (ps : List Pkt) (cookie : Nat) (buf : Mem) :
    ∃ fs gs, ps.map (xmitFrm e fwifidx) = fs ++ gs ∧
      (aggTake e ifAgg (aggInit e buf cookie) (fs ++ gs) ((cookie + 1) % 2 ^ 16)).2 = gs ∧
      (hostAgg e ifAgg fwifidx ps cookie buf).subs = subsOf e fs ((cookie + 1) % 2 ^ 16) := by
  obtain ⟨fs, hsplit⟩ := aggTake_split e ifAgg (aggInit e buf cookie) (ps.map (xmitFrm e fwifidx))
    ((cookie + 1) % 2 ^ 16)
  have htake := congrArg (fun l => (aggTake e ifAgg (aggInit e buf cookie) l ((cookie + 1) % 2 ^ 16)).2) hsplit
  refine ⟨fs, _, hsplit, htake.symm, ?_⟩
  unfold hostAgg hgicfTxAggFrm
  rw [hsplit]
  exact aggTake_subs htake.symm

/-- A host takes nothing when the first frame does not fit, by the length that the host reads in its header. -/
theorem hostAgg_subs_eq_nil_iff : (hostAgg e ifAgg fwifidx ps cookie buf).subs = [] ↔
    ∀ p ∈ ps.head?, ifAgg < hdrSize + align4 (cpuToLe16 e (hdrSize + p.payload.length)) := by
  unfold hostAgg hgicfTxAggFrm
  cases ps with
  | nil => exact ⟨fun _ p hp => absurd hp (Option.not_mem_none p), fun _ => rfl⟩
  | cons p ps =>
    have hfits : aggFits e ifAgg (aggInit e buf cookie) (xmitFrm e fwifidx p) = true ↔
        ¬ ifAgg < hdrSize + align4 (cpuToLe16 e (hdrSize + p.payload.length)) := by
      rw [aggFits, aggInit_length, decide_eq_true_eq, Nat.not_lt]
      rfl
    rw [List.map_cons, aggTake, List.head?_cons]
    split
    · next h =>
      constructor
      · intro hnil
        exact absurd hnil (aggTake_subs_ne_nil _ _ (List.append_ne_nil_of_right_ne_nil _ (List.cons_ne_nil _ _)))
      · intro hall
        exact absurd (hall p rfl) (hfits.mp h)
    · next h =>
      constructor
      · rintro - q hq
        rw [← Option.mem_some.mp hq]
        exact Decidable.not_not.mp (fun hn => h (hfits.mpr hn))
      · intro _
        rfl

theorem hostAgg_length_of_nil (h : (hostAgg e ifAgg fwifidx ps cookie buf).subs = []) :
    (hostAgg e ifAgg fwifidx ps cookie buf).length e = hdrSize := by
  obtain ⟨fs, gs, hsplit, htake, hsubs⟩ := hostAgg_split e ifAgg fwifidx ps cookie buf
  have hfs : fs = [] := by
    rw [← frm_subsOf e fs ((cookie + 1) % 2 ^ 16), ← hsubs, h]
    rfl
  rw [hfs, List.nil_append] at hsplit htake
  unfold hostAgg hgicfTxAggFrm
  rw [hsplit, aggTake_nil htake]
  exact aggInit_length e buf cookie

/-- While the length field does not overflow, the aggregate has its shape and its length is that of the sub-frames. -/
theorem hostAgg_wf
    (hlt : hdrSize + ((hostAgg e ifAgg fwifidx ps cookie buf).subs.map fun x => align4 x.frm.hdr.length).sum < 2 ^ 16) :
    (hostAgg e ifAgg fwifidx ps cookie buf).Wf e := by
  obtain ⟨fs, gs, hsplit, htake, hsubs⟩ := hostAgg_split e ifAgg fwifidx ps cookie buf
  unfold hostAgg hgicfTxAggFrm
  rw [hsplit]
  apply aggTake_wf (aggInit_wf e buf cookie) htake
  rw [aggInit_length, ← sum_subsOf e fs ((cookie + 1) % 2 ^ 16), ← hsubs]
  exact hlt

/-- The frames are those that `hgicf_netif_xmit` queued: the field has the length of the skb in the order of the wire. -/
theorem hostAgg_frm {x : Sub} (hx : x ∈ (hostAgg e ifAgg fwifidx ps cookie buf).subs) :
    x.frm.hdr.length = cpuToLe16 e x.frm.len ∧ x.frm.len < 2 ^ 16 := by
  obtain ⟨fs, gs, hsplit, -, hsubs⟩ := hostAgg_split e ifAgg fwifidx ps cookie buf
  rw [hsubs] at hx
  have hmem : x.frm ∈ ps.map (xmitFrm e fwifidx) := by
    rw [hsplit]
    exact List.mem_append_left gs (mem_subsOf hx)
  obtain ⟨p, -, hp⟩ := List.mem_map.mp hmem
  rw [← hp]
  exact ⟨rfl, p.len_lt⟩

end Host

/-! ## The length fields on the wire -/

theorem loadLe16_frm_length (e : Endian) (f : Frm) : loadLe16 (f.mem e) 4 = cpuToLe16 e f.hdr.length := by
  cases e with
  | little =>
    simp [loadLe16, Frm.mem, Mem.ofList, Hdr.bytes, bytes16, cpuToLe16]
    omega
  | big =>
    simp [loadLe16, Frm.mem, Mem.ofList, Hdr.bytes, bytes16, cpuToLe16]
    omega

theorem inner_of_layout {e : Endian} {m : Mem} {xs : List Sub} {off : Nat} (hl : layout e m off xs)
    (hx : ∀ x ∈ xs, hdrSize ≤ x.frm.hdr.length) :
    (wireSubs m off xs).map (fun w => w.1.2.1) = xs.map fun x => cpuToLe16 e x.hdr.length := by
  induction xs generalizing off with
  | nil => rfl
  | cons x xs ih =>
    have h8 := hx x List.mem_cons_self
    unfold hdrSize at h8
    have hbyte : ∀ k, k < 8 → m (off + k) = x.skb.mem e k := by
      intro k hk
      rw [← getD_read m off (by omega : k < x.frm.hdr.length), hl.1, getD_read _ _ (by omega), Nat.zero_add]
    rw [wireSubs, List.map_cons, List.map_cons, ih hl.2 (fun y hy => hx y (List.mem_cons_of_mem x hy))]
    have hskb : loadLe16 (x.skb.mem e) 4 = cpuToLe16 e x.hdr.length := loadLe16_frm_length e x.skb
    have hfield : loadLe16 m (off + 4) = cpuToLe16 e x.hdr.length := by
      rw [← hskb, loadLe16, loadLe16, hbyte 4 (by decide), Nat.add_assoc, hbyte 5 (by decide)]
    exact congrArg (fun v => v :: xs.map fun x => cpuToLe16 e x.hdr.length) hfield

/-- Frames that are copied whole: the length of the aggregate, and what the device reads in the length fields of the
sub-frames. -/
theorem lengths_of_copied {e : Endian} {a : Agg} (hwf : a.Wf e) (hcopied : ∀ x ∈ a.subs, x.frm.hdr.length = x.frm.len) :
    a.length e = hdrSize + (a.subs.map fun x => align4 x.frm.len).sum ∧
      (wireSubs a.mem hdrSize a.subs).map (fun w => w.1.2.1) = a.subs.map fun x => cpuToLe16 e (align4 x.frm.len) := by
  have hhdr : ∀ x ∈ a.subs, x.hdr.length = align4 x.frm.len := by
    intro x hx
    rw [hwf.aligned x hx, hcopied x hx]
  constructor
  · rw [hwf.length, subsLength, List.map_congr_left hhdr]
  · rw [inner_of_layout hwf.layout]
    · apply List.map_congr_left
      intro x hx
      rw [hhdr x hx]
    · intro x hx
      rw [hcopied x hx]
      exact Nat.le_add_right _ _

theorem sum_of_copied {a : Agg} (hcopied : ∀ x ∈ a.subs, x.frm.hdr.length = x.frm.len) :
    (a.subs.map fun x => align4 x.frm.hdr.length) = a.subs.map fun x => align4 x.frm.len := by
  apply List.map_congr_left
  intro x hx
  rw [hcopied x hx]

theorem hostAgg_sum_lt {e : Endian} {ifAgg : Nat} (hagg : ifAgg < 2 ^ 16) (fwifidx : Nat) (ps : List Pkt) (cookie : Nat)
    (buf : Mem) :
    hdrSize + ((hostAgg e ifAgg fwifidx ps cookie buf).subs.map fun x => align4 x.frm.hdr.length).sum < 2 ^ 16 := by
  obtain ⟨fs, gs, -, htake, hsubs⟩ := hostAgg_split e ifAgg fwifidx ps cookie buf
  have hlt := aggTake_lt hagg (Nat.le_of_eq (aggInit_length e buf cookie).symm) htake
  rw [aggInit_length, ← sum_subsOf e fs ((cookie + 1) % 2 ^ 16), ← hsubs] at hlt
  exact hlt

/-- **On a little-endian host** the lengths on the wire are right while `if_agg` fits in the length field. -/
theorem wireOk_little {ifAgg : Nat} (hagg : ifAgg < 2 ^ 16) (fwifidx : Nat) (ps : List Pkt) (cookie : Nat) (buf : Mem) :
    (hostAgg .little ifAgg fwifidx ps cookie buf).WireOk .little := by
  have hcopied : ∀ x ∈ (hostAgg .little ifAgg fwifidx ps cookie buf).subs, x.frm.hdr.length = x.frm.len := by
    intro x hx
    obtain ⟨hlen, hlt⟩ := hostAgg_frm hx
    rw [hlen]
    exact Nat.mod_eq_of_lt hlt
  have hlt := @hostAgg_sum_lt .little _ hagg fwifidx ps cookie buf
  obtain ⟨hlen, hinner⟩ := lengths_of_copied (hostAgg_wf hlt) hcopied
  rw [sum_of_copied hcopied] at hlt
  have hle : ∀ x ∈ (hostAgg .little ifAgg fwifidx ps cookie buf).subs, align4 x.frm.len ≤
      ((hostAgg .little ifAgg fwifidx ps cookie buf).subs.map fun x => align4 x.frm.len).sum := by
    intro x hx
    exact List.le_sum_of_mem (List.mem_map_of_mem (f := fun x => align4 x.frm.len) hx)
  refine ⟨?_, hcopied, fun _ => hlen, fun _ => ?_, fun _ => rfl⟩
  · intro hne
    obtain ⟨x, hx⟩ := List.exists_mem_of_ne_nil _ hne
    have hx' := hle x hx
    have h4 := le_align4 x.frm.len
    have h8 : hdrSize ≤ x.frm.len := Nat.le_add_right _ _
    unfold hdrSize at *
    omega
  · rw [hinner]
    apply List.map_congr_left
    intro x hx
    have hx' := hle x hx
    exact Nat.mod_eq_of_lt (by omega)

/-! ## Both hosts -/

/-- A number below 65536 that is the same in both orders is a multiple of 257. -/
theorem dvd_of_swap_eq {x : Nat} (h : cpuToLe16 .big x = x) : 257 ∣ x := by
  have hlt : x < 65536 := h ▸ cpuToLe16_lt .big x
  have hx := Nat.div_add_mod x 256
  rw [cpuToLe16, Nat.mod_eq_of_lt (by omega : x / 256 < 256)] at h
  exact ⟨x / 256, by omega⟩

theorem dvd_of_load16_eq {m : Mem} {off : Nat} (h : load16 .big m off = loadLe16 m off) : 257 ∣ loadLe16 m off := by
  simp only [load16, loadLe16] at *
  omega

/-- On a big-endian host no aggregate with a frame is right: the lengths of its frames, their lengths rounded up and
its own length would all be multiples of 257. -/
theorem subs_eq_nil_of_wireOk_big {ifAgg fwifidx : Nat} {ps : List Pkt} {cookie : Nat} {buf : Mem}
    (hok : (hostAgg .big ifAgg fwifidx ps cookie buf).WireOk .big) :
    (hostAgg .big ifAgg fwifidx ps cookie buf).subs = [] := by
  by_contra hne
  have hhanded := hok.handed hne
  have houter := hok.outer hhanded
  have hlt : hdrSize + ((hostAgg .big ifAgg fwifidx ps cookie buf).subs.map fun x => align4 x.frm.len).sum < 2 ^ 16 := by
    rw [← houter]
    exact load16_lt .little _ 4
  have hwf := hostAgg_wf (by rw [sum_of_copied hok.copied]; exact hlt)
  obtain ⟨-, hinner⟩ := lengths_of_copied hwf hok.copied
  rw [hok.inner hhanded] at hinner
  have hdvd : ∀ n ∈ (hostAgg .big ifAgg fwifidx ps cookie buf).subs.map (fun x => align4 x.frm.len), 257 ∣ n := by
    intro n hn
    obtain ⟨x, hx, rfl⟩ := List.mem_map.mp hn
    exact dvd_of_swap_eq (List.map_inj_left.mp hinner x hx).symm
  have hsum : 257 ∣ ((hostAgg .big ifAgg fwifidx ps cookie buf).subs.map fun x => align4 x.frm.len).sum :=
    List.dvd_sum hdvd
  have htotal := dvd_of_load16_eq (hok.skbLen hhanded)
  rw [houter] at htotal
  exact absurd ((Nat.dvd_add_left hsum).mp htotal) (by decide)

/-- **Both byte orders**: the aggregate of every queue has right lengths and is the same on the wire exactly when
neither host takes the first frame, by the length that it reads in the header. -/
theorem sameOnWire_iff (ifAgg fwifidx : Nat) (ps : List Pkt) (cookie : Nat) (buf : Endian → Mem) :
    SameOnWire ifAgg fwifidx ps cookie buf ↔ ∀ e, ∀ p ∈ ps.head?,
      ifAgg < hdrSize + align4 (cpuToLe16 e (hdrSize + p.payload.length)) := by
  constructor
  · intro hsame
    have hbig := subs_eq_nil_of_wireOk_big (hsame.ok .big)
    have hnone : (hostAgg .little ifAgg fwifidx ps cookie (buf .little)).onWire .little = none := by
      rw [hsame.same, Agg.onWire, hostAgg_length_of_nil hbig, if_neg (Nat.lt_irrefl _)]
    have hlittle : (hostAgg .little ifAgg fwifidx ps cookie (buf .little)).subs = [] := by
      by_contra hne
      rw [Agg.onWire, if_pos ((hsame.ok .little).handed hne)] at hnone
      exact absurd hnone (Option.some_ne_none _)
    intro e
    cases e with
    | little => exact hostAgg_subs_eq_nil_iff.mp hlittle
    | big => exact hostAgg_subs_eq_nil_iff.mp hbig
  · intro hfit
    have hnil : ∀ e, (hostAgg e ifAgg fwifidx ps cookie (buf e)).subs = [] :=
      fun e => hostAgg_subs_eq_nil_iff.mpr (hfit e)
    have hlen : ∀ e, ¬ hdrSize < (hostAgg e ifAgg fwifidx ps cookie (buf e)).length e := by
      intro e
      rw [hostAgg_length_of_nil (hnil e)]
      exact Nat.lt_irrefl _
    refine ⟨fun e => ⟨?_, ?_, ?_, ?_, ?_⟩, ?_⟩
    · exact fun hne => absurd (hnil e) hne
    · intro x hx
      rw [hnil e] at hx
      exact absurd hx List.not_mem_nil
    · exact fun h => absurd h (hlen e)
    · exact fun h => absurd h (hlen e)
    · exact fun h => absurd h (hlen e)
    · rw [Agg.onWire, Agg.onWire, if_neg (hlen .little), if_neg (hlen .big)]

def plainPkt (n : Nat) (h : hdrSize + n < 2 ^ 16) : Pkt :=
  ⟨List.replicate n 7, 0, [], by rw [List.length_replicate]; exact h⟩

def pkt256 : Pkt := plainPkt 248 (by decide)
def pkt68 : Pkt := plainPkt 60 (by decide)

/-- With room for 4096 bytes, a big-endian host takes 68 for 17408 and hands nothing over; it takes 256 for 1, copies one
byte and sends 12 bytes with the outer length 3072 on the wire. -/
theorem not_sameOnWire_256 : (¬ ∀ ifAgg fwifidx ps cookie buf, SameOnWire ifAgg fwifidx ps cookie buf) ∧
    (hostAgg .little 4096 1 [pkt68, pkt68] 0 (fun _ => 0)).length .little = 144 ∧
    (hostAgg .big 4096 1 [pkt68, pkt68] 0 (fun _ => 0)).onWire .big = none ∧
    (hostAgg .little 4096 1 [pkt256] 0 (fun _ => 0)).length .little = 264 ∧
    (hostAgg .big 4096 1 [pkt256] 0 (fun _ => 0)).length .big = 12 ∧
    (hostAgg .big 4096 1 [pkt256] 0 (fun _ => 0)).subs.map (fun x => (x.frm.hdr.length, x.frm.len)) = [(1, 256)] ∧
    loadLe16 (hostAgg .big 4096 1 [pkt256] 0 (fun _ => 0)).mem 4 = 3072 := by
  refine ⟨?_, by decide +kernel, by decide +kernel, by decide +kernel, by decide +kernel, by decide +kernel,
    by decide +kernel⟩
  intro hall
  have hnil := subs_eq_nil_of_wireOk_big ((hall 4096 1 [pkt256] 0 fun _ _ => 0).ok .big)
  revert hnil
  decide +kernel

end HgicFmac.Core
