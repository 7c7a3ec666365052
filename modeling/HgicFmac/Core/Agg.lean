import HgicFmac.Core.Frame

/-!
# Building an aggregate

* `layout e m off xs` : the sub-frames `xs` lie in `m` one after the other from `off` on, each as the first `cpylen`
  bytes of its skb, at a distance of its length field;
* `Agg.Wf` : the length field is 8 plus the sub-frame length fields, and the sub-frames lie behind the header;
* `aggInit_wf`, `aggAdd_wf` : the header and each pass of the copy loop that does not overflow the length field
  keep it; `aggInit_cookie`, `aggAdd_cookie` : the copies do not touch the cookie of the aggregate.
-/

namespace HgicFmac.Core
open Lib

theorem le_align4 (x : Nat) : x ≤ align4 x := by
  unfold align4
  omega

theorem align4_eq_iff (x : Nat) : align4 x = x ↔ 4 ∣ x := by
  unfold align4
  omega

/-- The sum of the length fields. -/
def subsLength (xs : List Sub) : Nat := (xs.map fun x => x.hdr.length).sum

@[simp] theorem subsLength_nil : subsLength [] = 0 := rfl

@[simp] theorem subsLength_cons (x : Sub) (xs : List Sub) : subsLength (x :: xs) = x.hdr.length + subsLength xs := by
  simp [subsLength]

@[simp] theorem subsLength_append (xs ys : List Sub) : subsLength (xs ++ ys) = subsLength xs + subsLength ys := by
  simp [subsLength]

/-- The sub-frames `xs` lie in `m` from `off` on. -/
def layout (e : Endian) (m : Mem) : Nat → List Sub → Prop
  | _, [] => True
  | off, x :: xs => m.read off x.frm.hdr.length = (x.skb.mem e).read 0 x.frm.hdr.length ∧
      layout e m (off + x.hdr.length) xs

/-- An aggregate as the receiver expects it. -/
structure Agg.Wf (e : Endian) (a : Agg) : Prop where
  length : a.length e = hdrSize + subsLength a.subs
  aligned : ∀ x ∈ a.subs, x.hdr.length = align4 x.frm.hdr.length
  layout : layout e a.mem hdrSize a.subs

theorem layout_congr {e : Endian} {m m' : Mem} {xs : List Sub} {off : Nat}
    (hx : ∀ x ∈ xs, x.frm.hdr.length ≤ x.hdr.length)
    (h : ∀ i, off ≤ i → i < off + subsLength xs → m i = m' i) (hl : layout e m off xs) : layout e m' off xs := by
  induction xs generalizing off with
  | nil => trivial
  | cons x xs ih =>
    have hle := hx x List.mem_cons_self
    rw [subsLength_cons] at h
    refine ⟨?_, ih (fun y hy => hx y (List.mem_cons_of_mem x hy)) (fun i h1 h2 => h i (by omega) (by omega)) hl.2⟩
    rw [← hl.1]
    exact read_congr fun i h1 h2 => (h i h1 (by omega)).symm

theorem layout_append_singleton {e : Endian} {m : Mem} {xs : List Sub} {x : Sub} {off : Nat} (hl : layout e m off xs)
    (hx : m.read (off + subsLength xs) x.frm.hdr.length = (x.skb.mem e).read 0 x.frm.hdr.length) :
    layout e m off (xs ++ [x]) := by
  induction xs generalizing off with
  | nil => exact ⟨hx, trivial⟩
  | cons y ys ih =>
    refine ⟨hl.1, ih hl.2 ?_⟩
    rw [Nat.add_assoc, ← subsLength_cons]
    exact hx

/-! ## The header -/

theorem load16_hdr_length (e : Endian) (m : Mem) (h : Hdr) :
    load16 e (m.write 0 (h.bytes e)) 4 = h.length % 65536 := by
  rw [← load16_write e m 4 h.length]
  cases e <;> rfl

theorem load16_hdr_cookie (e : Endian) (m : Mem) (h : Hdr) :
    load16 e (m.write 0 (h.bytes e)) 6 = h.cookie % 65536 := by
  rw [← load16_write e m 6 h.cookie]
  cases e <;> rfl

theorem aggInit_length (e : Endian) (m : Mem) (cookie : Nat) : (aggInit e m cookie).length e = hdrSize := by
  unfold Agg.length aggInit
  rw [load16_hdr_length]
  rfl

theorem aggInit_cookie (e : Endian) (m : Mem) (cookie : Nat) :
    (aggInit e m cookie).cookie e = cpuToLe16 e cookie := by
  unfold Agg.cookie aggInit
  rw [load16_hdr_cookie, Nat.mod_eq_of_lt (cpuToLe16_lt e cookie)]

theorem aggInit_wf (e : Endian) (m : Mem) (cookie : Nat) : (aggInit e m cookie).Wf e where
  length := aggInit_length e m cookie
  aligned _ hx := absurd hx List.not_mem_nil
  layout := trivial

/-! ## One pass of the loop -/

section Add
variable {e : Endian} {a : Agg} {f : Frm} {cookie : Nat}

/-- What the pass leaves in the buffer: the copy behind the sub-frames, the new length in the header. -/
theorem aggAdd_mem (h8 : hdrSize ≤ a.length e) :
    (aggAdd e a f cookie).mem =
      (a.mem.write (a.length e) (((⟨f, subHdr e f cookie⟩ : Sub).skb.mem e).read 0 f.hdr.length)).write 4
        (bytes16 e ((a.length e + align4 f.hdr.length % 2 ^ 16) % 2 ^ 16)) := by
  unfold hdrSize at h8
  have hload := load16_write_of_le e a.mem (((⟨f, subHdr e f cookie⟩ : Sub).skb.mem e).read 0 f.hdr.length)
    (show 4 + 2 ≤ a.length e by omega)
  simp only [aggAdd, hload]
  rfl

theorem aggAdd_length (h8 : hdrSize ≤ a.length e) :
    (aggAdd e a f cookie).length e = (a.length e + align4 f.hdr.length) % 2 ^ 16 := by
  unfold Agg.length at *
  rw [aggAdd_mem h8, load16_write]
  unfold Agg.length
  omega

theorem aggAdd_cookie (h8 : hdrSize ≤ a.length e) : (aggAdd e a f cookie).cookie e = a.cookie e := by
  unfold Agg.cookie
  rw [aggAdd_mem h8, load16_write_of_ge e _ _ (Nat.le_of_eq (by rw [length_bytes16])), load16_write_of_le e _ _ h8]

theorem aggAdd_wf (ha : a.Wf e) (hlt : a.length e + align4 f.hdr.length < 2 ^ 16) : (aggAdd e a f cookie).Wf e := by
  have h8 : hdrSize ≤ a.length e := by
    rw [ha.length]
    omega
  have hhdr : (subHdr e f cookie).length = align4 f.hdr.length := Nat.mod_eq_of_lt (by omega)
  have hsubs : (aggAdd e a f cookie).subs = a.subs ++ [⟨f, subHdr e f cookie⟩] := rfl
  have haligned : ∀ x ∈ (aggAdd e a f cookie).subs, x.hdr.length = align4 x.frm.hdr.length := by
    intro x hx
    rw [hsubs, List.mem_append, List.mem_singleton] at hx
    rcases hx with hx | rfl
    · exact ha.aligned x hx
    · exact hhdr
  refine ⟨?_, haligned, ?_⟩
  · rw [aggAdd_length h8, Nat.mod_eq_of_lt hlt, hsubs, subsLength_append, ha.length, subsLength_cons, hhdr,
      subsLength_nil]
    omega
  · rw [hsubs, aggAdd_mem h8]
    unfold hdrSize at h8
    have hbytes := length_bytes16 e ((a.length e + align4 f.hdr.length % 2 ^ 16) % 2 ^ 16)
    apply layout_append_singleton
    · -- the earlier sub-frames lie between the length field and the copy
      refine layout_congr (fun x hx => ?_) (fun i h1 h2 => ?_) ha.layout
      · rw [ha.aligned x hx]
        exact le_align4 _
      · rw [← ha.length] at h2
        unfold hdrSize at h1
        rw [write_of_le _ _ (by omega), write_of_lt _ _ h2]
    · rw [← ha.length, read_write_of_ge _ _ (by omega)]
      have hself := read_write_self a.mem (a.length e)
        (((⟨f, subHdr e f cookie⟩ : Sub).skb.mem e).read 0 f.hdr.length)
      rw [length_read] at hself
      exact hself

end Add

end HgicFmac.Core
