import HgicFmac.Core.Agg

/-!
# Taking an aggregate apart

The receive path on a little-endian host, where `le16_to_cpu` changes nothing. The magic number is a parameter: the
device follows the same rule for the packets of the host.

* `hgicfRxSingleFrm` : the packets that `hgicf_rx_single_frm` delivers; the length that it computes is an `int`, and
  a negative one is an error here;
* `hgicfRxAggFrm` : the packets that `hgicf_rx_agg_frm` delivers, from a loop that strides by the length fields;
* `rxAggLoop_layout` : what the loop delivers for sub-frames that lie one after the other.
-/

namespace HgicFmac.Core
open Lib

/-- `hdr->flags` of the header at `off`. -/
def flagsAt (m : Mem) (off : Nat) : Nat := (m (off + 3)).toNat / 16

/-- The delivered packets: the `len` bytes at `off` without the header and the `flags` bytes of padding. -/
def hgicfRxSingleFrm (m : Mem) (off len : Nat) : Option (List (List UInt8)) :=
  if len ≤ hdrSize then some []
  else if len < hdrSize + flagsAt m off then none
  else some [m.read (off + hdrSize) (len - (hdrSize + flagsAt m off))]

/-- The loop over `len` bytes at `off`. It runs out of fuel only when it does not end. -/
def rxAggLoop (magic : Nat) (m : Mem) : Nat → Nat → Nat → Option (List (List UInt8))
  | 0, _, _ => none
  | fuel + 1, off, len =>
    if len ≤ hdrSize then some []
    else if loadLe16 m off = magic ∧ (m (off + 2)).toNat = HdrType.frm2.byte ∧ loadLe16 m (off + 4) ≤ len then
      (hgicfRxSingleFrm m off (loadLe16 m (off + 4))).bind fun out =>
        (rxAggLoop magic m fuel (off + loadLe16 m (off + 4)) (len - loadLe16 m (off + 4))).map (out ++ ·)
    else some []

/-- A pass that strides by at least a byte leaves fewer bytes, so `len + 1` passes are enough for every loop that
ends. -/
def hgicfRxAggFrm (magic : Nat) (m : Mem) (len : Nat) : Option (List (List UInt8)) :=
  rxAggLoop magic m (len + 1) hdrSize (len - hdrSize)

/-! ## Headers in memory -/

section Header
variable {m : Mem} {off : Nat} {h : Hdr} (hm : m.read off hdrSize = h.bytes .little)
include hm

theorem getD_hdr {k : Nat} (hk : k < hdrSize) : m (off + k) = (h.bytes .little).getD k 0 := by
  rw [← hm, getD_read m off hk]

theorem magic_of_read (hlt : h.magic < 65536) : loadLe16 m off = h.magic := by
  have h0 := getD_hdr hm (show 0 < hdrSize by decide)
  have h1 := getD_hdr hm (show 1 < hdrSize by decide)
  rw [Nat.add_zero] at h0
  rw [loadLe16, h0, h1]
  simp only [Hdr.bytes, bytes16, List.flatten_cons, List.cons_append, List.nil_append, List.getD_cons_zero,
    List.getD_cons_succ, UInt8.toNat_ofNat']
  omega

theorem type_of_read (hlt : h.type < 256) : (m (off + 2)).toNat = h.type := by
  rw [getD_hdr hm (show 2 < hdrSize by decide)]
  simp only [Hdr.bytes, bytes16, List.flatten_cons, List.cons_append, List.nil_append, List.getD_cons_zero,
    List.getD_cons_succ, UInt8.toNat_ofNat']
  omega

theorem flags_of_read : flagsAt m off = h.flags % 16 := by
  rw [flagsAt, getD_hdr hm (show 3 < hdrSize by decide)]
  simp only [Hdr.bytes, bytes16, nibbles, List.flatten_cons, List.cons_append, List.nil_append, List.getD_cons_zero,
    List.getD_cons_succ, UInt8.toNat_ofNat']
  omega

theorem length_of_read (hlt : h.length < 65536) : loadLe16 m (off + 4) = h.length := by
  have h4 := getD_hdr hm (show 4 < hdrSize by decide)
  have h5 := getD_hdr hm (show 5 < hdrSize by decide)
  rw [loadLe16, h4, show off + 4 + 1 = off + 5 by omega, h5]
  simp only [Hdr.bytes, bytes16, List.flatten_cons, List.cons_append, List.nil_append, List.getD_cons_zero,
    List.getD_cons_succ, UInt8.toNat_ofNat']
  omega

end Header

/-! ## Sub-frames one after the other -/

/-- A sub-frame as the host builds it: copied whole, without the count of its padding in `flags`. -/
structure Sub.Regular (x : Sub) : Prop where
  magic : x.hdr.magic = hgicHdrTxMagic
  type : x.hdr.type = HdrType.frm2.byte
  flags : x.hdr.flags = 0
  whole : x.frm.hdr.length = x.frm.len
  le : x.frm.hdr.length ≤ x.hdr.length
  lt : x.hdr.length < 65536

/-- The packet without padding at `off`, if it is more than a header. -/
def packetAt (m : Mem) (off len : Nat) : List (List UInt8) :=
  if len ≤ hdrSize then [] else [m.read (off + hdrSize) (len - hdrSize)]

/-- The packets of the sub-frames `xs` from `off` on, each taken to the end of its length field. -/
def packetsAt (m : Mem) : Nat → List Sub → List (List UInt8)
  | _, [] => []
  | off, x :: xs => packetAt m off x.hdr.length ++ packetsAt m (off + x.hdr.length) xs

theorem rxSingle_of_flags {m : Mem} {off len : Nat} (hf : flagsAt m off = 0) :
    hgicfRxSingleFrm m off len = some (packetAt m off len) := by
  unfold hgicfRxSingleFrm packetAt
  rw [hf, Nat.add_zero]
  split
  · rfl
  · rw [if_neg (by omega)]

section Regular
variable {m : Mem} {off : Nat} {x : Sub}

theorem Sub.Regular.read_eq (hx : x.Regular)
    (hm : m.read off x.frm.hdr.length = (x.skb.mem .little).read 0 x.frm.hdr.length) :
    m.read off hdrSize = x.hdr.bytes .little ∧ m.read (off + hdrSize) x.frm.payload.length = x.frm.payload := by
  have hskb : x.skb.mem .little = Mem.ofList (x.hdr.bytes .little ++ (x.frm.payload ++ x.frm.tail)) := by
    unfold Frm.mem Sub.skb
    simp
  have hlen : (x.hdr.bytes .little).length = hdrSize := length_bytes .little x.hdr
  rw [hx.whole, Frm.len, hskb, read_ofList _ (by simp [hlen]), read_add, ← hlen, List.take_length_add_append,
    List.take_left] at hm
  have hboth := List.append_inj hm (by simp)
  rw [hlen] at hboth
  exact hboth

theorem Sub.Regular.hdrSize_le (hx : x.Regular) : hdrSize ≤ x.hdr.length := by
  have := hx.le
  rw [hx.whole, Frm.len] at this
  omega

end Regular

theorem length_le_subsLength {xs : List Sub} (hx : ∀ x ∈ xs, hdrSize ≤ x.hdr.length) : xs.length ≤ subsLength xs := by
  induction xs with
  | nil => exact Nat.le_refl 0
  | cons x xs ih =>
    have h8 := hx x List.mem_cons_self
    have := ih fun y hy => hx y (List.mem_cons_of_mem x hy)
    unfold hdrSize at h8
    rw [List.length_cons, subsLength_cons]
    omega

theorem rxAggLoop_layout {m : Mem} {xs : List Sub} {off fuel : Nat} (hx : ∀ x ∈ xs, x.Regular)
    (hl : layout .little m off xs) (hfuel : xs.length < fuel) :
    rxAggLoop hgicHdrTxMagic m fuel off (subsLength xs) = some (packetsAt m off xs) := by
  induction xs generalizing off fuel with
  | nil =>
    obtain ⟨n, rfl⟩ := Nat.exists_eq_add_of_lt hfuel
    rfl
  | cons x xs ih =>
    obtain ⟨n, rfl⟩ := Nat.exists_eq_add_of_lt hfuel
    have hreg := hx x List.mem_cons_self
    have hxs : ∀ y ∈ xs, y.Regular := fun y hy => hx y (List.mem_cons_of_mem x hy)
    have h8 := hreg.hdrSize_le
    obtain ⟨hread, -⟩ := hreg.read_eq hl.1
    have hmagic : loadLe16 m off = hgicHdrTxMagic := by
      rw [magic_of_read hread (by rw [hreg.magic]; decide), hreg.magic]
    have htype : (m (off + 2)).toNat = HdrType.frm2.byte := by
      rw [type_of_read hread (by rw [hreg.type]; decide), hreg.type]
    have hflags : flagsAt m off = 0 := by
      rw [flags_of_read hread, hreg.flags]
    rw [List.length_cons, rxAggLoop, length_of_read hread hreg.lt, subsLength_cons]
    split
    · -- at most a header is left: the sub-frame is empty and the last one
      have hnil : xs = [] := by
        cases xs with
        | nil => rfl
        | cons y ys =>
          have := (hxs y List.mem_cons_self).hdrSize_le
          rw [subsLength_cons] at *
          unfold hdrSize at *
          omega
      subst hnil
      rw [packetsAt, packetsAt, packetAt, if_pos (by simp_all)]
      rfl
    · rw [if_pos ⟨hmagic, htype, by omega⟩, rxSingle_of_flags hflags, Option.bind_some, Nat.add_sub_cancel_left,
        ih hxs hl.2 (by omega)]
      rfl

end HgicFmac.Core
