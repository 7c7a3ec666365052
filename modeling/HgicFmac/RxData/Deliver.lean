import HgicFmac.Core.Rx
import HgicFmac.RxData.Step

/-!
# What an aggregate of the device delivers

On a little-endian host the loop changes no byte of the buffer, so the sub-frames can be read off it one after the
other.

* `SubFrm` : a sub-frame as the device builds it, with `flags` bytes of padding at its end; `SubFrm.packet` : what is to
  be delivered of it;
* `EndsAt` : behind the sub-frames at most a header is left, or what is left does not start with a sub-header;
* `ends_subFrms` : the loop over sub-frames, by induction on their list; `rxAggFrm_delivers` : the whole function;
* `rxAggLoop_ends` : the loop delivers what the function on bytes of `Core.Rx` computes.
-/

namespace HgicFmac.RxData
open Lib HgicFmac.Core

/-- A sub-frame: the fields of its header that vary, and the payload with its padding. -/
structure SubFrm where
  ifidx : Nat
  flags : Nat
  cookie : Nat
  body : List UInt8
  flags_lt : flags < 16
  cookie_lt : cookie < 65536
  body_pos : 0 < body.length
  flags_le : flags ≤ body.length
  length_lt : hdrSize + body.length < 65536

def SubFrm.length (x : SubFrm) : Nat := hdrSize + x.body.length

def SubFrm.hdr (x : SubFrm) : Hdr where
  magic := hgicHdrRxMagic
  type := HdrType.frm2.byte
  ifidx := x.ifidx
  flags := x.flags
  length := x.length
  cookie := x.cookie

def SubFrm.bytes (x : SubFrm) : List UInt8 := x.hdr.bytes .little ++ x.body

/-- The bytes from 8 to `length - flags`. -/
def SubFrm.packet (x : SubFrm) : List UInt8 := (x.bytes.take (x.length - x.flags)).drop hdrSize

def lengthSum (xs : List SubFrm) : Nat := (xs.map SubFrm.length).sum

/-- Nothing in `tail` can be taken for a sub-frame. -/
def EndsAt (tail : List UInt8) : Prop := tail.length ≤ hdrSize ∨ ¬ SubHdr (Mem.ofList tail) 0 tail.length

instance (tail : List UInt8) : Decidable (EndsAt tail) := inferInstanceAs (Decidable (_ ∨ _))

theorem lengthSum_cons (x : SubFrm) (xs : List SubFrm) : lengthSum (x :: xs) = x.length + lengthSum xs := by
  simp only [lengthSum, List.map_cons, List.sum_cons]

theorem SubFrm.length_bytes (x : SubFrm) : x.bytes.length = x.length := by
  rw [SubFrm.bytes, List.length_append, Core.length_bytes, SubFrm.length, hdrSize]

theorem SubFrm.packet_eq (x : SubFrm) : x.packet = x.body.take (x.body.length - x.flags) := by
  have hle := x.flags_le
  have hlen : (x.hdr.bytes .little).length = hdrSize := Core.length_bytes .little x.hdr
  rw [SubFrm.packet, SubFrm.length, SubFrm.bytes, Nat.add_sub_assoc hle, ← hlen, List.take_length_add_append,
    List.drop_left]

/-! ## Reading a sub-frame off the buffer -/

theorem cookie_of_read {m : Mem} {off : Nat} {x : Hdr} (hm : m.read off hdrSize = x.bytes .little)
    (hlt : x.cookie < 65536) : loadLe16 m (off + 6) = x.cookie := by
  have h6 := getD_hdr hm (show 6 < hdrSize by decide)
  have h7 := getD_hdr hm (show 7 < hdrSize by decide)
  rw [loadLe16, h6, show off + 6 + 1 = off + 7 by omega, h7]
  simp only [Hdr.bytes, bytes16, List.flatten_cons, List.cons_append, List.nil_append, List.getD_cons_zero,
    List.getD_cons_succ, UInt8.toNat_ofNat']
  omega

section Frame
variable {m : Mem} {off : Nat} {x : SubFrm} (hm : m.read off x.length = x.bytes)
include hm

theorem read_subFrm : m.read off hdrSize = x.hdr.bytes .little ∧ m.read (off + hdrSize) x.body.length = x.body := by
  rw [SubFrm.length, read_add] at hm
  apply List.append_inj hm
  rw [length_read, Core.length_bytes, hdrSize]

theorem lengthField_subFrm : loadLe16 m (off + 4) = x.length := length_of_read (read_subFrm hm).1 x.length_lt

theorem cookie_subFrm : loadLe16 m (off + 6) = x.cookie := cookie_of_read (read_subFrm hm).1 x.cookie_lt

theorem flags_subFrm : hdrFlags .little m off = x.flags := by
  have hflags : hdrFlags .little m off = x.flags % 16 := flags_of_read (read_subFrm hm).1
  rw [hflags, Nat.mod_eq_of_lt x.flags_lt]

theorem subHdr_subFrm {len : Int} (hlen : (x.length : Int) ≤ len) : SubHdr m off len := by
  obtain ⟨hread, -⟩ := read_subFrm hm
  refine ⟨magic_of_read hread (by decide : hgicHdrRxMagic < 65536), type_of_read hread (by decide :
    HdrType.frm2.byte < 256), ?_⟩
  rw [lengthField_subFrm hm]
  exact hlen

theorem n_subFrm : Call.n .little ⟨m, off, x.length⟩ = (x.body.length - x.flags : Nat) := by
  have hle := x.flags_le
  rw [Call.n, flags_subFrm hm]
  simp only [SubFrm.length]
  omega

theorem read_packet : m.read (off + hdrSize) (x.body.length - x.flags) = x.packet := by
  obtain ⟨-, hbody⟩ := read_subFrm hm
  have hle := x.flags_le
  have hsplit := read_add m (off + hdrSize) (x.body.length - x.flags) x.flags
  rw [Nat.sub_add_cancel hle, hbody] at hsplit
  rw [x.packet_eq]
  nth_rewrite 3 [hsplit]
  rw [List.take_left' (length_read m _ _)]

end Frame

theorem subHdr_congr (m m' : Mem) (off off' : Nat) (len : Int) (h : ∀ k < 6, m (off + k) = m' (off' + k)) :
    SubHdr m off len ↔ SubHdr m' off' len := by
  have h0 : loadLe16 m off = loadLe16 m' off' := by
    rw [loadLe16, h 1 (by decide), show m off = m' off' from h 0 (by decide), loadLe16]
  have h4 : loadLe16 m (off + 4) = loadLe16 m' (off' + 4) := by
    rw [loadLe16, h 4 (by decide), Nat.add_assoc off 4 1, h 5 (by decide), loadLe16, Nat.add_assoc off' 4 1]
  rw [SubHdr, SubHdr, h0, h4, hdrType, hdrType, h 2 (by decide)]

/-! ## The loop over the sub-frames -/

theorem ends_tail (h : Host) (env : Env) {tail : List UInt8} (htail : EndsAt tail) {s : Walk h.word}
    (hm : s.mem.read s.data tail.length = tail) (hlen : s.len = tail.length) :
    ∃ t, aggPass h env s = .leave t ∧ t.dev = s.dev := by
  by_cases hl : aboveHdr s.len
  · have h8 : hdrSize < tail.length := by
      unfold aboveHdr at hl
      omega
    have hno := htail.resolve_left (by omega)
    have hs : ¬ SubHdr s.mem s.data s.len := by
      rw [hlen, subHdr_congr s.mem (Mem.ofList tail) s.data 0]
      · exact hno
      · intro k hk
        have hk8 : k < tail.length := by
          unfold hdrSize at h8
          omega
        rw [← getD_read s.mem s.data hk8, hm, Nat.zero_add, Mem.ofList]
    exact ⟨lastWalk h s, aggPass_of_not_subHdr h env hl hs, rfl⟩
  · exact ⟨s, aggPass_of_short h env hl, rfl⟩

section Loop
variable (h : Host) (env : Env) (he : h.endian = .little) (hv : env.vif.isSome) (halloc : ∀ k, env.alloc k = true)
include he hv halloc

theorem single_subFrm {m : Mem} {off : Nat} {x : SubFrm} (hm : m.read off x.length = x.bytes) (d : Dev h.word) :
    let d' := hgicfRxSingleFrm h env m off x.length d
    d'.packets = d.packets ++ [x.packet] ∧ d'.rxBytes = d.rxBytes + BitVec.ofNat h.word x.length ∧
      d'.rxCookie = x.cookie := by
  have habove : aboveHdr (x.length : Int) := by
    have := x.body_pos
    right
    rw [SubFrm.length]
    omega
  simp only [hgicfRxSingleFrm, if_pos (And.intro hv habove), halloc, if_true, he]
  refine ⟨?_, ?_, cookie_subFrm hm⟩
  · rw [n_subFrm hm, Int.toNat_natCast, read_packet hm]
  · rw [BitVec.ofInt_natCast]

theorem ends_subFrms {xs : List SubFrm} {tail : List UInt8} (htail : EndsAt tail) {s : Walk h.word}
    (hm : s.mem.read s.data (lengthSum xs + tail.length) = xs.flatMap SubFrm.bytes ++ tail)
    (hlen : s.len = (lengthSum xs + tail.length : Nat)) :
    ∃ t, Ends (aggPass h env) s t ∧ t.dev.packets = s.dev.packets ++ xs.map SubFrm.packet ∧
      t.dev.rxBytes = s.dev.rxBytes + BitVec.ofNat h.word (lengthSum xs) ∧
      t.dev.rxCookie = (xs.map SubFrm.cookie).getLastD s.dev.rxCookie := by
  induction xs generalizing s with
  | nil =>
    simp only [lengthSum, List.map_nil, List.sum_nil, Nat.zero_add, List.flatMap_nil, List.nil_append] at hm hlen
    obtain ⟨t, ht, hdev⟩ := ends_tail h env htail hm hlen
    refine ⟨t, .leave ht, ?_⟩
    rw [hdev]
    simp [lengthSum]
  | cons x xs ih =>
    rw [lengthSum_cons, Nat.add_assoc] at hm hlen
    rw [read_add, List.flatMap_cons, List.append_assoc] at hm
    obtain ⟨hx, hxs⟩ := List.append_inj hm (by rw [length_read, x.length_bytes])
    have hfield := lengthField_subFrm hx
    have hl : aboveHdr s.len := by
      have := x.body_pos
      right
      rw [hlen, SubFrm.length]
      omega
    have hpass := aggPass_of_subHdr h env hl (subHdr_subFrm hx (by omega : (x.length : Int) ≤ s.len))
    have hmem : (nextWalk h env s).mem = s.mem := by
      simp only [nextWalk]
      rw [he, hdrToCpu_little]
    obtain ⟨hp, hb, hc⟩ := single_subFrm h env he hv halloc hx s.dev
    have hdev : (nextWalk h env s).dev = hgicfRxSingleFrm h env s.mem s.data x.length s.dev := by
      simp only [nextWalk, hfield]
      rw [he, hdrToCpu_little]
    obtain ⟨t, hends, htp, htb, htc⟩ := ih (s := nextWalk h env s) (by
      rw [hmem]
      simp only [nextWalk, hfield]
      exact hxs) (by
      simp only [nextWalk, hfield]
      omega)
    refine ⟨t, hends.again hpass, ?_, ?_, ?_⟩
    · rw [htp, hdev, hp, List.map_cons, List.append_assoc, List.singleton_append]
    · rw [htb, hdev, hb, lengthSum_cons, BitVec.add_assoc, ← BitVec.ofNat_add]
    · rw [htc, hdev, hc, List.map_cons, List.getLastD_cons]

/-- **An aggregate of the device**: an outer header, sub-frames, and a tail that is no sub-frame. The function returns,
with one packet for each sub-frame, in their order. -/
theorem rxAggFrm_delivers (m : Mem) (data : Nat) (d : Dev h.word) (outer : Hdr) (hcookie : outer.cookie < 65536)
    (xs : List SubFrm) (tail : List UInt8) (htail : EndsAt tail)
    (hm : m.read data (hdrSize + (lengthSum xs + tail.length)) =
      outer.bytes .little ++ (xs.flatMap SubFrm.bytes ++ tail)) :
    ∃ t, Ends (aggPass h env) (hgicfRxAggFrm h m data (hdrSize + (lengthSum xs + tail.length) : Nat) d) t ∧
      t.dev.packets = d.packets ++ xs.map SubFrm.packet ∧
      t.dev.rxBytes = d.rxBytes + BitVec.ofNat h.word (lengthSum xs) ∧
      t.dev.rxCookie = (xs.map SubFrm.cookie).getLastD outer.cookie := by
  rw [read_add] at hm
  obtain ⟨houter, hsubs⟩ := List.append_inj hm (by rw [length_read, Core.length_bytes, hdrSize])
  obtain ⟨t, hends, hp, hb, hc⟩ := ends_subFrms h env he hv halloc htail
    (s := hgicfRxAggFrm h m data (hdrSize + (lengthSum xs + tail.length) : Nat) d) hsubs (by
      simp only [hgicfRxAggFrm]
      omega)
  refine ⟨t, hends, hp, hb, ?_⟩
  rw [hc]
  simp only [hgicfRxAggFrm]
  rw [he, show load16 .little m (data + 6) = outer.cookie from cookie_of_read houter hcookie]

end Loop

/-- Two sub-frames, the second one with two bytes of padding. -/
def twoSubFrms : List SubFrm :=
  [⟨1, 0, 4, [0x55], by decide, by decide, by decide, by decide, by decide⟩,
    ⟨1, 2, 5, [0x66, 0x67, 0, 0], by decide, by decide, by decide, by decide, by decide⟩]

def outerHdr : Hdr := ⟨hgicHdrRxMagic, HdrType.aggfrm.byte, 0, 0, 32, 3⟩

def twoFrames : Mem := Mem.ofList (outerHdr.bytes .little ++ (twoSubFrms.flatMap SubFrm.bytes ++ [1, 2, 3]))

theorem twoFrames_delivers : ∃ t, Ends (aggPass host64 calmEnv) (hgicfRxAggFrm host64 twoFrames 0 32 (freshDev 64)) t ∧
    t.dev.packets = [[0x55], [0x66, 0x67]] ∧ t.dev.rxBytes = 21#64 ∧ t.dev.rxCookie = 5 :=
  rxAggFrm_delivers host64 calmEnv rfl rfl (fun _ => rfl) twoFrames 0 (freshDev 64) outerHdr (by decide) twoSubFrms
    [1, 2, 3] (by decide) (by decide)

/-! ## The function on bytes -/

section Refine
variable (h : Host) (env : Env) (he : h.endian = .little) (hv : env.vif.isSome) (halloc : ∀ k, env.alloc k = true)
include he hv halloc

theorem single_packets {m : Mem} {off len : Nat} {out : List (List UInt8)}
    (hout : Core.hgicfRxSingleFrm m off len = some out) (d : Dev h.word) :
    (hgicfRxSingleFrm h env m off len d).packets = d.packets ++ out := by
  unfold Core.hgicfRxSingleFrm at hout
  split at hout
  · next hshort =>
    obtain rfl := Option.some.inj hout
    have hl : ¬ aboveHdr (len : Int) := by
      unfold aboveHdr
      omega
    unfold hgicfRxSingleFrm
    rw [if_neg (fun hpast => hl hpast.2), List.append_nil]
  · split at hout
    · cases hout
    · next hlong hpad =>
      obtain rfl := Option.some.inj hout
      have hl : aboveHdr (len : Int) := by
        right
        omega
      have hn : (Call.n .little ⟨m, off, len⟩).toNat = len - (hdrSize + flagsAt m off) := by
        have hflags : hdrFlags .little m off = flagsAt m off := rfl
        rw [Call.n, hflags]
        simp only
        omega
      simp only [hgicfRxSingleFrm, if_pos (And.intro hv hl), halloc, if_true, he]
      rw [hn]

theorem rxAggLoop_ends {m : Mem} {fuel off len : Nat} {out : List (List UInt8)}
    (hout : rxAggLoop hgicHdrRxMagic m fuel off len = some out) {s : Walk h.word} (hm : s.mem = m) (hoff : s.data = off)
    (hlen : s.len = len) : ∃ t, Ends (aggPass h env) s t ∧ t.dev.packets = s.dev.packets ++ out := by
  induction fuel generalizing off len out s with
  | zero => cases hout
  | succ fuel ih =>
    subst hm hoff
    rw [rxAggLoop] at hout
    split at hout
    · next hshort =>
      obtain rfl := Option.some.inj hout
      have hl : ¬ aboveHdr s.len := by
        unfold aboveHdr
        omega
      exact ⟨s, .leave (aggPass_of_short h env hl), by simp⟩
    · next hlong =>
      have hl : aboveHdr s.len := by
        right
        omega
      split at hout
      · next htest =>
        have hsub : SubHdr s.mem s.data s.len := ⟨htest.1, htest.2.1, by rw [hlen]; exact_mod_cast htest.2.2⟩
        obtain ⟨one, hone, hout⟩ := Option.bind_eq_some_iff.mp hout
        obtain ⟨more, hmore, rfl⟩ := Option.map_eq_some_iff.mp hout
        have hdev : (nextWalk h env s).dev.packets = s.dev.packets ++ one := by
          simp only [nextWalk]
          rw [he, hdrToCpu_little]
          exact single_packets h env he hv halloc hone s.dev
        obtain ⟨t, hends, ht⟩ := ih hmore (s := nextWalk h env s) (by
          simp only [nextWalk]
          rw [he, hdrToCpu_little]) rfl (by
          simp only [nextWalk]
          omega)
        refine ⟨t, hends.again (aggPass_of_subHdr h env hl hsub), ?_⟩
        rw [ht, hdev, List.append_assoc]
      · next htest =>
        obtain rfl := Option.some.inj hout
        have hsub : ¬ SubHdr s.mem s.data s.len := by
          rintro ⟨h1, h2, h3⟩
          exact htest ⟨h1, h2, by omega⟩
        exact ⟨_, .leave (aggPass_of_not_subHdr h env hl hsub), by simp [lastWalk]⟩

end Refine

end HgicFmac.RxData
