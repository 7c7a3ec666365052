import HgicFmac.RxData.Step

/-!
# When the de-aggregation loop ends

A pass moves on by the length field of a sub-header, and a sub-header of length zero passes the test. On a little-endian
host the next pass then finds the same header. A big-endian host has swapped its magic number, and leaves the loop.

* `Strided` : the sub-headers that the length fields lead to, on the bytes as they were received;
* `NoStall` : none of them has the length zero;
* `rxAggFrm_halts_iff` : the loop ends exactly on big-endian hosts and for buffers without a stall.
-/

namespace HgicFmac.RxData
open Lib HgicFmac.Core

/-- From `len` bytes at `off`, the length fields of sub-headers that pass the test lead to `len'` bytes at `off'`. -/
inductive Strided (m : Mem) : Nat → Int → Nat → Int → Prop
  | here {off : Nat} {len : Int} : Strided m off len off len
  | next {off off' : Nat} {len len' : Int} : (hdrSize : Int) < len → SubHdr m off len →
      Strided m (off + loadLe16 m (off + 4)) (len - loadLe16 m (off + 4)) off' len' → Strided m off len off' len'

def NoStall (m : Mem) (off : Nat) (len : Int) : Prop :=
  ∀ off' len', Strided m off len off' len' → (hdrSize : Int) < len' → SubHdr m off' len' → loadLe16 m (off' + 4) ≠ 0

theorem NoStall.next {m : Mem} {off : Nat} {len : Int} (h : NoStall m off len) (hl : (hdrSize : Int) < len)
    (hs : SubHdr m off len) : NoStall m (off + loadLe16 m (off + 4)) (len - loadLe16 m (off + 4)) := by
  intro off' len' hst
  exact h off' len' (.next hl hs hst)

section Little
variable (h : Host) (env : Env) (he : h.endian = .little)
include he

theorem nextWalk_mem (s : Walk h.word) : (nextWalk h env s).mem = s.mem := by
  simp only [nextWalk]
  rw [he, hdrToCpu_little]

/-- A sub-header of length zero: the loop is back where it was. -/
theorem not_halts_of_zero {s : Walk h.word} (hl : (hdrSize : Int) < s.len) (hs : SubHdr s.mem s.data s.len)
    (h0 : loadLe16 s.mem (s.data + 4) = 0) : ¬ Halts (aggPass h env) s := by
  apply not_halts_of_invariant
    (fun t : Walk h.word => (hdrSize : Int) < t.len ∧ SubHdr t.mem t.data t.len ∧ loadLe16 t.mem (t.data + 4) = 0)
  · intro t ⟨hl, hs, h0⟩
    refine ⟨nextWalk h env t, aggPass_of_subHdr h env (.inr hl) hs, ?_⟩
    rw [nextWalk_mem h env he]
    simp only [nextWalk, h0, Nat.add_zero, Int.natCast_zero, Int.sub_zero]
    exact ⟨hl, hs, trivial⟩
  · exact ⟨hl, hs, h0⟩

/-- A loop that ends comes to every sub-header that the length fields lead to. -/
theorem halts_strided {m : Mem} {a off : Nat} {b len : Int} (hst : Strided m a b off len) {s : Walk h.word}
    (hm : s.mem = m) (ha : s.data = a) (hb : s.len = b) (hh : Halts (aggPass h env) s) :
    ∃ t : Walk h.word, t.mem = m ∧ t.data = off ∧ t.len = len ∧ Halts (aggPass h env) t := by
  induction hst generalizing s with
  | here => exact ⟨s, hm, ha, hb, hh⟩
  | next hl hsub _ ih =>
    subst hm ha hb
    have hpass := aggPass_of_subHdr h env (.inr hl) hsub
    exact ih (nextWalk_mem h env he s) rfl rfl (hh.next hpass)

theorem noStall_of_halts {s : Walk h.word} (hh : Halts (aggPass h env) s) : NoStall s.mem s.data s.len := by
  intro off len hst hl hs h0
  obtain ⟨t, hm, rfl, rfl, ht⟩ := halts_strided h env he hst rfl rfl rfl hh
  rw [← hm] at hs h0
  exact not_halts_of_zero h env he hl hs h0 ht

theorem halts_of_noStall {s : Walk h.word} (hs : NoStall s.mem s.data s.len) : Halts (aggPass h env) s := by
  apply halts_of_measure (fun t : Walk h.word => NoStall t.mem t.data t.len) (fun t => t.len.toNat)
  · intro t u hinv hu
    obtain ⟨hl, hsub, rfl⟩ := aggPass_again h env hu
    have hpos := hinv t.data t.len .here hl hsub
    have hle := hsub.2.2
    constructor
    · rw [nextWalk_mem h env he]
      exact hinv.next hl hsub
    · simp only [nextWalk]
      unfold hdrSize at hl
      omega
  · exact hs

end Little

/-- On a big-endian host the magic number is swapped back by a second visit, and the loop is left. -/
theorem aggPass_zero_big (h : Host) (env : Env) (he : h.endian = .big) {s : Walk h.word}
    (hl : (hdrSize : Int) < s.len) (hs : SubHdr s.mem s.data s.len) (h0 : loadLe16 s.mem (s.data + 4) = 0) :
    aggPass h env (nextWalk h env s) = .leave (lastWalk h (nextWalk h env s)) := by
  have hdata : (nextWalk h env s).data = s.data := by
    simp only [nextWalk, h0, Nat.add_zero]
  have hlen : (nextWalk h env s).len = s.len := by
    simp only [nextWalk, h0, Int.natCast_zero, Int.sub_zero]
  apply aggPass_of_not_subHdr h env
  · rw [hlen]
    exact .inr hl
  · rw [hdata]
    rintro ⟨hmagic, -⟩
    have hbig : load16 .big (hdrToCpu .big s.mem s.data) s.data = hgicHdrRxMagic := by
      rw [magic_hdrToCpu, hs.1]
    simp only [nextWalk, he] at hmagic
    have hlo := (hdrToCpu .big s.mem s.data s.data).toNat_lt
    have hhi := (hdrToCpu .big s.mem s.data (s.data + 1)).toNat_lt
    simp only [load16, loadLe16, hgicHdrRxMagic] at hbig hmagic
    omega

theorem halts_of_big (h : Host) (env : Env) (he : h.endian = .big) (s : Walk h.word) : Halts (aggPass h env) s := by
  -- a length above zero leaves fewer bytes; one of zero leaves the loop with the next pass
  induction hn : s.len.toNat using Nat.strongRecOn generalizing s with
  | ind n ih =>
    cases hb : aggPass h env s with
    | leave t => exact halts_of_leave hb
    | again t =>
      obtain ⟨hl, hs, rfl⟩ := aggPass_again h env hb
      apply halts_of_again hb
      by_cases h0 : loadLe16 s.mem (s.data + 4) = 0
      · exact halts_of_leave (aggPass_zero_big h env he hl hs h0)
      · have hle := hs.2.2
        apply ih (nextWalk h env s).len.toNat _ _ rfl
        simp only [nextWalk]
        unfold hdrSize at hl
        omega

/-- **When the loop ends**: exactly on a big-endian host, or when no sub-header that the length fields lead to has the
length zero. -/
theorem rxAggFrm_halts_iff (h : Host) (env : Env) (m : Mem) (len : Int) (d : Dev h.word) (s : Walk h.word)
    (hs : hgicfRxData h env m len d = .aggregate s) :
    Halts (aggPass h env) s ↔ h.endian = .big ∨
      NoStall m (hgicSkipPadding m + hdrSize) (loadLe16 m (hgicSkipPadding m + 4) - hdrSize) := by
  obtain rfl := rxData_aggregate h hs
  cases he : h.endian with
  | big => exact iff_of_true (halts_of_big h env he _) (.inl rfl)
  | little =>
    rw [hdrToCpu_little]
    constructor
    · intro hh
      exact .inr (noStall_of_halts h env he hh)
    · rintro (hbig | hno)
      · cases hbig
      · exact halts_of_noStall h env he hno

def oneFrame : Mem := Mem.ofList [0x1A, 0x2B, 18, 0, 17, 0, 0, 0, 0x1A, 0x2B, 9, 0, 9, 0, 1, 0, 0x55]

theorem oneFrame_halts : ∃ s, hgicfRxData host64 calmEnv oneFrame 17 (freshDev 64) = .aggregate s ∧
    Halts (aggPass host64 calmEnv) s := by
  have hs : hgicfRxData host64 calmEnv oneFrame 17 (freshDev 64) = .aggregate _ := rfl
  refine ⟨_, hs, (rxAggFrm_halts_iff host64 calmEnv oneFrame 17 (freshDev 64) _ hs).mpr (.inr ?_)⟩
  intro off len hst hl hsub
  cases hst with
  | here => decide
  | next h1 h2 hst =>
    cases hst with
    | here => exact absurd hl (by decide)
    | next h1 => exact absurd h1 (by decide)

/-- An aggregate whose sub-header has the length zero. -/
def zeroLength : Mem := Mem.ofList [0x1A, 0x2B, 18, 0, 17, 0, 0, 0, 0x1A, 0x2B, 9, 0, 0, 0, 0, 0, 0]

theorem zeroLength_not_halts : ∃ s, hgicfRxData host64 calmEnv zeroLength 17 (freshDev 64) = .aggregate s ∧
    ¬ Halts (aggPass host64 calmEnv) s :=
  ⟨_, rfl, not_halts_of_zero host64 calmEnv rfl (by decide) (by decide) (by decide)⟩

end HgicFmac.RxData
