import HgicFmac.RxData.Step

/-!
# What the receive path reads, and the sizes it computes

The remaining length of the loop is an `int`, compared with an unsigned `sizeof`: below zero it passes for huge. So a
declared length shorter than the outer header lets the loop read a sub-header behind the aggregate. The payload length
of a frame is an `int` too, from which a padding count of the device is taken.

* `Inside` : a range lies in the declared length; `rxAggFrm_inside_iff` : all that the loop touches does, exactly for
  declared lengths from 8 on;
* `Call.Sound` : the payload length is between 0 and `length - 8`, and is what is allocated, copied and put;
* `Made` : the calls of `hgicf_rx_single_frm` for a buffer; `made_sound_iff` : which of them are sound.
-/

namespace HgicFmac.RxData
open Lib HgicFmac.Core

/-! ## The declared length -/

def Inside (base declared : Nat) (r : Nat × Nat) : Prop := base ≤ r.1 ∧ r.1 + r.2 ≤ base + declared

instance (base declared : Nat) (r : Nat × Nat) : Decidable (Inside base declared r) :=
  inferInstanceAs (Decidable (_ ∧ _))

/-- The loop stands in the aggregate, with exactly what is left of it, and has touched nothing else. -/
structure Within {w : Nat} (base declared : Nat) (s : Walk w) : Prop where
  le_data : base ≤ s.data
  len_nonneg : 0 ≤ s.len
  left : (s.data : Int) + s.len = base + declared
  touched : ∀ r ∈ s.touched, Inside base declared r

theorem aggPass_within (h : Host) (env : Env) {base declared : Nat} (s : Walk h.word) (hw : Within base declared s) :
    Within base declared (aggPass h env s).state := by
  obtain ⟨hdata, hlen, hleft, htouched⟩ := hw
  by_cases hl : aboveHdr s.len
  · have h8 : (hdrSize : Int) < s.len := by
      unfold aboveHdr at hl
      omega
    have hhdr : Inside base declared (s.data, hdrSize) := by
      constructor
      · exact hdata
      · show s.data + hdrSize ≤ base + declared
        omega
    by_cases hs : SubHdr s.mem s.data s.len
    · have hle := hs.2.2
      rw [aggPass_of_subHdr h env hl hs]
      constructor
      · simp only [Pass.state, nextWalk]
        omega
      · simp only [Pass.state, nextWalk]
        omega
      · simp only [Pass.state, nextWalk]
        omega
      · intro r hr
        simp only [Pass.state, nextWalk, List.mem_append, List.mem_cons, List.not_mem_nil, or_false] at hr
        obtain hr | rfl | rfl := hr
        · exact htouched r hr
        · exact hhdr
        · constructor
          · exact hdata
          · show s.data + loadLe16 s.mem (s.data + 4) ≤ base + declared
            omega
    · rw [aggPass_of_not_subHdr h env hl hs]
      refine ⟨hdata, hlen, hleft, ?_⟩
      intro r hr
      simp only [Pass.state, lastWalk, List.mem_append, List.mem_singleton] at hr
      obtain hr | rfl := hr
      · exact htouched r hr
      · exact hhdr
  · rw [aggPass_of_short h env hl]
    exact ⟨hdata, hlen, hleft, htouched⟩

/-- The first pass always reads the header behind the outer one when the declared length is below 8. -/
theorem touched_first (h : Host) (env : Env) {s : Walk h.word} (hl : s.len < 0) (ht : s.touched = []) :
    (passes (aggPass h env) 1 s).state.touched = [(s.data, hdrSize)] := by
  have hs : ¬ SubHdr s.mem s.data s.len := by
    intro hs
    have := hs.nonneg
    omega
  rw [passes_leave (aggPass_of_not_subHdr h env (.inl hl) hs)]
  simp only [Pass.state, lastWalk, ht, List.nil_append]

/-- **The declared length**: every sub-header that the loop reads or converts and every frame that it passes on lies in
the declared length of the aggregate, after any number of passes, exactly when this length has room for the outer
header. -/
theorem rxAggFrm_inside_iff (h : Host) (env : Env) (m : Mem) (len : Int) (d : Dev h.word) (s : Walk h.word)
    (hs : hgicfRxData h env m len d = .aggregate s) :
    (∀ n, ∀ r ∈ (passes (aggPass h env) n s).state.touched,
      Inside (hgicSkipPadding m) (loadLe16 m (hgicSkipPadding m + 4)) r) ↔
    hdrSize ≤ loadLe16 m (hgicSkipPadding m + 4) := by
  obtain rfl := rxData_aggregate h hs
  constructor
  · intro hall
    by_contra hlt
    have h1 := hall 1 (hgicSkipPadding m + hdrSize, hdrSize)
    rw [touched_first h env (by simp only [hgicfRxAggFrm]; omega) rfl] at h1
    have := (h1 List.mem_cons_self).2
    simp only at this
    omega
  · intro hle n
    apply (passes_invariant (aggPass_within h env) _ n).touched
    constructor
    · simp only [hgicfRxAggFrm]
      omega
    · simp only [hgicfRxAggFrm]
      omega
    · simp only [hgicfRxAggFrm]
      omega
    · intro r hr
      cases hr

/-- An aggregate with one sub-frame behind two bytes of padding. -/
def padded : Mem :=
  Mem.ofList [0xFF, 0xFF, 0x1A, 0x2B, 18, 0, 17, 0, 0, 0, 0x1A, 0x2B, 9, 0, 9, 0, 1, 0, 0x55]

theorem padded_inside : ∃ s, hgicfRxData host64 calmEnv padded 19 (freshDev 64) = .aggregate s ∧
    ∀ n, ∀ r ∈ (passes (aggPass host64 calmEnv) n s).state.touched, Inside 2 17 r := by
  have hs : hgicfRxData host64 calmEnv padded 19 (freshDev 64) = .aggregate _ := rfl
  exact ⟨_, hs, (rxAggFrm_inside_iff host64 calmEnv padded 19 (freshDev 64) _ hs).mpr (by decide)⟩

/-- An aggregate that declares the length 4. -/
def shortAggregate : Mem := Mem.ofList [0x1A, 0x2B, 18, 0, 4, 0, 0, 0]

theorem shortAggregate_outside : ∃ s, hgicfRxData host64 calmEnv shortAggregate 8 (freshDev 64) = .aggregate s ∧
    ∃ n, ∃ r ∈ (passes (aggPass host64 calmEnv) n s).state.touched, ¬ Inside 0 4 r :=
  ⟨_, rfl, 1, (8, 8), by decide, by decide⟩

/-! ## The payload length -/

/-- The payload length is between 0 and `length - 8`, and the sizes of the allocation, of the copy and of `skb_put` are
this number (with the room for the interface in the first). -/
structure Call.Sound (h : Host) (nd : Netdev) (c : Call) : Prop where
  nonneg : 0 ≤ c.n h.endian
  le : c.n h.endian ≤ c.len - hdrSize
  alloc : ((c.allocSize h.endian nd).toNat : Int) = c.n h.endian + nd.neededHeadroom + nd.neededTailroom
  copy : ((c.copySize h).toNat : Int) = c.n h.endian
  put : ((c.putSize h.endian).toNat : Int) = c.n h.endian

/-- The call is for the frame at `data`: `len` is the length field of its header, above 8. -/
structure Call.OfFrame (e : Endian) (c : Call) : Prop where
  type : hdrType c.mem c.data = HdrType.frm2.byte
  length : c.len = load16 e c.mem (c.data + 4)
  above : (hdrSize : Int) < c.len

theorem toNat_ofInt_eq {w : Nat} {n : Int} (h0 : 0 ≤ n) (hlt : n < 2 ^ w) : ((BitVec.ofInt w n).toNat : Int) = n := by
  rw [BitVec.toNat_ofInt, Int.emod_eq_of_lt h0 (by simpa using hlt)]
  omega

theorem toNat_ofInt_natCast {w n : Nat} (hw : 32 ≤ w) (hn : n < 2 ^ 32) : (BitVec.ofInt w n).toNat = n := by
  have hword : 2 ^ 32 ≤ 2 ^ w := Nat.pow_le_pow_right (by decide) hw
  rw [BitVec.ofInt_natCast, BitVec.toNat_ofNat, Nat.mod_eq_of_lt (by omega)]

theorem Call.OfFrame.sound_iff {h : Host} {c : Call} (hc : c.OfFrame h.endian) (nd : Netdev) :
    c.Sound h nd ↔ (hdrFlags h.endian c.mem c.data : Int) ≤ load16 h.endian c.mem (c.data + 4) - hdrSize := by
  have hlen := load16_lt h.endian c.mem (c.data + 4)
  have hn : c.n h.endian = load16 h.endian c.mem (c.data + 4) - hdrSize - hdrFlags h.endian c.mem c.data := by
    rw [Call.n, hc.length]
    omega
  have hword : (2 : Int) ^ 32 ≤ 2 ^ h.word := by
    exact_mod_cast Nat.pow_le_pow_right (by decide : 0 < 2) h.word_ge
  constructor
  · intro hs
    have := hs.nonneg
    omega
  · intro hle
    have hhead := nd.headroom_lt
    have htail := nd.tailroom_lt
    constructor
    · omega
    · rw [hn, hc.length]
      omega
    · exact toNat_ofInt_eq (by omega) (by omega)
    · exact toNat_ofInt_eq (by omega) (by omega)
    · exact toNat_ofInt_eq (by omega) (by omega)

/-- `hgicf_rx_data` calls `hgicf_rx_single_frm` with `c`, for the frame alone or in a pass over the aggregate. -/
def Made (h : Host) (env : Env) (m : Mem) (len : Int) (d : Dev h.word) (c : Call) : Prop :=
  match hgicfRxData h env m len d with
  | .frame d' => c ∈ d'.calls
  | .aggregate s => ∃ n, c ∈ (passes (aggPass h env) n s).state.dev.calls
  | _ => False

theorem mem_calls_single (h : Host) {env : Env} {m : Mem} {data : Nat} {len : Int} {d : Dev h.word} {c : Call}
    (hc : c ∈ (hgicfRxSingleFrm h env m data len d).calls) : c ∈ d.calls ∨ c = ⟨m, data, len⟩ ∧ aboveHdr len := by
  unfold hgicfRxSingleFrm at hc
  split at hc
  · next hpast =>
    have hmem : c ∈ d.calls ++ [⟨m, data, len⟩] := by
      simp only at hc
      split at hc
      · exact hc
      · exact hc
    rw [List.mem_append, List.mem_singleton] at hmem
    obtain hmem | rfl := hmem
    · exact .inl hmem
    · exact .inr ⟨rfl, hpast.2⟩
  · exact .inl hc

theorem aggPass_calls (h : Host) (env : Env) (s : Walk h.word) (hs : ∀ c ∈ s.dev.calls, c.OfFrame h.endian) :
    ∀ c ∈ (aggPass h env s).state.dev.calls, c.OfFrame h.endian := by
  intro c hc
  by_cases hl : aboveHdr s.len
  · by_cases hsub : SubHdr s.mem s.data s.len
    · rw [aggPass_of_subHdr h env hl hsub] at hc
      obtain hc | ⟨rfl, habove⟩ := mem_calls_single h hc
      · exact hs c hc
      · constructor
        · rw [type_hdrToCpu, hsub.2.1]
        · rw [length_hdrToCpu]
        · unfold aboveHdr at habove
          show (hdrSize : Int) < (loadLe16 s.mem (s.data + 4) : Int)
          omega
    · rw [aggPass_of_not_subHdr h env hl hsub] at hc
      exact hs c hc
  · rw [aggPass_of_short h env hl] at hc
    exact hs c hc

theorem Made.ofFrame {h : Host} {env : Env} {m : Mem} {len : Int} {d : Dev h.word} (hd : d.calls = []) {c : Call}
    (hc : Made h env m len d c) : c.OfFrame h.endian := by
  unfold Made at hc
  split at hc
  · next d' hrx =>
    obtain ⟨htype, rfl⟩ := rxData_frame h hrx
    obtain hc | ⟨rfl, habove⟩ := mem_calls_single h hc
    · rw [hd] at hc
      cases hc
    · constructor
      · rw [type_hdrToCpu, htype]
      · rw [length_hdrToCpu]
      · unfold aboveHdr at habove
        show (hdrSize : Int) < (loadLe16 m (hgicSkipPadding m + 4) : Int)
        omega
  · next s hrx =>
    obtain rfl := rxData_aggregate h hrx
    obtain ⟨n, hc⟩ := hc
    apply passes_invariant (aggPass_calls h env) _ n c hc
    intro c hc
    rw [show (hgicfRxAggFrm h _ _ _ d).dev.calls = [] from hd] at hc
    cases hc
  · cases hc

/-- **The payload length**: every frame of a length above 8 that reaches `hgicf_rx_single_frm`, alone or inside an
aggregate, gets a payload length in range, allocated, copied and put as that number, exactly when the padding that its
flags count fits in the length behind the header. -/
theorem made_sound_iff (h : Host) (env : Env) (nd : Netdev) (m : Mem) (len : Int) (d : Dev h.word)
    (hd : d.calls = []) (c : Call) (hc : Made h env m len d c) :
    c.OfFrame h.endian ∧
      (c.Sound h nd ↔ (hdrFlags h.endian c.mem c.data : Int) ≤ load16 h.endian c.mem (c.data + 4) - hdrSize) :=
  ⟨hc.ofFrame hd, (hc.ofFrame hd).sound_iff nd⟩

/-- A frame of 12 bytes with three bytes of padding. -/
def paddedFrame : Mem := Mem.ofList [0x1A, 0x2B, 9, 0x30, 12, 0, 1, 0, 0x55, 0, 0, 0]

theorem paddedFrame_sound : Made host64 calmEnv paddedFrame 12 (freshDev 64) ⟨paddedFrame, 0, 12⟩ ∧
    Call.Sound host64 ⟨28, 0, by decide, by decide⟩ ⟨paddedFrame, 0, 12⟩ := by
  have hc : Made host64 calmEnv paddedFrame 12 (freshDev 64) ⟨paddedFrame, 0, 12⟩ := by
    show _ ∈ [_]
    rw [List.mem_singleton, show hdrToCpu host64.endian paddedFrame _ = paddedFrame from hdrToCpu_little _ _]
    rfl
  exact ⟨hc, (made_sound_iff host64 calmEnv _ paddedFrame 12 (freshDev 64) rfl _ hc).2.mpr (by decide)⟩

/-- A frame of 9 bytes whose flags count 15 bytes of padding. -/
def overPadded : Mem := Mem.ofList [0x1A, 0x2B, 9, 0xF0, 9, 0, 1, 0, 0x55]

/-- The copy of a frame with too much padding has a size of almost 2^64. -/
theorem overPadded_unsound : ∃ c, Made host64 calmEnv overPadded 9 (freshDev 64) c ∧
    c.n .little = -14 ∧ (c.copySize host64).toNat = 2 ^ 64 - 14 ∧
    ¬ c.Sound host64 ⟨28, 0, by decide, by decide⟩ := by
  refine ⟨⟨_, _, _⟩, List.mem_singleton.mpr rfl, by decide, by decide, ?_⟩
  intro hs
  exact absurd hs.nonneg (by decide)

end HgicFmac.RxData
