import HgicFmac.RxData.Covered

/-!
# What depends on the memory behind the received bytes

Nothing in the receive path compares the number of received bytes with the 8 bytes of a header. Where a byte that
decides is missing, two contents of the memory behind the buffer, or of the skb of a control packet, lead to different
effects.

* `effects_softfc` : a start of a header can be completed to any window update;
* `skb_depends`, `framesKnown_of_seen` : a copy of negative size takes bytes from behind the buffer, and the Ethernet
  header of a short packet what the skb held;
* `effects_determined_iff` : the effects are the same for all contents exactly when the buffer is covered.
-/

namespace HgicFmac.RxData
open Lib HgicFmac.Core

/-! ## Copies of negative size -/

theorem hdrFlags_lt (e : Endian) (m : Mem) (off : Nat) : hdrFlags e m off < 16 := by
  have := (m (off + 3)).toNat_lt
  cases e <;> simp only [hdrFlags] <;> omega

/-- A small negative number is huge as a `size_t`. -/
theorem toNat_ofInt_neg {w : Nat} (hw : 32 ≤ w) {n : Int} (h0 : n < 0) (hn : -16 ≤ n) :
    2 ^ 31 ≤ (BitVec.ofInt w n).toNat := by
  have hword : (2 : Int) ^ 32 ≤ (2 ^ w : Nat) := by
    exact_mod_cast Nat.pow_le_pow_right (by decide : 0 < 2) hw
  rw [BitVec.toNat_ofInt, ← Int.add_emod_right, Int.emod_eq_of_lt (by omega) (by omega)]
  omega

section Copies
variable {h : Host} {env : Env}

/-- The copy for a frame with more padding than payload reaches the first byte behind the buffer. -/
theorem copied_depends {m m' : Mem} {N data L : Nat} (hm : ∀ k < N, m k = m' k) (hne : m N ≠ m' N) (hL : hdrSize < L)
    (hend : data + L ≤ N) (hN : N < 2 ^ 31) (hover : L < hdrSize + hdrFlags h.endian m data) :
    Call.copied h ⟨m, data, L⟩ ≠ Call.copied h ⟨m', data, L⟩ := by
  intro heq
  unfold hdrSize at hL hover
  have hflags := hdrFlags_congr h.endian (hm (data + 3) (by omega))
  have hlt := hdrFlags_lt h.endian m data
  have hsize : ∀ m'' : Mem, hdrFlags h.endian m'' data = hdrFlags h.endian m data →
      2 ^ 31 ≤ (Call.copySize h ⟨m'', data, L⟩).toNat := by
    intro m'' hm''
    have hn : Call.n h.endian ⟨m'', data, L⟩ = (L : Int) - (8 + hdrFlags h.endian m data : Nat) := by
      rw [← hm'']
      rfl
    exact toNat_ofInt_neg h.word_ge (by rw [hn]; omega) (by rw [hn]; omega)
  have hbyte := congrArg (fun l : List UInt8 => l.getD (N - (data + hdrSize)) 0) heq
  have h0 := hsize m rfl
  have h1 := hsize m' hflags.symm
  have hN' : data + hdrSize + (N - (data + hdrSize)) = N := by
    unfold hdrSize
    omega
  simp only [Call.copied] at hbyte
  rw [getD_read _ _ (by omega), getD_read _ _ (by omega), hN'] at hbyte
  exact hne hbyte

theorem ethHeader_depends {packet packet' : List UInt8} (hlen : packet.length = packet'.length)
    (h14 : packet.length < ethHlen) {room room' : Mem} (hroom : ∀ k, room k ≠ room' k) :
    ethHeader room packet ≠ ethHeader room' packet' := by
  intro heq
  have hbyte := congrArg (fun l : List UInt8 => l.getD packet.length 0) heq
  simp only [ethHeader] at hbyte
  rw [getD_read _ _ h14, getD_read _ _ h14, Nat.zero_add, write_of_le _ _ (by omega), write_of_le _ _ (by omega)]
    at hbyte
  exact hroom _ hbyte

theorem skb_depends {m m' : Mem} {N data L : Nat} (hm : ∀ k < N, m k = m' k) (hne : m N ≠ m' N) {room room' : Mem}
    (hroom : ∀ k, room k ≠ room' k) (hL : hdrSize < L) (hend : data + L ≤ N) (hN : N < 2 ^ 31) (hlt : L < 65536)
    (hshort : L < hdrSize + hdrFlags h.endian m data + ethHlen) :
    Call.skb h room ⟨m, data, L⟩ ≠ Call.skb h room' ⟨m', data, L⟩ := by
  intro heq
  rw [Call.skb, Call.skb, Prod.mk.injEq] at heq
  by_cases hover : L < hdrSize + hdrFlags h.endian m data
  · exact copied_depends hm hne hL hend hN hover heq.1
  · refine ethHeader_depends (congrArg List.length heq.1) ?_ hroom heq.2
    rw [copied_of_le hlt (Nat.not_lt.mp hover), length_read]
    omega

/-- Where the same is seen, a frame that gets an skb holds an Ethernet header behind its padding. -/
theorem eth_of_seen (hvif : env.vif.isSome) {rooms rooms' : Nat → Mem} {m m' : Mem} {N data L : Nat} {d d' : Dev h.word}
    (hroom : ∀ k, rooms d.calls.length k ≠ rooms' d.calls.length k) (hm : ∀ k < N, m k = m' k) (hne : m N ≠ m' N)
    (hend : data + L ≤ N) (hN : N < 2 ^ 31) (hlt : L < 65536) (hcalls : d.calls.length = d'.calls.length)
    (hseen : (hgicfRxSingleFrm h (env.withRooms rooms) m data L d).seen h (env.withRooms rooms) =
      (hgicfRxSingleFrm h (env.withRooms rooms') m' data L d').seen h (env.withRooms rooms'))
    (hL : hdrSize < L) (halloc : env.alloc d.calls.length) : hdrSize + hdrFlags h.endian m data + ethHlen ≤ L := by
  by_contra hshort
  have hvif0 : (env.withRooms rooms).vif.isSome := hvif
  have hvif1 : (env.withRooms rooms').vif.isSome := hvif
  rw [seen_single hvif0, seen_single hvif1, if_pos hL, if_pos hL] at hseen
  have hskbs := congrArg Seen.skbs hseen
  simp only [Dev.seenCall, Env.withRooms, ← hcalls, halloc, if_true] at hskbs
  have hlast := (List.append_inj' hskbs rfl).2
  rw [List.cons.injEq, Option.some.injEq] at hlast
  exact skb_depends hm hne hroom hL hend hN hlt (by omega) hlast.1

/-- Two walks in step over buffers that differ behind what was received, with skbs that differ everywhere: when the same
is always seen, all sub-frames hold Ethernet headers. -/
theorem framesKnown_of_seen (hvif : env.vif.isSome) {rooms rooms' : Nat → Mem} {N : Nat} (hN : N < 2 ^ 31) (n : Nat)
    {s s' : Walk h.word} (hroom : ∀ c, s.dev.calls.length ≤ c → ∀ k, rooms c k ≠ rooms' c k)
    (hs : InStep h (env.withRooms rooms) (env.withRooms rooms') N s s') (hne : s.mem N ≠ s'.mem N)
    (hall : ∀ k, (passes (aggPass h (env.withRooms rooms)) k s).state.dev.seen h (env.withRooms rooms) =
      (passes (aggPass h (env.withRooms rooms')) k s').state.dev.seen h (env.withRooms rooms')) :
    FramesKnown h.endian env.alloc n s.mem s.data s.len s.dev.calls.length := by
  induction n generalizing s s' with
  | zero => trivial
  | succ n ih =>
    intro h8 hok
    obtain ⟨hsub, hlength⟩ := hs.subHdr h8
    have hle := hok.2.2
    have hin := hs.inside
    have hpass := aggPass_of_subHdr h (env.withRooms rooms) (.inr h8) hok
    have hpass' := aggPass_of_subHdr h (env.withRooms rooms') (.inr (hs.len ▸ h8)) (hsub.mp hok)
    have hnext : ∀ k, (passes (aggPass h (env.withRooms rooms)) k (nextWalk h (env.withRooms rooms) s)).state.dev.seen h
          (env.withRooms rooms) =
        (passes (aggPass h (env.withRooms rooms')) k (nextWalk h (env.withRooms rooms') s')).state.dev.seen h
          (env.withRooms rooms') := by
      intro k
      rw [← passes_again hpass, ← passes_again hpass']
      exact hall (k + 1)
    -- the first byte behind the buffer is not part of a sub-header
    have hbehind : ∀ m : Mem, hdrToCpu h.endian m s.data N = m N := by
      intro m
      unfold hdrSize at h8
      exact hdrToCpu_other h.endian m s.data (by omega)
    have hne' : hdrToCpu h.endian s.mem s.data N ≠ hdrToCpu h.endian s'.mem s.data N := by
      rw [hbehind, hbehind]
      exact hne
    have hfit : hdrSize < loadLe16 s.mem (s.data + 4) → env.alloc s.dev.calls.length →
        hdrSize + hdrFlags h.endian s.mem s.data + ethHlen ≤ loadLe16 s.mem (s.data + 4) := by
      have hfirst : (nextWalk h (env.withRooms rooms) s).dev.seen h (env.withRooms rooms) =
          (nextWalk h (env.withRooms rooms') s').dev.seen h (env.withRooms rooms') := hnext 0
      simp only [nextWalk] at hfirst
      rw [← hlength, ← hs.data] at hfirst
      rw [← flags_hdrToCpu h.endian s.mem s.data]
      exact eth_of_seen hvif (hroom _ (Nat.le_refl _)) (hs.mem_hdrToCpu h8) hne' (by omega) hN (loadLe16_lt _ _)
        (length_calls_of_seen hs.seen) hfirst
    refine ⟨hfit, ?_⟩
    have hcalls := @calls_nextWalk h (env.withRooms rooms) hvif s
    rw [← hcalls]
    refine ih ?_ (hs.next hvif h8 hok hfit) ?_ hnext
    · intro c hc
      apply hroom
      rw [hcalls] at hc
      split at hc <;> omega
    · simp only [nextWalk]
      rw [← hs.data]
      exact hne'

end Copies

section Missing
variable {h : Host} {env : Env} {queues : Bool} {d : Dev h.word} {x : Arrival}

/-! ## Headers that are cut off -/

/-- The header of a window update of length 0, from `i` on. -/
def softfcAt (i : Nat) (cookie : UInt8) : Mem := Mem.write (fun _ => 0) i [0x1A, 0x2B, 11, 0, 0, 0, cookie, 0]

theorem mem_softfc (hno : ¬ WrongMagic x.bytes) (h3 : left x.bytes < 3) (cookie : UInt8) (room : Mem) {k : Nat}
    (hk : k < 8) : (x.fill (softfcAt (padding x.bytes) cookie) room).mem (padding x.bytes + k) =
      [0x1A, 0x2B, 11, 0, 0, 0, cookie, 0].getD k 0 := by
  have hsum := padding_add_left x.bytes
  by_cases hlt : k < left x.bytes
  · have hmem : (x.fill (softfcAt (padding x.bytes) cookie) room).mem (padding x.bytes + k) =
        recv x.bytes (padding x.bytes + k) := Arrival.mem_hdr (x.fill _ _) hlt
    rw [hmem]
    obtain rfl | rfl : k = 0 ∨ k = 1 := by omega
    · by_contra hne
      exact hno (.inl ⟨by omega, hne⟩)
    · by_contra hne
      exact hno (.inr ⟨by omega, hne⟩)
  · rw [x.mem_fill_of_le _ _ (by omega)]
    exact write_at (fun _ => 0) [0x1A, 0x2B, 11, 0, 0, 0, cookie, 0] hk

/-- A start of a header that may be any header can be that of a window update. -/
theorem effects_softfc (hno : ¬ WrongMagic x.bytes) (h3 : left x.bytes < 3) (cookie : UInt8) (room : Mem) :
    effects h env queues d (x.fill (softfcAt (padding x.bytes) cookie) room) = .window cookie.toNat := by
  have hmem := fun k hk => @mem_softfc x hno h3 cookie room k hk
  obtain ⟨hpad, hall, -⟩ := padding_spec x.bytes
  have hle := padding_le x.bytes
  generalize hy : x.fill (softfcAt (padding x.bytes) cookie) room = y at hmem ⊢
  have hbytes : y.bytes = x.bytes := by
    rw [← hy]
    rfl
  have hskip : hgicSkipPadding y.mem = padding x.bytes := by
    rw [skipPadding_eq_iff]
    refine ⟨hpad, ?_, ?_⟩
    · intro j hj
      rw [y.mem_of_lt (by rw [hbytes]; omega), hbytes]
      exact hall j hj
    · intro _
      rw [show y.mem (padding x.bytes) = 0x1A from hmem 0 (by decide)]
      decide
  have hmagic : loadLe16 y.mem (padding x.bytes) = hgicHdrRxMagic := by
    rw [loadLe16, show y.mem (padding x.bytes) = 0x1A from hmem 0 (by decide),
      show y.mem (padding x.bytes + 1) = 0x2B from hmem 1 (by decide)]
    decide
  have htype : hdrType y.mem (padding x.bytes) = HdrType.softfc.byte := by
    rw [hdrType, hmem 2 (by decide)]
    rfl
  have hlength : loadLe16 y.mem (padding x.bytes + 4) = 0 := by
    rw [loadLe16, hmem 4 (by decide), Nat.add_assoc, hmem 5 (by decide)]
    rfl
  have hcookie : loadLe16 y.mem (padding x.bytes + 6) = cookie.toNat := by
    rw [loadLe16, hmem 6 (by decide), Nat.add_assoc, hmem 7 (by decide)]
    rfl
  unfold effects received
  rw [rxData_admitted h _ d hskip hmagic (by rw [hlength, hbytes]; omega), admitted, htype, if_neg (by decide),
    if_neg (by decide), if_neg (by decide), if_pos rfl, hcookie]

theorem effects_ne_invalid {i : Nat} {len : Int} (hrx : received h env d x =
    admitted h (x.env env d) x.mem i len d) : effects h env queues d x ≠ .invalid := by
  unfold effects
  rw [hrx, admitted]
  split_ifs <;> (intro hinv; cases hinv)

theorem cookie_depends (h8 : left x.bytes < 8) (room room' : Mem) :
    loadLe16 (x.fill (fun _ => 0) room).mem (padding x.bytes + 6) <
      loadLe16 (x.fill (fun _ => 1) room').mem (padding x.bytes + 6) := by
  have hsum := padding_add_left x.bytes
  have hlast : ∀ (b : UInt8) room, (x.fill (fun _ => b) room).mem (padding x.bytes + 6 + 1) = b :=
    fun b room => x.mem_fill_of_le _ _ (by omega)
  have hlo := ((x.fill (fun _ => 0) room).mem (padding x.bytes + 6)).toNat_lt
  rw [loadLe16, loadLe16, hlast, hlast, show UInt8.toNat 0 = 0 from rfl, show UInt8.toNat 1 = 1 from rfl]
  omega

variable (hd : Determined Arrival.Same (effects h env queues d) x)
include hd

theorem three_le_of_determined (hno : ¬ WrongMagic x.bytes) : 3 ≤ left x.bytes := by
  by_contra h3
  have heq := hd.eq_of_same (x.same_fill (softfcAt (padding x.bytes) 0) (fun _ => 0))
    (x.same_fill (softfcAt (padding x.bytes) 1) (fun _ => 0))
  rw [effects_softfc hno (by omega), effects_softfc hno (by omega), Effect.window.injEq] at heq
  exact absurd heq (by decide)

variable (hno : ¬ WrongMagic x.bytes)
include hno

/-- The length field, or enough of it to see that the packet is too short. -/
theorem six_le_of_determined (hboot : typeField x.bytes ≠ HdrType.bootdl.byte)
    (hle : lengthField x.bytes ≤ left x.bytes) : 6 ≤ left x.bytes := by
  have h3 := three_le_of_determined hd hno
  by_contra h6
  have hsum := padding_add_left x.bytes
  have heq := hd.eq_of_same (x.same_fill (fun _ => 0) (fun _ => 0)) (x.same_fill (fun _ => 0xFF) (fun _ => 0))
  have hzero : loadLe16 (x.fill (fun _ => 0) (fun _ => 0)).mem (padding x.bytes + 4) = lengthField x.bytes := by
    rw [Arrival.mem_fill_zero]
    rfl
  have hlast : (x.fill (fun _ => 0xFF) (fun _ => 0)).mem (padding x.bytes + 4 + 1) = 0xFF :=
    x.mem_fill_of_le _ _ (by omega)
  have hlong : left x.bytes < loadLe16 (x.fill (fun _ => 0xFF) (fun _ => 0)).mem (padding x.bytes + 4) := by
    rw [loadLe16, hlast, show UInt8.toNat 0xFF = 255 from rfl]
    omega
  have hinvalid : effects h env queues d (x.fill (fun _ => 0xFF) (fun _ => 0)) = .invalid :=
    effects_tooLong h3 hno hboot hlong
  rw [hinvalid] at heq
  have hle' : loadLe16 (x.fill (fun _ => 0) (fun _ => 0)).mem (padding x.bytes + 4) ≤ left x.bytes := by
    rw [hzero]
    exact hle
  exact effects_ne_invalid (@rxData_received h env d (x.fill (fun _ => 0) (fun _ => 0)) h3 hno hle') heq

omit hno in
/-- A queued packet: what the skb held before does not decide about its dispatch. -/
theorem work_of_determined (hq : queues = true) {n : Nat} (hn : n < 2 ^ 31)
    (hrx : ∀ room, received h env d (x.fill (fun _ => 0) room) =
      .control (padding x.bytes) n) :
    hgicFwctrlWork h.endian (Mem.write (fun _ => 0) 0 (copyOf h.endian (recv x.bytes) (padding x.bytes) n)) =
      hgicFwctrlWork h.endian (Mem.write (fun _ => 4) 0 (copyOf h.endian (recv x.bytes) (padding x.bytes) n)) := by
  have heq := hd.eq_of_same (x.same_fill (fun _ => 0) (fun _ => 0)) (x.same_fill (fun _ => 0) (fun _ => 4))
  rw [hq, effects_queued (hrx _) hn, effects_queued (hrx _) hn, Arrival.mem_fill_zero, Arrival.mem_fill_zero,
    Effect.control.injEq, Option.some.injEq, Prod.mk.injEq] at heq
  exact heq.2

omit hd hno in
theorem high_of_not_cookieKnown {e : Endian} {bs : List UInt8} {n : Nat} (hno : ¬ CookieKnown e bs)
    (hn : n = min (left bs) (lengthField bs)) :
    n < 8 ∧ ((copyOf e (recv bs) (padding bs) n).length = 7 → e = .big →
      (copyOf e (recv bs) (padding bs) n).getD 6 0 < 0x80) := by
  have hsum := padding_add_left bs
  refine ⟨?_, ?_⟩
  · by_contra h8
    exact hno ⟨by omega, .inl (by omega)⟩
  · rw [length_copyOf]
    rintro h7 rfl
    rw [copyOf_high _ _ (by omega)]
    by_contra hge
    have hge' : (0x80 : UInt8) ≤ recv bs (padding bs + 7) := UInt8.not_lt.mp hge
    by_cases h8 : 8 ≤ left bs
    · exact hno ⟨h8, .inr ⟨by omega, rfl, hge'⟩⟩
    · rw [recv_of_le (by omega)] at hge'
      exact absurd hge' (by decide)

/-- A packet of the boot loader that is queued. -/
theorem bootdl_of_determined (htype : typeField x.bytes = HdrType.bootdl.byte) :
    queues = false ∨ CookieKnown h.endian x.bytes := by
  have h3 := three_le_of_determined hd hno
  by_contra hnot
  rw [not_or, Bool.not_eq_false] at hnot
  obtain ⟨hq, hck⟩ := hnot
  have hsum := padding_add_left x.bytes
  have hlt := x.len_lt
  obtain ⟨h8, hhigh⟩ := high_of_not_cookieKnown hck rfl
  have hrx : ∀ room, received h env d (x.fill (fun _ => 0) room) =
      .control (padding x.bytes) (min (left x.bytes) (lengthField x.bytes) : Nat) := by
    intro room
    have hboot := @rxData_bootdl_received h env d (x.fill (fun _ => 0) room) h3 hno htype
    rw [Arrival.mem_fill_zero] at hboot
    exact hboot
  apply work_depends _ _ hhigh (work_of_determined hd hq (by omega) hrx)
  · rw [length_copyOf]
    exact h8
  · rw [length_copyOf]
    intro h3'
    rw [copyOf_type _ _ _ h3', show hdrType (recv x.bytes) (padding x.bytes) = _ from htype]
    decide

/-! ## Past the tests -/

variable (h6 : 6 ≤ left x.bytes) (hle : lengthField x.bytes ≤ left x.bytes)

omit hd in
include h6 hle in
/-- With any memory behind the received bytes, the same function gets the buffer. -/
theorem rxData_fill (tail room : Mem) :
    received h env d (x.fill tail room) =
      admitted h ((x.fill tail room).env env d) (x.fill tail room).mem (padding x.bytes) (lengthField x.bytes) d ∧
    hdrType (x.fill tail room).mem (padding x.bytes) = typeField x.bytes := by
  have hlen : loadLe16 (x.fill tail room).mem (padding x.bytes + 4) = lengthField x.bytes :=
    (x.fill tail room).length_mem h6
  have h3 : 3 ≤ left (x.fill tail room).bytes := Nat.le_trans (by decide) h6
  constructor
  · have hrx := @rxData_received h env d (x.fill tail room) h3 hno (by
      show loadLe16 (x.fill tail room).mem (padding x.bytes + 4) ≤ left x.bytes
      rw [hlen]
      exact hle)
    rw [← hlen]
    exact hrx
  · exact (x.fill tail room).type_mem h3

omit hd hno in
/-- The header of the buffer with zeros and with ones behind it, converted: the first byte behind the buffer differs. -/
theorem hdrToCpu_fill (h8 : 8 ≤ left x.bytes) :
    (∀ k < x.bytes.length,
      hdrToCpu h.endian (x.fill (fun _ => 0) (fun _ => 0)).mem (padding x.bytes) k =
        hdrToCpu h.endian (x.fill (fun _ => 1) (fun _ => 1)).mem (padding x.bytes) k) ∧
    hdrToCpu h.endian (x.fill (fun _ => 0) (fun _ => 0)).mem (padding x.bytes) x.bytes.length ≠
      hdrToCpu h.endian (x.fill (fun _ => 1) (fun _ => 1)).mem (padding x.bytes) x.bytes.length := by
  have hsum := padding_add_left x.bytes
  constructor
  · apply hdrToCpu_congr _ (by omega)
    intro k hk
    exact ((x.fill (fun _ => 0) (fun _ => 0)).mem_of_lt hk).trans ((x.fill (fun _ => 1) (fun _ => 1)).mem_of_lt hk).symm
  · rw [hdrToCpu_other _ _ _ (by omega), hdrToCpu_other _ _ _ (by omega), x.mem_fill_of_le _ _ (Nat.le_refl _),
      x.mem_fill_of_le _ _ (Nat.le_refl _)]
    decide

omit hd in
include h6 hle in
theorem rxData_control (hctrl : typeField x.bytes ∈ controlTypes) (tail room : Mem) :
    received h env d (x.fill tail room) =
      .control (padding x.bytes) (lengthField x.bytes) := by
  have hdata : ¬ (typeField x.bytes = HdrType.frm2.byte ∨ typeField x.bytes = HdrType.aggfrm.byte) := by
    simp only [controlTypes, HdrType.byte, List.mem_cons, List.not_mem_nil, or_false] at hctrl ⊢
    omega
  obtain ⟨hrx, ht⟩ := @rxData_fill h env d x hno h6 hle tail room
  rw [admitted, ht, if_neg hdata, if_pos hctrl] at hrx
  exact hrx

include h6 hle

theorem softfc_of_determined (htype : typeField x.bytes = HdrType.softfc.byte) : 8 ≤ left x.bytes := by
  by_contra h8
  have hwindow : ∀ b : UInt8, effects h env queues d (x.fill (fun _ => b) (fun _ => 0)) =
      .window (loadLe16 (x.fill (fun _ => b) (fun _ => 0)).mem (padding x.bytes + 6)) := by
    intro b
    obtain ⟨hrx, ht⟩ := @rxData_fill h env d x hno h6 hle (fun _ => b) (fun _ => 0)
    rw [admitted, ht, htype, if_neg (by decide), if_neg (by decide), if_neg (by decide), if_pos rfl] at hrx
    rw [effects, hrx]
  have heq := hd.eq_of_same (x.same_fill (fun _ => 0) (fun _ => 0)) (x.same_fill (fun _ => 1) (fun _ => 0))
  rw [hwindow, hwindow, Effect.window.injEq] at heq
  exact absurd heq (Nat.ne_of_lt (cookie_depends (by omega) _ _))

theorem response_of_determined (hresp : typeField x.bytes ∈ responseTypes) :
    queues = false ∨ CookieKnown h.endian x.bytes := by
  by_contra hnot
  rw [not_or, Bool.not_eq_false] at hnot
  obtain ⟨hq, hck⟩ := hnot
  have hlt := x.len_lt
  have hsum := padding_add_left x.bytes
  obtain ⟨h8, hhigh⟩ := high_of_not_cookieKnown hck (show lengthField x.bytes = min _ _ by omega)
  have hrx := @rxData_control h env d x hno h6 hle ((mem_controlTypes_iff _).mpr (.inr hresp)) (fun _ => 0)
  apply work_depends _ _ hhigh (work_of_determined hd hq (by omega) hrx)
  · rw [length_copyOf]
    exact h8
  · rw [length_copyOf]
    intro h3
    rw [copyOf_type _ _ _ h3]
    exact hresp

theorem event_of_determined (hev : typeField x.bytes ∈ eventTypes) :
    queues = false ∨ EventKnown h.endian x.bytes := by
  by_contra hnot
  rw [not_or, Bool.not_eq_false] at hnot
  obtain ⟨rfl, hek⟩ := hnot
  have hlt := x.len_lt
  have hsum := padding_add_left x.bytes
  have hctrl := (mem_controlTypes_iff _).mpr (.inl hev)
  have hrx := @rxData_control h env d x hno h6 hle hctrl
  by_cases h3 : 3 ≤ lengthField x.bytes
  · -- the conversion of the cookie moves a byte from behind the buffer into the packet
    obtain ⟨hbig, h7, h8⟩ : h.endian = .big ∧ lengthField x.bytes = 7 ∧ left x.bytes < 8 := by
      refine ⟨?_, ?_, ?_⟩
      · cases he : h.endian with
        | little => exact absurd ⟨h3, .inl he⟩ hek
        | big => rfl
      · by_contra h7
        exact hek ⟨h3, .inr (.inl h7)⟩
      · by_contra h8
        exact hek ⟨h3, .inr (.inr (by omega))⟩
    have heq := hd.eq_of_same (x.same_fill (fun _ => 0) (fun _ => 0)) (x.same_fill (fun _ => 1) (fun _ => 0))
    rw [effects_queued (hrx _ _) (by omega), effects_queued (hrx _ _) (by omega), Effect.control.injEq,
      Option.some.injEq, Prod.mk.injEq, hbig, h7] at heq
    have hsix := congrArg (fun c => c.getD 6 0) heq.1
    simp only [copyOf_high _ _ (Nat.le_refl 7)] at hsix
    rw [x.mem_fill_of_le _ _ (by omega), x.mem_fill_of_le _ _ (by omega)] at hsix
    exact absurd hsix (by decide : (0 : UInt8) ≠ 1)
  · apply work_depends _ _ _ (work_of_determined hd rfl (by omega) (hrx _))
    · rw [length_copyOf]
      omega
    · rw [length_copyOf]
      intro h
      exact absurd h h3
    · rw [length_copyOf]
      intro h7
      omega

/-! ## Data frames -/

variable (hopen : ¬ (env.vif.isNone ∨ env.ifTest ≠ 0))
include hopen

omit hd hno h6 hle hopen in
theorem rooms_fill {c : Nat} (hc : d.calls.length ≤ c) (k : Nat) :
    env.roomsAfter d.calls.length (x.fill (fun _ => 0) (fun _ => 0)).rooms c k ≠
      env.roomsAfter d.calls.length (x.fill (fun _ => 1) (fun _ => 1)).rooms c k := by
  unfold Env.roomsAfter
  rw [if_neg (Nat.not_lt.mpr hc), if_neg (Nat.not_lt.mpr hc)]
  exact (by decide : (0 : UInt8) ≠ 1)

theorem frame_of_determined (htype : typeField x.bytes = HdrType.frm2.byte) (hL : hdrSize < lengthField x.bytes)
    (halloc : env.alloc d.calls.length) :
    hdrSize + hdrFlags h.endian (recv x.bytes) (padding x.bytes) + ethHlen ≤ lengthField x.bytes := by
  have hsum := padding_add_left x.bytes
  have hframe : ∀ b : UInt8, effects h env queues d (x.fill (fun _ => b) (fun _ => b)) =
      .frames fun _ => (hgicfRxSingleFrm h ((x.fill (fun _ => b) (fun _ => b)).env env d)
        (hdrToCpu h.endian (x.fill (fun _ => b) (fun _ => b)).mem (padding x.bytes)) (padding x.bytes)
        (lengthField x.bytes) d).seen h ((x.fill (fun _ => b) (fun _ => b)).env env d) := by
    intro b
    have hopen' : ¬ (((x.fill (fun _ => b) (fun _ => b)).env env d).vif.isNone ∨
      ((x.fill (fun _ => b) (fun _ => b)).env env d).ifTest ≠ 0) := hopen
    obtain ⟨hrx, ht⟩ := @rxData_fill h env d x hno h6 hle (fun _ => b) (fun _ => b)
    rw [admitted, ht, if_pos (.inl htype), if_neg hopen', htype, if_neg (by decide)] at hrx
    rw [effects, hrx]
  have heq := hd.eq_of_same (x.same_fill (fun _ => 0) (fun _ => 0)) (x.same_fill (fun _ => 1) (fun _ => 1))
  rw [hframe, hframe, Effect.frames.injEq] at heq
  have hseen := congrFun heq 0
  have hcpu := hdrToCpu_fill (h := h) (x := x) (show 8 ≤ left x.bytes by unfold hdrSize at hL; omega)
  have hflags := flags_hdrToCpu h.endian (recv x.bytes) (padding x.bytes)
  rw [← hflags, ← x.mem_fill_zero (fun _ => 0)]
  exact eth_of_seen (isSome_of_not_isNone hopen) (rooms_fill (Nat.le_refl _)) hcpu.1 hcpu.2 (by omega) x.len_lt
    (loadLe16_lt _ _) rfl hseen hL halloc

theorem aggregate_of_determined (htype : typeField x.bytes = HdrType.aggfrm.byte) : 8 ≤ left x.bytes ∧
    ∀ n, FramesKnown h.endian env.alloc n (hdrToCpu h.endian (recv x.bytes) (padding x.bytes))
      (padding x.bytes + hdrSize) (lengthField x.bytes - hdrSize) d.calls.length := by
  have hsum := padding_add_left x.bytes
  have hframes : ∀ b : UInt8, effects h env queues d (x.fill (fun _ => b) (fun _ => b)) =
      .frames fun n => (passes (aggPass h ((x.fill (fun _ => b) (fun _ => b)).env env d)) n (hgicfRxAggFrm h
        (hdrToCpu h.endian (x.fill (fun _ => b) (fun _ => b)).mem (padding x.bytes)) (padding x.bytes)
        (lengthField x.bytes) d)).state.dev.seen h ((x.fill (fun _ => b) (fun _ => b)).env env d) := by
    intro b
    have hopen' : ¬ (((x.fill (fun _ => b) (fun _ => b)).env env d).vif.isNone ∨
      ((x.fill (fun _ => b) (fun _ => b)).env env d).ifTest ≠ 0) := hopen
    obtain ⟨hrx, ht⟩ := @rxData_fill h env d x hno h6 hle (fun _ => b) (fun _ => b)
    rw [admitted, ht, if_pos (.inr htype), if_neg hopen', if_pos htype] at hrx
    rw [effects, hrx]
  have heq := hd.eq_of_same (x.same_fill (fun _ => 0) (fun _ => 0)) (x.same_fill (fun _ => 1) (fun _ => 1))
  rw [hframes, hframes, Effect.frames.injEq] at heq
  have h8 : 8 ≤ left x.bytes := by
    by_contra h8
    have hcookie := congrArg Seen.rxCookie (congrFun heq 0)
    simp only [passes, Pass.state, Dev.seen, hgicfRxAggFrm, cookie_hdrToCpu] at hcookie
    exact absurd hcookie (Nat.ne_of_lt (cookie_depends (by omega) _ _))
  refine ⟨h8, ?_⟩
  intro n
  by_cases hL : hdrSize ≤ lengthField x.bytes
  · have hcpu := hdrToCpu_fill (h := h) (x := x) h8
    have hcalls : skbsOf h ((x.fill (fun _ => 0) (fun _ => 0)).env env d) d.calls =
        skbsOf h ((x.fill (fun _ => 1) (fun _ => 1)).env env d) d.calls :=
      (skbsOf_arrival env d _).symm.trans (skbsOf_arrival env d _)
    have hstep := InStep.start hcpu.1 (by omega : padding x.bytes + 8 ≤ x.bytes.length) hcalls hL (by omega)
    have hrooms : ∀ c, d.calls.length ≤ c → ∀ k,
        env.roomsAfter d.calls.length (x.fill (fun _ => 0) (fun _ => 0)).rooms c k ≠
          env.roomsAfter d.calls.length (x.fill (fun _ => 1) (fun _ => 1)).rooms c k := fun c hc => rooms_fill hc
    rw [← x.mem_fill_zero (fun _ => 0)]
    exact framesKnown_of_seen (isSome_of_not_isNone hopen) x.len_lt n hrooms hstep hcpu.2 (congrFun heq)
  · cases n with
    | zero => trivial
    | succ n =>
      intro hlt
      omega

end Missing

theorem covered_of_determined {h : Host} {env : Env} {queues : Bool} {d : Dev h.word} {x : Arrival}
    (hd : Determined Arrival.Same (effects h env queues d) x) : Covered h env queues d x.bytes := by
  by_cases hno : WrongMagic x.bytes
  · exact .inl hno
  refine .inr ⟨three_le_of_determined hd hno, ?_⟩
  by_cases hboot : typeField x.bytes = HdrType.bootdl.byte
  · rw [if_pos hboot]
    exact bootdl_of_determined hd hno hboot
  rw [if_neg hboot]
  by_cases hlong : left x.bytes < lengthField x.bytes
  · exact .inl hlong
  have hle := Nat.not_lt.mp hlong
  have h6 := six_le_of_determined hd hno hboot hle
  refine .inr ⟨h6, ?_⟩
  unfold BodyKnown
  split_ifs with hdata hagg hev hresp hfc
  · by_cases hopen : env.vif.isNone ∨ env.ifTest ≠ 0
    · exact .inl hopen
    · exact .inr (aggregate_of_determined hd hno h6 hle hopen hagg)
  · by_cases hopen : env.vif.isNone ∨ env.ifTest ≠ 0
    · exact .inl hopen
    · exact .inr (frame_of_determined hd hno h6 hle hopen (hdata.resolve_right hagg))
  · exact event_of_determined hd hno h6 hle hev
  · exact response_of_determined hd hno h6 hle hresp
  · exact softfc_of_determined hd hno h6 hle hfc

/-- **Bytes that were not received**: for every driver state and every buffer, the packets, the queued control packet
with its dispatch and all else that the device keeps are the same whatever lies behind the received bytes, exactly when
the buffer is covered. -/
theorem effects_determined_iff (h : Host) (env : Env) (queues : Bool) (d : Dev h.word) (x : Arrival) :
    Determined Arrival.Same (effects h env queues d) x ↔ Covered h env queues d x.bytes :=
  ⟨covered_of_determined, determined_of_covered⟩

/-- Six received bytes: a header of the type `type` without its cookie. -/
def sixBytes (type : UInt8) (tail room : Mem) : Arrival :=
  ⟨[0x1A, 0x2B, type, 0, 6, 0], tail, room, fun _ => room, by show 6 < 2 ^ 31; decide⟩

/-- A window update of six bytes sets the window from the memory behind the buffer, and the response of six bytes goes
to a pending request or not by what its skb held. -/
theorem sixBytes_not_determined :
    (¬ ∀ (h : Host) (env : Env) (queues : Bool) (d : Dev h.word) (x : Arrival), x.bytes ≠ [] →
      Determined Arrival.Same (effects h env queues d) x) ∧
    effects host64 calmEnv true (freshDev 64) (sixBytes 11 (fun _ => 0) (fun _ => 0)) = .window 0 ∧
    effects host64 calmEnv true (freshDev 64) (sixBytes 11 (fun _ => 1) (fun _ => 0)) = .window 257 ∧
    ∃ c f g, effects host64 calmEnv true (freshDev 64) (sixBytes 3 (fun _ => 0) (fun _ => 0)) = .control (some (c, f)) ∧
      effects host64 calmEnv true (freshDev 64) (sixBytes 3 (fun _ => 0) (fun _ => 4)) = .control (some (c, g)) ∧
      f [0] = .response 0 ∧ g [0] = .unclaimed := by
  have h0 : effects host64 calmEnv true (freshDev 64) (sixBytes 11 (fun _ => 0) (fun _ => 0)) = .window 0 := rfl
  have h1 : effects host64 calmEnv true (freshDev 64) (sixBytes 11 (fun _ => 1) (fun _ => 0)) = .window 257 := rfl
  refine ⟨?_, h0, h1, ?_⟩
  · intro hall
    have hd := hall host64 calmEnv true (freshDev 64) (sixBytes 11 (fun _ => 0) (fun _ => 0)) (by decide)
    have heq := hd (sixBytes 11 (fun _ => 1) (fun _ => 0)) rfl
    rw [h0, h1, Effect.window.injEq] at heq
    exact absurd heq (by decide)
  · have hzero := @effects_queued host64 calmEnv (freshDev 64) (sixBytes 3 (fun _ => 0) (fun _ => 0)) 0 6 rfl (by decide)
    have hfour := @effects_queued host64 calmEnv (freshDev 64) (sixBytes 3 (fun _ => 0) (fun _ => 4)) 0 6 rfl (by decide)
    exact ⟨_, _, _, hzero, hfour, by decide, by decide⟩

end HgicFmac.RxData
