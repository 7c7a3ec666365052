import HgicFmac.RxData.Deliver
import HgicFmac.RxData.Effects

/-!
# Buffers whose received bytes decide

* `padding`, `left`, `lengthField`, `typeField` : the header in the received bytes;
* `Covered` : all that decides about a buffer was received. `WrongMagic`, `BodyKnown` : by the magic number, or by the
  type; `FramesKnown` : the padding of the sub-frames of an aggregate; `CookieKnown`, `EventKnown` : a queued packet can
  be dispatched;
* `InStep` : two walks over buffers that agree on what was received, kept by a pass (`InStep.next`);
* `work_of_header`, `work_of_event`, `work_of_high` : when the dispatch does not read behind the packet;
  `work_depends` : when it does;
* `determined_of_covered` : a covered buffer has the same effects whatever lies behind it.
-/

namespace HgicFmac.RxData
open Lib HgicFmac.Core

/-! ## The header in the received bytes -/

/-- The bytes that were received, with zeros behind them. -/
def recv (bs : List UInt8) : Mem := Mem.ofList bs

def padding (bs : List UInt8) : Nat := hgicSkipPadding (recv bs)

def left (bs : List UInt8) : Nat := bs.length - padding bs

/-- The length field; a byte that was not received counts as zero. -/
def lengthField (bs : List UInt8) : Nat := loadLe16 (recv bs) (padding bs + 4)

def typeField (bs : List UInt8) : Nat := hdrType (recv bs) (padding bs)

/-- A received byte of the magic number is wrong. -/
def WrongMagic (bs : List UInt8) : Prop :=
  1 ≤ left bs ∧ recv bs (padding bs) ≠ 0x1A ∨ 2 ≤ left bs ∧ recv bs (padding bs + 1) ≠ 0x2B

/-- In the `len` bytes at `off`, every sub-frame that the length fields lead to and that gets an skb has room for its
padding and an Ethernet header. `n` bounds the sub-frames, `k` counts the frames before. -/
def FramesKnown (e : Endian) (alloc : Nat → Bool) : Nat → Mem → Nat → Int → Nat → Prop
  | 0, _, _, _, _ => True
  | n + 1, m, off, len, k => (hdrSize : Int) < len → SubHdr m off len →
      (hdrSize < loadLe16 m (off + 4) → alloc k → hdrSize + hdrFlags e m off + ethHlen ≤ loadLe16 m (off + 4)) ∧
        FramesKnown e alloc n (hdrToCpu e m off) (off + loadLe16 m (off + 4)) (len - loadLe16 m (off + 4))
          (if hdrSize < loadLe16 m (off + 4) then k + 1 else k)

/-- The cookie of a response is in the queued packet. On a big-endian host its high byte comes first, and is enough when
no request has such a cookie. -/
def CookieKnown (e : Endian) (bs : List UInt8) : Prop :=
  8 ≤ left bs ∧ (8 ≤ lengthField bs ∨ lengthField bs = 7 ∧ e = .big ∧ 0x80 ≤ recv bs (padding bs + 7))

/-- An event: its type is in the queued packet, and with it all that the conversion of the header moves there. -/
def EventKnown (e : Endian) (bs : List UInt8) : Prop :=
  3 ≤ lengthField bs ∧ (e = .little ∨ lengthField bs ≠ 7 ∨ 8 ≤ left bs)

/-- The bytes that the function for the type reads were received. -/
def BodyKnown (h : Host) (env : Env) (queues : Bool) (d : Dev h.word) (bs : List UInt8) : Prop :=
  if typeField bs = HdrType.frm2.byte ∨ typeField bs = HdrType.aggfrm.byte then
    (env.vif.isNone ∨ env.ifTest ≠ 0) ∨
      if typeField bs = HdrType.aggfrm.byte then
        8 ≤ left bs ∧ ∀ n, FramesKnown h.endian env.alloc n (hdrToCpu h.endian (recv bs) (padding bs))
          (padding bs + hdrSize) (lengthField bs - hdrSize) d.calls.length
      else hdrSize < lengthField bs → env.alloc d.calls.length →
        hdrSize + hdrFlags h.endian (recv bs) (padding bs) + ethHlen ≤ lengthField bs
  else if typeField bs ∈ eventTypes then queues = false ∨ EventKnown h.endian bs
  else if typeField bs ∈ responseTypes then queues = false ∨ CookieKnown h.endian bs
  else if typeField bs = HdrType.softfc.byte then 8 ≤ left bs
  else True

/-- All that decides about the buffer was received. -/
def Covered (h : Host) (env : Env) (queues : Bool) (d : Dev h.word) (bs : List UInt8) : Prop :=
  WrongMagic bs ∨ 3 ≤ left bs ∧
    if typeField bs = HdrType.bootdl.byte then queues = false ∨ CookieKnown h.endian bs
    else left bs < lengthField bs ∨ 6 ≤ left bs ∧ BodyKnown h env queues d bs

/-! ## Reading the header -/

/-- `hgic_skip_padding` counts the bytes 0xFF, up to three. -/
theorem skipPadding_eq_iff (m : Mem) (i : Nat) :
    hgicSkipPadding m = i ↔ i ≤ 3 ∧ (∀ j < i, m j = 0xFF) ∧ (i < 3 → m i ≠ 0xFF) := by
  constructor
  · rintro rfl
    unfold hgicSkipPadding
    split
    · next h0 => exact ⟨by decide, fun j hj => absurd hj (Nat.not_lt_zero j), fun _ => h0⟩
    · next h0 =>
      rw [Decidable.not_not] at h0
      split
      · next h1 =>
        refine ⟨by decide, ?_, fun _ => h1⟩
        intro j hj
        obtain rfl : j = 0 := by omega
        exact h0
      · next h1 =>
        rw [Decidable.not_not] at h1
        split
        · next h2 =>
          refine ⟨by decide, ?_, fun _ => h2⟩
          intro j hj
          obtain rfl | rfl : j = 0 ∨ j = 1 := by omega
          · exact h0
          · exact h1
        · next h2 =>
          rw [Decidable.not_not] at h2
          refine ⟨by decide, ?_, fun h => absurd h (by decide)⟩
          intro j hj
          obtain rfl | rfl | rfl : j = 0 ∨ j = 1 ∨ j = 2 := by omega
          · exact h0
          · exact h1
          · exact h2
  · rintro ⟨h3, hall, hstop⟩
    unfold hgicSkipPadding
    obtain rfl | rfl | rfl | rfl : i = 0 ∨ i = 1 ∨ i = 2 ∨ i = 3 := by omega
    · rw [if_pos (hstop (by decide))]
    · rw [if_neg (by rw [hall 0 (by decide)]; decide), if_pos (hstop (by decide))]
    · rw [if_neg (by rw [hall 0 (by decide)]; decide), if_neg (by rw [hall 1 (by decide)]; decide),
        if_pos (hstop (by decide))]
    · rw [if_neg (by rw [hall 0 (by decide)]; decide), if_neg (by rw [hall 1 (by decide)]; decide),
        if_neg (by rw [hall 2 (by decide)]; decide)]

theorem recv_of_le {bs : List UInt8} {k : Nat} (h : bs.length ≤ k) : recv bs k = 0 := by
  rw [recv, Mem.ofList, List.getD_eq_getElem?_getD, List.getElem?_eq_none h]
  rfl

theorem padding_spec (bs : List UInt8) :
    padding bs ≤ 3 ∧ (∀ j < padding bs, recv bs j = 0xFF) ∧ (padding bs < 3 → recv bs (padding bs) ≠ 0xFF) :=
  (skipPadding_eq_iff _ _).mp rfl

theorem padding_le (bs : List UInt8) : padding bs ≤ bs.length := by
  by_contra hlt
  have hff := (padding_spec bs).2.1 bs.length (by omega)
  rw [recv_of_le (Nat.le_refl _)] at hff
  exact absurd hff (by decide)

theorem padding_add_left (bs : List UInt8) : padding bs + left bs = bs.length := by
  have := padding_le bs
  unfold left
  omega

namespace Arrival
variable (x : Arrival)

theorem mem_of_lt {k : Nat} (h : k < x.bytes.length) : x.mem k = recv x.bytes k := write_zero x.tail x.bytes h

theorem mem_of_le {k : Nat} (h : x.bytes.length ≤ k) : x.mem k = x.tail k :=
  write_of_le x.tail x.bytes (by omega)

theorem mem_hdr {k : Nat} (h : k < left x.bytes) : x.mem (padding x.bytes + k) = recv x.bytes (padding x.bytes + k) := by
  apply mem_of_lt
  have := padding_add_left x.bytes
  omega

theorem skipPadding_mem (h : 1 ≤ left x.bytes) : hgicSkipPadding x.mem = padding x.bytes := by
  obtain ⟨h3, hall, hstop⟩ := padding_spec x.bytes
  have hsum := padding_add_left x.bytes
  rw [skipPadding_eq_iff]
  refine ⟨h3, ?_, ?_⟩
  · intro j hj
    rw [x.mem_of_lt (by omega)]
    exact hall j hj
  · intro hlt
    rw [x.mem_of_lt (by omega)]
    exact hstop hlt

theorem magic_mem (h : 2 ≤ left x.bytes) :
    loadLe16 x.mem (padding x.bytes) = loadLe16 (recv x.bytes) (padding x.bytes) :=
  load16_congr .little (x.mem_hdr (k := 0) (by omega)) (x.mem_hdr (by omega))

theorem type_mem (h : 3 ≤ left x.bytes) : hdrType x.mem (padding x.bytes) = typeField x.bytes := by
  rw [typeField, hdrType, x.mem_hdr (by omega), hdrType]

theorem length_mem (h : 6 ≤ left x.bytes) : loadLe16 x.mem (padding x.bytes + 4) = lengthField x.bytes :=
  load16_congr .little (x.mem_hdr (by omega)) (x.mem_hdr (k := 5) (by omega))

/-- The received bytes of the length field are a lower bound for it. -/
theorem lengthField_le : lengthField x.bytes ≤ loadLe16 x.mem (padding x.bytes + 4) := by
  have hbyte : ∀ k, (recv x.bytes k).toNat ≤ (x.mem k).toNat := by
    intro k
    by_cases hk : k < x.bytes.length
    · exact Nat.le_of_eq (congrArg UInt8.toNat (x.mem_of_lt hk).symm)
    · rw [recv_of_le (by omega)]
      exact Nat.zero_le _
  have h0 := hbyte (padding x.bytes + 4)
  have h1 := hbyte (padding x.bytes + 4 + 1)
  simp only [lengthField, loadLe16]
  omega

/-- The same received bytes with other memory. -/
def fill (tail room : Mem) : Arrival := { x with tail, room, rooms := fun _ => room }

theorem same_fill (tail room : Mem) : x.Same (x.fill tail room) := rfl

theorem mem_fill_of_le (tail room : Mem) {k : Nat} (h : x.bytes.length ≤ k) : (x.fill tail room).mem k = tail k :=
  mem_of_le (x.fill tail room) h

theorem mem_fill_zero (room : Mem) : (x.fill (fun _ => 0) room).mem = recv x.bytes := by
  funext k
  by_cases hk : k < x.bytes.length
  · exact mem_of_lt (x.fill (fun _ => 0) room) hk
  · rw [x.mem_fill_of_le _ _ (Nat.not_lt.mp hk), recv_of_le (Nat.not_lt.mp hk)]

end Arrival

theorem magic_of_not_wrong {bs : List UInt8} (h2 : 2 ≤ left bs) (hno : ¬ WrongMagic bs) :
    loadLe16 (recv bs) (padding bs) = hgicHdrRxMagic := by
  have h0 : recv bs (padding bs) = 0x1A := by
    by_contra h
    exact hno (.inl ⟨by omega, h⟩)
  have h1 : recv bs (padding bs + 1) = 0x2B := by
    by_contra h
    exact hno (.inr ⟨h2, h⟩)
  rw [loadLe16, h0, h1]
  rfl

/-! ## Buffers that agree on the received bytes -/

section Congr
variable {e : Endian} {m m' : Mem} {N : Nat} (hm : ∀ k < N, m k = m' k)
include hm

theorem swap16_congr {off : Nat} (hoff : off + 2 ≤ N ∨ N ≤ off) : ∀ k < N, swap16 e m off k = swap16 e m' off k := by
  intro k hk
  rcases hoff with hoff | hoff
  · have hload : load16 e m off = load16 e m' off := load16_congr e (hm off (by omega)) (hm (off + 1) (by omega))
    unfold swap16 Mem.write
    rw [hload]
    split
    · rfl
    · exact hm k hk
  · rw [swap16_of_lt e m (by omega), swap16_of_lt e m' (by omega)]
    exact hm k hk

/-- A conversion moves bytes only within the fields: with the whole header, or with all of it but the cookie. -/
theorem hdrToCpu_congr {off : Nat} (hoff : off + 8 ≤ N ∨ N = off + 6) :
    ∀ k < N, hdrToCpu e m off k = hdrToCpu e m' off k := by
  apply swap16_congr _ (by omega)
  apply swap16_congr _ (by omega)
  exact swap16_congr hm (by omega)

end Congr

/-! ## Frames -/

section Frames
variable {h : Host} {env : Env}

theorem length_skbsOf (calls : List Call) : (skbsOf h env calls).length = calls.length := List.length_mapIdx

theorem skbsOf_append (calls : List Call) (c : Call) :
    skbsOf h env (calls ++ [c]) =
      skbsOf h env calls ++ [if env.alloc calls.length then some (c.skb h (env.room calls.length)) else none] := by
  unfold skbsOf
  rw [List.mapIdx_append]
  simp

/-- The same is seen of two devices: they made as many calls. -/
theorem length_calls_of_seen {env' : Env} {d d' : Dev h.word} (hseen : d.seen h env = d'.seen h env') :
    d.calls.length = d'.calls.length := by
  rw [← @length_skbsOf h env d.calls, ← @length_skbsOf h env' d'.calls]
  exact congrArg (fun s : Seen h.word => s.skbs.length) hseen

/-- The bytes of the copy, if its size is not negative. -/
def Call.packet (e : Endian) (c : Call) : List UInt8 := c.mem.read (c.data + hdrSize) (c.n e).toNat

/-- What a call of `hgicf_rx_single_frm` past its test adds. -/
def Dev.seenCall (h : Host) (env : Env) (d : Dev h.word) (c : Call) : Seen h.word where
  rxCookie := load16 h.endian c.mem (c.data + 6)
  rxBytes := d.rxBytes + BitVec.ofInt h.word c.len
  rxDropped := if env.alloc d.calls.length then d.rxDropped else d.rxDropped + BitVec.ofInt h.word (c.n h.endian)
  protocols :=
    if env.alloc d.calls.length then
      d.protocols ++
        [env.ethTypeTrans (ethHeader (env.room d.calls.length) (c.packet h.endian)) (c.packet h.endian)]
    else d.protocols
  skbs :=
    skbsOf h env d.calls ++ [if env.alloc d.calls.length then some (c.skb h (env.room d.calls.length)) else none]

theorem seen_single (hvif : env.vif.isSome) (m : Mem) (data L : Nat) (d : Dev h.word) :
    (hgicfRxSingleFrm h env m data L d).seen h env =
      if hdrSize < L then d.seenCall h env ⟨m, data, L⟩ else d.seen h env := by
  have habove : aboveHdr (L : Int) ↔ hdrSize < L := by
    unfold aboveHdr
    omega
  unfold hgicfRxSingleFrm
  simp only [hvif, true_and, habove]
  by_cases hL : hdrSize < L
  · rw [if_pos hL, if_pos hL]
    by_cases halloc : env.alloc d.calls.length = true
    · simp only [Dev.seen, Dev.seenCall, Call.packet, skbsOf_append, halloc, if_true]
    · simp only [Dev.seen, Dev.seenCall, skbsOf_append, halloc, if_false, Bool.false_eq_true]
  · rw [if_neg hL, if_neg hL]

theorem calls_single (hvif : env.vif.isSome) (m : Mem) (data L : Nat) (d : Dev h.word) :
    (hgicfRxSingleFrm h env m data L d).calls.length =
      if hdrSize < L then d.calls.length + 1 else d.calls.length := by
  have hseen := congrArg (fun s : Seen h.word => s.skbs.length) (seen_single hvif m data L d)
  simp only [Dev.seen, length_skbsOf] at hseen
  rw [hseen]
  split
  · rw [Dev.seenCall, List.length_append, length_skbsOf, List.length_singleton]
  · exact length_skbsOf _

theorem n_of_le {e : Endian} {m : Mem} {data L : Nat} (hle : hdrSize + hdrFlags e m data ≤ L) :
    Call.n e ⟨m, data, L⟩ = (L - (hdrSize + hdrFlags e m data) : Nat) := by
  show (L : Int) - (hdrSize + hdrFlags e m data : Nat) = _
  omega

theorem copied_of_le {m : Mem} {data L : Nat} (hlt : L < 65536) (hle : hdrSize + hdrFlags h.endian m data ≤ L) :
    Call.copied h ⟨m, data, L⟩ = m.read (data + hdrSize) (L - (hdrSize + hdrFlags h.endian m data)) := by
  rw [Call.copied, Call.copySize, n_of_le hle, toNat_ofInt_natCast h.word_ge (by omega)]

theorem packet_of_le {m : Mem} {data L : Nat} (hle : hdrSize + hdrFlags h.endian m data ≤ L) :
    Call.packet h.endian ⟨m, data, L⟩ = m.read (data + hdrSize) (L - (hdrSize + hdrFlags h.endian m data)) := by
  rw [Call.packet, n_of_le hle, Int.toNat_natCast]

/-- A packet with an Ethernet header hides what the skb held. -/
theorem ethHeader_of_le {packet : List UInt8} (h14 : ethHlen ≤ packet.length) (room room' : Mem) :
    ethHeader room packet = ethHeader room' packet := by
  apply read_congr
  intro k _ hk
  rw [write_zero _ _ (by omega), write_zero _ _ (by omega)]

theorem hdrFlags_congr (e : Endian) {m m' : Mem} {off : Nat} (hm : m (off + 3) = m' (off + 3)) :
    hdrFlags e m off = hdrFlags e m' off := by
  cases e with
  | little => rw [hdrFlags, hdrFlags, hm]
  | big => rw [hdrFlags, hdrFlags, hm]

theorem payload_congr {m m' : Mem} {N data L flags : Nat} (hm : ∀ k < N, m k = m' k) (hN : data + L ≤ N)
    (hle : hdrSize + flags ≤ L) :
    m.read (data + hdrSize) (L - (hdrSize + flags)) = m'.read (data + hdrSize) (L - (hdrSize + flags)) := by
  apply read_congr
  intro k _ hk
  exact hm k (by omega)

/-- A frame that lies in the received bytes with its padding and an Ethernet header. -/
theorem single_same (hvif : env.vif.isSome) {rooms rooms' : Nat → Mem} {m m' : Mem} {N data L : Nat}
    {d d' : Dev h.word} (hm : ∀ k < N, m k = m' k) (hN : data + L ≤ N) (hlt : L < 65536)
    (hfit : hdrSize < L → env.alloc d.calls.length → hdrSize + hdrFlags h.endian m data + ethHlen ≤ L)
    (hseen : d.seen h (env.withRooms rooms) = d'.seen h (env.withRooms rooms')) :
    (hgicfRxSingleFrm h (env.withRooms rooms) m data L d).seen h (env.withRooms rooms) =
      (hgicfRxSingleFrm h (env.withRooms rooms') m' data L d').seen h (env.withRooms rooms') := by
  have hcalls := length_calls_of_seen hseen
  have hvif0 : (env.withRooms rooms).vif.isSome := hvif
  have hvif1 : (env.withRooms rooms').vif.isSome := hvif
  rw [seen_single hvif0, seen_single hvif1]
  by_cases hL : hdrSize < L
  · rw [if_pos hL, if_pos hL]
    have h8 : 8 < L := hL
    have hflags := hdrFlags_congr h.endian (hm (data + 3) (by omega))
    have hcookie : load16 h.endian m (data + 6) = load16 h.endian m' (data + 6) :=
      load16_congr h.endian (hm _ (by omega)) (hm _ (by omega))
    have hn : Call.n h.endian ⟨m, data, L⟩ = Call.n h.endian ⟨m', data, L⟩ := by
      rw [Call.n, Call.n, hflags]
    have hbytes : d.rxBytes = d'.rxBytes := congrArg Seen.rxBytes hseen
    have hdropped : d.rxDropped = d'.rxDropped := congrArg Seen.rxDropped hseen
    have hprotocols : d.protocols = d'.protocols := congrArg Seen.protocols hseen
    have hskbs : skbsOf h (env.withRooms rooms) d.calls = skbsOf h (env.withRooms rooms') d'.calls :=
      congrArg Seen.skbs hseen
    have hsame : env.alloc d.calls.length →
        Call.packet h.endian ⟨m, data, L⟩ = Call.packet h.endian ⟨m', data, L⟩ ∧
        ethHlen ≤ (Call.packet h.endian ⟨m', data, L⟩).length ∧
        Call.copied h ⟨m, data, L⟩ = Call.packet h.endian ⟨m', data, L⟩ ∧
        Call.copied h ⟨m', data, L⟩ = Call.packet h.endian ⟨m', data, L⟩ := by
      intro halloc
      have h14 := hfit hL halloc
      have hle : hdrSize + hdrFlags h.endian m data ≤ L := by omega
      have hle' : hdrSize + hdrFlags h.endian m' data ≤ L := by
        rw [← hflags]
        exact hle
      have hread := payload_congr hm hN hle
      rw [packet_of_le hle, packet_of_le hle', copied_of_le hlt hle, copied_of_le hlt hle', ← hflags, length_read]
      exact ⟨hread, by omega, hread, rfl⟩
    unfold Dev.seenCall
    simp only
    rw [← hcalls, hcookie, hbytes, hdropped, hprotocols, hskbs, hn]
    by_cases halloc : env.alloc d.calls.length = true
    · obtain ⟨hpacket, h14, hcopied, hcopied'⟩ := hsame halloc
      have heth := ethHeader_of_le h14 (rooms d.calls.length) (rooms' d.calls.length)
      simp only [Env.withRooms, halloc, if_true, Call.skb]
      rw [hpacket, hcopied, hcopied', heth]
    · simp only [Env.withRooms, halloc, if_false, Bool.false_eq_true]
  · rw [if_neg hL, if_neg hL]
    exact hseen

theorem skbsOf_after (rooms : Nat → Mem) {n : Nat} {calls : List Call} (hn : calls.length ≤ n) :
    skbsOf h (env.withRooms (env.roomsAfter n rooms)) calls = skbsOf h env calls := by
  unfold skbsOf
  apply List.ext_getElem
  · rw [List.length_mapIdx, List.length_mapIdx]
  · intro k hk _
    have hlt : k < n := by
      rw [List.length_mapIdx] at hk
      omega
    have hroom : (env.withRooms (env.roomsAfter n rooms)).room k = env.room k := if_pos hlt
    rw [List.getElem_mapIdx, List.getElem_mapIdx, hroom]
    rfl

/-- Two walks at the same place of buffers that agree on their first `N` bytes, with the rest of the aggregate inside
them. -/
structure InStep (h : Host) (env env' : Env) (N : Nat) (s s' : Walk h.word) : Prop where
  data : s.data = s'.data
  len : s.len = s'.len
  nonneg : 0 ≤ s.len
  inside : (s.data : Int) + s.len ≤ N
  mem : ∀ k < N, s.mem k = s'.mem k
  seen : s.dev.seen h env = s'.dev.seen h env'

theorem InStep.subHdr {env' : Env} {N : Nat} {s s' : Walk h.word} (hs : InStep h env env' N s s')
    (h8 : (hdrSize : Int) < s.len) :
    (SubHdr s.mem s.data s.len ↔ SubHdr s'.mem s'.data s'.len) ∧
      loadLe16 s.mem (s.data + 4) = loadLe16 s'.mem (s'.data + 4) := by
  have hin := hs.inside
  unfold hdrSize at h8
  rw [← hs.data, ← hs.len]
  constructor
  · apply subHdr_congr
    intro k hk
    exact hs.mem _ (by omega)
  · exact load16_congr .little (hs.mem _ (by omega)) (hs.mem _ (by omega))

theorem InStep.mem_hdrToCpu {env' : Env} {N : Nat} {s s' : Walk h.word} (hs : InStep h env env' N s s')
    (h8 : (hdrSize : Int) < s.len) :
    ∀ k < N, hdrToCpu h.endian s.mem s.data k = hdrToCpu h.endian s'.mem s.data k := by
  have hin := hs.inside
  unfold hdrSize at h8
  exact hdrToCpu_congr hs.mem (by omega)

theorem flags_hdrToCpu (e : Endian) (m : Mem) (off : Nat) : hdrFlags e (hdrToCpu e m off) off = hdrFlags e m off :=
  hdrFlags_congr e (hdrToCpu_other e m off (by omega))

theorem InStep.next (hvif : env.vif.isSome) {rooms rooms' : Nat → Mem} {N : Nat} {s s' : Walk h.word}
    (hs : InStep h (env.withRooms rooms) (env.withRooms rooms') N s s')
    (h8 : (hdrSize : Int) < s.len) (hsub : SubHdr s.mem s.data s.len)
    (hfit : hdrSize < loadLe16 s.mem (s.data + 4) → env.alloc s.dev.calls.length →
      hdrSize + hdrFlags h.endian s.mem s.data + ethHlen ≤ loadLe16 s.mem (s.data + 4)) :
    InStep h (env.withRooms rooms) (env.withRooms rooms') N (nextWalk h (env.withRooms rooms) s)
      (nextWalk h (env.withRooms rooms') s') := by
  obtain ⟨-, hlength⟩ := hs.subHdr h8
  have hle := hsub.2.2
  have hin := hs.inside
  have hmem := hs.mem_hdrToCpu h8
  constructor
  · simp only [nextWalk]
    rw [hlength, hs.data]
  · simp only [nextWalk]
    rw [hlength, hs.len]
  · simp only [nextWalk]
    omega
  · simp only [nextWalk]
    omega
  · simp only [nextWalk]
    rw [← hs.data]
    exact hmem
  · simp only [nextWalk]
    rw [← hlength, ← hs.data]
    apply single_same hvif hmem (by omega) (loadLe16_lt _ _) _ hs.seen
    rw [flags_hdrToCpu]
    exact hfit

theorem calls_nextWalk (hvif : env.vif.isSome) (s : Walk h.word) :
    (nextWalk h env s).dev.calls.length =
      if hdrSize < loadLe16 s.mem (s.data + 4) then s.dev.calls.length + 1 else s.dev.calls.length :=
  calls_single hvif _ _ _ _

/-- After any number of passes the same is seen, while the sub-frames hold Ethernet headers. -/
theorem InStep.passes_seen (hvif : env.vif.isSome) {rooms rooms' : Nat → Mem} {N : Nat} (n : Nat) {s s' : Walk h.word}
    (hs : InStep h (env.withRooms rooms) (env.withRooms rooms') N s s')
    (hknown : FramesKnown h.endian env.alloc n s.mem s.data s.len s.dev.calls.length) :
    (passes (aggPass h (env.withRooms rooms)) n s).state.dev.seen h (env.withRooms rooms) =
      (passes (aggPass h (env.withRooms rooms')) n s').state.dev.seen h (env.withRooms rooms') := by
  induction n generalizing s s' with
  | zero => exact hs.seen
  | succ n ih =>
    have h0 := hs.nonneg
    by_cases h8 : (hdrSize : Int) < s.len
    · obtain ⟨hsub, -⟩ := hs.subHdr h8
      have h8' : (hdrSize : Int) < s'.len := hs.len ▸ h8
      by_cases hok : SubHdr s.mem s.data s.len
      · obtain ⟨hfit, hrest⟩ := hknown h8 hok
        rw [passes_again (aggPass_of_subHdr h _ (.inr h8) hok),
          passes_again (aggPass_of_subHdr h _ (.inr h8') (hsub.mp hok))]
        apply ih (hs.next hvif h8 hok hfit)
        rw [@calls_nextWalk h (env.withRooms rooms) hvif]
        exact hrest
      · rw [passes_leave (aggPass_of_not_subHdr h _ (.inr h8) hok),
          passes_leave (aggPass_of_not_subHdr h _ (.inr h8') (mt hsub.mpr hok))]
        exact hs.seen
    · have hshort : ¬ aboveHdr s.len := by
        unfold aboveHdr
        omega
      rw [passes_leave (aggPass_of_short h _ hshort), passes_leave (aggPass_of_short h _ (hs.len ▸ hshort))]
      exact hs.seen

/-- A loop that starts with a negative length does nothing that is seen. -/
theorem passes_seen_of_neg {s : Walk h.word} (hneg : s.len < 0) (n : Nat) :
    (passes (aggPass h env) n s).state.dev = s.dev := by
  have hno : ¬ SubHdr s.mem s.data s.len := by
    intro hsub
    have := hsub.nonneg
    omega
  cases n with
  | zero => rfl
  | succ n =>
    rw [passes_leave (aggPass_of_not_subHdr h env (.inl hneg) hno)]
    rfl

section Start
variable {rooms rooms' : Nat → Mem} {m m' : Mem} {N i L : Nat} {d : Dev h.word} (hm : ∀ k < N, m k = m' k)
  (h8 : i + 8 ≤ N) (hcalls : skbsOf h (env.withRooms rooms) d.calls = skbsOf h (env.withRooms rooms') d.calls)
include hm h8 hcalls

theorem seen_start : (hgicfRxAggFrm h m i L d).dev.seen h (env.withRooms rooms) =
    (hgicfRxAggFrm h m' i L d).dev.seen h (env.withRooms rooms') := by
  have hcookie : load16 h.endian m (i + 6) = load16 h.endian m' (i + 6) :=
    load16_congr h.endian (hm _ (by omega)) (hm _ (by omega))
  simp only [hgicfRxAggFrm, Dev.seen, hcookie, hcalls]

theorem InStep.start (hL : hdrSize ≤ L) (hend : i + L ≤ N) :
    InStep h (env.withRooms rooms) (env.withRooms rooms') N (hgicfRxAggFrm h m i L d) (hgicfRxAggFrm h m' i L d) := by
  refine ⟨rfl, rfl, ?_, ?_, hm, seen_start hm h8 hcalls⟩
  · show (0 : Int) ≤ L - hdrSize
    omega
  · show ((i + hdrSize : Nat) : Int) + (L - hdrSize) ≤ N
    omega

/-- `hgicf_rx_agg_frm` on buffers that agree on the header and on the declared length. -/
theorem seen_aggregate (hvif : env.vif.isSome) (hend : i + L ≤ N)
    (hknown : ∀ n, FramesKnown h.endian env.alloc n m (i + hdrSize) (L - hdrSize) d.calls.length) (n : Nat) :
    (passes (aggPass h (env.withRooms rooms)) n (hgicfRxAggFrm h m i L d)).state.dev.seen h (env.withRooms rooms) =
      (passes (aggPass h (env.withRooms rooms')) n (hgicfRxAggFrm h m' i L d)).state.dev.seen h
        (env.withRooms rooms') := by
  by_cases hL : hdrSize ≤ L
  · exact (InStep.start hm h8 hcalls hL hend).passes_seen hvif n (hknown n)
  · have hneg : ∀ m, (hgicfRxAggFrm h m i L d).len < 0 := by
      intro m
      show (L : Int) - hdrSize < 0
      omega
    rw [passes_seen_of_neg (hneg m), passes_seen_of_neg (hneg m'), seen_start hm h8 hcalls]

end Start

end Frames

/-! ## Control packets -/

theorem fwctrlRx_eq (h : Host) (m : Mem) (data : Nat) {n : Nat} (hn : n < 2 ^ 31) (room : Mem) :
    hgicFwctrlRx h m data n room = ⟨room.write 0 (m.read data n), n⟩ := by
  rw [hgicFwctrlRx, toNat_ofInt_natCast h.word_ge (by omega), toNat_ofInt_natCast (Nat.le_refl 32) (by omega)]

section Skb
variable {e : Endian} {c : List UInt8} {room : Mem}

theorem type_skb (h3 : 3 ≤ c.length) : hdrType (room.write 0 c) 0 = (c.getD 2 0).toNat := by
  rw [hdrType, write_zero _ _ (by omega)]

/-- With the whole header, the dispatch does not read the room behind the packet. -/
theorem work_of_header (h8 : 8 ≤ c.length) (room' : Mem) :
    hgicFwctrlWork e (room.write 0 c) = hgicFwctrlWork e (room'.write 0 c) := by
  have hcookie : load16 e (room.write 0 c) 6 = load16 e (room'.write 0 c) 6 := by
    apply load16_congr e
    · rw [write_zero _ _ (by omega), write_zero _ _ (by omega)]
    · rw [write_zero _ _ (by omega), write_zero _ _ (by omega)]
  funext pdList
  rw [hgicFwctrlWork, hgicFwctrlWork, type_skb (by omega), type_skb (by omega), hgicFwctrlRxResponse,
    hgicFwctrlRxResponse, hcookie]

theorem work_of_event (h3 : 3 ≤ c.length) (hev : (c.getD 2 0).toNat ∈ eventTypes) :
    hgicFwctrlWork e (room.write 0 c) = fun _ => .event := by
  have hno : (c.getD 2 0).toNat ∉ responseTypes := by
    revert hev
    generalize (c.getD 2 0).toNat = t
    simp only [eventTypes, responseTypes, HdrType.byte, List.mem_cons, List.not_mem_nil, or_false]
    omega
  funext pdList
  rw [hgicFwctrlWork, type_skb h3, if_neg hno, if_pos hev]

theorem work_of_high (h7 : 7 ≤ c.length) (hresp : (c.getD 2 0).toNat ∈ responseTypes) (hhigh : 0x80 ≤ c.getD 6 0) :
    hgicFwctrlWork .big (room.write 0 c) = fun _ => .unclaimed := by
  have hcookie : hgicTxCookieMask < load16 .big (room.write 0 c) 6 := by
    rw [load16, write_zero _ _ (by omega)]
    have : 128 ≤ (c.getD 6 0).toNat := hhigh
    unfold hgicTxCookieMask
    omega
  funext pdList
  have hnone : pdList.findIdx? (fun p => p.val == load16 .big (room.write 0 c) 6) = none := by
    rw [List.findIdx?_eq_none_iff]
    intro p _
    have := p.isLt
    rw [beq_eq_false_iff_ne]
    omega
  rw [hgicFwctrlWork, type_skb (by omega), if_pos hresp, hgicFwctrlRxResponse, hnone]

/-- A packet that ends before the last byte of its cookie is dispatched by what the skb held: for a response whose
cookie could still be that of a request, or before the type. -/
theorem work_depends (h8 : c.length < 8) (hresp : 3 ≤ c.length → (c.getD 2 0).toNat ∈ responseTypes)
    (hhigh : c.length = 7 → e = .big → c.getD 6 0 < 0x80) :
    hgicFwctrlWork e (Mem.write (fun _ => 0) 0 c) ≠ hgicFwctrlWork e (Mem.write (fun _ => 4) 0 c) := by
  intro heq
  have hroom : ∀ (b : UInt8) k, c.length ≤ k → Mem.write (fun _ => b) 0 c k = b := by
    intro b k hk
    exact write_of_le _ _ (by omega)
  by_cases h3 : 3 ≤ c.length
  · -- the cookie that the zeros make up
    have hlast : ∀ b : UInt8, Mem.write (fun _ => b) 0 c 7 = b := fun b => hroom b 7 (by omega)
    have hsix : ∀ b : UInt8, Mem.write (fun _ => b) 0 c 6 = if c.length = 7 then c.getD 6 0 else b := by
      intro b
      split
      · exact write_zero _ _ (by omega)
      · exact hroom b 6 (by omega)
    have hle : load16 e (Mem.write (fun _ => 0) 0 c) 6 ≤ hgicTxCookieMask := by
      have hlt := (c.getD 6 0).toNat_lt
      cases e with
      | little =>
        simp only [load16, loadLe16, hlast, hsix, hgicTxCookieMask]
        split
        · show (c.getD 6 0).toNat + 256 * 0 ≤ 0x7FFF
          omega
        · decide
      | big =>
        simp only [load16, hlast, hsix, hgicTxCookieMask]
        split
        · next h7 =>
          have : (c.getD 6 0).toNat < 128 := hhigh h7 rfl
          show 256 * (c.getD 6 0).toNat + 0 ≤ 0x7FFF
          omega
        · decide
    have hne : load16 e (Mem.write (fun _ => 0) 0 c) 6 ≠ load16 e (Mem.write (fun _ => 4) 0 c) 6 := by
      cases e with
      | little =>
        simp only [load16, loadLe16, hlast, hsix]
        split
        · simp
        · decide
      | big =>
        simp only [load16, hlast, hsix]
        split
        · simp
        · decide
    have hpd := congrFun heq [⟨load16 e (Mem.write (fun _ => 0) 0 c) 6, Nat.lt_succ_of_le hle⟩]
    simp only [hgicFwctrlWork, type_skb h3, if_pos (hresp h3), hgicFwctrlRxResponse, List.findIdx?_cons,
      List.findIdx?_nil, beq_self_eq_true, if_true, beq_iff_eq, hne, if_false, Option.map_none] at hpd
    cases hpd
  · -- the type is read behind the packet
    have htype : ∀ b : UInt8, hdrType (Mem.write (fun _ => b) 0 c) 0 = b.toNat := by
      intro b
      rw [hdrType, hroom b _ (by omega)]
    have hpd := congrFun heq []
    rw [hgicFwctrlWork, hgicFwctrlWork, htype, htype, if_neg (by decide), if_neg (by decide), if_neg (by decide),
      if_pos (by decide)] at hpd
    cases hpd

end Skb

/-! ## What the received bytes decide -/

section Known
variable {h : Host} {env : Env} {queues : Bool} {d : Dev h.word} {x : Arrival}

theorem effects_wrongMagic (hwrong : WrongMagic x.bytes) : effects h env queues d x = .invalid := by
  have h1 : 1 ≤ left x.bytes := by
    rcases hwrong with ⟨h1, -⟩ | ⟨h2, -⟩
    · exact h1
    · omega
  have hmagic : loadLe16 x.mem (padding x.bytes) ≠ hgicHdrRxMagic := by
    intro hmagic
    have hlo := (x.mem (padding x.bytes)).toNat_lt
    have hhi := (x.mem (padding x.bytes + 1)).toNat_lt
    simp only [loadLe16, hgicHdrRxMagic] at hmagic
    rcases hwrong with ⟨h1, hne⟩ | ⟨h2, hne⟩
    · have h0 : x.mem (padding x.bytes) = recv x.bytes (padding x.bytes) := x.mem_hdr (k := 0) h1
      rw [← h0] at hne
      exact hne (UInt8.toNat_inj.mp (show (x.mem (padding x.bytes)).toNat = 0x1A by omega))
    · rw [← x.mem_hdr (by omega)] at hne
      exact hne (UInt8.toNat_inj.mp (show (x.mem (padding x.bytes + 1)).toNat = 0x2B by omega))
  unfold effects received
  rw [rxData_magic h _ d (x.skipPadding_mem h1) hmagic]

theorem len_sub_padding (x : Arrival) : (x.bytes.length : Int) - padding x.bytes = left x.bytes := by
  have := padding_add_left x.bytes
  omega

variable (h3 : 3 ≤ left x.bytes) (hno : ¬ WrongMagic x.bytes)
include h3 hno

theorem magic_received : loadLe16 x.mem (padding x.bytes) = hgicHdrRxMagic := by
  rw [x.magic_mem (by omega)]
  exact magic_of_not_wrong (by omega) hno

theorem effects_tooLong (htype : typeField x.bytes ≠ HdrType.bootdl.byte)
    (hlt : left x.bytes < loadLe16 x.mem (padding x.bytes + 4)) : effects h env queues d x = .invalid := by
  have hlen := len_sub_padding x
  unfold effects received
  rw [rxData_tooLong h _ d (x.skipPadding_mem (by omega)) (magic_received h3 hno) (by omega)
    (by rw [x.type_mem h3]; exact htype)]

theorem rxData_received (hle : loadLe16 x.mem (padding x.bytes + 4) ≤ left x.bytes) :
    received h env d x =
      admitted h (x.env env d) x.mem (padding x.bytes) (loadLe16 x.mem (padding x.bytes + 4)) d := by
  have hlen := len_sub_padding x
  exact rxData_admitted h _ d (x.skipPadding_mem (by omega)) (magic_received h3 hno) (by omega)

/-- A packet of the boot loader: what is handed on is at most what was received. -/
theorem rxData_bootdl_received (htype : typeField x.bytes = HdrType.bootdl.byte) :
    received h env d x =
      .control (padding x.bytes) (min (left x.bytes) (loadLe16 x.mem (padding x.bytes + 4)) : Nat) := by
  have hlen := len_sub_padding x
  have htype' : hdrType x.mem (padding x.bytes) = HdrType.bootdl.byte := (x.type_mem h3).trans htype
  rw [received, rxData_bootdl h _ d (x.skipPadding_mem (by omega)) (magic_received h3 hno) htype']
  congr 1
  split <;> omega

end Known

section Control
variable {h : Host} {env : Env} {queues : Bool} {d : Dev h.word} {x : Arrival} {i : Nat}

def copyOf (e : Endian) (m : Mem) (i n : Nat) : List UInt8 := (hdrToCpu e m i).read i n

theorem effects_unqueued {len : Int} (hrx : received h env d x = .control i len) :
    effects h env false d x = .control none := by
  unfold effects
  rw [hrx]
  rfl

theorem effects_queued {n : Nat} (hrx : received h env d x = .control i n) (hn : n < 2 ^ 31) :
    effects h env true d x = .control (some (copyOf h.endian x.mem i n,
      hgicFwctrlWork h.endian (x.room.write 0 (copyOf h.endian x.mem i n)))) := by
  have hread : (x.room.write 0 (copyOf h.endian x.mem i n)).read 0 n = copyOf h.endian x.mem i n := by
    have := read_write_self x.room 0 (copyOf h.endian x.mem i n)
    rw [copyOf, length_read] at this
    exact this
  unfold effects
  rw [hrx]
  simp only [if_true, fwctrlRx_eq h _ _ hn]
  rw [← copyOf, hread]

theorem length_copyOf (e : Endian) (m : Mem) (i n : Nat) : (copyOf e m i n).length = n := length_read _ _ _

theorem copyOf_type (e : Endian) (m : Mem) (i : Nat) {n : Nat} (h3 : 3 ≤ n) :
    ((copyOf e m i n).getD 2 0).toNat = hdrType m i := by
  rw [copyOf, getD_read _ _ (by omega), hdrToCpu_other e m i (by omega), hdrType]

/-- A big-endian host stores the high byte of the cookie first. -/
theorem copyOf_high (m : Mem) (i : Nat) {n : Nat} (h7 : 7 ≤ n) : (copyOf .big m i n).getD 6 0 = m (i + 7) := by
  have hcookie := cookie_hdrToCpu .big m i
  have h0 := (hdrToCpu .big m i (i + 6 + 1)).toNat_lt
  have h1 := (m (i + 6)).toNat_lt
  simp only [load16, loadLe16] at hcookie
  rw [copyOf, getD_read _ _ (by omega)]
  exact UInt8.toNat_inj.mp (show _ = (m (i + 6 + 1)).toNat by omega)

/-- The copies of packets that agree on the received bytes: the conversion must not move a byte from behind them. -/
theorem copyOf_same {e : Endian} {bs : List UInt8} {m : Mem} (hm : ∀ k < bs.length, recv bs k = m k) {n : Nat}
    (h6 : 6 ≤ left bs) (hn : n ≤ left bs) (hmove : e = .little ∨ n ≠ 7 ∨ 8 ≤ left bs) :
    copyOf e (recv bs) (padding bs) n = copyOf e m (padding bs) n := by
  have hsum := padding_add_left bs
  apply read_congr
  intro k _ hk
  by_cases h8 : 8 ≤ left bs
  · exact hdrToCpu_congr hm (by omega) k (by omega)
  · cases e with
    | little =>
      rw [hdrToCpu_little, hdrToCpu_little]
      exact hm k (by omega)
    | big =>
      have h7 : n ≠ 7 := by
        rcases hmove with hmove | hmove | hmove
        · cases hmove
        · exact hmove
        · exact absurd hmove h8
      have hm6 : ∀ j < padding bs + 6, recv bs j = m j := fun j hj => hm j (by omega)
      exact hdrToCpu_congr hm6 (.inr rfl) k (by omega)

/-- What is queued for `n` bytes when nothing but zeros lies behind the received bytes and in the skb. -/
def zeroQueued (e : Endian) (bs : List UInt8) (n : Nat) : List UInt8 × (List PdCookie → Dispatch) :=
  (copyOf e (recv bs) (padding bs) n,
    hgicFwctrlWork e (Mem.write (fun _ => 0) 0 (copyOf e (recv bs) (padding bs) n)))

variable {n : Nat} (hrx : received h env d x = .control (padding x.bytes) n)
  (hn : n ≤ left x.bytes)
include hrx hn

theorem effects_response (h8 : 8 ≤ left x.bytes) (hresp : typeField x.bytes ∈ responseTypes)
    (hck : 8 ≤ n ∨ n = 7 ∧ h.endian = .big ∧ 0x80 ≤ recv x.bytes (padding x.bytes + 7)) :
    effects h env true d x = .control (some (zeroQueued h.endian x.bytes n)) := by
  have hsum := padding_add_left x.bytes
  have hlt := x.len_lt
  have hcopy := @copyOf_same h.endian _ _ (fun k hk => (x.mem_of_lt hk).symm) n (by omega) hn (.inr (.inr h8))
  rw [effects_queued hrx (by omega), ← hcopy, zeroQueued]
  congr 3
  rcases hck with hge | ⟨rfl, hbig, hhigh⟩
  · exact work_of_header (by rw [length_copyOf]; exact hge) _
  · have htype := copyOf_type .big (recv x.bytes) (padding x.bytes) (by decide : 3 ≤ 7)
    have hsix := copyOf_high (recv x.bytes) (padding x.bytes) (Nat.le_refl 7)
    have h7 : 7 ≤ (copyOf .big (recv x.bytes) (padding x.bytes) 7).length := Nat.le_of_eq (length_copyOf _ _ _ _).symm
    rw [hbig, work_of_high h7 (by rw [htype]; exact hresp) (by rw [hsix]; exact hhigh),
      work_of_high h7 (by rw [htype]; exact hresp) (by rw [hsix]; exact hhigh)]

theorem effects_event (h6 : 6 ≤ left x.bytes) (hev : typeField x.bytes ∈ eventTypes) (h3 : 3 ≤ n)
    (hmove : h.endian = .little ∨ n ≠ 7 ∨ 8 ≤ left x.bytes) :
    effects h env true d x = .control (some (zeroQueued h.endian x.bytes n)) := by
  have hsum := padding_add_left x.bytes
  have hlt := x.len_lt
  have hcopy := copyOf_same (fun k hk => (x.mem_of_lt hk).symm) h6 hn hmove
  have htype := copyOf_type h.endian (recv x.bytes) (padding x.bytes) h3
  have hlen : 3 ≤ (copyOf h.endian (recv x.bytes) (padding x.bytes) n).length := by
    rw [length_copyOf]
    exact h3
  rw [effects_queued hrx (by omega), ← hcopy, zeroQueued, work_of_event hlen (by rw [htype]; exact hev),
    work_of_event hlen (by rw [htype]; exact hev)]

end Control

/-! ## Covered buffers -/

section Covered
variable {h : Host} {env : Env} {queues : Bool} {d : Dev h.word} {x : Arrival}

abbrev Env.zeroed (env : Env) {w : Nat} (d : Dev w) : Env :=
  env.withRooms (env.roomsAfter d.calls.length fun _ _ => 0)

theorem skbsOf_arrival (env : Env) (d : Dev h.word) (x : Arrival) :
    skbsOf h (env.zeroed d) d.calls = skbsOf h (x.env env d) d.calls :=
  (skbsOf_after _ (Nat.le_refl _)).trans (skbsOf_after _ (Nat.le_refl _)).symm

theorem seen_frame (hvif : env.vif.isSome) (hle : lengthField x.bytes ≤ left x.bytes)
    (hfit : hdrSize < lengthField x.bytes → env.alloc d.calls.length →
      hdrSize + hdrFlags h.endian (recv x.bytes) (padding x.bytes) + ethHlen ≤ lengthField x.bytes) :
    let frame (env : Env) (m : Mem) :=
      (hgicfRxSingleFrm h env (hdrToCpu h.endian m (padding x.bytes)) (padding x.bytes) (lengthField x.bytes) d).seen h env
    frame (env.zeroed d) (recv x.bytes) = frame (x.env env d) x.mem := by
  intro frame
  have hsum := padding_add_left x.bytes
  have hseen : d.seen h (env.zeroed d) = d.seen h (x.env env d) := by
    rw [Dev.seen, skbsOf_arrival]
    rfl
  by_cases hL : hdrSize < lengthField x.bytes
  · unfold hdrSize at hL
    have hmem := @hdrToCpu_congr h.endian _ _ _ (fun k hk => (x.mem_of_lt hk).symm) (padding x.bytes) (by omega)
    have hlt : lengthField x.bytes < 65536 := loadLe16_lt _ _
    have hend : padding x.bytes + lengthField x.bytes ≤ x.bytes.length := by omega
    refine single_same hvif hmem hend hlt ?_ hseen
    rw [flags_hdrToCpu]
    exact hfit
  · have hvif0 : (env.zeroed d).vif.isSome := hvif
    have hvif1 : (x.env env d).vif.isSome := hvif
    simp only [frame]
    rw [seen_single hvif0, seen_single hvif1, if_neg hL, if_neg hL, hseen]

/-- The effects of a buffer that passes the tests, when only its received bytes are looked at. -/
def knownEffect (h : Host) (env : Env) (queues : Bool) (d : Dev h.word) (bs : List UInt8) : Effect h.word :=
  if typeField bs = HdrType.frm2.byte ∨ typeField bs = HdrType.aggfrm.byte then
    if env.vif.isNone ∨ env.ifTest ≠ 0 then .dropped
    else if typeField bs = HdrType.aggfrm.byte then
      .frames fun n => (passes (aggPass h (env.zeroed d)) n (hgicfRxAggFrm h (hdrToCpu h.endian (recv bs) (padding bs))
        (padding bs) (lengthField bs) d)).state.dev.seen h (env.zeroed d)
    else .frames fun _ => (hgicfRxSingleFrm h (env.zeroed d) (hdrToCpu h.endian (recv bs) (padding bs)) (padding bs)
      (lengthField bs) d).seen h (env.zeroed d)
  else if typeField bs ∈ controlTypes then
    .control (if queues then some (zeroQueued h.endian bs (lengthField bs)) else none)
  else if typeField bs = HdrType.test2.byte then .testData (lengthField bs)
  else if typeField bs = HdrType.softfc.byte then .window (loadLe16 (recv bs) (padding bs + 6))
  else .unknown

theorem mem_controlTypes_iff (t : Nat) : t ∈ controlTypes ↔ t ∈ eventTypes ∨ t ∈ responseTypes := by
  simp only [controlTypes, eventTypes, responseTypes, HdrType.byte, List.mem_cons, List.not_mem_nil, or_false]
  omega

theorem effects_bodyKnown (h6 : 6 ≤ left x.bytes) (hno : ¬ WrongMagic x.bytes)
    (hle : lengthField x.bytes ≤ left x.bytes) (hbody : BodyKnown h env queues d x.bytes) :
    effects h env queues d x = knownEffect h env queues d x.bytes := by
  have hrx := @rxData_received h env d x (by omega) hno (by rw [x.length_mem h6]; exact hle)
  have hopen : (x.env env d).vif.isNone ∨ (x.env env d).ifTest ≠ 0 ↔ env.vif.isNone ∨ env.ifTest ≠ 0 := Iff.rfl
  rw [x.length_mem h6, admitted, x.type_mem (by omega)] at hrx
  simp only [hopen] at hrx
  unfold BodyKnown at hbody
  unfold knownEffect
  by_cases hdata : typeField x.bytes = HdrType.frm2.byte ∨ typeField x.bytes = HdrType.aggfrm.byte
  · rw [if_pos hdata] at hbody hrx ⊢
    by_cases hvif : env.vif.isNone ∨ env.ifTest ≠ 0
    · rw [if_pos hvif] at hrx ⊢
      rw [effects, hrx]
    · replace hbody := hbody.resolve_left hvif
      have hsome := isSome_of_not_isNone hvif
      rw [if_neg hvif] at hrx ⊢
      by_cases hagg : typeField x.bytes = HdrType.aggfrm.byte
      · rw [if_pos hagg] at hbody hrx ⊢
        obtain ⟨h8, hknown⟩ := hbody
        have hsum := padding_add_left x.bytes
        have hmem := @hdrToCpu_congr h.endian _ _ _ (fun k hk => (x.mem_of_lt hk).symm) (padding x.bytes) (by omega)
        rw [effects, hrx]
        have hseen := seen_aggregate hmem (by omega) (skbsOf_arrival env d x) hsome (by omega) hknown
        exact congrArg Effect.frames (funext fun n => (hseen n).symm)
      · rw [if_neg hagg] at hbody hrx ⊢
        rw [effects, hrx]
        exact congrArg Effect.frames (funext fun _ => (seen_frame hsome hle hbody).symm)
  · rw [if_neg hdata] at hbody hrx ⊢
    by_cases hctrl : typeField x.bytes ∈ controlTypes
    · rw [if_pos hctrl] at hrx ⊢
      cases queues with
      | false => exact effects_unqueued hrx
      | true =>
        by_cases hev : typeField x.bytes ∈ eventTypes
        · rw [if_pos hev] at hbody
          obtain ⟨h3, hmove⟩ := hbody.resolve_left (by decide)
          exact effects_event hrx hle h6 hev h3 hmove
        · have hresp := ((mem_controlTypes_iff _).mp hctrl).resolve_left hev
          rw [if_neg hev, if_pos hresp] at hbody
          obtain ⟨h8, hck⟩ := hbody.resolve_left (by decide)
          exact effects_response hrx hle h8 hresp hck
    · have hev : typeField x.bytes ∉ eventTypes := fun hev => hctrl ((mem_controlTypes_iff _).mpr (.inl hev))
      have hresp : typeField x.bytes ∉ responseTypes := fun hr => hctrl ((mem_controlTypes_iff _).mpr (.inr hr))
      rw [if_neg hev, if_neg hresp] at hbody
      rw [if_neg hctrl] at hrx ⊢
      by_cases htest : typeField x.bytes = HdrType.test2.byte
      · rw [if_pos htest] at hrx ⊢
        rw [effects, hrx]
      · rw [if_neg htest] at hrx ⊢
        by_cases hfc : typeField x.bytes = HdrType.softfc.byte
        · rw [if_pos hfc] at hbody hrx ⊢
          rw [effects, hrx]
          have hcookie : loadLe16 x.mem (padding x.bytes + 6) = loadLe16 (recv x.bytes) (padding x.bytes + 6) :=
            load16_congr .little (x.mem_hdr (by omega)) (x.mem_hdr (k := 7) (by omega))
          rw [hcookie]
        · rw [if_neg hfc] at hrx ⊢
          rw [effects, hrx]

theorem effects_bootdl (h3 : 3 ≤ left x.bytes) (hno : ¬ WrongMagic x.bytes)
    (htype : typeField x.bytes = HdrType.bootdl.byte) (hck : queues = false ∨ CookieKnown h.endian x.bytes) :
    effects h env queues d x = .control
      (if queues then some (zeroQueued h.endian x.bytes (min (left x.bytes) (lengthField x.bytes))) else none) := by
  have hrx := @rxData_bootdl_received h env d x h3 hno htype
  cases queues with
  | false => exact effects_unqueued hrx
  | true =>
    obtain ⟨h8, hck⟩ := hck.resolve_left (by decide)
    rw [x.length_mem (by omega)] at hrx
    apply effects_response hrx (Nat.min_le_left _ _) h8 (by rw [htype]; decide)
    rcases hck with hge | ⟨h7, hbig, hhigh⟩
    · exact .inl (by omega)
    · exact .inr ⟨by omega, hbig, hhigh⟩

theorem determined_of_covered (hcov : Covered h env queues d x.bytes) :
    Determined Arrival.Same (effects h env queues d) x := by
  rintro ⟨bs, tail, room, hlt⟩ hsame
  obtain rfl : x.bytes = bs := hsame
  by_cases hwrong : WrongMagic x.bytes
  · exact Eq.trans (effects_wrongMagic hwrong) (effects_wrongMagic hwrong).symm
  · obtain ⟨h3, hcov⟩ := hcov.resolve_left hwrong
    by_cases htype : typeField x.bytes = HdrType.bootdl.byte
    · rw [if_pos htype] at hcov
      exact Eq.trans (effects_bootdl h3 hwrong htype hcov) (effects_bootdl h3 hwrong htype hcov).symm
    · rw [if_neg htype] at hcov
      by_cases hlong : left x.bytes < lengthField x.bytes
      · have hinvalid : ∀ y : Arrival, x.bytes = y.bytes → effects h env queues d y = .invalid := by
          intro y hy
          rw [hy] at h3 hwrong htype hlong
          exact effects_tooLong h3 hwrong htype (Nat.lt_of_lt_of_le hlong y.lengthField_le)
        exact Eq.trans (hinvalid _ rfl) (hinvalid x rfl).symm
      · obtain ⟨h6, hbody⟩ := hcov.resolve_left hlong
        exact Eq.trans (effects_bodyKnown h6 hwrong (Nat.not_lt.mp hlong) hbody)
          (effects_bodyKnown h6 hwrong (Nat.not_lt.mp hlong) hbody).symm

end Covered

end HgicFmac.RxData
