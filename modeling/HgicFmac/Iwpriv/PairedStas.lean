import HgicFmac.Iwpriv.PickMac
import HgicFmac.Iwpriv.Set

/-!
# Lists of addresses: `hgic_iwpriv_set_paired_stas`

* `pairedLoopIn`, `hgicIwprivSetPairedStasIn` : the handler, with the bytes behind the copies of `hgic_pick_macaddr`;
* `set_paired_stas_sends` : addresses between commas are sent as their bytes;
* `Access`, `pairedAccesses` : the value and the buffer as the handler reads and writes them (`setPairedStas_runs` :
  with them inside there is no fault);
* `Reached` : the elements of the list that the loop comes to;
* `paired_inside_iff` : the accesses are inside when each of these elements starts 16 characters before the end.
-/

namespace HgicFmac.Iwpriv
open Lib Fwctrl

/-- `tail i` is what lies behind the 17 characters in the call `i` of `hgic_pick_macaddr`. -/
def pairedLoopIn (tail : Nat → List UInt8) : (fuel i : Nat) → (ptr : List UInt8) → Run (List UInt8)
  | 0, _, _ => .ok []
  | _ + 1, _, [] => .ok []
  | n + 1, i, b :: s =>
    if b = 0 then .ok []
    else match strchr 44 (b :: s) with
      | some (field, rest) => do
        let mac ← hgicPickMacaddrIn (tail i) (field ++ 0 :: rest)
        if mac.2 then (mac.1 ++ ·) <$> pairedLoopIn tail n (i + 1) rest else .ok []
      | none => do
        let mac ← hgicPickMacaddrIn (tail i) (b :: s)
        .ok (if mac.2 then mac.1 else [])

def hgicIwprivSetPairedStasIn (tail : Nat → List UInt8) : SetHandler := setNonempty fun env ifidx v =>
  if env.kmem then
    (hgicFwctrlSetBytes env ifidx HgicCmd.setPairedStations ·) <$> pairedLoopIn tail v.length 0 v
  else .ok ⟨enomem, none⟩

theorem pairedLoopIn_nil (n i : Nat) (ptr : List UInt8) : pairedLoopIn (fun _ => []) n i ptr = pairedLoop n ptr := by
  induction n generalizing i ptr with
  | zero => rfl
  | succ n ih =>
    cases ptr with
    | nil => rfl
    | cons b s =>
      rw [pairedLoopIn, pairedLoop]
      by_cases hb : b = 0
      · rw [if_pos hb, if_pos hb]
      · rw [if_neg hb, if_neg hb]
        cases strchr 44 (b :: s) with
        | none =>
          dsimp only
          rw [pickMacaddrIn_nil]
        | some r =>
          dsimp only
          simp only [pickMacaddrIn_nil, ih]

theorem setPairedStasIn_nil : hgicIwprivSetPairedStasIn (fun _ => []) = hgicIwprivSetPairedStas := by
  unfold hgicIwprivSetPairedStasIn hgicIwprivSetPairedStas
  simp only [pairedLoopIn_nil]

/-! ## The loop over the elements -/

section Loop
variable {tail : Nat → List UInt8} {n i : Nat}

theorem pairedLoopIn_comma {field rest : List UInt8} (h : ∀ b ∈ field, b ≠ 44 ∧ b ≠ 0) :
    pairedLoopIn tail (n + 1) i (field ++ 44 :: rest) = (do
      let mac ← hgicPickMacaddrIn (tail i) (field ++ 0 :: rest)
      if mac.2 then (mac.1 ++ ·) <$> pairedLoopIn tail n (i + 1) rest else .ok []) := by
  have hchr := strchr_append h rest
  cases field with
  | nil =>
    rw [List.nil_append] at hchr ⊢
    rw [pairedLoopIn, if_neg (by decide), hchr]
  | cons b field =>
    rw [List.cons_append] at hchr ⊢
    rw [pairedLoopIn, if_neg (h b List.mem_cons_self).2, hchr]

theorem pairedLoopIn_last {ptr : List UInt8} (hne : ptr ≠ []) (h0 : 0 ∉ ptr) (h44 : 44 ∉ ptr) :
    pairedLoopIn tail (n + 1) i ptr = (do
      let mac ← hgicPickMacaddrIn (tail i) ptr
      .ok (if mac.2 then mac.1 else [])) := by
  cases ptr with
  | nil => exact absurd rfl hne
  | cons b s => rw [pairedLoopIn, if_neg (Ne.symm (List.ne_of_not_mem_cons h0)), strchr_none h44]

/-- Addresses with commas between them. The induction is on the addresses. -/
theorem pairedLoopIn_macs {texts : List (List UInt8)} (hne : texts ≠ []) (hmac : ∀ t ∈ texts, IsMac t)
    (hstop : ∀ j < texts.length, Stops (tail (i + j))) (hn : texts.length ≤ n) :
    pairedLoopIn tail n i ([44].intercalate texts) = .ok (texts.flatMap macBytes) := by
  induction texts generalizing n i with
  | nil => exact absurd rfl hne
  | cons t texts ih =>
    obtain ⟨n, rfl⟩ : ∃ m, n = m + 1 := ⟨n - 1, by rw [List.length_cons] at hn; omega⟩
    have ht := hmac t List.mem_cons_self
    obtain ⟨h0, h44, -, hlen⟩ := isMac_text ht
    have hstop0 : Stops (tail i) := hstop 0 (Nat.succ_pos _)
    have hpick := pickMacaddrIn_mac ht hstop0
    rw [List.flatMap_cons]
    cases texts with
    | nil =>
      have hpick' := hpick []
      rw [List.append_nil] at hpick'
      rw [List.intercalate_singleton, pairedLoopIn_last (by rintro rfl; cases hlen) h0 h44, hpick', List.flatMap_nil,
        List.append_nil]
      rfl
    | cons t' texts =>
      have hplain : ∀ b ∈ t, b ≠ 44 ∧ b ≠ 0 := fun b hb => ⟨fun h => h44 (h ▸ hb), fun h => h0 (h ▸ hb)⟩
      have hrest := @ih n (i + 1) (List.cons_ne_nil _ _) (fun t ht => hmac t (List.mem_cons_of_mem _ ht))
        (fun j hj => by rw [Nat.add_assoc, Nat.add_comm 1]; exact hstop (j + 1) (Nat.succ_lt_succ hj))
        (Nat.le_of_succ_le_succ hn)
      rw [List.intercalate_cons_cons, List.append_assoc]
      show pairedLoopIn tail (n + 1) i (t ++ 44 :: [44].intercalate (t' :: texts)) = _
      rw [pairedLoopIn_comma hplain, hpick]
      show (macBytes t ++ ·) <$> pairedLoopIn tail n (i + 1) ([44].intercalate (t' :: texts)) = _
      rw [hrest]
      rfl

end Loop

theorem length_flatMap_macBytes {texts : List (List UInt8)} (hmac : ∀ t ∈ texts, IsMac t) :
    (texts.flatMap macBytes).length = 6 * texts.length := by
  induction texts with
  | nil => rfl
  | cons t texts ih =>
    rw [List.flatMap_cons, List.length_append, length_macBytes (hmac t List.mem_cons_self),
      ih fun t ht => hmac t (List.mem_cons_of_mem _ ht), List.length_cons]
    omega

/-- Up to 333 addresses are sent with one command, in their order, whatever lies behind the copies. -/
theorem set_paired_stas_sends (tail : Nat → List UInt8) (env : SetEnv) (ifidx : Nat) (texts : List (List UInt8))
    (hne : 1 ≤ texts.length) (hn : texts.length ≤ 333) (hmac : ∀ t ∈ texts, IsMac t)
    (hstop : ∀ i < texts.length, Stops (tail i)) :
    (texts.flatMap macBytes).length = 6 * texts.length ∧
      hgicIwprivSetPairedStasIn tail env ifidx ([44].intercalate texts) =
        .ok (if env.kmem then
          ⟨(hgicFwctrlDoCmd env.r (6 * texts.length) 0).1,
            if env.r.alloc then some (.cmd ifidx HgicCmd.setPairedStations (texts.flatMap macBytes)) else none⟩
        else ⟨enomem, none⟩) := by
  have hlen := length_flatMap_macBytes hmac
  refine ⟨hlen, ?_⟩
  have htexts : texts ≠ [] := List.ne_nil_of_length_pos hne
  have h0 : 0 ∉ [44].intercalate texts := not_mem_intercalate (by decide) fun t ht => (isMac_text (hmac t ht)).1
  have hlength : ([44].intercalate texts).length = 18 * texts.length - 1 :=
    length_intercalate fun t ht => (isMac_text (hmac t ht)).2.2.2
  have hcstr : cstr ([44].intercalate texts) ≠ [] := by
    rw [cstr_eq_self fun b hb h => h0 (h ▸ hb)]
    exact List.ne_nil_of_length_pos (by omega)
  have hloop : pairedLoopIn tail ([44].intercalate texts).length 0 ([44].intercalate texts) =
      .ok (texts.flatMap macBytes) := by
    apply pairedLoopIn_macs htexts hmac
    · intro j hj
      rw [Nat.zero_add]
      exact hstop j hj
    · omega
  have hsends : env.r.sends (6 * texts.length) = env.r.alloc := by
    unfold Reply.sends maxCmdLen
    rw [decide_eq_true (by omega), Bool.true_and]
  unfold hgicIwprivSetPairedStasIn setNonempty
  rw [if_neg hcstr]
  dsimp only
  by_cases hk : env.kmem = true
  · rw [if_pos hk, if_pos hk, hloop]
    show Except.ok (hgicFwctrlSetBytes env ifidx HgicCmd.setPairedStations (texts.flatMap macBytes)) = _
    unfold hgicFwctrlSetBytes
    rw [hlen, hsends]
  · rw [if_neg hk, if_neg hk]

/-- Two addresses, with a 0 and with a colon behind the copies. -/
theorem set_paired_stas_sends_two :
    ([bytes "00:11:22:aA:Bb:cC", bytes "dD:Ee:fF:33:44:55"].flatMap macBytes).length = 6 * 2 ∧
      hgicIwprivSetPairedStasIn (fun i => if i = 0 then [0] else [58, 1]) ⟨⟨true, true⟩, ⟨true, none⟩, true, false, 0⟩ 1
          ([44].intercalate [bytes "00:11:22:aA:Bb:cC", bytes "dD:Ee:fF:33:44:55"]) =
        .ok (if true then
          ⟨(hgicFwctrlDoCmd ⟨true, none⟩ (6 * 2) 0).1,
            if true then some (.cmd 1 HgicCmd.setPairedStations
              ([bytes "00:11:22:aA:Bb:cC", bytes "dD:Ee:fF:33:44:55"].flatMap macBytes)) else none⟩
        else ⟨enomem, none⟩) :=
  set_paired_stas_sends (fun i => if i = 0 then [0] else [58, 1]) ⟨⟨true, true⟩, ⟨true, none⟩, true, false, 0⟩ 1
    [bytes "00:11:22:aA:Bb:cC", bytes "dD:Ee:fF:33:44:55"] (by decide) (by decide) (by decide +kernel)
    (by decide +kernel)

/-! ## The accesses -/

inductive Access
  | text (off n : Nat)
  | mac (off n : Nat)
  deriving DecidableEq, Repr

/-- The value has `len` characters and a terminating 0, and the buffer `len` bytes. -/
def Access.Inside (len : Nat) : Access → Prop
  | .text off n => off + n ≤ len + 1
  | .mac off n => off + n ≤ len

instance (len : Nat) : DecidablePred (Access.Inside len)
  | .text _ _ => inferInstanceAs (Decidable (_ ≤ _))
  | .mac _ _ => inferInstanceAs (Decidable (_ ≤ _))

/-- `hgic_pick_macaddr` returns 1. -/
def picks (tail str : List UInt8) : Bool :=
  match hgicPickMacaddrIn tail str with
  | .ok mac => mac.2
  | .error _ => false

/-- A round with `n` characters in front of the comma or the end: `*ptr`, `strchr`, and `memset` and `memcpy` of
`hgic_pick_macaddr`, which stores its bytes where it has cleared them. -/
def roundAccesses (off n i : Nat) : List Access := [.text off 1, .text off (n + 1), .mac (6 * i) 6, .text off 17]

/-- The rounds from the text `ptr` at `off` on. A call that faults is the last one. -/
def pairedAccesses (tail : Nat → List UInt8) : (fuel off i : Nat) → (ptr : List UInt8) → List Access
  | 0, _, _, _ => []
  | _ + 1, off, _, [] => [.text off 1]
  | n + 1, off, i, b :: s =>
    if b = 0 then [.text off 1]
    else match strchr 44 (b :: s) with
      | some (field, rest) =>
        roundAccesses off field.length i ++
          if picks (tail i) (field ++ 0 :: rest) then pairedAccesses tail n (off + field.length + 1) (i + 1) rest else []
      | none => roundAccesses off (cstr (b :: s)).length i

/-- `strlen`, and the loop. -/
def setPairedStasAccesses (tail : Nat → List UInt8) (env : SetEnv) (v : List UInt8) : List Access :=
  .text 0 ((cstr v).length + 1) ::
    if cstr v ≠ [] ∧ env.kmem then pairedAccesses tail (v.length + 1) 0 0 v else []

/-- The elements of `value` that the loop comes to: `Reached tail value i ptr` says that `ptr` is what is left in the
round `i`. A round that finds six parts in front of a comma goes on behind it. -/
inductive Reached (tail : Nat → List UInt8) (value : List UInt8) : (i : Nat) → (ptr : List UInt8) → Prop
  | first : Reached tail value 0 value
  | next {i : Nat} {field rest : List UInt8} : Reached tail value i (field ++ 44 :: rest) → 44 ∉ field →
      SixParts ((field ++ 0 :: rest ++ [0]).take 17 ++ tail i) → Reached tail value (i + 1) rest

section Inside
variable {tail : Nat → List UInt8} {value : List UInt8}

theorem picks_iff {str : List UInt8} (hstr : 16 ≤ str.length) (t : List UInt8) :
    picks t str = true ↔ SixParts ((str ++ [0]).take 17 ++ t) := by
  rw [← pickMacaddrIn_six hstr, picks]
  cases hgicPickMacaddrIn t str with
  | error e => exact iff_of_false nofun nofun
  | ok mac => exact ⟨fun h => ⟨mac.1, congrArg (fun b => Except.ok (mac.1, b)) h⟩,
      fun ⟨addr, h⟩ => congrArg Prod.snd (Except.ok.inj h)⟩

theorem length_of_sixParts {field rest t : List UInt8} (h0 : 0 ∉ field)
    (h : SixParts ((field ++ 0 :: rest ++ [0]).take 17 ++ t)) : 6 ≤ field.length := by
  by_contra hlen
  have hcstr : cstr ((field ++ 0 :: rest ++ [0]).take 17 ++ t) = field := by
    obtain ⟨k, hk⟩ : ∃ k, 17 - field.length = k + 1 := ⟨16 - field.length, by omega⟩
    rw [List.append_assoc, List.take_append, List.take_of_length_le (by omega), List.append_assoc, cstr_append h0, hk]
    exact List.append_nil field
  have hcount := h.2
  rw [hcstr] at hcount
  have hle := List.count_le_length (a := 58) (l := field.dropLast)
  rw [List.length_dropLast] at hle
  omega

theorem pairedAccesses_comma {n off i : Nat} {field rest : List UInt8} (h : ∀ b ∈ field, b ≠ 44 ∧ b ≠ 0) :
    pairedAccesses tail (n + 1) off i (field ++ 44 :: rest) =
      roundAccesses off field.length i ++
        if picks (tail i) (field ++ 0 :: rest) then pairedAccesses tail n (off + field.length + 1) (i + 1) rest
        else [] := by
  have hchr := strchr_append h rest
  cases field with
  | nil =>
    rw [List.nil_append] at hchr ⊢
    rw [pairedAccesses, if_neg (by decide), hchr]
  | cons b field =>
    rw [List.cons_append] at hchr ⊢
    rw [pairedAccesses, if_neg (h b List.mem_cons_self).2, hchr]

theorem pairedAccesses_last {n off i : Nat} {ptr : List UInt8} (hne : ptr ≠ []) (h0 : 0 ∉ ptr) (h44 : 44 ∉ ptr) :
    pairedAccesses tail (n + 1) off i ptr = roundAccesses off ptr.length i := by
  cases ptr with
  | nil => exact absurd rfl hne
  | cons b s =>
    have hcstr : cstr (b :: s) = b :: s := cstr_eq_self fun c hc h => h0 (h ▸ hc)
    rw [pairedAccesses, if_neg (Ne.symm (List.ne_of_not_mem_cons h0)), strchr_none h44, hcstr]

theorem length_comma (c : UInt8) (field rest : List UInt8) :
    (field ++ c :: rest).length = field.length + rest.length + 1 := by
  rw [List.length_append, List.length_cons, Nat.add_assoc]

/-- What is left of the value ends in a last element, or starts with one in front of a comma. -/
theorem element_cases (ptr : List UInt8) (h0 : 0 ∉ ptr) :
    44 ∉ ptr ∨ ∃ field rest, ptr = field ++ 44 :: rest ∧ (∀ b ∈ field, b ≠ 44 ∧ b ≠ 0) ∧ 0 ∉ rest := by
  by_cases h44 : 44 ∈ ptr
  · obtain ⟨field, rest, rfl, hfield⟩ := List.eq_append_cons_of_mem h44
    obtain ⟨h0, hrest⟩ := not_or.mp (mt List.mem_append.mpr h0)
    refine .inr ⟨field, rest, rfl, fun b hb => ⟨fun h => hfield (h ▸ hb), fun h => h0 (h ▸ hb)⟩, ?_⟩
    exact List.not_mem_of_not_mem_cons hrest
  · exact .inl h44

theorem round_inside {off n i len k : Nat} (hk : 16 ≤ k) (hoff : off + k = len) (hn : n ≤ k) (hi : 6 * i ≤ off) :
    ∀ a ∈ roundAccesses off n i, a.Inside len := by
  simp only [roundAccesses, List.forall_mem_cons, Access.Inside]
  refine ⟨by omega, by omega, by omega, by omega, nofun⟩

theorem pairedAccesses_inside (hlong : ∀ i ptr, Reached tail value i ptr → ptr ≠ [] → 16 ≤ ptr.length) {n off i : Nat}
    {ptr : List UInt8} (hreach : Reached tail value i ptr) (h0 : 0 ∉ ptr) (hoff : off + ptr.length = value.length)
    (hi : 6 * i ≤ off) : ∀ a ∈ pairedAccesses tail n off i ptr, a.Inside value.length := by
  induction n generalizing off i ptr with
  | zero => exact nofun
  | succ n ih =>
    by_cases hne : ptr = []
    · rw [hne, pairedAccesses, List.forall_mem_singleton, Access.Inside]
      omega
    have hlen := hlong i ptr hreach hne
    rcases element_cases ptr h0 with h44 | ⟨field, rest, rfl, hfield, hrest⟩
    · rw [pairedAccesses_last hne h0 h44]
      exact round_inside hlen hoff (Nat.le_refl _) hi
    · have hlength := length_comma 44 field rest
      rw [pairedAccesses_comma hfield, List.forall_mem_append]
      refine ⟨round_inside hlen hoff (by omega) hi, ?_⟩
      split
      · next hpick =>
        have hsix := (picks_iff (by rw [length_comma]; omega) (tail i)).mp hpick
        have hfield0 : 0 ∉ field := fun hm => (hfield 0 hm).2 rfl
        have hsixlen := length_of_sixParts hfield0 hsix
        apply ih (.next hreach (fun hm => (hfield 44 hm).1 rfl) hsix) hrest
        · omega
        · omega
      · exact nofun

/-- With all accesses inside the loop does come to an element that is reached: its predecessors were read. -/
theorem reached_inside (h0 : 0 ∉ value)
    (hin : ∀ a ∈ pairedAccesses tail (value.length + 1) 0 0 value, a.Inside value.length) {i : Nat}
    {ptr : List UInt8} (hreach : Reached tail value i ptr) :
    ∃ n off, ptr.length < n ∧ off + ptr.length = value.length ∧ 0 ∉ ptr ∧
      ∀ a ∈ pairedAccesses tail n off i ptr, a.Inside value.length := by
  induction hreach with
  | first => exact ⟨value.length + 1, 0, Nat.lt_succ_self _, Nat.zero_add _, h0, hin⟩
  | @next i field rest _ h44 hsix ih =>
    obtain ⟨n, off, hn, hoff, h0', hall⟩ := ih
    have hlength := length_comma 44 field rest
    obtain ⟨hfield0, hrest⟩ := not_or.mp (mt List.mem_append.mpr h0')
    obtain ⟨n, rfl⟩ : ∃ m, n = m + 1 := ⟨n - 1, by omega⟩
    have hfield : ∀ b ∈ field, b ≠ 44 ∧ b ≠ 0 := fun b hb =>
      ⟨fun h => h44 (h ▸ hb), fun h => hfield0 (h ▸ hb)⟩
    rw [pairedAccesses_comma hfield, List.forall_mem_append] at hall
    have hread : off + 17 ≤ value.length + 1 := hall.1 (.text off 17) (by simp [roundAccesses])
    have hpick : picks (tail i) (field ++ 0 :: rest) = true :=
      (picks_iff (by rw [length_comma]; omega) _).mpr hsix
    rw [if_pos hpick] at hall
    exact ⟨n, off + field.length + 1, by omega, by omega, List.not_mem_of_not_mem_cons hrest, hall.2⟩

theorem text_mem_pairedAccesses {n off i : Nat} {ptr : List UInt8} (hne : ptr ≠ []) (h0 : 0 ∉ ptr) :
    Access.text off 17 ∈ pairedAccesses tail (n + 1) off i ptr := by
  rcases element_cases ptr h0 with h44 | ⟨field, rest, rfl, hfield, -⟩
  · rw [pairedAccesses_last hne h0 h44]
    simp [roundAccesses]
  · rw [pairedAccesses_comma hfield]
    simp [roundAccesses]

/-- The accesses are the ones at which the loop can fault, when the searches for a colon stop. -/
theorem pairedLoopIn_runs (htail : ∀ j, 0 ∈ tail j) {n m off i len : Nat} (hnm : n ≤ m) {ptr : List UInt8} (h0 : 0 ∉ ptr)
    (hoff : off + ptr.length = len) (hin : ∀ a ∈ pairedAccesses tail m off i ptr, a.Inside len) :
    Runs (pairedLoopIn tail n i ptr) := by
  induction n generalizing m off i ptr with
  | zero => exact runs_ok _
  | succ n ih =>
    obtain ⟨m, rfl⟩ : ∃ k, m = k + 1 := ⟨m - 1, by omega⟩
    by_cases hne : ptr = []
    · rw [hne]
      exact runs_ok _
    have hread : off + 17 ≤ len + 1 := hin _ (text_mem_pairedAccesses hne h0)
    rcases element_cases ptr h0 with h44 | ⟨field, rest, rfl, hfield, hrest⟩
    · rw [pairedLoopIn_last hne h0 h44, runs_bind_of fun _ => runs_ok _]
      exact pickMacaddrIn_runs (by omega) (htail i)
    · have hlength := length_comma 44 field rest
      have hstr : 16 ≤ (field ++ 0 :: rest).length := by
        rw [length_comma]
        omega
      obtain ⟨mac, hmac⟩ := pickMacaddrIn_runs hstr (htail i)
      have hpick : picks (tail i) (field ++ 0 :: rest) = mac.2 := by rw [picks, hmac]
      rw [pairedAccesses_comma hfield, List.forall_mem_append, hpick] at hin
      rw [pairedLoopIn_comma hfield, runs_bind]
      refine ⟨mac, hmac, ?_⟩
      cases hsix : mac.2 with
      | false => exact runs_ok _
      | true =>
        rw [hsix, if_pos rfl] at hin
        exact runs_map.mpr (ih (Nat.le_of_succ_le_succ hnm) hrest (by omega) hin.2)

theorem setPairedStas_runs (htail : ∀ j, 0 ∈ tail j) {env : SetEnv} {ifidx : Nat} (h0 : 0 ∉ value)
    (hin : ∀ a ∈ setPairedStasAccesses tail env value, a.Inside value.length) :
    Runs (hgicIwprivSetPairedStasIn tail env ifidx value) := by
  unfold hgicIwprivSetPairedStasIn setNonempty
  split
  · exact runs_ok _
  · next hne =>
    dsimp only
    split
    · next hk =>
      unfold setPairedStasAccesses at hin
      rw [if_pos ⟨hne, hk⟩, List.forall_mem_cons] at hin
      exact runs_map.mpr (pairedLoopIn_runs htail (Nat.le_succ _) h0 (Nat.zero_add _) hin.2)
    · exact runs_ok _

end Inside

/-- For a text that is not empty: all accesses are in the value with its terminating 0 and in the buffer exactly when each
element that the loop comes to starts 16 characters before the terminating 0. -/
theorem paired_inside_iff (tail : Nat → List UInt8) (env : SetEnv) (value : List UInt8) (h0 : 0 ∉ value)
    (hne : value ≠ []) : (∀ a ∈ setPairedStasAccesses tail env value, a.Inside value.length) ↔
      (env.kmem = true → ∀ i ptr, Reached tail value i ptr → ptr ≠ [] → 16 ≤ ptr.length) := by
  have hcstr : cstr value = value := cstr_eq_self fun b hb h => h0 (h ▸ hb)
  have hstrlen : (Access.text 0 (value.length + 1)).Inside value.length := by
    rw [Access.Inside]
    omega
  unfold setPairedStasAccesses
  rw [hcstr, List.forall_mem_cons, and_iff_right hstrlen]
  by_cases hk : env.kmem = true
  · rw [if_pos ⟨hne, hk⟩, forall_prop_of_true hk]
    constructor
    · intro hin i ptr hreach hptr
      obtain ⟨n, off, hn, hoff, h0', hall⟩ := reached_inside h0 hin hreach
      obtain ⟨n, rfl⟩ : ∃ m, n = m + 1 := ⟨n - 1, by omega⟩
      have hread : off + 17 ≤ value.length + 1 := hall _ (text_mem_pairedAccesses hptr h0')
      omega
    · intro hlong
      exact pairedAccesses_inside hlong .first h0 (Nat.zero_add _) (Nat.zero_le _)
  · rw [if_neg fun h => hk h.2]
    exact iff_of_true nofun fun h => absurd h hk

theorem paired_inside_iff_mac :
    (∀ a ∈ setPairedStasAccesses (fun _ => [0]) ⟨⟨true, true⟩, ⟨true, none⟩, true, false, 0⟩
      (bytes "00:11:22:aA:Bb:cC"), a.Inside 17) ↔
        (true = true → ∀ i ptr, Reached (fun _ => [0]) (bytes "00:11:22:aA:Bb:cC") i ptr → ptr ≠ [] →
          16 ≤ ptr.length) :=
  paired_inside_iff (fun _ => [0]) ⟨⟨true, true⟩, ⟨true, none⟩, true, false, 0⟩ (bytes "00:11:22:aA:Bb:cC") (by decide)
    (by decide)

/-- One character: six bytes are cleared in a buffer of one. -/
theorem paired_inside_fails : ¬ ∀ (tail : Nat → List UInt8) (env : SetEnv) (value : List UInt8), 0 ∉ value →
    value ≠ [] → ∀ a ∈ setPairedStasAccesses tail env value, a.Inside value.length := by
  intro hall
  have hin := hall (fun _ => [0]) ⟨⟨true, true⟩, ⟨true, none⟩, true, false, 0⟩ (bytes "a") (by decide) (by decide)
  exact absurd (hin (.mac 0 6) (by decide)) (by decide)

end HgicFmac.Iwpriv
