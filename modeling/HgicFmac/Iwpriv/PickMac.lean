import HgicFmac.Iwpriv.Request

/-!
# `hgic_pick_macaddr` and the bytes behind its copy

The 17 characters in `tmp` have no terminating 0, so the search for a colon in the last part goes on behind them.

* `hgicPickMacaddrIn` : the function, with the bytes behind the copy;
* `IsMac`, `macBytes` : what the text of an address is, and its bytes;
* `pickLoop_groups` : groups of two digits are read as they are, whatever lies behind them;
* `SixParts` : the texts in which the loop finds six parts (`pickMacaddrIn_six`);
* `readsMac_iff` : when the texts with six parts are those of addresses.
-/

namespace HgicFmac.Iwpriv
open Lib

/-- `tail` is what lies behind the 17 characters in `tmp`, as far as it may be read. -/
def hgicPickMacaddrIn (tail str : List UInt8) : Run (List UInt8 × Bool) := do
  let tmp ← readAt str 17
  let parts ← pickLoop 6 (some (tmp ++ tail))
  return (parts ++ List.replicate (6 - parts.length) 0, parts.length == 6)

theorem pickMacaddrIn_nil (str : List UInt8) : hgicPickMacaddrIn [] str = hgicPickMacaddr str := by
  unfold hgicPickMacaddrIn hgicPickMacaddr
  simp only [List.append_nil]

/-! ## Texts of addresses -/

/-- The value of exactly two digits. -/
def hexByte : List UInt8 → Option UInt8
  | [a, b] => (digit a).bind fun x => (digit b).map fun y => UInt8.ofNat (16 * x + y)
  | _ => none

def IsMac (w : List UInt8) : Prop := (w.splitOn 58).length = 6 ∧ ∀ g ∈ w.splitOn 58, (hexByte g).isSome

instance (w : List UInt8) : Decidable (IsMac w) := inferInstanceAs (Decidable (_ ∧ _))

def macBytes (w : List UInt8) : List UInt8 := (w.splitOn 58).filterMap hexByte

theorem digit_cases (c : UInt8) : digit c = none ∨
    digit c = some (hgicHex2num c) ∧ hgicHex2num c < 16 ∧ c ≠ 0 ∧ c ≠ 58 ∧ c ≠ 44 := by
  have hall : ∀ n < 256, digit (UInt8.ofNat n) = none ∨ digit (UInt8.ofNat n) = some (hgicHex2num (UInt8.ofNat n)) ∧
      hgicHex2num (UInt8.ofNat n) < 16 ∧ UInt8.ofNat n ≠ 0 ∧ UInt8.ofNat n ≠ 58 ∧ UInt8.ofNat n ≠ 44 := by
    decide +kernel
  have h := hall c.toNat c.toNat_lt
  rwa [UInt8.ofNat_toNat] at h

/-- A character that is neither a separator nor the end of a text. -/
def Plain (c : UInt8) : Prop := c ≠ 0 ∧ c ≠ 58 ∧ c ≠ 44

theorem hexByte_eq_some {g : List UInt8} {x : UInt8} (h : hexByte g = some x) :
    ∃ a b, g = [a, b] ∧ Plain a ∧ Plain b ∧ ∀ rest, hgicHex2byte (a :: b :: rest) = .ok x := by
  unfold hexByte at h
  split at h
  · next a b =>
    obtain ⟨m, hm, h⟩ := Option.bind_eq_some_iff.mp h
    obtain ⟨n, hn, h⟩ := Option.map_eq_some_iff.mp h
    rcases digit_cases a with ha | ⟨ha, -, hpa⟩
    · cases ha.symm.trans hm
    rcases digit_cases b with hb | ⟨hb, hlt, hpb⟩
    · cases hb.symm.trans hn
    refine ⟨a, b, rfl, hpa, hpb, fun rest => ?_⟩
    have hor := Nat.two_pow_add_eq_or_of_lt (i := 4) hlt (hgicHex2num a)
    rw [hgicHex2byte, Nat.mul_comm (hgicHex2num a), ← h, Option.some.inj (hm.symm.trans ha),
      Option.some.inj (hn.symm.trans hb)]
    exact congrArg (fun n => Except.ok (UInt8.ofNat n)) hor.symm
  · cases h

/-! ## The loop on groups -/

/-- The search for a colon stops: at a 0, or at a colon with a byte behind it. -/
def Stops (tail : List UInt8) : Prop := 0 ∈ tail ∨ 58 ∈ tail.dropLast

instance (tail : List UInt8) : Decidable (Stops tail) := inferInstanceAs (Decidable (_ ∨ _))

theorem colon_of_plain {a : UInt8} (ha : Plain a) (t : List UInt8) :
    colon (a :: t) = (Option.map fun r => (a :: r.1, r.2)) <$> colon t := by
  rw [colon, if_neg ha.2.1, if_neg ha.1]

theorem pickLoop_group {g : List UInt8} {x : UInt8} (hg : hexByte g = some x) (n : Nat) (rest : List UInt8) :
    pickLoop (n + 1) (some (g ++ 58 :: rest)) = (x :: ·) <$> pickLoop n (some rest) := by
  obtain ⟨a, b, rfl, ha, hb, hx⟩ := hexByte_eq_some hg
  show pickLoop (n + 1) (some (a :: b :: 58 :: rest)) = _
  rw [pickLoop, if_neg ha.1, colon_of_plain ha, colon_of_plain hb, colon, if_pos rfl]
  show (hgicHex2byte (a :: b :: 0 :: rest) >>= fun x => (x :: ·) <$> pickLoop n (some rest)) = _
  rw [hx]
  rfl

/-- The last group: its value does not depend on where the search stops. -/
theorem pickLoop_last {g : List UInt8} {x : UInt8} (hg : hexByte g = some x) {tail : List UInt8} (h : Stops tail) :
    pickLoop 1 (some (g ++ tail)) = .ok [x] := by
  obtain ⟨a, b, rfl, ha, hb, hx⟩ := hexByte_eq_some hg
  show pickLoop 1 (some (a :: b :: tail)) = _
  rw [pickLoop, if_neg ha.1, colon_of_plain ha, colon_of_plain hb]
  rcases colon_cases tail with ⟨-, h58, h0⟩ | ⟨hc, -, -⟩ | ⟨field, rest, hc, rfl, h58, h0⟩
  · rcases h with h | h
    · exact absurd h h0
    · exact absurd (List.dropLast_subset _ h) h58
  · rw [hc]
    show (hgicHex2byte (a :: b :: tail) >>= fun x => (x :: ·) <$> pickLoop 0 none) = _
    rw [hx]
    rfl
  · rw [hc]
    show (hgicHex2byte (a :: b :: (field ++ 0 :: rest)) >>= fun x => (x :: ·) <$> pickLoop 0 (some rest)) = _
    rw [hx]
    cases rest with
    | nil => simp [Stops, h58, h0] at h
    | cons c rest => rfl

/-- Groups and what lies behind them. The induction is on the groups; the last one meets the bytes behind them. -/
theorem pickLoop_groups {tail : List UInt8} (h : Stops tail) {gs : List (List UInt8)} (hne : gs ≠ [])
    (hgs : ∀ g ∈ gs, (hexByte g).isSome) :
    pickLoop gs.length (some ([58].intercalate gs ++ tail)) = .ok (gs.filterMap hexByte) := by
  induction gs with
  | nil => exact absurd rfl hne
  | cons g gs ih =>
    obtain ⟨x, hx⟩ := Option.isSome_iff_exists.mp (hgs g List.mem_cons_self)
    rw [List.filterMap_cons_some hx]
    cases gs with
    | nil =>
      rw [List.intercalate_singleton]
      exact pickLoop_last hx h
    | cons g' gs =>
      have hrest := ih (List.cons_ne_nil _ _) fun g hg => hgs g (List.mem_cons_of_mem _ hg)
      rw [List.intercalate_cons_cons, List.append_assoc, List.append_assoc, List.length_cons]
      show pickLoop _ (some (g ++ 58 :: ([58].intercalate (g' :: gs) ++ tail))) = _
      rw [pickLoop_group hx, hrest]
      rfl

/-! ## Six parts -/

/-- A round: there is no text, or no colon in it, or the loop goes on behind the first colon. -/
theorem pickLoop_cases {n : Nat} {t parts : List UInt8} (h : pickLoop (n + 1) (some t) = .ok parts) :
    cstr t = [] ∧ parts = [] ∨ (∃ x, parts = [x] ∧ cstr t ≠ [] ∧ 58 ∉ cstr t) ∨
      ∃ field rest x parts', t = field ++ 58 :: rest ∧ 58 ∉ field ∧ 0 ∉ field ∧
        pickLoop n (some rest) = .ok parts' ∧ parts = x :: parts' := by
  cases t with
  | nil => cases h
  | cons b t =>
    rw [pickLoop] at h
    by_cases hb : b = 0
    · rw [if_pos hb] at h
      cases h
      exact .inl ⟨by rw [hb]; rfl, rfl⟩
    rw [if_neg hb] at h
    rcases colon_cases (b :: t) with ⟨hc, -, -⟩ | ⟨hc, h0, h58⟩ | ⟨field, rest, hc, ht, h58, h0⟩
    · rw [hc] at h
      cases h
    · obtain ⟨x, hx⟩ : Runs (hgicHex2byte (b :: t)) := by
        cases t with
        | nil => exact absurd (List.mem_singleton.mp h0) (Ne.symm hb)
        | cons c t => exact runs_ok _
      rw [hc] at h
      have h' : (hgicHex2byte (b :: t) >>= fun x => (x :: ·) <$> pickLoop n none) = .ok parts := h
      rw [hx, pickLoop_none] at h'
      cases h'
      refine .inr (.inl ⟨x, rfl, ?_, h58⟩)
      rw [cstr_cons hb]
      exact List.cons_ne_nil _ _
    · rw [hc] at h
      have h' : (hgicHex2byte (field ++ 0 :: rest) >>= fun x => (x :: ·) <$> pickLoop n (some rest)) = .ok parts := h
      cases hx : hgicHex2byte (field ++ 0 :: rest) with
      | error e => rw [hx] at h'; cases h'
      | ok x =>
        cases hp : pickLoop n (some rest) with
        | error e => rw [hx, hp] at h'; cases h'
        | ok parts' =>
          rw [hx, hp] at h'
          cases h'
          exact .inr (.inr ⟨field, rest, x, parts', ht, h58, h0, hp, rfl⟩)

/-- The rounds are all used when as many parts begin before the first 0; a colon at the end begins none. -/
theorem pickLoop_length {n : Nat} {t parts : List UInt8} (h : pickLoop (n + 1) (some t) = .ok parts) :
    parts.length = n + 1 ↔ cstr t ≠ [] ∧ n ≤ (cstr t).dropLast.count 58 := by
  induction n generalizing t parts with
  | zero =>
    rcases pickLoop_cases h with ⟨ht, rfl⟩ | ⟨x, rfl, hne, -⟩ | ⟨field, rest, x, parts', rfl, -, h0, hp, rfl⟩
    · exact iff_of_false (Nat.succ_ne_zero 0).symm fun h' => h'.1 ht
    · exact iff_of_true rfl ⟨hne, Nat.zero_le _⟩
    · refine iff_of_true ?_ ⟨?_, Nat.zero_le _⟩
      · cases rest with
        | nil => cases hp
        | cons c rest => cases hp; rfl
      · rw [cstr_append h0, cstr_cons (by decide)]
        simp
  | succ n ih =>
    rcases pickLoop_cases h with ⟨ht, rfl⟩ | ⟨x, rfl, -, h58⟩ | ⟨field, rest, x, parts', rfl, h58, h0, hp, rfl⟩
    · exact iff_of_false (Nat.succ_ne_zero _).symm fun h' => h'.1 ht
    · refine iff_of_false (by simp) fun h' => ?_
      rw [List.count_eq_zero.mpr fun hm => h58 (List.dropLast_subset _ hm)] at h'
      exact absurd h'.2 (Nat.not_succ_le_zero n)
    · rw [List.length_cons, Nat.succ_inj, ih hp, cstr_append h0, cstr_cons (by decide)]
      cases hrest : cstr rest with
      | nil => simp [List.count_eq_zero.mpr h58]
      | cons c s => simp [List.count_eq_zero.mpr h58]

/-- The text has six parts, and the search in the last one stops. -/
def SixParts (t : List UInt8) : Prop :=
  (0 ∈ t ∨ 6 ≤ t.dropLast.count 58) ∧ 5 ≤ (cstr t).dropLast.count 58

instance (t : List UInt8) : Decidable (SixParts t) := inferInstanceAs (Decidable (_ ∧ _))

theorem pickMacaddrIn_eq {str : List UInt8} (hstr : 16 ≤ str.length) (tail : List UInt8) :
    hgicPickMacaddrIn tail str = (fun parts => (parts ++ List.replicate (6 - parts.length) 0, parts.length == 6)) <$>
      pickLoop 6 (some ((str ++ [0]).take 17 ++ tail)) := by
  unfold hgicPickMacaddrIn readAt
  rw [if_pos (by omega)]
  show (pickLoop 6 _ >>= fun parts => _) = _
  cases pickLoop 6 (some ((str ++ [0]).take 17 ++ tail)) <;> rfl

/-- With a 0 behind the copy nothing but the 17 characters decides. -/
theorem pickMacaddrIn_runs {str tail : List UInt8} (hstr : 16 ≤ str.length) (h0 : 0 ∈ tail) :
    Runs (hgicPickMacaddrIn tail str) := by
  rw [pickMacaddrIn_eq hstr, runs_map, pickLoop_runs]
  exact .inl (List.mem_append_right _ h0)

theorem pickMacaddrIn_six {str : List UInt8} (hstr : 16 ≤ str.length) (tail : List UInt8) :
    (∃ addr, hgicPickMacaddrIn tail str = .ok (addr, true)) ↔ SixParts ((str ++ [0]).take 17 ++ tail) := by
  have hne : (str ++ [0]).take 17 ++ tail ≠ [] := by
    intro he
    have hlen := congrArg List.length (List.append_eq_nil_iff.mp he).1
    simp at hlen
  have hruns := pickLoop_runs 6 ((str ++ [0]).take 17 ++ tail)
  rw [and_iff_right hne] at hruns
  rw [pickMacaddrIn_eq hstr, SixParts, ← hruns]
  cases hp : pickLoop 6 (some ((str ++ [0]).take 17 ++ tail)) with
  | error e => exact iff_of_false nofun fun h => not_runs_error e h.1
  | ok parts =>
    have hlen := pickLoop_length hp
    rw [and_iff_right (runs_ok parts)]
    constructor
    · rintro ⟨addr, ha⟩
      have hsix : (parts.length == 6) = true := (Prod.mk.inj (Except.ok.inj ha)).2
      exact (hlen.mp (beq_iff_eq.mp hsix)).2
    · intro h
      have hcstr : cstr ((str ++ [0]).take 17 ++ tail) ≠ [] := by
        intro he
        rw [he] at h
        exact absurd h (by decide)
      refine ⟨parts ++ List.replicate (6 - parts.length) 0, ?_⟩
      show Except.ok (_, parts.length == 6) = _
      rw [hlen.mpr ⟨hcstr, h⟩]
      rfl

/-! ## The addresses that are read -/

theorem isMac_text {w : List UInt8} (hw : IsMac w) : 0 ∉ w ∧ 44 ∉ w ∧ w.count 58 = 5 ∧ w.length = 17 := by
  have hgroup : ∀ g ∈ w.splitOn 58, g.length = 2 ∧ 0 ∉ g ∧ 58 ∉ g ∧ 44 ∉ g := by
    intro g hg
    obtain ⟨x, hx⟩ := Option.isSome_iff_exists.mp (hw.2 g hg)
    obtain ⟨a, b, rfl, ha, hb, -⟩ := hexByte_eq_some hx
    simp [ha.1.symm, hb.1.symm, ha.2.1.symm, hb.2.1.symm, ha.2.2.symm, hb.2.2.symm]
  have hcount := count_intercalate fun g hg => (hgroup g hg).2.2.1
  have hlen := @length_intercalate _ 58 _ 2 fun g hg => (hgroup g hg).1
  have h0 := @not_mem_intercalate _ 58 0 _ (by decide) fun g hg => (hgroup g hg).2.1
  have h44 := @not_mem_intercalate _ 58 44 _ (by decide) fun g hg => (hgroup g hg).2.2.2
  rw [List.intercalate_splitOn] at hcount hlen h0 h44
  rw [hw.1] at hcount hlen
  exact ⟨h0, h44, hcount, hlen⟩

theorem length_macBytes {w : List UInt8} (hw : IsMac w) : (macBytes w).length = 6 := by
  rw [macBytes, List.length_filterMap_eq_countP, List.countP_eq_length.mpr hw.2, hw.1]

theorem pickMacaddrIn_mac {w : List UInt8} (hw : IsMac w) {tail : List UInt8} (h : Stops tail) (rest : List UInt8) :
    hgicPickMacaddrIn tail (w ++ rest) = .ok (macBytes w, true) := by
  have hlen := (isMac_text hw).2.2.2
  have hne : w.splitOn 58 ≠ [] := by
    intro he
    exact absurd (he ▸ hw.1) (by decide)
  have hparts := pickLoop_groups h hne hw.2
  rw [List.intercalate_splitOn, hw.1] at hparts
  have hbytes := length_macBytes hw
  rw [pickMacaddrIn_eq (by rw [List.length_append]; omega), List.append_assoc,
    List.take_append_of_le_length (Nat.le_of_eq hlen.symm), ← hlen, List.take_length, hparts]
  show Except.ok (macBytes w ++ List.replicate (6 - (macBytes w).length) 0, (macBytes w).length == 6) = _
  rw [hbytes, Nat.sub_self, List.replicate_zero, List.append_nil]
  rfl

theorem stops_of_sixParts {w : List UInt8} (hw : IsMac w) {tail : List UInt8} (h : SixParts (w ++ tail)) :
    Stops tail := by
  obtain ⟨h0, -, hcount, -⟩ := isMac_text hw
  rcases h.1 with hm | hm
  · exact .inl ((List.mem_append.mp hm).resolve_left h0)
  · by_cases ht : tail = []
    · rw [ht, List.append_nil] at hm
      have hle := (List.dropLast_sublist w).count_le 58
      omega
    · rw [List.dropLast_append_of_ne_nil ht, List.count_append, hcount] at hm
      exact .inr (List.count_pos_iff.mp (by omega))

/-- The function returns 1 for the texts of addresses alone, and has the bytes of the address then. -/
def ReadsMac (tail str : List UInt8) : Prop :=
  ((∃ addr, hgicPickMacaddrIn tail str = .ok (addr, true)) ↔ IsMac (str.take 17)) ∧
    (IsMac (str.take 17) → hgicPickMacaddrIn tail str = .ok (macBytes (str.take 17), true))

/-- The text of an address, when the search in its last part stops; another text, when it has not six parts with what
lies behind the copy. -/
theorem readsMac_iff (tail str : List UInt8) (h : 17 ≤ (cstr str).length) :
    ReadsMac tail str ↔ if IsMac (str.take 17) then Stops tail else ¬ SixParts (str.take 17 ++ tail) := by
  have hstr : 17 ≤ str.length := Nat.le_trans h (List.takeWhile_prefix _).length_le
  have hsix := pickMacaddrIn_six (Nat.le_of_succ_le hstr) tail
  rw [List.take_append_of_le_length hstr] at hsix
  by_cases hw : IsMac (str.take 17)
  · rw [if_pos hw]
    constructor
    · intro hreads
      exact stops_of_sixParts hw (hsix.mp (hreads.1.mpr hw))
    · intro hstops
      have hval := pickMacaddrIn_mac hw hstops (str.drop 17)
      rw [List.take_append_drop] at hval
      exact ⟨iff_of_true ⟨_, hval⟩ hw, fun _ => hval⟩
  · rw [if_neg hw, ← hsix]
    constructor
    · intro hreads hsix
      exact hw (hreads.1.mp hsix)
    · intro hno
      exact ⟨iff_of_false hno hw, fun h => absurd h hw⟩

theorem readsMac_iff_mac : ReadsMac [7, 0] (bytes "0A:1b:2C:3d:4E:5f,0A") ↔
    if IsMac ((bytes "0A:1b:2C:3d:4E:5f,0A").take 17) then Stops [7, 0] else
      ¬ SixParts ((bytes "0A:1b:2C:3d:4E:5f,0A").take 17 ++ [7, 0]) :=
  readsMac_iff [7, 0] (bytes "0A:1b:2C:3d:4E:5f,0A") (by decide)

/-- Digits that are missing are 0, and the last part may have any length. -/
theorem readsMac_fails : ¬ ∀ tail str : List UInt8, 17 ≤ (cstr str).length → ReadsMac tail str := by
  intro hall
  have hreads := hall [0, 0, 0] (bytes "1:2:3:4:5:6xxxxxx") (by decide)
  have hpick : hgicPickMacaddrIn [0, 0, 0] (bytes "1:2:3:4:5:6xxxxxx") =
      .ok ([0x10, 0x20, 0x30, 0x40, 0x50, 0x60], true) := by decide +kernel
  exact absurd (hreads.1.mp ⟨_, hpick⟩) (by decide +kernel)

end HgicFmac.Iwpriv
