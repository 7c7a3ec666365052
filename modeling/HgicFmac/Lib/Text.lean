import Mathlib.Algebra.Group.Int.Defs
import Mathlib.Algebra.GroupWithZero.Nat
import Mathlib.Tactic.Common

/-!
# C strings and the numbers in them

A string is a list of bytes that ends at its first 0, or at the end of the list.

* `bytes` : the bytes of a literal; `cstr` : the string that starts the list;
* `strchr` : the parts before and behind a character (`strchr_eq_some_iff`, `strchr_append`, `strchr_none`);
  `avoids_of_all` : where it is not;
* `lower`, `strcasecmp` : comparison without case;
* `length_intercalate`, `not_mem_intercalate`, `count_intercalate` : lists that are joined with a separator;
* `simpleStrtoul`, `simpleStrtol` : the number at the start of a string, without bound on its size. Base 0 takes the
  base from the prefix;
* `sscanfD` : the numbers that `sscanf` reads for `%d`s with one character between each two;
* `dec`, `padLeft`, `hex2` : what `sprintf` writes for `%d`, for a width and for `%02x` (`dec_length_le_iff`).
-/

namespace HgicFmac.Lib

def bytes (s : String) : List UInt8 := s.toList.map fun c => UInt8.ofNat c.toNat

def cstr (s : List UInt8) : List UInt8 := s.takeWhile (· ≠ 0)

theorem cstr_append {s t : List UInt8} (h : 0 ∉ s) : cstr (s ++ t) = s ++ cstr t :=
  List.takeWhile_append_of_pos fun _ hb => decide_eq_true fun h0 => h (h0 ▸ hb)

theorem cstr_eq_self {s : List UInt8} (h : ∀ b ∈ s, b ≠ 0) : cstr s = s := by
  have happ := @cstr_append s [] fun h0 => h 0 h0 rfl
  rw [List.append_nil] at happ
  rw [happ]
  exact List.append_nil s

theorem cstr_cons {b : UInt8} (hb : b ≠ 0) (t : List UInt8) : cstr (b :: t) = b :: cstr t :=
  List.takeWhile_cons_of_pos (decide_eq_true hb)

/-- What lies before the first `c` of the string, and what lies behind it. -/
def strchr (c : UInt8) : List UInt8 → Option (List UInt8 × List UInt8)
  | [] => none
  | b :: s => if b = c then some ([], s) else if b = 0 then none else (strchr c s).map fun r => (b :: r.1, r.2)

theorem strchr_append {c : UInt8} {pre : List UInt8} (h : ∀ b ∈ pre, b ≠ c ∧ b ≠ 0) (rest : List UInt8) :
    strchr c (pre ++ c :: rest) = some (pre, rest) := by
  induction pre with
  | nil => exact if_pos rfl
  | cons b pre ih =>
    obtain ⟨hb, hpre⟩ := List.forall_mem_cons.mp h
    rw [List.cons_append, strchr, if_neg hb.1, if_neg hb.2, ih hpre]
    rfl

theorem strchr_eq_some_iff {c : UInt8} {s pre rest : List UInt8} :
    strchr c s = some (pre, rest) ↔ s = pre ++ c :: rest ∧ ∀ b ∈ pre, b ≠ c ∧ b ≠ 0 := by
  constructor
  · induction s generalizing pre with
    | nil => exact nofun
    | cons b s ih =>
      intro h
      rw [strchr] at h
      split at h
      · next hb =>
        obtain ⟨rfl, rfl⟩ := Prod.mk.inj (Option.some.inj h)
        exact ⟨by rw [hb]; rfl, nofun⟩
      · next hb =>
        split at h
        · cases h
        · next h0 =>
          obtain ⟨⟨pre', rest'⟩, hr, he⟩ := Option.map_eq_some_iff.mp h
          obtain ⟨rfl, rfl⟩ := Prod.mk.inj he
          obtain ⟨rfl, hpre⟩ := ih hr
          exact ⟨rfl, List.forall_mem_cons.mpr ⟨⟨hb, h0⟩, hpre⟩⟩
  · rintro ⟨rfl, h⟩
    exact strchr_append h rest

theorem strchr_none {c : UInt8} {s : List UInt8} (h : c ∉ s) : strchr c s = none := by
  rw [Option.eq_none_iff_forall_ne_some]
  rintro ⟨pre, rest⟩ hs
  rw [(strchr_eq_some_iff.mp hs).1] at h
  exact h (List.mem_append_right _ List.mem_cons_self)

/-- How a literal is shown to hold neither character. -/
theorem avoids_of_all {c d : UInt8} {s : List UInt8} (h : (s.all fun b => b != c && b != d) = true) :
    ∀ b ∈ s, b ≠ c ∧ b ≠ d := by
  intro b hb
  have hall := List.all_eq_true.mp h b hb
  simpa using hall

/-- `tolower`, on ASCII. -/
def lower (b : UInt8) : UInt8 := if 65 ≤ b ∧ b ≤ 90 then b + 32 else b

def strcasecmp (s t : List UInt8) : Bool := (cstr s).map lower == (cstr t).map lower

/-! ## Lists with a separator -/

section Join
variable {α : Type} {sep c : α} {xs : List (List α)}

theorem length_intercalate {k : Nat} (h : ∀ x ∈ xs, x.length = k) :
    ([sep].intercalate xs).length = (k + 1) * xs.length - 1 := by
  induction xs with
  | nil => rfl
  | cons x xs ih =>
    obtain ⟨hx, hxs⟩ := List.forall_mem_cons.mp h
    cases xs with
    | nil => rw [List.intercalate_singleton, hx, List.length_singleton, Nat.mul_one, Nat.add_sub_cancel]
    | cons y xs =>
      have hpos : 1 ≤ (k + 1) * (y :: xs).length := Nat.mul_pos (Nat.succ_pos k) (Nat.succ_pos _)
      have hmul : (k + 1) * (x :: y :: xs).length = (k + 1) * (y :: xs).length + (k + 1) := Nat.mul_succ _ _
      rw [List.intercalate_cons_cons, List.length_append, List.length_append, ih hxs, hx, hmul, List.length_singleton]
      omega

theorem not_mem_intercalate (hc : c ≠ sep) (h : ∀ x ∈ xs, c ∉ x) : c ∉ [sep].intercalate xs := by
  induction xs with
  | nil => exact List.not_mem_nil
  | cons x xs ih =>
    obtain ⟨hx, hxs⟩ := List.forall_mem_cons.mp h
    cases xs with
    | nil => rwa [List.intercalate_singleton]
    | cons y xs =>
      rw [List.intercalate_cons_cons, List.mem_append, List.mem_append, List.mem_singleton]
      rintro ((hm | hm) | hm)
      · exact hx hm
      · exact hc hm
      · exact ih hxs hm

theorem count_intercalate [BEq α] [LawfulBEq α] (h : ∀ x ∈ xs, sep ∉ x) :
    ([sep].intercalate xs).count sep = xs.length - 1 := by
  induction xs with
  | nil => rfl
  | cons x xs ih =>
    obtain ⟨hx, hxs⟩ := List.forall_mem_cons.mp h
    cases xs with
    | nil => rw [List.intercalate_singleton, List.count_eq_zero.mpr hx]; rfl
    | cons y xs =>
      rw [List.intercalate_cons_cons, List.count_append, List.count_append, List.count_eq_zero.mpr hx, ih hxs,
        List.count_singleton_self]
      exact Nat.add_comm 1 _

end Join

/-! ## Numbers -/

/-- The value of a digit, of any base up to 16. -/
def digit (b : UInt8) : Option Nat :=
  if 48 ≤ b ∧ b ≤ 57 then some (b.toNat - 48)
  else if 97 ≤ lower b ∧ lower b ≤ 102 then some ((lower b).toNat - 87)
  else none

/-- The digits at the start of `s`, read on from `acc`, and what follows them. -/
def parseInteger (base : Nat) : Nat → List UInt8 → Nat × List UInt8
  | acc, [] => (acc, [])
  | acc, b :: s => match digit b with
    | some d => if d < base then parseInteger base (acc * base + d) s else (acc, b :: s)
    | none => (acc, b :: s)

/-- The base and where the digits start. -/
def fixupRadix (base : Nat) (s : List UInt8) : Nat × List UInt8 :=
  match s with
  | 48 :: x :: d :: rest =>
    if lower x = 120 ∧ (base = 16 ∨ base = 0 ∧ (digit d).isSome) then (16, d :: rest)
    else (if base = 0 then 8 else base, s)
  | [48, x] => if lower x = 120 ∧ base = 16 then (16, []) else (if base = 0 then 8 else base, s)
  | 48 :: _ => (if base = 0 then 8 else base, s)
  | _ => (if base = 0 then 10 else base, s)

def simpleStrtoul (base : Nat) (s : List UInt8) : Nat :=
  let r := fixupRadix base s
  (parseInteger r.1 0 r.2).1

def simpleStrtol (base : Nat) : List UInt8 → Int
  | 45 :: s => -(simpleStrtoul base s : Int)
  | s => simpleStrtoul base s

def isSpace (b : UInt8) : Bool := (9 ≤ b && b ≤ 13) || b == 32 || b == 160

/-- `%d`. -/
def scanD (s : List UInt8) : Option (Int × List UInt8) :=
  let num := fun (neg : Bool) (t : List UInt8) => match t with
    | b :: _ => if 48 ≤ b ∧ b ≤ 57 then
        let r := parseInteger 10 0 t
        some (if neg then -(r.1 : Int) else r.1, r.2) else none
    | [] => none
  match s.dropWhile isSpace with
  | 45 :: t => num true t
  | t => num false t

/-- `seps` are the characters between the numbers. -/
def sscanfD : List UInt8 → List UInt8 → List Int
  | [], s => ((scanD s).map (·.1)).toList
  | sep :: seps, s => match scanD s with
    | some (n, b :: rest) => if b = sep then n :: sscanfD seps rest else [n]
    | some (n, []) => [n]
    | none => []

/-! ## Formatting -/

/-- `%d`. -/
def dec (x : Int) : List UInt8 :=
  (if x < 0 then [45] else []) ++ (Nat.toDigits 10 x.natAbs).map fun c => UInt8.ofNat c.toNat

/-- A text in a field of `n` characters. -/
def padLeft (n : Nat) (s : List UInt8) : List UInt8 := List.replicate (n - s.length) 32 ++ s

def hexDigit (n : Nat) : UInt8 := UInt8.ofNat (if n < 10 then 48 + n else 87 + n)

/-- `%02x`. -/
def hex2 (b : UInt8) : List UInt8 := [hexDigit (b.toNat / 16), hexDigit (b.toNat % 16)]

theorem dec_length (x : Int) : (dec x).length = (if x < 0 then 1 else 0) + (Nat.toDigits 10 x.natAbs).length := by
  unfold dec
  rw [List.length_append, List.length_map]
  split <;> rfl

theorem dec_length_pos (x : Int) : 0 < (dec x).length := by
  have := Nat.length_toDigits_pos (b := 10) (n := x.natAbs)
  rw [dec_length]
  omega

theorem dec_length_le_iff {x : Int} {k : Nat} (hk : 0 < k) :
    (dec x).length ≤ k + 1 ↔ -(10 ^ k : Nat) < x ∧ x < (10 ^ (k + 1) : Nat) := by
  have h10 : (10 ^ k : Nat) < 10 ^ (k + 1) := Nat.pow_lt_pow_succ (by decide)
  have hpos : 0 < (10 ^ k : Nat) := Nat.pow_pos (by decide)
  rw [dec_length]
  split
  · next h =>
    rw [Nat.add_comm 1, Nat.add_le_add_iff_right, Nat.length_toDigits_le_iff (by decide) hk]
    omega
  · next h =>
    rw [Nat.zero_add, Nat.length_toDigits_le_iff (by decide) (Nat.succ_pos k)]
    omega

end HgicFmac.Lib
