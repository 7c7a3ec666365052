import HgicFmac.Lib.Loop
import HgicFmac.Lib.Text
import Mathlib.Data.List.DropRight

/-!
# The path that is written to the proc file `ota`

`hgic_strip_tail` turns the line ends behind the path into zeros. Its index runs down from the last character and has no
lower bound.

* `Strip`, `stripBody`, `hgicStripTail` : the loop, and whether it leaves the buffer;
* `hgicfOtaSendData` : its call for a write; `StripsTail` : what it is to come to;
* `ends_strip`, `ends_strip_iff` : how it ends with another character in the text, and where it comes to without;
* `stripsTail_iff` : it stays in the buffer exactly when there is another character.
-/

namespace HgicFmac.Ota
open Lib

def isLineEnd (b : UInt8) : Bool := b = 13 || b = 10

/-- A `u32` less one. -/
def pred32 (i : Nat) : Nat := (i + (2 ^ 32 - 1)) % 2 ^ 32

/-- The buffer and `i`. `outside` is set when `str[i]` is not in the buffer. -/
structure Strip where
  str : List UInt8
  i : Nat
  outside : Bool
  deriving DecidableEq, Repr

/-- The test of the loop and its body. -/
def stripBody (s : Strip) : Pass Strip :=
  match s.str[s.i]? with
  | none => .leave { s with outside := true }
  | some b => if isLineEnd b then .again { s with str := s.str.set s.i 0, i := pred32 s.i } else .leave s

/-- `hgic_strip_tail` as it enters the loop. -/
def hgicStripTail (str : List UInt8) (len : Nat) : Strip := ⟨str, pred32 len, false⟩

/-- The call for a write of `data`: `fw_path` has one more byte, and the count is passed as a `u32`. -/
def hgicfOtaSendData (data : List UInt8) : Strip := hgicStripTail (data ++ [0]) (data.length % 2 ^ 32)

/-- The text with its trailing line ends replaced by zeros. -/
def stripped (text : List UInt8) : List UInt8 :=
  text.rdropWhile isLineEnd ++ List.replicate (text.rtakeWhile isLineEnd).length 0

/-- The loop is left, no access was outside the buffer, and the buffer holds the stripped text. -/
def StripsTail (data : List UInt8) : Prop :=
  ∃ s, Ends stripBody (hgicfOtaSendData data) s ∧ s.outside = false ∧ s.str = stripped data ++ [0]

/-! ## The trailing line ends -/

theorem pred32_succ {n : Nat} (h : n < 2 ^ 32) : pred32 (n + 1) = n := by
  unfold pred32
  omega

theorem stripped_concat_pos {b : UInt8} (hb : isLineEnd b) (p : List UInt8) :
    stripped (p ++ [b]) = stripped p ++ [0] := by
  unfold stripped
  rw [List.rdropWhile_concat_pos _ _ _ hb, List.rtakeWhile_concat_pos _ _ _ hb, List.length_append,
    List.length_singleton, List.replicate_succ', List.append_assoc]

theorem stripped_concat_neg {b : UInt8} (hb : ¬ isLineEnd b) (p : List UInt8) : stripped (p ++ [b]) = p ++ [b] := by
  unfold stripped
  rw [List.rdropWhile_concat_neg _ _ _ hb, List.rtakeWhile_concat_neg _ _ _ hb]
  exact List.append_nil _

theorem length_stripped (p : List UInt8) : (stripped p).length = p.length := by
  unfold stripped
  rw [List.length_append, List.length_replicate, ← List.length_append, List.rdropWhile_append_rtakeWhile]

theorem stripBody_concat (p : List UInt8) (b : UInt8) (t : List UInt8) (hp : p.length < 2 ^ 32) :
    stripBody ⟨p ++ [b] ++ t, pred32 (p ++ [b]).length, false⟩ =
      if isLineEnd b then .again ⟨p ++ 0 :: t, pred32 p.length, false⟩
      else .leave ⟨p ++ [b] ++ t, p.length, false⟩ := by
  have hi : pred32 (p ++ [b]).length = p.length := by rw [List.length_append, List.length_singleton, pred32_succ hp]
  have hget : (p ++ [b] ++ t)[p.length]? = some b := by simp
  have hset : (p ++ [b] ++ t).set p.length 0 = p ++ 0 :: t := by simp
  unfold stripBody
  rw [hi]
  simp only [hget, hset]

/-! ## The loop -/

/-- It ends at the last character that is no line end. -/
theorem ends_strip {p : List UInt8} (t : List UInt8) (hp : p.length ≤ 2 ^ 32) (h : ∃ b ∈ p, ¬ isLineEnd b) :
    ∃ i, Ends stripBody ⟨p ++ t, pred32 p.length, false⟩ ⟨stripped p ++ t, i, false⟩ := by
  induction p using List.reverseRecOn generalizing t with
  | nil =>
    obtain ⟨b, hb, -⟩ := h
    cases hb
  | append_singleton p b ih =>
    rw [List.length_append, List.length_singleton] at hp
    have hpass := stripBody_concat p b t hp
    by_cases hb : isLineEnd b
    · rw [if_pos hb] at hpass
      have hp' : ∃ c ∈ p, ¬ isLineEnd c := by
        obtain ⟨c, hc, hnot⟩ := h
        rcases List.mem_append.mp hc with hc | hc
        · exact ⟨c, hc, hnot⟩
        · rw [List.mem_singleton.mp hc] at hnot
          exact absurd hb hnot
      obtain ⟨i, hi⟩ := ih (0 :: t) (by omega) hp'
      use i
      rw [stripped_concat_pos hb, List.append_assoc (stripped p)]
      exact .again hpass hi
    · rw [if_neg hb] at hpass
      use p.length
      rw [stripped_concat_neg hb]
      exact .leave hpass

/-- Line ends only: it comes to the front of the buffer, where the index wraps. -/
theorem ends_strip_iff {p : List UInt8} (t : List UInt8) (hp : p.length ≤ 2 ^ 32) (h : ∀ b ∈ p, isLineEnd b)
    (u : Strip) :
    Ends stripBody ⟨p ++ t, pred32 p.length, false⟩ u ↔ Ends stripBody ⟨stripped p ++ t, 2 ^ 32 - 1, false⟩ u := by
  induction p using List.reverseRecOn generalizing t with
  | nil => exact Iff.rfl
  | append_singleton p b ih =>
    rw [List.length_append, List.length_singleton] at hp
    obtain ⟨hinit, hb⟩ := List.forall_mem_append.mp h
    have hb := hb b (List.mem_singleton_self b)
    have hpass := stripBody_concat p b t hp
    rw [if_pos hb] at hpass
    rw [ends_again_iff hpass, ih (0 :: t) (by omega) hinit, stripped_concat_pos hb, List.append_assoc,
      List.singleton_append]

theorem hgicfOtaSendData_eq {data : List UInt8} (hlen : data.length < 2 ^ 32) :
    hgicfOtaSendData data = ⟨data ++ [0], pred32 data.length, false⟩ := by
  unfold hgicfOtaSendData hgicStripTail
  rw [Nat.mod_eq_of_lt hlen]

/-- From there the loop leaves the buffer, unless the index comes to the terminating zero. -/
theorem stripsTail_iff_of_all {data : List UInt8} (hlen : data.length < 2 ^ 32) (h : ∀ b ∈ data, isLineEnd b) :
    StripsTail data ↔ data.length = 2 ^ 32 - 1 := by
  have hends : StripsTail data ↔ ∃ s, Ends stripBody ⟨stripped data ++ [0], 2 ^ 32 - 1, false⟩ s ∧
      s.outside = false ∧ s.str = stripped data ++ [0] := by
    unfold StripsTail
    rw [hgicfOtaSendData_eq hlen]
    simp only [ends_strip_iff [0] (Nat.le_of_lt hlen) h]
  rw [hends]
  by_cases hwrap : data.length = 2 ^ 32 - 1
  · have hget : (stripped data ++ [0])[2 ^ 32 - 1]? = some 0 := by
      rw [← hwrap, ← length_stripped]
      exact List.getElem?_concat_length
    have hpass : stripBody ⟨stripped data ++ [0], 2 ^ 32 - 1, false⟩ =
        .leave ⟨stripped data ++ [0], 2 ^ 32 - 1, false⟩ := by
      unfold stripBody
      rw [hget]
      rfl
    -- `str[i]` is the terminating zero, and the loop stops there
    rw [exists_ends_leave_iff hpass]
    exact iff_of_true ⟨rfl, rfl⟩ hwrap
  · have hget : (stripped data ++ [0])[2 ^ 32 - 1]? = none := by
      rw [List.getElem?_eq_none_iff, List.length_append, length_stripped, List.length_singleton]
      omega
    have hpass : stripBody ⟨stripped data ++ [0], 2 ^ 32 - 1, false⟩ =
        .leave ⟨stripped data ++ [0], 2 ^ 32 - 1, true⟩ := by
      unfold stripBody
      rw [hget]
    rw [exists_ends_leave_iff hpass]
    exact iff_of_false (fun hin => Bool.noConfusion hin.1) hwrap

/-- **The buffer of `hgicf_ota_send_data`**: the loop stays in it and strips the text exactly when there is a character
to stop at. -/
theorem stripsTail_iff {data : List UInt8} (hlen : data.length < 2 ^ 32) :
    StripsTail data ↔ (∃ b ∈ data, ¬ isLineEnd b) ∨ data.length = 2 ^ 32 - 1 := by
  by_cases h : ∃ b ∈ data, ¬ isLineEnd b
  · refine iff_of_true ?_ (.inl h)
    obtain ⟨i, hi⟩ := ends_strip [0] (Nat.le_of_lt hlen) h
    refine ⟨⟨stripped data ++ [0], i, false⟩, ?_, rfl, rfl⟩
    rw [hgicfOtaSendData_eq hlen]
    exact hi
  · rw [or_iff_right h]
    simp only [not_exists, not_and, not_not] at h
    exact stripsTail_iff_of_all hlen h

/-- A path with a line end behind it, and a CR and two LF. -/
theorem stripsTail_path : StripsTail (bytes "/lib/firmware/hgicf.bin" ++ [13, 10, 10]) :=
  (stripsTail_iff (by decide)).mpr (.inl ⟨47, by decide, by decide⟩)

/-- A write of no byte, and one of a single LF. -/
theorem stripTail_outside : ¬ StripsTail [] ∧ ¬ StripsTail [10] := by
  constructor
  · rw [stripsTail_iff_of_all (by decide) (List.forall_mem_nil _)]
    decide
  · rw [stripsTail_iff_of_all (by decide) (List.forall_mem_singleton.mpr rfl)]
    decide

end HgicFmac.Ota
