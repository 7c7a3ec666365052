import HgicFmac.Lib.Loop
import HgicFmac.Lib.Text
import Mathlib.Data.List.Basic
import Mathlib.Data.List.GetD

/-!
# The configuration file

`hgicf_load_config` reads the file to a buffer of 2048 zeros and makes a set request of every line, in place: the line
ends become the terminating zeros of the requests.

* `Load`, `loadPass`, `loadBody` : the loop over the lines; `strchrAt`, `strlenAt` : the accesses, which can leave the
  buffer;
* `configLines` : the lines of a text; `Loads` : the loop stays in the buffer and its requests are the lines;
* `loadPass_line`, `loadPass_last` : what a pass does at a line;
* `loads_iff` : which files are loaded so.
-/

namespace HgicFmac.Iwpriv
open Lib

def confSize : Nat := 2048

/-- `conf`, the start of the next line, the texts of the set requests so far. `outside` is set when an access is not in
`conf`. -/
structure Load where
  conf : List UInt8
  str : Option Nat
  requests : List (List UInt8)
  outside : Bool
  deriving DecidableEq, Repr

/-! ## The accesses -/

/-- The first byte with `p` from `i` on, or `none` if the buffer ends before it. -/
def scanAt (p : UInt8 → Bool) (conf : List UInt8) (i : Nat) : Option Nat := ((conf.drop i).findIdx? p).map (i + ·)

def strchrAt (c : UInt8) (conf : List UInt8) (i : Nat) : Option (Option Nat) :=
  (scanAt (fun b => b = c || b = 0) conf i).map fun j => if conf.getD j 0 = c then some j else none

def strlenAt (conf : List UInt8) (i : Nat) : Option Nat := (scanAt (· = 0) conf i).map (· - i)

/-! ## The loop -/

/-- A CR before the line end at `ptr` is replaced, then the line end. -/
def endLine (conf : List UInt8) : Option Nat → Option (List UInt8)
  | none => some conf
  | some 0 => none
  | some (i + 1) => some ((if conf.getD i 0 = 13 then conf.set i 0 else conf).set (i + 1) 0)

/-- A pass from the line at `str`; `none` when it leaves the buffer. -/
def loadPass (s : Load) (str : Nat) : Option Load := do
  let ptr ← strchrAt 10 s.conf str
  let conf ← endLine s.conf ptr
  let length ← strlenAt conf str
  some { s with
    conf := conf
    str := ptr.map (· + 1)
    requests := if 0 < length then s.requests ++ [(conf.drop str).take length] else s.requests }

def loadBody (s : Load) : Pass Load :=
  match s.str with
  | none => .leave s
  | some str => match loadPass s str with
    | some t => .again t
    | none => .leave { s with outside := true }

/-- `hgicf_load_config` as it enters the loop. Without the file or the buffer the loop is not entered. -/
def hgicfLoadConfig (opened alloc : Bool) (file : List UInt8) : Load where
  conf := file.take confSize ++ List.replicate (confSize - file.length) 0
  str := if opened && alloc then some 0 else none
  requests := []
  outside := false

/-! ## The lines of a text -/

/-- Without one CR at the end. -/
def dropCr (line : List UInt8) : List UInt8 := if line.getLast? = some 13 then line.dropLast else line

/-- The lines that are not empty, without their LF and the CR before it. The text behind the last LF has no LF. -/
def configLines (text : List UInt8) : List (List UInt8) :=
  (((text.splitOn 10).dropLast.map dropCr) ++ (text.splitOn 10).getLast?.toList).filter (· ≠ [])

/-- The loop entered in `s` ends in the buffer, and its requests are `lines`. -/
def EndsWith (s : Load) (lines : List (List UInt8)) : Prop :=
  ∃ t, Ends loadBody s t ∧ t.outside = false ∧ t.requests = lines

/-- The file is loaded inside the buffer, and the requests are its lines. -/
def Loads (file : List UInt8) : Prop := EndsWith (hgicfLoadConfig true true file) (configLines file)

theorem configLines_last {text : List UInt8} (h : 10 ∉ text) : configLines text = [text].filter (· ≠ []) := by
  unfold configLines
  rw [List.splitOn_eq_singleton h]
  rfl

theorem configLines_line {line : List UInt8} (h : 10 ∉ line) (rest : List UInt8) :
    configLines (line ++ 10 :: rest) = [dropCr line].filter (· ≠ []) ++ configLines rest := by
  have hne := List.splitOn_ne_nil 10 rest
  unfold configLines
  rw [List.splitOn_append_cons_self, List.splitOn_eq_singleton h, List.singleton_append,
    List.dropLast_cons_of_ne_nil hne, List.getLast?_cons_of_ne_nil hne, List.map_cons, List.cons_append,
    ← List.singleton_append, List.filter_append]

/-! ## One pass -/

theorem scanAt_found {p : UInt8 → Bool} (done : List UInt8) {pre : List UInt8} (hpre : ∀ b ∈ pre, p b = false)
    {b : UInt8} (hb : p b = true) (post : List UInt8) :
    scanAt p (done ++ (pre ++ b :: post)) done.length = some (done.length + pre.length) := by
  have hnone : pre.findIdx? p = none := List.findIdx?_eq_none_iff.mpr hpre
  unfold scanAt
  rw [List.drop_left, List.findIdx?_append, hnone, List.findIdx?_cons, if_pos hb]
  simp

theorem scanAt_none {p : UInt8 → Bool} (done : List UInt8) {rest : List UInt8} (h : ∀ b ∈ rest, p b = false) :
    scanAt p (done ++ rest) done.length = none := by
  unfold scanAt
  rw [List.drop_left, List.findIdx?_eq_none_iff.mpr h]
  rfl

theorem strlenAt_text (done : List UInt8) {text : List UInt8} (h : 0 ∉ text) (post : List UInt8) :
    strlenAt (done ++ (text ++ 0 :: post)) done.length = some text.length := by
  have hpre : ∀ b ∈ text, decide (b = 0) = false := fun b hb => decide_eq_false fun h0 => h (h0 ▸ hb)
  unfold strlenAt
  rw [scanAt_found done hpre rfl, Option.map_some, Nat.add_sub_cancel_left]

theorem scan_line {line : List UInt8} (h10 : 10 ∉ line) (h0 : 0 ∉ line) :
    ∀ b ∈ line, (decide (b = 10) || decide (b = 0)) = false := by
  intro b hb
  rw [Bool.or_eq_false_iff]
  exact ⟨decide_eq_false fun h => h10 (h ▸ hb), decide_eq_false fun h => h0 (h ▸ hb)⟩

theorem strchrAt_found (done : List UInt8) {text : List UInt8} (h10 : 10 ∉ text) (h0 : 0 ∉ text) {b : UInt8}
    (hb : b = 10 ∨ b = 0) (post : List UInt8) :
    strchrAt 10 (done ++ (text ++ b :: post)) done.length =
      some (if b = 10 then some (done.length + text.length) else none) := by
  have hget : (done ++ (text ++ b :: post)).getD (done.length + text.length) 0 = b := by
    rw [← List.append_assoc, ← List.length_append, List.getD_append_right _ _ _ _ (Nat.le_refl _), Nat.sub_self]
    rfl
  have hstop : (decide (b = 10) || decide (b = 0)) = true := by
    rwa [Bool.or_eq_true, decide_eq_true_iff, decide_eq_true_iff]
  unfold strchrAt
  rw [scanAt_found done (scan_line h10 h0) hstop, Option.map_some, hget]

/-- A buffer that is filled to its end by a line without LF. -/
theorem strchrAt_outside (done : List UInt8) {text : List UInt8} (h10 : 10 ∉ text) (h0 : 0 ∉ text) :
    strchrAt 10 (done ++ text) done.length = none := by
  unfold strchrAt
  rw [scanAt_none done (scan_line h10 h0)]
  rfl

theorem endLine_concat (q : List UInt8) (c : UInt8) (rest : List UInt8) :
    endLine (q ++ c :: 10 :: rest) (some (q.length + 1)) = some (q ++ (if c = 13 then 0 else c) :: 0 :: rest) := by
  have hget : (q ++ c :: 10 :: rest).getD q.length 0 = c := by
    rw [List.getD_append_right _ _ _ _ (Nat.le_refl _), Nat.sub_self]
    rfl
  rw [endLine, hget]
  split
  · simp
  · simp

theorem endLine_line {done line : List UInt8} (hne : done = [] → line ≠ []) (hdone : done.getLast? ≠ some 13)
    (rest : List UInt8) :
    ∃ z, endLine (done ++ (line ++ 10 :: rest)) (some (done.length + line.length)) =
        some (done ++ (dropCr line ++ 0 :: List.replicate z 0 ++ rest)) ∧ (dropCr line).length + z = line.length := by
  unfold dropCr
  obtain rfl | ⟨l, c, rfl⟩ := List.eq_nil_or_concat' line
  -- an empty line: the LF is behind the zero of the line before
  · obtain rfl | ⟨q, c, rfl⟩ := List.eq_nil_or_concat' done
    · exact absurd rfl (hne rfl)
    · have hc : c ≠ 13 := by
        intro h
        rw [h] at hdone
        exact hdone List.getLast?_concat
      have hend := endLine_concat q c rest
      rw [if_neg hc] at hend
      refine ⟨0, ?_, rfl⟩
      simpa using hend
  · have hend := endLine_concat (done ++ l) c rest
    have hlast : (l ++ [c]).getLast? = some c := List.getLast?_concat
    rw [hlast]
    by_cases hc : c = 13
    · rw [if_pos hc] at hend
      refine ⟨1, ?_, ?_⟩
      · simpa [hc, Nat.add_assoc] using hend
      · simp [hc]
    · rw [if_neg hc] at hend
      refine ⟨0, ?_, ?_⟩
      · simpa [hc, Nat.add_assoc] using hend
      · simp [hc]

/-- The loop at a line: `done` is behind it, `rest` before it. -/
def atLine (done rest : List UInt8) (requests : List (List UInt8)) : Load :=
  ⟨done ++ rest, some done.length, requests, false⟩

theorem requests_append (requests : List (List UInt8)) (text : List UInt8) :
    (if 0 < text.length then requests ++ [text] else requests) = requests ++ [text].filter (· ≠ []) := by
  cases text with
  | nil => exact (List.append_nil requests).symm
  | cons b text => rfl

theorem loadBody_atLine (done rest : List UInt8) (requests : List (List UInt8)) :
    loadBody (atLine done rest requests) = match loadPass (atLine done rest requests) done.length with
      | some t => .again t
      | none => .leave { atLine done rest requests with outside := true } := rfl

theorem loadBody_again {done rest text post : List UInt8} {ptr : Option Nat}
    (hchr : strchrAt 10 (done ++ rest) done.length = some ptr)
    (hend : endLine (done ++ rest) ptr = some (done ++ (text ++ 0 :: post))) (h0 : 0 ∉ text)
    (requests : List (List UInt8)) :
    loadBody (atLine done rest requests) =
      .again ⟨done ++ (text ++ 0 :: post), ptr.map (· + 1), requests ++ [text].filter (· ≠ []), false⟩ := by
  have htext : ((done ++ (text ++ 0 :: post)).drop done.length).take text.length = text := by
    rw [List.drop_left, List.take_left]
  have hpass : loadPass (atLine done rest requests) done.length =
      some ⟨done ++ (text ++ 0 :: post), ptr.map (· + 1), requests ++ [text].filter (· ≠ []), false⟩ := by
    unfold loadPass atLine
    simp only [hchr, hend, strlenAt_text done h0 post, htext, requests_append, Option.bind_eq_bind, Option.bind_some]
  rw [loadBody_atLine, hpass]

theorem loadBody_outside {done rest : List UInt8} {requests : List (List UInt8)}
    (h : loadPass (atLine done rest requests) done.length = none) :
    loadBody (atLine done rest requests) = .leave { atLine done rest requests with outside := true } := by
  rw [loadBody_atLine, h]

/-- A line: its request, and the loop at the next one. What is behind it ends in a zero. -/
theorem loadBody_line {done line : List UInt8} (h10 : 10 ∉ line) (h0 : 0 ∉ line) (hne : done = [] → line ≠ [])
    (hdone : done.getLast? ≠ some 13) (rest : List UInt8) (requests : List (List UInt8)) :
    ∃ done', done' ≠ [] ∧ done'.getLast? ≠ some 13 ∧ loadBody (atLine done (line ++ 10 :: rest) requests) =
      .again (atLine done' rest (requests ++ [dropCr line].filter (· ≠ []))) := by
  obtain ⟨z, hend, hz⟩ := endLine_line hne hdone rest
  have hchr := strchrAt_found done h10 h0 (.inl rfl) rest
  rw [if_pos rfl] at hchr
  have h0' : 0 ∉ dropCr line := by
    intro h
    unfold dropCr at h
    split at h
    · exact h0 (List.dropLast_subset line h)
    · exact h0 h
  rw [List.append_assoc, List.cons_append] at hend
  have hpass := loadBody_again hchr hend h0' requests
  refine ⟨done ++ (dropCr line ++ List.replicate (z + 1) 0), ?_, ?_, ?_⟩
  · simp
  · rw [List.replicate_succ', ← List.append_assoc, ← List.append_assoc, List.getLast?_concat]
    decide
  · rw [hpass]
    unfold atLine
    simp only [List.length_append, List.length_cons, List.length_replicate, List.replicate_succ, Option.map_some,
      List.append_assoc, List.cons_append]
    rw [show done.length + line.length + 1 = done.length + ((dropCr line).length + (z + 1)) by omega]

theorem loadBody_last (done : List UInt8) {text : List UInt8} (h10 : 10 ∉ text) (h0 : 0 ∉ text) (zeros : List UInt8)
    (requests : List (List UInt8)) :
    loadBody (atLine done (text ++ 0 :: zeros) requests) =
      .again ⟨done ++ (text ++ 0 :: zeros), none, requests ++ [text].filter (· ≠ []), false⟩ :=
  loadBody_again (strchrAt_found done h10 h0 (.inr rfl) zeros) rfl h0 requests

theorem loadBody_full (done : List UInt8) {text : List UInt8} (h10 : 10 ∉ text) (h0 : 0 ∉ text)
    (requests : List (List UInt8)) :
    loadBody (atLine done text requests) = .leave { atLine done text requests with outside := true } := by
  apply loadBody_outside
  unfold loadPass atLine
  rw [strchrAt_outside done h10 h0]
  rfl

/-- An empty first line: the byte before the buffer is read. -/
theorem loadBody_first (rest : List UInt8) (requests : List (List UInt8)) :
    loadBody (atLine [] (10 :: rest) requests) = .leave { atLine [] (10 :: rest) requests with outside := true } := by
  apply loadBody_outside
  have hchr := strchrAt_found [] List.not_mem_nil List.not_mem_nil (.inl rfl) rest
  unfold loadPass atLine
  rw [List.nil_append, List.nil_append] at hchr
  rw [List.nil_append, hchr]
  rfl

/-! ## The whole file -/

theorem not_endsWith {s : Load} (h : loadBody s = .leave { s with outside := true }) (lines : List (List UInt8)) :
    ¬ EndsWith s lines := by
  unfold EndsWith
  rw [exists_ends_leave_iff h]
  exact fun hin => Bool.noConfusion hin.1

theorem endsWith_again {s t : Load} (h : loadBody s = .again t) (lines : List (List UInt8)) :
    EndsWith s lines ↔ EndsWith t lines := exists_ends_again_iff h

/-- The loop on the rest of a file, with `k` zeros behind it. A further line is reached behind a zero, so only the first
one can be the empty line at the start of the buffer. -/
theorem endsWith_iff (k : Nat) {text done : List UInt8} (h0 : 0 ∉ text) (hdone : done.getLast? ≠ some 13)
    (requests : List (List UInt8)) :
    EndsWith (atLine done (text ++ List.replicate k 0) requests) (requests ++ configLines text) ↔
      0 < k ∧ (done = [] → text.head? ≠ some 10) := by
  induction hn : text.length using Nat.strongRecOn generalizing text done requests with
  | ind n ih =>
    by_cases h10 : 10 ∈ text
    · obtain ⟨line, rest, rfl, hline⟩ := List.eq_append_cons_of_mem h10
      have h0line : 0 ∉ line := fun h => h0 (List.mem_append_left _ h)
      have h0rest : 0 ∉ rest := fun h => h0 (List.mem_append_right _ (List.mem_cons_of_mem _ h))
      rw [List.append_assoc, List.cons_append]
      by_cases hne : done = [] → line ≠ []
      · obtain ⟨done', hne', hdone', hpass⟩ :=
          loadBody_line hline h0line hne hdone (rest ++ List.replicate k 0) requests
        have hlt : rest.length < n := by
          rw [← hn, List.length_append, List.length_cons]
          omega
        have hhead : done = [] → (line ++ 10 :: rest).head? ≠ some 10 := by
          intro h
          rw [List.head?_append_of_ne_nil _ (hne h)]
          exact fun hh => hline (List.mem_of_mem_head? hh)
        rw [endsWith_again hpass, configLines_line hline, ← List.append_assoc, ih _ hlt h0rest hdone' _ rfl]
        exact and_congr_right fun _ => iff_of_true (fun h => absurd h hne') hhead
      · obtain ⟨rfl, rfl⟩ : done = [] ∧ line = [] := by
          simpa using hne
        exact iff_of_false (not_endsWith (loadBody_first _ requests) _) fun h => h.2 rfl rfl
    · have hhead : text.head? ≠ some 10 := fun h => h10 (List.mem_of_mem_head? h)
      rw [configLines_last h10]
      cases k with
      | zero =>
        rw [List.replicate_zero, List.append_nil]
        exact iff_of_false (not_endsWith (loadBody_full done h10 h0 requests) _) fun h => Nat.not_lt_zero 0 h.1
      | succ k =>
        refine iff_of_true ?_ ⟨Nat.succ_pos k, fun _ => hhead⟩
        rw [List.replicate_succ, endsWith_again (loadBody_last done h10 h0 _ requests)]
        exact ⟨_, .leave rfl, rfl, rfl⟩

/-- **The configuration file**: it is loaded inside the buffer exactly when it leaves room for a zero and does not begin
with an LF. -/
theorem loads_iff {file : List UInt8} (h0 : 0 ∉ file) (hlen : file.length ≤ 2048) :
    Loads file ↔ file.length < 2048 ∧ file.head? ≠ some 10 := by
  have hstart : hgicfLoadConfig true true file = atLine [] (file ++ List.replicate (2048 - file.length) 0) [] := by
    unfold hgicfLoadConfig atLine confSize
    rw [List.take_of_length_le hlen]
    rfl
  have hiff := @endsWith_iff (2048 - file.length) file [] h0 (by decide) []
  rw [List.nil_append] at hiff
  unfold Loads
  rw [hstart, hiff, Nat.sub_pos_iff_lt]
  exact and_congr_right fun _ => forall_prop_of_true rfl

/-- A CR before the LF, an empty line, and a last line without LF. -/
theorem loads_lines : Loads (bytes "ssid=a\r\n\nmode=ap") ∧
    configLines (bytes "ssid=a\r\n\nmode=ap") = [bytes "ssid=a", bytes "mode=ap"] :=
  ⟨(loads_iff (by decide) (by decide)).mpr (by decide), by decide⟩

/-- A file that is one LF. -/
theorem load_empty_line : ¬ Loads (bytes "\n") := by
  have hstart : hgicfLoadConfig true true (bytes "\n") = atLine [] (10 :: List.replicate 2047 0) [] := rfl
  unfold Loads
  rw [hstart]
  exact not_endsWith (loadBody_first _ _) _

end HgicFmac.Iwpriv
