import HgicFmac.Iwpriv.TestApp
import HgicFmac.Lib.Decimal

/-!
# Integers from `test_app` to the device

`test_app` prints integers into the text of a request, and the driver reads them from there.

* `valueText`, `setValue`, `hgicIwprivSetInt`, `hgicIwprivSetIntarray` : the requests; `Malloc.HoldsText` : the block
  for a text has a byte for the 0 behind it;
* `pickValues_ints` : the driver reads the integers that were printed;
* `chan_list_sent_iff` : when the command for a list of channels is sent.
-/

namespace HgicFmac.Iwpriv
open Lib Fwctrl

/-! ## The requests -/

/-- The text `ifname set name=value`. -/
def valueText (ifname name value : List UInt8) : List UInt8 := ifname ++ bytes " set " ++ (name ++ 61 :: value)

/-- `sprintf` to `cmd[size]`, and `hgic_iwpriv_do` with nothing but the text. -/
def setValue (a : Malloc) (user : User) (e : Endian) (sys : Sys) (size : Nat) (ifname name value : List UInt8) :
    Run DoOut :=
  if (valueText ifname name value).length < size then
    hgicIwprivDoIn a user e sys (valueText ifname name value) [] 0
  else .error .overflow

def hgicIwprivSetInt (a : Malloc) (user : User) (e : Endian) (sys : Sys) (ifname name : List UInt8) (val : Int32) :
    Run DoOut :=
  setValue a user e sys 64 ifname name (dec val.toInt)

/-- The loop over the integers; `first` is `i == 0`. -/
def printInts : (first : Bool) → List Int32 → List UInt8
  | _, [] => []
  | first, v :: vals => (if first then [] else [44]) ++ dec v.toInt ++ printInts false vals

def hgicIwprivSetIntarray (a : Malloc) (user : User) (e : Endian) (sys : Sys) (ifname name : List UInt8)
    (vals : List Int32) : Run DoOut :=
  setValue a user e sys 512 ifname name (printInts true vals)

def TestApp.hgicIwprivSetChanList (a : Malloc) (user : User) (e : Endian) (sys : Sys) (ifname : List UInt8)
    (vals : List Int32) : Run DoOut :=
  hgicIwprivSetIntarray a user e sys ifname (bytes "chan_list") vals

theorem valueText_length (ifname name value : List UInt8) :
    (valueText ifname name value).length = ifname.length + name.length + value.length + 6 := by
  have h5 : (bytes " set ").length = 5 := rfl
  simp only [valueText, List.length_append, List.length_cons, h5]
  omega

/-- `malloc` of the length of a text gives room for the 0 behind it. -/
def Malloc.HoldsText (a : Malloc) (text : List UInt8) : Prop := text.length < a.usable text.length

instance (a : Malloc) (text : List UInt8) : Decidable (a.HoldsText text) := inferInstanceAs (Decidable (_ < _))

theorem requestIn_text (a : Malloc) (text : List UInt8) :
    requestIn a text [] 0 = if a.HoldsText text then .ok text else .error .overflow := by
  show (if text.length < a.usable (text.length + 0) then Except.ok (text ++ [] ++ []) else _) = _
  rw [Nat.add_zero, List.append_nil, List.append_nil]
  rfl

theorem setValue_iff {a : Malloc} {e : Endian} {s : Sys} {size : Nat} {ifname name value : List UInt8}
    {p : List UInt8 → Prop} :
    (∃ o, setValue a ⟨true, true⟩ e s size ifname name value = .ok o ∧ p o.wrote) ↔
      (valueText ifname name value).length < size ∧ a.HoldsText (valueText ifname name value) ∧
        p (valueText ifname name value) := by
  unfold setValue
  by_cases hfit : (valueText ifname name value).length < size
  · rw [if_pos hfit, and_iff_right hfit]
    by_cases hholds : a.HoldsText (valueText ifname name value)
    · obtain ⟨o, ho, hwrote⟩ := doIn_wrote ((requestIn_text a _).trans (if_pos hholds)) e s
      rw [ho, and_iff_right hholds, ← hwrote]
      constructor
      · rintro ⟨o', heq, hp⟩
        rw [Except.ok.inj heq]
        exact hp
      · intro hp
        exact ⟨o, rfl, hp⟩
    · refine iff_of_false ?_ fun h => hholds h.1
      rintro ⟨o, ho, -⟩
      unfold hgicIwprivDoIn at ho
      rw [if_pos rfl, requestIn_text, if_neg hholds] at ho
      cases ho
  · rw [if_neg hfit]
    exact iff_of_false nofun fun h => hfit h.1

/-- What the driver sends for the buffer that is written. -/
def sentBy (env : WriteEnv) (run : Run DoOut) : Run (Option Msg) := do
  let o ← run
  (hgicfIwprivWrite env o.wrote).sent

theorem sentBy_setValue {env : WriteEnv} {a : Malloc} {e : Endian} {sys : Sys} {size : Nat}
    {ifname name value : List UInt8} {m : Option Msg} :
    sentBy env (setValue a ⟨true, true⟩ e sys size ifname name value) = .ok m ↔
      (valueText ifname name value).length < size ∧ a.HoldsText (valueText ifname name value) ∧
        (hgicfIwprivWrite env (valueText ifname name value)).sent = .ok m := by
  refine Iff.trans ?_ (setValue_iff (p := fun w => (hgicfIwprivWrite env w).sent = .ok m) (e := e) (s := sys))
  cases setValue a ⟨true, true⟩ e sys size ifname name value with
  | error f => exact iff_of_false nofun nofun
  | ok o =>
    constructor
    · intro h
      exact ⟨o, rfl, h⟩
    · rintro ⟨o', heq, h⟩
      rw [Except.ok.inj heq]
      exact h

/-! ## What the driver reads -/

theorem dec_ne {x : Int} {b c : UInt8} (h : b ∈ dec x) (hc : c ≠ 45 ∧ ¬ (48 ≤ c.toNat ∧ c.toNat ≤ 57)) : b ≠ c := by
  rintro rfl
  rcases dec_mem h with h45 | hdig
  · exact hc.1 h45
  · exact hc.2 hdig

theorem printInts_cons (v : Int32) (vals : List Int32) :
    printInts true (v :: vals) = [44].intercalate ((v :: vals).map fun v => dec v.toInt) := by
  induction vals generalizing v with
  | nil => simp [printInts]
  | cons w vals ih =>
    have hw := ih w
    simp only [printInts, if_true, List.nil_append, List.map_cons] at hw ⊢
    rw [List.intercalate_cons_cons, ← hw]
    simp

theorem printInts_mem {first : Bool} {vals : List Int32} {b : UInt8} (h : b ∈ printInts first vals) : b ≠ 0 := by
  induction vals generalizing first with
  | nil => cases h
  | cons v vals ih =>
    rw [printInts, List.mem_append, List.mem_append] at h
    rcases h with (h | h) | h
    · split at h
      · cases h
      · rw [List.mem_singleton.mp h]
        decide
    · exact dec_ne h (by decide)
    · exact ih h

theorem printInts_ne_nil {v : Int32} {vals : List Int32} : printInts true (v :: vals) ≠ [] := by
  intro h
  have hlen := congrArg List.length h
  have hpos := dec_length_pos v.toInt
  simp only [printInts, List.length_append, List.length_nil] at hlen
  omega

/-- Whatever the base of a single number: the text of a 0 is read in base 8. -/
theorem pickValues_ints {vals : List Int32} (hne : vals ≠ []) (size : Nat) :
    hgicPickValues size (printInts true vals) = (vals.take size).map (·.toInt) := by
  obtain ⟨v, vals, rfl⟩ := List.exists_cons_of_ne_nil hne
  have hcstr : cstr (printInts true (v :: vals)) = printInts true (v :: vals) :=
    cstr_eq_self fun b hb => printInts_mem hb
  have hsplit : (printInts true (v :: vals)).splitOn 44 = (v :: vals).map fun v => dec v.toInt := by
    rw [printInts_cons]
    apply List.splitOn_intercalate
    · intro l hl h44
      obtain ⟨w, -, rfl⟩ := List.mem_map.mp hl
      exact dec_ne h44 (by decide) rfl
    · exact List.cons_ne_nil _ _
  unfold hgicPickValues
  rw [hcstr, if_neg printInts_ne_nil, hsplit, ← List.map_take, List.map_map]
  apply List.map_congr_left
  intro w _
  exact simpleStrtol_dec (.inr rfl) w.toInt

theorem setBytes_sent {env : SetEnv} (hr : env.r.alloc = true) (ifidx id : Nat) {data : List UInt8}
    (hlen : data.length ≤ maxCmdLen) : (hgicFwctrlSetBytes env ifidx id data).sent = some (.cmd ifidx id data) := by
  exact if_pos (sends_of_le hr hlen)

/-! ## A list of channels -/

/-- The number of channels and the channels, of which the driver takes 32. -/
def chanListPayload (vals : List Int32) : List UInt8 :=
  le16 (min vals.length 32 : Nat) ++ (vals.take 32).flatMap fun v => le16 v.toInt

theorem chanListPayload_length (vals : List Int32) : (chanListPayload vals).length ≤ maxCmdLen := by
  have hle := List.length_take_le 32 vals
  unfold chanListPayload maxCmdLen
  rw [List.length_append, List.length_flatMap, length_le16]
  simp only [length_le16, List.map_const', List.sum_replicate_nat]
  omega

theorem chanList_ints {env : SetEnv} (hkmem : env.kmem = true) (ifidx : Nat) {vals : List Int32} (hne : vals ≠ []) :
    hgicIwprivSetChanList env ifidx (printInts true vals) =
      .ok (hgicFwctrlSetBytes env ifidx HgicCmd.setChanList (chanListPayload vals)) := by
  have hcstr : cstr (printInts true vals) ≠ [] := by
    obtain ⟨v, vals, rfl⟩ := List.exists_cons_of_ne_nil hne
    rw [cstr_eq_self fun b hb => printInts_mem hb]
    exact printInts_ne_nil
  unfold hgicIwprivSetChanList setNonempty chanListPayload
  rw [if_neg hcstr]
  dsimp only
  rw [if_pos hkmem, pickValues_ints hne, List.length_map, List.length_take, Nat.min_comm, List.flatMap_map]

/-- The number of the channels and the channels are sent exactly when the 0 behind the text lies in its block. -/
theorem chan_list_sent_iff {env : WriteEnv} (henv : env.Succeeds) (hkmem : env.set.kmem = true) {ifname : List UInt8}
    (hif : ∀ b ∈ ifname, b ≠ 32 ∧ b ≠ 0) {vals : List Int32} (hne : vals ≠ [])
    (hfit : (valueText ifname (bytes "chan_list") (printInts true vals)).length < 512) (a : Malloc) :
    sentBy env (TestApp.hgicIwprivSetChanList a ⟨true, true⟩ env.get.e env.sys ifname vals) =
      .ok (some (.cmd env.ifidx HgicCmd.setChanList
        (le16 (min vals.length 32 : Nat) ++ (vals.take 32).flatMap fun v => le16 v.toInt))) ↔
    a.HoldsText (valueText ifname (bytes "chan_list") (printInts true vals)) := by
  have hlen : (bytes "chan_list" ++ 61 :: printInts true vals).length < 2 ^ 16 := by
    rw [valueText_length] at hfit
    rw [List.length_append, List.length_cons]
    omega
  have hsent : (hgicfIwprivWrite env (valueText ifname (bytes "chan_list") (printInts true vals))).sent =
      .ok (some (.cmd env.ifidx HgicCmd.setChanList (chanListPayload vals))) := by
    apply (set_row_sent henv hif .chanList hlen).trans
    show (·.sent) <$> hgicIwprivSetChanList env.set env.ifidx (printInts true vals) = _
    rw [chanList_ints hkmem env.ifidx hne]
    show Except.ok (hgicFwctrlSetBytes _ _ _ _).sent = _
    rw [setBytes_sent henv.cmd _ _ (chanListPayload_length vals)]
  apply sentBy_setValue.trans
  rw [and_iff_right hfit]
  exact and_iff_left hsent

/-- Blocks that end 8 bytes in front of a multiple of 16, of 24 bytes at least. -/
def steps16 : Malloc := ⟨fun n => max 24 (16 * ((n + 23) / 16) - 8), fun n => by omega⟩

/-- Signs, a 0 and a number of more than 16 bits, in a text of 28 characters. -/
theorem chan_list_sent_iff_signs :
    sentBy (calmEnv fun _ => 0) (TestApp.hgicIwprivSetChanList steps16 ⟨true, true⟩ .little (calmEnv fun _ => 0).sys
      (bytes "hg0") [-1, 0, 70000]) = .ok (some (.cmd 1 HgicCmd.setChanList [3, 0, 255, 255, 0, 0, 112, 17])) :=
  Iff.mpr (chan_list_sent_iff ⟨rfl, rfl, rfl, rfl, rfl⟩ rfl (avoids_of_all (by decide)) (List.cons_ne_nil _ _)
    (by decide +kernel) steps16) (by decide +kernel)

/-- The 0 behind the text has no room in a block of the size that is asked for, and behind 24 characters in none of
these. -/
theorem chan_list_no_room :
    sentBy (calmEnv fun _ => 0) (TestApp.hgicIwprivSetChanList .exact ⟨true, true⟩ .little (calmEnv fun _ => 0).sys
      (bytes "hg0") [6]) = .error .overflow ∧
    sentBy (calmEnv fun _ => 0) (TestApp.hgicIwprivSetChanList steps16 ⟨true, true⟩ .little (calmEnv fun _ => 0).sys
      (bytes "hg0") [123456]) = .error .overflow := by
  constructor <;> decide +kernel

end HgicFmac.Iwpriv
