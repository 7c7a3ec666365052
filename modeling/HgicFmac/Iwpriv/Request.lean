import HgicFmac.Fwctrl.Cmd
import HgicFmac.Lib.Guarded
import HgicFmac.Lib.Text
import Mathlib.Data.List.Basic

/-!
# What a set handler does with its request

A handler of `hgpriv_sets` gets a pointer into the copy of the request and the number of bytes left there, behind which
lies a terminating 0. `data` is not NULL: the caller found the `=` before it.

* `Fault` : an access or a length that the request does not cover; `Run` : a computation that stops there;
* `textAt`, `byteAt`, `readAt`, `cellsAt`, `lenSub`, `memcmp` : the accesses;
* `Msg`, `Res`, `SetEnv` : what is sent, the result and what the handler does not decide;
* `hgicFwctrlSetBytes`, `hgicFwctrlSetByte`, `hgicFwctrlSetIntVal`, `setCells`, `setBytesAt` : the commands;
* `hgicPickValues`, `hgicPickMacaddr` : the parsers of `hgic_def.h` and `utils.c`;
* `MacText` : the texts that `hgic_pick_macaddr` reads without a fault (`pickMacaddr_runs`).
-/

namespace HgicFmac.Iwpriv
open Lib Fwctrl

inductive Fault
  /-- A read that is neither of the request with its terminating 0 nor of a local that was written. -/
  | outside
  | underflow
  /-- A byte that is sent, and is the terminating 0. -/
  | notRequest
  /-- A text that is longer than the array it is written to. -/
  | overflow
  deriving DecidableEq, Repr

abbrev Run := Except Fault

/-- What the C implementation decides: whether `char` is signed, and whether `memcmp` reads all its bytes or stops at
the first difference. -/
structure Plat where
  charSigned : Bool
  memcmpAll : Bool

/-- What is sent: a command, or a Bluetooth frame. -/
inductive Msg
  | cmd (ifidx id : Nat) (payload : List UInt8)
  | hci (type : UInt8) (data : List UInt8)
  deriving DecidableEq, Repr

structure Res where
  ret : Int
  sent : Option Msg
  deriving DecidableEq, Repr

/-- `r` is the outcome of the command, `kmem` that of an allocation of the handler, `sleep` the flag
`HGIC_BUS_FLAGS_SLEEP` and `version` that of the firmware. -/
structure SetEnv where
  plat : Plat
  r : Reply
  kmem : Bool
  sleep : Bool
  version : Nat

/-! ## Accesses -/

/-- `data + off`, read as a string. -/
def textAt (v : List UInt8) (off : Nat) : Run (List UInt8) :=
  if off ≤ v.length then .ok (v.drop off) else .error .outside

def byteAt (v : List UInt8) (off : Nat) : Run UInt8 := if off ≤ v.length then .ok (v.getD off 0) else .error .outside

/-- `memcpy` of `n` bytes to a local. -/
def readAt (v : List UInt8) (n : Nat) : Run (List UInt8) :=
  if n ≤ v.length + 1 then .ok ((v ++ [0]).take n) else .error .outside

/-- A byte of the request, or `none` for the terminating 0. -/
abbrev Cell := Option UInt8

/-- `n` bytes at `data + off`. -/
def cellsAt (v : List UInt8) (off n : Nat) : Run (List Cell) :=
  if off + n ≤ v.length + 1 then .ok (((v.map some ++ [none]).drop off).take n) else .error .outside

def lenSub (v : List UInt8) (n : Nat) : Run Nat := if n ≤ v.length then .ok (v.length - n) else .error .underflow

/-- `memcmp(data, key, n) == 0` for the `n` bytes of `key`. Stopping at the first difference it stops at the terminating
0 at the latest. -/
def memcmp (plat : Plat) (v key : List UInt8) : Run Bool :=
  if plat.memcmpAll ∧ v.length + 1 < key.length then .error .outside else .ok (key.isPrefixOf v)

theorem textAt_runs {v : List UInt8} {off : Nat} : Runs (textAt v off) ↔ off ≤ v.length := runs_guard

theorem byteAt_runs {v : List UInt8} {off : Nat} : Runs (byteAt v off) ↔ off ≤ v.length := runs_guard

theorem lenSub_runs {v : List UInt8} {n : Nat} : Runs (lenSub v n) ↔ n ≤ v.length := runs_guard

theorem cellsAt_runs {v : List UInt8} {off n : Nat} : Runs (cellsAt v off n) ↔ off + n ≤ v.length + 1 := runs_guard

/-! ## Numbers and commands -/

/-- The conversions of C, by their bits. -/
def u8 (x : Int) : UInt8 := UInt8.ofNat (x % 2 ^ 8).toNat
def le16 (x : Int) : List UInt8 := bytes16 .little (x % 2 ^ 16).toNat
def le32 (x : Int) : List UInt8 := bytes32 .little (x % 2 ^ 32).toNat

theorem length_le16 (x : Int) : (le16 x).length = 2 := length_bytes16 ..

def toS8 (x : Int) : Int := if x % 2 ^ 8 < 2 ^ 7 then x % 2 ^ 8 else x % 2 ^ 8 - 2 ^ 8

def toS32 (x : Int) : Int := if x % 2 ^ 32 < 2 ^ 31 then x % 2 ^ 32 else x % 2 ^ 32 - 2 ^ 32

def charVal (plat : Plat) (b : UInt8) : Int := if plat.charSigned then toS8 b.toNat else b.toNat

/-- `hgic_fwctrl_set_bytes` with bytes that the caller has. -/
def hgicFwctrlSetBytes (env : SetEnv) (ifidx id : Nat) (data : List UInt8) : Res where
  ret := (hgicFwctrlDoCmd env.r data.length 0).1
  sent := if env.r.sends data.length then some (.cmd ifidx id data) else none

def hgicFwctrlSetByte (env : SetEnv) (ifidx id : Nat) (val : Int) : Res := hgicFwctrlSetBytes env ifidx id [u8 val]

def hgicFwctrlSetIntVal (env : SetEnv) (ifidx id : Nat) (val : Int) : Res := hgicFwctrlSetBytes env ifidx id (le32 val)

/-- `hgic_fwctrl_set_bytes` with bytes of the request. -/
def setCells (env : SetEnv) (ifidx id : Nat) (data : List Cell) : Run Res :=
  if env.r.sends data.length ∧ none ∈ data then .error .notRequest
  else .ok (hgicFwctrlSetBytes env ifidx id (data.map (·.getD 0)))

/-- `hgic_fwctrl_set_bytes` with a pointer into the request, which is read only if the command is built. -/
def setBytesAt (env : SetEnv) (ifidx id : Nat) (v : List UInt8) (off n : Nat) : Run Res :=
  if env.r.sends n then cellsAt v off n >>= setCells env ifidx id
  else .ok ⟨(hgicFwctrlDoCmd env.r n 0).1, none⟩

theorem none_mem_cells {v : List UInt8} {off n : Nat} {cs : List Cell} (h : cellsAt v off n = .ok cs) (hn : 0 < n) :
    none ∈ cs ↔ v.length < off + n := by
  unfold cellsAt at h
  split at h
  · next hle =>
    cases h
    by_cases hv : v.length < off + n
    · refine iff_of_true ?_ hv
      have hlen : (v.map some).length = v.length := List.length_map ..
      have hoff : off ≤ v.length := by omega
      rw [List.drop_append_of_le_length (by omega), List.take_of_length_le (by simp; omega)]
      exact List.mem_append_right _ List.mem_cons_self
    · refine iff_of_false ?_ hv
      rw [List.drop_append_of_le_length (by simp; omega), List.take_append_of_le_length (by simp; omega)]
      intro hm
      obtain ⟨b, -, hb⟩ := List.mem_map.mp (List.mem_of_mem_drop (List.mem_of_mem_take hm))
      cases hb
  · cases h

theorem length_cells {v : List UInt8} {off n : Nat} {cs : List Cell} (h : cellsAt v off n = .ok cs) :
    cs.length = n := by
  unfold cellsAt at h
  split at h
  · next hle =>
    cases h
    simp only [List.length_take, List.length_drop, List.length_append, List.length_map, List.length_singleton]
    omega
  · cases h

theorem setCells_runs {env : SetEnv} {ifidx id : Nat} {cs : List Cell} :
    Runs (setCells env ifidx id cs) ↔ (env.r.sends cs.length = true → none ∉ cs) := by
  unfold setCells
  split
  · next h => exact iff_of_false nofun fun hn => hn h.1 h.2
  · next h => exact iff_of_true (runs_ok _) fun hs hm => h ⟨hs, hm⟩

theorem setBytesAt_runs {env : SetEnv} {ifidx id : Nat} {v : List UInt8} {off n : Nat} (hoff : off ≤ v.length) :
    Runs (setBytesAt env ifidx id v off n) ↔ (env.r.sends n = true → off + n ≤ v.length) := by
  unfold setBytesAt
  split
  · next hs =>
    rw [forall_prop_of_true hs, runs_bind]
    constructor
    · rintro ⟨cs, hcs, h⟩
      rw [setCells_runs, length_cells hcs, forall_prop_of_true hs] at h
      by_contra hn
      exact h ((none_mem_cells hcs (by omega)).mpr (by omega))
    · intro h
      obtain ⟨cs, hcs⟩ := cellsAt_runs.mpr (Nat.le_succ_of_le h)
      refine ⟨cs, hcs, setCells_runs.mpr fun _ hm => ?_⟩
      by_cases hn : n = 0
      · rw [List.eq_nil_of_length_eq_zero ((length_cells hcs).trans hn)] at hm
        cases hm
      · exact absurd ((none_mem_cells hcs (by omega)).mp hm) (by omega)
  · next hs => exact iff_of_true (runs_ok _) fun h => absurd h hs

/-! ## `hgic_pick_values` -/

/-- The numbers that the macro stores, at most `size` of them; the rest of the array is 0. -/
def hgicPickValues (size : Nat) (s : List UInt8) : List Int :=
  if cstr s = [] then [] else (((cstr s).splitOn 44).take size).map (simpleStrtol 0)

/-! ## `hgic_pick_macaddr` -/

def hgicHex2num (c : UInt8) : Nat :=
  if 48 ≤ c ∧ c ≤ 57 then c.toNat - 48
  else if 97 ≤ c ∧ c ≤ 102 then c.toNat - 97 + 10
  else if 65 ≤ c ∧ c ≤ 70 then c.toNat - 65 + 10
  else 0

/-- The two bytes at `ptr`; `tmp` is what was written there. -/
def hgicHex2byte : (tmp : List UInt8) → Run UInt8
  | a :: b :: _ => .ok (UInt8.ofNat (hgicHex2num a * 16 ||| hgicHex2num b))
  | _ => .error .outside

/-- `strchr(ptr, ':')` in `tmp`, of which only the first bytes were written. -/
def colon : (tmp : List UInt8) → Run (Option (List UInt8 × List UInt8))
  | [] => .error .outside
  | b :: tmp =>
    if b = 58 then .ok (some ([], tmp))
    else if b = 0 then .ok none
    else (Option.map fun r => (b :: r.1, r.2)) <$> colon tmp

/-- The loop, with `n` rounds left; `*ptr` is read before `i < 6` is checked. -/
def pickLoop : (n : Nat) → (ptr : Option (List UInt8)) → Run (List UInt8)
  | _, none => .ok []
  | _, some [] => .error .outside
  | 0, some (_ :: _) => .ok []
  | n + 1, some (b :: tmp) =>
    if b = 0 then .ok [] else do
      let p ← colon (b :: tmp)
      let x ← hgicHex2byte (match p with
        | some (field, rest) => field ++ 0 :: rest
        | none => b :: tmp)
      (x :: ·) <$> pickLoop n (p.map (·.2))

/-- The address, and whether it has six parts; `str` is the text with what lies behind it. -/
def hgicPickMacaddr (str : List UInt8) : Run (List UInt8 × Bool) := do
  let tmp ← readAt str 17
  let parts ← pickLoop 6 (some tmp)
  return (parts ++ List.replicate (6 - parts.length) 0, parts.length == 6)

theorem colon_cases (tmp : List UInt8) :
    colon tmp = .error .outside ∧ 58 ∉ tmp ∧ 0 ∉ tmp ∨ colon tmp = .ok none ∧ 0 ∈ tmp ∧ 58 ∉ cstr tmp ∨
      ∃ field rest, colon tmp = .ok (some (field, rest)) ∧ tmp = field ++ 58 :: rest ∧ 58 ∉ field ∧ 0 ∉ field := by
  induction tmp with
  | nil => exact .inl ⟨rfl, List.not_mem_nil, List.not_mem_nil⟩
  | cons b tmp ih =>
    rw [colon]
    by_cases hb : b = 58
    · rw [if_pos hb, hb]
      exact .inr (.inr ⟨[], tmp, rfl, rfl, List.not_mem_nil, List.not_mem_nil⟩)
    by_cases h0 : b = 0
    · rw [if_neg hb, if_pos h0, h0]
      exact .inr (.inl ⟨rfl, List.mem_cons_self, List.not_mem_nil⟩)
    have hcons : ∀ {s : List UInt8}, 58 ∉ s → 58 ∉ b :: s := List.not_mem_cons_of_ne_of_not_mem (Ne.symm hb)
    have hcons0 : ∀ {s : List UInt8}, 0 ∉ s → 0 ∉ b :: s := List.not_mem_cons_of_ne_of_not_mem (Ne.symm h0)
    rw [if_neg hb, if_neg h0]
    rcases ih with ⟨hc, h58, hz⟩ | ⟨hc, hz, h58⟩ | ⟨field, rest, hc, rfl, h58, hz⟩
    · rw [hc]
      exact .inl ⟨rfl, hcons h58, hcons0 hz⟩
    · rw [hc, cstr_cons h0]
      exact .inr (.inl ⟨rfl, List.mem_cons_of_mem _ hz, hcons h58⟩)
    · rw [hc]
      exact .inr (.inr ⟨b :: field, rest, rfl, rfl, hcons h58, hcons0 hz⟩)

theorem pickLoop_none (n : Nat) : pickLoop n none = .ok [] := by cases n <;> rfl

theorem hex2byte_runs {tmp : List UInt8} (h : 2 ≤ tmp.length) : Runs (hgicHex2byte tmp) := by
  match tmp, h with
  | a :: b :: _, _ => exact runs_ok _

/-- The loop ends before the bytes that were written do: at a 0, or with its last round. -/
theorem pickLoop_runs (n : Nat) (t : List UInt8) :
    Runs (pickLoop n (some t)) ↔ 0 ∈ t ∨ t ≠ [] ∧ n ≤ t.dropLast.count 58 := by
  induction n generalizing t with
  | zero =>
    cases t with
    | nil => exact iff_of_false nofun (by simp)
    | cons b tmp => exact iff_of_true (runs_ok _) (.inr ⟨List.cons_ne_nil _ _, Nat.zero_le _⟩)
  | succ n ih =>
    cases t with
    | nil => exact iff_of_false nofun (by simp)
    | cons b tmp =>
      rw [pickLoop]
      split
      · next hb => exact iff_of_true (runs_ok _) (.inl (hb ▸ List.mem_cons_self))
      next hb =>
      rcases colon_cases (b :: tmp) with ⟨hc, h58, h0⟩ | ⟨hc, h0, -⟩ | ⟨field, rest, hc, htmp, h58, h0⟩
      · rw [hc]
        apply iff_of_false nofun
        rintro (h | ⟨-, h⟩)
        · exact h0 h
        · rw [List.count_eq_zero.mpr fun hm => h58 (List.dropLast_subset _ hm)] at h
          omega
      · rw [hc]
        refine iff_of_true ?_ (.inl h0)
        have hlen : 2 ≤ (b :: tmp).length := by
          rcases List.mem_cons.mp h0 with h | h
          · exact absurd h.symm hb
          · have := List.length_pos_of_mem h
            rw [List.length_cons]
            omega
        obtain ⟨x, hx⟩ := hex2byte_runs hlen
        refine runs_bind.mpr ⟨none, rfl, runs_bind.mpr ⟨x, hx, runs_map.mpr ?_⟩⟩
        rw [Option.map_none, pickLoop_none]
        exact runs_ok []
      · rw [hc]
        have hround : Runs (hgicHex2byte (field ++ 0 :: rest) >>= fun x => (x :: ·) <$> pickLoop n (some rest)) ↔
            Runs (pickLoop n (some rest)) := by
          rw [runs_bind]
          constructor
          · exact fun ⟨x, _, h⟩ => runs_map.mp h
          · intro h
            have hne : rest ≠ [] := by
              rintro rfl
              cases n <;> exact not_runs_error _ h
            obtain ⟨x, hx⟩ : Runs (hgicHex2byte (field ++ 0 :: rest)) := by
              apply hex2byte_runs
              have := List.length_pos_of_ne_nil hne
              rw [List.length_append, List.length_cons]
              omega
            exact ⟨x, hx, runs_map.mpr h⟩
        apply hround.trans
        rw [ih, htmp]
        cases rest with
        | nil => simp [h0, List.count_eq_zero.mpr h58]
        | cons c rest => simp [h0, List.count_eq_zero.mpr h58]

/-- 17 bytes can be read at the text; they hold a 0, or the sixth colon lies before the last of them. -/
def MacText (str : List UInt8) : Prop :=
  16 ≤ str.length ∧ (0 ∈ (str ++ [0]).take 17 ∨ 6 ≤ ((str ++ [0]).take 16).count 58)

instance (str : List UInt8) : Decidable (MacText str) := inferInstanceAs (Decidable (_ ∧ _))

theorem pickMacaddr_runs (str : List UInt8) : Runs (hgicPickMacaddr str) ↔ MacText str := by
  unfold hgicPickMacaddr MacText readAt
  split
  · next h =>
    have hlen : ((str ++ [0]).take 17).length = 17 := by
      rw [List.length_take, List.length_append, List.length_singleton]
      omega
    have hdrop : ((str ++ [0]).take 17).dropLast = (str ++ [0]).take 16 := by
      rw [List.dropLast_eq_take, hlen, List.take_take]
      rfl
    have hne : (str ++ [0]).take 17 ≠ [] := fun he => by simp [he] at hlen
    refine (runs_bind_of fun parts => runs_ok _).trans ?_
    rw [pickLoop_runs, hdrop]
    exact ⟨fun h' => ⟨by omega, h'.imp_right And.right⟩, fun h' => h'.2.imp_right fun hc => ⟨hne, hc⟩⟩
  · next h => exact iff_of_false nofun fun h' => h (by omega)

end HgicFmac.Iwpriv
