import Mathlib.Data.List.Perm.Basic
import Mathlib.Data.List.Flatten
import Mathlib.Tactic.Common

/-!
# Ledgers of allocations

* `Ledger` : what is allocated, what was freed although it was not, and as history what was refused; `tryAlloc` asks an
  oracle, by the number of the request;
* `Ledger.free_of_perm`, `Ledger.freeAll_of_perm` : what is allocated is freed, whatever the order;
* `Holds h os` : `os` are allocated, each as often as it occurs, and everything freed was; `Holds.tryAlloc`,
  `Holds.free`, `Holds.freeAll` : the rules.
-/

namespace HgicFmac.Lib

/-- `bad` : freed, but not allocated. -/
structure Ledger (ι : Type*) where
  asked : Nat
  live : List ι
  bad : List ι
  refused : List ι
  deriving DecidableEq, Repr

namespace Ledger
variable {ι : Type*}

def empty : Ledger ι := ⟨0, [], [], []⟩

def alloc (h : Ledger ι) (o : ι) : Ledger ι := { h with live := o :: h.live }

/-- Allocated if `e` grants the request. -/
def tryAlloc (e : Nat → Bool) (h : Ledger ι) (o : ι) : Bool × Ledger ι :=
  (e h.asked, if e h.asked then { h.alloc o with asked := h.asked + 1 }
    else { h with asked := h.asked + 1, refused := o :: h.refused })

theorem tryAlloc_refused {e : Nat → Bool} {h h' : Ledger ι} {o : ι} {got : Bool}
    (hgot : h.tryAlloc e o = (got, h')) : h'.refused = if got then h.refused else o :: h.refused := by
  rw [tryAlloc, Prod.mk.injEq] at hgot
  obtain ⟨rfl, rfl⟩ := hgot
  split <;> rfl

theorem tryAlloc_asked {e : Nat → Bool} {h h' : Ledger ι} {o : ι} {got : Bool}
    (hgot : h.tryAlloc e o = (got, h')) : e h.asked = got ∧ h'.asked = h.asked + 1 := by
  rw [tryAlloc, Prod.mk.injEq] at hgot
  obtain ⟨rfl, rfl⟩ := hgot
  refine ⟨rfl, ?_⟩
  split <;> rfl

variable [DecidableEq ι]

def free (h : Ledger ι) (o : ι) : Ledger ι :=
  if o ∈ h.live then { h with live := h.live.erase o } else { h with bad := o :: h.bad }

def freeAll (h : Ledger ι) : List ι → Ledger ι
  | [] => h
  | o :: os => (h.free o).freeAll os

theorem free_refused (h : Ledger ι) (o : ι) : (h.free o).refused = h.refused := by
  unfold free
  split <;> rfl

theorem freeAll_refused (h : Ledger ι) (os : List ι) : (h.freeAll os).refused = h.refused := by
  induction os generalizing h with
  | nil => rfl
  | cons o os ih => exact (ih (h.free o)).trans (h.free_refused o)

theorem free_of_perm {h : Ledger ι} {o : ι} {os : List ι} (hp : h.live.Perm (o :: os)) :
    (h.free o).live.Perm os ∧ (h.free o).bad = h.bad := by
  have hmem : o ∈ h.live := hp.mem_iff.2 (.head _)
  rw [free, if_pos hmem]
  refine ⟨?_, rfl⟩
  have herase := hp.erase o
  rwa [List.erase_cons_head] at herase

theorem freeAll_of_perm {h : Ledger ι} {os ps : List ι} (hp : h.live.Perm (os ++ ps)) :
    (h.freeAll os).live.Perm ps ∧ (h.freeAll os).bad = h.bad := by
  induction os generalizing h with
  | nil => exact ⟨hp, rfl⟩
  | cons o os ih =>
    obtain ⟨hlive, hbad⟩ := free_of_perm hp
    obtain ⟨hrest, hsame⟩ := ih hlive
    exact ⟨hrest, hsame.trans hbad⟩

theorem free_of_not_mem {h : Ledger ι} {o : ι} (hn : o ∉ h.live) : h.free o = { h with bad := o :: h.bad } :=
  if_neg hn

end Ledger

/-- Exactly `os` are allocated, in any order. -/
structure Holds {ι : Type*} (h : Ledger ι) (os : List ι) : Prop where
  live : h.live.Perm os
  bad : h.bad = []

namespace Holds
variable {ι : Type*} {h : Ledger ι} {os ps : List ι} {o : ι}

theorem perm (hh : Holds h os) (hp : os.Perm ps) : Holds h ps := ⟨hh.live.trans hp, hh.bad⟩

theorem empty : Holds (Ledger.empty : Ledger ι) [] := ⟨.nil, rfl⟩

theorem tryAlloc (e : Nat → Bool) (hh : Holds h os) (o : ι) :
    Holds (h.tryAlloc e o).2 (if (h.tryAlloc e o).1 then o :: os else os) := by
  unfold Ledger.tryAlloc
  dsimp only
  split
  · exact ⟨hh.live.cons o, hh.bad⟩
  · exact ⟨hh.live, hh.bad⟩

theorem tryAlloc_true {e : Nat → Bool} {h' : Ledger ι} (hh : Holds h os) (hgot : h.tryAlloc e o = (true, h')) :
    Holds h' (o :: os) := by
  have := hh.tryAlloc e o
  rwa [hgot] at this

theorem tryAlloc_false {e : Nat → Bool} {h' : Ledger ι} (hh : Holds h os) (hnot : h.tryAlloc e o = (false, h')) :
    Holds h' os := by
  have := hh.tryAlloc e o
  rwa [hnot] at this

variable [DecidableEq ι]

theorem free (hh : Holds h (o :: os)) : Holds (h.free o) os := by
  obtain ⟨hlive, hbad⟩ := Ledger.free_of_perm hh.live
  exact ⟨hlive, hbad.trans hh.bad⟩

theorem freeAll (hh : Holds h (os ++ ps)) : Holds (h.freeAll os) ps := by
  obtain ⟨hlive, hbad⟩ := Ledger.freeAll_of_perm hh.live
  exact ⟨hlive, hbad.trans hh.bad⟩

end Holds

end HgicFmac.Lib
