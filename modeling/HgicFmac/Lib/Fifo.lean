import Mathlib.Algebra.GroupWithZero.Nat
import Mathlib.Data.List.Basic
import Mathlib.Tactic.Common

/-!
# A queue that drops its oldest element when it is full

* `Fifo` : the queue, with the elements that arrived and those that left, each with a mark: taken, or dropped;
* `Fifo.take`, `Fifo.push n` : an element is taken; one arrives, and more than `n` waiting ones lose the oldest;
* `Fifo.Ok n` : what left, followed by what waits, is what arrived; at most `n + 1` elements wait; a dropped one has
  `n + 1` successors. `Ok.take`, `Ok.push` : both operations keep it;
* `Ok.suffix`, `Ok.taken`, `Ok.dropped` : what follows for the queue, the taken elements and the dropped ones.
-/

namespace HgicFmac.Lib

structure Fifo (α : Type*) where
  queue : List α
  arrived : List α
  gone : List (α × Bool)

variable {α : Type*}

namespace Fifo

def empty : Fifo α := ⟨[], [], []⟩

/-- The oldest element leaves, with the mark `b`. -/
def leave (b : Bool) (q : Fifo α) : Fifo α :=
  match q.queue with
  | [] => q
  | x :: l => { q with queue := l, gone := q.gone ++ [(x, b)] }

def take (q : Fifo α) : Fifo α := q.leave true

def push (n : Nat) (q : Fifo α) (x : α) : Fifo α :=
  let r := if n < q.queue.length then q.leave false else q
  { r with queue := r.queue ++ [x], arrived := r.arrived ++ [x] }

def taken (q : Fifo α) : List α := (q.gone.filter Prod.snd).map Prod.fst

structure Ok (n : Nat) (q : Fifo α) : Prop where
  order : q.arrived = q.gone.map Prod.fst ++ q.queue
  bound : q.queue.length ≤ n + 1
  lost : ∀ k x, q.gone[k]? = some (x, false) → k + (n + 1) < q.arrived.length

theorem ok_empty (n : Nat) : Ok n (empty : Fifo α) where
  order := rfl
  bound := Nat.zero_le _
  lost k x h := by simp [empty] at h

variable {n : Nat} {q : Fifo α}

theorem leave_cases (b : Bool) (q : Fifo α) : (q.queue = [] ∧ q.leave b = q) ∨
    ∃ x l, q.queue = x :: l ∧ q.leave b = { q with queue := l, gone := q.gone ++ [(x, b)] } := by
  unfold leave
  cases hq : q.queue with
  | nil => exact .inl ⟨rfl, rfl⟩
  | cons x l => exact .inr ⟨x, l, rfl, rfl⟩

theorem order_leave (b : Bool) (h : q.arrived = q.gone.map Prod.fst ++ q.queue) :
    (q.leave b).arrived = (q.leave b).gone.map Prod.fst ++ (q.leave b).queue := by
  rcases leave_cases b q with ⟨-, he⟩ | ⟨x, l, hq, he⟩
  · rw [he]
    exact h
  · rw [he, h, hq]
    simp

theorem Ok.take (h : Ok n q) : Ok n q.take := by
  refine ⟨order_leave true h.order, ?_, fun k x hk => ?_⟩
  all_goals unfold Fifo.take at *
  · rcases leave_cases true q with ⟨-, he⟩ | ⟨y, l, hq, he⟩
    · rw [he]
      exact h.bound
    · have hb := h.bound
      rw [hq, List.length_cons] at hb
      rw [he]
      exact Nat.le_of_succ_le hb
  · rcases leave_cases true q with ⟨-, he⟩ | ⟨y, l, hq, he⟩
    · rw [he] at hk ⊢
      exact h.lost k x hk
    · rw [he] at hk ⊢
      dsimp only at hk
      rw [List.getElem?_append] at hk
      split at hk
      · exact h.lost k x hk
      · -- the new mark says that the element was taken
        have hmem := List.mem_of_getElem? hk
        simp at hmem

theorem Ok.push (h : Ok n q) (x : α) : Ok n (q.push n x) := by
  unfold Fifo.push
  by_cases hfull : n < q.queue.length
  · rw [if_pos hfull]
    rcases leave_cases false q with ⟨hq, -⟩ | ⟨y, l, hq, he⟩
    · rw [hq] at hfull
      exact absurd hfull (Nat.not_lt_zero n)
    · have hb := h.bound
      have ho := congrArg List.length h.order
      rw [hq, List.length_cons] at hb hfull
      rw [hq, List.length_append, List.length_map, List.length_cons] at ho
      have horder := order_leave false h.order
      rw [he] at horder ⊢
      refine ⟨?_, ?_, fun k z hk => ?_⟩
      · show q.arrived ++ [x] = _ ++ (l ++ [x])
        rw [← List.append_assoc]
        exact congrArg (· ++ [x]) horder
      · show (l ++ [x]).length ≤ n + 1
        rw [List.length_append, List.length_singleton]
        exact hb
      · show k + (n + 1) < (q.arrived ++ [x]).length
        rw [List.length_append, List.length_singleton]
        have hk' : (q.gone ++ [(y, false)])[k]? = some (z, false) := hk
        rcases Nat.lt_or_ge k q.gone.length with hlt | hge
        · rw [List.getElem?_append_left hlt] at hk'
          exact Nat.lt_succ_of_lt (h.lost k z hk')
        · have hkl : k < (q.gone ++ [(y, false)]).length := (List.getElem?_eq_some_iff.mp hk').1
          rw [List.length_append, List.length_singleton] at hkl
          omega
  · rw [if_neg hfull]
    refine ⟨?_, ?_, fun k z hk => ?_⟩
    · show q.arrived ++ [x] = _ ++ (q.queue ++ [x])
      rw [h.order, List.append_assoc]
    · show (q.queue ++ [x]).length ≤ n + 1
      rw [List.length_append, List.length_singleton]
      omega
    · show k + (n + 1) < (q.arrived ++ [x]).length
      rw [List.length_append, List.length_singleton]
      exact Nat.lt_succ_of_lt (h.lost k z hk)

theorem Ok.suffix (h : Ok n q) : q.queue <:+ q.arrived := ⟨_, h.order.symm⟩

/-- The taken elements are elements that arrived, each once and in their order. -/
theorem Ok.taken (h : Ok n q) : q.taken.Sublist q.arrived := by
  have hsub : q.taken.Sublist (q.gone.map Prod.fst) := List.filter_sublist.map _
  rw [h.order]
  exact hsub.trans (List.sublist_append_left _ _)

/-- The `k`-th element that left is the `k`-th that arrived; if it was dropped, `n + 1` arrived after it. -/
theorem Ok.dropped (h : Ok n q) {k : Nat} {x : α} (hk : q.gone[k]? = some (x, false)) :
    q.arrived[k]? = some x ∧ k + (n + 1) < q.arrived.length := by
  refine ⟨?_, h.lost k x hk⟩
  have hlt : k < (q.gone.map Prod.fst).length := by
    rw [List.length_map]
    exact (List.getElem?_eq_some_iff.mp hk).1
  rw [h.order, List.getElem?_append_left hlt, List.getElem?_map, hk]
  rfl

end Fifo

end HgicFmac.Lib
