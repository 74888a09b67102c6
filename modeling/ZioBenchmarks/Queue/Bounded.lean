import ZioBenchmarks.Transition.Runs

/-!
# The bounded queue

The sequential specification of a channel: it is first in, first out, holds a bounded number of
values, refuses puts once it is closed, and still delivers what it holds.
-/

set_option autoImplicit false

namespace ZioBenchmarks.Queue

open ZioBenchmarks.Transition

universe u

/-- The values in the queue, oldest first. -/
structure Bounded (α : Type u) where
  items : List α
  closed : Bool

/-- What is done to the queue. -/
inductive Op (α : Type u) where
  | put (v : α)
  | take (v : α)
  | close

variable {α : Type u} {capacity : Nat}

inductive Bounded.Step (capacity : Nat) : Bounded α → Op α → Bounded α → Prop
  | put {items : List α} (v : α) : items.length < capacity →
      Step capacity ⟨items, false⟩ (.put v) ⟨items ++ [v], false⟩
  | take {items : List α} {closed : Bool} (v : α) :
      Step capacity ⟨v :: items, closed⟩ (.take v) ⟨items, closed⟩
  | close {items : List α} : Step capacity ⟨items, false⟩ .close ⟨items, true⟩

/-- A queue that is empty and open at first. -/
def bounded (α : Type u) (capacity : Nat) : System (Bounded α) (Op α) where
  init q := q = ⟨[], false⟩
  step := Bounded.Step capacity

/-- A put, if there is one, into a queue with room for it. -/
theorem path_put (items : List α) (closed : Bool) {v : Option α}
    (h : v ≠ none → closed = false ∧ items.length < capacity) :
    (bounded α capacity).Path ⟨items, closed⟩ (v.toList.map .put) ⟨items ++ v.toList, closed⟩ := by
  cases v with
  | none => simpa using System.Path.nil
  | some v =>
      obtain ⟨rfl, hroom⟩ := h (by simp)
      exact .single (.put v hroom)

/-- A take, if there is one, of the oldest value. -/
theorem path_take (items : List α) (closed : Bool) {v : Option α} :
    (bounded α capacity).Path ⟨v.toList ++ items, closed⟩ (v.toList.map .take) ⟨items, closed⟩ := by
  cases v with
  | none => exact .nil
  | some v => exact .single (.take v)

/-- The values put, in order. -/
def putsOf (ops : List (Op α)) : List α :=
  ops.filterMap fun
    | .put v => some v
    | _ => none

/-- The values taken, in order. -/
def takesOf (ops : List (Op α)) : List α :=
  ops.filterMap fun
    | .take v => some v
    | _ => none

end ZioBenchmarks.Queue
