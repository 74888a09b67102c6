import Mathlib.Algebra.Order.Group.Multiset

/-!
# Values on their way through a queue

Some processes put values into a first-in first-out queue and others take them out. `Flow` is the
account: what was put is what was taken followed by what is in the queue, and together with what is
still to be put it is everything there is. A put and a take keep it, so that at the end every value
was taken exactly once.
-/

set_option autoImplicit false

namespace ZioBenchmarks.Queue

universe u

variable {α : Type u} {all pending pending' : Multiset α} {puts takes queue rest : List α} {v : α}

/-- `puts` and `takes` list what has gone into the queue and out of it, in order. -/
structure Flow (all pending : Multiset α) (puts takes queue : List α) : Prop where
  fifo : puts = takes ++ queue
  complete : (puts : Multiset α) + pending = all

namespace Flow

theorem initial (all : Multiset α) : Flow all all [] [] [] :=
  ⟨rfl, zero_add all⟩

/-- One of the pending values is put. -/
theorem put (h : Flow all pending puts takes queue) (hv : pending = {v} + pending') :
    Flow all pending' (puts ++ [v]) takes (queue ++ [v]) where
  fifo := by rw [h.fifo, List.append_assoc]
  complete := by
    rw [← h.complete, hv, ← Multiset.coe_add, Multiset.coe_singleton, add_assoc]

/-- The oldest value is taken. -/
theorem take (h : Flow all pending puts takes (v :: rest)) :
    Flow all pending puts (takes ++ [v]) rest where
  fifo := by rw [h.fifo, List.append_assoc, List.singleton_append]
  complete := h.complete

/-- Nothing is left: every value was put and taken exactly once. -/
theorem done (h : Flow all 0 puts takes []) : (takes : Multiset α) = all := by
  have hputs : puts = takes := by rw [h.fifo, List.append_nil]
  rw [← h.complete, hputs, add_zero]

/-- Everything was put. -/
theorem all_put (h : Flow all 0 puts takes queue) : (puts : Multiset α) = all := by
  rw [← h.complete, add_zero]

end Flow

end ZioBenchmarks.Queue
