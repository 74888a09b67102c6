import Mathlib.Data.List.Nodup
import Mathlib.Data.List.Range
import Mathlib.Data.Nat.ModEq

/-!
# Circular index arithmetic

A ring of `cap` slots with a read index `head`, a write index `tail` and a number of occupied slots
`count`. `slots` lists the occupied slots from the oldest on; a push appends the write index to it
and a pop removes the read index from its front.
-/

set_option autoImplicit false

namespace ZioBenchmarks.Ring

/-- The occupied slots, oldest first. -/
def slots (cap head count : Nat) : List Nat :=
  (List.range count).map fun i => (head + i) % cap

/-- The indices of a ring agree with each other. With no slot at all they stay zero. -/
structure WellFormed (cap head tail count : Nat) : Prop where
  count_le : count ≤ cap
  head_lt : 0 < cap → head < cap
  tail_eq : 0 < cap → tail = (head + count) % cap
  empty : cap = 0 → head = 0 ∧ tail = 0

variable {cap head tail count : Nat}

@[simp] theorem slots_length : (slots cap head count).length = count := by
  simp [slots]

@[simp] theorem slots_zero : slots cap head 0 = [] := rfl

/-- A push occupies the slot behind the youngest one. -/
theorem slots_succ :
    slots cap head (count + 1) = slots cap head count ++ [(head + count) % cap] := by
  simp [slots, List.range_succ]

/-- A pop frees the oldest slot. -/
theorem slots_eq_cons :
    slots cap head (count + 1) = head % cap :: slots cap ((head + 1) % cap) count := by
  simp only [slots, List.range_succ_eq_map, List.map_cons, List.map_map, Nat.add_zero,
    List.cons.injEq, true_and]
  apply List.map_congr_left
  intro i _
  simp only [Function.comp_apply, Nat.succ_eq_add_one]
  rw [Nat.mod_add_mod]
  congr 1
  omega

/-- Offsets below the capacity lead to different slots. -/
theorem offset_injective {i j : Nat} (hi : i < cap) (hj : j < cap)
    (h : (head + i) % cap = (head + j) % cap) : i = j := by
  have h' : i ≡ j [MOD cap] := Nat.ModEq.add_left_cancel' head h
  exact h'.eq_of_lt_of_lt hi hj

theorem slots_nodup (h : count ≤ cap) : (slots cap head count).Nodup := by
  apply List.Nodup.map_on _ List.nodup_range
  intro i hi j hj heq
  rw [List.mem_range] at hi hj
  exact offset_injective (by omega) (by omega) heq

/-- The write index of a ring with room is not occupied. -/
theorem tail_not_mem_slots (h : count < cap) : (head + count) % cap ∉ slots cap head count := by
  intro hmem
  obtain ⟨i, hi, heq⟩ := List.mem_map.1 hmem
  rw [List.mem_range] at hi
  have := offset_injective (by omega) h heq
  omega

namespace WellFormed

theorem initial : WellFormed cap 0 0 0 :=
  ⟨Nat.zero_le _, id, by simp, fun _ => ⟨rfl, rfl⟩⟩

theorem push (h : WellFormed cap head tail count) (hroom : count < cap) :
    WellFormed cap head ((tail + 1) % cap) (count + 1) where
  count_le := hroom
  head_lt := h.head_lt
  tail_eq hc := by
    rw [h.tail_eq hc, Nat.mod_add_mod]
    congr 1
  empty hc := by omega

theorem pop (h : WellFormed cap head tail count) (hpos : 0 < count) :
    WellFormed cap ((head + 1) % cap) tail (count - 1) where
  count_le := (Nat.sub_le _ _).trans h.count_le
  head_lt hc := Nat.mod_lt _ hc
  tail_eq hc := by
    rw [h.tail_eq hc, Nat.mod_add_mod]
    congr 1
    omega
  empty hc := by
    have := h.count_le
    omega

theorem head_mod (h : WellFormed cap head tail count) (hpos : 0 < count) : head % cap = head :=
  Nat.mod_eq_of_lt (h.head_lt (hpos.trans_le h.count_le))

theorem tail_not_mem (h : WellFormed cap head tail count) (hroom : count < cap) :
    tail ∉ slots cap head count := by
  rw [h.tail_eq (by omega)]
  exact tail_not_mem_slots hroom

end WellFormed

section Contents

variable {α : Type*}

/-- What the occupied slots hold, oldest first. -/
def contents (load : Nat → α) (cap head count : Nat) : List α :=
  (slots cap head count).map load

@[simp] theorem contents_length {load : Nat → α} :
    (contents load cap head count).length = count := by
  simp [contents]

/-- Writing the free slot at `tail` and counting it appends the written value. -/
theorem WellFormed.contents_push (h : WellFormed cap head tail count) (hroom : count < cap)
    (load : Nat → α) (v : α) :
    contents (Function.update load tail v) cap head (count + 1) =
      contents load cap head count ++ [v] := by
  have hne : ∀ i ∈ slots cap head count, Function.update load tail v i = load i := by
    intro i hi
    apply Function.update_of_ne
    rintro rfl
    exact h.tail_not_mem hroom hi
  simp only [contents, slots_succ, List.map_append, List.map_cons, List.map_nil]
  rw [List.map_congr_left hne, ← h.tail_eq (by omega), Function.update_self]

/-- Advancing `head` over the oldest slot drops its value. -/
theorem WellFormed.contents_pop (h : WellFormed cap head tail count) (hpos : 0 < count)
    (load : Nat → α) :
    contents load cap head count =
      load head :: contents load cap ((head + 1) % cap) (count - 1) := by
  obtain ⟨n, rfl⟩ : ∃ n, count = n + 1 := ⟨count - 1, by omega⟩
  rw [contents, slots_eq_cons, h.head_mod hpos]
  rfl

end Contents

end ZioBenchmarks.Ring
