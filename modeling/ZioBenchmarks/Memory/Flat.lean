import Mathlib.Logic.Function.Basic

/-!
# Slots of a flat memory

A flat memory of `cap * n` units is addressed one slot of `n` units at a time, slot `i` at offset
`i * n`. A slot may have no units at all. Reading behind the end gives the default unit and writing
there changes nothing, so that the two operations are total; below `cap` they behave as an array of
slots.
-/

set_option autoImplicit false

namespace ZioBenchmarks.Memory

universe u

variable {α : Type u} [Inhabited α] {cap n : Nat}

/-- The units of slot `i`. -/
def slot (b : Vector α (cap * n)) (i : Nat) : Vector α n :=
  Vector.ofFn fun k => (b[i * n + k]?).getD default

/-- Unit `j` belongs to slot `i`. -/
abbrev InSlot (n i j : Nat) : Prop := i * n ≤ j ∧ j < i * n + n

/-- Overwrite slot `i`. -/
def setSlot (b : Vector α (cap * n)) (i : Nat) (v : Vector α n) : Vector α (cap * n) :=
  Vector.ofFn fun j => if InSlot n i j then (v[j.1 - i * n]?).getD default else b[j]

/-- A slot below `cap` lies inside the memory. -/
theorem slot_end_le {i : Nat} (hi : i < cap) : i * n + n ≤ cap * n := by
  have h := Nat.mul_le_mul_right n (Nat.succ_le_of_lt hi)
  rwa [Nat.succ_mul] at h

/-- Two slots have no unit in common. -/
theorem inSlot_unique {i i' j : Nat} (h : InSlot n i j) (h' : InSlot n i' j) : i = i' := by
  rcases Nat.lt_trichotomy i i' with hlt | heq | hgt
  · have hle := slot_end_le (n := n) hlt
    omega
  · exact heq
  · have hle := slot_end_le (n := n) hgt
    omega

omit [Inhabited α] in
theorem slot_ext {v w : Vector α n} (h : ∀ k (hk : k < n), v[k] = w[k]) : v = w := Vector.ext h

theorem getElem_slot (b : Vector α (cap * n)) (i : Nat) {k : Nat} (hk : k < n) :
    (slot b i)[k] = (b[i * n + k]?).getD default := by
  simp [slot]

theorem getElem_setSlot (b : Vector α (cap * n)) (i : Nat) (v : Vector α n) {j : Nat}
    (hj : j < cap * n) :
    (setSlot b i v)[j] = if InSlot n i j then (v[j - i * n]?).getD default else b[j] := by
  simp [setSlot]

/-- Writing one slot leaves every unit outside of it unchanged. -/
theorem getElem_setSlot_of_not_inSlot (b : Vector α (cap * n)) {i : Nat} (v : Vector α n) {j : Nat}
    (hj : j < cap * n) (h : ¬ InSlot n i j) : (setSlot b i v)[j] = b[j] := by
  rw [getElem_setSlot, if_neg h]

theorem slot_setSlot_self (b : Vector α (cap * n)) {i : Nat} (hi : i < cap) (v : Vector α n) :
    slot (setSlot b i v) i = v := by
  have hle := slot_end_le (n := n) hi
  apply slot_ext
  intro k hk
  have hj : i * n + k < cap * n := by omega
  rw [getElem_slot, Vector.getElem?_eq_getElem hj, getElem_setSlot, if_pos ⟨by omega, by omega⟩,
    Nat.add_sub_cancel_left, Vector.getElem?_eq_getElem hk]
  rfl

theorem slot_setSlot_of_ne (b : Vector α (cap * n)) {i i' : Nat} (hne : i' ≠ i)
    (v : Vector α n) : slot (setSlot b i v) i' = slot b i' := by
  apply slot_ext
  intro k hk
  rw [getElem_slot, getElem_slot]
  by_cases hj : i' * n + k < cap * n
  · have hout : ¬ InSlot n i (i' * n + k) := fun h => hne (inSlot_unique ⟨by omega, by omega⟩ h)
    rw [Vector.getElem?_eq_getElem hj, Vector.getElem?_eq_getElem hj,
      getElem_setSlot_of_not_inSlot b v hj hout]
  · rw [Vector.getElem?_eq_none (by omega), Vector.getElem?_eq_none (by omega)]

/-- Seen slot by slot, writing below `cap` is the update of one slot. -/
theorem slot_setSlot (b : Vector α (cap * n)) {i : Nat} (hi : i < cap) (v : Vector α n) :
    slot (setSlot b i v) = Function.update (slot b) i v := by
  funext i'
  by_cases h : i' = i
  · subst h
    rw [slot_setSlot_self b hi, Function.update_self]
  · rw [slot_setSlot_of_ne b h, Function.update_of_ne h]

end ZioBenchmarks.Memory
