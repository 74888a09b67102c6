import Mathlib.Data.List.Perm.Basic
import Mathlib.Data.List.Flatten

/-!
# Totals of a commutative operation

The total of a list under an associative and commutative operation with a neutral element does not
depend on the order of the list, nor on how it is cut into parts that are totalled one by one.
-/

set_option autoImplicit false

namespace ZioBenchmarks.Fold

universe u v

variable {α : Type u} {ι : Type v} (op : α → α → α) (e : α)

/-- All elements of a list combined, from the left. -/
def total (l : List α) : α := l.foldl op e

@[simp] theorem total_nil : total op e [] = e := rfl

variable [Std.Associative op]

section Identity

variable [Std.LawfulIdentity op e]

/-- An accumulator that starts anywhere. -/
theorem foldl_eq_total (a : α) (l : List α) : l.foldl op a = op a (total op e l) := by
  have hright : op a e = a := Std.LawfulRightIdentity.right_id a
  have h : l.foldl op (op a e) = op a (l.foldl op e) := List.foldl_assoc
  rwa [hright] at h

/-- An accumulator that combines the image of each element. -/
theorem foldl_map_eq_total (f : ι → α) (a : α) (l : List ι) :
    l.foldl (fun acc x => op acc (f x)) a = op a (total op e (l.map f)) := by
  rw [← foldl_eq_total op e, List.foldl_map]

@[simp] theorem total_cons (a : α) (l : List α) : total op e (a :: l) = op a (total op e l) := by
  have hleft : op e a = a := Std.LawfulLeftIdentity.left_id a
  have h : total op e (a :: l) = l.foldl op (op e a) := rfl
  rw [h, hleft, foldl_eq_total op e]

@[simp] theorem total_append (l m : List α) :
    total op e (l ++ m) = op (total op e l) (total op e m) := by
  rw [total, List.foldl_append, foldl_eq_total op e]
  rfl

/-- Totals of parts, totalled. -/
theorem total_map_total (ls : List (List α)) :
    total op e (ls.map (total op e)) = total op e ls.flatten := by
  induction ls with
  | nil => rfl
  | cons l ls ih => simp [ih]

end Identity

theorem total_perm [Std.Commutative op] {l m : List α} (h : l.Perm m) :
    total op e l = total op e m := by
  have hassoc : ∀ a b c, op (op a b) c = op a (op b c) := Std.Associative.assoc
  have hswap : ∀ a b, op a b = op b a := Std.Commutative.comm
  have hcomm : RightCommutative op := ⟨fun a b c => by rw [hassoc, hassoc, hswap b c]⟩
  exact h.foldl_eq e

end ZioBenchmarks.Fold
