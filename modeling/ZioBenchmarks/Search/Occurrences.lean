import Mathlib.Data.List.Infix
import Mathlib.Logic.Function.Basic

/-!
# Occurrences of a pattern

`indexOf` finds the first occurrence of a pattern in a list. `split` cuts a list behind every
occurrence, from left to right and without overlaps, and keeps what follows the last one. A search
that succeeded succeeds in every extension of the list, at the same index, so that a list can be cut
piece by piece (`split_append`): only the rest of one piece has to be looked at again.
-/

set_option autoImplicit false

namespace ZioBenchmarks.Search

universe u

variable {α : Type u} [DecidableEq α] {p : List α}

/-- The index of the first occurrence of `p`. -/
def indexOf (p : List α) : List α → Option Nat
  | [] => if p = [] then some 0 else none
  | x :: xs => if p <+: x :: xs then some 0 else (indexOf p xs).map (· + 1)

/-- The windows of length `k`, from left to right. -/
def windows (k : Nat) : List α → List (List α)
  | [] => if k = 0 then [[]] else []
  | x :: xs => if k ≤ xs.length + 1 then (x :: xs).take k :: windows k xs else []

/-- There is no occurrence exactly if no suffix starts with the pattern. -/
theorem indexOf_eq_none_iff {xs : List α} : indexOf p xs = none ↔ ∀ i, ¬ p <+: xs.drop i := by
  induction xs with
  | nil => simp [indexOf]
  | cons x xs ih =>
      rw [indexOf]
      split
      case isTrue h =>
        constructor
        · intro h'
          simp at h'
        · intro h'
          exact absurd h (h' 0)
      case isFalse h =>
        rw [Option.map_eq_none_iff, ih]
        constructor
        · intro h' i
          cases i with
          | zero => exact h
          | succ i => exact h' i
        · intro h' i
          exact h' (i + 1)

/-- The first occurrence: the pattern is there, and nowhere to the left of it. -/
theorem indexOf_eq_some_iff {xs : List α} {i : Nat} :
    indexOf p xs = some i ↔
      i ≤ xs.length ∧ p <+: xs.drop i ∧ ∀ j < i, ¬ p <+: xs.drop j := by
  induction xs generalizing i with
  | nil =>
      rw [indexOf]
      split
      case isTrue h =>
        subst h
        constructor
        · intro h'
          obtain rfl := Option.some.inj h'
          simp
        · rintro ⟨hle, -, -⟩
          rw [Nat.le_zero.1 hle]
      case isFalse h => simp [h]
  | cons x xs ih =>
      rw [indexOf]
      split
      case isTrue h =>
        constructor
        · intro h'
          obtain rfl := Option.some.inj h'
          exact ⟨Nat.zero_le _, h, by simp⟩
        · rintro ⟨-, -, hleft⟩
          cases i with
          | zero => rfl
          -- an occurrence further on, with none at this place
          | succ i => exact absurd h (hleft 0 (Nat.succ_pos i))
      case isFalse h =>
        cases i with
        | zero =>
            constructor
            · intro h'
              simp at h'
            · rintro ⟨-, h', -⟩
              exact absurd h' h
        | succ i =>
            simp only [Option.map_eq_some_iff, Nat.add_right_cancel_iff, exists_eq_right, ih,
              List.length_cons, Nat.add_le_add_iff_right, List.drop_succ_cons]
            constructor
            · rintro ⟨hle, hp, hleft⟩
              refine ⟨hle, hp, fun j hj => ?_⟩
              cases j with
              | zero => exact h
              | succ j => exact hleft j (by omega)
            · rintro ⟨hle, hp, hleft⟩
              exact ⟨hle, hp, fun j hj => hleft (j + 1) (by omega)⟩

/-- An occurrence lies inside of the list. -/
theorem indexOf_add_length_le {xs : List α} {i : Nat} (h : indexOf p xs = some i) :
    i + p.length ≤ xs.length := by
  obtain ⟨hi, hp, -⟩ := indexOf_eq_some_iff.1 h
  have hle := hp.length_le
  rw [List.length_drop] at hle
  omega

omit [DecidableEq α] in
/-- A pattern that lies inside of a list is found in every extension, and the other way round. -/
theorem prefix_drop_append {xs ys : List α} {j : Nat} (h : j + p.length ≤ xs.length) :
    p <+: (xs ++ ys).drop j ↔ p <+: xs.drop j := by
  rw [List.drop_append_of_le_length (by omega)]
  constructor
  · intro hp
    exact List.prefix_of_prefix_length_le hp (List.prefix_append _ _) (by
      rw [List.length_drop]
      omega)
  · intro hp
    exact hp.trans (List.prefix_append _ _)

/-- The first occurrence stays the first one when the list is extended. -/
theorem indexOf_append {xs ys : List α} {i : Nat} (h : indexOf p xs = some i) :
    indexOf p (xs ++ ys) = some i := by
  have hle := indexOf_add_length_le h
  obtain ⟨hi, hp, hleft⟩ := indexOf_eq_some_iff.1 h
  rw [indexOf_eq_some_iff, List.length_append]
  refine ⟨by omega, (prefix_drop_append hle).2 hp, fun j hj => ?_⟩
  rw [prefix_drop_append (by omega)]
  exact hleft j hj

/-- A prefix that ends before the first occurrence does has none. -/
theorem indexOf_prefix_eq_none_of_lt {xs ys : List α} {i : Nat} (h : indexOf p (xs ++ ys) = some i)
    (hlt : xs.length < i + p.length) : indexOf p xs = none := by
  cases h' : indexOf p xs with
  | none => rfl
  | some j =>
      have hle := indexOf_add_length_le h'
      rw [indexOf_append h'] at h
      obtain rfl := Option.some.inj h
      omega

theorem indexOf_prefix_eq_none {xs ys : List α} (h : indexOf p (xs ++ ys) = none) :
    indexOf p xs = none := by
  cases h' : indexOf p xs with
  | none => rfl
  | some j =>
      rw [indexOf_append h'] at h
      simp at h

/-- Comparing the windows one by one is a search for the pattern. -/
theorem findIdx?_windows (hp : p ≠ []) (xs : List α) :
    (windows p.length xs).findIdx? (· == p) = indexOf p xs := by
  have hpos : 0 < p.length := List.length_pos_iff.2 hp
  induction xs with
  | nil =>
      rw [windows, indexOf, if_neg (by omega), if_neg hp]
      rfl
  | cons x xs ih =>
      rw [windows, indexOf]
      by_cases hk : p.length ≤ xs.length + 1
      · rw [if_pos hk, List.findIdx?_cons, ih]
        by_cases h : p <+: x :: xs
        · rw [if_pos h, ← List.prefix_iff_eq_take.1 h]
          simp
        -- the first window is not the pattern
        · have hne : (x :: xs).take p.length ≠ p := by
            intro heq
            exact h (heq ▸ List.take_prefix _ _)
          simp [h, hne]
      -- too few bytes are left for a window
      · have hnone : ∀ ys : List α, ys.length < p.length → indexOf p ys = none := by
          intro ys hys
          rw [indexOf_eq_none_iff]
          intro i hi
          have hle := hi.length_le
          rw [List.length_drop] at hle
          omega
        have h : ¬ p <+: x :: xs := by
          intro h
          have hle := h.length_le
          rw [List.length_cons] at hle
          omega
        rw [if_neg hk, if_neg h, hnone xs (by omega)]
        rfl

/-- Cut a list behind every occurrence: the pieces, each with its occurrence, and the rest. -/
def split (p : List α) (hp : p ≠ []) (xs : List α) : List (List α) × List α :=
  match _ : indexOf p xs with
  | none => ([], xs)
  | some i =>
      let r := split p hp (xs.drop (i + p.length))
      (xs.take (i + p.length) :: r.1, r.2)
termination_by xs.length
decreasing_by
  have hle := indexOf_add_length_le ‹indexOf p xs = some i›
  have hpos := List.length_pos_iff.2 hp
  rw [List.length_drop]
  omega

/-- How many pieces there are. -/
def count (p : List α) (hp : p ≠ []) (xs : List α) : Nat := (split p hp xs).1.length

/-- What follows the last piece. -/
def rest (p : List α) (hp : p ≠ []) (xs : List α) : List α := (split p hp xs).2

variable {hp : p ≠ []}

theorem split_of_none {xs : List α} (h : indexOf p xs = none) : split p hp xs = ([], xs) := by
  rw [split]
  split
  case h_1 => rfl
  case h_2 i h' => simp [h] at h'

theorem split_of_some {xs : List α} {i : Nat} (h : indexOf p xs = some i) :
    split p hp xs =
      (xs.take (i + p.length) :: (split p hp (xs.drop (i + p.length))).1,
        (split p hp (xs.drop (i + p.length))).2) := by
  rw [split]
  split
  case h_1 h' => simp [h] at h'
  case h_2 j h' =>
    rw [h] at h'
    obtain rfl := Option.some.inj h'
    rfl

/-- The pieces and the rest, put together, are the list. -/
theorem split_flatten (xs : List α) : (split p hp xs).1.flatten ++ (split p hp xs).2 = xs := by
  induction xs using split.induct p hp with
  | case1 xs h => simp [split_of_none h]
  | case2 xs i h ih =>
      rw [split_of_some h, List.flatten_cons, List.append_assoc, ih, List.take_append_drop]

/-- The rest has no occurrence left. -/
theorem indexOf_rest (xs : List α) : indexOf p (rest p hp xs) = none := by
  rw [rest]
  induction xs using split.induct p hp with
  | case1 xs h => simpa [split_of_none h] using h
  | case2 xs i h ih =>
      rw [split_of_some h]
      exact ih

/-- A list can be cut piece by piece: what was left over is looked at again with what comes
next. -/
theorem split_append (xs ys : List α) :
    split p hp (xs ++ ys) =
      ((split p hp xs).1 ++ (split p hp (rest p hp xs ++ ys)).1,
        (split p hp (rest p hp xs ++ ys)).2) := by
  rw [rest]
  induction xs using split.induct p hp with
  | case1 xs h => simp [split_of_none h]
  | case2 xs i h ih =>
      have hle := indexOf_add_length_le h
      rw [split_of_some (indexOf_append h), split_of_some h, List.take_append_of_le_length hle,
        List.drop_append_of_le_length hle, ih, List.cons_append]

theorem count_append (xs ys : List α) :
    count p hp (xs ++ ys) = count p hp xs + count p hp (rest p hp xs ++ ys) := by
  simp only [count]
  rw [split_append, List.length_append]

theorem rest_append (xs ys : List α) : rest p hp (xs ++ ys) = rest p hp (rest p hp xs ++ ys) := by
  simp only [rest]
  rw [split_append, rest]

theorem count_of_none {xs : List α} (h : indexOf p xs = none) : count p hp xs = 0 := by
  rw [count, split_of_none h]
  rfl

theorem rest_of_none {xs : List α} (h : indexOf p xs = none) : rest p hp xs = xs := by
  rw [rest, split_of_none h]

theorem count_of_some {xs : List α} {i : Nat} (h : indexOf p xs = some i) :
    count p hp xs = count p hp (xs.drop (i + p.length)) + 1 := by
  rw [count, split_of_some h]
  rfl

theorem rest_of_some {xs : List α} {i : Nat} (h : indexOf p xs = some i) :
    rest p hp xs = rest p hp (xs.drop (i + p.length)) := by
  rw [rest, split_of_some h, rest]

/-- If no piece is longer than `b` and the rest is shorter, no prefix leaves `b` units over. -/
theorem rest_prefix_length_lt {b : Nat} {xs ys : List α}
    (hpieces : ∀ q ∈ (split p hp (xs ++ ys)).1, q.length ≤ b)
    (hrest : (split p hp (xs ++ ys)).2.length < b) : (rest p hp xs).length < b := by
  obtain ⟨zs, hzs⟩ : ∃ zs, zs = xs ++ ys := ⟨_, rfl⟩
  rw [← hzs] at hpieces hrest
  induction zs using split.induct p hp generalizing xs with
  | case1 zs h =>
      rw [split_of_none h] at hrest
      rw [hzs] at h
      rw [rest_of_none (indexOf_prefix_eq_none h)]
      rw [hzs, List.length_append] at hrest
      omega
  | case2 zs i h ih =>
      have hle := indexOf_add_length_le h
      rw [split_of_some h] at hpieces hrest
      by_cases hlong : i + p.length ≤ xs.length
      · -- the first piece lies inside of the prefix
        have hdrop : zs.drop (i + p.length) = xs.drop (i + p.length) ++ ys := by
          rw [hzs, List.drop_append_of_le_length hlong]
        have hsome : indexOf p xs = some i := by
          cases h' : indexOf p xs with
          | none =>
              obtain ⟨-, hocc, -⟩ := indexOf_eq_some_iff.1 h
              rw [hzs, prefix_drop_append hlong] at hocc
              exact absurd hocc (indexOf_eq_none_iff.1 h' i)
          | some j =>
              rw [hzs, indexOf_append h'] at h
              exact h
        rw [rest_of_some hsome]
        exact ih hrest (fun q hq => hpieces q (List.mem_cons_of_mem _ hq)) hdrop
      · -- the prefix ends inside of the first piece
        have hfirst := hpieces _ List.mem_cons_self
        rw [List.length_take, Nat.min_eq_left hle] at hfirst
        rw [hzs] at h
        rw [rest_of_none (indexOf_prefix_eq_none_of_lt h (by omega))]
        omega

end ZioBenchmarks.Search
