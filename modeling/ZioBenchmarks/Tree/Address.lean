import Mathlib.Algebra.Group.Nat.Defs
import Mathlib.Data.List.Nodup

/-!
# Addresses in a complete binary tree

A node is named by the branches on the way to it, the last one first: the children of `p` are
`false :: p` and `true :: p`, and the nodes at or below `p` are those that end in `p`.
-/

set_option autoImplicit false

namespace ZioBenchmarks.Tree

/-- The way from the root to a node. -/
abbrev Address := List Bool

/-- The nodes of the complete binary tree of a given depth. -/
def nodes : Nat → List Address
  | 0 => [[]]
  | n + 1 => [] :: ((nodes n).map (List.cons false) ++ (nodes n).map (List.cons true))

@[simp] theorem mem_nodes {depth : Nat} {p : Address} : p ∈ nodes depth ↔ p.length ≤ depth := by
  induction depth generalizing p with
  | zero => simp [nodes]
  | succ n ih =>
      cases p with
      | nil => simp [nodes]
      | cons b p =>
          cases b with
          | false => simp [nodes, ih]
          | true => simp [nodes, ih]

theorem nodup_nodes (depth : Nat) : (nodes depth).Nodup := by
  induction depth with
  | zero => simp [nodes]
  | succ n ih =>
      have hmap : ∀ b, ((nodes n).map (List.cons b)).Nodup :=
        fun b => ih.map (List.cons_injective)
      refine List.nodup_cons.2 ⟨by simp, List.Nodup.append (hmap false) (hmap true) ?_⟩
      -- the two subtrees differ in the branch below the root
      intro p hfalse htrue
      simp only [List.mem_map] at hfalse htrue
      obtain ⟨q, -, rfl⟩ := hfalse
      obtain ⟨r, -, h⟩ := htrue
      simp at h

theorem length_nodes (depth : Nat) : (nodes depth).length + 1 = 2 ^ (depth + 1) := by
  induction depth with
  | zero => rfl
  | succ n ih =>
      have hpow : 2 ^ (n + 1 + 1) = 2 * 2 ^ (n + 1) := Nat.pow_succ'
      simp only [nodes, List.length_cons, List.length_append, List.length_map]
      omega

/-- A list with each node once. -/
theorem perm_nodes {depth : Nat} {l : List Address} (hone : ∀ p, p.length ≤ depth → l.count p = 1)
    (hnone : ∀ p, depth < p.length → l.count p = 0) : l.Perm (nodes depth) := by
  rw [List.perm_iff_count]
  intro p
  by_cases hp : p.length ≤ depth
  · rw [hone p hp, List.count_eq_one_of_mem (nodup_nodes depth) (mem_nodes.2 hp)]
  · rw [hnone p (by omega), List.count_eq_zero_of_not_mem (fun h => hp (mem_nodes.1 h))]

end ZioBenchmarks.Tree
