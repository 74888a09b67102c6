import Mathlib.Algebra.BigOperators.Group.Finset.Piecewise
import Mathlib.Algebra.Order.BigOperators.Group.Finset

/-!
# Sums over processes of which one moves

An invariant that counts processes, or adds up what each of them has done, changes at one process
with each step. `sum_update` says by how much.
-/

set_option autoImplicit false

namespace ZioBenchmarks.Fold

universe u v w

variable {ι : Type u} {γ : Type v} [Fintype ι] [DecidableEq ι]

/-- What a sum loses and gains when one process moves. -/
theorem sum_update {M : Type w} [AddCommMonoid M] (g : γ → M) (f : ι → γ) (i : ι) (v : γ) :
    (∑ j, g (Function.update f i v j)) + g (f i) = (∑ j, g (f j)) + g v := by
  have hupd : ∀ j, g (Function.update f i v j) = Function.update (fun j => g (f j)) i (g v) j :=
    fun j => Function.apply_update (fun _ => g) f i v j
  simp only [hupd]
  rw [Finset.sum_update_of_mem (Finset.mem_univ i), ← Finset.add_sum_erase _ _ (Finset.mem_univ i),
    Finset.sdiff_singleton_eq_erase]
  ac_rfl

omit [Fintype ι] in
/-- The same for a sum over some of the processes. -/
theorem sum_update_mem {M : Type w} [AddCommMonoid M] {is : Finset ι} (g : γ → M) (f : ι → γ)
    {i : ι} (hi : i ∈ is) (v : γ) :
    (∑ j ∈ is, g (Function.update f i v j)) + g (f i) = (∑ j ∈ is, g (f j)) + g v := by
  have hupd : ∀ j, g (Function.update f i v j) = Function.update (fun j => g (f j)) i (g v) j :=
    fun j => Function.apply_update (fun _ => g) f i v j
  simp only [hupd]
  rw [Finset.sum_update_of_mem hi, ← Finset.add_sum_erase _ _ hi, Finset.sdiff_singleton_eq_erase]
  ac_rfl

/-- A move that does not change what is summed. -/
theorem sum_update_eq {M : Type w} [AddCommMonoid M] {g : γ → M} {f : ι → γ} {i : ι} {v : γ}
    (h : g v = g (f i)) : ∑ j, g (Function.update f i v j) = ∑ j, g (f j) := by
  apply Finset.sum_congr rfl
  intro j _
  by_cases hj : j = i
  · subst hj
    rw [Function.update_self, h]
  · rw [Function.update_of_ne hj]

/-- A move that takes `a` out of the sum. -/
theorem sum_eq_add_sum_update {M : Type w} [AddCancelCommMonoid M] {g : γ → M} {f : ι → γ} {i : ι}
    {v : γ} {a : M} (h : g (f i) = a + g v) :
    ∑ j, g (f j) = a + ∑ j, g (Function.update f i v j) := by
  have hsum := sum_update g f i v
  rw [h, ← add_assoc, add_left_inj] at hsum
  rw [← hsum, add_comm]

/-- A move that adds `a` to the sum. -/
theorem sum_update_eq_add {M : Type w} [AddCancelCommMonoid M] {g : γ → M} {f : ι → γ} {i : ι}
    {v : γ} {a : M} (h : g v = a + g (f i)) :
    ∑ j, g (Function.update f i v j) = a + ∑ j, g (f j) := by
  have hsum := sum_update g f i v
  rw [h, ← add_assoc, add_left_inj] at hsum
  rw [hsum, add_comm]

omit [DecidableEq ι] in
/-- A process that counts itself is counted. -/
theorem le_sum (g : γ → Nat) (f : ι → γ) (i : ι) : g (f i) ≤ ∑ j, g (f j) :=
  Finset.single_le_sum (f := fun j => g (f j)) (fun _ _ => Nat.zero_le _) (Finset.mem_univ i)

end ZioBenchmarks.Fold
