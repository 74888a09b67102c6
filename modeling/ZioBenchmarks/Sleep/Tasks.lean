import Mathlib.Data.UInt
import ZioBenchmarks.Transition.Group

/-!
# The sleeping tasks

`main` of `sleep.zig` and `sleep_native.zig`: it starts `num_tasks` tasks that sleep for `sleep_ms`
and then add one to a shared counter, waits for all of them, and compares the counter with
`num_tasks` as a proof that every task ran.
-/

set_option autoImplicit false

namespace ZioBenchmarks.Sleep

open ZioBenchmarks.Transition ZioBenchmarks.Fold

/-- The statement of `sleepTask` that is executed next. -/
inductive Pc where
  | sleep
  | fetchAdd
  | returned
  deriving DecidableEq, Repr

inductive Label where
  | slept
  | counted
  deriving DecidableEq, Repr

/-- `sleepTask` does not call `sleep` for `sleep_ms = 0`. -/
def sleepTask (sleepMs : UInt64) : Pc := if 0 < sleepMs then .sleep else .fetchAdd

/-- The tasks share `counter`. -/
def tasks (numTasks sleepMs : UInt64) : Tasks numTasks.toNat Unit UInt64 Pc Label where
  shared := 0
  start _ := sleepTask sleepMs
  act _ _ counter
    | .sleep => some (.slept, counter, .fetchAdd)
    | .fetchAdd => some (.counted, counter + 1, .returned)
    | .returned => none
  returned pc := pc == .returned

def main (numTasks sleepMs : UInt64) :
    System (Tasks.State numTasks.toNat UInt64 Pc) (Tasks.Label numTasks.toNat Label) :=
  (tasks numTasks sleepMs).group

/-- How `main` ends. -/
inductive Exit where
  /-- The error of a task that could not be started. -/
  | error
  /-- `only {d}/{d} tasks completed`, with exit status 3. -/
  | only (ran : UInt64)
  | duration
  deriving DecidableEq, Repr

def exit {numTasks : UInt64} (s : Tasks.State numTasks.toNat UInt64 Pc) : Option Exit :=
  match s.main with
  | .started _ => none
  | .refused _ => some .error
  | .released => some (if s.shared ≠ numTasks then .only s.shared else .duration)

/-- What a task does, in order. -/
def work (sleepMs : UInt64) : List Label := if 0 < sleepMs then [.slept, .counted] else [.counted]

/-- The part of it that is left. -/
def Pc.left : Pc → List Label
  | .sleep => [.slept, .counted]
  | .fetchAdd => [.counted]
  | .returned => []

/-- What a task has added to `counter`. -/
def Pc.counted : Pc → Nat
  | .sleep | .fetchAdd => 0
  | .returned => 1

variable {numTasks sleepMs : UInt64} {s : Tasks.State numTasks.toNat UInt64 Pc}
  {tr : List (Tasks.Label numTasks.toNat Label)}

/-- One task alone, of which `counter` is not seen. -/
def alone : System Pc Label where
  init _ := True
  step p l p' := p.left = l :: p'.left

theorem own_left (h : (main numTasks sleepMs).Run tr s) (i : Fin numTasks.toNat) :
    Tasks.own i tr ++ (s.task i).left = work sleepMs := by
  have hpath : alone.Path (sleepTask sleepMs) (Tasks.own i tr) (s.task i) := by
    refine Tasks.Run.own (P := fun _ => alone) ?_ h i
    intro _ _ _ a m x' a' hact
    cases a with
    | sleep | fetchAdd =>
        simp only [tasks, Option.some.injEq, Prod.mk.injEq] at hact
        obtain ⟨rfl, -, rfl⟩ := hact
        rfl
    | returned => simp [tasks] at hact
  have hstart : (sleepTask sleepMs).left = work sleepMs := by
    unfold sleepTask work
    split <;> rfl
  rw [← hstart]
  refine System.Path.invariant (I := fun tr p => tr ++ p.left = (sleepTask sleepMs).left)
    (.nil trivial) rfl ?_ hpath
  intro us p l p' _ ih hs
  have hp : p.left = l :: p'.left := hs
  rw [← ih, hp, List.append_assoc, List.singleton_append]

theorem sum_counted_le {n : Nat} (f : Fin n → Pc) : ∑ j, (f j).counted ≤ n := by
  calc ∑ j, (f j).counted ≤ ∑ _j : Fin n, 1 := Finset.sum_le_sum fun j _ => by
        cases f j <;> simp [Pc.counted]
    _ = n := by simp

/-- The counter counts the tasks that have returned, of which there are no more than it can hold. -/
theorem counter_eq (h : (main numTasks sleepMs).Reachable s) :
    s.shared.toNat = ∑ i, (s.task i).counted := by
  refine System.Reachable.invariant (I := fun s => s.shared.toNat = ∑ i, (s.task i).counted) ?_ ?_ h
  · rintro _ rfl
    have hzero : (sleepTask sleepMs).counted = 0 := by
      unfold sleepTask
      split <;> rfl
    simp [tasks, hzero]
  · intro s l s' ih hs
    obtain ⟨k, hk, -, -, rfl⟩ | ⟨k, hk, -, -, rfl⟩ | ⟨-, -, -, rfl⟩ |
      ⟨i, c, m, x, a, -, hact, -, rfl⟩ := Tasks.step_cases hs
    · exact ih
    · exact ih
    · exact ih
    · cases htask : s.task i with
      | sleep =>
          simp only [tasks, htask, Option.some.injEq, Prod.mk.injEq] at hact
          obtain ⟨-, rfl, rfl⟩ := hact
          rw [sum_update_eq (g := Pc.counted) (by rw [htask]; rfl), ih]
      | fetchAdd =>
          simp only [tasks, htask, Option.some.injEq, Prod.mk.injEq] at hact
          obtain ⟨-, rfl, rfl⟩ := hact
          have hone : (∑ j, (Function.update s.task i Pc.returned j).counted) =
              1 + ∑ j, (s.task j).counted :=
            sum_update_eq_add (g := Pc.counted) (by rw [htask]; rfl)
          -- this task is one of those that are counted, so the counter does not wrap
          have hle := sum_counted_le (Function.update s.task i .returned)
          have hlt : numTasks.toNat < 2 ^ 64 := numTasks.toNat_lt
          have h1 : (1 : UInt64).toNat = 1 := rfl
          rw [UInt64.toNat_add, h1, hone, ih, Nat.mod_eq_of_lt (by omega), Nat.add_comm]
      | returned => simp [tasks, htask] at hact

theorem own_length_le (h : (main numTasks sleepMs).Run tr s) (i : Fin numTasks.toNat) :
    (Tasks.own i tr).length ≤ 2 := by
  have hwork : (work sleepMs).length ≤ 2 := by
    unfold work
    split <;> simp
  rw [← own_left h i, List.length_append] at hwork
  omega

theorem returned_of_released (h : (main numTasks sleepMs).Reachable s) (hmain : s.main = .released)
    (i : Fin numTasks.toNat) : s.task i = .returned := by
  refine beq_iff_eq.1 (Tasks.Reachable.returned ?_ h hmain i)
  intro i c x a ha
  obtain rfl := beq_iff_eq.1 ha
  rfl

/-- The check of `main` finds what it looks for. -/
theorem counter_of_released (h : (main numTasks sleepMs).Reachable s)
    (hmain : s.main = .released) : s.shared = numTasks := by
  refine UInt64.toNat_inj.1 ?_
  rw [counter_eq h]
  simp [returned_of_released h hmain, Pc.counted]

/-- The self-check of `sleep`. In every order of steps a task that has not returned can go on, so
that `main` gets through within a bounded number of steps unless a task could not be started; the
counter is the number of the tasks that have returned; and once `main` is through, each task has
slept, if it was to sleep, before it was counted, once, and the check finds `num_tasks`, never
fewer. The counter is that of runs without cancellation: behind a refused task the source cancels the
others, and does not read it. -/
theorem all_tasks_ran (h : (main numTasks sleepMs).Run tr s) :
    s.shared.toNat = ∑ i, (s.task i).counted ∧
    (∀ i, ∃ todo, Tasks.own i tr ++ todo = work sleepMs) ∧
    (∀ k, s.main = .started k → ∃ l s', (main numTasks sleepMs).step s l s') ∧
    (∀ k, s.main = .started k →
      ∃ us s', (main numTasks sleepMs).Path s us s' ∧ s'.main = .released) ∧
    tr.length ≤ 3 * numTasks.toNat + 1 ∧
    (∀ ran, exit s ≠ some (.only ran)) ∧
    (s.main = .released → exit s = some .duration ∧ ∀ i, Tasks.own i tr = work sleepMs) := by
  have hmove : ∀ s, (main numTasks sleepMs).Reachable s → ∀ i,
      (tasks numTasks sleepMs).returned (s.task i) = false →
        ∃ c r, (tasks numTasks sleepMs).act i c s.shared (s.task i) = some r := by
    intro s _ i hi
    cases htask : s.task i with
    | sleep | fetchAdd => exact ⟨(), _, rfl⟩
    | returned =>
        rw [htask] at hi
        cases hi
  refine ⟨counter_eq h.reachable, fun i => ⟨_, own_left h i⟩, fun k hmain => ?_, fun k hmain => ?_,
    ?_, ?_, ?_⟩
  · exact Tasks.Reachable.exists_step h.reachable hmain (hmove s h.reachable)
  · exact Tasks.Run.exists_released (fun tr s hr => own_length_le hr) hmove h hmain
  · have hle := Tasks.Run.length_le (own_length_le h) h
    omega
  · intro ran hexit
    unfold exit at hexit
    cases hmain : s.main with
    | started k => simp [hmain] at hexit
    | refused k => simp [hmain] at hexit
    | released => simp [hmain, counter_of_released h.reachable hmain] at hexit
  · intro hmain
    refine ⟨by simp [exit, hmain, counter_of_released h.reachable hmain], fun i => ?_⟩
    rw [← own_left h i, returned_of_released h.reachable hmain i, Pc.left, List.append_nil]

def first : Fin 2 := ⟨0, Nat.two_pos⟩

def second : Fin 2 := ⟨1, Nat.one_lt_two⟩

/-- Two tasks, of which the second one is the first to be counted. -/
def twoTasks : List (Tasks.Label 2 Label) × Tasks.State 2 UInt64 Pc :=
  (System.replay (tasks 2 10).next ⟨.started 0, 0, fun _ => .sleep⟩
    [.spawn true, .task first (), .spawn true, .task second (), .task second (), .task first (),
      .wait]).get rfl

/-- Both are counted, and `main` reports the duration. -/
theorem all_tasks_ran_twoTasks :
    (main 2 10).Run twoTasks.1 twoTasks.2 ∧
      twoTasks.1 = [.spawned 0, .did 0 .slept, .spawned 1, .did 1 .slept, .did 1 .counted,
        .did 0 .counted, .released] ∧
      twoTasks.2.shared = 2 ∧ @exit 2 twoTasks.2 = some .duration ∧
      ∀ i : Fin 2, Tasks.own i twoTasks.1 = [.slept, .counted] := by
  have h : (main 2 10).Run twoTasks.1 twoTasks.2 := Tasks.run_of_replay (Option.some_get _).symm
  obtain ⟨hexit, hown⟩ := (all_tasks_ran h).2.2.2.2.2.2 rfl
  exact ⟨h, rfl, rfl, hexit, hown⟩

end ZioBenchmarks.Sleep
