import ZioBenchmarks.Fold.Update
import ZioBenchmarks.Transition.Runs

/-!
# Groups of tasks

A main program starts tasks one after another and then waits for all of them, while the tasks it has
started run in any order. What is known of one task in a system of its own holds of each task of the
group: the steps of a task in a run of the group are a path of that system (`Run.own`), the group is
done when each of its tasks is (`Reachable.returned`), it can go on if they can
(`Reachable.exists_step`), its runs are as long as theirs together (`Run.length_eq`), and so it can
always be done in the end (`Run.exists_released`).
-/

set_option autoImplicit false

namespace ZioBenchmarks.Transition

universe u v w x

/-- The tasks of a group: what they share, where each of them starts, and a step of one of them,
which may depend on a choice. -/
structure Tasks (n : Nat) (κ : Type u) (σ : Type v) (τ : Type w) (ℓ : Type x) where
  shared : σ
  start : Fin n → τ
  act : Fin n → κ → σ → τ → Option (ℓ × σ × τ)
  returned : τ → Bool

namespace Tasks

/-- Where the main program is. -/
inductive Main where
  /-- The first `k` tasks have been started. -/
  | started (k : Nat)
  /-- Task `k` could not be started, and the main program has given up. The tasks it has started go on
  here as if it had not: that a source cancels them then is not in the model. -/
  | refused (k : Nat)
  /-- All tasks have been started and waited for. -/
  | released
  deriving DecidableEq, Repr

/-- The number of tasks that have been started, of `n`. -/
def Main.live (n : Nat) : Main → Nat
  | .started k | .refused k => k
  | .released => n

/-- The number of steps of the main program so far. -/
def Main.steps (n : Nat) : Main → Nat
  | .started k => k
  | .refused k => k + 1
  | .released => n + 1

structure State (n : Nat) (σ : Type v) (τ : Type w) where
  main : Main
  shared : σ
  task : Fin n → τ

/-- Who moves: the main program, which may be refused a task, or a task with its choice. -/
inductive Act (n : Nat) (κ : Type u) where
  | spawn (granted : Bool)
  | wait
  | task (i : Fin n) (c : κ)

inductive Label (n : Nat) (ℓ : Type x) where
  | spawned (i : Fin n)
  | refused (i : Fin n)
  | did (i : Fin n) (l : ℓ)
  | released
  deriving DecidableEq, Repr

variable {n : Nat} {κ : Type u} {σ : Type v} {τ : Type w} {ℓ : Type x} (T : Tasks n κ σ τ ℓ)

/-- One step of the main program or of a task that has been started. -/
def next (s : State n σ τ) : Act n κ → Option (Label n ℓ × State n σ τ)
  | .spawn granted =>
      match s.main with
      | .started k =>
          if h : k < n then
            if granted then some (.spawned ⟨k, h⟩, { s with main := .started (k + 1) })
            else some (.refused ⟨k, h⟩, { s with main := .refused k })
          else none
      | _ => none
  | .wait =>
      if s.main = .started n ∧ ∀ i, T.returned (s.task i) = true then
        some (.released, { s with main := .released })
      else none
  | .task i c =>
      if i < s.main.live n then
        (T.act i c s.shared (s.task i)).map fun r =>
          (.did i r.1, { s with shared := r.2.1, task := Function.update s.task i r.2.2 })
      else none

/-- The group in any order of steps. -/
def group : System (State n σ τ) (Label n ℓ) where
  init s := s = ⟨.started 0, T.shared, T.start⟩
  step s l s' := ∃ a, T.next s a = some (l, s')

/-- The steps of one task, in order. -/
def own (i : Fin n) (tr : List (Label n ℓ)) : List ℓ :=
  tr.filterMap fun
    | .did j l => if j = i then some l else none
    | _ => none

section Own

variable (i j : Fin n) (l : ℓ) (tr : List (Label n ℓ))

@[simp] theorem own_spawned : own i (tr ++ [.spawned j]) = own i tr := by
  simp [own]

@[simp] theorem own_refused : own i (tr ++ [.refused j]) = own i tr := by
  simp [own]

@[simp] theorem own_released : own i (tr ++ [.released]) = own i tr := by
  simp [own]

theorem own_did_self : own i (tr ++ [.did i l]) = own i tr ++ [l] := by
  simp [own]

theorem own_did_of_ne (h : j ≠ i) : own i (tr ++ [.did j l]) = own i tr := by
  simp [own, h]

end Own

variable {T} {s s' : State n σ τ} {l : Label n ℓ} {tr : List (Label n ℓ)}

/-- What a step of the group can be. -/
theorem step_cases (h : T.group.step s l s') :
    (∃ k, ∃ hk : k < n, s.main = .started k ∧ l = .spawned ⟨k, hk⟩ ∧
      s' = { s with main := .started (k + 1) }) ∨
    (∃ k, ∃ hk : k < n, s.main = .started k ∧ l = .refused ⟨k, hk⟩ ∧
      s' = { s with main := .refused k }) ∨
    (s.main = .started n ∧ (∀ i, T.returned (s.task i) = true) ∧ l = .released ∧
      s' = { s with main := .released }) ∨
    (∃ i c m x a, i.val < s.main.live n ∧ T.act i c s.shared (s.task i) = some (m, x, a) ∧
      l = .did i m ∧ s' = { s with shared := x, task := Function.update s.task i a }) := by
  obtain ⟨a, h⟩ := h
  cases a with
  | spawn granted =>
      simp only [next] at h
      split at h
      case h_1 k hmain =>
        by_cases hk : k < n
        · cases granted with
          | true =>
              simp only [hk, dite_true, if_true, Option.some.injEq, Prod.mk.injEq] at h
              exact .inl ⟨k, hk, hmain, h.1.symm, h.2.symm⟩
          | false =>
              simp only [hk, dite_true, Bool.false_eq_true, if_false, Option.some.injEq,
                Prod.mk.injEq] at h
              exact .inr (.inl ⟨k, hk, hmain, h.1.symm, h.2.symm⟩)
        · simp [hk] at h
      case h_2 => cases h
  | wait =>
      simp only [next] at h
      by_cases hw : s.main = .started n ∧ ∀ i, T.returned (s.task i) = true
      · rw [if_pos hw] at h
        simp only [Option.some.injEq, Prod.mk.injEq] at h
        exact .inr (.inr (.inl ⟨hw.1, hw.2, h.1.symm, h.2.symm⟩))
      · rw [if_neg hw] at h
        cases h
  | task i c =>
      simp only [next] at h
      by_cases hi : i.val < s.main.live n
      · rw [if_pos hi, Option.map_eq_some_iff] at h
        obtain ⟨⟨m, x, a⟩, hact, h⟩ := h
        simp only [Prod.mk.injEq] at h
        exact .inr (.inr (.inr ⟨i, c, m, x, a, hi, hact, h.1.symm, h.2.symm⟩))
      · rw [if_neg hi] at h
        cases h

/-- No more tasks are started than there are. -/
theorem live_le (h : T.group.Reachable s) : s.main.live n ≤ n := by
  refine System.Reachable.invariant (I := fun s => s.main.live n ≤ n) ?_ ?_ h
  · rintro _ rfl
    exact Nat.zero_le _
  · intro s l s' hi hs
    obtain ⟨k, hk, -, -, rfl⟩ | ⟨k, hk, -, -, rfl⟩ | ⟨-, -, -, rfl⟩ |
      ⟨i, c, m, x, a, -, -, -, rfl⟩ := step_cases hs
    · exact hk
    · exact hk.le
    · exact le_refl n
    · exact hi

/-- The steps of a task are a path of any system that allows them, whatever the tasks share. -/
theorem Run.own {P : Fin n → System τ ℓ}
    (hP : ∀ i c x a m x' a', T.act i c x a = some (m, x', a') → (P i).step a m a')
    (h : T.group.Run tr s) (i : Fin n) : (P i).Path (T.start i) (own i tr) (s.task i) := by
  refine System.Run.invariant
    (I := fun tr s => (P i).Path (T.start i) (Tasks.own i tr) (s.task i)) ?_ ?_ h
  · rintro _ rfl
    exact .nil
  · intro tr s l s' _ ih hs
    obtain ⟨k, hk, -, rfl, rfl⟩ | ⟨k, hk, -, rfl, rfl⟩ | ⟨-, -, rfl, rfl⟩ |
      ⟨j, c, m, x, a, -, hact, rfl, rfl⟩ := step_cases hs
    · simpa using ih
    · simpa using ih
    · simpa using ih
    · by_cases hj : j = i
      · subst hj
        rw [own_did_self]
        simpa using ih.snoc (hP _ _ _ _ _ _ _ hact)
      · rw [own_did_of_ne _ _ _ _ hj]
        simpa [Function.update_of_ne (Ne.symm hj)] using ih

/-- The steps of a run are those of its tasks and those of the main program. -/
theorem Run.length_eq (h : T.group.Run tr s) :
    tr.length = (∑ i, (Tasks.own i tr).length) + s.main.steps n := by
  refine System.Run.invariant
    (I := fun tr s => tr.length = (∑ i, (Tasks.own i tr).length) + s.main.steps n) ?_ ?_ h
  · rintro _ rfl
    simp [Tasks.own, Main.steps]
  · intro tr s l s' _ ih hs
    obtain ⟨k, hk, hmain, rfl, rfl⟩ | ⟨k, hk, hmain, rfl, rfl⟩ | ⟨hmain, -, rfl, rfl⟩ |
      ⟨j, c, m, x, a, -, -, rfl, rfl⟩ := step_cases hs
    · simp [ih, hmain, Main.steps]
      omega
    · simp [ih, hmain, Main.steps]
      omega
    · simp [ih, hmain, Main.steps]
      omega
    · have hown : (fun i => (Tasks.own i (tr ++ [.did j m])).length) =
          Function.update (fun i => (Tasks.own i tr).length) j ((Tasks.own j tr).length + 1) := by
        funext i
        by_cases hi : i = j
        · subst hi
          simp [own_did_self]
        · simp [own_did_of_ne _ _ _ _ (Ne.symm hi), hi]
      have hsum := Fold.sum_update_eq_add (g := id) (a := 1)
        (f := fun i => (Tasks.own i tr).length) (i := j) (v := (Tasks.own j tr).length + 1)
        (by simp [Nat.add_comm])
      simp only [id] at hsum
      rw [List.length_append, List.length_singleton, ih, hown, hsum]
      show _ = _ + s.main.steps n
      omega

/-- A run is no longer than its tasks allow. -/
theorem Run.length_le {b : Nat} (hb : ∀ i, (Tasks.own i tr).length ≤ b) (h : T.group.Run tr s) :
    tr.length ≤ n * b + n + 1 := by
  have hsum : ∑ i, (Tasks.own i tr).length ≤ n * b := by
    calc ∑ i, (Tasks.own i tr).length ≤ ∑ _i : Fin n, b := Finset.sum_le_sum fun i _ => hb i
      _ = n * b := by rw [Finset.sum_const_nat fun _ _ => rfl, Finset.card_univ, Fintype.card_fin]
  have hsteps : s.main.steps n ≤ n + 1 := by
    have hlive := live_le h.reachable
    cases hmain : s.main with
    | started k =>
        rw [hmain, Main.live] at hlive
        simp only [Main.steps]
        omega
    | refused k =>
        rw [hmain, Main.live] at hlive
        simp only [Main.steps]
        omega
    | released => exact le_refl _
  rw [Run.length_eq h]
  omega

/-- Behind the wait every task has returned. -/
theorem Reachable.returned
    (hstop : ∀ i c x a, T.returned a = true → T.act i c x a = none) (h : T.group.Reachable s)
    (hmain : s.main = .released) (i : Fin n) : T.returned (s.task i) = true := by
  have hall : s.main = .released → ∀ i, T.returned (s.task i) = true := by
    refine System.Reachable.invariant
      (I := fun s => s.main = .released → ∀ i, T.returned (s.task i) = true) ?_ ?_ h
    · rintro _ rfl hm
      cases hm
    · intro s l s' ih hs hm
      obtain ⟨k, hk, -, -, rfl⟩ | ⟨k, hk, -, -, rfl⟩ | ⟨-, hret, -, rfl⟩ |
        ⟨j, c, m, x, a, -, hact, -, rfl⟩ := step_cases hs
      · cases hm
      · cases hm
      · exact hret
      · rw [hstop _ _ _ _ (ih hm j)] at hact
        cases hact
  exact hall hmain i

/-- A group whose tasks can go on can go on, and be granted the tasks it starts. -/
theorem Reachable.exists_granted (h : T.group.Reachable s) {k : Nat} (hmain : s.main = .started k)
    (hmove : ∀ i, T.returned (s.task i) = false → ∃ c r, T.act i c s.shared (s.task i) = some r) :
    ∃ l s', T.group.step s l s' ∧ ∀ j, s'.main ≠ .refused j := by
  have hk : k ≤ n := by simpa [hmain, Main.live] using live_le h
  rcases Nat.lt_or_eq_of_le hk with hk | rfl
  · refine ⟨.spawned ⟨k, hk⟩, { s with main := .started (k + 1) }, ⟨.spawn true, ?_⟩, nofun⟩
    simp [next, hmain, hk]
  · by_cases hall : ∀ i, T.returned (s.task i) = true
    · refine ⟨.released, { s with main := .released }, ⟨.wait, ?_⟩, nofun⟩
      simp only [next, hmain, true_and]
      rw [if_pos hall]
    · obtain ⟨i, hi⟩ := not_forall.1 hall
      obtain ⟨c, r, hr⟩ := hmove i (by simpa using hi)
      refine ⟨.did i r.1, { s with shared := r.2.1, task := Function.update s.task i r.2.2 },
        ⟨.task i c, ?_⟩, by rw [hmain]; exact nofun⟩
      simp only [next, hmain, Main.live, i.isLt, if_true, hr]
      rfl

theorem Reachable.exists_step (h : T.group.Reachable s) {k : Nat} (hmain : s.main = .started k)
    (hmove : ∀ i, T.returned (s.task i) = false → ∃ c r, T.act i c s.shared (s.task i) = some r) :
    ∃ l s', T.group.step s l s' := by
  obtain ⟨l, s', hs, -⟩ := Reachable.exists_granted h hmain hmove
  exact ⟨l, s', hs⟩

/-- A group whose tasks can go on, and have a bounded number of steps, can go on until it is done. -/
theorem Run.exists_released {b : Nat}
    (hb : ∀ tr s, T.group.Run tr s → ∀ i, (Tasks.own i tr).length ≤ b)
    (hmove : ∀ s, T.group.Reachable s → ∀ i, T.returned (s.task i) = false →
      ∃ c r, T.act i c s.shared (s.task i) = some r)
    (h : T.group.Run tr s) {k : Nat} (hmain : s.main = .started k) :
    ∃ us s', T.group.Path s us s' ∧ s'.main = .released := by
  refine System.Run.exists_final (P := fun s => ∀ j, s.main ≠ .refused j)
    (fun tr s hr => Run.length_le (hb tr s hr) hr) ?_ h (by rw [hmain]; exact nofun)
  intro t ht hgranted hrun
  cases hm : t.main with
  | started j => exact Reachable.exists_granted ht hm (hmove t ht)
  | refused j => exact absurd hm (hgranted j)
  | released => exact absurd hm hrun

theorem run_of_replay {as : List (Act n κ)} {r : List (Label n ℓ) × State n σ τ}
    (h : System.replay T.next ⟨.started 0, T.shared, T.start⟩ as = some r) :
    T.group.Run r.1 r.2 :=
  System.Run.of_replay (T := T.group) (fun _ a _ _ ha => ⟨a, ha⟩) rfl h

end Tasks

end ZioBenchmarks.Transition
