import ZioBenchmarks.Fold.Update
import ZioBenchmarks.Transition.Runs

/-!
# The contended counter and its self-check

The workers of `mutex_bench_native.zig` increment one counter under one mutex, and `main` compares
the counter with `workers * iterations`. The increment is a load and a store, so that only the mutex
keeps two of them apart. `main` starts the workers in one of three ways: the two thread modes start
`workers` threads and keep their handles in an array of 16, the task mode starts `num_workers` tasks
whatever `--workers` says.
-/

set_option autoImplicit false

namespace ZioBenchmarks.MutexBench

open ZioBenchmarks.Transition ZioBenchmarks.Fold

/-- `const num_workers`. -/
def numWorkers : Nat := 4

/-- `const iterations`. -/
def iterations : Nat := 100000

/-- The length of `var handles: [16]std.Thread`. -/
def handlesLen : Nat := 16

/-- The statement a worker executes next, with the number of increments it has done. -/
inductive Pc where
  /-- Head of the loop, and the lock. -/
  | loop (k : Nat)
  /-- The load of `counter.* += 1`. -/
  | load (k : Nat)
  /-- The store of `counter.* += 1`, with the value to store. -/
  | store (k v : Nat)
  | unlock (k : Nat)
  | returned
  deriving DecidableEq, Repr

/-- The mutex, the counter and the workers. -/
structure State (Worker : Type) where
  mutex : Option Worker
  counter : Nat
  pc : Worker → Pc

variable {Worker : Type} [DecidableEq Worker]

/-- `w` continues at `p`. -/
def State.goto (s : State Worker) (w : Worker) (p : Pc) : State Worker :=
  { s with pc := Function.update s.pc w p }

@[simp] theorem goto_pc (s : State Worker) (w : Worker) (p : Pc) :
    (s.goto w p).pc = Function.update s.pc w p := rfl

@[simp] theorem goto_mutex (s : State Worker) (w : Worker) (p : Pc) :
    (s.goto w p).mutex = s.mutex := rfl

@[simp] theorem goto_counter (s : State Worker) (w : Worker) (p : Pc) :
    (s.goto w p).counter = s.counter := rfl

/-- One statement of `taskWorker`, `threadWorker` or `osThreadWorker`: the three differ in the type
of the mutex. -/
def worker (iters : Nat) (s : State Worker) (w : Worker) : Option (State Worker) :=
  match s.pc w with
  | .loop k =>
      if k < iters then
        if s.mutex = none then some ({ s with mutex := some w }.goto w (.load k)) else none
      else
        some (s.goto w .returned)
  | .load k => some (s.goto w (.store k s.counter))
  | .store k v => some ({ s with counter := v + 1 }.goto w (.unlock (k + 1)))
  | .unlock k => some ({ s with mutex := none }.goto w (.loop k))
  | .returned => none

/-- The workers in any order of steps; a label names the worker that moves. -/
def system (Worker : Type) [DecidableEq Worker] (iters : Nat) : System (State Worker) Worker where
  init s := s = ⟨none, 0, fun _ => .loop 0⟩
  step s w s' := worker iters s w = some s'

/-- The increments a worker has done. -/
def Pc.increments (iters : Nat) : Pc → Nat
  | .loop k | .load k | .store k _ | .unlock k => k
  | .returned => iters

/-- The statements a worker has still to execute. -/
def Pc.remaining (iters : Nat) : Pc → Nat
  | .loop k => 4 * (iters - k) + 1
  | .load k => 4 * (iters - k)
  | .store k _ => 4 * (iters - k) - 1
  | .unlock k => 4 * (iters - k) + 2
  | .returned => 0

/-- Statements executed while holding the mutex. -/
def Pc.critical : Pc → Bool
  | .load _ | .store _ _ | .unlock _ => true
  | .loop _ | .returned => false

/-- A worker inside the lock has an increment left to do, or has just done one, and its value is
current. -/
def Pc.Ok (iters counter : Nat) : Pc → Prop
  | .loop k | .unlock k => k ≤ iters
  | .load k => k < iters
  | .store k v => k < iters ∧ v = counter
  | .returned => True

section Statements

variable (iters k v : Nat)

@[simp] theorem increments_loop : (Pc.loop k).increments iters = k := rfl

@[simp] theorem increments_load : (Pc.load k).increments iters = k := rfl

@[simp] theorem increments_store : (Pc.store k v).increments iters = k := rfl

@[simp] theorem increments_unlock : (Pc.unlock k).increments iters = k := rfl

@[simp] theorem increments_returned : Pc.returned.increments iters = iters := rfl

@[simp] theorem remaining_loop : (Pc.loop k).remaining iters = 4 * (iters - k) + 1 := rfl

@[simp] theorem remaining_load : (Pc.load k).remaining iters = 4 * (iters - k) := rfl

@[simp] theorem remaining_store : (Pc.store k v).remaining iters = 4 * (iters - k) - 1 := rfl

@[simp] theorem remaining_unlock : (Pc.unlock k).remaining iters = 4 * (iters - k) + 2 := rfl

@[simp] theorem remaining_returned : Pc.returned.remaining iters = 0 := rfl

end Statements

variable {iters : Nat} {s s' : State Worker} {w : Worker}

/-- What a statement does. -/
theorem worker_cases (h : worker iters s w = some s') :
    (∃ k, s.pc w = .loop k ∧ k < iters ∧ s.mutex = none ∧
      s' = { s with mutex := some w }.goto w (.load k)) ∨
    (∃ k, s.pc w = .loop k ∧ iters ≤ k ∧ s' = s.goto w .returned) ∨
    (∃ k, s.pc w = .load k ∧ s' = s.goto w (.store k s.counter)) ∨
    (∃ k v, s.pc w = .store k v ∧ s' = { s with counter := v + 1 }.goto w (.unlock (k + 1))) ∨
    ∃ k, s.pc w = .unlock k ∧ s' = { s with mutex := none }.goto w (.loop k) := by
  unfold worker at h
  split at h
  case h_1 k hp =>
    split at h
    case isTrue hk =>
      split at h
      case isTrue hm => exact .inl ⟨k, hp, hk, hm, (Option.some.inj h).symm⟩
      case isFalse => simp at h
    case isFalse hk => exact .inr (.inl ⟨k, hp, by omega, (Option.some.inj h).symm⟩)
  case h_2 k hp => exact .inr (.inr (.inl ⟨k, hp, (Option.some.inj h).symm⟩))
  case h_3 k v hp => exact .inr (.inr (.inr (.inl ⟨k, v, hp, (Option.some.inj h).symm⟩)))
  case h_4 k hp => exact .inr (.inr (.inr (.inr ⟨k, hp, (Option.some.inj h).symm⟩)))
  case h_5 => simp at h

section Invariant

/-- The holder of the mutex is the one worker inside the lock. -/
def State.Exclusive (s : State Worker) : Prop := ∀ w, (s.pc w).critical = true ↔ s.mutex = some w

omit [DecidableEq Worker] in
theorem State.Exclusive.other (hx : s.Exclusive) (hw : (s.pc w).critical = true) {v : Worker}
    (hv : v ≠ w) : (s.pc v).critical = false := by
  by_contra hc
  have hm := (hx v).1 (by simpa using hc)
  rw [(hx w).1 hw] at hm
  exact hv (Option.some.inj hm).symm

theorem worker_exclusive (hx : s.Exclusive) (h : worker iters s w = some s') : s'.Exclusive := by
  intro v
  by_cases hv : v = w
  · subst hv
    have hxv := hx v
    rcases worker_cases h with ⟨k, hp, -, hm, rfl⟩ | ⟨k, hp, -, rfl⟩ | ⟨k, hp, rfl⟩ |
      ⟨k, n, hp, rfl⟩ | ⟨k, hp, rfl⟩
    all_goals
      rw [hp] at hxv
      simp_all [Pc.critical]
  · have hne : ∀ {o : Option Worker}, o = some w → o ≠ some v := by
      rintro _ rfl hvw
      exact hv (Option.some.inj hvw).symm
    have hother := hx.other (w := w) (v := v)
    rcases worker_cases h with ⟨k, hp, -, hm, rfl⟩ | ⟨k, hp, -, rfl⟩ | ⟨k, hp, rfl⟩ |
      ⟨k, n, hp, rfl⟩ | ⟨k, hp, rfl⟩
    all_goals simp only [goto_pc, goto_mutex, Function.update_of_ne hv]
    · -- the mutex was free, so `v` was outside
      simp [hx v, hm, hne rfl]
    · exact hx v
    · exact hx v
    · exact hx v
    · simp [hother (by simp [hp, Pc.critical]) hv]

/-- Outside of the lock nothing depends on the counter. -/
theorem Pc.Ok.of_not_critical {p : Pc} {n m : Nat} (h : p.Ok iters n) (hp : p.critical = false) :
    p.Ok iters m := by
  cases p <;> simp_all [Pc.Ok, Pc.critical]

theorem worker_ok (hx : s.Exclusive) (hok : ∀ v, (s.pc v).Ok iters s.counter)
    (h : worker iters s w = some s') (v : Worker) : (s'.pc v).Ok iters s'.counter := by
  have hw := hok w
  by_cases hv : v = w
  · subst hv
    rcases worker_cases h with ⟨k, hp, hk, -, rfl⟩ | ⟨k, hp, -, rfl⟩ | ⟨k, hp, rfl⟩ |
      ⟨k, n, hp, rfl⟩ | ⟨k, hp, rfl⟩
    all_goals
      rw [hp] at hw
      rw [goto_pc, Function.update_self]
    · exact hk
    · trivial
    · exact ⟨hw, rfl⟩
    · exact hw.1
    · exact hw
  · have hother := hx.other (w := w) (v := v)
    rcases worker_cases h with ⟨k, hp, hk, -, rfl⟩ | ⟨k, hp, -, rfl⟩ | ⟨k, hp, rfl⟩ |
      ⟨k, n, hp, rfl⟩ | ⟨k, hp, rfl⟩
    all_goals simp only [goto_pc, goto_counter, Function.update_of_ne hv]
    case inr.inr.inr.inl =>
      exact (hok v).of_not_critical (hother (by simp [hp, Pc.critical]) hv)
    all_goals exact hok v

variable [Fintype Worker]

/-- The increments all workers have done. -/
def State.increments (iters : Nat) (s : State Worker) : Nat := ∑ w, (s.pc w).increments iters

/-- The statements that are left to the workers. -/
def State.remaining (iters : Nat) (s : State Worker) : Nat := ∑ w, (s.pc w).remaining iters

/-- The counter holds the increments of all workers. -/
structure Inv (iters : Nat) (s : State Worker) : Prop where
  exclusive : s.Exclusive
  ok : ∀ w, (s.pc w).Ok iters s.counter
  counter : s.counter = s.increments iters

theorem worker_increments (hi : Inv iters s) (h : worker iters s w = some s') :
    s'.counter = s'.increments iters := by
  have hsum := fun p => sum_update (Pc.increments iters) s.pc w p
  have hw := hi.ok w
  have hc := hi.counter
  unfold State.increments at hc ⊢
  -- a store is the increment; before it the worker holds the mutex, so what it loaded is current
  rcases worker_cases h with ⟨k, hp, -, -, rfl⟩ | ⟨k, hp, hk, rfl⟩ | ⟨k, hp, rfl⟩ |
    ⟨k, n, hp, rfl⟩ | ⟨k, hp, rfl⟩
  all_goals
    simp only [hp, Pc.Ok] at hw
    simp only [hp] at hsum
    simp only [goto_pc, goto_counter]
  · have hmove := hsum (.load k)
    simp only [increments_loop, increments_load] at hmove
    omega
  · have hmove := hsum .returned
    simp only [increments_loop, increments_returned] at hmove
    omega
  · have hmove := hsum (.store k s.counter)
    simp only [increments_load, increments_store] at hmove
    omega
  · have hmove := hsum (.unlock (k + 1))
    simp only [increments_store, increments_unlock] at hmove
    omega
  · have hmove := hsum (.loop k)
    simp only [increments_unlock, increments_loop] at hmove
    omega

/-- Every statement is one of those that were left. -/
theorem worker_remaining (hi : Inv iters s) (h : worker iters s w = some s') :
    s'.remaining iters + 1 = s.remaining iters := by
  have hsum := fun p => sum_update (Pc.remaining iters) s.pc w p
  have hw := hi.ok w
  unfold State.remaining
  -- every statement is one less to execute
  rcases worker_cases h with ⟨k, hp, hk, -, rfl⟩ | ⟨k, hp, hk, rfl⟩ | ⟨k, hp, rfl⟩ |
    ⟨k, n, hp, rfl⟩ | ⟨k, hp, rfl⟩
  all_goals
    simp only [hp, Pc.Ok] at hw
    simp only [hp] at hsum
    simp only [goto_pc]
  · have hmove := hsum (.load k)
    simp only [remaining_loop, remaining_load] at hmove
    omega
  · have hmove := hsum .returned
    simp only [remaining_loop, remaining_returned] at hmove
    omega
  · have hmove := hsum (.store k s.counter)
    simp only [remaining_load, remaining_store] at hmove
    omega
  · have hmove := hsum (.unlock (k + 1))
    simp only [remaining_store, remaining_unlock] at hmove
    omega
  · have hmove := hsum (.loop k)
    simp only [remaining_unlock, remaining_loop] at hmove
    omega

omit [DecidableEq Worker] in
theorem initial_inv : Inv iters (⟨none, 0, fun _ => .loop 0⟩ : State Worker) where
  exclusive := by simp [State.Exclusive, Pc.critical]
  ok := by simp [Pc.Ok]
  counter := by simp [State.increments]

theorem reachable_inv (h : (system Worker iters).Reachable s) : Inv iters s := by
  refine h.invariant ?_ ?_
  · rintro _ rfl
    exact initial_inv
  · intro s w s' hi hs
    exact ⟨worker_exclusive hi.exclusive hs, worker_ok hi.exclusive hi.ok hs,
      worker_increments hi hs⟩

omit [Fintype Worker] in
/-- A worker that is stuck waits for one that is not. -/
theorem exists_step (hx : s.Exclusive) {v : Worker} (hv : s.pc v ≠ .returned) :
    ∃ w s', worker iters s w = some s' := by
  have hinside : ∀ w, (s.pc w).critical = true → ∃ s', worker iters s w = some s' := by
    intro w hw
    cases hp : s.pc w <;> simp_all [worker, Pc.critical]
  cases hp : s.pc v with
  | loop k =>
      by_cases hk : k < iters
      · cases hm : s.mutex with
        | none => exact ⟨v, by simp [worker, hp, hk, hm]⟩
        | some w => exact ⟨w, hinside w ((hx w).2 hm)⟩
      · exact ⟨v, by simp [worker, hp, hk]⟩
  | load k => exact ⟨v, hinside v (by simp [hp, Pc.critical])⟩
  | store k n => exact ⟨v, hinside v (by simp [hp, Pc.critical])⟩
  | unlock k => exact ⟨v, hinside v (by simp [hp, Pc.critical])⟩
  | returned => exact absurd hp hv

omit [DecidableEq Worker] in
/-- When all workers have returned, every increment is in the counter. -/
theorem Inv.counter_eq (hi : Inv iters s) (hs : ∀ w, s.pc w = .returned) :
    s.counter = Fintype.card Worker * iters := by
  rw [hi.counter, State.increments]
  simp [hs]

theorem run_length {tr : List Worker} (h : (system Worker iters).Run tr s) :
    tr.length + s.remaining iters = Fintype.card Worker * (4 * iters + 1) := by
  refine System.Run.invariant
    (I := fun tr s => tr.length + s.remaining iters = Fintype.card Worker * (4 * iters + 1))
    ?_ ?_ h
  · rintro _ rfl
    simp [State.remaining]
  · intro tr s w s' hr hi hs
    have hstep := worker_remaining (reachable_inv hr.reachable) hs
    rw [List.length_append, List.length_singleton]
    omega

end Invariant

/-! ## The self-check -/

/-- How `main` starts the workers: as tasks (`--zio`, `--zio-mt`), as threads (`--threads`), or as
threads over the mutex of the operating system (`--os`). -/
inductive Mode where
  | tasks
  | threads
  | os
  deriving DecidableEq, Repr

/-- The number of workers `main` starts. The slice `handles[0..workers]` is checked against the
array, so `none` stands for the safety check that fails. -/
def started (mode : Mode) (workers : UInt64) : Option Nat :=
  match mode with
  | .os | .threads => if workers.toNat ≤ handlesLen then some workers.toNat else none
  | .tasks => some numWorkers

/-- How `main` goes on behind the workers. -/
inductive Verdict where
  | ok
  | badCount
  /-- The product `workers * iterations` does not fit. -/
  | overflow
  deriving DecidableEq, Repr

/-- `if (counter != workers * iterations) return error.BadCount`. -/
def verdict (workers : UInt64) (counter : Nat) : Verdict :=
  if workers.toNat * iterations < 2 ^ 64 then
    if counter ≠ workers.toNat * iterations then .badCount else .ok
  else .overflow

/-- The self-check passes: `main` starts the workers with every handle inside the array, no order of
steps gets stuck or goes on for ever, and when all workers have returned the counter is what `main`
expects. -/
def SelfCheckPasses (mode : Mode) (workers : UInt64) : Prop :=
  ∃ n, started mode workers = some n ∧
    ∀ tr s, (system (Fin n) iterations).Run tr s →
      tr.length ≤ n * (4 * iterations + 1) ∧
      ((∃ w, s.pc w ≠ .returned) → ∃ w s', worker iterations s w = some s') ∧
      ((∀ w, s.pc w = .returned) →
        s.counter = workers.toNat * iterations ∧ verdict workers s.counter = .ok)

/-- The workers can always finish. -/
theorem exists_finished (n iters : Nat) :
    ∃ tr s, (system (Fin n) iters).Run tr s ∧ ∀ w, s.pc w = .returned := by
  have hinit : (system (Fin n) iters).Run [] ⟨none, 0, fun _ => .loop 0⟩ := .nil rfl
  have hdec : ∀ s w s', (system (Fin n) iters).Reachable s → (system (Fin n) iters).step s w s' →
      s'.remaining iters < s.remaining iters := by
    intro s w s' hr hs
    have hstep := worker_remaining (reachable_inv hr) hs
    omega
  have hprog : ∀ s, (system (Fin n) iters).Reachable s → (¬ ∀ w, s.pc w = .returned) →
      ∃ w s', (system (Fin n) iters).step s w s' := by
    intro s hr hs
    obtain ⟨v, hv⟩ := not_forall.1 hs
    exact exists_step (reachable_inv hr).exclusive hv
  obtain ⟨tr, s, hp, hs⟩ := System.Reachable.exists_final hdec hprog hinit.reachable
  exact ⟨tr, s, hinit.append hp, hs⟩

theorem not_selfCheckPasses_tasks {workers : UInt64} (hne : workers ≠ 4) :
    ¬ SelfCheckPasses .tasks workers := by
  rintro ⟨n, hn, hruns⟩
  obtain rfl : numWorkers = n := Option.some.inj hn
  obtain ⟨tr, s, hr, hs⟩ := exists_finished numWorkers iterations
  have hcounter := (reachable_inv hr.reachable).counter_eq hs
  have hexpected := ((hruns tr s hr).2.2 hs).1
  rw [hcounter, Fintype.card_fin] at hexpected
  have hfour : workers.toNat = 4 := by
    have h := Nat.eq_of_mul_eq_mul_right (by decide) hexpected
    exact h.symm
  exact hne (UInt64.toNat_inj.1 hfour)

/-- With as many workers as `main` expects, few enough for the product, the self-check passes. -/
theorem selfCheckPasses_of_started {mode : Mode} {workers : UInt64}
    (hn : started mode workers = some workers.toNat) (hle : workers.toNat ≤ handlesLen) :
    SelfCheckPasses mode workers := by
  refine ⟨workers.toNat, hn, fun tr s hr => ⟨?_, ?_, fun hs => ?_⟩⟩
  · have hlen := run_length hr
    rw [Fintype.card_fin] at hlen
    omega
  · rintro ⟨v, hv⟩
    exact exists_step (reachable_inv hr.reachable).exclusive hv
  · have hcounter := (reachable_inv hr.reachable).counter_eq hs
    rw [Fintype.card_fin] at hcounter
    have hfits : workers.toNat * iterations < 2 ^ 64 := by
      have h := Nat.mul_le_mul_right iterations hle
      simp only [handlesLen, iterations] at h ⊢
      omega
    rw [verdict, if_pos hfits, hcounter]
    simp

/-- The self-check passes exactly in the thread modes with at most 16 workers and in the task mode
with 4. -/
theorem self_check_passes_iff (mode : Mode) (workers : UInt64) :
    SelfCheckPasses mode workers ↔
      (mode = .tasks ∧ workers = 4) ∨ (mode ≠ .tasks ∧ workers ≤ 16) := by
  have hle : workers ≤ 16 ↔ workers.toNat ≤ handlesLen := UInt64.le_iff_toNat_le
  rw [hle]
  constructor
  · intro h
    cases mode with
    | tasks =>
        by_cases hw : workers = 4
        · exact .inl ⟨rfl, hw⟩
        · exact absurd h (not_selfCheckPasses_tasks hw)
    | threads | os =>
        obtain ⟨n, hn, -⟩ := h
        refine .inr ⟨by simp, ?_⟩
        by_contra hlarge
        simp [started, hlarge] at hn
  · rintro (⟨rfl, rfl⟩ | ⟨hmode, hsmall⟩)
    · exact selfCheckPasses_of_started rfl (by decide)
    · apply selfCheckPasses_of_started _ hsmall
      cases mode with
      | tasks => exact absurd rfl hmode
      | threads | os => simp [started, hsmall]

/-- `--workers=8` without `--threads` starts 4 tasks and expects the increments of 8. -/
theorem self_check_fails_tasks_eight : ¬ SelfCheckPasses .tasks 8 :=
  not_selfCheckPasses_tasks (by decide)

end ZioBenchmarks.MutexBench
