import ZioBenchmarks.Transition.Group
import ZioBenchmarks.WorkerPool.Work

/-!
# The parallel reduction

`main` of `cpu_parallel.zig` and of its Go counterpart: one task per chunk puts the number of the
chunk through the recurrence of `work` and writes the result to its own slot, without ever yielding,
and `main` combines the slots into a checksum once all tasks have returned. The source asks that the
checksum match across all backends, so it must not depend on the order of the steps.
-/

set_option autoImplicit false

namespace ZioBenchmarks.CpuParallel

open ZioBenchmarks.Transition ZioBenchmarks.WorkerPool

def totalIters : UInt64 := 4000000000

def numChunks : Nat := 64

def perChunk : UInt64 := totalIters / 64

/-- Where `worker` is: in the loop of `work`, with the turns that are left, or behind the write to
`results[idx]`. -/
inductive Pc where
  | loop (turns : Nat) (x acc : UInt64)
  | returned
  deriving DecidableEq, Repr

inductive Label (n : Nat) where
  | turned
  | wrote (idx : Fin n) (result : UInt64)
  deriving DecidableEq, Repr

/-- The tasks share `results`, which starts undefined. -/
def workers (n : Nat) (iters : UInt64) : Tasks n Unit (Fin n → Option UInt64) Pc (Label n) where
  shared _ := none
  start idx := .loop iters.toNat (UInt64.ofNat (idx.val + 1)) 0
  act idx _ results
    | .loop 0 _ acc => some (.wrote idx acc, Function.update results idx (some acc), .returned)
    | .loop (turns + 1) x acc =>
        some (.turned, results, .loop turns (advance x) (acc ^^^ advance x >>> 29))
    | .returned => none
  returned pc := pc == .returned

/-- `for (results) |r| checksum ^= r`, where a slot that was never written has no value. -/
def combine {n : Nat} (results : Fin n → Option UInt64) : Option UInt64 :=
  ((List.finRange n).mapM results).map checksum

/-- What a slot must hold in the end. -/
def result {n : Nat} (iters : UInt64) (idx : Fin n) : UInt64 :=
  work (UInt64.ofNat (idx.val + 1)) iters

/-- The number of steps that a worker has left. -/
def Pc.left : Pc → Nat
  | .loop turns _ _ => turns + 1
  | .returned => 0

/-- A worker is on its way to its result, or has written it. -/
def Pc.Ok (r : UInt64) (slot : Option UInt64) : Pc → Prop
  | .loop turns x acc => workLoop turns x acc = r ∧ slot = none
  | .returned => slot = some r

variable {n : Nat} {iters : UInt64} {s : Tasks.State n (Fin n → Option UInt64) Pc}
  {tr : List (Tasks.Label n (Label n))}

/-- A step of a worker: a turn of its loop, or the write to its own slot. -/
theorem step_cases {idx : Fin n} {c : Unit} {results results' : Fin n → Option UInt64} {pc pc' : Pc}
    {l : Label n} (h : (workers n iters).act idx c results pc = some (l, results', pc')) :
    (∃ x acc, pc = .loop 0 x acc ∧ results' = Function.update results idx (some acc) ∧
      pc' = .returned) ∨
    (∃ turns x acc, pc = .loop (turns + 1) x acc ∧ results' = results ∧
      pc' = .loop turns (advance x) (acc ^^^ advance x >>> 29)) := by
  cases pc with
  | loop turns x acc =>
      cases turns with
      | zero =>
          simp only [workers, Option.some.injEq, Prod.mk.injEq] at h
          exact .inl ⟨x, acc, rfl, h.2.1.symm, h.2.2.symm⟩
      | succ turns =>
          simp only [workers, Option.some.injEq, Prod.mk.injEq] at h
          exact .inr ⟨turns, x, acc, rfl, h.2.1.symm, h.2.2.symm⟩
  | returned => simp [workers] at h

theorem step_slot_of_ne {idx i : Fin n} {c : Unit} {results results' : Fin n → Option UInt64}
    {pc pc' : Pc} {l : Label n} (hne : i ≠ idx)
    (h : (workers n iters).act idx c results pc = some (l, results', pc')) :
    results' i = results i := by
  obtain ⟨x, acc, -, rfl, -⟩ | ⟨turns, x, acc, -, rfl, -⟩ := step_cases h
  · exact Function.update_of_ne hne _ _
  · rfl

theorem step_ok {idx : Fin n} {c : Unit} {results results' : Fin n → Option UInt64} {pc pc' : Pc}
    {l : Label n} {r : UInt64} (hok : pc.Ok r (results idx))
    (h : (workers n iters).act idx c results pc = some (l, results', pc')) :
    pc'.Ok r (results' idx) ∧ pc'.left + 1 = pc.left := by
  obtain ⟨x, acc, rfl, rfl, rfl⟩ | ⟨turns, x, acc, rfl, rfl, rfl⟩ := step_cases h
  · have hacc : acc = r := hok.1
    refine ⟨?_, rfl⟩
    rw [Function.update_self, hacc]
    rfl
  · exact ⟨hok, rfl⟩

theorem workers_ok (h : (workers n iters).group.Run tr s) (i : Fin n) :
    (s.task i).Ok (result iters i) (s.shared i) ∧
      (Tasks.own i tr).length + (s.task i).left = iters.toNat + 1 := by
  refine System.Run.invariant (I := fun tr s => ∀ i,
    (s.task i).Ok (result iters i) (s.shared i) ∧
      (Tasks.own i tr).length + (s.task i).left = iters.toNat + 1) ?_ ?_ h i
  · rintro _ rfl i
    exact ⟨⟨rfl, rfl⟩, Nat.zero_add _⟩
  · intro tr s l s' _ ih hs i
    obtain ⟨k, hk, -, rfl, rfl⟩ | ⟨k, hk, -, rfl, rfl⟩ | ⟨-, -, rfl, rfl⟩ |
      ⟨j, c, m, x, a, -, hact, rfl, rfl⟩ := Tasks.step_cases hs
    · simpa using ih i
    · simpa using ih i
    · simpa using ih i
    · by_cases hij : i = j
      · subst hij
        obtain ⟨hok, hleft⟩ := ih i
        obtain ⟨hok', hleft'⟩ := step_ok hok hact
        rw [Tasks.own_did_self, List.length_append, List.length_singleton]
        simp only [Function.update_self]
        exact ⟨hok', by omega⟩
      · -- a worker writes to no slot but its own
        have hslot : x i = s.shared i := step_slot_of_ne hij hact
        rw [Tasks.own_did_of_ne _ _ _ _ (Ne.symm hij)]
        simpa only [Function.update_of_ne hij, hslot] using ih i

/-- A slot is undefined until it holds its result. -/
theorem slot_eq (h : (workers n iters).group.Run tr s) {i : Fin n} {r : UInt64}
    (hr : s.shared i = some r) : r = result iters i := by
  have hok := (workers_ok h i).1
  rw [hr] at hok
  cases htask : s.task i with
  | loop turns x acc =>
      rw [htask] at hok
      cases hok.2
  | returned =>
      rw [htask] at hok
      exact Option.some.inj hok

/-- Once `main` is through, every slot holds its result. -/
theorem slot_of_released (h : (workers n iters).group.Run tr s) (hmain : s.main = .released)
    (i : Fin n) : s.shared i = some (result iters i) := by
  have hreturned : s.task i = .returned := by
    refine beq_iff_eq.1 (Tasks.Reachable.returned ?_ h.reachable hmain i)
    intro i c x a ha
    obtain rfl := beq_iff_eq.1 ha
    rfl
  have hok := (workers_ok h i).1
  rw [hreturned] at hok
  exact hok

/-- The slots of a run that is through, read in order. -/
theorem combine_eq {results : Fin n → Option UInt64} (h : ∀ i, results i = some (result iters i)) :
    combine results = some (xorAll ((List.finRange n).map (result iters))) := by
  have hread : (List.finRange n).mapM results = some ((List.finRange n).map (result iters)) := by
    rw [funext h]
    exact List.mapM_pure
  rw [combine, hread, Option.map_some, checksum, foldl_xor, UInt64.zero_xor]

/-- The checksum of `cpu_parallel`. In every order of steps a slot is undefined until it holds the
result of its chunk; `main` gets through within a bounded number of steps unless a task could not be
started; and then no slot is undefined, and the checksum is the same in every run. -/
theorem checksum_fixed (h : (workers n iters).group.Run tr s) :
    (∀ i r, s.shared i = some r → r = result iters i) ∧
    (∀ k, s.main = .started k → ∃ l s', (workers n iters).group.step s l s') ∧
    (∀ k, s.main = .started k →
      ∃ us s', (workers n iters).group.Path s us s' ∧ s'.main = .released) ∧
    tr.length ≤ n * (iters.toNat + 1) + n + 1 ∧
    (s.main = .released →
      combine s.shared = some (xorAll ((List.finRange n).map (result iters)))) := by
  have hmove : ∀ s, (workers n iters).group.Reachable s → ∀ i,
      (workers n iters).returned (s.task i) = false →
        ∃ c r, (workers n iters).act i c s.shared (s.task i) = some r := by
    intro s _ i hi
    cases htask : s.task i with
    | loop turns x acc =>
        cases turns with
        | zero => exact ⟨(), _, rfl⟩
        | succ turns => exact ⟨(), _, rfl⟩
    | returned =>
        rw [htask] at hi
        cases hi
  have hlength : ∀ tr s, (workers n iters).group.Run tr s → ∀ i,
      (Tasks.own i tr).length ≤ iters.toNat + 1 := by
    intro tr s hr i
    have hleft := (workers_ok hr i).2
    omega
  refine ⟨fun i r => slot_eq h, fun k hmain => ?_, fun k hmain => ?_,
    Tasks.Run.length_le (hlength tr s h) h, fun hmain => combine_eq (slot_of_released h hmain)⟩
  · exact Tasks.Reachable.exists_step h.reachable hmain (hmove s h.reachable)
  · exact Tasks.Run.exists_released hlength hmove h hmain

def first : Fin 2 := ⟨0, Nat.two_pos⟩

def second : Fin 2 := ⟨1, Nat.one_lt_two⟩

/-- Two chunks of one turn each, of which the second one is through first. -/
def twoChunks : List (Tasks.Label 2 (Label 2)) × Tasks.State 2 (Fin 2 → Option UInt64) Pc :=
  (System.replay (workers 2 1).next ⟨.started 0, (workers 2 1).shared, (workers 2 1).start⟩
    [.spawn true, .spawn true, .task second (), .task first (), .task second (), .task first (),
      .wait]).get rfl

/-- Both slots are written, and combined in order. -/
theorem checksum_fixed_twoChunks :
    (workers 2 1).group.Run twoChunks.1 twoChunks.2 ∧ twoChunks.2.main = .released ∧
      twoChunks.1.length = 7 ∧
      combine twoChunks.2.shared = some (xorAll [work 1 1, work 2 1]) := by
  have h : (workers 2 1).group.Run twoChunks.1 twoChunks.2 :=
    Tasks.run_of_replay (Option.some_get _).symm
  exact ⟨h, rfl, rfl, (checksum_fixed h).2.2.2.2 rfl⟩

end ZioBenchmarks.CpuParallel
