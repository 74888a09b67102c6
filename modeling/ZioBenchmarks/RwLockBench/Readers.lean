import Mathlib.Data.UInt
import ZioBenchmarks.Fold.Update
import ZioBenchmarks.Transition.Runs

/-!
# Readers and a writer under a read-write lock

`rwlock_bench_native.zig`: the readers add up a shared counter, the writer increments it. The
increment is a load and a store, so that only the lock keeps a reader from the middle of it. The
lock lets readers in side by side while no writer is inside, and a writer in when nobody is; whether
a reader is let in while the writer waits is the lock's own policy.
-/

set_option autoImplicit false

namespace ZioBenchmarks.RwLockBench

open ZioBenchmarks.Transition ZioBenchmarks.Fold

/-- `num_readers`, `reader_iters`, `writer_iters`, and `--pure`; `letsIn waiting n` tells whether the
lock lets a reader in beside `n` others while the writer waits or does not. The policy sees nothing
else, neither which reader asks nor what happened before. -/
structure Config where
  numReaders : Nat
  readerIters : Nat
  writerIters : Nat
  pureReaders : Bool
  letsIn : Bool → Nat → Bool
  lets_free : ∀ n, letsIn false n = true

/-- The statement a reader executes next, with the reads it has done and `local`. -/
inductive Reader where
  /-- Head of the loop, and `rw.lockShared()`. -/
  | loop (k : Nat) (sum : UInt64)
  /-- `local +%= shared`. -/
  | read (k : Nat) (sum : UInt64)
  /-- `rw.unlockShared()`. -/
  | unlock (k : Nat) (sum : UInt64)
  | returned
  deriving DecidableEq, Repr

/-- The statement the writer executes next, with the increments it has done. -/
inductive Writer where
  /-- Head of the loop, and `rw.lock()`. -/
  | loop (k : Nat)
  /-- The load of `shared += 1`. -/
  | load (k : Nat)
  /-- The store of `shared += 1`, with the value that was loaded. -/
  | store (k v : Nat)
  /-- `rw.unlock()`. -/
  | unlock (k : Nat)
  /-- `zio.yield()`. -/
  | yield (k : Nat)
  | returned
  deriving DecidableEq, Repr

/-- The lock (how many readers are inside, and whether the writer is), `shared`, `sink`, and the
tasks. -/
structure State (cfg : Config) where
  inside : Nat
  exclusive : Bool
  shared : Nat
  sink : UInt64
  reader : Fin cfg.numReaders → Reader
  writer : Writer

/-- A step: a reader reads a value of `shared`, or something else. -/
inductive Label where
  | read (v : Nat)
  | silent
  deriving DecidableEq, Repr

variable {cfg : Config}

/-- The reader `r` continues at `x`. -/
def State.setReader (s : State cfg) (r : Fin cfg.numReaders) (x : Reader) : State cfg :=
  { s with reader := Function.update s.reader r x }

/-- The writer is in `rw.lock()`. -/
def State.writerWaits (s : State cfg) : Bool :=
  match s.writer with
  | .loop k => k < cfg.writerIters
  | _ => false

/-- One statement of `reader`. -/
def reader (s : State cfg) (r : Fin cfg.numReaders) : Option (Label × State cfg) :=
  match s.reader r with
  | .loop k sum =>
      if k < cfg.readerIters then
        if s.exclusive = false ∧ cfg.letsIn s.writerWaits s.inside = true then
          some (.silent, { s with inside := s.inside + 1 }.setReader r (.read k sum))
        else none
      -- `sink.fetchAdd(local, .monotonic)`
      else some (.silent, { s with sink := s.sink + sum }.setReader r .returned)
  | .read k sum =>
      some (.read s.shared, s.setReader r (.unlock (k + 1) (sum + UInt64.ofNat s.shared)))
  | .unlock k sum =>
      some (.silent, { s with inside := s.inside - 1 }.setReader r (.loop k sum))
  | .returned => none

/-- One statement of `writer`. -/
def writer (s : State cfg) : Option (Label × State cfg) :=
  match s.writer with
  | .loop k =>
      if k < cfg.writerIters then
        if s.exclusive = false ∧ s.inside = 0 then
          some (.silent, { s with exclusive := true, writer := .load k })
        else none
      else some (.silent, { s with writer := .returned })
  | .load k => some (.silent, { s with writer := .store k s.shared })
  | .store k v => some (.silent, { s with shared := v + 1, writer := .unlock (k + 1) })
  | .unlock k => some (.silent, { s with exclusive := false, writer := .yield k })
  | .yield k => some (.silent, { s with writer := .loop k })
  | .returned => none

/-- The tasks have been spawned, in the pure mode without the writer. -/
def initial (cfg : Config) : State cfg where
  inside := 0
  exclusive := false
  shared := 0
  sink := 0
  reader _ := .loop 0 0
  writer := if cfg.pureReaders then .returned else .loop 0

/-- All tasks in any order. -/
def system (cfg : Config) : System (State cfg) Label where
  init s := s = initial cfg
  step s l s' := (∃ r, reader s r = some (l, s')) ∨ writer s = some (l, s')

/-- The values that were read, in order. -/
def reads (tr : List Label) : List Nat :=
  tr.filterMap fun
    | .read v => some v
    | .silent => none

/-- Every task has returned. -/
def State.Finished (s : State cfg) : Prop :=
  (∀ r, s.reader r = .returned) ∧ s.writer = .returned

/-! ## What the tasks have done -/

/-- The reader is inside the lock. -/
def Reader.holds : Reader → Nat
  | .read _ _ | .unlock _ _ => 1
  | .loop _ _ | .returned => 0

/-- The reads a reader has done, of `n`. -/
def Reader.count (n : Nat) : Reader → Nat
  | .loop k _ | .read k _ | .unlock k _ => k
  | .returned => n

/-- The sum a reader has not added to `sink`. -/
def Reader.sum : Reader → UInt64
  | .loop _ sum | .read _ sum | .unlock _ sum => sum
  | .returned => 0

/-- The statements a reader has left. -/
def Reader.rank (n : Nat) : Reader → Nat
  | .loop k _ => 3 * (n - k) + 1
  | .read k _ => 3 * (n - k)
  | .unlock k _ => 3 * (n - k) + 2
  | .returned => 0

/-- The reader has not done too many reads. -/
def Reader.Ok (n : Nat) : Reader → Prop
  | .loop k _ | .unlock k _ => k ≤ n
  | .read k _ => k < n
  | .returned => True

/-- The writer is inside the lock. -/
def Writer.holds : Writer → Bool
  | .load _ | .store _ _ | .unlock _ => true
  | .loop _ | .yield _ | .returned => false

/-- The increments of the writer are the value of `shared`, and what it loaded is current. -/
def Writer.Ok (n shared : Nat) : Writer → Prop
  | .loop k | .unlock k | .yield k => k ≤ n ∧ shared = k
  | .load k => k < n ∧ shared = k
  | .store k v => k < n ∧ shared = k ∧ v = k
  | .returned => shared = n

/-- The statements the writer has left. -/
def Writer.rank (n : Nat) : Writer → Nat
  | .loop k => 5 * (n - k) + 1
  | .load k => 5 * (n - k)
  | .store k _ => 5 * (n - k) - 1
  | .unlock k => 5 * (n - k) + 3
  | .yield k => 5 * (n - k) + 2
  | .returned => 0

/-- How often `shared` is incremented in all. -/
def Config.writes (cfg : Config) : Nat := if cfg.pureReaders then 0 else cfg.writerIters

section Statements

variable (n k v m : Nat) (sum : UInt64)

@[simp] theorem holds_loop : (Reader.loop k sum).holds = 0 := rfl

@[simp] theorem holds_read : (Reader.read k sum).holds = 1 := rfl

@[simp] theorem holds_unlock : (Reader.unlock k sum).holds = 1 := rfl

@[simp] theorem holds_returned : Reader.returned.holds = 0 := rfl

@[simp] theorem count_loop : (Reader.loop k sum).count n = k := rfl

@[simp] theorem count_read : (Reader.read k sum).count n = k := rfl

@[simp] theorem count_unlock : (Reader.unlock k sum).count n = k := rfl

@[simp] theorem count_returned : Reader.returned.count n = n := rfl

@[simp] theorem sum_loop : (Reader.loop k sum).sum = sum := rfl

@[simp] theorem sum_read : (Reader.read k sum).sum = sum := rfl

@[simp] theorem sum_unlock : (Reader.unlock k sum).sum = sum := rfl

@[simp] theorem sum_returned : Reader.returned.sum = 0 := rfl

@[simp] theorem rank_loop : (Reader.loop k sum).rank n = 3 * (n - k) + 1 := rfl

@[simp] theorem rank_read : (Reader.read k sum).rank n = 3 * (n - k) := rfl

@[simp] theorem rank_unlock : (Reader.unlock k sum).rank n = 3 * (n - k) + 2 := rfl

@[simp] theorem rank_returned : Reader.returned.rank n = 0 := rfl

end Statements

section SetReader

variable (s : State cfg) (r : Fin cfg.numReaders) (x : Reader)

@[simp] theorem setReader_reader : (s.setReader r x).reader = Function.update s.reader r x := rfl

@[simp] theorem setReader_writer : (s.setReader r x).writer = s.writer := rfl

@[simp] theorem setReader_inside : (s.setReader r x).inside = s.inside := rfl

@[simp] theorem setReader_exclusive : (s.setReader r x).exclusive = s.exclusive := rfl

@[simp] theorem setReader_shared : (s.setReader r x).shared = s.shared := rfl

@[simp] theorem setReader_sink : (s.setReader r x).sink = s.sink := rfl

end SetReader

variable {s s' : State cfg} {r : Fin cfg.numReaders} {l : Label} {tr : List Label}

/-! ## What a step does -/

theorem reader_cases (h : reader s r = some (l, s')) :
    (∃ k sum, s.reader r = .loop k sum ∧ k < cfg.readerIters ∧ s.exclusive = false ∧
      l = .silent ∧ s' = { s with inside := s.inside + 1 }.setReader r (.read k sum)) ∨
    (∃ k sum, s.reader r = .loop k sum ∧ cfg.readerIters ≤ k ∧
      l = .silent ∧ s' = { s with sink := s.sink + sum }.setReader r .returned) ∨
    (∃ k sum, s.reader r = .read k sum ∧ l = .read s.shared ∧
      s' = s.setReader r (.unlock (k + 1) (sum + UInt64.ofNat s.shared))) ∨
    ∃ k sum, s.reader r = .unlock k sum ∧
      l = .silent ∧ s' = { s with inside := s.inside - 1 }.setReader r (.loop k sum) := by
  unfold reader at h
  split at h
  case h_1 k sum hp =>
    split at h
    case isTrue hk =>
      split at h
      case isTrue hfree =>
        obtain ⟨rfl, rfl⟩ := Prod.mk.inj (Option.some.inj h)
        exact .inl ⟨k, sum, hp, hk, hfree.1, rfl, rfl⟩
      case isFalse => simp at h
    case isFalse hk =>
      obtain ⟨rfl, rfl⟩ := Prod.mk.inj (Option.some.inj h)
      exact .inr (.inl ⟨k, sum, hp, by omega, rfl, rfl⟩)
  case h_2 k sum hp =>
    obtain ⟨rfl, rfl⟩ := Prod.mk.inj (Option.some.inj h)
    exact .inr (.inr (.inl ⟨k, sum, hp, rfl, rfl⟩))
  case h_3 k sum hp =>
    obtain ⟨rfl, rfl⟩ := Prod.mk.inj (Option.some.inj h)
    exact .inr (.inr (.inr ⟨k, sum, hp, rfl, rfl⟩))
  case h_4 => simp at h

theorem writer_cases (h : writer s = some (l, s')) :
    l = .silent ∧
    ((∃ k, s.writer = .loop k ∧ k < cfg.writerIters ∧ s.inside = 0 ∧
      s' = { s with exclusive := true, writer := .load k }) ∨
    (∃ k, s.writer = .loop k ∧ cfg.writerIters ≤ k ∧ s' = { s with writer := .returned }) ∨
    (∃ k, s.writer = .load k ∧ s' = { s with writer := .store k s.shared }) ∨
    (∃ k v, s.writer = .store k v ∧
      s' = { s with shared := v + 1, writer := .unlock (k + 1) }) ∨
    (∃ k, s.writer = .unlock k ∧ s' = { s with exclusive := false, writer := .yield k }) ∨
    ∃ k, s.writer = .yield k ∧ s' = { s with writer := .loop k }) := by
  unfold writer at h
  split at h
  case h_1 k hp =>
    split at h
    case isTrue hk =>
      split at h
      case isTrue hfree =>
        obtain ⟨rfl, rfl⟩ := Prod.mk.inj (Option.some.inj h)
        exact ⟨rfl, .inl ⟨k, hp, hk, hfree.2, rfl⟩⟩
      case isFalse => simp at h
    case isFalse hk =>
      obtain ⟨rfl, rfl⟩ := Prod.mk.inj (Option.some.inj h)
      exact ⟨rfl, .inr (.inl ⟨k, hp, by omega, rfl⟩)⟩
  case h_2 k hp =>
    obtain ⟨rfl, rfl⟩ := Prod.mk.inj (Option.some.inj h)
    exact ⟨rfl, .inr (.inr (.inl ⟨k, hp, rfl⟩))⟩
  case h_3 k v hp =>
    obtain ⟨rfl, rfl⟩ := Prod.mk.inj (Option.some.inj h)
    exact ⟨rfl, .inr (.inr (.inr (.inl ⟨k, v, hp, rfl⟩)))⟩
  case h_4 k hp =>
    obtain ⟨rfl, rfl⟩ := Prod.mk.inj (Option.some.inj h)
    exact ⟨rfl, .inr (.inr (.inr (.inr (.inl ⟨k, hp, rfl⟩))))⟩
  case h_5 k hp =>
    obtain ⟨rfl, rfl⟩ := Prod.mk.inj (Option.some.inj h)
    exact ⟨rfl, .inr (.inr (.inr (.inr (.inr ⟨k, hp, rfl⟩))))⟩
  case h_6 => simp at h

/-! ## The lock -/

/-- The lock knows who is inside, the writer is alone, and `shared` counts its increments. -/
structure Lock (s : State cfg) : Prop where
  inside : s.inside = ∑ r, (s.reader r).holds
  exclusive : s.exclusive = s.writer.holds
  apart : s.exclusive = true → s.inside = 0
  writer : s.writer.Ok cfg.writes s.shared
  pureReaders : cfg.pureReaders = true → s.writer = .returned
  reader : ∀ r, (s.reader r).Ok cfg.readerIters

theorem initial_lock : Lock (initial cfg) where
  inside := by simp [initial]
  exclusive := by
    unfold initial
    cases cfg.pureReaders <;> rfl
  apart := by simp [initial]
  writer := by
    unfold initial Config.writes
    cases cfg.pureReaders <;> simp [Writer.Ok]
  pureReaders := by
    intro hpure
    simp [initial, hpure]
  reader := by simp [initial, Reader.Ok]

/-- A reader that is inside keeps the writer outside. -/
theorem Lock.outside (hi : Lock s) (hr : (s.reader r).holds = 1) :
    0 < s.inside ∧ s.exclusive = false := by
  have hle := le_sum Reader.holds s.reader r
  have hinside := hi.inside
  refine ⟨by omega, ?_⟩
  by_contra hx
  have h0 := hi.apart (by simpa using hx)
  omega

/-- As long as the writer has not returned, it is the writer of the mixed mode. -/
theorem Lock.writes_eq (hi : Lock s) (hw : s.writer ≠ .returned) :
    cfg.writes = cfg.writerIters := by
  have hpure : cfg.pureReaders = false := by
    by_contra hp
    exact hw (hi.pureReaders (by simpa using hp))
  simp [Config.writes, hpure]

/-- The reader that moves is in order, and so are the others. -/
theorem ok_update (hi : Lock s) {x : Reader} (hx : x.Ok cfg.readerIters)
    (q : Fin cfg.numReaders) : (Function.update s.reader r x q).Ok cfg.readerIters := by
  by_cases hq : q = r
  · subst hq
    rwa [Function.update_self]
  · rw [Function.update_of_ne hq]
    exact hi.reader q

theorem reader_lock (hi : Lock s) (h : reader s r = some (l, s')) : Lock s' := by
  have hok := hi.reader r
  have hinside := hi.inside
  have hsum := fun x => sum_update Reader.holds s.reader r x
  rcases reader_cases h with ⟨k, sum, hp, hk, hfree, -, rfl⟩ | ⟨k, sum, hp, -, -, rfl⟩ |
    ⟨k, sum, hp, -, rfl⟩ | ⟨k, sum, hp, -, rfl⟩
  all_goals
    rw [hp] at hok
    simp only [hp] at hsum
  · have hmove := hsum (.read k sum)
    simp only [holds_loop, holds_read] at hmove
    refine { hi with inside := ?_, apart := ?_, reader := ok_update hi hk }
    · simp only [setReader_inside, setReader_reader]
      omega
    · intro hx
      rw [setReader_exclusive, hfree] at hx
      cases hx
  · have hmove := hsum .returned
    simp only [holds_loop, holds_returned] at hmove
    refine { hi with inside := ?_, reader := ok_update hi trivial }
    simp only [setReader_inside, setReader_reader]
    omega
  · have hmove := hsum (.unlock (k + 1) (sum + UInt64.ofNat s.shared))
    simp only [holds_read, holds_unlock] at hmove
    refine { hi with inside := ?_, reader := ok_update hi hok }
    simp only [setReader_inside, setReader_reader]
    omega
  · have hmove := hsum (.loop k sum)
    have hout := hi.outside (r := r) (by simp [hp])
    simp only [holds_unlock, holds_loop] at hmove
    refine { hi with inside := ?_, apart := ?_, reader := ok_update hi hok }
    · simp only [setReader_inside, setReader_reader]
      omega
    · intro hx
      rw [setReader_exclusive, hout.2] at hx
      cases hx

theorem writer_lock (hi : Lock s) (h : writer s = some (l, s')) : Lock s' := by
  have hok := hi.writer
  have hexclusive := hi.exclusive
  have hpure := hi.pureReaders
  have hwrites := hi.writes_eq
  rcases (writer_cases h).2 with ⟨k, hp, hk, hfree, rfl⟩ | ⟨k, hp, hk, rfl⟩ | ⟨k, hp, rfl⟩ |
    ⟨k, v, hp, rfl⟩ | ⟨k, hp, rfl⟩ | ⟨k, hp, rfl⟩
  all_goals
    rw [hp] at hok hexclusive hpure hwrites
    have hw := hwrites (by simp)
  · exact { hi with
      exclusive := rfl
      apart := fun _ => hfree
      writer := ⟨by rw [hw]; exact hk, hok.2⟩
      pureReaders := fun hm => by cases hpure hm }
  · refine { hi with exclusive := hexclusive, writer := ?_, pureReaders := fun _ => rfl }
    obtain ⟨hle, hshared⟩ := hok
    simp only [Writer.Ok]
    omega
  · exact { hi with
      exclusive := hexclusive
      writer := ⟨hok.1, hok.2, hok.2⟩
      pureReaders := fun hm => by cases hpure hm }
  · refine { hi with
      exclusive := hexclusive
      writer := ?_
      pureReaders := fun hm => by cases hpure hm }
    obtain ⟨hlt, -, rfl⟩ := hok
    exact ⟨hlt, rfl⟩
  · exact { hi with
      exclusive := rfl
      apart := by simp
      writer := hok
      pureReaders := fun hm => by cases hpure hm }
  · exact { hi with
      exclusive := hexclusive
      writer := hok
      pureReaders := fun hm => by cases hpure hm }

theorem reachable_lock (h : (system cfg).Reachable s) : Lock s := by
  refine h.invariant ?_ ?_
  · rintro _ rfl
    exact initial_lock
  · rintro s l s' hi (⟨r, hs⟩ | hs)
    · exact reader_lock hi hs
    · exact writer_lock hi hs

/-! ## The reads -/

/-- What the readers have read is what they count and add up; no read is ahead of `shared`, and a
later one is not behind an earlier one. -/
structure Account (tr : List Label) (s : State cfg) : Prop where
  length : (reads tr).length = ∑ r, (s.reader r).count cfg.readerIters
  sum : ((reads tr).map UInt64.ofNat).sum = ∑ r, (s.reader r).sum + s.sink
  le : ∀ v ∈ reads tr, v ≤ s.shared
  sorted : (reads tr).Pairwise (· ≤ ·)

@[simp] theorem reads_silent : reads (tr ++ [.silent]) = reads tr := by simp [reads]

@[simp] theorem reads_read {v : Nat} : reads (tr ++ [.read v]) = reads tr ++ [v] := by simp [reads]

theorem initial_account : Account [] (initial cfg) where
  length := by simp [reads, initial]
  sum := by simp [reads, initial]
  le := by simp [reads]
  sorted := by simp [reads]

/-- A step without a read that does not move the readers on. -/
theorem Account.silent (ha : Account tr s) (hshared : s.shared ≤ s'.shared)
    (hcount : ∑ r, (s'.reader r).count cfg.readerIters = ∑ r, (s.reader r).count cfg.readerIters)
    (hsum : ∑ r, (s'.reader r).sum + s'.sink = ∑ r, (s.reader r).sum + s.sink) :
    Account (tr ++ [.silent]) s' where
  length := by rw [reads_silent, ha.length, hcount]
  sum := by rw [reads_silent, ha.sum, hsum]
  le v hv := by
    rw [reads_silent] at hv
    exact Nat.le_trans (ha.le v hv) hshared
  sorted := by
    rw [reads_silent]
    exact ha.sorted

theorem reader_account (hi : Lock s) (ha : Account tr s) (h : reader s r = some (l, s')) :
    Account (tr ++ [l]) s' := by
  have hok := hi.reader r
  rcases reader_cases h with ⟨k, sum, hp, hk, -, rfl, rfl⟩ | ⟨k, sum, hp, hk, rfl, rfl⟩ |
    ⟨k, sum, hp, rfl, rfl⟩ | ⟨k, sum, hp, rfl, rfl⟩
  · refine ha.silent (Nat.le_refl _) (sum_update_eq (by simp [hp])) ?_
    exact congrArg (· + s.sink) (sum_update_eq (by simp [hp]))
  · rw [hp] at hok
    have hkeq : k = cfg.readerIters := Nat.le_antisymm hok hk
    refine ha.silent (Nat.le_refl _) (sum_update_eq (by simp [hp, hkeq])) ?_
    have hmove := sum_eq_add_sum_update (g := Reader.sum) (f := s.reader) (i := r)
      (v := .returned) (a := sum) (by simp [hp])
    simp only [setReader_reader, setReader_sink]
    rw [hmove]
    ac_rfl
  · have hcount := sum_update_eq_add (g := Reader.count cfg.readerIters) (f := s.reader) (i := r)
      (v := .unlock (k + 1) (sum + UInt64.ofNat s.shared)) (a := 1)
      (by rw [hp, count_unlock, count_read, Nat.add_comm])
    have hsum := sum_update_eq_add (g := Reader.sum) (f := s.reader) (i := r)
      (v := .unlock (k + 1) (sum + UInt64.ofNat s.shared)) (a := UInt64.ofNat s.shared)
      (by rw [hp, sum_unlock, sum_read, UInt64.add_comm])
    refine ⟨?_, ?_, ?_, ?_⟩
    · simp only [setReader_reader]
      rw [reads_read, hcount, List.length_append, ha.length, List.length_singleton, Nat.add_comm]
    · simp only [setReader_reader, setReader_sink]
      rw [reads_read, hsum, List.map_append, List.sum_append, ha.sum]
      simp only [List.map_cons, List.map_nil, List.sum_cons, List.sum_nil]
      ac_rfl
    · intro v hv
      rw [reads_read, List.mem_append, List.mem_singleton] at hv
      rcases hv with hv | rfl
      · exact ha.le v hv
      · exact Nat.le_refl _
    · rw [reads_read, List.pairwise_append]
      refine ⟨ha.sorted, List.pairwise_singleton _ _, ?_⟩
      intro v hv w hw
      obtain rfl := List.mem_singleton.1 hw
      exact ha.le v hv
  · refine ha.silent (Nat.le_refl _) (sum_update_eq (by simp [hp])) ?_
    exact congrArg (· + s.sink) (sum_update_eq (by simp [hp]))

theorem writer_account (hi : Lock s) (ha : Account tr s) (h : writer s = some (l, s')) :
    Account (tr ++ [l]) s' := by
  have hok := hi.writer
  obtain ⟨rfl, hcases⟩ := writer_cases h
  rcases hcases with ⟨k, hp, -, -, rfl⟩ | ⟨k, hp, -, rfl⟩ | ⟨k, hp, rfl⟩ | ⟨k, v, hp, rfl⟩ |
    ⟨k, hp, rfl⟩ | ⟨k, hp, rfl⟩
  case inr.inr.inr.inl =>
    rw [hp] at hok
    obtain ⟨-, hshared, hv⟩ := hok
    exact ha.silent (by simp only; omega) rfl rfl
  all_goals exact ha.silent (Nat.le_refl _) rfl rfl

theorem run_account (h : (system cfg).Run tr s) : Account tr s := by
  refine System.Run.invariant (I := Account) ?_ ?_ h
  · rintro _ rfl
    exact initial_account
  · rintro tr s l s' hr ha (⟨r, hs⟩ | hs)
    · exact reader_account (reachable_lock hr.reachable) ha hs
    · exact writer_account (reachable_lock hr.reachable) ha hs

/-! ## Progress -/

/-- The statements that are left. -/
def State.rank (s : State cfg) : Nat :=
  ∑ r, (s.reader r).rank cfg.readerIters + s.writer.rank cfg.writes

theorem step_rank (hi : Lock s) (h : (system cfg).step s l s') : s'.rank < s.rank := by
  unfold State.rank
  rcases h with ⟨r, hs⟩ | hs
  · have hok := hi.reader r
    have hsum := fun x => sum_update (Reader.rank cfg.readerIters) s.reader r x
    rcases reader_cases hs with ⟨k, sum, hp, hk, -, -, rfl⟩ | ⟨k, sum, hp, hk, -, rfl⟩ |
      ⟨k, sum, hp, -, rfl⟩ | ⟨k, sum, hp, -, rfl⟩
    all_goals
      simp only [hp, Reader.Ok] at hok
      simp only [hp] at hsum
      simp only [setReader_reader, setReader_writer]
    · have hmove := hsum (.read k sum)
      simp only [rank_loop, rank_read] at hmove
      omega
    · have hmove := hsum .returned
      simp only [rank_loop, rank_returned] at hmove
      omega
    · have hmove := hsum (.unlock (k + 1) (sum + UInt64.ofNat s.shared))
      simp only [rank_read, rank_unlock] at hmove
      omega
    · have hmove := hsum (.loop k sum)
      simp only [rank_unlock, rank_loop] at hmove
      omega
  · have hok := hi.writer
    rcases (writer_cases hs).2 with ⟨k, hp, -, -, rfl⟩ | ⟨k, hp, -, rfl⟩ | ⟨k, hp, rfl⟩ |
      ⟨k, v, hp, rfl⟩ | ⟨k, hp, rfl⟩ | ⟨k, hp, rfl⟩
    all_goals
      simp only [hp, Writer.Ok] at hok
      simp only [hp, Writer.rank]
      omega

/-- Inside the lock nobody waits. -/
theorem reader_step_of_holds (hr : (s.reader r).holds = 1) : ∃ l s', reader s r = some (l, s') := by
  cases hp : s.reader r with
  | read k sum => exact ⟨_, _, by simp only [reader, hp]; rfl⟩
  | unlock k sum => exact ⟨_, _, by simp only [reader, hp]; rfl⟩
  | loop k sum => simp [hp] at hr
  | returned => simp [hp] at hr

/-- While the writer neither waits nor is inside, nothing keeps a reader out. -/
theorem reader_step_of_free (hw : s.writerWaits = false) (hx : s.exclusive = false)
    (hr : s.reader r ≠ .returned) : ∃ l s', reader s r = some (l, s') := by
  cases hp : s.reader r with
  | loop k sum =>
      by_cases hk : k < cfg.readerIters
      · have hin : s.exclusive = false ∧ cfg.letsIn s.writerWaits s.inside = true :=
          ⟨hx, by rw [hw, cfg.lets_free]⟩
        exact ⟨_, _, by simp only [reader, hp, if_pos hk, if_pos hin]; rfl⟩
      · exact ⟨_, _, by simp only [reader, hp, if_neg hk]; rfl⟩
  | read k sum => exact reader_step_of_holds (by simp [hp])
  | unlock k sum => exact reader_step_of_holds (by simp [hp])
  | returned => exact absurd hp hr

/-- A writer that cannot go on has returned, or waits for a reader that is inside. -/
theorem writer_blocked (hi : Lock s) (h : writer s = none) :
    s.exclusive = false ∧ (s.writer = .returned ∨ s.inside ≠ 0) := by
  have hexclusive := hi.exclusive
  cases hp : s.writer with
  | loop k =>
      rw [hp] at hexclusive
      refine ⟨hexclusive, .inr ?_⟩
      by_cases hk : k < cfg.writerIters
      · intro h0
        simp [writer, hp, hk, h0, hexclusive, Writer.holds] at h
      · simp [writer, hp, hk] at h
  | returned =>
      rw [hp] at hexclusive
      exact ⟨hexclusive, .inl rfl⟩
  | _ => simp [writer, hp] at h

theorem exists_step (hi : Lock s) (hs : ¬ s.Finished) : ∃ l s', (system cfg).step s l s' := by
  cases hw : writer s with
  | some o => exact ⟨o.1, o.2, .inr hw⟩
  | none =>
      obtain ⟨hx, hreturned | hinside⟩ := writer_blocked hi hw
      · obtain ⟨r, hr⟩ : ∃ r, s.reader r ≠ .returned := by
          by_contra hall
          exact hs ⟨fun r => by simpa using not_exists.1 hall r, hreturned⟩
        obtain ⟨l, s', hstep⟩ := reader_step_of_free (by simp [State.writerWaits, hreturned]) hx hr
        exact ⟨l, s', .inl ⟨r, hstep⟩⟩
      · rw [hi.inside] at hinside
        obtain ⟨r, -, hr⟩ := Finset.exists_ne_zero_of_sum_ne_zero hinside
        have hone : (s.reader r).holds = 1 := by
          cases hp : s.reader r <;> simp_all
        obtain ⟨l, s', hstep⟩ := reader_step_of_holds hone
        exact ⟨l, s', .inl ⟨r, hstep⟩⟩

/-- The benchmark is sound under every policy of the lock and in every order of steps: no reader is
inside together with the writer, the reads see only complete increments and see them in order, the
tasks come to an end, and then no increment is lost and `sink` has every read. -/
theorem readers_see_complete_increments (h : (system cfg).Run tr s) :
    (∀ r, (s.reader r).holds = 1 → s.writer.holds = false) ∧
    (reads tr).Pairwise (· ≤ ·) ∧ (∀ v ∈ reads tr, v ≤ s.shared) ∧ s.shared ≤ cfg.writes ∧
    tr.length ≤ cfg.numReaders * (3 * cfg.readerIters + 1) + (5 * cfg.writes + 1) ∧
    (¬ s.Finished → ∃ l s', (system cfg).step s l s') ∧
    (s.Finished → s.shared = cfg.writes ∧
      (reads tr).length = cfg.numReaders * cfg.readerIters ∧
      s.sink = ((reads tr).map UInt64.ofNat).sum) := by
  have hi := reachable_lock h.reachable
  have ha := run_account h
  refine ⟨?_, ha.sorted, ha.le, ?_, ?_, exists_step hi, ?_⟩
  · intro r hr
    rw [← hi.exclusive]
    exact (hi.outside hr).2
  · have hok := hi.writer
    cases hp : s.writer <;> simp only [hp, Writer.Ok] at hok <;> omega
  · obtain ⟨_, rfl, hpath⟩ := h
    have hinit : (system cfg).Reachable (initial cfg) := (System.Run.nil rfl).reachable
    have hlen := System.Path.length_le (μ := State.rank)
      (fun _ _ _ hr hs => step_rank (reachable_lock hr) hs) hinit hpath
    have hrank : (initial cfg).rank ≤
        cfg.numReaders * (3 * cfg.readerIters + 1) + (5 * cfg.writes + 1) := by
      unfold State.rank initial Config.writes
      cases cfg.pureReaders <;> simp [Writer.rank]
    omega
  · rintro ⟨hreaders, hwriter⟩
    have hok := hi.writer
    rw [hwriter] at hok
    refine ⟨hok, ?_, ?_⟩
    · rw [ha.length]
      simp [hreaders]
    · rw [ha.sum]
      simp [hreaders]

/-- One reader and one writer of a single round each. -/
def oneRound : Config where
  numReaders := 1
  readerIters := 1
  writerIters := 1
  pureReaders := false
  letsIn waiting _ := !waiting
  lets_free _ := rfl

/-- The writer takes the lock and loads `shared`; the reader has to wait. -/
theorem readers_see_complete_increments_oneRound :
    ∃ s : State oneRound, (system oneRound).Run [.silent, .silent] s ∧ s.writer = .store 0 0 ∧
      ∃ l s', (system oneRound).step s l s' := by
  have hrun : (system oneRound).Run [.silent, .silent]
      { initial oneRound with exclusive := true, writer := .store 0 0 } := by
    have hinit : (system oneRound).Run [] (initial oneRound) := .nil rfl
    have hlock : (system oneRound).Run [.silent]
        { initial oneRound with exclusive := true, writer := .load 0 } := hinit.snoc (.inr rfl)
    exact hlock.snoc (.inr rfl)
  refine ⟨_, hrun, rfl, ?_⟩
  exact (readers_see_complete_increments hrun).2.2.2.2.2.1 (by simp [State.Finished])

end ZioBenchmarks.RwLockBench
