import ZioBenchmarks.Queue.Bounded
import ZioBenchmarks.Transition.Simulation
import ZioBenchmarks.WorkerPool.CloseBased

/-!
# The pools of the other runtimes

The Go and the tokio worker pool and `fanout_cpu.zig` close their channel in three other ways: a
goroutine waits for the producers and closes, the channel closes itself when its last sender is
dropped, and the only producer closes when it is done. Each of them does what the pool of
`worker_pool.zig` does, as far as the channel shows (`Sim.step`).
-/

set_option autoImplicit false

namespace ZioBenchmarks.WorkerPool.Runtimes

open ZioBenchmarks.Transition ZioBenchmarks.Fold ZioBenchmarks.Queue
open ZioBenchmarks.WorkerPool.CloseBased (Consumer Label puts takes closes left)

/-- Which program it is. -/
inductive Runtime where
  /-- `go/worker_pool/main.go`. -/
  | go
  /-- `rust/src/bin/worker_pool.rs`. -/
  | tokio
  /-- `fanout_cpu.zig`. -/
  | fanout
  deriving DecidableEq, Repr

/-- `bufferSize`, `bounded::<u64>(256)`, `buffer_size`. -/
def Runtime.capacity : Runtime → Nat
  | .go | .tokio => 256
  | .fanout => 1

/-- The arguments of a program. `fanout_cpu.zig` has one producer. -/
structure Pool extends Config where
  runtime : Runtime
  single : runtime = .fanout → numProducers = 1

/-- Where a producer is. -/
inductive Producer where
  /-- `ch <- i + 1`, `tx.send(i + 1).await`, `q.putOne(io, i + 1)`. -/
  | send (i e : UInt64)
  /-- `wg.Done()`, the drop of `tx`, `q.close(io)`. -/
  | done
  | returned
  /-- A send on a closed channel of Go. -/
  | panicked
  deriving DecidableEq, Repr

/-- The rest of `main` that the channel depends on. -/
inductive Closer where
  /-- `producers.Wait()`. -/
  | wait
  /-- `close(ch)`, `drop(tx)`. -/
  | close
  | returned
  deriving DecidableEq, Repr

/-- The channel, `results` and the tasks; `waiting` is the counter of the `WaitGroup`, or the number
of senders of the channel. -/
structure State (pool : Pool) where
  queue : List UInt64
  closed : Bool
  waiting : Nat
  closer : Closer
  results : Fin pool.numConsumers.toNat → UInt64
  producer : Fin pool.numProducers.toNat → Producer
  consumer : Fin pool.numConsumers.toNat → Consumer

variable {pool : Pool}

/-- The producer `p` continues at `x`. -/
def State.setProducer (s : State pool) (p : Fin pool.numProducers.toNat) (x : Producer) :
    State pool :=
  { s with producer := Function.update s.producer p x }

/-- The consumer `c` becomes `x`. -/
def State.setConsumer (s : State pool) (c : Fin pool.numConsumers.toNat) (x : Consumer) :
    State pool :=
  { s with consumer := Function.update s.consumer c x }

/-- A sender of tokio's channel is dropped; with the last one the channel is closed. -/
def State.dropSender (s : State pool) : State pool :=
  { s with waiting := s.waiting - 1, closed := if s.waiting = 1 then true else s.closed }

/-- What a producer does when it has nothing left to send. -/
def producerDone (s : State pool) (p : Fin pool.numProducers.toNat) : Label × State pool :=
  match pool.runtime with
  | .go => (.silent, { s with waiting := s.waiting - 1 }.setProducer p .returned)
  | .tokio =>
      (if s.waiting = 1 then .closed else .silent, s.dropSender.setProducer p .returned)
  | .fanout => (.closed, { s with closed := true }.setProducer p .returned)

/-- What becomes of a producer whose channel is closed. -/
def refused : Runtime → Producer
  | .go => .panicked
  -- the function returns, and drops its `tx`
  | .tokio => .done
  | .fanout => .returned

/-- One statement of a producer; a send waits while the channel is full. -/
def producerStep (s : State pool) (p : Fin pool.numProducers.toNat) :
    Option (Label × State pool) :=
  match s.producer p with
  | .send i e =>
      if i < e then
        if s.closed then some (.silent, s.setProducer p (refused pool.runtime))
        else if s.queue.length < pool.runtime.capacity then
          some (.put (i + 1),
            { s with queue := s.queue ++ [i + 1] }.setProducer p (.send (i + 1) e))
        else none
      else some (.silent, s.setProducer p .done)
  | .done => some (producerDone s p)
  | .returned | .panicked => none

/-- One turn of a consumer; it waits while the channel is empty and open. -/
def consumerStep (s : State pool) (c : Fin pool.numConsumers.toNat) :
    Option (Label × State pool) :=
  let x := s.consumer c
  if x.returned then none
  else
    match s.queue with
    | v :: rest =>
        some (.took v, { s with queue := rest }.setConsumer c
          ⟨false, x.acc ^^^ work v pool.workIters, x.taken ++ [v]⟩)
    | [] =>
        if s.closed then
          some (.silent, { s with results := Function.update s.results c x.acc }.setConsumer c
            ⟨true, x.acc, x.taken⟩)
        else none

/-- One statement of the goroutine that closes the channel, or the `drop(tx)` of `run`. -/
def closerStep (s : State pool) : Option (Label × State pool) :=
  match s.closer with
  | .wait => if s.waiting = 0 then some (.silent, { s with closer := .close }) else none
  | .close =>
      match pool.runtime with
      | .tokio =>
          some (if s.waiting = 1 then .closed else .silent,
            { s.dropSender with closer := .returned })
      | .go | .fanout => some (.closed, { s with closed := true, closer := .returned })
  | .returned => none

/-- Any task can be the next to execute a step. -/
inductive Act (pool : Pool) where
  | producer (p : Fin pool.numProducers.toNat)
  | consumer (c : Fin pool.numConsumers.toNat)
  | closer

/-- Effect of an action, if it can happen. -/
def act (s : State pool) : Act pool → Option (Label × State pool)
  | .producer p => producerStep s p
  | .consumer c => consumerStep s c
  | .closer => closerStep s

/-- The counter when all tasks are spawned: tokio's `run` has a sender of its own. -/
def Pool.waiting (pool : Pool) : Nat :=
  match pool.runtime with
  | .go => pool.numProducers.toNat
  | .tokio => pool.numProducers.toNat + 1
  | .fanout => 0

/-- What `main` has still to do to the channel. -/
def Pool.closer (pool : Pool) : Closer :=
  match pool.runtime with
  | .go => .wait
  | .tokio => .close
  | .fanout => .returned

/-- The tasks have just been spawned. -/
def initial (pool : Pool) : State pool where
  queue := []
  closed := false
  waiting := pool.waiting
  closer := pool.closer
  results _ := 0
  producer p := .send (pool.start (UInt64.ofNat p)) (pool.last (UInt64.ofNat p))
  consumer _ := ⟨false, 0, []⟩

/-- The pool of a runtime. -/
def system (pool : Pool) : System (State pool) Label where
  init s := s = initial pool
  step s l s' := ∃ a, act s a = some (l, s')

/-- Every task has returned. -/
def State.Finished (s : State pool) : Prop :=
  (∀ p, s.producer p = .returned) ∧ (∀ c, (s.consumer c).returned = true) ∧ s.closer = .returned

/-- The items each consumer took. -/
def State.runs (s : State pool) : List (List UInt64) :=
  (List.finRange pool.numConsumers.toNat).map fun c => (s.consumer c).taken

@[simp] theorem setProducer_producer (s : State pool) (p : Fin pool.numProducers.toNat)
    (x : Producer) : (s.setProducer p x).producer = Function.update s.producer p x := rfl

/-! ## What a step can be -/

variable {s s' : State pool} {l : Label} {p : Fin pool.numProducers.toNat}

theorem producerStep_cases (h : producerStep s p = some (l, s')) :
    (∃ i e, s.producer p = .send i e ∧ i < e ∧ s.closed = true ∧ l = .silent ∧
      s' = s.setProducer p (refused pool.runtime)) ∨
    (∃ i e, s.producer p = .send i e ∧ i < e ∧ s.closed = false ∧
      s.queue.length < pool.runtime.capacity ∧ l = .put (i + 1) ∧
      s' = { s with queue := s.queue ++ [i + 1] }.setProducer p (.send (i + 1) e)) ∨
    (∃ i e, s.producer p = .send i e ∧ ¬ i < e ∧ l = .silent ∧ s' = s.setProducer p .done) ∨
    (s.producer p = .done ∧ (l, s') = producerDone s p) := by
  unfold producerStep at h
  cases hp : s.producer p with
  | send i e =>
      simp only [hp] at h
      split at h
      case isTrue hlt =>
        split at h
        case isTrue hclosed =>
          cases h
          exact .inl ⟨i, e, rfl, hlt, hclosed, rfl, rfl⟩
        case isFalse hopen =>
          split at h
          case isTrue hroom =>
            cases h
            exact .inr (.inl ⟨i, e, rfl, hlt, Bool.eq_false_iff.2 hopen, hroom, rfl, rfl⟩)
          case isFalse => cases h
      case isFalse hge =>
        cases h
        exact .inr (.inr (.inl ⟨i, e, rfl, hge, rfl, rfl⟩))
  | done =>
      simp only [hp, Option.some.injEq] at h
      exact .inr (.inr (.inr ⟨rfl, h.symm⟩))
  | returned | panicked => simp [hp] at h

theorem consumerStep_cases {c : Fin pool.numConsumers.toNat} (h : consumerStep s c = some (l, s')) :
    (∃ v rest, (s.consumer c).returned ≠ true ∧ s.queue = v :: rest ∧ l = .took v ∧
      s' = { s with queue := rest }.setConsumer c
        ⟨false, (s.consumer c).acc ^^^ work v pool.workIters, (s.consumer c).taken ++ [v]⟩) ∨
    ((s.consumer c).returned ≠ true ∧ s.queue = [] ∧ s.closed = true ∧ l = .silent ∧
      s' = { s with results := Function.update s.results c (s.consumer c).acc }.setConsumer c
        ⟨true, (s.consumer c).acc, (s.consumer c).taken⟩) := by
  simp only [consumerStep] at h
  split at h
  case isTrue => cases h
  case isFalse hret =>
    split at h
    case h_1 v rest hq =>
      cases h
      exact .inl ⟨v, rest, hret, hq, rfl, rfl⟩
    case h_2 hq =>
      split at h
      case isTrue hclosed =>
        cases h
        exact .inr ⟨hret, hq, hclosed, rfl, rfl⟩
      case isFalse => cases h

theorem closerStep_cases (h : closerStep s = some (l, s')) :
    (s.closer = .wait ∧ s.waiting = 0 ∧ l = .silent ∧ s' = { s with closer := .close }) ∨
    (s.closer = .close ∧ pool.runtime = .tokio ∧
      l = (if s.waiting = 1 then .closed else .silent) ∧
      s' = { s.dropSender with closer := .returned }) ∨
    (s.closer = .close ∧ pool.runtime ≠ .tokio ∧ l = .closed ∧
      s' = { s with closed := true, closer := .returned }) := by
  unfold closerStep at h
  cases hcl : s.closer with
  | wait =>
      simp only [hcl] at h
      split at h
      case isTrue hzero =>
        cases h
        exact .inl ⟨rfl, hzero, rfl, rfl⟩
      case isFalse => cases h
  | close =>
      simp only [hcl] at h
      cases hr : pool.runtime with
      | tokio =>
          simp only [hr] at h
          cases h
          exact .inr (.inl ⟨rfl, rfl, rfl, rfl⟩)
      | go | fanout =>
          simp only [hr] at h
          cases h
          exact .inr (.inr ⟨rfl, by simp, rfl, rfl⟩)
  | returned => simp [hcl] at h

/-! ## What keeps a channel open -/

/-- The producer has not counted itself out. -/
def Producer.live : Producer → Nat
  | .send _ _ | .done => 1
  | .returned | .panicked => 0

@[simp] theorem live_done : Producer.done.live = 1 := rfl

@[simp] theorem live_returned : Producer.returned.live = 0 := rfl

/-- The closer has not done its part. -/
def Closer.holds : Closer → Nat
  | .wait | .close => 1
  | .returned => 0

/-- The counter of a runtime, by what it counts. -/
def Waiting (s : State pool) : Prop :=
  match pool.runtime with
  | .go => s.waiting = ∑ p, (s.producer p).live ∧
      (s.closer ≠ .wait → ∑ p, (s.producer p).live = 0)
  | .tokio => s.waiting = ∑ p, (s.producer p).live + s.closer.holds ∧ s.closer ≠ .wait
  | .fanout => s.closer = .returned

/-- A channel is open as long as a producer or the closer holds it. -/
structure Counted (s : State pool) : Prop where
  closed : s.closed = true ↔ ∑ p, (s.producer p).live + s.closer.holds = 0
  waiting : Waiting s

theorem initial_live (pool : Pool) :
    ∑ p, ((initial pool).producer p).live = pool.numProducers.toNat := by
  simp [initial, Producer.live]

theorem initial_counted (pool : Pool) : Counted (initial pool) where
  closed := by
    have hpos := pool.producers_pos
    rw [initial_live]
    simp only [initial, Bool.false_eq_true, false_iff]
    omega
  waiting := by
    unfold Waiting
    rw [initial_live]
    cases hr : pool.runtime <;>
      simp [initial, Pool.waiting, Pool.closer, hr, Closer.holds]

/-- A producer that is not done holds the channel. -/
theorem Counted.is_open (hc : Counted s) (hp : (s.producer p).live = 1) :
    s.closed = false ∧ 1 ≤ ∑ p, (s.producer p).live := by
  have hle := le_sum Producer.live s.producer p
  rw [hp] at hle
  refine ⟨?_, hle⟩
  rw [Bool.eq_false_iff, ne_eq, hc.closed]
  omega

/-- A producer moves on without counting itself out. -/
theorem Counted.move (hc : Counted s) {x : Producer} (hx : x.live = (s.producer p).live)
    (hclosed : s'.closed = s.closed) (hwaiting : s'.waiting = s.waiting)
    (hcloser : s'.closer = s.closer) (hproducer : s'.producer = Function.update s.producer p x) :
    Counted s' := by
  have hlive := sum_update_eq (f := s.producer) hx
  refine ⟨?_, ?_⟩
  · rw [hclosed, hcloser, hproducer, hlive]
    exact hc.closed
  · have hw := hc.waiting
    unfold Waiting at hw ⊢
    rw [hwaiting, hcloser, hproducer, hlive]
    exact hw

/-- What a producer does when it is done: the channel is closed if nothing else holds it. -/
theorem producerDone_counted (hc : Counted s) (hp : s.producer p = .done) :
    Counted (producerDone s p).2 := by
  have hlive := sum_update Producer.live s.producer p .returned
  rw [hp, live_done, live_returned] at hlive
  obtain ⟨hopen, hone⟩ := hc.is_open (p := p) (by rw [hp]; rfl)
  have hw := hc.waiting
  unfold Waiting at hw
  unfold producerDone
  cases hr : pool.runtime with
  | go =>
      simp only [hr] at hw ⊢
      have hcloser : s.closer = .wait := by
        by_contra hne
        have hzero := hw.2 hne
        omega
      refine ⟨?_, ?_⟩
      · simp [State.setProducer, hopen, hcloser, Closer.holds]
      · simp only [Waiting, hr, State.setProducer, hcloser]
        refine ⟨by omega, fun h => absurd rfl h⟩
  | tokio =>
      simp only [hr] at hw ⊢
      refine ⟨?_, ?_⟩
      · simp only [State.setProducer, State.dropSender, hopen]
        split
        case isTrue h =>
          simp only [true_iff]
          omega
        case isFalse h =>
          simp only [Bool.false_eq_true, false_iff]
          omega
      · simp only [Waiting, hr, State.setProducer, State.dropSender]
        exact ⟨by omega, hw.2⟩
  | fanout =>
      simp only [hr] at hw ⊢
      -- there is one producer
      have hle : ∑ q, (s.producer q).live ≤ 1 := by
        have hsum : ∑ q, (s.producer q).live ≤ ∑ _q : Fin pool.numProducers.toNat, 1 := by
          apply Finset.sum_le_sum
          intro q _
          cases s.producer q <;> simp [Producer.live]
        have hcard : pool.numProducers.toNat = 1 := by
          rw [pool.single hr]
          rfl
        simpa [hcard] using hsum
      refine ⟨?_, ?_⟩
      · simp only [State.setProducer, hw, Closer.holds, true_iff]
        omega
      · simp only [Waiting, hr, State.setProducer]
        exact hw

/-- What the closer does: it closes the channel when no producer holds it. -/
theorem closerStep_counted (hc : Counted s) (h : closerStep s = some (l, s')) : Counted s' := by
  have hclosed := hc.closed
  have hw := hc.waiting
  unfold Waiting at hw
  obtain ⟨hcl, hzero, -, rfl⟩ | ⟨hcl, hr, -, rfl⟩ | ⟨hcl, hr, -, rfl⟩ := closerStep_cases h
  · cases hr : pool.runtime with
    | go =>
        simp only [hr, hcl] at hw
        refine ⟨?_, ?_⟩
        · simpa [hcl, Closer.holds] using hclosed
        · simp only [Waiting, hr]
          exact ⟨hw.1, fun _ => by omega⟩
    | tokio | fanout => simp [hr, hcl] at hw
  · simp only [hr, hcl] at hw
    rw [hcl] at hclosed
    refine ⟨?_, ?_⟩
    · simp only [State.dropSender, Closer.holds] at hw hclosed ⊢
      split
      case isTrue h =>
        simp only [true_iff]
        omega
      case isFalse h =>
        rw [hclosed]
        omega
    · simp only [Waiting, hr, State.dropSender, Closer.holds] at hw ⊢
      exact ⟨by omega, by simp⟩
  · cases hr' : pool.runtime with
    | go =>
        simp only [hr', hcl] at hw
        have hzero := hw.2 (by simp)
        refine ⟨?_, ?_⟩
        · simp [Closer.holds, hzero]
        · simp only [Waiting, hr']
          exact ⟨hw.1, fun _ => hzero⟩
    | tokio => exact absurd hr' hr
    | fanout => simp [hr', hcl] at hw

theorem producerStep_counted (hc : Counted s) (h : producerStep s p = some (l, s')) :
    Counted s' := by
  obtain ⟨i, e, hp, -, hclosed, -, -⟩ | ⟨i, e, hp, -, -, -, -, rfl⟩ | ⟨i, e, hp, -, -, rfl⟩ |
    ⟨hp, hdone⟩ := producerStep_cases h
  · obtain ⟨hopen, -⟩ := hc.is_open (p := p) (by rw [hp]; rfl)
    exact absurd (hopen.symm.trans hclosed) Bool.false_ne_true
  · exact hc.move (x := .send (i + 1) e) (by rw [hp]; rfl) rfl rfl rfl rfl
  · exact hc.move (x := .done) (by rw [hp]; rfl) rfl rfl rfl rfl
  · have hcounted := producerDone_counted hc hp
    rwa [← hdone] at hcounted

theorem act_counted (hc : Counted s) {a : Act pool} (h : act s a = some (l, s')) :
    Counted s' := by
  cases a with
  | producer p => exact producerStep_counted hc h
  | consumer c =>
      obtain ⟨v, rest, -, -, -, rfl⟩ | ⟨-, -, -, -, rfl⟩ := consumerStep_cases h
      · exact ⟨hc.closed, hc.waiting⟩
      · exact ⟨hc.closed, hc.waiting⟩
  | closer => exact closerStep_counted hc h

theorem reachable_counted (h : (system pool).Reachable s) : Counted s := by
  refine System.Reachable.invariant ?_ ?_ h
  · rintro _ rfl
    exact initial_counted pool
  · rintro s l s' hc ⟨a, ha⟩
    exact act_counted hc ha

/-! ## The pool that closes its queue does the same -/

/-- A producer of a runtime and one of `worker_pool.zig`. The last producer there still has to close
the queue when the one here has counted itself out. -/
def Matches : Producer → CloseBased.Producer → Prop
  | .send i e, y => y = .put i e
  | .done, y => y = .fetchSub
  | .returned, y => y = .returned ∨ y = .close
  | .panicked, _ => False

/-- The states that go together: all that is not about who closes the queue is equal. -/
structure Sim (s : State pool) (t : CloseBased.State pool.toConfig) : Prop where
  queue : t.queue = s.queue
  closed : t.closed = s.closed
  results : t.results = s.results
  consumer : t.consumer = s.consumer
  producer : ∀ p, Matches (s.producer p) (t.producer p)

/-- All but the steps that an observer of the queue does not see. -/
def visible (l : Label) : Bool := l != .silent

variable {t : CloseBased.State pool.toConfig} {us tr : List Label}

theorem initial_sim (pool : Pool) : Sim (initial pool) (CloseBased.initial pool.toConfig) :=
  ⟨rfl, rfl, rfl, rfl, fun _ => rfl⟩

theorem Matches.counted {x : Producer} {y : CloseBased.Producer} (h : Matches x y) :
    y.counted = x.live := by
  cases x with
  | send i e => rw [h]; rfl
  | done => rw [h]; rfl
  | returned => rcases h with rfl | rfl <;> rfl
  | panicked => exact h.elim

theorem Sim.live (hs : Sim s t) :
    ∑ p, (t.producer p).counted = ∑ p, (s.producer p).live :=
  Finset.sum_congr rfl fun p _ => (hs.producer p).counted

theorem Sim.remaining (hs : Sim s t) (hi : CloseBased.Inv pool.toConfig us t) :
    t.remaining.toNat = ∑ p, (s.producer p).live := by
  rw [hi.remaining, hs.live]

/-- When no producer is left and the queue is open, one of them is to close it. -/
theorem Sim.exists_close (hs : Sim s t) (hi : CloseBased.Inv pool.toConfig us t)
    (hopen : s.closed = false) (hzero : ∑ p, (s.producer p).live = 0) :
    ∃ p, t.producer p = .close := by
  have hremaining : t.remaining = 0 := UInt64.toNat_inj.1 ((hs.remaining hi).trans hzero)
  have hcloses : closes us = 0 := by
    by_contra hne
    have hclosed := hi.closed.2 hne
    rw [hs.closed, hopen] at hclosed
    cases hclosed
  have hclosing := hi.closing
  rw [hcloses, hremaining, Nat.zero_add] at hclosing
  obtain ⟨p, -, hp⟩ := Finset.exists_ne_zero_of_sum_ne_zero
    (show ∑ p, (t.producer p).closing ≠ 0 by rw [hclosing]; decide)
  refine ⟨p, ?_⟩
  cases hpc : t.producer p with
  | close => rfl
  | put i e | fetchSub | returned => exact absurd (by rw [hpc]; rfl) hp

/-- A producer moves on in both. -/
theorem Sim.move (hs : Sim s t) {x : Producer} {y : CloseBased.Producer} (h : Matches x y)
    {s' : State pool} {t' : CloseBased.State pool.toConfig} (hqueue : t'.queue = s'.queue)
    (hclosed : t'.closed = s'.closed) (hresults : t'.results = s'.results)
    (hconsumer : t'.consumer = s'.consumer)
    (hs' : s'.producer = Function.update s.producer p x)
    (ht' : t'.producer = Function.update t.producer p y) : Sim s' t' := by
  refine ⟨hqueue, hclosed, hresults, hconsumer, fun q => ?_⟩
  rw [hs', ht']
  by_cases hq : q = p
  · subst hq
    rwa [Function.update_self, Function.update_self]
  · rw [Function.update_of_ne hq, Function.update_of_ne hq]
    exact hs.producer q

/-- The last producer of the other pool closes the queue. -/
theorem Sim.close (hs : Sim s t) {q : Fin pool.numProducers.toNat} (hq : t.producer q = .close) :
    (CloseBased.system pool.toConfig pool.runtime.capacity).step t .closed
        ({ t with closed := true }.setProducer q .returned) ∧
      ∀ s' : State pool, s'.queue = s.queue → s'.closed = true → s'.results = s.results →
        s'.consumer = s.consumer → s'.producer = s.producer →
        Sim s' ({ t with closed := true }.setProducer q .returned) := by
  have hmatch := hs.producer q
  rw [hq] at hmatch
  have hreturned : s.producer q = .returned := by
    cases hp : s.producer q with
    | returned => rfl
    | send i e | done | panicked => rw [hp] at hmatch; cases hmatch
  refine ⟨⟨.producer q, by simp only [CloseBased.act, CloseBased.producerStep, hq]⟩, ?_⟩
  intro s' hqueue hclosed hresults hconsumer hproducer
  refine hs.move (p := q) (x := .returned) (y := .returned) (.inl rfl) (hs.queue.trans hqueue.symm)
    hclosed.symm (hs.results.trans hresults.symm) (hs.consumer.trans hconsumer.symm) ?_ rfl
  rw [hproducer, ← hreturned, Function.update_eq_self]

/-- What `pool` does in a step, the pool that closes its queue does in a path that shows the
same. -/
def Follows (t : CloseBased.State pool.toConfig) (l : Label) (s' : State pool) : Prop :=
  ∃ vs t', (CloseBased.system pool.toConfig pool.runtime.capacity).Path t vs t' ∧
    vs.filter visible = [l].filter visible ∧ Sim s' t'

theorem Follows.one (t' : CloseBased.State pool.toConfig)
    (h : (CloseBased.system pool.toConfig pool.runtime.capacity).step t l t') (hs : Sim s' t') :
    Follows t l s' := ⟨[l], t', .single h, rfl, hs⟩

/-- A state that differs in the counter or the closer goes with the same state. -/
theorem Sim.congr (hs : Sim s t) (hqueue : s'.queue = s.queue) (hclosed : s'.closed = s.closed)
    (hresults : s'.results = s.results) (hconsumer : s'.consumer = s.consumer)
    (hproducer : s'.producer = s.producer) : Sim s' t := by
  obtain ⟨h₁, h₂, h₃, h₄, h₅⟩ := hs
  exact ⟨h₁.trans hqueue.symm, h₂.trans hclosed.symm, h₃.trans hresults.symm,
    h₄.trans hconsumer.symm, by rwa [hproducer]⟩

/-- The queue is closed in both. -/
theorem Sim.last (hs : Sim s t) (s' : State pool) (hi : CloseBased.Inv pool.toConfig us t)
    (hopen : s.closed = false) (hzero : ∑ p, (s.producer p).live = 0) (hqueue : s'.queue = s.queue)
    (hclosed : s'.closed = true) (hresults : s'.results = s.results)
    (hconsumer : s'.consumer = s.consumer) (hproducer : s'.producer = s.producer) :
    ∃ t', (CloseBased.system pool.toConfig pool.runtime.capacity).step t .closed t' ∧
      Sim s' t' := by
  obtain ⟨q, hq⟩ := hs.exists_close hi hopen hzero
  obtain ⟨hstep, hsim⟩ := hs.close hq
  exact ⟨_, hstep, hsim s' hqueue hclosed hresults hconsumer hproducer⟩

/-- A producer counts itself out in both. -/
theorem Sim.fetch (hs : Sim s t) (hp : s.producer p = .done) :
    ∃ t', CloseBased.producerStep pool.runtime.capacity t p = some (.silent, t') ∧
      Sim (s.setProducer p .returned) t' := by
  have hfetch : t.producer p = .fetchSub := by
    have hmatch := hs.producer p
    rwa [hp] at hmatch
  refine ⟨_, by simp only [CloseBased.producerStep, hfetch]; rfl, ?_⟩
  refine hs.move (p := p) (x := .returned) ?_ hs.queue hs.closed hs.results hs.consumer rfl rfl
  split
  case isTrue => exact .inr rfl
  case isFalse => exact .inl rfl

/-- A producer counts itself out, and closes the queue if nothing else holds it. -/
theorem Sim.done (hs : Sim s t) (hi : CloseBased.Inv pool.toConfig us t) (hc : Counted s)
    (hp : s.producer p = .done) :
    Follows t (producerDone s p).1 (producerDone s p).2 := by
  obtain ⟨t', hstep, hs'⟩ := hs.fetch hp
  have hi' := CloseBased.producerStep_inv hi hstep
  have hpath : (CloseBased.system pool.toConfig pool.runtime.capacity).Path t [.silent] t' :=
    .single ⟨.producer p, hstep⟩
  obtain ⟨hopen, -⟩ := hc.is_open (p := p) (by rw [hp]; rfl)
  -- the other pool needs two steps where this one closes the channel in one
  have hclose : ∀ s' : State pool, ∑ q, (s'.producer q).live = 0 → s'.closed = true →
      s'.queue = s.queue → s'.results = s.results → s'.consumer = s.consumer →
      s'.producer = Function.update s.producer p .returned → Follows t .closed s' := by
    intro s' hzero hclosed hqueue hresults hconsumer hproducer
    rw [hproducer] at hzero
    obtain ⟨t'', hstep', hs''⟩ := hs'.last s' hi' hopen hzero hqueue hclosed hresults
      hconsumer hproducer
    exact ⟨_, t'', hpath.snoc hstep', rfl, hs''⟩
  have hcounted := producerDone_counted hc hp
  have hclosed := hcounted.closed
  unfold producerDone at hclosed ⊢
  cases hr : pool.runtime with
  | go => exact ⟨[.silent], t', hpath, rfl, hs'.congr rfl rfl rfl rfl rfl⟩
  | tokio =>
      simp only [hr] at hclosed ⊢
      by_cases hone : s.waiting = 1
      · rw [if_pos hone]
        have htrue : (s.dropSender.setProducer p .returned).closed = true := if_pos hone
        refine hclose _ ?_ htrue rfl rfl rfl rfl
        have hzero := hclosed.1 htrue
        omega
      · rw [if_neg hone]
        exact ⟨[.silent], t', hpath, rfl, hs'.congr rfl (if_neg hone) rfl rfl rfl⟩
  | fanout =>
      simp only [hr] at hclosed ⊢
      refine hclose _ ?_ rfl rfl rfl rfl rfl
      have hzero := hclosed.1 rfl
      omega

/-- What the closer does is nothing to the other pool, or the end of its last producer. -/
theorem Sim.closer (hs : Sim s t) (hi : CloseBased.Inv pool.toConfig us t) (hc : Counted s)
    (h : closerStep s = some (l, s')) : Follows t l s' := by
  have hclosed := hc.closed
  have hw := hc.waiting
  unfold Waiting at hw
  have hopen : s.closer = .close → s.closed = false := by
    intro hcl
    rw [Bool.eq_false_iff, ne_eq, hclosed, hcl]
    simp [Closer.holds]
  obtain ⟨-, -, rfl, rfl⟩ | ⟨hcl, hr, rfl, rfl⟩ | ⟨hcl, hr, rfl, rfl⟩ := closerStep_cases h
  · exact ⟨[], t, .nil, rfl, hs.congr rfl rfl rfl rfl rfl⟩
  · simp only [hr, hcl, Closer.holds] at hw
    by_cases hone : s.waiting = 1
    · rw [if_pos hone]
      obtain ⟨t', hstep, hs'⟩ := hs.last { s.dropSender with closer := .returned } hi (hopen hcl)
        (by omega) rfl (if_pos hone) rfl rfl rfl
      exact .one t' hstep hs'
    · rw [if_neg hone]
      exact ⟨[], t, .nil, rfl, hs.congr rfl (if_neg hone) rfl rfl rfl⟩
  · cases hr' : pool.runtime with
    | go =>
        simp only [hr', hcl] at hw
        obtain ⟨t', hstep, hs'⟩ := hs.last { s with closed := true, closer := .returned } hi
          (hopen hcl) (hw.2 (by simp)) rfl rfl rfl rfl rfl
        exact .one t' hstep hs'
    | tokio => exact absurd hr' hr
    | fanout => simp [hr', hcl] at hw

/-- A consumer does the same in both. -/
theorem Sim.consume (hs : Sim s t) {c : Fin pool.numConsumers.toNat}
    (h : consumerStep s c = some (l, s')) : Follows t l s' := by
  obtain ⟨v, rest, hret, hq, rfl, rfl⟩ | ⟨hret, hq, hclosed, rfl, rfl⟩ := consumerStep_cases h
  · have hret' : (t.consumer c).returned ≠ true := by rwa [hs.consumer]
    have hq' : t.queue = v :: rest := hs.queue.trans hq
    refine .one ({ t with queue := rest }.setConsumer c
      ⟨false, (t.consumer c).acc ^^^ work v pool.workIters, (t.consumer c).taken ++ [v]⟩)
      ⟨.consumer c, ?_⟩ ?_
    · simp only [CloseBased.act, CloseBased.consumerStep, if_neg hret', hq']
    · refine ⟨rfl, hs.closed, hs.results, ?_, hs.producer⟩
      simp only [CloseBased.setConsumer_consumer, State.setConsumer, hs.consumer]
  · have hret' : (t.consumer c).returned ≠ true := by rwa [hs.consumer]
    have hq' : t.queue = [] := hs.queue.trans hq
    refine .one ({ t with
        results := Function.update t.results c (t.consumer c).acc }.setConsumer c
      ⟨true, (t.consumer c).acc, (t.consumer c).taken⟩) ⟨.consumer c, ?_⟩ ?_
    · simp only [CloseBased.act, CloseBased.consumerStep, if_neg hret', hq', hs.closed,
        if_pos hclosed]
    · refine ⟨hs.queue, hs.closed, ?_, ?_, hs.producer⟩
      · simp only [CloseBased.setConsumer_results, State.setConsumer, hs.results, hs.consumer]
      · simp only [CloseBased.setConsumer_consumer, State.setConsumer, hs.consumer]

/-- A producer does the same in both, but for the end of the last one. -/
theorem Sim.produce (hs : Sim s t) (hi : CloseBased.Inv pool.toConfig us t) (hc : Counted s)
    (h : producerStep s p = some (l, s')) : Follows t l s' := by
  have hmatch := hs.producer p
  obtain ⟨i, e, hp, -, hclosed, -, -⟩ | ⟨i, e, hp, hlt, hopen, hroom, rfl, rfl⟩ |
    ⟨i, e, hp, hge, rfl, rfl⟩ | ⟨hp, hdone⟩ := producerStep_cases h
  · obtain ⟨hopen, -⟩ := hc.is_open (p := p) (by rw [hp]; rfl)
    exact absurd (hopen.symm.trans hclosed) Bool.false_ne_true
  · rw [hp] at hmatch
    have hput : t.producer p = .put i e := hmatch
    refine .one ({ t with queue := t.queue ++ [i + 1] }.setProducer p (.put (i + 1) e))
      ⟨.producer p, ?_⟩ ?_
    · simp only [CloseBased.act, CloseBased.producerStep, hput, hs.closed, hopen, hs.queue,
        if_pos hlt, if_pos hroom]
      rfl
    · exact hs.move (x := .send (i + 1) e) rfl (by rw [← hs.queue]; rfl) hs.closed hs.results
        hs.consumer rfl rfl
  · rw [hp] at hmatch
    have hput : t.producer p = .put i e := hmatch
    refine .one (t.setProducer p .fetchSub) ⟨.producer p, ?_⟩ ?_
    · simp only [CloseBased.act, CloseBased.producerStep, hput, if_neg hge]
    · exact hs.move (x := .done) rfl hs.queue hs.closed hs.results hs.consumer rfl rfl
  · have hfollows := hs.done hi hc hp
    rwa [← hdone] at hfollows

/-- One step of a runtime. -/
theorem Sim.step (hs : Sim s t) (hi : CloseBased.Inv pool.toConfig us t) (hc : Counted s)
    {a : Act pool} (h : act s a = some (l, s')) : Follows t l s' := by
  cases a with
  | producer p => exact hs.produce hi hc h
  | consumer c => exact hs.consume h
  | closer => exact hs.closer hi hc h

/-- Every run of a runtime is matched by one of the pool that closes its queue. -/
theorem run_sim (h : (system pool).Run tr s) :
    ∃ us t, (CloseBased.system pool.toConfig pool.runtime.capacity).Run us t ∧
      us.filter visible = tr.filter visible ∧ Sim s t := by
  refine System.Run.simulate (T := system pool) (R := Sim) ?_ ?_ h
  · rintro _ rfl
    exact ⟨_, rfl, initial_sim pool⟩
  · rintro s l s' us t hr hus hs ⟨a, ha⟩
    exact hs.step (CloseBased.run_inv hus) (reachable_counted hr) ha

/-! ## The channel as a queue -/

/-- What a step does to the channel. -/
def queueOp : Label → Option (Op UInt64)
  | .put v => some (.put v)
  | .took v => some (.take v)
  | .closed => some .close
  | .silent => none

/-- What a run does to the channel. -/
def ops (tr : List Label) : List (Op UInt64) := tr.filterMap queueOp

theorem ops_visible (tr : List Label) : ops (tr.filter visible) = ops tr := by
  rw [ops, ops, List.filterMap_filter]
  apply List.filterMap_congr
  intro l _
  cases l <;> rfl

/-- One step, seen at the queue. -/
theorem act_queue {cfg : Config} {capacity : Nat} {us : List Label} {l : Label}
    {t t' : CloseBased.State cfg} (hi : CloseBased.Inv cfg us t) {a : CloseBased.Act cfg}
    (h : CloseBased.act capacity t a = some (l, t')) :
    (bounded UInt64 capacity).Path ⟨t.queue, t.closed⟩ (queueOp l).toList
      ⟨t'.queue, t'.closed⟩ := by
  cases a with
  | producer p =>
      obtain ⟨i, e, -, -, -, rfl, rfl⟩ | ⟨i, e, -, -, hopen, hroom, rfl, rfl⟩ |
        ⟨i, e, -, -, rfl, rfl⟩ | ⟨-, rfl, rfl⟩ | ⟨hp, rfl, rfl⟩ := CloseBased.producerStep_cases h
      · exact .nil
      · simp only [queueOp, Option.toList_some, CloseBased.setProducer_queue,
          CloseBased.setProducer_closed, hopen]
        exact .single (.put (i + 1) hroom)
      · exact .nil
      · exact .nil
      · simp only [queueOp, Option.toList_some, CloseBased.setProducer_queue,
          CloseBased.setProducer_closed, hi.open_of_close hp]
        exact .single .close
  | consumer c =>
      obtain ⟨v, rest, -, hq, rfl, rfl⟩ | ⟨-, -, -, rfl, rfl⟩ := CloseBased.consumerStep_cases h
      · rw [hq]
        exact .single (.take v)
      · exact .nil

/-- The queue of the other pool is the bounded queue. -/
theorem run_queue {cfg : Config} {capacity : Nat} {us : List Label} {t : CloseBased.State cfg}
    (h : (CloseBased.system cfg capacity).Run us t) :
    (bounded UInt64 capacity).Run (ops us) ⟨t.queue, t.closed⟩ := by
  refine System.Run.invariant (T := CloseBased.system cfg capacity)
    (I := fun us t => (bounded UInt64 capacity).Run (ops us) ⟨t.queue, t.closed⟩) ?_ ?_ h
  · rintro _ rfl
    exact .nil rfl
  · rintro us t l t' hr hq ⟨a, ha⟩
    have hops : ops (us ++ [l]) = ops us ++ (queueOp l).toList := by
      unfold ops
      rw [List.filterMap_append]
      cases l <;> rfl
    rw [hops]
    exact hq.append (act_queue (CloseBased.run_inv hr) ha)

/-- Every run of a runtime is a run of the pool that closes its queue, with the same puts, takes and
closes in the same order, and the same results; and its channel is a bounded queue. -/
theorem pool_refines (h : (system pool).Run tr s) :
    (∃ us t, (CloseBased.system pool.toConfig pool.runtime.capacity).Run us t ∧
      us.filter visible = tr.filter visible ∧ Sim s t) ∧
    (bounded UInt64 pool.runtime.capacity).Run (ops tr) ⟨s.queue, s.closed⟩ := by
  obtain ⟨us, t, hus, hvisible, hs⟩ := run_sim h
  refine ⟨⟨us, t, hus, hvisible, hs⟩, ?_⟩
  have hq := run_queue hus
  rwa [← ops_visible, hvisible, ops_visible, hs.queue, hs.closed] at hq

theorem run_of_replay {as : List (Act pool)} {r : List Label × State pool}
    (h : System.replay act (initial pool) as = some r) : (system pool).Run r.1 r.2 :=
  System.Run.of_replay (T := system pool) (fun _ a _ _ ha => ⟨a, ha⟩) rfl h

/-- One item on tokio's channel, which `run` keeps open at first. -/
def oneItem : Pool := { CloseBased.oneItem with runtime := .tokio, single := nofun }

/-- `run` drops its sender last, and so closes the channel. -/
def oneItemPut : List Label × State oneItem :=
  (System.replay act (initial oneItem)
    [.producer CloseBased.only, .producer CloseBased.only, .producer CloseBased.only,
      .closer]).get rfl

/-- The channel of that run is a bounded queue that holds the item and is closed. -/
theorem pool_refines_oneItem :
    (system oneItem).Run [.put 1, .silent, .silent, .closed] oneItemPut.2 ∧
    (∃ us t, (CloseBased.system CloseBased.oneItem 256).Run us t ∧
      us.filter visible = [.put 1, .closed] ∧ t.queue = [1]) ∧
    (bounded UInt64 256).Run [.put 1, .close] ⟨[1], true⟩ := by
  have h : (system oneItem).Run oneItemPut.1 oneItemPut.2 := run_of_replay (Option.some_get _).symm
  obtain ⟨⟨us, t, hus, hvisible, hs⟩, hq⟩ := pool_refines h
  exact ⟨h, ⟨us, t, hus, hvisible, hs.queue⟩, hq⟩

/-! ## The results of a run -/

theorem puts_visible (tr : List Label) : puts (tr.filter visible) = puts tr := by
  rw [puts, puts, List.filterMap_filter]
  apply List.filterMap_congr
  intro l _
  cases l <;> rfl

theorem takes_visible (tr : List Label) : takes (tr.filter visible) = takes tr := by
  rw [takes, takes, List.filterMap_filter]
  apply List.filterMap_congr
  intro l _
  cases l <;> rfl

theorem closes_visible (tr : List Label) : closes (tr.filter visible) = closes tr := by
  rw [closes, closes, List.count_filter (by rfl)]

/-- No producer is left unless it still has to count itself out, and all consumers are left. -/
theorem Sim.finished (hs : Sim s t) (hi : CloseBased.Inv pool.toConfig us t)
    (hfinished : s.Finished) : t.Finished := by
  obtain ⟨hproducers, hconsumers, -⟩ := hfinished
  have hconsumers' : ∀ c, (t.consumer c).returned = true := by
    intro c
    rw [hs.consumer]
    exact hconsumers c
  refine ⟨fun p => ?_, hconsumers'⟩
  have hmatch := hs.producer p
  rw [hproducers p] at hmatch
  rcases hmatch with h | h
  · exact h
  · -- a consumer leaves a closed queue, so nobody is about to close it
    have hclosed := (hi.returned ⟨0, pool.consumers_pos⟩ (hconsumers' _)).1
    have hcloses := hi.closed.1 hclosed
    exact absurd (hi.last h).1 hcloses

/-- A send never finds a closed channel. -/
theorem no_panic (hs : Sim s t) (p : Fin pool.numProducers.toNat) :
    s.producer p ≠ .panicked := by
  intro hp
  have hmatch := hs.producer p
  rw [hp] at hmatch
  exact hmatch

/-- A consumer that is left when the channel holds an item, or is closed, can go on. -/
theorem consumer_progress (hi : CloseBased.Inv pool.toConfig us t) (hs : Sim s t)
    {c : Fin pool.numConsumers.toNat} (hc : s.queue ≠ [] ∨
      (s.consumer c).returned ≠ true ∧ s.closed = true) :
    ∃ l s', (system pool).step s l s' := by
  have hret : (s.consumer c).returned ≠ true := by
    rcases hc with hne | ⟨hret, -⟩
    · intro hret
      rw [← hs.consumer] at hret
      exact hne (hs.queue ▸ (hi.returned c hret).2.1)
    · exact hret
  have hsome : (consumerStep s c).isSome := by
    simp only [consumerStep, if_neg hret]
    cases hq : s.queue with
    | cons v rest => rfl
    | nil =>
        rcases hc with hne | ⟨-, hclosed⟩
        · exact absurd hq hne
        · simp [hclosed]
  obtain ⟨⟨l, s'⟩, hstep⟩ := Option.isSome_iff_exists.1 hsome
  exact ⟨l, s', .consumer c, hstep⟩

/-- Until every task has returned, some task can go on. -/
theorem pool_progress (hc : Counted s) (hi : CloseBased.Inv pool.toConfig us t) (hs : Sim s t)
    (hrun : ¬ s.Finished) : ∃ l s', (system pool).step s l s' := by
  have hopt : ∀ {a : Act pool}, (act s a).isSome → ∃ l s', (system pool).step s l s' := by
    intro a ha
    obtain ⟨⟨l, s'⟩, hstep⟩ := Option.isSome_iff_exists.1 ha
    exact ⟨l, s', a, hstep⟩
  have hclosed := hc.closed
  have hw := hc.waiting
  unfold Waiting at hw
  by_cases hproducers : ∀ p, s.producer p = .returned
  · have hzero : ∑ p, (s.producer p).live = 0 := by simp [hproducers]
    rw [hzero] at hclosed hw
    cases hcl : s.closer with
    | wait =>
        have hwaiting : s.waiting = 0 := by
          cases hr : pool.runtime <;> simp only [hr, hcl] at hw
          · exact hw.1
          · exact absurd rfl hw.2
          · cases hw
        exact hopt (a := .closer) (by simp [act, closerStep, hcl, hwaiting])
    | close =>
        apply hopt (a := .closer)
        simp only [act, closerStep, hcl]
        cases pool.runtime <;> rfl
    | returned =>
        -- nobody holds the channel, so the consumers find it closed
        obtain ⟨c, hret⟩ : ∃ c, (s.consumer c).returned ≠ true := by
          by_contra hno
          exact hrun ⟨hproducers, fun c => by_contra fun h => hno ⟨c, h⟩, hcl⟩
        exact consumer_progress hi hs (.inr ⟨hret, hclosed.2 (by rw [hcl]; rfl)⟩)
  · obtain ⟨p, hp⟩ := not_forall.1 hproducers
    cases hpc : s.producer p with
    | send i e =>
        by_cases hroom : s.queue.length < pool.runtime.capacity
        · apply hopt (a := .producer p)
          simp only [act, producerStep, hpc]
          split
          · split
            · rfl
            · rfl
          · rfl
        · refine consumer_progress hi hs (c := ⟨0, pool.consumers_pos⟩) (.inl ?_)
          intro hempty
          rw [hempty] at hroom
          cases hr : pool.runtime <;> simp [hr, Runtime.capacity] at hroom
    | done => exact hopt (a := .producer p) (by simp [act, producerStep, hpc])
    | returned => exact absurd hpc hp
    | panicked => exact absurd hpc (no_panic hs p)

/-- What a producer has still to do: two steps for an item, one of them by a consumer. -/
def Producer.rank : Producer → Nat
  | .send i e => 2 * (e.toNat - i.toNat) + 2
  | .done => 1
  | .returned | .panicked => 0

def Closer.rank : Closer → Nat
  | .wait => 2
  | .close => 1
  | .returned => 0

/-- What the tasks have still to do. -/
def State.rank (s : State pool) : Nat :=
  ∑ p, (s.producer p).rank + s.queue.length + ∑ c, left (s.consumer c) + s.closer.rank

theorem refused_rank (r : Runtime) : (refused r).rank ≤ 1 := by
  cases r <;> decide

theorem producerDone_rank (hp : s.producer p = .done) : (producerDone s p).2.rank < s.rank := by
  have hx := sum_update Producer.rank s.producer p .returned
  rw [hp] at hx
  unfold producerDone
  cases pool.runtime <;> simp only [State.rank, State.setProducer, State.dropSender] <;>
    simp only [Producer.rank] at hx ⊢ <;> omega

theorem producerStep_rank (h : producerStep s p = some (l, s')) : s'.rank < s.rank := by
  have hsum : ∀ {i e} x, s.producer p = .send i e → ∑ q, (Function.update s.producer p x q).rank +
      (2 * (e.toNat - i.toNat) + 2) = ∑ q, (s.producer q).rank + x.rank := by
    intro i e x hp
    have h := sum_update Producer.rank s.producer p x
    rwa [hp] at h
  obtain ⟨i, e, hp, hlt, -, -, rfl⟩ | ⟨i, e, hp, hlt, -, -, -, rfl⟩ | ⟨i, e, hp, -, -, rfl⟩ |
    ⟨hp, hdone⟩ := producerStep_cases h
  · have hle := refused_rank pool.runtime
    have hx := hsum (refused pool.runtime) hp
    simp only [State.rank, State.setProducer]
    omega
  · have hnat := hlt
    rw [UInt64.lt_iff_toNat_lt] at hnat
    have hx := hsum (.send (i + 1) e) hp
    simp only [Producer.rank, toNat_succ_of_lt hlt] at hx
    simp only [State.rank, State.setProducer, List.length_append, List.length_singleton]
    simp only [Producer.rank]
    omega
  · have hx := hsum .done hp
    simp only [Producer.rank] at hx
    simp only [State.rank, State.setProducer, Producer.rank]
    omega
  · have hrank := producerDone_rank hp
    rwa [← hdone] at hrank

theorem consumerStep_rank {c : Fin pool.numConsumers.toNat} (h : consumerStep s c = some (l, s')) :
    s'.rank < s.rank := by
  have hsum : ∀ x, (s.consumer c).returned ≠ true →
      ∑ d, left (Function.update s.consumer c x d) + 1 = ∑ d, left (s.consumer d) + left x := by
    intro x hret
    have h := sum_update left s.consumer c x
    rwa [show left (s.consumer c) = 1 from if_neg hret] at h
  obtain ⟨v, rest, hret, hq, -, rfl⟩ | ⟨hret, -, -, -, rfl⟩ := consumerStep_cases h
  · have hx := hsum
      ⟨false, (s.consumer c).acc ^^^ work v pool.workIters, (s.consumer c).taken ++ [v]⟩ hret
    rw [show left ⟨false, (s.consumer c).acc ^^^ work v pool.workIters,
      (s.consumer c).taken ++ [v]⟩ = 1 from rfl] at hx
    simp only [State.rank, State.setConsumer, hq, List.length_cons]
    omega
  · have hx := hsum ⟨true, (s.consumer c).acc, (s.consumer c).taken⟩ hret
    rw [show left ⟨true, (s.consumer c).acc, (s.consumer c).taken⟩ = 0 from rfl] at hx
    simp only [State.rank, State.setConsumer]
    omega

theorem closerStep_rank (h : closerStep s = some (l, s')) : s'.rank < s.rank := by
  obtain ⟨hcl, -, -, rfl⟩ | ⟨hcl, -, -, rfl⟩ | ⟨hcl, -, -, rfl⟩ := closerStep_cases h
  · simp only [State.rank, hcl, Closer.rank]
    omega
  · simp only [State.rank, State.dropSender, hcl, Closer.rank]
    omega
  · simp only [State.rank, hcl, Closer.rank]
    omega

/-- Every step brings the end nearer. -/
theorem step_rank (h : (system pool).step s l s') : s'.rank < s.rank := by
  obtain ⟨a, ha⟩ := h
  cases a with
  | producer p => exact producerStep_rank ha
  | consumer c => exact consumerStep_rank ha
  | closer => exact closerStep_rank ha

/-- A queue is closed once, when everything was put. -/
theorem closed_once (hi : CloseBased.Inv pool.toConfig us t) (hne : closes us ≠ 0) :
    closes us = 1 ∧ (puts us).Perm pool.items := by
  have hle : CloseBased.due t.remaining ≤ 1 := by
    unfold CloseBased.due
    split <;> decide
  have hclosing := hi.closing
  have hpending : ∑ p, (t.producer p).pending = 0 := by
    apply Finset.sum_eq_zero
    intro p _
    have hcounted := hi.no_producer (hi.closed.2 hne) p
    cases hp : t.producer p with
    | put i e | fetchSub => rw [hp] at hcounted; cases hcounted
    | close | returned => rfl
  have hflow := hi.flow
  rw [hpending] at hflow
  exact ⟨by omega, Multiset.coe_eq_coe.1 hflow.all_put⟩

/-- The pools of Go, of tokio and of the fan-out process every item exactly once. No send finds the
channel closed; the channel is closed only after it has accepted every item; no run is longer than
its rank, and until all tasks have returned some task can go on; and then the channel was closed
once, the consumers have taken each item exactly once, and the checksum is that of the items. -/
theorem pool_exact (h : (system pool).Run tr s) :
    (∀ p, s.producer p ≠ .panicked) ∧
    (∀ s', (system pool).step s .closed s' → closes tr = 0 ∧ (puts tr).Perm pool.items) ∧
    tr.length ≤ (initial pool).rank ∧
    (¬ s.Finished → ∃ l s', (system pool).step s l s') ∧
    (s.Finished →
      closes tr = 1 ∧ (takes tr).Perm pool.items ∧ s.runs.flatten.Perm pool.items ∧
      checksum (List.ofFn s.results) =
        xorAll (pool.items.map fun item => work item pool.workIters)) := by
  obtain ⟨us, t, hus, hvisible, hs⟩ := run_sim h
  have hi := CloseBased.run_inv hus
  refine ⟨no_panic hs, fun s' hclose => ?_, ?_,
    pool_progress (reachable_counted h.reachable) hi hs, fun hfinished => ?_⟩
  · -- the run that goes on with the close is matched, too
    obtain ⟨vs, t', hvs, hvisible', -⟩ := run_sim (h.snoc hclose)
    have hcloses : closes vs = closes tr + 1 := by
      rw [← closes_visible, hvisible', closes_visible, CloseBased.closes_snoc]
      rfl
    have hputs : puts vs = puts tr := by
      rw [← puts_visible, hvisible', puts_visible, CloseBased.puts_snoc, CloseBased.puts_closed,
        List.append_nil]
    have honce := closed_once (CloseBased.run_inv hvs) (by rw [hcloses]; exact Nat.succ_ne_zero _)
    rw [hputs, hcloses] at honce
    exact ⟨Nat.succ.inj honce.1, honce.2⟩
  · obtain ⟨a, rfl, hp⟩ := h
    have hlength := hp.length_le (μ := State.rank) (fun _ _ _ _ hstep => step_rank hstep)
      (System.Run.nil rfl).reachable
    omega
  · obtain ⟨hcloses, htakes, hruns, hsum⟩ := hi.finished (hs.finished hi hfinished)
    have hruns' : t.runs = s.runs := by
      rw [CloseBased.State.runs, State.runs, hs.consumer]
    refine ⟨?_, ?_, hruns' ▸ hruns, hs.results ▸ hsum⟩
    · rw [← closes_visible, ← hvisible, closes_visible, hcloses]
    · rw [← takes_visible, ← hvisible, takes_visible]
      exact htakes

/-- `run` drops its sender before the producer drops its own. -/
def oneItemRun : List Label × State oneItem :=
  (System.replay act (initial oneItem)
    [.producer CloseBased.only, .producer CloseBased.only, .closer, .producer CloseBased.only,
      .consumer CloseBased.only, .consumer CloseBased.only]).get rfl

/-- The item is put, the channel is closed, and the item is taken. -/
theorem pool_exact_oneItem :
    ∃ s, (system oneItem).Run [.put 1, .silent, .silent, .closed, .took 1, .silent] s ∧
      s.Finished ∧ s.runs.flatten.Perm [1] ∧ checksum (List.ofFn s.results) = xorAll [work 1 1] := by
  have h : (system oneItem).Run oneItemRun.1 oneItemRun.2 := run_of_replay (Option.some_get _).symm
  have hone : ∀ q : Fin 1, q = 0 := fun q => Subsingleton.elim q 0
  have hfinished : oneItemRun.2.Finished :=
    ⟨fun q => by rw [hone q]; rfl, fun q => by rw [hone q]; rfl, rfl⟩
  exact ⟨_, h, hfinished, ((pool_exact h).2.2.2.2 hfinished).2.2⟩

end ZioBenchmarks.WorkerPool.Runtimes
