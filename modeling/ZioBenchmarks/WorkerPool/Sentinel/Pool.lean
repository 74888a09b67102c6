import ZioBenchmarks.Transition.Runs
import ZioBenchmarks.WorkerPool.Split

/-!
# The worker pools that stop their consumers with sentinels

`worker_pool_asio.cpp` and `worker_pool_photon.cpp`: nobody closes the queue. Once all items are in
it, one task puts one `0` per consumer behind them, the last producer in the one and `main` in the
other, and a consumer stops at the first `0` it takes.
-/

set_option autoImplicit false

namespace ZioBenchmarks.WorkerPool.Sentinel

open ZioBenchmarks.Transition

/-- `CAP`. -/
def CAP : Nat := 256

/-- The two programs. -/
inductive Variant where
  | asio
  | photon
  deriving DecidableEq, Repr

/-- Where a producer is. -/
inductive Producer where
  /-- The loop over the share: `async_send(i + 1)`, `q.push(i + 1)`. -/
  | put (i e : UInt64)
  /-- `remaining.fetch_sub(1) == 1`, `producers_done.signal(1)`. -/
  | finish
  /-- asio: `for (c = 0; c < consumers; c++)` with `async_send(0)`. -/
  | stop (c : UInt64)
  | returned
  deriving DecidableEq, Repr

/-- Where `main` is, behind the start of the tasks. -/
inductive Main where
  /-- photon: `producers_done.wait(g_producers)`. -/
  | waitProducers
  /-- photon: `for (c = 0; c < g_consumers; c++) q.push(0)`. -/
  | stop (c : UInt64)
  /-- photon: `consumers_done.wait(g_consumers)`. -/
  | waitConsumers
  /-- asio: `pool.join()`. -/
  | join
  | returned
  deriving DecidableEq, Repr

/-- Where a consumer is. -/
inductive ConsumerPc where
  /-- `async_receive`, `q.pop()`. -/
  | receive
  /-- `checksum.fetch_xor(acc)`, `g_checksum ^= acc`. -/
  | combine
  /-- photon: `consumers_done.signal(1)`. -/
  | signal
  | returned
  deriving DecidableEq, Repr

/-- A consumer, and the items it has taken. -/
structure Consumer where
  pc : ConsumerPc
  acc : UInt64
  taken : List UInt64
  deriving DecidableEq, Repr

/-- The queue, the checksum, the counter of the one program and the semaphores of the other, and the
tasks. -/
structure State (cfg : Config) where
  queue : List UInt64
  checksum : UInt64
  remaining : UInt64
  producersDone : Nat
  consumersDone : Nat
  main : Main
  producer : Fin cfg.numProducers.toNat → Producer
  consumer : Fin cfg.numConsumers.toNat → Consumer

/-- What an observer of the queue and the checksum sees of a step. -/
inductive Label (cfg : Config) where
  | put (v : UInt64)
  | took (c : Fin cfg.numConsumers.toNat) (v : UInt64)
  | combined (c : Fin cfg.numConsumers.toNat)
  | silent
  deriving DecidableEq, Repr

variable {cfg : Config}

/-- The producer `p` continues at `x`. -/
def State.setProducer (s : State cfg) (p : Fin cfg.numProducers.toNat) (x : Producer) : State cfg :=
  { s with producer := Function.update s.producer p x }

/-- The consumer `c` becomes `x`. -/
def State.setConsumer (s : State cfg) (c : Fin cfg.numConsumers.toNat) (x : Consumer) : State cfg :=
  { s with consumer := Function.update s.consumer c x }

/-- `v` goes into the queue. -/
def State.enqueue (s : State cfg) (v : UInt64) : State cfg := { s with queue := s.queue ++ [v] }

section Projections

variable (s : State cfg) (p : Fin cfg.numProducers.toNat) (x : Producer)
  (c : Fin cfg.numConsumers.toNat) (y : Consumer) (v : UInt64)

@[simp] theorem setProducer_queue : (s.setProducer p x).queue = s.queue := rfl

@[simp] theorem setProducer_remaining : (s.setProducer p x).remaining = s.remaining := rfl

@[simp] theorem setProducer_producersDone :
    (s.setProducer p x).producersDone = s.producersDone := rfl

@[simp] theorem setProducer_main : (s.setProducer p x).main = s.main := rfl

@[simp] theorem setProducer_producer :
    (s.setProducer p x).producer = Function.update s.producer p x := rfl

@[simp] theorem setConsumer_checksum : (s.setConsumer c y).checksum = s.checksum := rfl

@[simp] theorem setConsumer_consumersDone :
    (s.setConsumer c y).consumersDone = s.consumersDone := rfl

@[simp] theorem setConsumer_main : (s.setConsumer c y).main = s.main := rfl

@[simp] theorem setConsumer_consumer :
    (s.setConsumer c y).consumer = Function.update s.consumer c y := rfl

@[simp] theorem enqueue_queue : (s.enqueue v).queue = s.queue ++ [v] := rfl

@[simp] theorem enqueue_remaining : (s.enqueue v).remaining = s.remaining := rfl

@[simp] theorem enqueue_producersDone : (s.enqueue v).producersDone = s.producersDone := rfl

@[simp] theorem enqueue_main : (s.enqueue v).main = s.main := rfl

@[simp] theorem enqueue_producer : (s.enqueue v).producer = s.producer := rfl

end Projections

/-- One statement of a producer; a put waits while the queue is full. -/
def producerStep (v : Variant) (s : State cfg) (p : Fin cfg.numProducers.toNat) :
    Option (Label cfg × State cfg) :=
  match s.producer p with
  | .put i e =>
      if i < e then
        if s.queue.length < CAP then
          some (.put (i + 1), (s.enqueue (i + 1)).setProducer p (.put (i + 1) e))
        else none
      else some (.silent, s.setProducer p .finish)
  | .finish =>
      match v with
      | .asio =>
          some (.silent, { s with remaining := s.remaining - 1 }.setProducer p
            (if s.remaining = 1 then .stop 0 else .returned))
      | .photon =>
          some (.silent, { s with producersDone := s.producersDone + 1 }.setProducer p .returned)
  | .stop c =>
      if c < cfg.numConsumers then
        if s.queue.length < CAP then
          some (.put 0, (s.enqueue 0).setProducer p (.stop (c + 1)))
        else none
      else some (.silent, s.setProducer p .returned)
  | .returned => none

/-- One statement of `main`. -/
def mainStep (s : State cfg) : Option (Label cfg × State cfg) :=
  match s.main with
  | .waitProducers =>
      if cfg.numProducers.toNat ≤ s.producersDone then
        some (.silent, { s with
          producersDone := s.producersDone - cfg.numProducers.toNat
          main := .stop 0 })
      else none
  | .stop c =>
      if c < cfg.numConsumers then
        if s.queue.length < CAP then some (.put 0, { s.enqueue 0 with main := .stop (c + 1) })
        else none
      else some (.silent, { s with main := .waitConsumers })
  | .waitConsumers =>
      if cfg.numConsumers.toNat ≤ s.consumersDone then
        some (.silent, { s with
          consumersDone := s.consumersDone - cfg.numConsumers.toNat
          main := .returned })
      else none
  | .join =>
      if (∀ p, s.producer p = .returned) ∧ ∀ c, (s.consumer c).pc = .returned then
        some (.silent, { s with main := .returned })
      else none
  | .returned => none

/-- A consumer of the one program is done once it has combined its result, one of the other has to
signal that it is. -/
def ConsumerPc.afterCombine : Variant → ConsumerPc
  | .asio => .returned
  | .photon => .signal

/-- One turn or statement of a consumer; it waits while the queue is empty. -/
def consumerStep (v : Variant) (s : State cfg) (c : Fin cfg.numConsumers.toNat) :
    Option (Label cfg × State cfg) :=
  let x := s.consumer c
  match x.pc with
  | .receive =>
      match s.queue with
      | [] => none
      | item :: rest =>
          if item = 0 then
            some (.took c item, { s with queue := rest }.setConsumer c { x with pc := .combine })
          else
            some (.took c item, { s with queue := rest }.setConsumer c
              ⟨.receive, x.acc ^^^ work item cfg.workIters, x.taken ++ [item]⟩)
  | .combine =>
      some (.combined c, { s with checksum := s.checksum ^^^ x.acc }.setConsumer c
        { x with pc := .afterCombine v })
  | .signal =>
      some (.silent, { s with consumersDone := s.consumersDone + 1 }.setConsumer c
        { x with pc := .returned })
  | .returned => none

/-- Any task can be the next to execute a step. -/
inductive Act (cfg : Config) where
  | producer (p : Fin cfg.numProducers.toNat)
  | main
  | consumer (c : Fin cfg.numConsumers.toNat)

/-- Effect of an action, if it can happen. -/
def act (v : Variant) (s : State cfg) : Act cfg → Option (Label cfg × State cfg)
  | .producer p => producerStep v s p
  | .main => mainStep s
  | .consumer c => consumerStep v s c

/-- The tasks have just been started. -/
def initial (v : Variant) (cfg : Config) : State cfg where
  queue := []
  checksum := 0
  remaining := cfg.numProducers
  producersDone := 0
  consumersDone := 0
  main :=
    match v with
    | .asio => .join
    | .photon => .waitProducers
  producer p := .put (cfg.start (UInt64.ofNat p)) (cfg.last (UInt64.ofNat p))
  consumer _ := ⟨.receive, 0, []⟩

/-- The pool. -/
def system (v : Variant) (cfg : Config) : System (State cfg) (Label cfg) where
  init s := s = initial v cfg
  step s l s' := ∃ a, act v s a = some (l, s')

/-- `main` and every task have returned. -/
def State.Finished (s : State cfg) : Prop :=
  s.main = .returned ∧ (∀ p, s.producer p = .returned) ∧ ∀ c, (s.consumer c).pc = .returned

/-- The values the queue accepted, in order. -/
def puts (tr : List (Label cfg)) : List UInt64 :=
  tr.filterMap fun
    | .put v => some v
    | _ => none

/-- The values the queue delivered, in order. -/
def takes (tr : List (Label cfg)) : List UInt64 :=
  tr.filterMap fun
    | .took _ v => some v
    | _ => none

/-- The values a consumer took, in order. -/
def takesBy (c : Fin cfg.numConsumers.toNat) (tr : List (Label cfg)) : List UInt64 :=
  tr.filterMap fun
    | .took d v => if d = c then some v else none
    | _ => none

/-- The consumers that have combined their results, in order. -/
def combined (tr : List (Label cfg)) : List (Fin cfg.numConsumers.toNat) :=
  tr.filterMap fun
    | .combined c => some c
    | _ => none

section Labels

variable {tr : List (Label cfg)} {l : Label cfg} (v : UInt64) (c d : Fin cfg.numConsumers.toNat)

@[simp] theorem puts_snoc : puts (tr ++ [l]) = puts tr ++ puts [l] := List.filterMap_append ..

@[simp] theorem takes_snoc : takes (tr ++ [l]) = takes tr ++ takes [l] := List.filterMap_append ..

@[simp] theorem takesBy_snoc : takesBy c (tr ++ [l]) = takesBy c tr ++ takesBy c [l] :=
  List.filterMap_append ..

@[simp] theorem combined_snoc : combined (tr ++ [l]) = combined tr ++ combined [l] :=
  List.filterMap_append ..

@[simp] theorem puts_put : puts [(.put v : Label cfg)] = [v] := rfl

@[simp] theorem puts_took : puts [.took c v] = [] := rfl

@[simp] theorem puts_combined : puts [.combined c] = [] := rfl

@[simp] theorem puts_silent : puts [(.silent : Label cfg)] = [] := rfl

@[simp] theorem takes_put : takes [(.put v : Label cfg)] = [] := rfl

@[simp] theorem takes_took : takes [.took c v] = [v] := rfl

@[simp] theorem takes_combined : takes [.combined c] = [] := rfl

@[simp] theorem takes_silent : takes [(.silent : Label cfg)] = [] := rfl

@[simp] theorem takesBy_put : takesBy d [.put v] = [] := rfl

@[simp] theorem takesBy_took : takesBy d [.took c v] = if c = d then [v] else [] := by
  by_cases h : c = d <;> simp [takesBy, h]

@[simp] theorem takesBy_combined : takesBy d [.combined c] = [] := rfl

@[simp] theorem takesBy_silent : takesBy d [.silent] = [] := rfl

@[simp] theorem combined_put : combined [(.put v : Label cfg)] = [] := rfl

@[simp] theorem combined_took : combined [.took c v] = [] := rfl

@[simp] theorem combined_combined : combined [.combined c] = [c] := rfl

@[simp] theorem combined_silent : combined [(.silent : Label cfg)] = [] := rfl

end Labels

/-! ## What a step can be -/

section Steps

variable {v : Variant} {s s' : State cfg} {l : Label cfg}

theorem producerStep_cases {p : Fin cfg.numProducers.toNat}
    (h : producerStep v s p = some (l, s')) :
    (∃ i e, s.producer p = .put i e ∧ i < e ∧ s.queue.length < CAP ∧ l = .put (i + 1) ∧
      s' = (s.enqueue (i + 1)).setProducer p (.put (i + 1) e)) ∨
    (∃ i e, s.producer p = .put i e ∧ ¬ i < e ∧ l = .silent ∧ s' = s.setProducer p .finish) ∨
    (v = .asio ∧ s.producer p = .finish ∧ l = .silent ∧
      s' = { s with remaining := s.remaining - 1 }.setProducer p
        (if s.remaining = 1 then .stop 0 else .returned)) ∨
    (v = .photon ∧ s.producer p = .finish ∧ l = .silent ∧
      s' = { s with producersDone := s.producersDone + 1 }.setProducer p .returned) ∨
    (∃ c, s.producer p = .stop c ∧ c < cfg.numConsumers ∧ s.queue.length < CAP ∧ l = .put 0 ∧
      s' = (s.enqueue 0).setProducer p (.stop (c + 1))) ∨
    (∃ c, s.producer p = .stop c ∧ ¬ c < cfg.numConsumers ∧ l = .silent ∧
      s' = s.setProducer p .returned) := by
  unfold producerStep at h
  cases hp : s.producer p with
  | put i e =>
      simp only [hp] at h
      split at h
      case isTrue hlt =>
        split at h
        case isTrue hroom =>
          cases h
          exact .inl ⟨i, e, rfl, hlt, hroom, rfl, rfl⟩
        case isFalse => cases h
      case isFalse hge =>
        cases h
        exact .inr (.inl ⟨i, e, rfl, hge, rfl, rfl⟩)
  | finish =>
      simp only [hp] at h
      cases v with
      | asio =>
          cases h
          exact .inr (.inr (.inl ⟨rfl, rfl, rfl, rfl⟩))
      | photon =>
          cases h
          exact .inr (.inr (.inr (.inl ⟨rfl, rfl, rfl, rfl⟩)))
  | stop c =>
      simp only [hp] at h
      split at h
      case isTrue hlt =>
        split at h
        case isTrue hroom =>
          cases h
          exact .inr (.inr (.inr (.inr (.inl ⟨c, rfl, hlt, hroom, rfl, rfl⟩))))
        case isFalse => cases h
      case isFalse hge =>
        cases h
        exact .inr (.inr (.inr (.inr (.inr ⟨c, rfl, hge, rfl, rfl⟩))))
  | returned => simp [hp] at h

theorem mainStep_cases (h : mainStep s = some (l, s')) :
    (s.main = .waitProducers ∧ cfg.numProducers.toNat ≤ s.producersDone ∧ l = .silent ∧
      s' = { s with
        producersDone := s.producersDone - cfg.numProducers.toNat
        main := .stop 0 }) ∨
    (∃ c, s.main = .stop c ∧ c < cfg.numConsumers ∧ s.queue.length < CAP ∧ l = .put 0 ∧
      s' = { s.enqueue 0 with main := .stop (c + 1) }) ∨
    (∃ c, s.main = .stop c ∧ ¬ c < cfg.numConsumers ∧ l = .silent ∧
      s' = { s with main := .waitConsumers }) ∨
    (s.main = .waitConsumers ∧ cfg.numConsumers.toNat ≤ s.consumersDone ∧ l = .silent ∧
      s' = { s with
        consumersDone := s.consumersDone - cfg.numConsumers.toNat
        main := .returned }) ∨
    (s.main = .join ∧ (∀ p, s.producer p = .returned) ∧ (∀ c, (s.consumer c).pc = .returned) ∧
      l = .silent ∧ s' = { s with main := .returned }) := by
  unfold mainStep at h
  cases hm : s.main with
  | waitProducers =>
      simp only [hm] at h
      split at h
      case isTrue hle =>
        cases h
        exact .inl ⟨rfl, hle, rfl, rfl⟩
      case isFalse => cases h
  | stop c =>
      simp only [hm] at h
      split at h
      case isTrue hlt =>
        split at h
        case isTrue hroom =>
          cases h
          exact .inr (.inl ⟨c, rfl, hlt, hroom, rfl, rfl⟩)
        case isFalse => cases h
      case isFalse hge =>
        cases h
        exact .inr (.inr (.inl ⟨c, rfl, hge, rfl, rfl⟩))
  | waitConsumers =>
      simp only [hm] at h
      split at h
      case isTrue hle =>
        cases h
        exact .inr (.inr (.inr (.inl ⟨rfl, hle, rfl, rfl⟩)))
      case isFalse => cases h
  | join =>
      simp only [hm] at h
      split at h
      case isTrue hall =>
        cases h
        exact .inr (.inr (.inr (.inr ⟨rfl, hall.1, hall.2, rfl, rfl⟩)))
      case isFalse => cases h
  | returned => simp [hm] at h

theorem consumerStep_cases {c : Fin cfg.numConsumers.toNat}
    (h : consumerStep v s c = some (l, s')) :
    (∃ rest, (s.consumer c).pc = .receive ∧ s.queue = 0 :: rest ∧ l = .took c 0 ∧
      s' = { s with queue := rest }.setConsumer c { s.consumer c with pc := .combine }) ∨
    (∃ item rest, (s.consumer c).pc = .receive ∧ s.queue = item :: rest ∧ item ≠ 0 ∧
      l = .took c item ∧
      s' = { s with queue := rest }.setConsumer c
        ⟨.receive, (s.consumer c).acc ^^^ work item cfg.workIters,
          (s.consumer c).taken ++ [item]⟩) ∨
    ((s.consumer c).pc = .combine ∧ l = .combined c ∧
      s' = { s with checksum := s.checksum ^^^ (s.consumer c).acc }.setConsumer c
        { s.consumer c with pc := .afterCombine v }) ∨
    ((s.consumer c).pc = .signal ∧ l = .silent ∧
      s' = { s with consumersDone := s.consumersDone + 1 }.setConsumer c
        { s.consumer c with pc := .returned }) := by
  simp only [consumerStep] at h
  cases hc : (s.consumer c).pc with
  | receive =>
      simp only [hc] at h
      split at h
      case h_1 => cases h
      case h_2 item rest hqueue =>
        split at h
        case isTrue hzero =>
          cases h
          exact .inl ⟨rest, rfl, hzero ▸ hqueue, by rw [hzero], rfl⟩
        case isFalse hne =>
          cases h
          exact .inr (.inl ⟨item, rest, rfl, hqueue, hne, rfl, rfl⟩)
  | combine =>
      simp only [hc] at h
      cases h
      exact .inr (.inr (.inl ⟨rfl, rfl, rfl⟩))
  | signal =>
      simp only [hc] at h
      cases h
      exact .inr (.inr (.inr ⟨rfl, rfl, rfl⟩))
  | returned =>
      simp only [hc] at h
      cases h

end Steps

end ZioBenchmarks.WorkerPool.Sentinel
