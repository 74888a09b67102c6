import ZioBenchmarks.Fold.Update
import ZioBenchmarks.Queue.Flow
import ZioBenchmarks.Transition.Runs
import ZioBenchmarks.WorkerPool.Split

/-!
# The worker pool that closes its queue

`worker_pool.zig` and `worker_pool_native.zig`: the producers put their shares into one bounded
queue, the last one to finish closes it, and the consumers take items until the queue is closed and
empty. The queue is first in, first out, refuses puts once it is closed, and still delivers what it
accepted before.
-/

set_option autoImplicit false

namespace ZioBenchmarks.WorkerPool.CloseBased

open ZioBenchmarks.Transition ZioBenchmarks.Fold ZioBenchmarks.Queue

/-- Where a producer is. -/
inductive Producer where
  /-- `while (i < end) : (i += 1) q.putOne(io, i + 1)`. -/
  | put (i e : UInt64)
  /-- `remaining.fetchSub(1, .acq_rel) == 1`. -/
  | fetchSub
  /-- `q.close(io)`. -/
  | close
  | returned
  deriving DecidableEq, Repr

/-- A consumer, and the items it has taken. -/
structure Consumer where
  returned : Bool
  acc : UInt64
  taken : List UInt64
  deriving DecidableEq, Repr

/-- The queue, `producers_remaining`, `results`, and the tasks. -/
structure State (cfg : Config) where
  queue : List UInt64
  closed : Bool
  remaining : UInt64
  results : Fin cfg.numConsumers.toNat → UInt64
  producer : Fin cfg.numProducers.toNat → Producer
  consumer : Fin cfg.numConsumers.toNat → Consumer

/-- What an observer of the queue sees of a step. -/
inductive Label where
  | put (v : UInt64)
  | took (v : UInt64)
  | closed
  | silent
  deriving DecidableEq, Repr

variable {cfg : Config}

/-- The producer `p` continues at `x`. -/
def State.setProducer (s : State cfg) (p : Fin cfg.numProducers.toNat) (x : Producer) : State cfg :=
  { s with producer := Function.update s.producer p x }

/-- The consumer `c` becomes `x`. -/
def State.setConsumer (s : State cfg) (c : Fin cfg.numConsumers.toNat) (x : Consumer) : State cfg :=
  { s with consumer := Function.update s.consumer c x }

section Projections

variable (s : State cfg) (p : Fin cfg.numProducers.toNat) (x : Producer)
  (c : Fin cfg.numConsumers.toNat) (y : Consumer)

@[simp] theorem setProducer_queue : (s.setProducer p x).queue = s.queue := rfl

@[simp] theorem setProducer_closed : (s.setProducer p x).closed = s.closed := rfl

@[simp] theorem setProducer_remaining : (s.setProducer p x).remaining = s.remaining := rfl

@[simp] theorem setProducer_results : (s.setProducer p x).results = s.results := rfl

@[simp] theorem setProducer_consumer : (s.setProducer p x).consumer = s.consumer := rfl

@[simp] theorem setProducer_producer :
    (s.setProducer p x).producer = Function.update s.producer p x := rfl

@[simp] theorem setConsumer_queue : (s.setConsumer c y).queue = s.queue := rfl

@[simp] theorem setConsumer_closed : (s.setConsumer c y).closed = s.closed := rfl

@[simp] theorem setConsumer_remaining : (s.setConsumer c y).remaining = s.remaining := rfl

@[simp] theorem setConsumer_results : (s.setConsumer c y).results = s.results := rfl

@[simp] theorem setConsumer_producer : (s.setConsumer c y).producer = s.producer := rfl

@[simp] theorem setConsumer_consumer :
    (s.setConsumer c y).consumer = Function.update s.consumer c y := rfl

end Projections

/-- One statement of a producer; a put waits while the queue is full. -/
def producerStep (capacity : Nat) (s : State cfg) (p : Fin cfg.numProducers.toNat) :
    Option (Label × State cfg) :=
  match s.producer p with
  | .put i e =>
      if i < e then
        -- `catch return`
        if s.closed then some (.silent, s.setProducer p .returned)
        else if s.queue.length < capacity then
          some (.put (i + 1),
            { s with queue := s.queue ++ [i + 1] }.setProducer p (.put (i + 1) e))
        else none
      else some (.silent, s.setProducer p .fetchSub)
  | .fetchSub =>
      some (.silent, { s with remaining := s.remaining - 1 }.setProducer p
        (if s.remaining = 1 then .close else .returned))
  | .close => some (.closed, { s with closed := true }.setProducer p .returned)
  | .returned => none

/-- One turn of a consumer; it waits while the queue is empty and open. -/
def consumerStep (s : State cfg) (c : Fin cfg.numConsumers.toNat) : Option (Label × State cfg) :=
  let x := s.consumer c
  if x.returned then none
  else
    match s.queue with
    | v :: rest =>
        some (.took v, { s with queue := rest }.setConsumer c
          ⟨false, x.acc ^^^ work v cfg.workIters, x.taken ++ [v]⟩)
    | [] =>
        if s.closed then
          some (.silent, { s with results := Function.update s.results c x.acc }.setConsumer c
            ⟨true, x.acc, x.taken⟩)
        else none

/-- Any task can be the next to execute a step. -/
inductive Act (cfg : Config) where
  | producer (p : Fin cfg.numProducers.toNat)
  | consumer (c : Fin cfg.numConsumers.toNat)

/-- Effect of an action, if it can happen. -/
def act (capacity : Nat) (s : State cfg) : Act cfg → Option (Label × State cfg)
  | .producer p => producerStep capacity s p
  | .consumer c => consumerStep s c

/-- The tasks have just been spawned. -/
def initial (cfg : Config) : State cfg where
  queue := []
  closed := false
  remaining := cfg.numProducers
  results _ := 0
  producer p := .put (cfg.start (UInt64.ofNat p)) (cfg.last (UInt64.ofNat p))
  consumer _ := ⟨false, 0, []⟩

/-- The pool over a queue of the given capacity. -/
def system (cfg : Config) (capacity : Nat) : System (State cfg) Label where
  init s := s = initial cfg
  step s l s' := ∃ a, act capacity s a = some (l, s')

/-- Every task has returned. -/
def State.Finished (s : State cfg) : Prop :=
  (∀ p, s.producer p = .returned) ∧ ∀ c, (s.consumer c).returned = true

/-- The values the queue accepted, in order. -/
def puts (tr : List Label) : List UInt64 :=
  tr.filterMap fun
    | .put v => some v
    | _ => none

/-- The values the queue delivered, in order. -/
def takes (tr : List Label) : List UInt64 :=
  tr.filterMap fun
    | .took v => some v
    | _ => none

/-- How often the queue was closed. -/
def closes (tr : List Label) : Nat := tr.count .closed

/-- The items a producer has yet to put. -/
def Producer.pending : Producer → Multiset UInt64
  | .put i e => todo i e
  | .fetchSub | .close | .returned => 0

/-- The producer has not counted itself out of `remaining`. -/
def Producer.counted : Producer → Nat
  | .put _ _ | .fetchSub => 1
  | .close | .returned => 0

/-- The producer is about to close the queue. -/
def Producer.closing : Producer → Nat
  | .close => 1
  | .put _ _ | .fetchSub | .returned => 0

/-- What a producer has still to do: two steps for an item, one of them by a consumer. -/
def Producer.rank : Producer → Nat
  | .put i e => 2 * (e.toNat - i.toNat) + 2
  | .fetchSub => 1
  | .close | .returned => 0

section Classes

variable (i e : UInt64)

@[simp] theorem pending_put : (Producer.put i e).pending = todo i e := rfl

@[simp] theorem pending_fetchSub : Producer.fetchSub.pending = 0 := rfl

@[simp] theorem pending_close : Producer.close.pending = 0 := rfl

@[simp] theorem pending_returned : Producer.returned.pending = 0 := rfl

@[simp] theorem counted_put : (Producer.put i e).counted = 1 := rfl

@[simp] theorem counted_fetchSub : Producer.fetchSub.counted = 1 := rfl

@[simp] theorem counted_close : Producer.close.counted = 0 := rfl

@[simp] theorem counted_returned : Producer.returned.counted = 0 := rfl

@[simp] theorem closing_put : (Producer.put i e).closing = 0 := rfl

@[simp] theorem closing_fetchSub : Producer.fetchSub.closing = 0 := rfl

@[simp] theorem closing_close : Producer.close.closing = 1 := rfl

@[simp] theorem closing_returned : Producer.returned.closing = 0 := rfl

@[simp] theorem rank_put : (Producer.put i e).rank = 2 * (e.toNat - i.toNat) + 2 := rfl

@[simp] theorem rank_fetchSub : Producer.fetchSub.rank = 1 := rfl

@[simp] theorem rank_close : Producer.close.rank = 0 := rfl

@[simp] theorem rank_returned : Producer.returned.rank = 0 := rfl

end Classes

/-- How often the queue is to be closed, given `producers_remaining`. -/
def due (remaining : UInt64) : Nat := if remaining = 0 then 1 else 0

/-- The invariant of a run. -/
structure Inv (cfg : Config) (tr : List Label) (s : State cfg) : Prop where
  flow : Flow (cfg.items : Multiset UInt64) (∑ p, (s.producer p).pending) (puts tr) (takes tr)
    s.queue
  taken : ∑ c, ((s.consumer c).taken : Multiset UInt64) = takes tr
  remaining : s.remaining.toNat = ∑ p, (s.producer p).counted
  /-- The queue is closed once, by the producer that brings `remaining` to zero. -/
  closing : closes tr + ∑ p, (s.producer p).closing = due s.remaining
  closed : s.closed = true ↔ closes tr ≠ 0
  acc : ∀ c, (s.consumer c).acc = consumer cfg.workIters (s.consumer c).taken
  returned : ∀ c, (s.consumer c).returned = true →
    s.closed = true ∧ s.queue = [] ∧ s.results c = (s.consumer c).acc

variable {tr : List Label} {s s' : State cfg} {l : Label} {capacity : Nat}

theorem initial_inv (cfg : Config) : Inv cfg [] (initial cfg) where
  flow := by
    have hsum : ∑ p, ((initial cfg).producer p).pending = (cfg.items : Multiset UInt64) :=
      sum_shares cfg
    rw [hsum]
    exact Flow.initial _
  taken := by simp [initial, takes]
  remaining := by simp [initial]
  closing := by
    have hne : cfg.numProducers ≠ 0 := by
      intro h
      have hpos := cfg.producers_pos
      rw [h] at hpos
      exact absurd hpos (by decide)
    simp [initial, closes, due, hne]
  closed := by simp [initial, closes]
  acc _ := rfl
  returned c h := by simp [initial] at h

section Labels

variable (v : UInt64)

@[simp] theorem puts_snoc : puts (tr ++ [l]) = puts tr ++ puts [l] := List.filterMap_append ..

@[simp] theorem takes_snoc : takes (tr ++ [l]) = takes tr ++ takes [l] := List.filterMap_append ..

@[simp] theorem closes_snoc : closes (tr ++ [l]) = closes tr + closes [l] := List.count_append ..

@[simp] theorem puts_put : puts [.put v] = [v] := rfl

@[simp] theorem puts_took : puts [.took v] = [] := rfl

@[simp] theorem puts_closed : puts [.closed] = [] := rfl

@[simp] theorem puts_silent : puts [.silent] = [] := rfl

@[simp] theorem takes_put : takes [.put v] = [] := rfl

@[simp] theorem takes_took : takes [.took v] = [v] := rfl

@[simp] theorem takes_closed : takes [.closed] = [] := rfl

@[simp] theorem takes_silent : takes [.silent] = [] := rfl

@[simp] theorem closes_put : closes [.put v] = 0 := rfl

@[simp] theorem closes_took : closes [.took v] = 0 := rfl

@[simp] theorem closes_closed : closes [.closed] = 1 := rfl

@[simp] theorem closes_silent : closes [.silent] = 0 := rfl

end Labels

/-- A closed queue has no producer left that counts. -/
theorem Inv.no_producer (hi : Inv cfg tr s) (hc : s.closed = true) (p : Fin cfg.numProducers.toNat) :
    (s.producer p).counted = 0 := by
  have hcloses := hi.closed.1 hc
  have hclosing := hi.closing
  have hle := le_sum Producer.counted s.producer p
  rw [← hi.remaining] at hle
  rw [due] at hclosing
  split at hclosing
  case isTrue hzero =>
    rw [hzero] at hle
    exact Nat.le_zero.1 hle
  case isFalse => omega

section Steps

variable {p : Fin cfg.numProducers.toNat} {c : Fin cfg.numConsumers.toNat}

/-- A put takes the next item out of what is pending. -/
theorem pending_of_lt {i e : UInt64} (hlt : i < e) :
    (Producer.put i e).pending = {i + 1} + (Producer.put (i + 1) e).pending := by
  rw [pending_put, pending_put, todo_of_lt hlt, Multiset.singleton_add, Multiset.cons_coe]

/-- A producer puts an item. -/
theorem Inv.put (hi : Inv cfg tr s) {i e : UInt64} (hp : s.producer p = .put i e) (hlt : i < e)
    (hopen : s.closed = false) :
    Inv cfg (tr ++ [.put (i + 1)])
      ({ s with queue := s.queue ++ [i + 1] }.setProducer p (.put (i + 1) e)) := by
  have hpending := sum_eq_add_sum_update (g := Producer.pending) (f := s.producer) (i := p)
    (v := .put (i + 1) e) (by rw [hp, pending_of_lt hlt])
  have hcounted := sum_update_eq (g := Producer.counted) (f := s.producer) (i := p)
    (v := .put (i + 1) e) (by rw [hp]; rfl)
  have hclosing := sum_update_eq (g := Producer.closing) (f := s.producer) (i := p)
    (v := .put (i + 1) e) (by rw [hp]; rfl)
  refine ⟨?_, ?_, hi.remaining.trans hcounted.symm, ?_, ?_, hi.acc, fun c hc => ?_⟩
  · simpa using hi.flow.put hpending
  · simpa using hi.taken
  · simpa [hclosing] using hi.closing
  · simpa using hi.closed
  · have hret := (hi.returned c hc).1
    rw [hopen] at hret
    cases hret

/-- A step of a producer that does not touch the queue or what is pending. -/
theorem Inv.producer (hi : Inv cfg tr s) {x : Producer} {remaining : UInt64}
    (hpending : x.pending = (s.producer p).pending)
    (hcounted : remaining.toNat = ∑ q, (Function.update s.producer p x q).counted)
    (hclosing : closes tr + ∑ q, (Function.update s.producer p x q).closing = due remaining) :
    Inv cfg (tr ++ [.silent]) ({ s with remaining := remaining }.setProducer p x) := by
  have hsum := sum_update_eq (f := s.producer) hpending
  refine ⟨?_, ?_, hcounted, ?_, ?_, hi.acc, hi.returned⟩
  · have hflow := hi.flow
    rw [← hsum] at hflow
    simpa using hflow
  · simpa using hi.taken
  · simpa using hclosing
  · simpa using hi.closed

/-- A producer counts itself out. -/
theorem Inv.fetchSub (hi : Inv cfg tr s) (hp : s.producer p = .fetchSub) :
    Inv cfg (tr ++ [.silent]) ({ s with remaining := s.remaining - 1 }.setProducer p
      (if s.remaining = 1 then .close else .returned)) := by
  have hremaining := hi.remaining
  have hclosing := hi.closing
  have hle := le_sum Producer.counted s.producer p
  rw [hp, counted_fetchSub, ← hremaining] at hle
  obtain ⟨hne, hsub, hiff⟩ := countdown hle
  rw [due, if_neg hne] at hclosing
  -- the producer that sees `1` is the last one, and the only one that will close the queue
  by_cases hlast : s.remaining = 1
  · rw [if_pos hlast]
    have hcounted := sum_update Producer.counted s.producer p .close
    have hclose := sum_update Producer.closing s.producer p .close
    rw [hp, counted_fetchSub, counted_close] at hcounted
    rw [hp, closing_fetchSub, closing_close] at hclose
    refine hi.producer (by rw [hp]; rfl) ?_ ?_
    · omega
    · rw [due, if_pos (hiff.2 hlast)]
      omega
  · rw [if_neg hlast]
    have hcounted := sum_update Producer.counted s.producer p .returned
    have hclose := sum_update Producer.closing s.producer p .returned
    rw [hp, counted_fetchSub, counted_returned] at hcounted
    rw [hp, closing_fetchSub, closing_returned] at hclose
    refine hi.producer (by rw [hp]; rfl) ?_ ?_
    · omega
    · rw [due, if_neg (fun h => hlast (hiff.1 h))]
      omega

/-- The last producer closes the queue. -/
theorem Inv.close (hi : Inv cfg tr s) (hp : s.producer p = .close) :
    Inv cfg (tr ++ [.closed]) ({ s with closed := true }.setProducer p .returned) := by
  have hpending := sum_update_eq (g := Producer.pending) (f := s.producer) (i := p)
    (v := .returned) (by rw [hp]; rfl)
  have hcounted := sum_update_eq (g := Producer.counted) (f := s.producer) (i := p)
    (v := .returned) (by rw [hp]; rfl)
  have hclosing := sum_update Producer.closing s.producer p .returned
  rw [hp, closing_close, closing_returned] at hclosing
  have hold := hi.closing
  refine ⟨?_, ?_, hi.remaining.trans hcounted.symm, ?_, ?_, hi.acc, fun c hc => ?_⟩
  · have hflow := hi.flow
    rw [← hpending] at hflow
    simpa using hflow
  · simpa using hi.taken
  · simp only [closes_snoc, closes_closed, setProducer_producer, setProducer_remaining]
    omega
  · simp
  · exact ⟨rfl, (hi.returned c hc).2⟩

/-- A consumer takes the oldest item. -/
theorem Inv.take (hi : Inv cfg tr s) {v : UInt64} {rest : List UInt64} (hq : s.queue = v :: rest)
    {x : Consumer} (hx : s.consumer c = x) :
    Inv cfg (tr ++ [.took v]) ({ s with queue := rest }.setConsumer c
      ⟨false, x.acc ^^^ work v cfg.workIters, x.taken ++ [v]⟩) := by
  -- a consumer returns only from an empty queue
  have hnone : ∀ d, (s.consumer d).returned = false := by
    intro d
    cases hd : (s.consumer d).returned with
    | false => rfl
    | true =>
        have hempty := (hi.returned d hd).2.1
        rw [hq] at hempty
        cases hempty
  have htaken := sum_update_eq_add (g := fun y : Consumer => (y.taken : Multiset UInt64))
    (f := s.consumer) (i := c) (v := ⟨false, x.acc ^^^ work v cfg.workIters, x.taken ++ [v]⟩)
    (a := {v}) (by rw [hx, ← Multiset.coe_add, Multiset.coe_singleton, add_comm])
  refine ⟨?_, ?_, hi.remaining, ?_, ?_, fun d => ?_, fun d hd => ?_⟩
  · have hflow := hi.flow
    rw [hq] at hflow
    simpa using hflow.take
  · rw [hi.taken] at htaken
    rw [takes_snoc, takes_took, setConsumer_consumer, htaken, ← Multiset.coe_add,
      Multiset.coe_singleton, add_comm]
  · simpa using hi.closing
  · simpa using hi.closed
  · rw [setConsumer_consumer]
    by_cases hd : d = c
    · subst hd
      have hacc := hi.acc d
      rw [hx] at hacc
      rw [Function.update_self, hacc, consumer, consumer, List.foldl_append]
      rfl
    · rw [Function.update_of_ne hd]
      exact hi.acc d
  · rw [setConsumer_consumer] at hd
    by_cases heq : d = c
    · subst heq
      rw [Function.update_self] at hd
      cases hd
    · rw [Function.update_of_ne heq, hnone d] at hd
      cases hd

/-- A consumer finds the queue closed and empty. -/
theorem Inv.leave (hi : Inv cfg tr s) (hq : s.queue = []) (hc : s.closed = true) {x : Consumer}
    (hx : s.consumer c = x) :
    Inv cfg (tr ++ [.silent]) ({ s with results := Function.update s.results c x.acc }.setConsumer c
      ⟨true, x.acc, x.taken⟩) := by
  have htaken := sum_update_eq (g := fun y : Consumer => (y.taken : Multiset UInt64))
    (f := s.consumer) (i := c) (v := ⟨true, x.acc, x.taken⟩) (by rw [hx])
  refine ⟨?_, ?_, hi.remaining, ?_, ?_, fun d => ?_, fun d hd => ?_⟩
  · simpa using hi.flow
  · rw [takes_snoc, takes_silent, setConsumer_consumer, htaken, List.append_nil]
    exact hi.taken
  · simpa using hi.closing
  · simpa using hi.closed
  · rw [setConsumer_consumer]
    by_cases hd : d = c
    · subst hd
      have hacc := hi.acc d
      rw [hx] at hacc
      rw [Function.update_self]
      exact hacc
    · rw [Function.update_of_ne hd]
      exact hi.acc d
  · rw [setConsumer_consumer] at hd
    rw [setConsumer_consumer, setConsumer_results]
    refine ⟨hc, hq, ?_⟩
    change Function.update s.results c x.acc d =
      (Function.update s.consumer c ⟨true, x.acc, x.taken⟩ d).acc
    change (Function.update s.consumer c ⟨true, x.acc, x.taken⟩ d).returned = true at hd
    by_cases heq : d = c
    · subst heq
      rw [Function.update_self, Function.update_self]
    · rw [Function.update_of_ne heq] at hd
      rw [Function.update_of_ne heq, Function.update_of_ne heq]
      exact (hi.returned d hd).2.2

end Steps

/-- What one statement of a producer does. -/
theorem producerStep_cases {p : Fin cfg.numProducers.toNat}
    (h : producerStep capacity s p = some (l, s')) :
    (∃ i e, s.producer p = .put i e ∧ i < e ∧ s.closed = true ∧ l = .silent ∧
      s' = s.setProducer p .returned) ∨
    (∃ i e, s.producer p = .put i e ∧ i < e ∧ s.closed = false ∧ s.queue.length < capacity ∧
      l = .put (i + 1) ∧
      s' = { s with queue := s.queue ++ [i + 1] }.setProducer p (.put (i + 1) e)) ∨
    (∃ i e, s.producer p = .put i e ∧ ¬ i < e ∧ l = .silent ∧ s' = s.setProducer p .fetchSub) ∨
    (s.producer p = .fetchSub ∧ l = .silent ∧
      s' = { s with remaining := s.remaining - 1 }.setProducer p
        (if s.remaining = 1 then .close else .returned)) ∨
    (s.producer p = .close ∧ l = .closed ∧
      s' = { s with closed := true }.setProducer p .returned) := by
  unfold producerStep at h
  cases hp : s.producer p with
  | put i e =>
      simp only [hp] at h
      split at h
      case isTrue hlt =>
        split at h
        case isTrue hc =>
          cases h
          exact .inl ⟨i, e, rfl, hlt, hc, rfl, rfl⟩
        case isFalse hopen =>
          split at h
          case isTrue hroom =>
            cases h
            exact .inr (.inl ⟨i, e, rfl, hlt, Bool.eq_false_iff.2 hopen, hroom, rfl, rfl⟩)
          case isFalse => cases h
      case isFalse hge =>
        cases h
        exact .inr (.inr (.inl ⟨i, e, rfl, hge, rfl, rfl⟩))
  | fetchSub =>
      simp only [hp] at h
      cases h
      exact .inr (.inr (.inr (.inl ⟨rfl, rfl, rfl⟩)))
  | close =>
      simp only [hp] at h
      cases h
      exact .inr (.inr (.inr (.inr ⟨rfl, rfl, rfl⟩)))
  | returned => simp [hp] at h

/-- What one turn of a consumer does. -/
theorem consumerStep_cases {c : Fin cfg.numConsumers.toNat}
    (h : consumerStep s c = some (l, s')) :
    (∃ v rest, (s.consumer c).returned ≠ true ∧ s.queue = v :: rest ∧ l = .took v ∧
      s' = { s with queue := rest }.setConsumer c
        ⟨false, (s.consumer c).acc ^^^ work v cfg.workIters, (s.consumer c).taken ++ [v]⟩) ∨
    ((s.consumer c).returned ≠ true ∧ s.queue = [] ∧ s.closed = true ∧ l = .silent ∧
      s' = { s with results := Function.update s.results c (s.consumer c).acc }.setConsumer c
        ⟨true, (s.consumer c).acc, (s.consumer c).taken⟩) := by
  simp only [consumerStep] at h
  split at h
  case isTrue => cases h
  case isFalse hret =>
    split at h
    case h_1 v rest hq =>
      cases h
      exact .inl ⟨v, rest, hret, hq, rfl, rfl⟩
    case h_2 hq =>
      split at h
      case isTrue hc =>
        cases h
        exact .inr ⟨hret, hq, hc, rfl, rfl⟩
      case isFalse => cases h

theorem producerStep_inv (hi : Inv cfg tr s) {p : Fin cfg.numProducers.toNat}
    (h : producerStep capacity s p = some (l, s')) : Inv cfg (tr ++ [l]) s' := by
  obtain ⟨i, e, hp, -, hc, -, -⟩ | ⟨i, e, hp, hlt, hopen, -, rfl, rfl⟩ |
    ⟨i, e, hp, hge, rfl, rfl⟩ | ⟨hp, rfl, rfl⟩ | ⟨hp, rfl, rfl⟩ := producerStep_cases h
  · -- no producer is left once the queue is closed
    have hcounted := hi.no_producer hc p
    rw [hp] at hcounted
    cases hcounted
  · exact hi.put hp hlt hopen
  · have hclosing := sum_update_eq (g := Producer.closing) (f := s.producer) (i := p)
      (v := .fetchSub) (by rw [hp]; rfl)
    have hcounted := sum_update_eq (g := Producer.counted) (f := s.producer) (i := p)
      (v := .fetchSub) (by rw [hp]; rfl)
    refine hi.producer ?_ (hi.remaining.trans hcounted.symm) ?_
    · rw [hp, pending_put, todo_of_not_lt hge]
      rfl
    · rw [hclosing]
      exact hi.closing
  · exact hi.fetchSub hp
  · exact hi.close hp

theorem consumerStep_inv (hi : Inv cfg tr s) {c : Fin cfg.numConsumers.toNat}
    (h : consumerStep s c = some (l, s')) : Inv cfg (tr ++ [l]) s' := by
  obtain ⟨v, rest, -, hq, rfl, rfl⟩ | ⟨-, hq, hc, rfl, rfl⟩ := consumerStep_cases h
  · exact hi.take hq rfl
  · exact hi.leave hq hc rfl

theorem run_inv (h : (system cfg capacity).Run tr s) : Inv cfg tr s := by
  refine System.Run.invariant (I := Inv cfg) ?_ ?_ h
  · rintro _ rfl
    exact initial_inv cfg
  · rintro tr s l s' - hi ⟨a, ha⟩
    cases a with
    | producer p => exact producerStep_inv hi ha
    | consumer c => exact consumerStep_inv hi ha

/-- Once the producers have returned, the queue is closed: a consumer that is left finds an item or the
end. -/
theorem Inv.consumer_progress (hi : Inv cfg tr s) (hp : ∀ p, s.producer p = .returned)
    {c : Fin cfg.numConsumers.toNat} (hret : (s.consumer c).returned ≠ true) :
    ∃ l s', (system cfg capacity).step s l s' := by
  have hzero : s.remaining = 0 := by
    have hremaining := hi.remaining
    simp only [hp, counted_returned, Finset.sum_const_zero] at hremaining
    exact UInt64.toNat_inj.1 hremaining
  have hc : s.closed = true := by
    rw [hi.closed]
    have hclosing := hi.closing
    simp only [hp, closing_returned, Finset.sum_const_zero] at hclosing
    rw [hzero, Nat.add_zero] at hclosing
    rw [hclosing]
    decide
  have hstep : ∃ r, consumerStep s c = some r := by
    simp only [consumerStep, if_neg hret]
    cases s.queue with
    | nil => exact ⟨_, if_pos hc⟩
    | cons v rest => exact ⟨_, rfl⟩
  obtain ⟨⟨l, s'⟩, hs⟩ := hstep
  exact ⟨l, s', .consumer c, hs⟩

/-- A full queue has an item for a consumer, and no consumer has left. -/
theorem Inv.full_progress (hi : Inv cfg tr s) (hne : s.queue ≠ []) :
    ∃ l s', (system cfg capacity).step s l s' := by
  obtain ⟨v, rest, hq⟩ := List.exists_cons_of_ne_nil hne
  have hret : (s.consumer ⟨0, cfg.consumers_pos⟩).returned ≠ true :=
    fun h => hne (hi.returned _ h).2.1
  have hstep : ∃ r, consumerStep s ⟨0, cfg.consumers_pos⟩ = some r := by
    simp only [consumerStep, if_neg hret, hq]
    exact ⟨_, rfl⟩
  obtain ⟨⟨l, s'⟩, hs⟩ := hstep
  exact ⟨l, s', .consumer _, hs⟩

/-- A producer that has not returned can go on, or it waits for a consumer to take an item. -/
theorem Inv.producer_progress (hi : Inv cfg tr s) (hcap : 0 < capacity)
    {p : Fin cfg.numProducers.toNat} (hp : s.producer p ≠ .returned) :
    ∃ l s', (system cfg capacity).step s l s' := by
  cases hpc : s.producer p with
  | put i e =>
      by_cases hroom : s.queue.length < capacity
      · have hstep : ∃ r, producerStep capacity s p = some r := by
          unfold producerStep
          simp only [hpc]
          by_cases hlt : i < e
          · rw [if_pos hlt]
            by_cases hc : s.closed = true
            · exact ⟨_, if_pos hc⟩
            · rw [if_neg hc, if_pos hroom]
              exact ⟨_, rfl⟩
          · exact ⟨_, if_neg hlt⟩
        obtain ⟨⟨l, s'⟩, hs⟩ := hstep
        exact ⟨l, s', .producer p, hs⟩
      · apply hi.full_progress
        intro hempty
        rw [hempty] at hroom
        exact hroom hcap
  | fetchSub => exact ⟨_, _, .producer p, by simp only [act, producerStep, hpc]; rfl⟩
  | close => exact ⟨_, _, .producer p, by simp only [act, producerStep, hpc]; rfl⟩
  | returned => exact absurd hpc hp

/-- Until every task has returned, some task can go on. -/
theorem Inv.progress (hi : Inv cfg tr s) (hcap : 0 < capacity) (hrun : ¬ s.Finished) :
    ∃ l s', (system cfg capacity).step s l s' := by
  by_cases hp : ∀ p, s.producer p = .returned
  · obtain ⟨c, hret⟩ : ∃ c, (s.consumer c).returned ≠ true := by
      by_contra hno
      exact hrun ⟨hp, fun c => by_contra fun h => hno ⟨c, h⟩⟩
    exact hi.consumer_progress hp hret
  · obtain ⟨p, hp⟩ := not_forall.1 hp
    exact hi.producer_progress hcap hp

/-- The items each consumer took. -/
def State.runs (s : State cfg) : List (List UInt64) :=
  (List.finRange cfg.numConsumers.toNat).map fun c => (s.consumer c).taken

theorem Inv.runs_flatten (hi : Inv cfg tr s) :
    ((s.runs.flatten : List UInt64) : Multiset UInt64) = takes tr := by
  rw [State.runs, coe_flatten, hi.taken]

/-- Only a producer closes the queue. -/
theorem act_closed {a : Act cfg} (h : act capacity s a = some (.closed, s')) :
    ∃ p, s.producer p = .close := by
  cases a with
  | producer p =>
      obtain ⟨i, e, -, -, -, hl, -⟩ | ⟨i, e, -, -, -, -, hl, -⟩ | ⟨i, e, -, -, hl, -⟩ |
        ⟨-, hl, -⟩ | ⟨hp, -, -⟩ := producerStep_cases h
      · cases hl
      · cases hl
      · cases hl
      · cases hl
      · exact ⟨p, hp⟩
  | consumer c =>
      obtain ⟨v, rest, -, -, hl, -⟩ | ⟨-, -, -, hl, -⟩ := consumerStep_cases h
      · cases hl
      · cases hl

/-- A producer that is about to close the queue is the last one, and nothing is pending. -/
theorem Inv.last (hi : Inv cfg tr s) {p : Fin cfg.numProducers.toNat}
    (hp : s.producer p = .close) :
    closes tr = 0 ∧ ∑ p, (s.producer p).pending = 0 := by
  have hle := le_sum Producer.closing s.producer p
  rw [hp, closing_close] at hle
  have hclosing := hi.closing
  have hremaining := hi.remaining
  rw [due] at hclosing
  -- a producer that closes is the one `due` stands for, so `remaining` is zero
  split at hclosing
  case isFalse => omega
  case isTrue hzero =>
    refine ⟨by omega, ?_⟩
    apply Finset.sum_eq_zero
    intro q _
    have hcounted := le_sum Producer.counted s.producer q
    rw [← hremaining, hzero] at hcounted
    cases hq : s.producer q with
    | put i e =>
        rw [hq, counted_put] at hcounted
        exact absurd hcounted (by decide)
    | fetchSub | close | returned => rfl

/-- The producer that is about to close the queue is the only one that ever does. -/
theorem Inv.open_of_close (hi : Inv cfg tr s) {p : Fin cfg.numProducers.toNat}
    (hp : s.producer p = .close) : s.closed = false := by
  rw [Bool.eq_false_iff, ne_eq, hi.closed, not_not]
  exact (hi.last hp).1

/-! ## How long a run is -/

/-- A consumer that has not returned. -/
def left (x : Consumer) : Nat := if x.returned then 0 else 1

/-- What the tasks have still to do, with the close. -/
def State.rank (s : State cfg) : Nat :=
  ∑ p, (s.producer p).rank + s.queue.length + ∑ c, left (s.consumer c) + (!s.closed).toNat

theorem initial_rank (cfg : Config) : (initial cfg).rank =
    2 * cfg.numItems.toNat + 2 * cfg.numProducers.toNat + cfg.numConsumers.toNat + 1 := by
  have hshares : ∑ p, ((initial cfg).producer p).rank =
      2 * cfg.numItems.toNat + 2 * cfg.numProducers.toNat := by
    simp only [initial, rank_put]
    rw [Finset.sum_add_distrib, ← Finset.mul_sum, sum_share_lengths, Finset.sum_const,
      Finset.card_univ, Fintype.card_fin, smul_eq_mul, Nat.mul_comm 2 cfg.numProducers.toNat]
  rw [State.rank, hshares]
  simp [initial, left]

theorem producerStep_rank (hi : Inv cfg tr s) {p : Fin cfg.numProducers.toNat}
    (h : producerStep capacity s p = some (l, s')) : s'.rank < s.rank := by
  have hsum := fun x => sum_update Producer.rank s.producer p x
  obtain ⟨i, e, hp, -, hc, -, -⟩ | ⟨i, e, hp, hlt, -, -, -, rfl⟩ | ⟨i, e, hp, -, -, rfl⟩ |
    ⟨hp, -, rfl⟩ | ⟨hp, -, rfl⟩ := producerStep_cases h
  · have hcounted := hi.no_producer hc p
    rw [hp] at hcounted
    cases hcounted
  · have hnat := hlt
    rw [UInt64.lt_iff_toNat_lt] at hnat
    have hx := hsum (.put (i + 1) e)
    rw [hp, rank_put, rank_put, toNat_succ_of_lt hlt] at hx
    simp only [State.rank, setProducer_producer, setProducer_queue, setProducer_consumer,
      setProducer_closed, List.length_append, List.length_singleton]
    omega
  · have hx := hsum .fetchSub
    rw [hp, rank_put, rank_fetchSub] at hx
    simp only [State.rank, setProducer_producer, setProducer_queue, setProducer_consumer,
      setProducer_closed]
    omega
  · have hnext : (if s.remaining = 1 then Producer.close else .returned).rank = 0 := by
      split <;> rfl
    have hx := hsum (if s.remaining = 1 then .close else .returned)
    rw [hp, hnext, rank_fetchSub] at hx
    simp only [State.rank, setProducer_producer, setProducer_queue, setProducer_consumer,
      setProducer_closed]
    omega
  · have hx := hsum .returned
    rw [hp, rank_close, rank_returned] at hx
    simp only [State.rank, setProducer_producer, setProducer_queue, setProducer_consumer,
      setProducer_closed, hi.open_of_close hp, Bool.not_true, Bool.not_false, Bool.toNat_true,
      Bool.toNat_false]
    omega

theorem consumerStep_rank {c : Fin cfg.numConsumers.toNat}
    (h : consumerStep s c = some (l, s')) : s'.rank < s.rank := by
  have hsum : ∀ x, (s.consumer c).returned ≠ true →
      ∑ d, left (Function.update s.consumer c x d) + 1 = ∑ d, left (s.consumer d) + left x := by
    intro x hret
    have h := sum_update left s.consumer c x
    rwa [show left (s.consumer c) = 1 from if_neg hret] at h
  obtain ⟨v, rest, hret, hq, -, rfl⟩ | ⟨hret, -, -, -, rfl⟩ := consumerStep_cases h
  · have hx := hsum
      ⟨false, (s.consumer c).acc ^^^ work v cfg.workIters, (s.consumer c).taken ++ [v]⟩ hret
    rw [show left ⟨false, (s.consumer c).acc ^^^ work v cfg.workIters,
      (s.consumer c).taken ++ [v]⟩ = 1 from rfl] at hx
    simp only [State.rank, setConsumer_producer, setConsumer_queue, setConsumer_consumer,
      setConsumer_closed, hq, List.length_cons]
    omega
  · have hx := hsum ⟨true, (s.consumer c).acc, (s.consumer c).taken⟩ hret
    rw [show left ⟨true, (s.consumer c).acc, (s.consumer c).taken⟩ = 0 from rfl] at hx
    simp only [State.rank, setConsumer_producer, setConsumer_queue, setConsumer_consumer,
      setConsumer_closed]
    omega

/-- Every step brings the end nearer. -/
theorem step_rank (h : (system cfg capacity).Reachable s)
    (hstep : (system cfg capacity).step s l s') : s'.rank < s.rank := by
  obtain ⟨tr, hr⟩ := h
  obtain ⟨a, ha⟩ := hstep
  cases a with
  | producer p => exact producerStep_rank (run_inv hr) ha
  | consumer c => exact consumerStep_rank ha

/-- A run has two steps for an item, two for a producer, one for a consumer and the close. -/
theorem run_length (h : (system cfg capacity).Run tr s) : tr.length ≤
    2 * cfg.numItems.toNat + 2 * cfg.numProducers.toNat + cfg.numConsumers.toNat + 1 := by
  obtain ⟨a, rfl, hp⟩ := h
  have hlength := hp.length_le (μ := State.rank) (fun _ _ _ hr hs => step_rank hr hs)
    (System.Run.nil rfl).reachable
  rw [initial_rank] at hlength
  omega

/-- From every state of a run the pool can go on until all tasks have returned. -/
theorem exists_finished (hcap : 0 < capacity) (h : (system cfg capacity).Run tr s) :
    ∃ us s', (system cfg capacity).Path s us s' ∧ s'.Finished := by
  refine System.Reachable.exists_final (μ := State.rank) (fun _ _ _ hr hs => step_rank hr hs) ?_
    h.reachable
  rintro t ⟨us, ht⟩ hrun
  exact (run_inv ht).progress hcap hrun

/-- When all tasks have returned, the queue was closed once, the items were taken exactly once, and
the results of the consumers combine to the checksum of the items. -/
theorem Inv.finished (hi : Inv cfg tr s) (hfinished : s.Finished) :
    closes tr = 1 ∧ (takes tr).Perm cfg.items ∧ s.runs.flatten.Perm cfg.items ∧
      checksum (List.ofFn s.results) =
        xorAll (cfg.items.map fun item => work item cfg.workIters) := by
  obtain ⟨hproducers, hconsumers⟩ := hfinished
  -- some consumer returned, so the queue was closed and empty
  have hclosed := hi.returned ⟨0, cfg.consumers_pos⟩ (hconsumers _)
  have hpending : ∑ p, (s.producer p).pending = 0 := by
    simp [hproducers]
  have hflow := hi.flow
  rw [hpending, hclosed.2.1] at hflow
  have htakes : (takes tr).Perm cfg.items := Multiset.coe_eq_coe.1 hflow.done
  have hruns : s.runs.flatten.Perm cfg.items :=
    (Multiset.coe_eq_coe.1 hi.runs_flatten).trans htakes
  refine ⟨?_, htakes, hruns, ?_⟩
  · have hcloses := hi.closed.1 hclosed.1
    have hclosing := hi.closing
    rw [due] at hclosing
    split at hclosing <;> omega
  -- each result is what its consumer combined from the items it took
  · have hresults : List.ofFn s.results = s.runs.map (consumer cfg.workIters) := by
      rw [List.ofFn_eq_map, State.runs, List.map_map]
      apply List.map_congr_left
      intro c _
      rw [Function.comp_apply, (hi.returned c (hconsumers c)).2.2, hi.acc c]
    rw [hresults, checksum_of_perm hruns]

/-- The pool processes every item exactly once. The queue is closed once, after it has accepted every
item; until all tasks have returned, some task can go on; a run has at most two steps for an item,
two for a producer, one for a consumer and the close, and from each of its states the pool can go on
until all tasks have returned; and then the queue was closed, the consumers have taken each item
exactly once, and `main` computes the checksum of the items. -/
theorem close_based_pool (hcap : 0 < capacity) (h : (system cfg capacity).Run tr s) :
    (∀ s', (system cfg capacity).step s .closed s' →
      closes tr = 0 ∧ (puts tr).Perm cfg.items) ∧
    (¬ s.Finished → ∃ l s', (system cfg capacity).step s l s') ∧
    tr.length ≤
      2 * cfg.numItems.toNat + 2 * cfg.numProducers.toNat + cfg.numConsumers.toNat + 1 ∧
    (∃ us s', (system cfg capacity).Path s us s' ∧ s'.Finished) ∧
    (s.Finished →
      closes tr = 1 ∧ (takes tr).Perm cfg.items ∧ s.runs.flatten.Perm cfg.items ∧
      checksum (List.ofFn s.results) =
        xorAll (cfg.items.map fun item => work item cfg.workIters)) := by
  have hi := run_inv h
  refine ⟨?_, hi.progress hcap, run_length h, exists_finished hcap h, hi.finished⟩
  rintro s' ⟨a, ha⟩
  obtain ⟨p, hp⟩ := act_closed ha
  obtain ⟨hcloses, hpending⟩ := hi.last hp
  have hflow := hi.flow
  rw [hpending] at hflow
  exact ⟨hcloses, Multiset.coe_eq_coe.1 hflow.all_put⟩

theorem run_of_replay {as : List (Act cfg)} {r : List Label × State cfg}
    (h : System.replay (act capacity) (initial cfg) as = some r) :
    (system cfg capacity).Run r.1 r.2 :=
  System.Run.of_replay (T := system cfg capacity) (fun _ a _ _ ha => ⟨a, ha⟩) rfl h

/-- One producer and one consumer for one item. -/
def oneItem : Config := ⟨1, 1, 1, 1, by decide, by decide, by decide⟩

/-- The one task of its kind. -/
def only : Fin 1 := ⟨0, Nat.one_pos⟩

/-- The producer does all it has to do before the consumer starts. -/
def oneItemRun : List Label × State oneItem :=
  (System.replay (act 1) (initial oneItem)
    [.producer only, .producer only, .producer only, .producer only, .consumer only,
      .consumer only]).get rfl

/-- The item is put, the queue is closed, and the item is taken. -/
theorem close_based_pool_oneItem :
    ∃ s, (system oneItem 1).Run [.put 1, .silent, .silent, .closed, .took 1, .silent] s ∧
      s.Finished ∧ s.runs.flatten.Perm [1] ∧ checksum (List.ofFn s.results) = xorAll [work 1 1] := by
  have h : (system oneItem 1).Run oneItemRun.1 oneItemRun.2 :=
    run_of_replay (Option.some_get _).symm
  have hone : ∀ q : Fin 1, q = 0 := fun q => Subsingleton.elim q 0
  have hfinished : oneItemRun.2.Finished :=
    ⟨fun q => by rw [hone q]; rfl, fun q => by rw [hone q]; rfl⟩
  exact ⟨_, h, hfinished, ((close_based_pool Nat.one_pos h).2.2.2.2 hfinished).2.2⟩

end ZioBenchmarks.WorkerPool.CloseBased
