import ZioBenchmarks.Fold.Update
import ZioBenchmarks.Queue.Flow
import ZioBenchmarks.WorkerPool.Sentinel.Pool

/-!
# The sending side of the pools with sentinels

Every item and every sentinel is pending, in the queue, or taken, and a sentinel is put when no
producer has an item left: `remaining` says so in the one program, `producers_done` in the other.
`Sending` is kept by every step.
-/

set_option autoImplicit false

namespace ZioBenchmarks.WorkerPool.Sentinel

open ZioBenchmarks.Transition ZioBenchmarks.Fold ZioBenchmarks.Queue

variable {cfg : Config}

/-- The turns that the loop over the sentinels has left. -/
def left (consumers c : UInt64) : Nat := consumers.toNat - c.toNat

theorem left_zero (consumers : UInt64) : left consumers 0 = consumers.toNat := rfl

theorem left_of_lt {consumers c : UInt64} (h : c < consumers) :
    left consumers c = left consumers (c + 1) + 1 := by
  rw [left, left, toNat_succ_of_lt h]
  rw [UInt64.lt_iff_toNat_lt] at h
  omega

theorem left_of_not_lt {consumers c : UInt64} (h : ¬ c < consumers) : left consumers c = 0 := by
  rw [UInt64.lt_iff_toNat_lt] at h
  exact Nat.sub_eq_zero_of_le (Nat.le_of_not_lt h)

/-- The items a producer has yet to put. -/
def Producer.pending : Producer → Multiset UInt64
  | .put i e => todo i e
  | .finish | .stop _ | .returned => 0

/-- The producer has not reported that it is through its share. -/
def Producer.counted : Producer → Nat
  | .put _ _ | .finish => 1
  | .stop _ | .returned => 0

/-- The sentinels a producer has yet to put. -/
def Producer.due (consumers : UInt64) : Producer → Nat
  | .stop c => left consumers c
  | .put _ _ | .finish | .returned => 0

/-- The sentinels `main` has yet to put. -/
def Main.due (consumers : UInt64) : Main → Nat
  | .waitProducers => consumers.toNat
  | .stop c => left consumers c
  | .waitConsumers | .join | .returned => 0

section Classes

variable (i e c consumers : UInt64)

@[simp] theorem pending_put : (Producer.put i e).pending = todo i e := rfl

@[simp] theorem pending_finish : Producer.finish.pending = 0 := rfl

@[simp] theorem pending_stop : (Producer.stop c).pending = 0 := rfl

@[simp] theorem pending_returned : Producer.returned.pending = 0 := rfl

@[simp] theorem counted_put : (Producer.put i e).counted = 1 := rfl

@[simp] theorem counted_finish : Producer.finish.counted = 1 := rfl

@[simp] theorem counted_stop : (Producer.stop c).counted = 0 := rfl

@[simp] theorem counted_returned : Producer.returned.counted = 0 := rfl

@[simp] theorem due_put : (Producer.put i e).due consumers = 0 := rfl

@[simp] theorem due_finish : Producer.finish.due consumers = 0 := rfl

@[simp] theorem due_stop : (Producer.stop c).due consumers = left consumers c := rfl

@[simp] theorem due_returned : Producer.returned.due consumers = 0 := rfl

@[simp] theorem mainDue_waitProducers : Main.waitProducers.due consumers = consumers.toNat := rfl

@[simp] theorem mainDue_stop : (Main.stop c).due consumers = left consumers c := rfl

@[simp] theorem mainDue_waitConsumers : Main.waitConsumers.due consumers = 0 := rfl

@[simp] theorem mainDue_join : Main.join.due consumers = 0 := rfl

@[simp] theorem mainDue_returned : Main.returned.due consumers = 0 := rfl

end Classes

/-- The sentinels that the last producer will put, before there is a last one. -/
def unstarted (consumers : UInt64) : Variant → UInt64 → Nat
  | .asio, remaining => if remaining = 0 then 0 else consumers.toNat
  | .photon, _ => 0

/-- The items that are still to be put. -/
def State.pending (s : State cfg) : Multiset UInt64 := ∑ p, (s.producer p).pending

/-- The producers that have not reported. -/
def State.counted (s : State cfg) : Nat := ∑ p, (s.producer p).counted

/-- The sentinels the producers are putting. -/
def State.stopping (s : State cfg) : Nat := ∑ p, (s.producer p).due cfg.numConsumers

/-- The sentinels that are still to be put. -/
def State.due (v : Variant) (s : State cfg) : Nat :=
  unstarted cfg.numConsumers v s.remaining + s.stopping + s.main.due cfg.numConsumers

/-- What counts the producers that have not reported: `remaining` in the one program, and
`producers_done`, until `main` has waited for it, in the other. -/
def Control : Variant → State cfg → Prop
  | .asio, s => s.remaining.toNat = s.counted ∧ (s.main = .join ∨ s.main = .returned)
  | .photon, s =>
      s.producersDone + s.counted = (if s.main = .waitProducers then cfg.numProducers.toNat else 0) ∧
        s.main ≠ .join

/-- All values that go through the queue. -/
def values (cfg : Config) : Multiset UInt64 :=
  (cfg.items : Multiset UInt64) + Multiset.replicate cfg.numConsumers.toNat 0

/-- A sentinel is put when no producer counts any more, so no item follows one. -/
structure Sending (v : Variant) (cfg : Config) (tr : List (Label cfg)) (s : State cfg) : Prop where
  flow : Flow (values cfg) (s.pending + Multiset.replicate (s.due v) 0) (puts tr) (takes tr) s.queue
  ordered : (puts tr).Pairwise fun a b => a = 0 → b = 0
  started : 0 ∈ puts tr → s.counted = 0
  stop : ∀ p c, s.producer p = .stop c → s.counted = 0
  control : Control v s

section Sums

variable (s : State cfg) (p : Fin cfg.numProducers.toNat) (x : Producer)

theorem pending_setProducer :
    (s.setProducer p x).pending + (s.producer p).pending = s.pending + x.pending :=
  sum_update Producer.pending s.producer p x

theorem counted_setProducer :
    (s.setProducer p x).counted + (s.producer p).counted = s.counted + x.counted :=
  sum_update Producer.counted s.producer p x

theorem stopping_setProducer :
    (s.setProducer p x).stopping + (s.producer p).due cfg.numConsumers =
      s.stopping + x.due cfg.numConsumers :=
  sum_update (Producer.due cfg.numConsumers) s.producer p x

theorem counted_le : (s.producer p).counted ≤ s.counted :=
  le_sum Producer.counted s.producer p

end Sums

section Sending

variable {v : Variant} {tr : List (Label cfg)} {s s' : State cfg} {l : Label cfg}
  {p : Fin cfg.numProducers.toNat}

/-- A step that none of the counters sees. -/
theorem Control.congr (h : Control v s) (hremaining : s'.remaining = s.remaining)
    (hdone : s'.producersDone = s.producersDone) (hmain : s'.main = s.main)
    (hcounted : s'.counted = s.counted) : Control v s' := by
  cases v with
  | asio =>
      rw [Control, hremaining, hmain, hcounted]
      exact h
  | photon =>
      rw [Control, hdone, hmain, hcounted]
      exact h

/-- A step that neither puts nor takes anything. -/
theorem Sending.silent (hi : Sending v cfg tr s) (hputs : puts [l] = []) (htakes : takes [l] = [])
    (hqueue : s'.queue = s.queue) (hpending : s'.pending = s.pending) (hdue : s'.due v = s.due v)
    (hcounted : s'.counted ≤ s.counted)
    (hstop : ∀ q c, s'.producer q = .stop c → s'.counted = 0) (hcontrol : Control v s') :
    Sending v cfg (tr ++ [l]) s' where
  flow := by
    rw [puts_snoc, hputs, takes_snoc, htakes, List.append_nil, List.append_nil, hqueue, hpending,
      hdue]
    exact hi.flow
  ordered := by
    rw [puts_snoc, hputs, List.append_nil]
    exact hi.ordered
  started h := by
    rw [puts_snoc, hputs, List.append_nil] at h
    have hzero := hi.started h
    omega
  stop := hstop
  control := hcontrol

/-- A sentinel is put. -/
theorem Sending.putSentinel (hi : Sending v cfg tr s) (hqueue : s'.queue = s.queue ++ [0])
    (hpending : s'.pending = s.pending) (hdue : s.due v = s'.due v + 1) (hcounted : s'.counted = 0)
    (hcontrol : Control v s') : Sending v cfg (tr ++ [.put 0]) s' where
  flow := by
    have hnext : s.pending + Multiset.replicate (s.due v) 0 =
        {0} + (s'.pending + Multiset.replicate (s'.due v) 0) := by
      rw [hdue, hpending, Multiset.replicate_succ, ← Multiset.singleton_add]
      ac_rfl
    simpa [hqueue] using hi.flow.put hnext
  ordered := by
    rw [puts_snoc, puts_put, List.pairwise_append]
    refine ⟨hi.ordered, List.pairwise_singleton _ _, ?_⟩
    intro _ _ b hb _
    exact List.mem_singleton.1 hb
  started _ := hcounted
  stop _ _ _ := hcounted
  control := hcontrol

/-- An item is put. -/
theorem Sending.putItem (hi : Sending v cfg tr s) {i e : UInt64} (hp : s.producer p = .put i e)
    (hlt : i < e) :
    Sending v cfg (tr ++ [.put (i + 1)])
      ((s.enqueue (i + 1)).setProducer p (.put (i + 1) e)) := by
  have hcounted := counted_setProducer (s.enqueue (i + 1)) p (.put (i + 1) e)
  have hstopping := stopping_setProducer (s.enqueue (i + 1)) p (.put (i + 1) e)
  have hpending := pending_setProducer (s.enqueue (i + 1)) p (.put (i + 1) e)
  rw [enqueue_producer, hp] at hcounted hstopping hpending
  have hcounted' := Nat.add_right_cancel hcounted
  have hdue : ((s.enqueue (i + 1)).setProducer p (.put (i + 1) e)).due v = s.due v := by
    rw [State.due, Nat.add_right_cancel hstopping]
    rfl
  have hnext : s.pending =
      {i + 1} + ((s.enqueue (i + 1)).setProducer p (.put (i + 1) e)).pending := by
    rw [pending_put, pending_put, todo_of_lt hlt, ← Multiset.cons_coe, ← Multiset.singleton_add,
      ← add_assoc, add_left_inj] at hpending
    rw [add_comm, hpending]
    rfl
  -- a producer that has something to put still counts, so there is no sentinel yet
  have hle := counted_le s p
  rw [hp, counted_put] at hle
  have hnone : 0 ∉ puts tr := by
    intro hzero
    have := hi.started hzero
    omega
  have hne : (0 : UInt64) ≠ i + 1 := by
    intro hzero
    have hval := congrArg UInt64.toNat hzero
    rw [toNat_succ_of_lt hlt, UInt64.toNat_zero] at hval
    omega
  refine ⟨?_, ?_, ?_, ?_, ?_⟩
  · have hnext' : s.pending + Multiset.replicate (s.due v) 0 =
        {i + 1} + (((s.enqueue (i + 1)).setProducer p (.put (i + 1) e)).pending +
          Multiset.replicate (s.due v) 0) := by
      rw [hnext]
      ac_rfl
    simpa [hdue] using hi.flow.put hnext'
  · rw [puts_snoc, puts_put, List.pairwise_append]
    refine ⟨hi.ordered, List.pairwise_singleton _ _, ?_⟩
    intro a ha _ _ hzero
    rw [hzero] at ha
    exact absurd ha hnone
  · intro hzero
    rw [puts_snoc, puts_put, List.mem_append, List.mem_singleton] at hzero
    exact absurd hzero (not_or.2 ⟨hnone, hne⟩)
  · intro q c hq
    rw [setProducer_producer, enqueue_producer] at hq
    by_cases heq : q = p
    · subst heq
      rw [Function.update_self] at hq
      cases hq
    · rw [Function.update_of_ne heq] at hq
      have := hi.stop q c hq
      omega
  · exact hi.control.congr rfl rfl rfl hcounted'

/-- The oldest value is taken. -/
theorem Sending.take (hi : Sending v cfg tr s) {item : UInt64} {rest : List UInt64}
    (hqueue : s.queue = item :: rest) (c : Fin cfg.numConsumers.toNat) (x : Consumer) :
    Sending v cfg (tr ++ [.took c item]) ({ s with queue := rest }.setConsumer c x) where
  flow := by
    have hflow := hi.flow
    rw [hqueue] at hflow
    rw [puts_snoc, puts_took, takes_snoc, takes_took, List.append_nil]
    exact hflow.take
  ordered := by simpa using hi.ordered
  started h := hi.started (by simpa using h)
  stop := hi.stop
  control := hi.control.congr rfl rfl rfl rfl

/-- A step of a producer, given what becomes of the sums. -/
theorem Sending.producer (hi : Sending v cfg tr s) (hputs : puts [l] = []) (htakes : takes [l] = [])
    (x : Producer) (hqueue : s'.queue = s.queue)
    (hproducer : s'.producer = Function.update s.producer p x)
    (hpending : x.pending = (s.producer p).pending) (hdue : s'.due v = s.due v)
    (hcounted : x.counted ≤ (s.producer p).counted)
    (hstop : ∀ c, x = .stop c → s'.counted = 0) (hcontrol : Control v s') :
    Sending v cfg (tr ++ [l]) s' := by
  have hpending' : s'.pending + (s.producer p).pending = s.pending + x.pending := by
    rw [State.pending, hproducer]
    exact sum_update Producer.pending s.producer p x
  have hcounted' : s'.counted + (s.producer p).counted = s.counted + x.counted := by
    rw [State.counted, hproducer]
    exact sum_update Producer.counted s.producer p x
  rw [hpending, add_left_inj] at hpending'
  refine hi.silent hputs htakes hqueue hpending' hdue (by omega) ?_ hcontrol
  intro q c hq
  rw [hproducer] at hq
  by_cases heq : q = p
  · subst heq
    rw [Function.update_self] at hq
    exact hstop c hq
  · rw [Function.update_of_ne heq] at hq
    have := hi.stop q c hq
    omega

/-- A producer's loop ends. -/
theorem Sending.endShare (hi : Sending v cfg tr s) {i e : UInt64} (hp : s.producer p = .put i e)
    (hge : ¬ i < e) : Sending v cfg (tr ++ [.silent]) (s.setProducer p .finish) := by
  have hcounted := counted_setProducer s p .finish
  have hstopping := stopping_setProducer s p .finish
  rw [hp] at hcounted hstopping
  have hcounted' := Nat.add_right_cancel hcounted
  refine hi.producer rfl rfl .finish rfl rfl ?_ ?_ (by rw [hp]; rfl) (by intro c hc; cases hc) ?_
  · rw [hp, pending_put, todo_of_not_lt hge]
    rfl
  · rw [State.due, Nat.add_right_cancel hstopping]
    rfl
  · exact hi.control.congr rfl rfl rfl hcounted'

/-- A producer of the one program reports; the last one is to put the sentinels. -/
theorem Sending.fetchSub (hi : Sending .asio cfg tr s) (hp : s.producer p = .finish) :
    Sending .asio cfg (tr ++ [.silent]) ({ s with remaining := s.remaining - 1 }.setProducer p
      (if s.remaining = 1 then .stop 0 else .returned)) := by
  obtain ⟨hremaining, hmain⟩ := hi.control
  have hle := counted_le s p
  rw [hp, counted_finish, ← hremaining] at hle
  obtain ⟨hne, hsub, hiff⟩ := countdown hle
  -- the producer that sees `1` takes over the sentinels that nobody had started
  by_cases hlast : s.remaining = 1
  · rw [if_pos hlast]
    have hcounted := counted_setProducer { s with remaining := s.remaining - 1 } p (.stop 0)
    have hstopping := stopping_setProducer { s with remaining := s.remaining - 1 } p (.stop 0)
    change _ + (s.producer p).counted = s.counted + _ at hcounted
    change _ + (s.producer p).due _ = s.stopping + _ at hstopping
    rw [hp, counted_finish, counted_stop] at hcounted
    rw [hp, due_finish, due_stop, left_zero] at hstopping
    have hval : s.remaining.toNat = 1 := by
      rw [hlast]
      rfl
    refine hi.producer rfl rfl (.stop 0) rfl rfl (by rw [hp]; rfl) ?_ (Nat.zero_le _)
      (fun _ _ => by omega) ⟨?_, hmain⟩
    · rw [State.due, State.due, unstarted, unstarted, if_neg hne, setProducer_remaining,
        if_pos (hiff.2 hlast), setProducer_main]
      dsimp only
      omega
    · change (s.remaining - 1).toNat = _
      omega
  · rw [if_neg hlast]
    have hcounted := counted_setProducer { s with remaining := s.remaining - 1 } p .returned
    have hstopping := stopping_setProducer { s with remaining := s.remaining - 1 } p .returned
    change _ + (s.producer p).counted = s.counted + _ at hcounted
    change _ + (s.producer p).due _ = s.stopping + _ at hstopping
    rw [hp, counted_finish, counted_returned] at hcounted
    rw [hp, due_finish, due_returned] at hstopping
    refine hi.producer rfl rfl .returned rfl rfl (by rw [hp]; rfl) ?_ (Nat.zero_le _)
      (by intro c hc; cases hc) ⟨?_, hmain⟩
    · rw [State.due, State.due, unstarted, unstarted, if_neg hne, setProducer_remaining,
        if_neg (fun h => hlast (hiff.1 h)), setProducer_main]
      dsimp only
      omega
    · change (s.remaining - 1).toNat = _
      omega

/-- A producer of the other program reports. -/
theorem Sending.signal (hi : Sending .photon cfg tr s) (hp : s.producer p = .finish) :
    Sending .photon cfg (tr ++ [.silent])
      ({ s with producersDone := s.producersDone + 1 }.setProducer p .returned) := by
  obtain ⟨hdone, hmain⟩ := hi.control
  have hcounted := counted_setProducer { s with producersDone := s.producersDone + 1 } p .returned
  have hstopping := stopping_setProducer { s with producersDone := s.producersDone + 1 } p .returned
  change _ + (s.producer p).counted = s.counted + _ at hcounted
  change _ + (s.producer p).due _ = s.stopping + _ at hstopping
  rw [hp, counted_finish, counted_returned] at hcounted
  rw [hp, due_finish, due_returned] at hstopping
  refine hi.producer rfl rfl .returned rfl rfl (by rw [hp]; rfl) ?_ (Nat.zero_le _)
    (by intro c hc; cases hc) ⟨?_, hmain⟩
  · rw [State.due, Nat.add_right_cancel hstopping]
    rfl
  · rw [setProducer_producersDone, setProducer_main, ← hdone]
    dsimp only
    omega

/-- The last producer puts a sentinel. -/
theorem Sending.stopOne (hi : Sending v cfg tr s) {c : UInt64} (hp : s.producer p = .stop c)
    (hlt : c < cfg.numConsumers) :
    Sending v cfg (tr ++ [.put 0]) ((s.enqueue 0).setProducer p (.stop (c + 1))) := by
  have hzero := hi.stop p c hp
  have hpending := pending_setProducer (s.enqueue 0) p (.stop (c + 1))
  have hcounted := counted_setProducer (s.enqueue 0) p (.stop (c + 1))
  have hstopping := stopping_setProducer (s.enqueue 0) p (.stop (c + 1))
  rw [enqueue_producer, hp] at hpending hcounted hstopping
  have hcounted' := Nat.add_right_cancel hcounted
  rw [due_stop, due_stop, left_of_lt hlt, ← add_assoc, add_right_comm] at hstopping
  have hstopping' : _ = s.stopping := Nat.add_right_cancel hstopping
  refine hi.putSentinel rfl (add_right_cancel hpending) ?_ (hcounted'.trans hzero) ?_
  · rw [State.due, State.due, setProducer_remaining, setProducer_main, enqueue_remaining,
      enqueue_main]
    omega
  · exact hi.control.congr rfl rfl rfl hcounted'

/-- The last producer has put all sentinels. -/
theorem Sending.stopEnd (hi : Sending v cfg tr s) {c : UInt64} (hp : s.producer p = .stop c)
    (hge : ¬ c < cfg.numConsumers) :
    Sending v cfg (tr ++ [.silent]) (s.setProducer p .returned) := by
  have hcounted := counted_setProducer s p .returned
  have hstopping := stopping_setProducer s p .returned
  rw [hp] at hcounted hstopping
  have hcounted' := Nat.add_right_cancel hcounted
  rw [due_stop, left_of_not_lt hge] at hstopping
  refine hi.producer rfl rfl .returned rfl rfl (by rw [hp]; rfl) ?_ (Nat.zero_le _)
    (by intro c hc; cases hc) ?_
  · rw [State.due, Nat.add_right_cancel hstopping]
    rfl
  · exact hi.control.congr rfl rfl rfl hcounted'

/-- Only the one program has a `main` that does more than join. -/
theorem Sending.photon (hi : Sending v cfg tr s) (hjoin : s.main ≠ .join)
    (hreturned : s.main ≠ .returned) : v = .photon := by
  have hcontrol := hi.control
  cases v with
  | asio => exact absurd hcontrol.2 (not_or.2 ⟨hjoin, hreturned⟩)
  | photon => rfl

/-- While `main` puts sentinels, no producer counts. -/
theorem Sending.main_stop (hi : Sending v cfg tr s) {c : UInt64} (hmain : s.main = .stop c) :
    v = .photon ∧ s.counted = 0 := by
  obtain rfl := hi.photon (by rw [hmain]; intro h; cases h) (by rw [hmain]; intro h; cases h)
  have hdone := hi.control.1
  rw [hmain, if_neg (by intro h; cases h)] at hdone
  exact ⟨rfl, by omega⟩

theorem mainStep_sending (hi : Sending v cfg tr s) (h : mainStep s = some (l, s')) :
    Sending v cfg (tr ++ [l]) s' := by
  obtain ⟨hmain, hle, rfl, rfl⟩ | ⟨c, hmain, hlt, -, rfl, rfl⟩ | ⟨c, hmain, hge, rfl, rfl⟩ |
    ⟨hmain, -, rfl, rfl⟩ | ⟨hmain, -, -, rfl, rfl⟩ := mainStep_cases h
  · -- `main` waits for the producers in the one program only
    obtain rfl := hi.photon (by rw [hmain]; intro h; cases h) (by rw [hmain]; intro h; cases h)
    have hdone := hi.control.1
    -- every producer has signalled, so none counts
    rw [hmain, if_pos rfl] at hdone
    refine hi.silent rfl rfl rfl rfl ?_ le_rfl hi.stop ⟨?_, by intro hm; cases hm⟩
    · rw [State.due, State.due, hmain]
      rfl
    · change s.producersDone - cfg.numProducers.toNat + s.counted = 0
      omega
  · -- a sentinel is put behind all items
    obtain ⟨rfl, hzero⟩ := hi.main_stop hmain
    have hdone := hi.control.1
    rw [hmain, if_neg (by intro hm; cases hm)] at hdone
    refine hi.putSentinel rfl rfl ?_ hzero ⟨hdone, by intro hm; cases hm⟩
    rw [State.due, State.due, hmain, mainDue_stop, left_of_lt hlt, ← Nat.add_assoc]
    rfl
  · obtain ⟨rfl, -⟩ := hi.main_stop hmain
    have hdone := hi.control.1
    rw [hmain, if_neg (by intro hm; cases hm)] at hdone
    refine hi.silent rfl rfl rfl rfl ?_ le_rfl hi.stop ⟨hdone, by intro hm; cases hm⟩
    rw [State.due, State.due, hmain, mainDue_stop, left_of_not_lt hge]
    rfl
  · refine hi.silent rfl rfl rfl rfl ?_ le_rfl hi.stop ?_
    · rw [State.due, State.due, hmain]
      rfl
    · have hcontrol := hi.control
      cases v with
      | asio => exact ⟨hcontrol.1, .inr rfl⟩
      | photon =>
          have hdone := hcontrol.1
          rw [hmain, if_neg (by intro hm; cases hm)] at hdone
          exact ⟨hdone, by intro hm; cases hm⟩
  · refine hi.silent rfl rfl rfl rfl ?_ le_rfl hi.stop ?_
    · rw [State.due, State.due, hmain]
      rfl
    · have hcontrol := hi.control
      cases v with
      | asio => exact ⟨hcontrol.1, .inr rfl⟩
      | photon => exact absurd hmain hcontrol.2

theorem producerStep_sending (hi : Sending v cfg tr s) (h : producerStep v s p = some (l, s')) :
    Sending v cfg (tr ++ [l]) s' := by
  obtain ⟨i, e, hp, hlt, -, rfl, rfl⟩ | ⟨i, e, hp, hge, rfl, rfl⟩ | ⟨rfl, hp, rfl, rfl⟩ |
    ⟨rfl, hp, rfl, rfl⟩ | ⟨c, hp, hlt, -, rfl, rfl⟩ | ⟨c, hp, hge, rfl, rfl⟩ :=
    producerStep_cases h
  · exact hi.putItem hp hlt
  · exact hi.endShare hp hge
  · exact hi.fetchSub hp
  · exact hi.signal hp
  · exact hi.stopOne hp hlt
  · exact hi.stopEnd hp hge

theorem consumerStep_sending (hi : Sending v cfg tr s) {c : Fin cfg.numConsumers.toNat}
    (h : consumerStep v s c = some (l, s')) : Sending v cfg (tr ++ [l]) s' := by
  obtain ⟨rest, -, hqueue, rfl, rfl⟩ | ⟨item, rest, -, hqueue, -, rfl, rfl⟩ | ⟨-, rfl, rfl⟩ |
    ⟨-, rfl, rfl⟩ := consumerStep_cases h
  · exact hi.take hqueue _ _
  · exact hi.take hqueue _ _
  · exact hi.silent rfl rfl rfl rfl rfl le_rfl hi.stop (hi.control.congr rfl rfl rfl rfl)
  · exact hi.silent rfl rfl rfl rfl rfl le_rfl hi.stop (hi.control.congr rfl rfl rfl rfl)

end Sending

end ZioBenchmarks.WorkerPool.Sentinel
