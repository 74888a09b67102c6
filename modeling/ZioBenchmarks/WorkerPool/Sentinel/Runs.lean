import ZioBenchmarks.WorkerPool.CloseBased
import ZioBenchmarks.WorkerPool.Sentinel.Receiving
import ZioBenchmarks.WorkerPool.Sentinel.Sending

/-!
# Runs of the pools with sentinels

The queue is first in, first out and no item is `0`, so every item is taken before a sentinel is; a
full queue is one that some consumer still takes from, so the pool does not get stuck although the
sentinels travel through the same queue; and at the end the checksum is the one of the pool that
closes its queue.
-/

set_option autoImplicit false

namespace ZioBenchmarks.WorkerPool.Sentinel

open ZioBenchmarks.Transition ZioBenchmarks.Fold ZioBenchmarks.Queue

variable {cfg : Config}

/-! ## Runs -/

theorem initial_counted (v : Variant) (cfg : Config) :
    (initial v cfg).counted = cfg.numProducers.toNat := by
  simp [State.counted, initial]

theorem initial_stopping (v : Variant) (cfg : Config) : (initial v cfg).stopping = 0 := by
  simp [State.stopping, initial]

theorem initial_pending (v : Variant) (cfg : Config) :
    (initial v cfg).pending = (cfg.items : Multiset UInt64) := sum_shares cfg

theorem initial_running (v : Variant) (cfg : Config) :
    (initial v cfg).running = cfg.numConsumers.toNat := by
  simp [State.running, initial]

theorem initial_due (v : Variant) (cfg : Config) :
    (initial v cfg).due v = cfg.numConsumers.toNat := by
  have hne : cfg.numProducers ≠ 0 := by
    intro hzero
    have hpos := cfg.producers_pos
    rw [hzero] at hpos
    exact absurd hpos (by decide)
  rw [State.due, initial_stopping]
  cases v with
  | asio => simp [initial, unstarted, hne]
  | photon => simp [initial, unstarted]

theorem initial_sending (v : Variant) (cfg : Config) : Sending v cfg [] (initial v cfg) where
  flow := by
    rw [initial_pending, initial_due]
    exact Flow.initial _
  ordered := List.Pairwise.nil
  started h := absurd h List.not_mem_nil
  stop p c h := by cases h
  control := by
    cases v with
    | asio => exact ⟨(initial_counted _ cfg).symm, .inl rfl⟩
    | photon =>
        refine ⟨?_, by intro h; cases h⟩
        have hmain : (initial .photon cfg).main = .waitProducers := rfl
        rw [initial_counted, if_pos hmain]
        exact Nat.zero_add _

theorem initial_receiving (v : Variant) (cfg : Config) : Receiving v [] (initial v cfg) where
  received := by
    symm
    exact Finset.sum_eq_zero fun _ _ => rfl
  consumers c := ⟨rfl, List.not_mem_nil, rfl⟩
  nodup := List.nodup_nil
  mem_combined c := by simp [combined, initial]
  checksum := rfl
  signalled _ _ := by
    rw [initial_running]
    exact Nat.zero_add _

section Runs

variable {v : Variant} {tr : List (Label cfg)} {s : State cfg}

theorem run_inv (h : (system v cfg).Run tr s) : Sending v cfg tr s ∧ Receiving v tr s := by
  refine System.Run.invariant (I := fun tr s => Sending v cfg tr s ∧ Receiving v tr s) ?_ ?_ h
  · rintro _ rfl
    exact ⟨initial_sending v cfg, initial_receiving v cfg⟩
  · rintro tr s l s' - ⟨hs, hr⟩ ⟨a, ha⟩
    cases a with
    | producer p => exact ⟨producerStep_sending hs ha, producerStep_receiving hr ha⟩
    | main => exact ⟨mainStep_sending hs ha, mainStep_receiving hr ha⟩
    | consumer c => exact ⟨consumerStep_sending hs ha, consumerStep_receiving hr ha⟩

/-! ## No sentinel overtakes an item, and none is missing -/

theorem zero_notMem_items (cfg : Config) : 0 ∉ cfg.items := by
  rw [Config.items, mem_items]
  exact fun h => absurd h.1 (by decide)

theorem zero_notMem_todo (i e : UInt64) : 0 ∉ todo i e := by
  intro h
  simp only [todo, List.mem_map, List.mem_range'_1] at h
  obtain ⟨k, hk, hzero⟩ := h
  have he : e.toNat < 2 ^ 64 := e.toNat_lt
  have hval : (UInt64.ofNat (k + 1)).toNat = k + 1 :=
    UInt64.toNat_ofNat_of_lt' (show k + 1 < 2 ^ 64 by omega)
  rw [hzero, UInt64.toNat_zero] at hval
  omega

theorem count_pending (s : State cfg) : s.pending.count 0 = 0 := by
  rw [State.pending, Multiset.count_sum']
  apply Finset.sum_eq_zero
  intro p _
  cases s.producer p with
  | put i e =>
      rw [pending_put, Multiset.coe_count]
      exact List.count_eq_zero.2 (zero_notMem_todo i e)
  | finish => rfl
  | stop c => rfl
  | returned => rfl

/-- The sentinels that were put and those that are due are one per consumer. -/
theorem Sending.count (hi : Sending v cfg tr s) :
    (puts tr).count 0 + s.due v = cfg.numConsumers.toNat := by
  -- no item is `0`, so the zeros of all values are the sentinels
  have hcount := congrArg (Multiset.count 0) hi.flow.complete
  rw [Multiset.count_add, Multiset.count_add, count_pending, Multiset.count_replicate_self,
    Multiset.coe_count, values, Multiset.count_add, Multiset.count_replicate_self,
    Multiset.coe_count, List.count_eq_zero.2 (zero_notMem_items cfg)] at hcount
  omega

theorem Sending.values_put (hi : Sending v cfg tr s) {x : UInt64} (hx : x ∈ puts tr) :
    x = 0 ∨ x ∈ cfg.items := by
  have hmem : x ∈ values cfg := by
    rw [← hi.flow.complete]
    exact Multiset.mem_add.2 (.inl (Multiset.mem_coe.2 hx))
  rw [values, Multiset.mem_add, Multiset.mem_coe] at hmem
  obtain hitem | hzero := hmem
  · exact .inr hitem
  · exact .inl (Multiset.eq_of_mem_replicate hzero)

/-- A sentinel that was taken is one that a consumer stopped at. -/
theorem Receiving.count (hi : Receiving v tr s) : (takes tr).count 0 = s.stopped := by
  rw [← Multiset.coe_count, hi.received, State.received, Multiset.count_sum', State.stopped]
  apply Finset.sum_congr rfl
  intro c _
  rw [Multiset.coe_count, Consumer.received, List.count_append, List.count_replicate_self,
    List.count_eq_zero.2 (hi.consumers c).real, Nat.zero_add]

/-- Behind a sentinel that was taken there are only sentinels. -/
theorem Sending.count_queue (hi : Sending v cfg tr s) (h : 0 ∈ takes tr) :
    s.queue.count 0 = s.queue.length := by
  -- the queue is what was put behind the values taken
  have hordered := hi.ordered
  rw [hi.flow.fifo, List.pairwise_append] at hordered
  rw [List.count_eq_length]
  intro b hb
  exact (hordered.2.2 0 h b hb rfl).symm

/-- Once every consumer has its sentinel, nothing is in the queue or due. -/
theorem queue_of_stopped (hs : Sending v cfg tr s) (hr : Receiving v tr s)
    (h : s.stopped = cfg.numConsumers.toNat) : s.queue = [] ∧ s.due v = 0 := by
  have hpos := cfg.consumers_pos
  have hputs := hs.count
  have htakes := hr.count
  rw [hs.flow.fifo, List.count_append] at hputs
  -- there is a consumer, so a sentinel was taken
  have hmem : 0 ∈ takes tr := List.count_pos_iff.1 (by omega)
  have hlength := hs.count_queue hmem
  exact ⟨List.length_eq_zero_iff.1 (by omega), by omega⟩

theorem stopped_of_returned (h : ∀ c, (s.consumer c).pc = .returned) :
    s.stopped = cfg.numConsumers.toNat := by
  simp [State.stopped, h]

/-- A consumer that has not stopped is missing from the count. -/
theorem stopped_lt {c : Fin cfg.numConsumers.toNat} (hc : (s.consumer c).pc = .receive) :
    s.stopped < cfg.numConsumers.toNat := by
  have hle : ∀ d, (s.consumer d).pc.stopped ≤ 1 := by
    intro d
    cases (s.consumer d).pc with
    | receive => exact Nat.zero_le 1
    | combine | signal | returned => exact le_rfl
  have hlt : s.stopped < ∑ _d : Fin cfg.numConsumers.toNat, 1 := by
    refine Finset.sum_lt_sum (fun d _ => hle d) ⟨c, Finset.mem_univ c, ?_⟩
    rw [hc]
    exact Nat.zero_lt_one
  rwa [Finset.sum_const, Finset.card_univ, Fintype.card_fin, smul_eq_mul, Nat.mul_one] at hlt

/-! ## Progress -/

/-- A consumer that cannot go on has returned or finds the queue empty. -/
theorem consumer_stuck {c : Fin cfg.numConsumers.toNat} (h : consumerStep v s c = none) :
    (s.consumer c).pc = .returned ∨ (s.consumer c).pc = .receive ∧ s.queue = [] := by
  simp only [consumerStep] at h
  cases hc : (s.consumer c).pc with
  | receive =>
      simp only [hc] at h
      split at h
      case h_1 hqueue => exact .inr ⟨rfl, hqueue⟩
      case h_2 => split at h <;> cases h
  | combine =>
      simp only [hc] at h
      cases h
  | signal =>
      simp only [hc] at h
      cases h
  | returned => exact .inl rfl

/-- A producer that cannot go on has returned or finds the queue full. -/
theorem producer_stuck {p : Fin cfg.numProducers.toNat} (h : producerStep v s p = none) :
    s.producer p = .returned ∨ CAP ≤ s.queue.length := by
  unfold producerStep at h
  cases hp : s.producer p with
  | put i e =>
      simp only [hp] at h
      split at h
      case isTrue =>
        split at h
        case isTrue => cases h
        case isFalse hfull => exact .inr (Nat.le_of_not_lt hfull)
      case isFalse => cases h
  | finish =>
      simp only [hp] at h
      split at h <;> cases h
  | stop c =>
      simp only [hp] at h
      split at h
      case isTrue =>
        split at h
        case isTrue => cases h
        case isFalse hfull => exact .inr (Nat.le_of_not_lt hfull)
      case isFalse => cases h
  | returned => exact .inl rfl

/-- If no consumer can go on, there is room in the queue: a full queue is one that some consumer
still takes from. -/
theorem room_of_stuck (hs : Sending v cfg tr s) (hr : Receiving v tr s)
    (hconsumers : ∀ c, consumerStep v s c = none) : s.queue.length < CAP := by
  by_contra hfull
  have hne : s.queue ≠ [] := by
    intro hqueue
    rw [hqueue] at hfull
    exact hfull (by decide)
  have hreturned : ∀ c, (s.consumer c).pc = .returned := by
    intro c
    obtain h | ⟨-, hqueue⟩ := consumer_stuck (hconsumers c)
    · exact h
    · exact absurd hqueue hne
  exact hne (queue_of_stopped hs hr (stopped_of_returned hreturned)).1

/-- `main` has joined the pool once all tasks have returned. -/
theorem mainStep_join (hm : s.main = .join) (hproducers : ∀ p, s.producer p = .returned)
    (hconsumers : ∀ c, (s.consumer c).pc = .returned) :
    mainStep s = some (.silent, { s with main := .returned }) := by
  simp only [mainStep, hm]
  exact if_pos ⟨hproducers, hconsumers⟩

theorem run_join (h : (system v cfg).Run tr s) (hm : s.main = .join)
    (hproducers : ∀ p, s.producer p = .returned) (hconsumers : ∀ c, (s.consumer c).pc = .returned) :
    (system v cfg).Run (tr ++ [.silent]) { s with main := .returned } :=
  h.snoc ⟨.main, mainStep_join hm hproducers hconsumers⟩

/-- A `main` that cannot go on although no producer counts and the queue has room waits for the
consumers, or has returned. -/
theorem main_stuck (hs : Sending v cfg tr s) (hcounted : s.counted = 0)
    (hroom : s.queue.length < CAP) (h : mainStep s = none) :
    s.main = .waitConsumers ∨ s.main = .join ∨ s.main = .returned := by
  unfold mainStep at h
  cases hm : s.main with
  | waitProducers =>
      obtain rfl := hs.photon (by rw [hm]; intro h; cases h) (by rw [hm]; intro h; cases h)
      have hdone := hs.control.1
      rw [hm, if_pos rfl, hcounted, Nat.add_zero] at hdone
      simp only [hm] at h
      rw [if_pos hdone.ge] at h
      cases h
  | stop c =>
      simp only [hm] at h
      rw [if_pos hroom] at h
      split at h <;> cases h
  | waitConsumers => exact .inl rfl
  | join => exact .inr (.inl rfl)
  | returned => exact .inr (.inr rfl)

/-- If no producer counts, the one that was last has started to put sentinels. -/
theorem Sending.unstarted_eq (hs : Sending v cfg tr s) (hcounted : s.counted = 0) :
    unstarted cfg.numConsumers v s.remaining = 0 := by
  have hcontrol := hs.control
  cases v with
  | asio =>
      have hremaining : s.remaining = 0 := by
        rw [← UInt64.toNat_inj, hcontrol.1, hcounted]
        rfl
      rw [unstarted, if_pos hremaining]
  | photon => rfl

/-- If no task can go on, no producer and no consumer is left. -/
theorem returned_of_stuck (hs : Sending v cfg tr s) (hr : Receiving v tr s)
    (hproducers : ∀ p, producerStep v s p = none) (hmain : mainStep s = none)
    (hconsumers : ∀ c, consumerStep v s c = none) :
    (∀ p, s.producer p = .returned) ∧ (∀ c, (s.consumer c).pc = .returned) := by
  have hroom := room_of_stuck hs hr hconsumers
  have hreturned : ∀ p, s.producer p = .returned := by
    intro p
    obtain h | hfull := producer_stuck (hproducers p)
    · exact h
    · omega
  have hcounted : s.counted = 0 := by simp [State.counted, hreturned]
  have hstopping : s.stopping = 0 := by simp [State.stopping, hreturned]
  have hmainDue : s.main.due cfg.numConsumers = 0 := by
    obtain hm | hm | hm := main_stuck hs hcounted hroom hmain
    all_goals rw [hm]; rfl
  -- no sentinel is due
  have hputs := hs.count
  rw [State.due, hs.unstarted_eq hcounted, hstopping, hmainDue, hs.flow.fifo,
    List.count_append] at hputs
  refine ⟨hreturned, fun c => ?_⟩
  obtain h | ⟨hreceive, hqueue⟩ := consumer_stuck (hconsumers c)
  · exact h
  · -- all sentinels were taken, so this consumer has one
    have hlt := stopped_lt hreceive
    have htakes := hr.count
    rw [hqueue, List.count_nil] at hputs
    omega

/-- Until `main` and every task have returned, some task can go on. -/
theorem progress (hs : Sending v cfg tr s) (hr : Receiving v tr s) (hrun : ¬ s.Finished) :
    ∃ l s', (system v cfg).step s l s' := by
  by_contra hstuck
  have hnone : ∀ a, act v s a = none := by
    intro a
    cases ha : act v s a with
    | none => rfl
    | some r => exact absurd ⟨r.1, r.2, a, ha⟩ hstuck
  have hmain : mainStep s = none := hnone .main
  obtain ⟨hproducers, hconsumers⟩ := returned_of_stuck hs hr (fun p => hnone (.producer p)) hmain
    (fun c => hnone (.consumer c))
  have hroom := room_of_stuck hs hr (fun c => hnone (.consumer c))
  have hcounted : s.counted = 0 := by simp [State.counted, hproducers]
  obtain hm | hm | hm := main_stuck hs hcounted hroom hmain
  · -- every consumer has signalled
    obtain rfl := hs.photon (by rw [hm]; intro h; cases h) (by rw [hm]; intro h; cases h)
    have hdone := hr.signalled rfl (by rw [hm]; intro h; cases h)
    have hrunning : s.running = 0 := by simp [State.running, hconsumers]
    unfold mainStep at hmain
    simp only [hm] at hmain
    rw [if_pos (by omega)] at hmain
    cases hmain
  · rw [mainStep_join hm hproducers hconsumers] at hmain
    cases hmain
  · exact hrun ⟨hm, hproducers, hconsumers⟩

/-! ## How long a run is -/

/-- The statements a producer has still to execute, but for those that put a value. -/
def Producer.phase : Producer → Nat
  | .put _ _ => 3
  | .finish => 2
  | .stop _ => 1
  | .returned => 0

/-- The same for `main`. -/
def Main.phase : Main → Nat
  | .waitProducers => 3
  | .stop _ => 2
  | .waitConsumers | .join => 1
  | .returned => 0

/-- The statements a consumer has still to execute, but for those that take a value. -/
def ConsumerPc.phase : ConsumerPc → Nat
  | .receive | .combine => 2
  | .signal => 1
  | .returned => 0

def State.phases (s : State cfg) : Nat :=
  ∑ p, (s.producer p).phase + s.main.phase + ∑ c, (s.consumer c).pc.phase

/-- What the tasks have still to do: a value that is not yet in the queue is put and taken. -/
def State.rank (v : Variant) (s : State cfg) : Nat :=
  2 * (s.pending.card + s.due v) + s.queue.length + s.phases

section Rank

variable {s' : State cfg} {l : Label cfg}

theorem phases_setProducer (s : State cfg) (p : Fin cfg.numProducers.toNat) (x : Producer) :
    (s.setProducer p x).phases + (s.producer p).phase = s.phases + x.phase := by
  have hsum := sum_update Producer.phase s.producer p x
  rw [State.phases, State.phases, setProducer_producer, setProducer_main]
  change _ + ∑ c, (s.consumer c).pc.phase + _ = _
  omega

theorem phases_setConsumer (s : State cfg) (c : Fin cfg.numConsumers.toNat) (x : Consumer) :
    (s.setConsumer c x).phases + (s.consumer c).pc.phase = s.phases + x.pc.phase := by
  have hsum := sum_update (fun y : Consumer => y.pc.phase) s.consumer c x
  rw [State.phases, State.phases, setConsumer_consumer, setConsumer_main]
  change ∑ p, (s.producer p).phase + _ + _ + _ = _
  omega

theorem producerStep_phases {p : Fin cfg.numProducers.toNat}
    (h : producerStep v s p = some (l, s')) : s'.phases + 1 ≤ s.phases + (puts [l]).length := by
  obtain ⟨i, e, hp, -, -, rfl, rfl⟩ | ⟨i, e, hp, -, rfl, rfl⟩ | ⟨-, hp, rfl, rfl⟩ |
    ⟨-, hp, rfl, rfl⟩ | ⟨c, hp, -, -, rfl, rfl⟩ | ⟨c, hp, -, rfl, rfl⟩ := producerStep_cases h
  · have hx : _ + (s.producer p).phase = s.phases + 3 :=
      phases_setProducer (s.enqueue (i + 1)) p (.put (i + 1) e)
    rw [hp, Producer.phase] at hx
    rw [puts_put, List.length_singleton]
    omega
  · have hx : _ + (s.producer p).phase = s.phases + 2 := phases_setProducer s p .finish
    rw [hp, Producer.phase] at hx
    omega
  · have hnext : (if s.remaining = 1 then Producer.stop 0 else .returned).phase ≤ 1 := by
      split <;> decide
    have hx : _ + (s.producer p).phase = s.phases + _ :=
      phases_setProducer { s with remaining := s.remaining - 1 } p
        (if s.remaining = 1 then .stop 0 else .returned)
    rw [hp, Producer.phase] at hx
    omega
  · have hx : _ + (s.producer p).phase = s.phases + 0 :=
      phases_setProducer { s with producersDone := s.producersDone + 1 } p .returned
    rw [hp, Producer.phase] at hx
    omega
  · have hx : _ + (s.producer p).phase = s.phases + 1 :=
      phases_setProducer (s.enqueue 0) p (.stop (c + 1))
    rw [hp, Producer.phase] at hx
    rw [puts_put, List.length_singleton]
    omega
  · have hx : _ + (s.producer p).phase = s.phases + 0 := phases_setProducer s p .returned
    rw [hp, Producer.phase] at hx
    omega

theorem mainStep_phases (h : mainStep s = some (l, s')) :
    s'.phases + 1 ≤ s.phases + (puts [l]).length := by
  have hmain : ∀ t : State cfg, t.producer = s.producer → t.consumer = s.consumer →
      t.phases + s.main.phase = s.phases + t.main.phase := by
    intro t hproducer hconsumer
    rw [State.phases, State.phases, hproducer, hconsumer]
    omega
  obtain ⟨hm, -, rfl, rfl⟩ | ⟨c, hm, -, -, rfl, rfl⟩ | ⟨c, hm, -, rfl, rfl⟩ |
    ⟨hm, -, rfl, rfl⟩ | ⟨hm, -, -, rfl, rfl⟩ := mainStep_cases h
  · have hx := hmain { s with
      producersDone := s.producersDone - cfg.numProducers.toNat
      main := .stop 0 } rfl rfl
    rw [hm, Main.phase, Main.phase] at hx
    omega
  · have hx := hmain { s.enqueue 0 with main := .stop (c + 1) } rfl rfl
    rw [hm, Main.phase, Main.phase] at hx
    rw [puts_put, List.length_singleton]
    exact Nat.le_of_succ_le_succ hx.le
  · have hx := hmain { s with main := .waitConsumers } rfl rfl
    rw [hm, Main.phase, Main.phase] at hx
    omega
  · have hx := hmain { s with
      consumersDone := s.consumersDone - cfg.numConsumers.toNat
      main := .returned } rfl rfl
    rw [hm, Main.phase, Main.phase] at hx
    omega
  · have hx := hmain { s with main := .returned } rfl rfl
    rw [hm, Main.phase, Main.phase] at hx
    omega

theorem consumerStep_phases {c : Fin cfg.numConsumers.toNat}
    (h : consumerStep v s c = some (l, s')) : s'.phases + 1 ≤ s.phases + (takes [l]).length := by
  obtain ⟨rest, hc, -, rfl, rfl⟩ | ⟨item, rest, hc, -, -, rfl, rfl⟩ | ⟨hc, rfl, rfl⟩ |
    ⟨hc, rfl, rfl⟩ := consumerStep_cases h
  · have hx : _ + (s.consumer c).pc.phase = s.phases + 2 :=
      phases_setConsumer { s with queue := rest } c { s.consumer c with pc := .combine }
    rw [hc, ConsumerPc.phase] at hx
    rw [takes_took, List.length_singleton]
    omega
  · have hx : _ + (s.consumer c).pc.phase = s.phases + 2 :=
      phases_setConsumer { s with queue := rest } c
        ⟨.receive, (s.consumer c).acc ^^^ work item cfg.workIters, (s.consumer c).taken ++ [item]⟩
    rw [hc, ConsumerPc.phase] at hx
    rw [takes_took, List.length_singleton]
    omega
  · have hnext : (ConsumerPc.afterCombine v).phase ≤ 1 := by
      cases v <;> decide
    have hx : _ + (s.consumer c).pc.phase = s.phases + (ConsumerPc.afterCombine v).phase :=
      phases_setConsumer { s with checksum := s.checksum ^^^ (s.consumer c).acc } c
        { s.consumer c with pc := .afterCombine v }
    rw [hc, show ConsumerPc.combine.phase = 2 from rfl] at hx
    omega
  · have hx : _ + (s.consumer c).pc.phase = s.phases + 0 :=
      phases_setConsumer { s with consumersDone := s.consumersDone + 1 } c
        { s.consumer c with pc := .returned }
    rw [hc, ConsumerPc.phase] at hx
    omega

/-- A step puts a value, takes one, or brings a task one statement further. -/
theorem act_phases {a : Act cfg} (h : act v s a = some (l, s')) :
    s'.phases + 1 ≤ s.phases + (puts [l]).length + (takes [l]).length := by
  cases a with
  | producer p => exact (producerStep_phases h).trans (Nat.le_add_right _ _)
  | main => exact (mainStep_phases h).trans (Nat.le_add_right _ _)
  | consumer c =>
      have hle := consumerStep_phases h
      omega

/-- How many values are not yet in the queue, and how many are in it. -/
theorem Sending.lengths (hi : Sending v cfg tr s) :
    (puts tr).length + (s.pending.card + s.due v) =
        cfg.numItems.toNat + cfg.numConsumers.toNat ∧
      (puts tr).length = (takes tr).length + s.queue.length := by
  have hcomplete := congrArg Multiset.card hi.flow.complete
  have hfifo := congrArg List.length hi.flow.fifo
  simp only [values, Multiset.card_add, Multiset.card_replicate, Multiset.coe_card, Config.items,
    items, List.length_map, List.length_range] at hcomplete
  rw [List.length_append] at hfifo
  exact ⟨hcomplete, hfifo⟩

/-- Every step brings the end nearer. -/
theorem step_rank (h : (system v cfg).Reachable s) (hstep : (system v cfg).step s l s') :
    s'.rank v < s.rank v := by
  obtain ⟨tr, hr⟩ := h
  obtain ⟨hcomplete, hfifo⟩ := (run_inv hr).1.lengths
  obtain ⟨hcomplete', hfifo'⟩ := (run_inv (hr.snoc hstep)).1.lengths
  obtain ⟨a, ha⟩ := hstep
  have hphases := act_phases ha
  rw [puts_snoc, List.length_append] at hcomplete' hfifo'
  rw [takes_snoc, List.length_append] at hfifo'
  -- what the step puts is no longer pending, and what it takes is no longer in the queue
  rw [State.rank, State.rank]
  omega

theorem initial_rank (v : Variant) (cfg : Config) : (initial v cfg).rank v ≤
    2 * cfg.numItems.toNat + 3 * cfg.numProducers.toNat + 4 * cfg.numConsumers.toNat + 3 := by
  have hlengths := (initial_sending v cfg).lengths.1
  have hmain : (initial v cfg).main.phase ≤ 3 := by
    cases v
    · exact Nat.le_add_left 1 2
    · exact le_rfl
  have hphases : (initial v cfg).phases ≤
      3 * cfg.numProducers.toNat + 3 + 2 * cfg.numConsumers.toNat := by
    have hproducers : ∑ p, ((initial v cfg).producer p).phase = 3 * cfg.numProducers.toNat := by
      simp [initial, Producer.phase, Nat.mul_comm]
    have hconsumers : ∑ c, ((initial v cfg).consumer c).pc.phase = 2 * cfg.numConsumers.toNat := by
      simp [initial, ConsumerPc.phase, Nat.mul_comm]
    rw [State.phases, hproducers, hconsumers]
    omega
  have hqueue : (initial v cfg).queue.length = 0 := rfl
  have hputs : (puts ([] : List (Label cfg))).length = 0 := rfl
  rw [State.rank]
  omega

/-- A run puts and takes every item and every sentinel once, and the rest of what a task does are a
few statements. -/
theorem run_length (h : (system v cfg).Run tr s) : tr.length ≤
    2 * cfg.numItems.toNat + 3 * cfg.numProducers.toNat + 4 * cfg.numConsumers.toNat + 3 := by
  obtain ⟨a, rfl, hp⟩ := h
  have hlength := hp.length_le (μ := State.rank v) (fun _ _ _ hr hs => step_rank hr hs)
    (System.Run.nil rfl).reachable
  have hrank := initial_rank v cfg
  omega

/-- From every state of a run the pool can go on until `main` and all tasks have returned. -/
theorem exists_finished (h : (system v cfg).Run tr s) :
    ∃ us s', (system v cfg).Path s us s' ∧ s'.Finished := by
  refine System.Reachable.exists_final (μ := State.rank v) (fun _ _ _ hr hs => step_rank hr hs) ?_
    h.reachable
  rintro t ⟨us, ht⟩ hrun
  exact progress (run_inv ht).1 (run_inv ht).2 hrun

end Rank

/-! ## The end of a run -/

/-- The items each consumer took. -/
def State.runs (s : State cfg) : List (List UInt64) :=
  (List.finRange cfg.numConsumers.toNat).map fun c => (s.consumer c).taken

/-- The consumers that have returned have taken the items between them. -/
theorem runs_perm (hs : Sending v cfg tr s) (hr : Receiving v tr s)
    (hproducers : ∀ p, s.producer p = .returned) (hconsumers : ∀ c, (s.consumer c).pc = .returned) :
    s.runs.flatten.Perm cfg.items := by
  obtain ⟨hqueue, hdue⟩ := queue_of_stopped hs hr (stopped_of_returned hconsumers)
  have hpending : s.pending = 0 := by simp [State.pending, hproducers]
  have hflow := hs.flow
  rw [hqueue, hdue, hpending, Multiset.replicate_zero, add_zero] at hflow
  have hreceived : s.received =
      (s.runs.flatten : Multiset UInt64) + Multiset.replicate cfg.numConsumers.toNat 0 := by
    -- a consumer that has returned has taken one sentinel behind its items
    have hmine : ∀ c, ((s.consumer c).received : Multiset UInt64) = (s.consumer c).taken + {0} := by
      intro c
      rw [Consumer.received, hconsumers c, stopped_returned, List.replicate_one,
        ← Multiset.coe_add, Multiset.coe_singleton]
    rw [State.received, Finset.sum_congr rfl (fun c _ => hmine c), Finset.sum_add_distrib,
      Finset.sum_const, Finset.card_univ, Fintype.card_fin, Multiset.nsmul_singleton, State.runs,
      coe_flatten]
  have htakes := hr.received
  rw [hflow.done, hreceived, values, add_left_inj] at htakes
  exact Multiset.coe_eq_coe.1 htakes.symm

/-- The checksum is that of the consumers' runs. -/
theorem checksum_eq_runs (hr : Receiving v tr s) (hconsumers : ∀ c, (s.consumer c).pc = .returned) :
    s.checksum = WorkerPool.checksum (s.runs.map (consumer cfg.workIters)) := by
  -- every consumer has combined its result, once, in some order
  have hperm : (combined tr).Perm (List.finRange cfg.numConsumers.toNat) := by
    rw [List.perm_ext_iff_of_nodup hr.nodup (List.nodup_finRange _)]
    intro c
    rw [hr.mem_combined, hconsumers c]
    exact iff_of_true trivial (List.mem_finRange c)
  have hacc : s.runs.map (consumer cfg.workIters) =
      (List.finRange cfg.numConsumers.toNat).map fun c => (s.consumer c).acc := by
    rw [State.runs, List.map_map]
    apply List.map_congr_left
    intro c _
    exact (hr.consumers c).acc.symm
  rw [hr.checksum, hacc, WorkerPool.checksum, WorkerPool.checksum, foldl_xor, foldl_xor,
    xorAll_perm (hperm.map _)]

/-- The pools that stop their consumers with sentinels agree with the one that closes its queue. No
item is a sentinel, and in the order of the queue every item is before every sentinel; a consumer
takes items, then one sentinel, and stops at it; until `main` and all tasks have returned, some task
can go on; no run is longer than the values and the tasks allow, and from each of its states the pool
can go on until `main` and all tasks have returned; and then the queue is empty, each consumer has
taken its sentinel, the items were taken exactly once, and the checksum is that of the items, which
is the one the other pool computes. -/
theorem sentinel_pool (h : (system v cfg).Run tr s) :
    0 ∉ cfg.items ∧ (∀ x ∈ puts tr, x = 0 ∨ x ∈ cfg.items) ∧
    (puts tr).Pairwise (fun a b => a = 0 → b = 0) ∧ puts tr = takes tr ++ s.queue ∧
    (∀ c, 0 ∉ (s.consumer c).taken ∧
      takesBy c tr = (s.consumer c).taken ++ if (s.consumer c).pc = .receive then [] else [0]) ∧
    (¬ s.Finished → ∃ l s', (system v cfg).step s l s') ∧
    tr.length ≤
      2 * cfg.numItems.toNat + 3 * cfg.numProducers.toNat + 4 * cfg.numConsumers.toNat + 3 ∧
    (∃ us s', (system v cfg).Path s us s' ∧ s'.Finished) ∧
    (s.Finished →
      s.queue = [] ∧ (∀ c, takesBy c tr = (s.consumer c).taken ++ [0]) ∧
      (puts tr).count 0 = cfg.numConsumers.toNat ∧ s.runs.flatten.Perm cfg.items ∧
      s.checksum = xorAll (cfg.items.map fun item => work item cfg.workIters) ∧
      ∀ (capacity : Nat) (tr' : List CloseBased.Label) (t : CloseBased.State cfg),
        (CloseBased.system cfg capacity).Run tr' t → t.Finished →
          s.checksum = WorkerPool.checksum (List.ofFn t.results)) := by
  obtain ⟨hs, hr⟩ := run_inv h
  refine ⟨zero_notMem_items cfg, fun x hx => hs.values_put hx, hs.ordered, hs.flow.fifo, ?_,
    progress hs hr, run_length h, exists_finished h, ?_⟩
  · intro c
    refine ⟨(hr.consumers c).real, ?_⟩
    rw [(hr.consumers c).received, Consumer.received]
    cases (s.consumer c).pc with
    | receive => rfl
    | combine => rfl
    | signal => rfl
    | returned => rfl
  · rintro ⟨-, hproducers, hconsumers⟩
    obtain ⟨hqueue, hdue⟩ := queue_of_stopped hs hr (stopped_of_returned hconsumers)
    have hperm := runs_perm hs hr hproducers hconsumers
    have hchecksum : s.checksum = xorAll (cfg.items.map fun item => work item cfg.workIters) := by
      rw [checksum_eq_runs hr hconsumers, checksum_of_perm hperm]
    refine ⟨hqueue, ?_, ?_, hperm, hchecksum, ?_⟩
    · intro c
      rw [(hr.consumers c).received, Consumer.received, hconsumers c]
      rfl
    · have hcount := hs.count
      omega
    · intro capacity tr' t ht hfinished
      rw [hchecksum, ((CloseBased.run_inv ht).finished hfinished).2.2.2]

theorem run_of_replay {as : List (Act cfg)} {r : List (Label cfg) × State cfg}
    (h : System.replay (act v) (initial v cfg) as = some r) : (system v cfg).Run r.1 r.2 :=
  System.Run.of_replay (T := system v cfg) (fun _ a _ _ ha => ⟨a, ha⟩) rfl h

/-- One producer and one consumer, for one item: both tasks up to the end of the consumer. -/
def oneItemTasks : List (Label CloseBased.oneItem) × State CloseBased.oneItem :=
  (System.replay (act .asio) (initial .asio CloseBased.oneItem)
    [.producer CloseBased.only, .producer CloseBased.only, .producer CloseBased.only,
      .producer CloseBased.only, .producer CloseBased.only, .consumer CloseBased.only,
      .consumer CloseBased.only, .consumer CloseBased.only]).get rfl

/-- The item and the sentinel are put and taken, and `main` joins the pool. -/
theorem sentinel_pool_oneItem :
    ∃ s, (system .asio CloseBased.oneItem).Run
        [.put 1, .silent, .silent, .put 0, .silent, .took (0 : Fin 1) 1, .took (0 : Fin 1) 0,
          .combined (0 : Fin 1), .silent] s ∧
      s.Finished ∧ s.runs.flatten.Perm [1] ∧ s.checksum = xorAll [work 1 1] := by
  have hone : ∀ q : Fin 1, q = 0 := fun q => Subsingleton.elim q 0
  have htasks : (system .asio CloseBased.oneItem).Run oneItemTasks.1 oneItemTasks.2 :=
    run_of_replay (Option.some_get _).symm
  have h := run_join htasks rfl (fun q => by rw [hone q]; rfl) (fun q => by rw [hone q]; rfl)
  have hfinished : State.Finished { oneItemTasks.2 with main := .returned } :=
    ⟨rfl, fun q => by rw [hone q]; rfl, fun q => by rw [hone q]; rfl⟩
  obtain ⟨-, -, -, hperm, hchecksum, -⟩ := (sentinel_pool h).2.2.2.2.2.2.2.2 hfinished
  exact ⟨_, h, hfinished, hperm, hchecksum⟩

end Runs

end ZioBenchmarks.WorkerPool.Sentinel
