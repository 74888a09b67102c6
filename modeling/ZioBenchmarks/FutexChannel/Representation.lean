import ZioBenchmarks.FutexChannel.History
import ZioBenchmarks.FutexChannel.Lifetime

/-!
# The representation of a `FutexChannel`

What the fields mean whenever the mutex is free, how a waiter's record follows its membership in a
list, and what the ring accesses rely on: no index arithmetic without a buffer, and no write to a
slot that holds an undelivered item.
-/

set_option autoImplicit false

namespace ZioBenchmarks.FutexChannel

open ZioBenchmarks.Transition State

variable {β Call Task α : Type}

/-- The channel fields and the waiters while the mutex is free. -/
structure Representation (cfg : Config Call Task α) (s : State β Call Task α) : Prop where
  count_le : s.count ≤ cfg.capacity
  indices : 0 < cfg.capacity →
    s.head < cfg.capacity ∧ s.tail < cfg.capacity ∧ s.tail = (s.head + s.count) % cfg.capacity
  unbuffered : cfg.capacity = 0 → s.head = 0 ∧ s.tail = 0 ∧ s.count = 0
  receivers : s.receivers ≠ [] → s.count = 0 ∧ s.senders = []
  senders : s.senders ≠ [] → s.count = cfg.capacity
  closed : s.closed = true → s.senders = [] ∧ s.receivers = []
  queued_send : ∀ w, cfg.kind w = .send → ((s.waiter w).queued = true ↔ w ∈ s.senders)
  queued_receive : ∀ w, cfg.kind w = .receive → ((s.waiter w).queued = true ↔ w ∈ s.receivers)
  queued_close : ∀ w, cfg.kind w = .close → (s.waiter w).queued = false
  senders_send : ∀ w ∈ s.senders, cfg.kind w = .send
  receivers_receive : ∀ w ∈ s.receivers, cfg.kind w = .receive
  senders_nodup : s.senders.Nodup
  receivers_nodup : s.receivers.Nodup

/-- The statement evaluates `% self.capacity` and `elemPtr`. -/
def State.usesRing (cfg : Config Call Task α) (s : State β Call Task α) : Pc Call → Bool
  | .sendRoom => s.count < cfg.capacity
  | .recvCount => 0 < s.count
  | .recvMove _ => true
  | _ => false

/-- The slot the statement writes. -/
def State.ringWrite (cfg : Config Call Task α) (s : State β Call Task α) : Pc Call → Option Nat
  | .sendRoom => if s.count < cfg.capacity then some s.tail else none
  | .recvMove _ => some s.tail
  | _ => none

/-- A peer or `close` has popped the waiter of `w`, and maybe stored its futex word. -/
def State.Claimed (s : State β Call Task α) (w : Call) : Prop :=
  (s.waiter w).futex = 1 ∨ s.focus.claim = some (.popped, w) ∨ s.focus.claim = some (.marked, w) ∨
    s.focus.claim = some (.storing, w)

section Free

variable {cfg : Config Call Task α} {s : State β Call Task α}

/-- With nobody in a section, a waiter is marked as queued exactly while it is linked. -/
theorem Inv.queued_iff_linked (hi : Inv cfg s) (hm : s.mutex = none) (w : Call) :
    (s.waiter w).queued = true ↔ Linked s.toFutexChannelImpl w := by
  constructor
  · intro hq
    rcases hi.parked w (hi.queued w hq) with hl | ht | hc
    · exact hl
    · simp [focus_of_free hm, Pc.Targets, Pc.claim] at ht
    · simp [hc.1] at hq
  · intro hl
    exact (hi.linked w hl).2.1

theorem Inv.representation (hi : Inv cfg s) (hm : s.mutex = none) : Representation cfg s := by
  -- with the mutex free no call is in the middle of a critical section
  have hset : Settled cfg s.toFutexChannelImpl := by
    have ha := hi.chan_at
    rwa [focus_of_free hm] at ha
  have hq := hi.queued_iff_linked hm
  constructor
  case count_le => exact hi.ring.count_le
  case indices =>
    intro hc
    refine ⟨hi.ring.head_lt hc, ?_, hi.ring.tail_eq hc⟩
    rw [hi.ring.tail_eq hc]
    exact Nat.mod_lt _ hc
  case unbuffered =>
    intro hc
    obtain ⟨h1, h2⟩ := hi.ring.empty hc
    have h3 := hi.ring.count_le
    exact ⟨h1, h2, by omega⟩
  case receivers => exact hi.receivers_empty
  case senders => exact hset.1
  case closed => exact hset.2
  case queued_send =>
    intro w hk
    rw [hq w]
    refine ⟨fun h => h.resolve_right fun hr => ?_, .inl⟩
    simp [hi.receivers_kind w hr] at hk
  case queued_receive =>
    intro w hk
    rw [hq w]
    refine ⟨fun h => h.resolve_left fun hs => ?_, .inr⟩
    simp [hi.senders_kind w hs] at hk
  case queued_close =>
    intro w hk
    rw [← Bool.not_eq_true, hq w]
    rintro (h | h)
    · simp [hi.senders_kind w h] at hk
    · simp [hi.receivers_kind w h] at hk
  case senders_send => exact hi.senders_kind
  case receivers_receive => exact hi.receivers_kind
  case senders_nodup => exact hi.senders_nodup
  case receivers_nodup => exact hi.receivers_nodup

/-- A channel without a buffer never gets to its ring code. -/
theorem Inv.usesRing_eq_false (hi : Inv cfg s) (hc : cfg.capacity = 0) (c : Call) :
    s.usesRing cfg (s.pc c) = false := by
  have hle := hi.ring.count_le
  cases hp : s.pc c
  case recvMove w =>
    have ha := hi.chan_at
    rw [hi.exclusive.focus_eq (c := c) (by rw [hp]; rfl), hp] at ha
    have := ha.2.1
    omega
  all_goals
    simp only [usesRing, decide_eq_false_iff_not]
    try omega

/-- A ring write goes to a slot that is not occupied. -/
theorem Inv.ringWrite_not_mem (hi : Inv cfg s) {c : Call} {i : Nat}
    (h : s.ringWrite cfg (s.pc c) = some i) : i ∉ Ring.slots cfg.capacity s.head s.count := by
  cases hp : s.pc c
  case sendRoom =>
    rw [hp, ringWrite] at h
    split at h
    case isTrue hroom =>
      obtain rfl := Option.some.inj h
      exact hi.ring.tail_not_mem hroom
    case isFalse => simp at h
  case recvMove w =>
    have ha := hi.chan_at
    rw [hi.exclusive.focus_eq (c := c) (by rw [hp]; rfl), hp] at ha
    rw [hp, ringWrite] at h
    obtain rfl := Option.some.inj h
    exact hi.ring.tail_not_mem (by have := ha.2.1; omega)
  all_goals simp [hp, ringWrite] at h

/-- While the mutex is free, a waiter is claimed exactly if its futex word is stored. -/
theorem claimed_of_free (hm : s.mutex = none) (w : Call) :
    s.Claimed w ↔ (s.waiter w).futex = 1 := by
  simp [State.Claimed, focus_of_free hm, Pc.claim]

end Free

variable [SlotMemory β α] [DecidableEq Call] [DecidableEq Task]
variable {cfg : Config Call Task α} {s s' : State β Call Task α} {c : Call}

/-- A statement without index arithmetic leaves the ring alone. -/
theorem next_ring_eq (h : next cfg s c = some s') (hu : s.usesRing cfg (s.pc c) = false) :
    s'.buffer = s.buffer ∧ s'.head = s.head ∧ s'.tail = s.tail ∧ s'.count = s.count := by
  revert h hu
  fun_cases next cfg s c
  all_goals simp only [reduceCtorEq, Option.some.injEq, IsEmpty.forall_iff]
  all_goals
    rintro rfl hu
    simp_all [usesRing]

/-- A statement writes the slot `ringWrite` names, or none. -/
theorem next_buffer (h : next cfg s c = some s') :
    s'.buffer = match s.ringWrite cfg (s.pc c) with
      | none => s.buffer
      | some i => SlotMemory.store s.buffer i (s.cell ((s.touched (s.pc c)).getD c)) := by
  revert h
  fun_cases next cfg s c
  all_goals simp only [reduceCtorEq, Option.some.injEq, IsEmpty.forall_iff]
  all_goals
    rintro rfl
    simp [ringWrite, touched, *]

/-! ## Claims -/

/-- A statement claims at most the waiter its label names, and none twice. -/
theorem next_claimed (hi : Inv cfg s) (h : next cfg s c = some s') (w : Call) :
    (s'.Claimed w ↔ s.Claimed w ∨
        (execLabel s s' c).claims = some w) ∧
      ((execLabel s s' c).claims = some w → ¬ s.Claimed w) := by
  have hl := hi.linked
  have hp := hi.popped
  have hm := hi.marked
  have he := hi.early c
  have hf := hi.exclusive.focusStep (next_exclusive hi.exclusive h) (next_pc h)
  revert h hf
  fun_cases next cfg s c
  all_goals simp only [reduceCtorEq, Option.some.injEq, IsEmpty.forall_iff]
  all_goals
    rintro rfl hf
    simp only [FocusStep, goto_pc, ret_pc, reduceIte, entry_critical, after_critical, *] at hf
    simp only [Pc.critical, reduceCtorEq, forall_const, IsEmpty.forall_iff, true_and,
      and_true] at hf
    simp only [State.Claimed, execLabel, Label.claims, goto_pc, ret_pc, reduceIte, goto_waiter,
      ret_waiter, setWaiter_waiter, setCell_waiter, setSleeping_waiter, remove_waiter, *]
    grind -ring -linarith -order -ac [Waiter.absent]

/-- Only a linked waiter is claimed. -/
theorem linked_of_claims (h : next cfg s c = some s') {w : Call}
    (hw : (execLabel s s' c).claims = some w) :
    Linked s.toFutexChannelImpl w := by
  revert h hw
  fun_cases next cfg s c
  all_goals simp only [reduceCtorEq, Option.some.injEq, IsEmpty.forall_iff]
  all_goals
    rintro rfl
    simp_all [execLabel, Label.claims, Linked]

/-- The call is leaving without having been claimed, or has left. -/
def Pc.Gone (p : Pc Call) : Prop := p = .unlock .canceled ∨ ∃ r, p = .returned r

theorem next_gone (h : next cfg s c = some s') {w : Call} (hw : (s.pc w).Gone) :
    (s'.pc w).Gone := by
  by_cases hc : w = c
  · subst hc
    revert h
    fun_cases next cfg s w
    all_goals simp_all [Pc.Gone]
    rintro rfl
    simp
  · rwa [next_pc h w hc]

theorem cancelTest_of_unlinks (h : next cfg s c = some s') {w : Call}
    (hw : (execLabel s s' c).unlinks = some w) :
    w = c ∧ s.pc c = .cancelTest ∧ (s.waiter c).queued = true ∧ s'.pc c = .unlock .canceled := by
  revert h hw
  fun_cases next cfg s c
  all_goals simp only [reduceCtorEq, Option.some.injEq, IsEmpty.forall_iff]
  all_goals
    rintro rfl
    simp_all [execLabel, Label.unlinks]
  rintro ⟨⟩
  exact ⟨‹_›, ‹_›⟩

/-- A call unlinks its own waiter only where no peer has claimed it. -/
theorem next_unlinks (hi : Inv cfg s) (h : next cfg s c = some s') {w : Call}
    (hw : (execLabel s s' c).unlinks = some w) :
    ¬ s'.Claimed w ∧ (s'.pc w).Gone := by
  obtain ⟨rfl, hpc, hq, hpc'⟩ := cancelTest_of_unlinks h hw
  obtain ⟨hf, hl⟩ := hi.linked_of_cancelTest hpc hq
  have hfresh := (hi.linked _ hl).2
  refine ⟨?_, .inl hpc'⟩
  rw [(next_claimed hi h _).1, execLabel, hpc, hpc']
  simp [State.Claimed, hf, Pc.claim, hfresh.2.1, Label.claims]

/-- The claims of a run and the futex words agree, no waiter is claimed twice, and none is claimed
that its owner unlinked. -/
theorem claims_invariant {tr : List (Label Call Task)} (h : (system β cfg).Run tr s) :
    (∀ w, w ∈ events Label.claims tr ↔ s.Claimed w) ∧ (events Label.claims tr).Nodup ∧
      ∀ w ∈ events Label.unlinks tr, ¬ s.Claimed w ∧ (s.pc w).Gone := by
  refine System.Run.invariant (I := fun tr s => (∀ w, w ∈ events Label.claims tr ↔ s.Claimed w) ∧
    (events Label.claims tr).Nodup ∧
    ∀ w ∈ events Label.unlinks tr, ¬ s.Claimed w ∧ (s.pc w).Gone) ?_ ?_ h
  · rintro _ ⟨b, rfl⟩
    simp [State.Claimed, initial, focus, Pc.claim, Waiter.absent]
  · rintro tr s l s' hrun ⟨hclaim, hnodup, hgone⟩ hstep
    have hi := reachable_inv hrun.reachable
    simp only [events_snoc]
    rcases step_cases hstep with ⟨c, hn, rfl⟩ | ⟨ho, hl⟩
    · have hc := next_claimed hi hn
      refine ⟨fun w => ?_, ?_, fun w hw => ?_⟩
      · rw [(hc w).1, ← hclaim w, List.mem_append, Option.mem_toList]
      · rw [List.nodup_append]
        refine ⟨hnodup, Option.toList_nodup _, ?_⟩
        rintro w hw _ hw' rfl
        exact (hc w).2 (Option.mem_toList.1 hw') ((hclaim w).1 hw)
      · rw [List.mem_append] at hw
        rcases hw with hw | hw
        · obtain ⟨hnc, hg⟩ := hgone w hw
          refine ⟨fun h' => ?_, next_gone hn hg⟩
          -- a waiter that unlinked itself is parked no more, so it cannot be claimed now
          rcases (hc w).1.1 h' with h' | h'
          · exact hnc h'
          · have hp := (hi.linked w (linked_of_claims hn h')).1
            rcases hg with hg | ⟨r, hg⟩
            · simp [hg, Pc.parked] at hp
            · simp [hg, Pc.parked] at hp
        · exact next_unlinks hi hn (Option.mem_toList.1 hw)
    · have hc : ∀ w, s'.Claimed w ↔ s.Claimed w := by
        intro w
        rw [State.Claimed, State.Claimed, ho.focus_eq hi.exclusive, ho.waiter]
      simp only [Label.claims_of_silent hl, Label.unlinks_of_silent hl, Option.toList_none,
        List.append_nil, hc]
      refine ⟨hclaim, hnodup, fun w hw => ⟨(hgone w hw).1, ?_⟩⟩
      rcases (hgone w hw).2 with hg | ⟨r, hg⟩
      · rw [ho.pc_eq (by rw [hg]; rfl)]
        exact .inl hg
      · rcases ho.pc w with h' | ⟨h', -⟩ | ⟨h', -⟩ | ⟨h' | h', -⟩
        · exact .inr ⟨r, h'.trans hg⟩
        all_goals simp [h'] at hg

/-- The representation invariant over whole runs: the fields and the waiters while the mutex is
free, the claims that set a futex word, and the accesses to the ring. -/
theorem representation_invariant {tr : List (Label Call Task)} (h : (system β cfg).Run tr s) :
    (s.mutex = none → Representation cfg s ∧
      ∀ w, (s.waiter w).futex = 1 ↔ w ∈ events Label.claims tr) ∧
    (events Label.claims tr).Nodup ∧
    (∀ w ∈ events Label.unlinks tr, w ∉ events Label.claims tr) ∧
    (cfg.capacity = 0 → ∀ c, s.usesRing cfg (s.pc c) = false) ∧
    ∀ c s', next cfg s c = some s' →
      (s.ringWrite cfg (s.pc c) = none → s'.buffer = s.buffer) ∧
      ∀ i, s.ringWrite cfg (s.pc c) = some i →
        i ∉ Ring.slots cfg.capacity s.head s.count ∧
          ∃ v, s'.buffer = SlotMemory.store s.buffer i v := by
  have hi := reachable_inv h.reachable
  obtain ⟨hclaim, hnodup, hgone⟩ := claims_invariant h
  refine ⟨fun hm => ⟨hi.representation hm, fun w => ?_⟩, hnodup, fun w hw => ?_,
    hi.usesRing_eq_false, fun c s' hn => ⟨fun hw => ?_, fun i hw => ⟨?_, ?_⟩⟩⟩
  · rw [hclaim, claimed_of_free hm]
  · rw [hclaim]
    exact (hgone w hw).1
  · rw [next_buffer hn, hw]
  · exact hi.ringWrite_not_mem hw
  · rw [next_buffer hn, hw]
    exact ⟨_, rfl⟩

/-- A receive that slept is claimed by a send, which has unlocked by now. -/
def servedSleeper : List (Label (Fin 3) (Fin 3)) × State (Nat → Nat) (Fin 3) (Fin 3) Nat :=
  (replay (threeCalls 0) (initial (threeCalls 0) fun _ => 0)
    (.begin 1 :: List.replicate 7 (.run 1) ++ .begin 0 :: List.replicate 9 (.run 0))).get
    (by decide)

theorem representation_invariant_servedSleeper :
    (system _ (threeCalls 0)).Run servedSleeper.1 servedSleeper.2 ∧
      servedSleeper.2.mutex = none ∧ Representation (threeCalls 0) servedSleeper.2 ∧
      events Label.claims servedSleeper.1 = [1] ∧ (servedSleeper.2.waiter 1).futex = 1 ∧
      servedSleeper.2.usesRing (threeCalls 0) (servedSleeper.2.pc 0) = false := by
  have hr : (system _ (threeCalls 0)).Run servedSleeper.1 servedSleeper.2 :=
    run_of_replay (Option.some_get _).symm
  obtain ⟨hfree, -, -, hring, -⟩ := representation_invariant hr
  have hm : servedSleeper.2.mutex = none := by decide
  have hc : events Label.claims servedSleeper.1 = [1] := by decide
  exact ⟨hr, hm, (hfree hm).1, hc, ((hfree hm).2 1).2 (by rw [hc]; decide), hring rfl 0⟩

end ZioBenchmarks.FutexChannel
