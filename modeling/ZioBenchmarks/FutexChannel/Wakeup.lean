import ZioBenchmarks.FutexChannel.Preservation

/-!
# No lost wakeup

A state in which no call can execute a statement is one where every unfinished call is justified in
waiting: the mutex is free, the channel is open, and either the unfinished calls are the receives
in `receivers` of an empty channel, or they are the sends in `senders` of a full one.
-/

set_option autoImplicit false

namespace ZioBenchmarks.FutexChannel

open ZioBenchmarks.Transition

variable {β Call Task α : Type} [SlotMemory β α] [DecidableEq Call] [DecidableEq Task]
variable {cfg : Config Call Task α} {s : State β Call Task α} {c : Call}

/-- No call can execute a statement. -/
def Quiescent (cfg : Config Call Task α) (s : State β Call Task α) : Prop :=
  ∀ c, next cfg s c = none

/-- The call was made and has not returned. -/
def State.Unfinished (s : State β Call Task α) (c : Call) : Prop :=
  s.pc c ≠ .idle ∧ ∀ r, s.pc c ≠ .returned r

/-- Nothing blocks the holder of the mutex. -/
theorem next_ne_none_of_critical (h : (s.pc c).critical = true) : next cfg s c ≠ none := by
  revert h
  fun_cases next cfg s c
  all_goals simp_all [Pc.critical]

/-- With the mutex free, only the sleepers are blocked. -/
theorem next_eq_none (hm : s.mutex = none) (h : next cfg s c = none) :
    s.pc c = .idle ∨ (∃ r, s.pc c = .returned r) ∨ (s.pc c = .waiting ∧ s.sleeping c = true) := by
  revert h
  fun_cases next cfg s c
  all_goals simp_all

theorem Quiescent.mutex_free (hi : Inv cfg s) (hq : Quiescent cfg s) : s.mutex = none := by
  cases hm : s.mutex with
  | none => rfl
  | some h => exact absurd (hq h) (next_ne_none_of_critical ((hi.exclusive h).2 hm))

omit [SlotMemory β α] [DecidableEq Call] [DecidableEq Task] in
/-- A call that sleeps with nobody working on its waiter is linked. -/
theorem Inv.linked_of_sleeping (hi : Inv cfg s) (hm : s.mutex = none) (hs : s.sleeping c = true) :
    Linked s.toFutexChannelImpl c ∧ (s.waiter c).futex = 0 := by
  obtain ⟨hpc, hfutex⟩ := hi.sleeping c hs
  rw [State.focus_of_free hm] at hfutex
  have hp := hi.parked c (by rw [hpc]; rfl)
  rw [State.focus_of_free hm] at hp
  rcases hp with hl | ht | hc
  · exact ⟨hl, (hi.linked c hl).2.2.1⟩
  · simp [Pc.Targets, Pc.claim] at ht
  · simp [Pc.claim, hc.2] at hfutex

theorem Quiescent.linked (hi : Inv cfg s) (hq : Quiescent cfg s) (hc : s.Unfinished c) :
    Linked s.toFutexChannelImpl c := by
  have hm := hq.mutex_free hi
  rcases next_eq_none hm (hq c) with h | ⟨r, h⟩ | ⟨-, h⟩
  · exact absurd h hc.1
  · exact absurd h (hc.2 r)
  · exact (hi.linked_of_sleeping hm h).1

omit [SlotMemory β α] [DecidableEq Call] [DecidableEq Task] in
/-- Waiting is justified: of the two lists at most one is in use, and the one in use says why its
calls cannot go on. -/
theorem Inv.waiting_justified (hi : Inv cfg s) (hm : s.mutex = none)
    (hl : Linked s.toFutexChannelImpl c) :
    s.closed = false ∧
      ((cfg.kind c = .receive ∧ s.count = 0 ∧ s.senders = []) ∨
        (cfg.kind c = .send ∧ s.count = cfg.capacity ∧ s.receivers = [])) := by
  -- with the mutex free the channel is settled: who waits has a reason to
  have hset : Settled cfg s.toFutexChannelImpl := by
    have ha := hi.chan_at
    rwa [State.focus_of_free hm] at ha
  have hopen : s.closed = false := by
    cases hc : s.closed with
    | false => rfl
    | true =>
        obtain ⟨hs, hr⟩ := hset.2 hc
        simp [Linked, hs, hr] at hl
  refine ⟨hopen, ?_⟩
  rcases hl with hs | hr
  · right
    refine ⟨hi.senders_kind c hs, hset.1 (List.ne_nil_of_mem hs), ?_⟩
    by_contra hne
    rw [(hi.receivers_empty hne).2] at hs
    simp at hs
  · left
    exact ⟨hi.receivers_kind c hr, hi.receivers_empty (List.ne_nil_of_mem hr)⟩

/-- Where no call can execute a statement, the unfinished calls are blocked receives of an empty
open channel, or blocked sends of a full one; no sleeper was missed by a store to its futex word,
and a closed channel has no sleepers. -/
theorem no_lost_wakeup (h : (system β cfg).Reachable s) (hq : Quiescent cfg s) :
    ((∃ c, s.Unfinished c) → s.mutex = none ∧ s.closed = false ∧
      ((s.count = 0 ∧ s.senders = [] ∧
          ∀ c, s.Unfinished c → cfg.kind c = .receive ∧ c ∈ s.receivers) ∨
        (s.count = cfg.capacity ∧ s.receivers = [] ∧
          ∀ c, s.Unfinished c → cfg.kind c = .send ∧ c ∈ s.senders))) ∧
      (∀ c, s.sleeping c = true → (s.waiter c).futex = 0) ∧
      (s.closed = true → ∀ c, s.sleeping c = false) := by
  have hi := reachable_inv h
  -- a holder of the mutex could go on, so in a quiescent state nobody holds it
  have hm := hq.mutex_free hi
  refine ⟨?_, fun c hc => (hi.linked_of_sleeping hm hc).2, ?_⟩
  · rintro ⟨c, hc⟩
    obtain ⟨hopen, hwhy⟩ := hi.waiting_justified hm (hq.linked hi hc)
    refine ⟨hm, hopen, ?_⟩
    rcases hwhy with ⟨-, hcount, hs⟩ | ⟨-, hcount, hr⟩
    · left
      refine ⟨hcount, hs, fun d hd => ?_⟩
      rcases hq.linked hi hd with h | h
      · simp [hs] at h
      · exact ⟨hi.receivers_kind d h, h⟩
    · right
      refine ⟨hcount, hr, fun d hd => ?_⟩
      rcases hq.linked hi hd with h | h
      · exact ⟨hi.senders_kind d h, h⟩
      · simp [hr] at h
  · intro hclosed c
    cases hc : s.sleeping c with
    | false => rfl
    | true =>
        have := (hi.waiting_justified hm (hi.linked_of_sleeping hm hc).1).1
        simp [hclosed] at this

/-- The receive of `threeCalls` finds nothing and goes to sleep. -/
def blockedReceive : List (Label (Fin 3) (Fin 3)) × State (Nat → Nat) (Fin 3) (Fin 3) Nat :=
  (replay (threeCalls 1) (initial (threeCalls 1) fun _ => 0)
    (.begin 1 :: List.replicate 7 (.run 1))).get (by decide)

/-- There the sleeper is the one receive in `receivers`. -/
theorem no_lost_wakeup_blocked_receive :
    (system _ (threeCalls 1)).Reachable blockedReceive.2 ∧
      Quiescent (threeCalls 1) blockedReceive.2 ∧ blockedReceive.2.Unfinished 1 ∧
      blockedReceive.2.mutex = none ∧ blockedReceive.2.closed = false ∧
      1 ∈ blockedReceive.2.receivers ∧ (blockedReceive.2.waiter 1).futex = 0 := by
  have hr : (system _ (threeCalls 1)).Reachable blockedReceive.2 :=
    (run_of_replay (Option.some_get _).symm).reachable
  have hnone : ∀ c, (next (threeCalls 1) blockedReceive.2 c).isNone = true := by decide
  have hq : Quiescent (threeCalls 1) blockedReceive.2 :=
    fun c => Option.isNone_iff_eq_none.1 (hnone c)
  have hpc : blockedReceive.2.pc 1 = .waiting := by decide
  have hu : blockedReceive.2.Unfinished 1 := by simp [State.Unfinished, hpc]
  obtain ⟨hmain, hsleep, -⟩ := no_lost_wakeup hr hq
  obtain ⟨hm, hc, hwhy⟩ := hmain ⟨1, hu⟩
  refine ⟨hr, hq, hu, hm, hc, ?_, hsleep 1 (by decide)⟩
  rcases hwhy with ⟨-, -, hall⟩ | ⟨-, -, hall⟩
  · exact (hall 1 hu).2
  · exact absurd (hall 1 hu).1 (by decide)

end ZioBenchmarks.FutexChannel
