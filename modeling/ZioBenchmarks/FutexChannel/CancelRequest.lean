import ZioBenchmarks.FutexChannel.History

/-!
# What becomes of a cancel request

A wait that reports `error.Canceled` has consumed the request of its task. `park` hands the error on
if the waiter is still queued, and drops it if a peer has claimed the waiter before `park` got the
mutex: the call then returns as if it had been woken, and no statement files the request again.
-/

set_option autoImplicit false

namespace ZioBenchmarks.FutexChannel

open ZioBenchmarks.Transition State

variable {β Call Task α : Type}

/-- The call whose wait consumed the request of its task. -/
def Label.consumes : Label Call Task → Option Call
  | .cancel c _ => some c
  | _ => none

/-- The call whose `park` found, behind a canceled wait, that its waiter is not queued any more. -/
def Label.losesRace : Label Call Task → Option Call
  | .exec c .cancelTest .cancelUnlock => some c
  | _ => none

/-- Statements behind a lost race. -/
def Pc.RaceLost (p : Pc Call) : Prop :=
  p = .cancelUnlock ∨ p = .result ∨ ∃ r, p = .returned r ∧ r ≠ .canceled

/-- Statements between a wait that reported `error.Canceled` and the return of the error. -/
def Pc.Canceling (p : Pc Call) : Prop :=
  p = .cancelLock ∨ p = .cancelTest ∨ p = .unlock .canceled ∨ p = .returned .canceled

variable [SlotMemory β α] [DecidableEq Call] [DecidableEq Task]
variable {cfg : Config Call Task α} {s s' : State β Call Task α} {c d : Call}
  {tr : List (Label Call Task)} {l : Label Call Task}

/-- The step returns `r` from `c`, and if a wait of `c` has consumed the request of its task, `r` is
`error.Canceled` or the request is pending again. -/
def RequestKept (cfg : Config Call Task α) (tr : List (Label Call Task))
    (s s' : State β Call Task α) (c : Call) : Prop :=
  ∀ r, s.pc c ≠ .returned r → s'.pc c = .returned r → c ∈ events Label.consumes tr →
    r = .canceled ∨ s'.cancel (cfg.task c) = true

/-- A canceled wait that wins the race leads to `error.Canceled`. -/
theorem next_canceling (h : next cfg s c = some s') (hl : (execLabel s s' c).losesRace ≠ some d)
    (hd : (s.pc d).Canceling) : (s'.pc d).Canceling := by
  by_cases hdc : d = c
  · subst hdc
    rcases hd with hp | hp | hp | hp
    · simp only [next, hp] at h
      split at h
      case isTrue =>
        -- the waiter is queued no more: somebody claimed it, and the call loses the race
        obtain rfl := Option.some.inj h
        exact .inr (.inl (by simp))
      case isFalse => simp at h
    · simp only [next, hp] at h
      split at h
      case isTrue =>
        obtain rfl := Option.some.inj h
        exact .inr (.inr (.inl (by simp)))
      case isFalse =>
        obtain rfl := Option.some.inj h
        simp [execLabel, hp, Label.losesRace] at hl
    · simp only [next, hp, Option.some.injEq] at h
      subst h
      exact .inr (.inr (.inr (by simp)))
    · simp [next, hp] at h
  · rwa [next_pc h d hdc]

/-- Behind a lost race the call does not report `error.Canceled`. -/
theorem next_raceLost (h : next cfg s c = some s')
    (hd : (s.pc d).RaceLost ∨ (execLabel s s' c).losesRace = some d) : (s'.pc d).RaceLost := by
  rcases hd with hd | hl
  · by_cases hdc : d = c
    · subst hdc
      rcases hd with hp | hp | ⟨r, hp, -⟩
      · simp only [next, hp, Option.some.injEq] at h
        subst h
        exact .inr (.inl (by simp))
      · simp only [next, hp] at h
        split at h
        case isTrue =>
          obtain rfl := Option.some.inj h
          exact .inr (.inr ⟨.ok, by simp⟩)
        case isFalse =>
          obtain rfl := Option.some.inj h
          exact .inr (.inr ⟨.closed, by simp⟩)
      · simp [next, hp] at h
    · rwa [next_pc h d hdc]
  -- the race is lost where `cancelTest` finds the waiter unlinked
  · cases hp : s.pc c
    case cancelTest =>
      simp only [next, hp] at h
      split at h
      case isTrue =>
        obtain rfl := Option.some.inj h
        simp [execLabel, hp, Label.losesRace] at hl
      case isFalse =>
        obtain rfl := Option.some.inj h
        simp only [execLabel, hp, goto_pc, reduceIte, Label.losesRace, Option.some.injEq] at hl
        exact .inl (by simp [hl])
    all_goals simp [execLabel, hp, Label.losesRace] at hl

/-- A step of the environment that cancels a wait puts its call on the way to `error.Canceled`. -/
theorem canceling_of_consumes (h : (system β cfg).step s l s') (hc : l.consumes = some c) :
    (s'.pc c).Canceling := by
  obtain ⟨a, ha, rfl⟩ := h
  cases a
  case cancel d =>
    simp only [Act.label, Label.consumes, Option.some.injEq] at hc
    subst hc
    obtain ⟨-, ⟨-, -, rfl⟩ | ⟨-, rfl⟩⟩ := act_cancel ha
    · exact .inr (.inr (.inr (by simp)))
    · exact .inl (by simp)
  all_goals simp [Act.label, execLabel, Label.consumes] at hc

/-- A call whose wait consumed a request is about to report it, or has reported it, unless it lost
the race. -/
theorem canceling_invariant (h : (system β cfg).Run tr s) :
    (∀ c ∈ events Label.consumes tr, c ∉ events Label.losesRace tr → (s.pc c).Canceling) ∧
      ∀ c ∈ events Label.losesRace tr, (s.pc c).RaceLost := by
  refine System.Run.invariant (I := fun tr s =>
    (∀ c ∈ events Label.consumes tr, c ∉ events Label.losesRace tr → (s.pc c).Canceling) ∧
      ∀ c ∈ events Label.losesRace tr, (s.pc c).RaceLost) ?_ ?_ h
  · rintro _ ⟨b, rfl⟩
    simp
  · intro tr s l s' hrun ih hstep
    obtain ⟨hcanceling, hlost⟩ := ih
    simp only [events_snoc, List.mem_append, Option.mem_toList, not_or]
    constructor
    · rintro c (hc | hc) ⟨hl, hl'⟩
      -- the call consumed its request before this step
      · have hp := hcanceling c hc hl
        rcases step_cases hstep with ⟨d, hn, rfl⟩ | ⟨ho, -⟩
        · exact next_canceling hn hl' hp
        · rwa [ho.pc_eq_of_ne]
          all_goals
            intro h'
            simp [h', Pc.Canceling] at hp
      -- the call consumes its request with this step
      · exact canceling_of_consumes hstep hc
    · intro c hc
      rcases step_cases hstep with ⟨d, hn, rfl⟩ | ⟨ho, hl⟩
      · exact next_raceLost hn (hc.imp_left (hlost c))
      · have hp : (s.pc c).RaceLost := by
          refine hc.elim (hlost c) fun hl' => ?_
          cases l <;> simp_all [Label.isExec, Label.losesRace]
        rwa [ho.pc_eq_of_ne]
        all_goals
          intro h'
          simp [h', Pc.RaceLost] at hp

/-- A finished call whose wait consumed a request reports `error.Canceled` exactly if it did not
lose the race. -/
theorem canceled_iff (h : (system β cfg).Run tr s) {r : Outcome}
    (hc : c ∈ events Label.consumes tr) (hr : s.pc c = .returned r) :
    r = .canceled ↔ c ∉ events Label.losesRace tr := by
  obtain ⟨hcanceling, hlost⟩ := canceling_invariant h
  constructor
  · rintro rfl hl
    simpa [hr, Pc.RaceLost] using hlost c hl
  · intro hl
    simpa [hr, Pc.Canceling] using hcanceling c hc hl

/-- A call whose canceled wait does not find its waiter claimed loses no request. -/
theorem request_kept (h : (system β cfg).Run tr s) (hstep : (system β cfg).step s l s')
    (hl : c ∉ events Label.losesRace (tr ++ [l])) : RequestKept cfg (tr ++ [l]) s s' c :=
  fun _ _ hr hc => .inl ((canceled_iff (h.snoc hstep) hc hr).2 hl)

/-! ## A request that is lost -/

/-- The receive sleeps, its task is asked to cancel, and `futexWait` reports it. -/
def canceledSleeper : List (Act (Fin 3) (Fin 3)) :=
  .begin 1 :: List.replicate 7 (.run 1) ++ [.request 1, .cancel 1]

/-- The waiter is still queued when the receive gets the mutex. -/
def keptRequest : List (Label (Fin 3) (Fin 3)) × State (Nat → Nat) (Fin 3) (Fin 3) Nat :=
  (replay (threeCalls 1) (initial (threeCalls 1) fun _ => 0)
    (canceledSleeper ++ List.replicate 2 (.run 1))).get (by decide)

/-- The receive returns. -/
def keptReturn : State (Nat → Nat) (Fin 3) (Fin 3) Nat :=
  (next (threeCalls 1) keptRequest.2 1).get (by decide)

theorem request_kept_keptReturn :
    keptReturn.pc 1 = .returned .canceled ∧
      RequestKept (threeCalls 1) (keptRequest.1 ++ [execLabel keptRequest.2 keptReturn 1])
        keptRequest.2 keptReturn 1 := by
  have hr : (system _ (threeCalls 1)).Run keptRequest.1 keptRequest.2 :=
    run_of_replay (Option.some_get _).symm
  have hstep : (system _ (threeCalls 1)).step keptRequest.2
      (execLabel keptRequest.2 keptReturn 1) keptReturn :=
    ⟨.run 1, (Option.some_get _).symm, rfl⟩
  exact ⟨by decide, request_kept hr hstep (by decide)⟩

/-- A send claims the waiter before the receive gets the mutex. -/
def lostRequest : List (Label (Fin 3) (Fin 3)) × State (Nat → Nat) (Fin 3) (Fin 3) Nat :=
  (replay (threeCalls 1) (initial (threeCalls 1) fun _ => 0)
    (canceledSleeper ++ .begin 0 :: List.replicate 9 (.run 0) ++ List.replicate 3 (.run 1))).get
      (by decide)

/-- The receive returns, and its task is not asked to cancel any more. -/
def lostReturn : State (Nat → Nat) (Fin 3) (Fin 3) Nat :=
  (next (threeCalls 1) lostRequest.2 1).get (by decide)

theorem request_lost :
    (system _ (threeCalls 1)).Run lostRequest.1 lostRequest.2 ∧
      (system _ (threeCalls 1)).step lostRequest.2 (execLabel lostRequest.2 lostReturn 1)
        lostReturn ∧
      ¬ RequestKept (threeCalls 1) (lostRequest.1 ++ [execLabel lostRequest.2 lostReturn 1])
        lostRequest.2 lostReturn 1 := by
  refine ⟨run_of_replay (Option.some_get _).symm, ⟨.run 1, (Option.some_get _).symm, rfl⟩, ?_⟩
  intro hkept
  have hpc : lostReturn.pc 1 = .returned .ok := by decide
  have hcancel : lostReturn.cancel 1 = false := by decide
  have hconsumes : 1 ∈ events Label.consumes
      (lostRequest.1 ++ [execLabel lostRequest.2 lostReturn 1]) := by decide
  have hbefore : lostRequest.2.pc 1 ≠ .returned .ok := by decide
  rcases hkept .ok hbefore hpc hconsumes with h | h
  · cases h
  · exact absurd (hcancel.symm.trans h) (by decide)

end ZioBenchmarks.FutexChannel
