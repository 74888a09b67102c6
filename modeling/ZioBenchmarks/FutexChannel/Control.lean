import ZioBenchmarks.FutexChannel.State

/-!
# Control points of a `FutexChannel`

Classes of statements: where a call holds the mutex, where its waiter may sit in a list, which
other waiter it works on and how far it got with it. `focus` is the one statement that may touch
what the mutex protects, so that an invariant about a claim in progress reads it instead of
quantifying over the calls.
-/

set_option autoImplicit false

namespace ZioBenchmarks.FutexChannel

variable {β Call Task α : Type}

/-- The statement behind the entry lock. -/
def Kind.entry : Kind → Pc Call
  | .send => .sendClosed
  | .receive => .recvCount
  | .close => .closeTest

/-- The statement behind a `wake`. -/
def After.pc : After → Pc Call
  | .ret => .unlock .ok
  | .closeReceivers => .closeReceivers
  | .closeSenders => .closeSenders

/-- Stages of a claim, from the pop of a waiter to the wake of its owner. -/
inductive Stage where
  /-- Popped, with `done` not yet assigned. -/
  | popped
  /-- `done` is assigned. -/
  | marked
  /-- `queued` is cleared. -/
  | storing
  /-- The futex word is stored. -/
  | waking
  deriving DecidableEq, Repr

namespace Pc

/-- Statements executed while holding the mutex. -/
@[grind =] def critical : Pc Call → Bool
  | .idle | .lock | .load | .wait | .waiting | .cancelLock | .relock | .result
  | .returned _ => false
  | _ => true

/-- Statements from the append of the call's waiter to the moment the call learns how its wait
ended. -/
@[grind =] def parked : Pc Call → Bool
  | .unlockPark | .load | .wait | .waiting | .cancelLock | .cancelTest => true
  | _ => false

/-- Statements behind a wait that a peer or `close` ended. -/
@[grind =] def resumed : Pc Call → Bool
  | .cancelUnlock | .relock | .reunlock | .result => true
  | _ => false

/-- Statements of a call that has no waiter, or not yet. -/
@[grind =] def early : Pc Call → Bool
  | .unlockPark | .load | .wait | .waiting | .cancelLock | .cancelTest | .cancelUnlock | .relock
  | .reunlock | .result | .unlock .canceled | .returned _ => false
  | _ => true

@[grind →] theorem early_of_parked {p : Pc Call} (h : p.parked = true) : p.early = false := by
  cases p <;> simp_all [parked, early]

/-- The claim a statement is part of: how far it got, and the waiter that is claimed. -/
@[grind =] def claim : Pc Call → Option (Stage × Call)
  | .sendHandoff w | .recvMove w | .recvTake w | .setDone w _ _ => some (.popped, w)
  | .setQueued w _ => some (.marked, w)
  | .storeFutex w _ => some (.storing, w)
  | .futexWake w _ => some (.waking, w)
  | .idle | .lock | .sendClosed | .sendPop | .sendRoom | .recvCount | .recvRefill | .recvPop
  | .recvClosed | .closeTest | .closeReceivers | .closeSenders | .unlock _ | .unlockPark | .load
  | .wait | .waiting | .cancelLock | .cancelTest | .cancelUnlock | .relock | .reunlock | .result
  | .returned _ => none

/-- The statement works on the waiter of `w`. -/
def Targets (p : Pc Call) (w : Call) : Prop := ∃ st, p.claim = some (st, w)

@[grind →] theorem targets_of_claim {p : Pc Call} {st : Stage} {w : Call}
    (h : p.claim = some (st, w)) : p.Targets w := ⟨st, h⟩

@[grind →] theorem Targets.unique {p : Pc Call} {st : Stage} {w w' : Call} (h : p.Targets w')
    (hc : p.claim = some (st, w)) : w' = w := by
  obtain ⟨st', hst'⟩ := h
  simp_all

@[grind →] theorem Targets.stages {p : Pc Call} {w : Call} (h : p.Targets w) :
    p.claim = some (.popped, w) ∨ p.claim = some (.marked, w) ∨
      p.claim = some (.storing, w) ∨ p.claim = some (.waking, w) := by
  obtain ⟨st, hst⟩ := h
  cases st <;> simp [hst]

end Pc

/-- The loops of `close` run in a `close`. -/
@[grind =] def After.kindOk : After → Kind → Bool
  | .ret, _ => true
  | _, k => k = .close

/-- The operations a statement belongs to. -/
@[grind =] def Pc.kindOk : Pc Call → Kind → Bool
  | .sendClosed, k | .sendPop, k | .sendHandoff _, k | .sendRoom, k => k = .send
  | .recvCount, k | .recvRefill, k | .recvMove _, k | .recvPop, k | .recvTake _, k
  | .recvClosed, k => k = .receive
  | .closeTest, k | .closeReceivers, k | .closeSenders, k => k = .close
  | .setDone _ _ a, k | .setQueued _ a, k | .storeFutex _ a, k | .futexWake _ a, k => a.kindOk k
  | .unlockPark, k | .load, k | .wait, k | .waiting, k | .cancelLock, k | .cancelTest, k
  | .cancelUnlock, k | .relock, k | .reunlock, k | .result, k => k ≠ .close
  | .unlock r, k | .returned r, k => r = .ok || k ≠ .close
  | .idle, _ | .lock, _ => true

section Classes

variable (k : Kind) (a : After)

@[simp, grind =] theorem entry_critical : (k.entry : Pc Call).critical = true := by
  cases k <;> rfl

@[simp, grind =] theorem entry_parked : (k.entry : Pc Call).parked = false := by
  cases k <;> rfl

@[simp, grind =] theorem entry_resumed : (k.entry : Pc Call).resumed = false := by
  cases k <;> rfl

@[simp, grind =] theorem entry_claim : (k.entry : Pc Call).claim = none := by
  cases k <;> rfl

@[simp, grind =] theorem entry_kindOk : (k.entry : Pc Call).kindOk k = true := by
  cases k <;> rfl

@[simp, grind =] theorem after_critical : (a.pc : Pc Call).critical = true := by
  cases a <;> rfl

@[simp, grind =] theorem after_parked : (a.pc : Pc Call).parked = false := by
  cases a <;> rfl

@[simp, grind =] theorem after_resumed : (a.pc : Pc Call).resumed = false := by
  cases a <;> rfl

@[simp, grind =] theorem after_claim : (a.pc : Pc Call).claim = none := by
  cases a <;> rfl

@[simp, grind =] theorem after_kindOk : (a.pc : Pc Call).kindOk k = a.kindOk k := by
  cases a <;> rfl

end Classes

namespace State

variable {s s' : State β Call Task α} {c : Call}

/-- The statement the holder of the mutex executes next; `idle` while the mutex is free. -/
def focus (s : State β Call Task α) : Pc Call :=
  match s.mutex with
  | none => .idle
  | some h => s.pc h

/-- The holder of the mutex is the one call at a critical statement. -/
def Exclusive (s : State β Call Task α) : Prop :=
  ∀ c, (s.pc c).critical = true ↔ s.mutex = some c

theorem focus_of_free (h : s.mutex = none) : s.focus = .idle := by
  simp [focus, h]

theorem Exclusive.focus_eq (hi : s.Exclusive) (h : (s.pc c).critical = true) :
    s.focus = s.pc c := by
  simp [focus, (hi c).1 h]

theorem Exclusive.holder_ne (hi : s.Exclusive) (h : (s.pc c).critical = false) {d : Call}
    (hd : s.mutex = some d) : d ≠ c := by
  rintro rfl
  simp [(hi d).2 hd] at h

/-- At most one call is at a critical statement. -/
theorem Exclusive.unique (hi : s.Exclusive) (h : (s.pc c).critical = true) {d : Call}
    (hd : (s.pc d).critical = true) : d = c := by
  have h1 := (hi c).1 h
  have h2 := (hi d).1 hd
  rw [h1] at h2
  exact (Option.some.inj h2).symm

theorem Exclusive.other (hi : s.Exclusive) (h : (s.pc c).critical = true) {d : Call}
    (hd : d ≠ c) : (s.pc d).critical = false := by
  cases hcr : (s.pc d).critical with
  | false => rfl
  | true => exact absurd (hi.unique h hcr) hd

/-- The holder of the mutex with the statement it executes next. -/
def holder (s : State β Call Task α) : Option (Call × Pc Call) :=
  s.mutex.map fun h => (h, s.pc h)

theorem focus_eq_holder (s : State β Call Task α) :
    s.focus = (s.holder.map Prod.snd).getD .idle := by
  cases h : s.mutex <;> simp [focus, holder, h]

theorem holder_of_free (h : s.mutex = none) : s.holder = none := by
  simp [holder, h]

/-- How a step of `c` moves the holder: it is `c` inside a section of `c`, and stays what it is
while `c` is outside. -/
def HolderStep (s s' : State β Call Task α) (c : Call) : Prop :=
  ((s.pc c).critical = true → s.holder = some (c, s.pc c)) ∧
  ((s'.pc c).critical = true → s'.holder = some (c, s'.pc c)) ∧
  ((s.pc c).critical = true → (s'.pc c).critical = false → s'.holder = none) ∧
  ((s.pc c).critical = false → (s'.pc c).critical = true → s.holder = none) ∧
  ((s.pc c).critical = false → (s'.pc c).critical = false → s'.holder = s.holder)

theorem Exclusive.holder_eq (hi : s.Exclusive) (h : (s.pc c).critical = true) :
    s.holder = some (c, s.pc c) := by
  simp [holder, (hi c).1 h]

theorem Exclusive.holderStep (hi : s.Exclusive) (hi' : s'.Exclusive)
    (hpc : ∀ d, d ≠ c → s'.pc d = s.pc d) : HolderStep s s' c := by
  -- nobody else can have taken or released the mutex
  have key : ∀ d, d ≠ c → (s'.mutex = some d ↔ s.mutex = some d) := by
    intro d hd
    rw [← hi, ← hi', hpc d hd]
  refine ⟨hi.holder_eq, hi'.holder_eq, ?_, ?_, ?_⟩
  · intro h h'
    apply holder_of_free
    cases hm : s'.mutex with
    | none => rfl
    | some d =>
        have hd := hi'.holder_ne h' hm
        have hd' := (key d hd).1 hm
        rw [(hi c).1 h] at hd'
        exact absurd (Option.some.inj hd').symm hd
  · intro h h'
    apply holder_of_free
    cases hm : s.mutex with
    | none => rfl
    | some d =>
        have hd := hi.holder_ne h hm
        have hd' := (key d hd).2 hm
        rw [(hi' c).1 h'] at hd'
        exact absurd (Option.some.inj hd').symm hd
  · intro h h'
    cases hm : s.mutex with
    | some d =>
        have hd := hi.holder_ne h hm
        simp [holder, hm, (key d hd).2 hm, hpc d hd]
    | none =>
        rw [holder_of_free hm]
        apply holder_of_free
        cases hm' : s'.mutex with
        | none => rfl
        | some d =>
            rw [(key d (hi'.holder_ne h' hm')).1 hm'] at hm
            simp at hm

/-- How a step of `c` moves the focus. -/
def FocusStep (s s' : State β Call Task α) (c : Call) : Prop :=
  ((s.pc c).critical = true → s.focus = s.pc c) ∧
  ((s'.pc c).critical = true → s'.focus = s'.pc c) ∧
  ((s.pc c).critical = true → (s'.pc c).critical = false → s'.focus = .idle) ∧
  ((s.pc c).critical = false → (s'.pc c).critical = true → s.focus = .idle) ∧
  ((s.pc c).critical = false → (s'.pc c).critical = false → s'.focus = s.focus)

theorem Exclusive.focusStep (hi : s.Exclusive) (hi' : s'.Exclusive)
    (hpc : ∀ d, d ≠ c → s'.pc d = s.pc d) : FocusStep s s' c := by
  obtain ⟨h1, h2, h3, h4, h5⟩ := hi.holderStep hi' hpc
  refine ⟨fun h => ?_, fun h => ?_, fun h h' => ?_, fun h h' => ?_, fun h h' => ?_⟩
  · simp [focus_eq_holder, h1 h]
  · simp [focus_eq_holder, h2 h]
  · simp [focus_eq_holder, h3 h h']
  · simp [focus_eq_holder, h4 h h']
  · simp [focus_eq_holder, h5 h h']

end State

end ZioBenchmarks.FutexChannel
