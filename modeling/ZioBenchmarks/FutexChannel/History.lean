import ZioBenchmarks.FutexChannel.Preservation

/-!
# Events of a run

What a law of the channel says about the past, it says about events: a call took the mutex on entry,
the item of a send was accepted, a receive was served, a waiter was claimed, or unlinked by its own
owner. Each is read off a label. A step is either one statement of a call, or an action of the
environment, which is none of these events and leaves the channel, the waiters and the variables as
they are (`Outside`).
-/

set_option autoImplicit false

namespace ZioBenchmarks.FutexChannel

open ZioBenchmarks.Transition State

variable {β Call Task α : Type}

namespace Label

/-- The call that took the mutex on entry. -/
def enters : Label Call Task → Option Call
  | .exec c .lock _ => some c
  | _ => none

/-- The send whose item was copied to a receiver, into the ring, or, by a receive that took it from
`senders`, into the freed slot or to the result. -/
def accepts : Label Call Task → Option Call
  | .exec c (.sendHandoff _) _ => some c
  | .exec c .sendRoom (.unlock _) => some c
  | .exec _ (.recvMove w) _ => some w
  | .exec _ (.recvTake w) _ => some w
  | _ => none

/-- As `accepts`, but a send in `senders` counts from the statement in which a receive pops it. -/
def takes : Label Call Task → Option Call
  | .exec c (.sendHandoff _) _ => some c
  | .exec c .sendRoom (.unlock _) => some c
  | .exec _ .recvRefill (.recvMove w) => some w
  | .exec _ .recvPop (.recvTake w) => some w
  | _ => none

/-- The receive an item was copied to. -/
def serves : Label Call Task → Option Call
  | .exec _ (.sendHandoff r) _ => some r
  | .exec c .recvCount .recvRefill => some c
  | .exec c (.recvTake _) _ => some c
  | _ => none

/-- The call whose waiter was popped by a peer or by `close`. -/
def claims : Label Call Task → Option Call
  | .exec _ .sendPop (.sendHandoff w) => some w
  | .exec _ .recvRefill (.recvMove w) => some w
  | .exec _ .recvPop (.recvTake w) => some w
  | .exec _ .closeReceivers (.setDone w _ _) => some w
  | .exec _ .closeSenders (.setDone w _ _) => some w
  | _ => none

/-- The call that unlinked its own waiter because it was canceled. -/
def unlinks : Label Call Task → Option Call
  | .exec c .cancelTest (.unlock _) => some c
  | _ => none

/-- The label of a statement. -/
def isExec : Label Call Task → Bool
  | .exec _ _ _ => true
  | _ => false

section Silent

variable {l : Label Call Task} (h : l.isExec = false)

include h

theorem enters_of_silent : l.enters = none := by
  cases l <;> simp_all [isExec, enters]

theorem accepts_of_silent : l.accepts = none := by
  cases l <;> simp_all [isExec, accepts]

theorem takes_of_silent : l.takes = none := by
  cases l <;> simp_all [isExec, takes]

theorem serves_of_silent : l.serves = none := by
  cases l <;> simp_all [isExec, serves]

theorem claims_of_silent : l.claims = none := by
  cases l <;> simp_all [isExec, claims]

theorem unlinks_of_silent : l.unlinks = none := by
  cases l <;> simp_all [isExec, unlinks]

end Silent

end Label

/-- What an action of the environment does: it starts a call, cancels a wait, ends a sleep, or files
a request. -/
structure Outside (cfg : Config Call Task α) (s s' : State β Call Task α) : Prop where
  impl : s'.toFutexChannelImpl = s.toFutexChannelImpl
  waiter : s'.waiter = s.waiter
  cell : s'.cell = s.cell
  pc : ∀ d, s'.pc d = s.pc d ∨ (s.pc d = .idle ∧ s'.pc d = .lock) ∨
    (s.pc d = .lock ∧ s'.pc d = .returned .canceled ∧ cfg.kind d ≠ .close) ∨
    ((s.pc d = .wait ∨ s.pc d = .waiting) ∧ s'.pc d = .cancelLock)

variable [SlotMemory β α] [DecidableEq Call] [DecidableEq Task]
variable {cfg : Config Call Task α} {s s' : State β Call Task α} {c : Call}
  {l : Label Call Task}

theorem outside_of_act {a : Act Call Task} (ha : ∀ c, a ≠ .run c) (h : act cfg s a = some s') :
    Outside cfg s s' := by
  revert h
  fun_cases act cfg s a
  case case3 c => exact absurd rfl (ha c)
  all_goals simp only [reduceCtorEq, Option.some.injEq, IsEmpty.forall_iff]
  case case12 t =>
    rintro rfl
    exact ⟨rfl, rfl, rfl, fun d => .inl rfl⟩
  all_goals
    rintro rfl
    refine ⟨rfl, rfl, rfl, fun d => ?_⟩
    simp only [goto_pc, ret_pc, setSleeping_pc]
    grind -ring -linarith -order -ac

/-- A step is a statement of a call, or it leaves the channel alone and is no event. -/
theorem step_cases (h : (system β cfg).step s l s') :
    (∃ c, next cfg s c = some s' ∧ l = execLabel s s' c) ∨
      (Outside cfg s s' ∧ l.isExec = false) := by
  obtain ⟨a, ha, rfl⟩ := h
  cases a with
  | run c => exact .inl ⟨c, ha, rfl⟩
  | begin c => exact .inr ⟨outside_of_act (by simp) ha, rfl⟩
  | cancel c => exact .inr ⟨outside_of_act (by simp) ha, rfl⟩
  | spurious c => exact .inr ⟨outside_of_act (by simp) ha, rfl⟩
  | request t => exact .inr ⟨outside_of_act (by simp) ha, rfl⟩

namespace Outside

omit [SlotMemory β α] [DecidableEq Call] [DecidableEq Task]

/-- The environment moves a call only before its entry and in its wait. -/
theorem pc_eq_of_ne (h : Outside cfg s s') (hidle : s.pc c ≠ .idle) (hlock : s.pc c ≠ .lock)
    (hwait : s.pc c ≠ .wait) (hwaiting : s.pc c ≠ .waiting) : s'.pc c = s.pc c := by
  rcases h.pc c with h | ⟨h, -⟩ | ⟨h, -⟩ | ⟨h | h, -⟩
  · exact h
  · exact absurd h hidle
  · exact absurd h hlock
  · exact absurd h hwait
  · exact absurd h hwaiting

theorem pc_eq (h : Outside cfg s s') (hc : (s.pc c).critical = true) : s'.pc c = s.pc c := by
  apply h.pc_eq_of_ne
  all_goals
    intro hp
    simp [hp, Pc.critical] at hc

theorem parked_eq (h : Outside cfg s s') (c : Call) : (s'.pc c).parked = (s.pc c).parked := by
  rcases h.pc c with h | ⟨h, h'⟩ | ⟨h, h', -⟩ | ⟨h | h, h'⟩
  · rw [h]
  all_goals rw [h, h']; rfl

theorem resumed_eq (h : Outside cfg s s') (c : Call) : (s'.pc c).resumed = (s.pc c).resumed := by
  rcases h.pc c with h | ⟨h, h'⟩ | ⟨h, h', -⟩ | ⟨h | h, h'⟩
  · rw [h]
  all_goals rw [h, h']; rfl

theorem focus_eq (h : Outside cfg s s') (hx : s.Exclusive) : s'.focus = s.focus := by
  simp only [focus, h.impl]
  split
  case h_1 => rfl
  case h_2 d hd => exact h.pc_eq ((hx d).2 hd)

theorem holder_eq (h : Outside cfg s s') (hx : s.Exclusive) : s'.holder = s.holder := by
  simp only [holder, h.impl]
  cases hm : s.mutex with
  | none => rfl
  | some d => simp [h.pc_eq ((hx d).2 hm)]

end Outside

/-- The calls of a run with a given event, in order. -/
def events (e : Label Call Task → Option Call) (tr : List (Label Call Task)) : List Call :=
  tr.filterMap e

section Events

omit [DecidableEq Call] [DecidableEq Task] [SlotMemory β α]

variable (e : Label Call Task → Option Call) (tr : List (Label Call Task))

@[simp] theorem events_nil : events e [] = [] := rfl

theorem events_append (us : List (Label Call Task)) :
    events e (tr ++ us) = events e tr ++ events e us :=
  List.filterMap_append ..

@[simp] theorem events_snoc : events e (tr ++ [l]) = events e tr ++ (e l).toList := by
  cases h : e l <;> simp [events, h]

end Events

end ZioBenchmarks.FutexChannel
