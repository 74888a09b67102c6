import ZioBenchmarks.FutexChannel.History

/-!
# Results of calls

Whether the item of a call has moved can be read off the frames at any time (`Committed`): the call
itself is past the move, or its waiter is marked as done, or the peer that moved the item is about
to mark it. So the result a call returns tells whether its item moved.
-/

set_option autoImplicit false

namespace ZioBenchmarks.FutexChannel

open ZioBenchmarks.Transition State

variable {β Call Task α : Type}

/-- Statements of a call whose own item has moved. -/
def Pc.moved : Pc Call → Bool
  | .recvRefill | .recvMove _ => true
  | .setDone _ _ k | .setQueued _ k | .storeFutex _ k | .futexWake _ k => k = .ret
  | .unlock r | .returned r => r = .ok
  | .idle | .lock | .sendClosed | .sendPop | .sendHandoff _ | .sendRoom | .recvCount | .recvPop
  | .recvTake _ | .recvClosed | .closeTest | .closeReceivers | .closeSenders | .unlockPark | .load
  | .wait | .waiting | .cancelLock | .cancelTest | .cancelUnlock | .relock | .reunlock
  | .result => false

@[simp, grind =] theorem entry_moved (k : Kind) : (k.entry : Pc Call).moved = false := by
  cases k <;> rfl

@[simp, grind =] theorem after_moved (a : After) :
    (a.pc : Pc Call).moved = decide (a = .ret) := by
  cases a <;> rfl

@[simp] theorem entry_ne_setDone (k : Kind) {w : Call} {b : Bool} {a : After} :
    k.entry ≠ .setDone w b a := by
  cases k <;> simp [Kind.entry]

@[simp] theorem after_ne_setDone (k : After) {w : Call} {b : Bool} {a : After} :
    k.pc ≠ .setDone w b a := by
  cases k <;> simp [After.pc]

/-- The item of the call has moved: the call says so itself, or its waiter does, or the peer that
moved it is about to say so. -/
def State.Committed (s : State β Call Task α) (c : Call) : Prop :=
  (s.pc c).moved = true ∨ ((s.pc c).parked = true ∨ (s.pc c).resumed = true) ∧
    ((s.waiter c).done = true ∨ s.focus = .setDone c true .ret)

attribute [grind =] Pc.moved

theorem committed_of_returned {s : State β Call Task α} {c : Call} {r : Outcome}
    (h : s.pc c = .returned r) : s.Committed c ↔ r = .ok := by
  simp [Committed, h, Pc.moved, Pc.parked, Pc.resumed]

variable [SlotMemory β α] [DecidableEq Call] [DecidableEq Task]
variable {cfg : Config Call Task α} {s s' : State β Call Task α} {c d : Call}

/-- A statement commits the call it accepts and the call it serves, and nobody else. -/
theorem next_committed (hi : Inv cfg s) (h : next cfg s c = some s')
    (hk : cfg.kind d ≠ .close) :
    s'.Committed d ↔ s.Committed d ∨
      (execLabel s s' c).accepts = some d ∨
      (execLabel s s' c).serves = some d := by
  have ha := hi.chanAt c
  have hkc := hi.kind_ok c
  have hf := hi.exclusive.focusStep (next_exclusive hi.exclusive h) (next_pc h)
  have hl := hi.linked
  have hp := hi.popped
  have hu := hi.linked_of_cancelTest (c := c)
  -- one goal for each statement: it commits the call it accepts or serves, and nobody else
  revert h ha hkc hf hu
  fun_cases next cfg s c
  all_goals simp only [reduceCtorEq, Option.some.injEq, IsEmpty.forall_iff]
  all_goals
    rintro rfl ha hkc hf hu
    simp only [FocusStep, goto_pc, ret_pc, reduceIte, entry_critical, after_critical, *]
      at hf ha hkc
    simp only [Pc.critical, reduceCtorEq, forall_const, IsEmpty.forall_iff, true_and, and_true,
      ChanAt, Pc.kindOk] at hf ha hkc
    simp only [Committed, hf]
    simp only [execLabel, Label.accepts, Label.serves, goto_pc, ret_pc, setWaiter_pc, setCell_pc,
      setSleeping_pc, remove_pc, goto_waiter, ret_waiter, setWaiter_waiter, setCell_waiter,
      setSleeping_waiter, remove_waiter, entry_ne_setDone, after_ne_setDone, reduceIte, *]
  all_goals grind -ring -linarith -order -ac

omit [SlotMemory β α] [DecidableEq Call] [DecidableEq Task] in
theorem Outside.committed_iff (h : Outside cfg s s') (hi : Inv cfg s) :
    s'.Committed d ↔ s.Committed d := by
  have hm : (s'.pc d).moved = (s.pc d).moved := by
    rcases h.pc d with h | ⟨h, h'⟩ | ⟨h, h', -⟩ | ⟨h | h, h'⟩
    · rw [h]
    all_goals rw [h, h']; rfl
  rw [Committed, Committed, hm, h.parked_eq, h.resumed_eq, h.waiter, h.focus_eq hi.exclusive]

theorem send_of_accepts (hi : Inv cfg s) (h : next cfg s c = some s')
    (hd : (execLabel s s' c).accepts = some d) :
    cfg.kind d = .send := by
  have ha := hi.chanAt c
  have hk := hi.kind_ok c
  revert h hd
  fun_cases next cfg s c
  all_goals simp only [reduceCtorEq, Option.some.injEq, IsEmpty.forall_iff]
  all_goals
    rintro rfl hd
    simp_all [execLabel, Label.accepts, Pc.critical, Pc.kindOk, ChanAt]

theorem receive_of_serves (hi : Inv cfg s) (h : next cfg s c = some s')
    (hd : (execLabel s s' c).serves = some d) :
    cfg.kind d = .receive := by
  have ha := hi.chanAt c
  have hk := hi.kind_ok c
  revert h hd
  fun_cases next cfg s c
  all_goals simp only [reduceCtorEq, Option.some.injEq, IsEmpty.forall_iff]
  all_goals
    rintro rfl hd
    simp_all [execLabel, Label.serves, Pc.critical, Pc.kindOk, ChanAt]

/-- The accepted calls are sends and the served ones receives, and a send or receive is committed
exactly if it is one of them. -/
theorem committed_invariant {tr : List (Label Call Task)} (h : (system β cfg).Run tr s) :
    (∀ d ∈ events Label.accepts tr, cfg.kind d = .send) ∧
      (∀ d ∈ events Label.serves tr, cfg.kind d = .receive) ∧
      ∀ d, cfg.kind d ≠ .close →
        (s.Committed d ↔ d ∈ events Label.accepts tr ∨ d ∈ events Label.serves tr) := by
  refine System.Run.invariant (I := fun tr s =>
    (∀ d ∈ events Label.accepts tr, cfg.kind d = .send) ∧
      (∀ d ∈ events Label.serves tr, cfg.kind d = .receive) ∧
      ∀ d, cfg.kind d ≠ .close →
        (s.Committed d ↔ d ∈ events Label.accepts tr ∨ d ∈ events Label.serves tr)) ?_ ?_ h
  · rintro _ ⟨b, rfl⟩
    simp [Committed, initial, Pc.moved, Pc.parked, Pc.resumed]
  · rintro tr s l s' hrun ⟨hsend, hrecv, hcom⟩ hstep
    have hi := reachable_inv hrun.reachable
    simp only [events_snoc, List.mem_append, Option.mem_toList]
    rcases step_cases hstep with ⟨c, hn, rfl⟩ | ⟨ho, hl⟩
    · refine ⟨fun d hd => ?_, fun d hd => ?_, fun d hd => ?_⟩
      · exact hd.elim (hsend d) (send_of_accepts hi hn)
      · exact hd.elim (hrecv d) (receive_of_serves hi hn)
      · rw [next_committed hi hn hd, hcom d hd]
        tauto
    · simp only [Label.accepts_of_silent hl, Label.serves_of_silent hl, reduceCtorEq, or_false,
        ho.committed_iff hi]
      exact ⟨hsend, hrecv, hcom⟩

/-- A finished send returned success exactly if its item was accepted. -/
theorem send_ok_iff {tr : List (Label Call Task)} (h : (system β cfg).Run tr s) {r : Outcome}
    (hk : cfg.kind c = .send) (hr : s.pc c = .returned r) :
    r = .ok ↔ c ∈ events Label.accepts tr := by
  obtain ⟨-, hrecv, hcom⟩ := committed_invariant h
  rw [← committed_of_returned hr, hcom c (by simp [hk])]
  refine or_iff_left fun hc => ?_
  simp [hrecv c hc] at hk

/-- A finished receive returned success exactly if it was served. -/
theorem receive_ok_iff {tr : List (Label Call Task)} (h : (system β cfg).Run tr s) {r : Outcome}
    (hk : cfg.kind c = .receive) (hr : s.pc c = .returned r) :
    r = .ok ↔ c ∈ events Label.serves tr := by
  obtain ⟨hsend, -, hcom⟩ := committed_invariant h
  rw [← committed_of_returned hr, hcom c (by simp [hk])]
  refine or_iff_right fun hc => ?_
  simp [hsend c hc] at hk

end ZioBenchmarks.FutexChannel
