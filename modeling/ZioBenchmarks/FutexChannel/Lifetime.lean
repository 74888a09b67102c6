import ZioBenchmarks.FutexChannel.Preservation

/-!
# Lifetime of a waiter

A waiter lives in the stack frame of the call that blocked. The woken owner may leave its wait loop
while its waker still has `futexWake` to run on the futex word, and only the lock at the end of
`park` keeps the frame alive. `touched` names the waiter a statement works on, and `next_frame` says
that the statement leaves every other frame alone.
-/

set_option autoImplicit false

namespace ZioBenchmarks.FutexChannel

open ZioBenchmarks.Transition State

variable {β Call Task α : Type}

/-- The waiter of another call that the statement pops, copies from or to, writes, or wakes. -/
def State.touched (s : State β Call Task α) : Pc Call → Option Call
  | .sendPop | .closeReceivers => s.receivers.head?
  | .recvRefill | .recvPop | .closeSenders => s.senders.head?
  | .sendHandoff w | .recvMove w | .recvTake w | .setDone w _ _ | .setQueued w _
  | .storeFutex w _ | .futexWake w _ => some w
  | _ => none

/-- The call is between the append of its waiter and the lock that ends `park`. -/
def Pc.Alive (p : Pc Call) : Prop := p.parked = true ∨ p = .relock

theorem Pc.Alive.not_returned {p : Pc Call} (h : p.Alive) (r : Outcome) : p ≠ .returned r := by
  rintro rfl
  simp [Pc.Alive, Pc.parked] at h

theorem Inv.alive_of_linked {cfg : Config Call Task α} {s : State β Call Task α} (hi : Inv cfg s)
    {w : Call} (h : Linked s.toFutexChannelImpl w) : (s.pc w).Alive :=
  .inl (hi.linked w h).1

/-- Whatever the stage of a claim, the owner of the waiter is still in `park`. -/
theorem Inv.alive_of_claim {cfg : Config Call Task α} {s : State β Call Task α} (hi : Inv cfg s)
    {st : Stage} {w : Call} (h : s.focus.claim = some (st, w)) : (s.pc w).Alive := by
  cases st with
  | popped => exact .inl (hi.popped w h).2.1.1
  | marked => exact .inl (hi.marked w h).2.1.1
  | storing => exact .inl (hi.storing w h).1.1
  | waking => exact (hi.waking w h).1.imp_left And.left

/-- A touched waiter is linked, or in the middle of a claim. -/
theorem linked_or_claim_of_touched {s : State β Call Task α} {p : Pc Call} {w : Call}
    (h : s.touched p = some w) : Linked s.toFutexChannelImpl w ∨ ∃ st, p.claim = some (st, w) := by
  cases p
  case sendPop => exact .inl (.inr (List.mem_of_head? h))
  case closeReceivers => exact .inl (.inr (List.mem_of_head? h))
  case recvRefill => exact .inl (.inl (List.mem_of_head? h))
  case recvPop => exact .inl (.inl (List.mem_of_head? h))
  case closeSenders => exact .inl (.inl (List.mem_of_head? h))
  all_goals simp_all [touched, Pc.claim]

theorem critical_of_claim {p : Pc Call} {st : Stage} {w : Call} (h : p.claim = some (st, w)) :
    p.critical = true := by
  cases p
  all_goals simp_all [Pc.claim, Pc.critical]

theorem Inv.alive_of_touched {cfg : Config Call Task α} {s : State β Call Task α}
    (hi : Inv cfg s) {c w : Call} (h : s.touched (s.pc c) = some w) : (s.pc w).Alive := by
  rcases linked_or_claim_of_touched h with hl | ⟨st, hst⟩
  · exact hi.alive_of_linked hl
  · rw [← hi.exclusive.focus_eq (critical_of_claim hst)] at hst
    exact hi.alive_of_claim hst

variable [SlotMemory β α] [DecidableEq Call] [DecidableEq Task]
variable {cfg : Config Call Task α} {s s' : State β Call Task α} {c d : Call}

/-- A statement leaves the frame of every call it does not touch as it was. -/
theorem next_frame (h : next cfg s c = some s') (hd : d ≠ c) (ht : s.touched (s.pc c) ≠ some d) :
    s'.waiter d = s.waiter d ∧ s'.cell d = s.cell d ∧ s'.sleeping d = s.sleeping d ∧
      (Linked s'.toFutexChannelImpl d ↔ Linked s.toFutexChannelImpl d) := by
  have hrs : d ∈ s.senders.erase c ↔ d ∈ s.senders := List.mem_erase_of_ne hd
  have hrr : d ∈ s.receivers.erase c ↔ d ∈ s.receivers := List.mem_erase_of_ne hd
  revert h ht
  fun_cases next cfg s c
  all_goals simp only [reduceCtorEq, Option.some.injEq, IsEmpty.forall_iff]
  all_goals
    rintro rfl ht
    simp only [touched, *] at ht
    simp only [Linked, goto_impl, goto_waiter, goto_cell, goto_sleeping, ret_impl, ret_waiter,
      ret_cell, ret_sleeping, setWaiter_impl, setWaiter_waiter, setWaiter_cell, setWaiter_sleeping,
      setCell_impl, setCell_waiter, setCell_cell, setCell_sleeping, setSleeping_impl,
      setSleeping_waiter, setSleeping_cell, setSleeping_sleeping, remove_senders, remove_receivers,
      remove_waiter, remove_cell, remove_sleeping]
    grind -ring -linarith -order -ac

/-- No statement works on the waiter of a call that has returned, or is linked to one. -/
theorem touched_not_returned (h : (system β cfg).Reachable s) :
    (∀ c w, s.touched (s.pc c) = some w → ∀ r, s.pc w ≠ .returned r) ∧
      (∀ w, w ∈ s.senders ∨ w ∈ s.receivers → ∀ r, s.pc w ≠ .returned r) ∧
      ∀ c s', next cfg s c = some s' → ∀ w, w ≠ c →
        s'.waiter w ≠ s.waiter w ∨ s'.cell w ≠ s.cell w ∨ s'.sleeping w ≠ s.sleeping w →
        ∀ r, s.pc w ≠ .returned r := by
  have hi := reachable_inv h
  refine ⟨fun c w hw => (hi.alive_of_touched hw).not_returned, fun w hw =>
    (hi.alive_of_linked hw).not_returned, ?_⟩
  intro c s' hs w hwc hchange
  by_cases ht : s.touched (s.pc c) = some w
  · exact (hi.alive_of_touched ht).not_returned
  · obtain ⟨h1, h2, h3, -⟩ := next_frame hs hwc ht
    simp [h1, h2, h3] at hchange

/-- The receive sleeps, the send hands its item over and stores the futex word, and the receive
wakes spuriously and sees the word before the send has called `futexWake`. -/
def wakeRace : List (Label (Fin 3) (Fin 3)) × State (Nat → Nat) (Fin 3) (Fin 3) Nat :=
  (replay (threeCalls 1) (initial (threeCalls 1) fun _ => 0)
    (.begin 1 :: List.replicate 7 (.run 1) ++ .begin 0 :: List.replicate 7 (.run 0) ++
      [.spurious 1, .run 1, .run 1])).get (by decide)

theorem touched_not_returned_wakeRace :
    wakeRace.2.pc 0 = .futexWake 1 .ret ∧ wakeRace.2.pc 1 = .relock ∧
      wakeRace.2.touched (wakeRace.2.pc 0) = some 1 ∧ ∀ r, wakeRace.2.pc 1 ≠ .returned r := by
  have hr : (system _ (threeCalls 1)).Reachable wakeRace.2 :=
    (run_of_replay (Option.some_get _).symm).reachable
  have ht : wakeRace.2.touched (wakeRace.2.pc 0) = some 1 := by decide
  exact ⟨by decide, by decide, ht, (touched_not_returned hr).1 0 1 ht⟩

end ZioBenchmarks.FutexChannel
