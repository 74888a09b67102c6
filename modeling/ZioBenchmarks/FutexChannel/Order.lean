import ZioBenchmarks.FutexChannel.History

/-!
# The order of sends and receives

The sends that entered and are still to be decided form one queue: the waiter a receive is taking,
the list `senders`, and the send that holds the mutex. A step takes accepted sends off its front, or
drops a send from it, and only an entry appends to it. The receives have such a queue too. So sends
are accepted, and receives served, in the order in which they took the mutex on entry.
-/

set_option autoImplicit false

namespace ZioBenchmarks.FutexChannel

open ZioBenchmarks.Transition State

variable {β Call Task α : Type}

namespace Pc

/-- The send a receive has popped and not yet copied from. -/
def taking : Pc Call → Option Call
  | .recvMove w | .recvTake w => some w
  | _ => none

/-- The receive a send has popped and not yet copied to. -/
def handing : Pc Call → Option Call
  | .sendHandoff r => some r
  | _ => none

/-- Statements of a send that has not found out how its item leaves. -/
def offering : Pc Call → Bool
  | .sendClosed | .sendPop | .sendHandoff _ | .sendRoom => true
  | _ => false

/-- Statements of a receive that has not found an item. -/
def asking : Pc Call → Bool
  | .recvCount | .recvPop | .recvTake _ | .recvClosed => true
  | _ => false

/-- The call has taken the mutex on entry, or was canceled before. -/
def Entered (p : Pc Call) : Prop := p ≠ .idle ∧ p ≠ .lock

end Pc

section Entry

variable (k : Kind) (a : After)

@[simp] theorem entry_taking : (k.entry : Pc Call).taking = none := by
  cases k <;> rfl

@[simp] theorem entry_handing : (k.entry : Pc Call).handing = none := by
  cases k <;> rfl

@[simp] theorem entry_offering : (k.entry : Pc Call).offering = decide (k = .send) := by
  cases k <;> rfl

@[simp] theorem entry_asking : (k.entry : Pc Call).asking = decide (k = .receive) := by
  cases k <;> rfl

@[simp] theorem after_taking : (a.pc : Pc Call).taking = none := by
  cases a <;> rfl

@[simp] theorem after_handing : (a.pc : Pc Call).handing = none := by
  cases a <;> rfl

@[simp] theorem after_offering : (a.pc : Pc Call).offering = false := by
  cases a <;> rfl

@[simp] theorem after_asking : (a.pc : Pc Call).asking = false := by
  cases a <;> rfl

theorem entry_entered : (k.entry : Pc Call).Entered := by
  cases k <;> simp [Pc.Entered, Kind.entry]

theorem after_entered : (a.pc : Pc Call).Entered := by
  cases a <;> simp [Pc.Entered, After.pc]

end Entry

/-- The sends that are still to be decided, in the order in which they entered. -/
def State.sendQueue (s : State β Call Task α) : List Call :=
  match s.holder with
  | none => s.senders
  | some (h, p) => p.taking.toList ++ s.senders ++ if p.offering then [h] else []

/-- The receives that are still to be decided, in the order in which they entered. -/
def State.recvQueue (s : State β Call Task α) : List Call :=
  match s.holder with
  | none => s.receivers
  | some (h, p) => p.handing.toList ++ s.receivers ++ if p.asking then [h] else []

variable [SlotMemory β α] [DecidableEq Call] [DecidableEq Task]
variable {cfg : Config Call Task α} {s s' : State β Call Task α} {c : Call}

/-- A statement accepts the front of the queue, drops a send from it, or appends one that enters. -/
theorem next_sendQueue (hi : Inv cfg s) (h : next cfg s c = some s') :
    ((execLabel s s' c).accepts.toList ++ s'.sendQueue).Sublist
      (s.sendQueue ++ (execLabel s s' c).enters.toList) := by
  have ha := hi.chan_at
  have hh := hi.exclusive.holderStep (next_exclusive hi.exclusive h) (next_pc h)
  have hf := hi.exclusive.focus_eq (c := c)
  -- one goal for each statement of the code; most leave the queue of sends alone
  revert h hh hf
  fun_cases next cfg s c
  all_goals simp only [reduceCtorEq, Option.some.injEq, IsEmpty.forall_iff]
  all_goals
    rintro rfl hh hf
    simp only [HolderStep, goto_pc, ret_pc, reduceIte, entry_critical, after_critical, *] at hh hf
    simp only [Pc.critical, reduceCtorEq, forall_const, IsEmpty.forall_iff, true_and,
      and_true] at hh hf
    simp only [sendQueue, hh]
    simp only [execLabel, Label.accepts, Label.enters, goto_pc, ret_pc, reduceIte, goto_impl,
      ret_impl, setWaiter_impl, setCell_impl, setSleeping_impl, remove_senders, entry_taking,
      entry_offering, after_taking, after_offering, *]
    simp only [Pc.taking, Pc.offering, Option.toList_none, Option.toList_some, List.nil_append,
      List.append_nil, reduceIte, Bool.false_eq_true, List.Sublist.refl]
  all_goals
    grind -ring -linarith -order -ac [ChanAt, Settled, List.erase_sublist, List.sublist_append_left]

/-- A statement serves the front of the queue, drops a receive from it, or appends one that
enters. -/
theorem next_recvQueue (hi : Inv cfg s) (h : next cfg s c = some s') :
    ((execLabel s s' c).serves.toList ++ s'.recvQueue).Sublist
      (s.recvQueue ++ (execLabel s s' c).enters.toList) := by
  have ha := hi.chan_at
  have hr := hi.receivers_empty
  have hh := hi.exclusive.holderStep (next_exclusive hi.exclusive h) (next_pc h)
  have hf := hi.exclusive.focus_eq (c := c)
  revert h hh hf
  fun_cases next cfg s c
  all_goals simp only [reduceCtorEq, Option.some.injEq, IsEmpty.forall_iff]
  all_goals
    rintro rfl hh hf
    simp only [HolderStep, goto_pc, ret_pc, reduceIte, entry_critical, after_critical, *] at hh hf
    simp only [Pc.critical, reduceCtorEq, forall_const, IsEmpty.forall_iff, true_and,
      and_true] at hh hf
    simp only [recvQueue, hh]
    simp only [execLabel, Label.serves, Label.enters, goto_pc, ret_pc, reduceIte, goto_impl,
      ret_impl, setWaiter_impl, setCell_impl, setSleeping_impl, remove_receivers, entry_handing,
      entry_asking, after_handing, after_asking, *]
    simp only [Pc.handing, Pc.asking, Option.toList_none, Option.toList_some, List.nil_append,
      List.append_nil, reduceIte, Bool.false_eq_true, List.Sublist.refl]
  all_goals
    grind -ring -linarith -order -ac [ChanAt, Settled, List.erase_sublist, List.sublist_append_left]

/-- A receive copies from the send it popped before it does anything else. -/
theorem next_takes (hi : Inv cfg s) (h : next cfg s c = some s') :
    s.focus.taking.toList ++ (execLabel s s' c).takes.toList =
      (execLabel s s' c).accepts.toList ++
        s'.focus.taking.toList := by
  have hf := hi.exclusive.focusStep (next_exclusive hi.exclusive h) (next_pc h)
  revert h hf
  fun_cases next cfg s c
  all_goals simp only [reduceCtorEq, Option.some.injEq, IsEmpty.forall_iff]
  all_goals
    rintro rfl hf
    simp only [FocusStep, goto_pc, ret_pc, reduceIte, entry_critical, after_critical, *] at hf
    simp only [Pc.critical, reduceCtorEq, forall_const, IsEmpty.forall_iff, true_and,
      and_true] at hf
    simp only [hf]
    simp only [execLabel, Label.takes, Label.accepts, goto_pc, ret_pc, reduceIte, entry_taking,
      after_taking, *]
    simp [Pc.taking]

theorem next_entered (h : next cfg s c = some s') (d : Call) :
    ((s.pc d).Entered → (s'.pc d).Entered) ∧
      ((execLabel s s' c).enters = some d →
        ¬ (s.pc d).Entered ∧ (s'.pc d).Entered) := by
  revert h
  fun_cases next cfg s c
  all_goals simp only [reduceCtorEq, Option.some.injEq, IsEmpty.forall_iff]
  all_goals
    rintro rfl
    simp only [goto_pc, ret_pc, setWaiter_pc, setCell_pc, setSleeping_pc, remove_pc, Label.enters,
      *]
    grind -ring -linarith -order -ac [Pc.Entered, entry_entered, after_entered]

/-- A call enters at most once. -/
theorem enters_invariant {tr : List (Label Call Task)} (h : (system β cfg).Run tr s) :
    (events Label.enters tr).Nodup ∧ ∀ c ∈ events Label.enters tr, (s.pc c).Entered := by
  refine System.Run.invariant (I := fun tr s => (events Label.enters tr).Nodup ∧
    ∀ c ∈ events Label.enters tr, (s.pc c).Entered) ?_ ?_ h
  · rintro _ ⟨b, rfl⟩
    simp
  · rintro tr s l s' hrun ⟨hnodup, hent⟩ hstep
    simp only [events_snoc]
    rcases step_cases hstep with ⟨c, hn, rfl⟩ | ⟨ho, hl⟩
    · have he := next_entered hn
      refine ⟨?_, fun d hd => ?_⟩
      · rw [List.nodup_append]
        -- a call enters from a control point it never comes back to
        refine ⟨hnodup, Option.toList_nodup _, ?_⟩
        rintro d hd _ hd' rfl
        exact ((he d).2 (Option.mem_toList.1 hd')).1 (hent d hd)
      · rcases List.mem_append.1 hd with hd | hd
        · exact (he d).1 (hent d hd)
        · exact ((he d).2 (Option.mem_toList.1 hd)).2
    · rw [Label.enters_of_silent hl, Option.toList_none, List.append_nil]
      refine ⟨hnodup, fun d hd => ?_⟩
      have := hent d hd
      rcases ho.pc d with h' | ⟨h', -⟩ | ⟨h', -⟩ | ⟨-, h'⟩
      · rwa [h']
      all_goals simp_all [Pc.Entered]

/-- Sends are accepted, and receives served, in the order of their entry. -/
theorem order_invariant {tr : List (Label Call Task)} (h : (system β cfg).Run tr s) :
    (events Label.accepts tr ++ s.sendQueue).Sublist (events Label.enters tr) ∧
      (events Label.serves tr ++ s.recvQueue).Sublist (events Label.enters tr) := by
  refine System.Run.invariant (I := fun tr s =>
    (events Label.accepts tr ++ s.sendQueue).Sublist (events Label.enters tr) ∧
      (events Label.serves tr ++ s.recvQueue).Sublist (events Label.enters tr)) ?_ ?_ h
  · rintro _ ⟨b, rfl⟩
    simp [sendQueue, recvQueue, holder, initial]
  · rintro tr s l s' hrun ⟨hsend, hrecv⟩ hstep
    have hi := reachable_inv hrun.reachable
    simp only [events_snoc, List.append_assoc]
    rcases step_cases hstep with ⟨c, hn, rfl⟩ | ⟨ho, hl⟩
    · have hs := (next_sendQueue hi hn).append_left (events Label.accepts tr)
      have hr := (next_recvQueue hi hn).append_left (events Label.serves tr)
      rw [← List.append_assoc _ s.sendQueue] at hs
      rw [← List.append_assoc _ s.recvQueue] at hr
      exact ⟨hs.trans (hsend.append_right _), hr.trans (hrecv.append_right _)⟩
    · simp only [Label.accepts_of_silent hl, Label.serves_of_silent hl, Label.enters_of_silent hl,
        Option.toList_none, List.nil_append, List.append_nil]
      rw [sendQueue, recvQueue, ho.holder_eq hi.exclusive, ho.impl]
      exact ⟨hsend, hrecv⟩

/-- Taken and accepted sends differ by the one whose item is being copied. -/
theorem takes_invariant {tr : List (Label Call Task)} (h : (system β cfg).Run tr s) :
    events Label.takes tr = events Label.accepts tr ++ s.focus.taking.toList := by
  refine System.Run.invariant (I := fun tr s =>
    events Label.takes tr = events Label.accepts tr ++ s.focus.taking.toList) ?_ ?_ h
  · rintro _ ⟨b, rfl⟩
    rfl
  · rintro tr s l s' hrun hinv hstep
    have hi := reachable_inv hrun.reachable
    rw [events_snoc, events_snoc, hinv]
    rcases step_cases hstep with ⟨c, hn, rfl⟩ | ⟨ho, hl⟩
    · rw [List.append_assoc, List.append_assoc, next_takes hi hn]
    · rw [Label.takes_of_silent hl, Label.accepts_of_silent hl, ho.focus_eq hi.exclusive]
      simp

omit [SlotMemory β α] [DecidableEq Task] in
/-- A sublist of a list without repetition is the list filtered by membership. -/
theorem filter_mem_of_sublist {l₁ l₂ : List Call} (h : l₁.Sublist l₂) (hn : l₂.Nodup) :
    l₂.filter (· ∈ l₁) = l₁ := by
  induction h with
  | slnil => rfl
  | @cons l₁ l₂ a h ih =>
      obtain ⟨ha, hn⟩ := List.nodup_cons.1 hn
      rw [List.filter_cons_of_neg, ih hn]
      simpa using fun h' => ha (h.subset h')
  | @cons_cons l₁ l₂ a h ih =>
      obtain ⟨ha, hn⟩ := List.nodup_cons.1 hn
      rw [List.filter_cons_of_pos (by simp)]
      congr 1
      have hmem : ∀ x ∈ l₂, decide (x ∈ a :: l₁) = decide (x ∈ l₁) := by
        intro x hx
        have hne : x ≠ a := by
          rintro rfl
          exact ha hx
        simp [hne]
      rw [List.filter_congr hmem]
      exact ih hn

/-- The calls with event `e`, in the order in which they took the mutex on entry. -/
def entryOrder (e : Label Call Task → Option Call) (tr : List (Label Call Task)) : List Call :=
  (events Label.enters tr).filter (· ∈ events e tr)

omit [SlotMemory β α] [DecidableEq Task] in
/-- Events in the order of entry are the events as they came. -/
theorem entryOrder_eq {e : Label Call Task → Option Call} {tr : List (Label Call Task)}
    (hn : (events Label.enters tr).Nodup) (hs : (events e tr).Sublist (events Label.enters tr)) :
    entryOrder e tr = events e tr :=
  filter_mem_of_sublist hs hn

end ZioBenchmarks.FutexChannel
