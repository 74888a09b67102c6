import ZioBenchmarks.FutexChannel.Close
import ZioBenchmarks.FutexChannel.Fifo
import ZioBenchmarks.Queue.Bounded

/-!
# A `FutexChannel` is a bounded queue

Each statement of a call is nothing to the queue, or a put, a take, a put followed by a take (the
two handoffs), or a close. The ring is the contents of the queue, and a channel of capacity 0 is a
queue of capacity 1 that is never left full. An operation takes effect while the call it belongs to
runs, and a call that reports `error.Closed` has found the queue closed, so that the queue explains
every result.
-/

set_option autoImplicit false

namespace ZioBenchmarks.FutexChannel

open ZioBenchmarks.Transition ZioBenchmarks.Queue State

variable {β Call Task α : Type}

/-- The close that is not a repetition. -/
def Label.closes : Label Call Task → List (Op α)
  | .exec _ .closeTest .closeReceivers => [.close]
  | _ => []

theorem Label.closes_of_silent {l : Label Call Task} (h : l.isExec = false) :
    l.closes (α := α) = [] := by
  cases l <;> simp_all [Label.isExec, Label.closes]

/-- What a step does to the queue, given what the variables of the receives hold in the end. -/
def Label.ops (cfg : Config Call Task α) (cell : Call → α) (l : Label Call Task) : List (Op α) :=
  (l.accepts.map cfg.item).toList.map .put ++ (l.serves.map cell).toList.map .take ++ l.closes

/-- What a run does to the queue. -/
def ops (cfg : Config Call Task α) (cell : Call → α) (tr : List (Label Call Task)) : List (Op α) :=
  tr.flatMap (Label.ops cfg cell)

theorem closes_cases (l : Label Call Task) :
    l.closes (α := α) = [] ∨ l.closes (α := α) = [.close] := by
  unfold Label.closes
  split
  · exact .inr rfl
  · exact .inl rfl

theorem putsOf_ops (cfg : Config Call Task α) (cell : Call → α) (tr : List (Label Call Task)) :
    putsOf (ops cfg cell tr) = (events Label.accepts tr).map cfg.item := by
  have hl : ∀ l : Label Call Task, putsOf (l.ops cfg cell) = (l.accepts.map cfg.item).toList := by
    intro l
    unfold Label.ops
    rcases closes_cases (α := α) l with h | h <;> rw [h] <;>
      cases l.accepts <;> cases l.serves <;> rfl
  simp only [putsOf] at hl
  simp only [putsOf, ops, events, List.filterMap_flatMap, hl, List.map_filterMap]
  rw [List.filterMap_eq_flatMap_toList]

theorem takesOf_ops (cfg : Config Call Task α) (cell : Call → α) (tr : List (Label Call Task)) :
    takesOf (ops cfg cell tr) = (events Label.serves tr).map cell := by
  have hl : ∀ l : Label Call Task, takesOf (l.ops cfg cell) = (l.serves.map cell).toList := by
    intro l
    unfold Label.ops
    rcases closes_cases (α := α) l with h | h <;> rw [h] <;>
      cases l.accepts <;> cases l.serves <;> rfl
  simp only [takesOf] at hl
  simp only [takesOf, ops, events, List.filterMap_flatMap, hl, List.map_filterMap]
  rw [List.filterMap_eq_flatMap_toList]

/-- Statements of a call that reports `error.Closed`. -/
def Pc.reports : Pc Call → Bool
  | .unlock r | .returned r => r = .closed
  | _ => false

attribute [grind =] Pc.reports

@[simp, grind =] theorem entry_reports (k : Kind) : (k.entry : Pc Call).reports = false := by
  cases k <;> rfl

@[simp, grind =] theorem after_reports (k : After) : (k.pc : Pc Call).reports = false := by
  cases k <;> rfl

@[simp] theorem entry_ne_setQueued (k : Kind) {w : Call} {a : After} :
    k.entry ≠ .setQueued w a := by
  cases k <;> simp [Kind.entry]

@[simp] theorem after_ne_setQueued (k : After) {w : Call} {a : After} :
    k.pc ≠ .setQueued w a := by
  cases k <;> simp [After.pc]

variable [SlotMemory β α] [DecidableEq Call] [DecidableEq Task]

/-- The queue a channel stands for. -/
def State.queue (cfg : Config Call Task α) (s : State β Call Task α) : Bounded α :=
  ⟨s.ring cfg, s.closed⟩

variable {cfg : Config Call Task α} {s s' : State β Call Task α} {c d : Call}

/-- An item is accepted by an open channel with room for it, or to be handed on at once. -/
theorem accepts_room (hi : Inv cfg s) (h : next cfg s c = some s')
    (hd : (execLabel s s' c).accepts = some d) :
    s.closed = false ∧ s.count < max cfg.capacity 1 := by
  have ha := hi.chanAt c
  revert h hd
  fun_cases next cfg s c
  all_goals simp only [reduceCtorEq, Option.some.injEq, IsEmpty.forall_iff]
  all_goals
    rintro rfl hd
    simp only [execLabel, Label.accepts, goto_pc, ret_pc, reduceIte, reduceCtorEq, *] at hd ha
  all_goals
    simp only [Pc.critical, forall_const, ChanAt, Settled] at ha
    grind -ring -linarith -order -ac

/-- A statement closes the channel, or leaves `closed` as it is. -/
theorem next_closes (h : next cfg s c = some s') :
    ((execLabel s s' c).closes (α := α) = [] ∧ s'.closed = s.closed) ∨
      ((execLabel s s' c).closes (α := α) = [.close] ∧ (execLabel s s' c).accepts = none ∧
        s.closed = false ∧ s'.closed = true) := by
  revert h
  fun_cases next cfg s c
  all_goals simp only [reduceCtorEq, Option.some.injEq, IsEmpty.forall_iff]
  all_goals
    rintro rfl
    simp_all [execLabel, Label.accepts, Label.closes]

variable [LawfulSlotMemory β α] {l : Label Call Task} {tr : List (Label Call Task)}

/-- One statement of a call, on the queue. -/
theorem next_bounded (hi : Inv cfg s) (hc : s.ItemsKept cfg) (h : next cfg s c = some s') :
    (bounded α (max cfg.capacity 1)).Path (s.queue cfg)
      ((execLabel s s' c).ops cfg s'.cell) (s'.queue cfg) := by
  have hitems := next_ring_items hi hc h
  have hput := @path_put _ (max cfg.capacity 1) (s.ring cfg) s.closed
    ((execLabel s s' c).accepts.map cfg.item) ?_
  · -- what the put makes of the ring is what the take leaves, behind what it takes
    have hsplit : s.ring cfg ++ ((execLabel s s' c).accepts.map cfg.item).toList =
        ((execLabel s s' c).serves.map s'.cell).toList ++ s'.ring cfg := by
      rw [Option.toList_map, Option.toList_map]
      exact hitems.symm
    rw [hsplit] at hput
    have htake := hput.append (path_take _ s.closed)
    rcases next_closes h with ⟨hnone, hclosed⟩ | ⟨hclose, -, hopen, hclosed⟩
    · rw [Label.ops, hnone, List.append_nil, State.queue, State.queue, hclosed]
      exact htake
    · rw [Label.ops, hclose, State.queue, State.queue, hclosed]
      rw [hopen] at htake ⊢
      exact htake.append (.single .close)
  · intro hne
    obtain ⟨d, hd⟩ : ∃ d, (execLabel s s' c).accepts = some d := by
      cases hd : (execLabel s s' c).accepts with
      | none => simp [hd] at hne
      | some d => exact ⟨d, rfl⟩
    have hroom := accepts_room hi h hd
    exact ⟨hroom.1, by rw [State.ring, Ring.contents_length]; exact hroom.2⟩

omit [LawfulSlotMemory β α] in
/-- A statement takes effect for its own call or for the waiter it has popped. -/
theorem popped_of_effect (h : next cfg s c = some s')
    (hd : (execLabel s s' c).accepts = some d ∨ (execLabel s s' c).serves = some d) :
    d = c ∨ (s.pc c).claim = some (.popped, d) := by
  revert h hd
  fun_cases next cfg s c
  all_goals simp only [reduceCtorEq, Option.some.injEq, IsEmpty.forall_iff]
  all_goals
    rintro rfl hd
    simp only [execLabel, Label.accepts, Label.serves, goto_pc, ret_pc, reduceIte, reduceCtorEq,
      or_false, false_or, or_self, *] at hd
  all_goals
    simp only [Pc.claim, *]
    grind -ring -linarith -order -ac

omit [LawfulSlotMemory β α] in
/-- An operation takes effect while its call is running. -/
theorem effect_in_call (hi : Inv cfg s) (h : next cfg s c = some s')
    (hd : (execLabel s s' c).accepts = some d ∨ (execLabel s s' c).serves = some d) :
    s.pc d ≠ .idle ∧ ∀ r, s.pc d ≠ .returned r := by
  rcases popped_of_effect h hd with rfl | hclaim
  · -- a call that waits to be made, or has returned, executes no statement
    refine ⟨fun hp => ?_, fun r hp => ?_⟩
    · simp [next, hp] at h
    · simp [next, hp] at h
  · have hfocus := hi.exclusive.focus_eq (critical_of_claim hclaim)
    have hparked := (hi.popped d (hfocus ▸ hclaim)).2.1.1
    refine ⟨fun hp => ?_, fun r hp => ?_⟩
    · simp [hp, Pc.parked] at hparked
    · simp [hp, Pc.parked] at hparked

omit [LawfulSlotMemory β α] in
/-- A receive that was served keeps its item. -/
theorem cell_of_served (hrun : (system β cfg).Run tr s) (hn : next cfg s c = some s')
    (hd : d ∈ events Label.serves tr) : s'.cell d = s.cell d := by
  apply next_cell hn
  intro hserves
  have hrun' : (system β cfg).Run (tr ++ [execLabel s s' c]) s' := hrun.snoc ⟨.run c, hn, rfl⟩
  have hnodup := ((List.sublist_append_left _ _).trans (order_invariant hrun').2).nodup
    (enters_invariant hrun').1
  rw [events_snoc, hserves, Option.toList_some, List.nodup_append] at hnodup
  exact hnodup.2.2 d hd d (List.mem_singleton_self d) rfl

omit [LawfulSlotMemory β α] in
/-- What a run does to the queue does not change any more. -/
theorem ops_next (hrun : (system β cfg).Run tr s) (hn : next cfg s c = some s') :
    ops cfg s'.cell tr = ops cfg s.cell tr := by
  apply List.flatMap_congr
  intro l hl
  have hserves : l.serves.map s'.cell = l.serves.map s.cell := by
    cases hd : l.serves with
    | none => rfl
    | some d =>
        have hmem : d ∈ events Label.serves tr := List.mem_filterMap.2 ⟨l, hl, hd⟩
        rw [Option.map_some, Option.map_some, cell_of_served hrun hn hmem]
  rw [Label.ops, Label.ops, hserves]

/-- The queue of a run. -/
theorem run_queue (h : (system β cfg).Run tr s) :
    (bounded α (max cfg.capacity 1)).Run (ops cfg s.cell tr) (s.queue cfg) := by
  refine System.Run.invariant (I := fun tr s =>
    (bounded α (max cfg.capacity 1)).Run (ops cfg s.cell tr) (s.queue cfg)) ?_ ?_ h
  · rintro _ ⟨b, rfl⟩
    refine System.Run.nil ?_
    change State.queue cfg (initial cfg b) = ⟨[], false⟩
    rw [State.queue, ring_of_count_eq_zero rfl]
    rfl
  · rintro tr s l s' hrun hqueue hstep
    have hi := reachable_inv hrun.reachable
    rcases step_cases hstep with ⟨c, hn, rfl⟩ | ⟨ho, hl⟩
    · have hpath := next_bounded hi (items_invariant hrun).1 hn
      rw [ops, List.flatMap_append, ← ops, ops_next hrun hn]
      simpa using hqueue.append hpath
    · have hnone : l.ops cfg s'.cell = [] := by
        rw [Label.ops, Label.accepts_of_silent hl, Label.serves_of_silent hl,
          Label.closes_of_silent hl]
        rfl
      rw [ops, List.flatMap_append, ← ops, ho.cell]
      rw [ho.cell] at hnone
      have hsame : s'.queue cfg = s.queue cfg := by
        rw [State.queue, State.ring, ho.impl]
        rfl
      rw [hsame]
      simpa [hnone] using hqueue

/-! ## Refused calls -/

/-- The call reports `error.Closed`, or will report it: it says so itself, or `close` has claimed its
waiter and leaves `done` as it is. -/
def State.Refused (s : State β Call Task α) (c : Call) : Prop :=
  (s.pc c).reports = true ∨ (∃ k, s.focus = .setDone c false k) ∨
    (∃ k, s.focus = .setQueued c k ∧ (s.waiter c).done = false) ∨
    ((s.pc c).parked = true ∨ (s.pc c).resumed = true) ∧ (s.waiter c).queued = false ∧
      (s.waiter c).done = false

/-- The queue is closed, and empty if the call is a receive. -/
def State.Refuses (cfg : Config Call Task α) (s : State β Call Task α) (c : Call) : Prop :=
  s.closed = true ∧ (cfg.kind c = .receive → s.count = 0)

omit [LawfulSlotMemory β α] in
/-- A closed queue that is empty stays so. -/
theorem next_refuses (hi : Inv cfg s) (h : next cfg s c = some s') (hd : s.Refuses cfg d) :
    s'.Refuses cfg d := by
  refine ⟨next_closed h hd.1, fun hk => ?_⟩
  have ha := hi.chanAt c
  have hcount := hd.2 hk
  have hclosed := hd.1
  revert h
  fun_cases next cfg s c
  all_goals simp only [reduceCtorEq, Option.some.injEq, IsEmpty.forall_iff]
  all_goals
    rintro rfl
    simp_all [Pc.critical, ChanAt]

omit [LawfulSlotMemory β α] in
/-- A statement that refuses a call finds the queue closed, and empty if it refuses a receive. -/
theorem refuses_of_next (hi : Inv cfg s) (h : next cfg s c = some s') (hold : ¬ s.Refused d)
    (hd : s'.Refused d) : s.Refuses cfg d := by
  have ha := hi.chanAt c
  have hkc := hi.kind_ok c
  have hf := hi.exclusive.focusStep (next_exclusive hi.exclusive h) (next_pc h)
  have hempty := hi.receivers_empty
  have hsend := hi.senders_kind
  have hearly := hi.early
  have hqueued := hi.queued
  revert h hd ha hkc hf
  fun_cases next cfg s c
  all_goals simp only [reduceCtorEq, Option.some.injEq, IsEmpty.forall_iff]
  all_goals
    rintro rfl hd ha hkc hf
    simp only [FocusStep, goto_pc, ret_pc, reduceIte, entry_critical, after_critical, *]
      at hf ha hkc
    simp only [Pc.critical, reduceCtorEq, forall_const, IsEmpty.forall_iff, true_and, and_true,
      ChanAt, AfterAt, Settled, Pc.kindOk] at hf ha hkc
    simp only [State.Refused, State.Refuses, hf, goto_pc, ret_pc, setWaiter_pc, setCell_pc,
      setSleeping_pc, remove_pc, goto_waiter, ret_waiter, setWaiter_waiter, setCell_waiter,
      setSleeping_waiter, remove_waiter, entry_ne_setDone, after_ne_setDone, entry_ne_setQueued,
      after_ne_setQueued] at hold hd ⊢
  all_goals grind -ring -linarith -order -ac

omit [LawfulSlotMemory β α] in
/-- A call is refused only by a queue that is closed, and empty if the call is a receive. -/
theorem refused_invariant (h : (system β cfg).Reachable s) (hd : s.Refused d) :
    s.Refuses cfg d := by
  obtain ⟨tr, hrun⟩ := h
  revert hd
  refine System.Run.invariant (I := fun _ s => s.Refused d → s.Refuses cfg d) ?_ ?_ hrun
  · rintro _ ⟨b, rfl⟩ hd
    simp [State.Refused, initial, Pc.reports, Pc.parked, Pc.resumed, focus] at hd
  · rintro tr s l s' hrun hold hstep hd
    have hi := reachable_inv hrun.reachable
    rcases step_cases hstep with ⟨c, hn, rfl⟩ | ⟨ho, -⟩
    · apply next_refuses hi hn
      by_cases hr : s.Refused d
      · exact hold hr
      · exact refuses_of_next hi hn hr hd
    · have hr : s.Refused d := by
        have hreports : (s'.pc d).reports = (s.pc d).reports := by
          rcases ho.pc d with h | ⟨h, h'⟩ | ⟨h, h', -⟩ | ⟨h | h, h'⟩
          · rw [h]
          all_goals rw [h, h']; rfl
        rwa [State.Refused, hreports, ho.focus_eq hi.exclusive, ho.waiter, ho.parked_eq,
          ho.resumed_eq] at hd
      have hold' := hold hr
      rwa [State.Refuses, ← ho.impl] at hold'

/-- A `FutexChannel` is linearizable: it is a bounded queue, of capacity 1 if its own is 0. The puts
are the items of the accepted sends and the takes what the served receives hold; each takes effect
in a step in which the call it belongs to is running; and a call that has returned `error.Closed`
left a queue that is closed, and empty if the call is a receive. -/
theorem linearizable (h : (system β cfg).Run tr s) :
    (bounded α (max cfg.capacity 1)).Run (ops cfg s.cell tr) (s.queue cfg) ∧
    putsOf (ops cfg s.cell tr) = (events Label.accepts tr).map cfg.item ∧
    takesOf (ops cfg s.cell tr) = (events Label.serves tr).map s.cell ∧
    (∀ c s' d, next cfg s c = some s' →
      (execLabel s s' c).accepts = some d ∨ (execLabel s s' c).serves = some d →
        s.pc d ≠ .idle ∧ ∀ r, s.pc d ≠ .returned r) ∧
    ∀ c, s.pc c = .returned .closed →
      (s.queue cfg).closed = true ∧ (cfg.kind c = .receive → (s.queue cfg).items = []) := by
  refine ⟨run_queue h, ?_, ?_, fun c s' d hn hd =>
    effect_in_call (reachable_inv h.reachable) hn hd, fun c hc => ?_⟩
  · exact putsOf_ops cfg s.cell tr
  · exact takesOf_ops cfg s.cell tr
  · obtain ⟨hclosed, hcount⟩ := refused_invariant h.reachable (d := c)
      (.inl (by rw [hc]; rfl))
    exact ⟨hclosed, fun hk => ring_of_count_eq_zero (hcount hk)⟩

/-- The sleeping receive gets the item, over a channel of capacity 0. -/
theorem linearizable_servedSleeper :
    (system _ (threeCalls 0)).Run servedSleeper.1 servedSleeper.2 ∧
      (bounded Nat 1).Run (ops (threeCalls 0) servedSleeper.2.cell servedSleeper.1)
        (servedSleeper.2.queue (threeCalls 0)) ∧
      putsOf (ops (threeCalls 0) servedSleeper.2.cell servedSleeper.1) = [7] := by
  have hr : (system _ (threeCalls 0)).Run servedSleeper.1 servedSleeper.2 :=
    run_of_replay (Option.some_get _).symm
  obtain ⟨hqueue, hputs, -⟩ := linearizable hr
  exact ⟨hr, hqueue, hputs.trans (by decide)⟩

end ZioBenchmarks.FutexChannel
