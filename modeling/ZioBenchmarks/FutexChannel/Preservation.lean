import ZioBenchmarks.FutexChannel.Step
import ZioBenchmarks.FutexChannel.Invariant

/-!
# Preservation of the channel invariant

One lemma per clause of `Inv`, each by the statement that is executed. They all read the same three
facts: which clauses of the invariant the clause rests on, how the focus moves (`FocusStep`), and
what the statement writes. The actions of the environment leave the channel, the waiters and the
focus alone (`Inv.outside`).
-/

set_option autoImplicit false

namespace ZioBenchmarks.FutexChannel

open ZioBenchmarks.Transition State

variable {β Call Task α : Type} [SlotMemory β α] [DecidableEq Call] [DecidableEq Task]
variable {cfg : Config Call Task α} {s s' : State β Call Task α} {c : Call}

/-! ## Statements of one call -/

/-- A statement moves its own call only. -/
theorem next_pc (h : next cfg s c = some s') : ∀ d, d ≠ c → s'.pc d = s.pc d := by
  revert h
  fun_cases next cfg s c
  all_goals simp only [reduceCtorEq, Option.some.injEq, IsEmpty.forall_iff]
  all_goals
    rintro rfl d hd
    simp [hd]

theorem next_exclusive (hi : s.Exclusive) (h : next cfg s c = some s') : s'.Exclusive := by
  have hcrit := fun d => hi d
  revert h
  fun_cases next cfg s c
  all_goals simp only [reduceCtorEq, Option.some.injEq, IsEmpty.forall_iff]
  all_goals
    rintro rfl d
    simp only [goto_pc, goto_impl, ret_pc, ret_impl, setWaiter_impl, setWaiter_pc, setCell_impl,
      setCell_pc, setSleeping_impl, setSleeping_pc, remove_pc, remove_mutex]
    grind -ring -linarith -order -ac

theorem next_kind_ok (hi : Inv cfg s) (h : next cfg s c = some s') :
    ∀ d, (s'.pc d).kindOk (cfg.kind d) = true := by
  have hk := hi.kind_ok
  have hc := hi.kind_ok c
  revert h
  fun_cases next cfg s c
  all_goals simp only [reduceCtorEq, Option.some.injEq, IsEmpty.forall_iff]
  all_goals
    rintro rfl d
    simp only [goto_pc, ret_pc, setWaiter_pc, setCell_pc, setSleeping_pc, remove_pc]
    grind -ring -linarith -order -ac

/-- Each statement of a section establishes what the next one relies on. -/
theorem next_chan_at (hi : Inv cfg s) (h : next cfg s c = some s') :
    ChanAt cfg s'.toFutexChannelImpl s'.focus := by
  have ha := hi.chan_at
  have hsk := hi.senders_kind
  have hrk := hi.receivers_kind
  have hle := hi.ring.count_le
  have hr := hi.receivers_empty
  have hf := hi.exclusive.focusStep (next_exclusive hi.exclusive h) (next_pc h)
  revert h hf
  fun_cases next cfg s c
  all_goals simp only [reduceCtorEq, Option.some.injEq, IsEmpty.forall_iff]
  all_goals
    rintro rfl hf
    simp only [FocusStep, goto_pc, ret_pc, reduceIte, entry_critical, after_critical, *] at hf
    simp only [Pc.critical, reduceCtorEq, forall_const, IsEmpty.forall_iff, true_and,
      and_true] at hf
    simp only [hf, goto_impl, ret_impl, setWaiter_impl, setCell_impl, setSleeping_impl,
      chanAt_entry, chanAt_after]
    grind -ring -linarith -order -ac [ChanAt, Settled, AfterAt]

theorem next_ring (hi : Inv cfg s) (h : next cfg s c = some s') :
    Ring.WellFormed cfg.capacity s'.head s'.tail s'.count := by
  have hr := hi.ring
  have ha := hi.chan_at
  have hpc := hi.exclusive.focus_eq (c := c)
  revert h
  fun_cases next cfg s c
  all_goals simp only [reduceCtorEq, Option.some.injEq, IsEmpty.forall_iff]
  all_goals
    rintro rfl
    simp only [goto_impl, ret_impl, setWaiter_impl, setCell_impl, setSleeping_impl,
      remove_head, remove_tail, remove_count]
    first
      | exact hr
      | exact hr.push ‹_›
      | exact hr.pop ‹_›
      | exact hr.push (by grind [ChanAt])

theorem next_receivers_empty (hi : Inv cfg s) (h : next cfg s c = some s') :
    s'.receivers ≠ [] → s'.count = 0 ∧ s'.senders = [] := by
  have ha := hi.chan_at
  have hr := hi.receivers_empty
  have hf := hi.exclusive.focusStep (next_exclusive hi.exclusive h) (next_pc h)
  revert h hf
  fun_cases next cfg s c
  all_goals simp only [reduceCtorEq, Option.some.injEq, IsEmpty.forall_iff]
  all_goals
    rintro rfl hf
    simp only [FocusStep, goto_pc, ret_pc, reduceIte, entry_critical, after_critical, *] at hf
    simp only [Pc.critical, reduceCtorEq, forall_const, IsEmpty.forall_iff, true_and,
      and_true] at hf
    simp only [goto_impl, ret_impl, setWaiter_impl, setCell_impl, setSleeping_impl, remove_senders,
      remove_receivers, remove_count]
    grind -ring -linarith -order -ac [ChanAt, AfterAt]

theorem next_lists (hi : Inv cfg s) (h : next cfg s c = some s') :
    s'.senders.Nodup ∧ s'.receivers.Nodup ∧
      (∀ w ∈ s'.senders, cfg.kind w = .send) ∧ ∀ w ∈ s'.receivers, cfg.kind w = .receive := by
  have hs := hi.senders_nodup
  have hr := hi.receivers_nodup
  have hsk := hi.senders_kind
  have hrk := hi.receivers_kind
  have hl := hi.linked c
  have hk := hi.kind_ok c
  have hf := hi.exclusive.focusStep (next_exclusive hi.exclusive h) (next_pc h)
  revert h hf
  fun_cases next cfg s c
  all_goals simp only [reduceCtorEq, Option.some.injEq, IsEmpty.forall_iff]
  all_goals
    rintro rfl hf
    simp only [FocusStep, goto_pc, ret_pc, reduceIte, entry_critical, after_critical, *] at hf
    simp only [Pc.critical, reduceCtorEq, forall_const, IsEmpty.forall_iff, true_and,
      and_true] at hf
    simp only [goto_impl, ret_impl, setWaiter_impl, setCell_impl, setSleeping_impl, remove_senders,
      remove_receivers]
    grind -ring -linarith -order -ac

theorem next_linked (hi : Inv cfg s) (h : next cfg s c = some s') :
    ∀ w, Linked s'.toFutexChannelImpl w → (s'.pc w).parked = true ∧ (s'.waiter w).Fresh := by
  have hs := hi.senders_nodup
  have hr := hi.receivers_nodup
  have hsk := hi.senders_kind
  have hrk := hi.receivers_kind
  have hl := hi.linked
  have hk := hi.kind_ok c
  have hp := hi.popped
  have hm := hi.marked
  have hst := hi.storing
  have hpk := hi.parked c
  have hf := hi.exclusive.focusStep (next_exclusive hi.exclusive h) (next_pc h)
  -- one goal for each statement; `hf` says who is in the critical section behind it
  revert h hf
  fun_cases next cfg s c
  all_goals simp only [reduceCtorEq, Option.some.injEq, IsEmpty.forall_iff]
  all_goals
    rintro rfl hf
    simp only [FocusStep, goto_pc, ret_pc, reduceIte, entry_critical, after_critical, *] at hf
    simp only [Pc.critical, reduceCtorEq, forall_const, IsEmpty.forall_iff, true_and,
      and_true] at hf
    intro w
    simp only [Linked, goto_impl, ret_impl, setWaiter_impl, setCell_impl, setSleeping_impl,
      goto_pc, ret_pc, setWaiter_pc, setCell_pc, setSleeping_pc, remove_pc, goto_waiter,
      ret_waiter, setWaiter_waiter, setCell_waiter, setSleeping_waiter, remove_waiter,
      remove_senders, remove_receivers]
    grind -ring -linarith -order -ac

theorem next_popped (hi : Inv cfg s) (h : next cfg s c = some s') :
    ∀ w, s'.focus.claim = some (.popped, w) →
      ¬ Linked s'.toFutexChannelImpl w ∧ (s'.pc w).Asleep ∧ (s'.waiter w).Fresh := by
  have hs := hi.senders_nodup
  have hr := hi.receivers_nodup
  have hsk := hi.senders_kind
  have hrk := hi.receivers_kind
  have hl := hi.linked
  have hp := hi.popped
  have hx := fun d => hi.exclusive.other (c := c) (d := d)
  have hf := hi.exclusive.focusStep (next_exclusive hi.exclusive h) (next_pc h)
  -- one goal for each statement; `hf` says who is in the critical section behind it
  revert h hf
  fun_cases next cfg s c
  all_goals simp only [reduceCtorEq, Option.some.injEq, IsEmpty.forall_iff]
  all_goals
    rintro rfl hf
    simp only [FocusStep, goto_pc, ret_pc, reduceIte, entry_critical, after_critical, *] at hf
    simp only [Pc.critical, reduceCtorEq, forall_const, IsEmpty.forall_iff, true_and,
      and_true] at hf
    intro w
    simp only [Linked, goto_impl, ret_impl, setWaiter_impl, setCell_impl, setSleeping_impl,
      goto_pc, ret_pc, setWaiter_pc, setCell_pc, setSleeping_pc, remove_pc, goto_waiter,
      ret_waiter, setWaiter_waiter, setCell_waiter, setSleeping_waiter, remove_waiter,
      remove_senders, remove_receivers]
    grind -ring -linarith -order -ac

theorem next_marked (hi : Inv cfg s) (h : next cfg s c = some s') :
    ∀ w, s'.focus.claim = some (.marked, w) →
      ¬ Linked s'.toFutexChannelImpl w ∧ (s'.pc w).Asleep ∧
        (s'.waiter w).queued = true ∧ (s'.waiter w).futex = 0 := by
  have hp := hi.popped
  have hm := hi.marked
  have hf := hi.exclusive.focusStep (next_exclusive hi.exclusive h) (next_pc h)
  revert h hf
  fun_cases next cfg s c
  all_goals simp only [reduceCtorEq, Option.some.injEq, IsEmpty.forall_iff]
  all_goals
    rintro rfl hf
    simp only [FocusStep, goto_pc, ret_pc, reduceIte, entry_critical, after_critical, *] at hf
    simp only [Pc.critical, reduceCtorEq, forall_const, IsEmpty.forall_iff, true_and,
      and_true] at hf
    intro w
    simp only [Linked, goto_impl, ret_impl, setWaiter_impl, setCell_impl, setSleeping_impl,
      goto_pc, ret_pc, setWaiter_pc, setCell_pc, setSleeping_pc, remove_pc, goto_waiter,
      ret_waiter, setWaiter_waiter, setCell_waiter, setSleeping_waiter, remove_waiter,
      remove_senders, remove_receivers]
    grind -ring -linarith -order -ac

theorem next_storing (hi : Inv cfg s) (h : next cfg s c = some s') :
    ∀ w, s'.focus.claim = some (.storing, w) →
      (s'.pc w).Asleep ∧ (s'.waiter w).queued = false ∧ (s'.waiter w).futex = 0 := by
  have hm := hi.marked
  have hst := hi.storing
  have hf := hi.exclusive.focusStep (next_exclusive hi.exclusive h) (next_pc h)
  revert h hf
  fun_cases next cfg s c
  all_goals simp only [reduceCtorEq, Option.some.injEq, IsEmpty.forall_iff]
  all_goals
    rintro rfl hf
    simp only [FocusStep, goto_pc, ret_pc, reduceIte, entry_critical, after_critical, *] at hf
    simp only [Pc.critical, reduceCtorEq, forall_const, IsEmpty.forall_iff, true_and,
      and_true] at hf
    intro w
    simp only [setWaiter_impl, setCell_impl, goto_pc, ret_pc, setWaiter_pc, setCell_pc,
      setSleeping_pc, remove_pc, goto_waiter, ret_waiter, setWaiter_waiter, setCell_waiter,
      setSleeping_waiter, remove_waiter]
    grind -ring -linarith -order -ac

theorem next_waking (hi : Inv cfg s) (h : next cfg s c = some s') :
    ∀ w, s'.focus.claim = some (.waking, w) →
      ((s'.pc w).Asleep ∨ s'.pc w = .relock) ∧ (s'.waiter w).Claimed := by
  have hst := hi.storing
  have hw := hi.waking
  have hf := hi.exclusive.focusStep (next_exclusive hi.exclusive h) (next_pc h)
  revert h hf
  fun_cases next cfg s c
  all_goals simp only [reduceCtorEq, Option.some.injEq, IsEmpty.forall_iff]
  all_goals
    rintro rfl hf
    simp only [FocusStep, goto_pc, ret_pc, reduceIte, entry_critical, after_critical, *] at hf
    simp only [Pc.critical, reduceCtorEq, forall_const, IsEmpty.forall_iff, true_and,
      and_true] at hf
    intro w
    simp only [setWaiter_impl, setCell_impl, goto_pc, ret_pc, setWaiter_pc, setCell_pc,
      setSleeping_pc, remove_pc, goto_waiter, ret_waiter, setWaiter_waiter, setCell_waiter,
      setSleeping_waiter, remove_waiter]
    grind -ring -linarith -order -ac

theorem next_parked (hi : Inv cfg s) (h : next cfg s c = some s') :
    ∀ d, (s'.pc d).parked = true →
      Linked s'.toFutexChannelImpl d ∨ s'.focus.Targets d ∨ (s'.waiter d).Claimed := by
  have hpk := hi.parked
  have hw := hi.waking
  have hst := hi.storing
  have hm := hi.marked
  have hp := hi.popped
  have hf := hi.exclusive.focusStep (next_exclusive hi.exclusive h) (next_pc h)
  revert h hf
  fun_cases next cfg s c
  all_goals simp only [reduceCtorEq, Option.some.injEq, IsEmpty.forall_iff]
  all_goals
    rintro rfl hf
    simp only [FocusStep, goto_pc, ret_pc, reduceIte, entry_critical, after_critical, *] at hf
    simp only [Pc.critical, reduceCtorEq, forall_const, IsEmpty.forall_iff, true_and,
      and_true] at hf
    intro d
    simp only [Linked, goto_impl, ret_impl, setWaiter_impl, setCell_impl, setSleeping_impl,
      goto_pc, ret_pc, setWaiter_pc, setCell_pc, setSleeping_pc, remove_pc, goto_waiter,
      ret_waiter, setWaiter_waiter, setCell_waiter, setSleeping_waiter, remove_waiter,
      remove_senders, remove_receivers]
    grind -ring -linarith -order -ac

theorem next_resumed (hi : Inv cfg s) (h : next cfg s c = some s') :
    ∀ d, (s'.pc d).resumed = true → (s'.waiter d).Claimed := by
  have hre := hi.resumed
  have hpk := hi.parked c
  have hw := hi.waking
  have hst := hi.storing
  have hm := hi.marked
  have hp := hi.popped
  have hl := hi.linked c
  have hf := hi.exclusive.focusStep (next_exclusive hi.exclusive h) (next_pc h)
  revert h hf
  fun_cases next cfg s c
  all_goals simp only [reduceCtorEq, Option.some.injEq, IsEmpty.forall_iff]
  all_goals
    rintro rfl hf
    simp only [FocusStep, goto_pc, ret_pc, reduceIte, entry_critical, after_critical, *] at hf
    simp only [Pc.critical, reduceCtorEq, forall_const, IsEmpty.forall_iff, true_and,
      and_true] at hf
    intro d
    simp only [setWaiter_impl, setCell_impl, goto_pc, ret_pc, setWaiter_pc, setCell_pc,
      setSleeping_pc, remove_pc, goto_waiter, ret_waiter, setWaiter_waiter, setCell_waiter,
      setSleeping_waiter, remove_waiter]
    grind -ring -linarith -order -ac

theorem next_early (hi : Inv cfg s) (h : next cfg s c = some s') :
    ∀ d, (s'.pc d).early = true → s'.waiter d = .absent := by
  have he := hi.early
  have hp := hi.popped
  have hm := hi.marked
  have hst := hi.storing
  have hw := hi.waking
  have hf := hi.exclusive.focusStep (next_exclusive hi.exclusive h) (next_pc h)
  revert h hf
  fun_cases next cfg s c
  all_goals simp only [reduceCtorEq, Option.some.injEq, IsEmpty.forall_iff]
  all_goals
    rintro rfl hf
    simp only [FocusStep, goto_pc, ret_pc, reduceIte, entry_critical, after_critical, *] at hf
    simp only [Pc.critical, reduceCtorEq, forall_const, IsEmpty.forall_iff, true_and,
      and_true] at hf
    intro d
    simp only [setWaiter_impl, setCell_impl, goto_pc, ret_pc, setWaiter_pc, setCell_pc,
      setSleeping_pc, remove_pc, goto_waiter, ret_waiter, setWaiter_waiter, setCell_waiter,
      setSleeping_waiter, remove_waiter]
    grind -ring -linarith -order -ac

theorem next_queued (hi : Inv cfg s) (h : next cfg s c = some s') :
    ∀ d, (s'.waiter d).queued = true → (s'.pc d).parked = true := by
  have hq := hi.queued
  have hre := hi.resumed
  have hf := hi.exclusive.focusStep (next_exclusive hi.exclusive h) (next_pc h)
  have hp := hi.popped
  have hm := hi.marked
  have hst := hi.storing
  have hw := hi.waking
  have hpk := hi.parked c
  have hl := hi.linked c
  revert h hf
  fun_cases next cfg s c
  all_goals simp only [reduceCtorEq, Option.some.injEq, IsEmpty.forall_iff]
  all_goals
    rintro rfl hf
    simp only [FocusStep, goto_pc, ret_pc, reduceIte, entry_critical, after_critical, *] at hf
    simp only [Pc.critical, reduceCtorEq, forall_const, IsEmpty.forall_iff, true_and,
      and_true] at hf
    intro d
    simp only [goto_pc, ret_pc, setWaiter_pc, setCell_pc, setSleeping_pc, remove_pc, goto_waiter,
      ret_waiter, setWaiter_waiter, setCell_waiter, setSleeping_waiter, remove_waiter]
    grind -ring -linarith -order -ac

theorem next_sleeping (hi : Inv cfg s) (h : next cfg s c = some s') :
    ∀ d, s'.sleeping d = true →
      s'.pc d = .waiting ∧ ((s'.waiter d).futex = 1 → s'.focus.claim = some (.waking, d)) := by
  have hsl := hi.sleeping
  have hl := hi.linked
  have hm := hi.marked
  have hst := hi.storing
  have hp := hi.popped
  have hf := hi.exclusive.focusStep (next_exclusive hi.exclusive h) (next_pc h)
  revert h hf
  fun_cases next cfg s c
  all_goals simp only [reduceCtorEq, Option.some.injEq, IsEmpty.forall_iff]
  all_goals
    rintro rfl hf
    simp only [FocusStep, goto_pc, ret_pc, reduceIte, entry_critical, after_critical, *] at hf
    simp only [Pc.critical, reduceCtorEq, forall_const, IsEmpty.forall_iff, true_and,
      and_true] at hf
    intro d
    simp only [setWaiter_impl, setCell_impl, goto_pc, ret_pc, setWaiter_pc, setCell_pc,
      setSleeping_pc, remove_pc, goto_waiter, ret_waiter, setWaiter_waiter, setCell_waiter,
      setSleeping_waiter, remove_waiter, goto_sleeping, ret_sleeping, setWaiter_sleeping,
      setCell_sleeping, setSleeping_sleeping, remove_sleeping]
    grind -ring -linarith -order -ac

/-- Every statement preserves the invariant. -/
theorem next_inv (hi : Inv cfg s) (h : next cfg s c = some s') : Inv cfg s' := by
  obtain ⟨hsn, hrn, hsk, hrk⟩ := next_lists hi h
  exact {
    exclusive := next_exclusive hi.exclusive h
    kind_ok := next_kind_ok hi h
    chan_at := next_chan_at hi h
    ring := next_ring hi h
    receivers_empty := next_receivers_empty hi h
    senders_nodup := hsn
    receivers_nodup := hrn
    senders_kind := hsk
    receivers_kind := hrk
    linked := next_linked hi h
    popped := next_popped hi h
    marked := next_marked hi h
    storing := next_storing hi h
    waking := next_waking hi h
    parked := next_parked hi h
    resumed := next_resumed hi h
    early := next_early hi h
    queued := next_queued hi h
    sleeping := next_sleeping hi h }

/-! ## The environment -/

omit [SlotMemory β α] [DecidableEq Call] [DecidableEq Task] in
/-- What the environment does to a call outside of the mutex preserves the invariant. -/
theorem Inv.outside (hi : Inv cfg s) (himpl : s'.toFutexChannelImpl = s.toFutexChannelImpl)
    (hw : s'.waiter = s.waiter) (hother : ∀ d, d ≠ c → s'.pc d = s.pc d)
    (hcrit : (s.pc c).critical = false) (hcrit' : (s'.pc c).critical = false)
    (hkind : (s'.pc c).kindOk (cfg.kind c) = true)
    (hparked : (s'.pc c).parked = (s.pc c).parked) (hresumed : (s.pc c).resumed = false)
    (hresumed' : (s'.pc c).resumed = false)
    (hearly : (s'.pc c).early = true → (s.pc c).early = true)
    (hsleep : ∀ d, s'.sleeping d = true → s.sleeping d = true ∧ s'.pc d = s.pc d) :
    Inv cfg s' := by
  have hpc : ∀ d, d ≠ c ∧ s'.pc d = s.pc d ∨ d = c := by
    intro d
    by_cases hd : d = c
    · exact .inr hd
    · exact .inl ⟨hd, hother d hd⟩
  have hpark : ∀ d, (s'.pc d).parked = (s.pc d).parked := by
    intro d
    rcases hpc d with ⟨-, h⟩ | rfl
    · rw [h]
    · exact hparked
  have hsection : ∀ d, (s'.pc d).critical = (s.pc d).critical := by
    intro d
    rcases hpc d with ⟨-, h⟩ | rfl
    · rw [h]
    · rw [hcrit, hcrit']
  have hex : s'.Exclusive := by
    intro d
    rw [himpl, ← hi.exclusive d, hsection d]
  -- nobody enters or leaves the critical section, so the stage of its holder stays
  have hfocus : s'.focus = s.focus :=
    (hi.exclusive.focusStep hex hother).2.2.2.2 hcrit hcrit'
  have hasleep : ∀ d, (s.pc d).Asleep → (s'.pc d).Asleep := by
    intro d hd
    exact ⟨(hpark d).trans hd.1, (hsection d).trans hd.2⟩
  constructor
  case exclusive =>
    exact hex
  case kind_ok =>
    intro d
    rcases hpc d with ⟨-, h⟩ | rfl
    · rw [h]
      exact hi.kind_ok d
    · exact hkind
  case chan_at =>
    rw [himpl, hfocus]
    exact hi.chan_at
  case ring =>
    rw [himpl]
    exact hi.ring
  case receivers_empty =>
    rw [himpl]
    exact hi.receivers_empty
  case senders_nodup =>
    rw [himpl]
    exact hi.senders_nodup
  case receivers_nodup =>
    rw [himpl]
    exact hi.receivers_nodup
  case senders_kind =>
    rw [himpl]
    exact hi.senders_kind
  case receivers_kind =>
    rw [himpl]
    exact hi.receivers_kind
  case linked =>
    intro d hd
    rw [himpl] at hd
    obtain ⟨hp, hf⟩ := hi.linked d hd
    exact ⟨(hpark d).trans hp, hw ▸ hf⟩
  case popped =>
    intro d hd
    rw [hfocus] at hd
    rw [himpl, hw]
    obtain ⟨h1, h2, h3⟩ := hi.popped d hd
    exact ⟨h1, hasleep d h2, h3⟩
  case marked =>
    intro d hd
    rw [hfocus] at hd
    rw [himpl, hw]
    obtain ⟨h1, h2, h3⟩ := hi.marked d hd
    exact ⟨h1, hasleep d h2, h3⟩
  case storing =>
    intro d hd
    rw [hfocus] at hd
    rw [hw]
    obtain ⟨h1, h2⟩ := hi.storing d hd
    exact ⟨hasleep d h1, h2⟩
  case waking =>
    intro d hd
    rw [hfocus] at hd
    rw [hw]
    obtain ⟨h1, h2⟩ := hi.waking d hd
    -- a waiter that is woken is asleep or resumed; the call that moves is neither
    refine ⟨h1.imp (hasleep d) fun h => ?_, h2⟩
    rcases hpc d with ⟨-, h'⟩ | rfl
    · rwa [h']
    · rw [h] at hresumed
      simp [Pc.resumed] at hresumed
  case parked =>
    intro d hd
    rw [himpl, hfocus, hw]
    exact hi.parked d ((hpark d).symm.trans hd)
  case resumed =>
    intro d hd
    rw [hw]
    rcases hpc d with ⟨-, h⟩ | rfl
    · exact hi.resumed d (h ▸ hd)
    · rw [hresumed'] at hd
      exact absurd hd (by simp)
  case early =>
    intro d hd
    rw [hw]
    rcases hpc d with ⟨-, h⟩ | rfl
    · exact hi.early d (h ▸ hd)
    · exact hi.early d (hearly hd)
  case queued =>
    intro d hd
    rw [hw] at hd
    exact (hpark d).trans (hi.queued d hd)
  case sleeping =>
    intro d hd
    obtain ⟨hs, hp⟩ := hsleep d hd
    rw [hp, hfocus, hw]
    exact hi.sleeping d hs

theorem begin_inv (hi : Inv cfg s) (h : act cfg s (.begin c) = some s') : Inv cfg s' := by
  obtain ⟨hp, -, rfl⟩ := act_begin h
  apply hi.outside (c := c)
  case hsleep =>
    intro d hd
    have hs := (hi.sleeping d hd).1
    refine ⟨hd, ?_⟩
    rw [goto_pc, if_neg]
    rintro rfl
    simp [hp] at hs
  all_goals simp +contextual [hp, Pc.critical, Pc.kindOk, Pc.parked, Pc.resumed, Pc.early]

theorem cancel_inv (hi : Inv cfg s) (h : act cfg s (.cancel c) = some s') : Inv cfg s' := by
  have hsleeping := hi.sleeping c
  have hk := hi.kind_ok c
  obtain ⟨-, ⟨hp, hkind, rfl⟩ | ⟨hp, rfl⟩⟩ := act_cancel h
  · apply hi.outside (c := c)
    case hsleep =>
      intro d hd
      refine ⟨hd, ?_⟩
      rw [ret_pc, if_neg]
      rintro rfl
      simp [hp] at hsleeping
      simp [hsleeping] at hd
    all_goals simp +contextual [hp, hkind, Pc.critical, Pc.kindOk, Pc.parked, Pc.resumed, Pc.early]
  · apply hi.outside (c := c)
    case hsleep =>
      intro d hd
      simp only [goto_sleeping, setSleeping_sleeping] at hd
      split at hd
      case isTrue => simp at hd
      case isFalse hne => exact ⟨hd, by simp [hne]⟩
    case hkind =>
      rcases hp with hp | hp
      · simpa [hp, Pc.kindOk] using hk
      · simpa [hp, Pc.kindOk] using hk
    all_goals
      rcases hp with hp | hp
      · simp +contextual [hp, Pc.critical, Pc.parked, Pc.resumed, Pc.early]
      · simp +contextual [hp, Pc.critical, Pc.parked, Pc.resumed, Pc.early]

theorem spurious_inv (hi : Inv cfg s) (h : act cfg s (.spurious c) = some s') : Inv cfg s' := by
  obtain ⟨hs, rfl⟩ := act_spurious h
  have hp := (hi.sleeping c hs).1
  -- the call is about to lock: it returns without having touched anything
  apply hi.outside (c := c)
  case hsleep =>
    intro d hd
    simp only [setSleeping_sleeping] at hd
    split at hd
    case isTrue => simp at hd
    case isFalse => exact ⟨hd, rfl⟩
  case hkind => exact hi.kind_ok c
  all_goals simp [hp, Pc.critical, Pc.parked, Pc.resumed, Pc.early]

theorem act_inv (hi : Inv cfg s) {a : Act Call Task} (h : act cfg s a = some s') : Inv cfg s' := by
  cases a with
  | begin c => exact begin_inv hi h
  | run c => exact next_inv hi h
  | cancel c => exact cancel_inv hi h
  | spurious c => exact spurious_inv hi h
  | request t =>
      simp only [act, Option.some.injEq] at h
      subst h
      exact ⟨hi.exclusive, hi.kind_ok, hi.chan_at, hi.ring, hi.receivers_empty, hi.senders_nodup,
        hi.receivers_nodup, hi.senders_kind, hi.receivers_kind, hi.linked, hi.popped, hi.marked,
        hi.storing, hi.waking, hi.parked, hi.resumed, hi.early, hi.queued, hi.sleeping⟩

omit [SlotMemory β α] [DecidableEq Call] [DecidableEq Task] in
theorem initial_inv (cfg : Config Call Task α) (b : β) : Inv cfg (initial cfg b) := by
  constructor
  case exclusive => intro c; simp [initial, Pc.critical]
  case chan_at => simp [initial, State.focus, ChanAt, Settled]
  case ring => exact Ring.WellFormed.initial
  all_goals simp [initial, State.focus, Pc.kindOk, Linked, Pc.claim, Pc.parked, Pc.resumed,
    Waiter.absent]

/-- The invariant holds in every reachable state. -/
theorem reachable_inv (h : (system β cfg).Reachable s) : Inv cfg s := by
  apply System.Reachable.invariant (I := Inv cfg) _ _ h
  · rintro _ ⟨b, rfl⟩
    exact initial_inv cfg b
  · rintro s l s' hi ⟨a, ha, -⟩
    exact act_inv hi ha

end ZioBenchmarks.FutexChannel
