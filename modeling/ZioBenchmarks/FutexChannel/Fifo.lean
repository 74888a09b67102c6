import ZioBenchmarks.FutexChannel.Order
import ZioBenchmarks.FutexChannel.Representation
import ZioBenchmarks.FutexChannel.Results

/-!
# Exactly once, in order

The items of the accepted sends are the items of the served receives followed by what the ring
holds. Each of the four ways of an item (handed to a receiver, buffered, moved into a freed slot,
taken from a blocked sender) moves one item on one of the two sides, or one on both.
-/

set_option autoImplicit false

namespace ZioBenchmarks.FutexChannel

open ZioBenchmarks.Transition State

variable {β Call Task α : Type} [SlotMemory β α]

/-- The items in the ring, oldest first. -/
def State.ring (cfg : Config Call Task α) (s : State β Call Task α) : List α :=
  Ring.contents (SlotMemory.load s.buffer) cfg.capacity s.head s.count

/-- Only a receive's variable is ever written. -/
def State.ItemsKept (cfg : Config Call Task α) (s : State β Call Task α) : Prop :=
  ∀ c, cfg.kind c ≠ .receive → s.cell c = cfg.item c

variable [DecidableEq Call] [DecidableEq Task]
variable {cfg : Config Call Task α} {s s' : State β Call Task α} {c d : Call}

theorem next_cell (h : next cfg s c = some s')
    (hd : (execLabel s s' c).serves ≠ some d) :
    s'.cell d = s.cell d := by
  revert h hd
  fun_cases next cfg s c
  all_goals simp only [reduceCtorEq, Option.some.injEq, IsEmpty.forall_iff]
  all_goals
    rintro rfl hd
    simp only [execLabel, Label.serves, goto_pc, ret_pc, reduceIte, *] at hd
    simp only [goto_cell, ret_cell, setWaiter_cell, setCell_cell, setSleeping_cell, remove_cell]
  all_goals grind -ring -linarith -order -ac

theorem next_itemsKept (hi : Inv cfg s) (h : next cfg s c = some s') (hc : s.ItemsKept cfg) :
    s'.ItemsKept cfg := by
  intro d hd
  rw [next_cell h, hc d hd]
  intro hserves
  exact hd (receive_of_serves hi h hserves)

variable [LawfulSlotMemory β α]

omit [DecidableEq Call] [DecidableEq Task] in
theorem ring_push (hi : Inv cfg s) (hroom : s.count < cfg.capacity) (v : α) :
    Ring.contents (SlotMemory.load (SlotMemory.store s.buffer s.tail v)) cfg.capacity s.head
      (s.count + 1) = s.ring cfg ++ [v] := by
  rw [LawfulSlotMemory.load_store]
  exact hi.ring.contents_push hroom _ v

omit [DecidableEq Call] [DecidableEq Task] [LawfulSlotMemory β α] in
theorem ring_of_count_eq_zero (h : s.count = 0) : s.ring cfg = [] := by
  simp [ring, Ring.contents, h]

/-- What a statement accepts enters the ring or goes to the receive it serves, and what it serves
comes from the front of the ring or from the send it accepts. -/
theorem next_ring_items (hi : Inv cfg s) (hc : s.ItemsKept cfg) (h : next cfg s c = some s') :
    (execLabel s s' c).serves.toList.map s'.cell ++ s'.ring cfg =
      s.ring cfg ++ (execLabel s s' c).accepts.toList.map cfg.item := by
  have ha := hi.chanAt c
  have hk := hi.kind_ok c
  cases hp : s.pc c
  case sendHandoff r =>
    rw [hp] at ha hk
    have hcount : s.count = 0 := (ha rfl).2.1
    have hitem : s.cell c = cfg.item c := hc c (by simp_all [Pc.kindOk])
    simp only [next, hp, Option.some.injEq] at h
    subst h
    simp [execLabel, hp, Label.serves, Label.accepts, hitem, ring_of_count_eq_zero, hcount]
  -- the item goes to the end of the ring
  case sendRoom =>
    rw [hp] at hk
    have hitem : s.cell c = cfg.item c := hc c (by simp_all [Pc.kindOk])
    simp only [next, hp] at h
    split at h
    case isTrue hroom =>
      simp only [Option.some.injEq] at h
      subst h
      simpa [execLabel, hp, Label.serves, Label.accepts, hitem, State.ring] using ring_push hi hroom
        (s.cell c)
    case isFalse =>
      simp only [Option.some.injEq] at h
      subst h
      simp [execLabel, hp, Label.serves, Label.accepts, State.ring]
  case recvCount =>
    simp only [next, hp] at h
    split at h
    case isTrue hpos =>
      simp only [Option.some.injEq] at h
      subst h
      simpa [execLabel, hp, Label.serves, Label.accepts, State.ring] using
        (hi.ring.contents_pop hpos (SlotMemory.load s.buffer)).symm
    case isFalse =>
      simp only [Option.some.injEq] at h
      subst h
      simp [execLabel, hp, Label.serves, Label.accepts, State.ring]
  -- the item of a parked send goes to the end of the ring, and its send was accepted so
  case recvMove w =>
    rw [hp] at ha
    obtain ⟨-, hcount, -, hkind⟩ := ha rfl
    have hitem : s.cell w = cfg.item w := hc w (by simp [hkind])
    simp only [next, hp, Option.some.injEq] at h
    subst h
    simpa [execLabel, hp, Label.serves, Label.accepts, hitem, State.ring] using
      ring_push hi (by omega) (s.cell w)
  -- an unbuffered handoff: accepted and delivered with one copy
  case recvTake w =>
    rw [hp] at ha
    obtain ⟨hcount, -, -, -, hkind⟩ := ha rfl
    have hitem : s.cell w = cfg.item w := hc w (by simp [hkind])
    simp only [next, hp, Option.some.injEq] at h
    subst h
    simp [execLabel, hp, Label.serves, Label.accepts, hitem, ring_of_count_eq_zero, hcount]
  all_goals
    obtain ⟨h1, h2, -, h3⟩ := next_ring_eq h (by rw [hp]; rfl)
    simp [State.ring, h1, h2, h3, execLabel, hp, Label.serves, Label.accepts]

/-- The served receives hold what the ring does not, of the items that were accepted. -/
theorem items_invariant {tr : List (Label Call Task)} (h : (system β cfg).Run tr s) :
    s.ItemsKept cfg ∧
      (events Label.accepts tr).map cfg.item =
        (events Label.serves tr).map s.cell ++ s.ring cfg := by
  refine System.Run.invariant (I := fun tr s => s.ItemsKept cfg ∧
    (events Label.accepts tr).map cfg.item =
      (events Label.serves tr).map s.cell ++ s.ring cfg) ?_ ?_ h
  · rintro _ ⟨b, rfl⟩
    exact ⟨fun c _ => rfl, by simp [State.ring, Ring.contents, initial]⟩
  · rintro tr s l s' hrun ⟨hkept, hitems⟩ hstep
    have hi := reachable_inv hrun.reachable
    rcases step_cases hstep with ⟨c, hn, rfl⟩ | ⟨ho, hl⟩
    · refine ⟨next_itemsKept hi hn hkept, ?_⟩
      have hold : (events Label.serves tr).map s'.cell = (events Label.serves tr).map s.cell := by
        apply List.map_congr_left
        intro d hd
        apply next_cell hn
        intro hserves
        -- a receive is served at most once
        have hrun' := hrun.snoc hstep
        have hnodup := ((List.sublist_append_left _ _).trans (order_invariant hrun').2).nodup
          (enters_invariant hrun').1
        rw [events_snoc, hserves, Option.toList_some, List.nodup_append] at hnodup
        exact hnodup.2.2 d hd d (List.mem_singleton_self d) rfl
      rw [events_snoc, events_snoc, List.map_append, List.map_append, hold, hitems,
        List.append_assoc, List.append_assoc, next_ring_items hi hkept hn]
    · rw [events_snoc, events_snoc, Label.accepts_of_silent hl, Label.serves_of_silent hl,
        Option.toList_none, List.append_nil, List.append_nil]
      refine ⟨fun c hc => (congrFun ho.cell c).trans (hkept c hc), ?_⟩
      rw [State.ring, ho.impl, ho.cell]
      exact hitems

/-- The channel is exactly-once and first in, first out. Accepted sends and served receives are
listed in the order in which their calls took the mutex on entry. -/
theorem fifo_exactly_once {tr : List (Label Call Task)} (h : (system β cfg).Run tr s) :
    (entryOrder Label.accepts tr).map cfg.item =
        (entryOrder Label.serves tr).map s.cell ++ s.ring cfg ∧
      (s.ring cfg).length = s.count ∧
      (events Label.accepts tr).Nodup ∧ (events Label.serves tr).Nodup ∧
      events Label.takes tr = events Label.accepts tr ++ s.focus.taking.toList ∧
      (∀ c r, cfg.kind c = .send → s.pc c = .returned r →
        (r = .ok ↔ c ∈ events Label.accepts tr)) ∧
      (∀ c r, cfg.kind c = .receive → s.pc c = .returned r →
        (r = .ok ↔ c ∈ events Label.serves tr)) ∧
      ∀ c r, cfg.kind c = .send → s.pc c = .returned r → r ≠ .ok →
        (∀ d, cfg.item d = cfg.item c → d = c) →
          cfg.item c ∉ s.ring cfg ∧ ∀ d ∈ events Label.serves tr, s.cell d ≠ cfg.item c := by
  have hent := (enters_invariant h).1
  have hacc := (List.sublist_append_left _ _).trans (order_invariant h).1
  have hser := (List.sublist_append_left _ _).trans (order_invariant h).2
  have hitems := (items_invariant h).2
  refine ⟨?_, Ring.contents_length, hacc.nodup hent, hser.nodup hent, takes_invariant h,
    fun c r hk hr => send_ok_iff h hk hr, fun c r hk hr => receive_ok_iff h hk hr, ?_⟩
  · rw [entryOrder_eq hent hacc, entryOrder_eq hent hser, hitems]
  · intro c r hk hr hne hdist
    -- with distinct items, the item of a refused send is none of those accepted
    have hout : cfg.item c ∉ (events Label.accepts tr).map cfg.item := by
      intro hmem
      obtain ⟨d, hd, heq⟩ := List.mem_map.1 hmem
      rw [hdist d heq] at hd
      exact hne ((send_ok_iff h hk hr).2 hd)
    rw [hitems, List.mem_append, not_or] at hout
    exact ⟨hout.2, fun d hd heq => hout.1 (List.mem_map.2 ⟨d, hd, heq⟩)⟩

theorem fifo_exactly_once_servedSleeper :
    (system _ (threeCalls 0)).Run servedSleeper.1 servedSleeper.2 ∧
      (entryOrder Label.accepts servedSleeper.1).map (threeCalls 0).item =
        (entryOrder Label.serves servedSleeper.1).map servedSleeper.2.cell ++
          servedSleeper.2.ring (threeCalls 0) ∧
      entryOrder Label.accepts servedSleeper.1 = [0] ∧
      entryOrder Label.serves servedSleeper.1 = [1] ∧ servedSleeper.2.cell 1 = 7 ∧
      (servedSleeper.2.pc 0 = .returned .ok ∧ 0 ∈ events Label.accepts servedSleeper.1) := by
  have hr : (system _ (threeCalls 0)).Run servedSleeper.1 servedSleeper.2 :=
    run_of_replay (Option.some_get _).symm
  obtain ⟨hitems, -, -, -, -, hsend, -⟩ := fifo_exactly_once hr
  have hpc : servedSleeper.2.pc 0 = .returned .ok := by decide
  exact ⟨hr, hitems, by decide, by decide, by decide, hpc, (hsend 0 .ok rfl hpc).1 rfl⟩

end ZioBenchmarks.FutexChannel
