import ZioBenchmarks.FutexChannel.Fifo

/-!
# What close does

From the moment the first `close` holds the mutex the channel is closed for every other call that
gets the mutex (`Closing`). From then on no item is accepted, so the ring only drains: a send that
enters is refused, a waiter that was linked is dismissed, the receives that enter take the items of
the ring one by one and the later ones find it empty, and another `close` does nothing.
-/

set_option autoImplicit false

namespace ZioBenchmarks.FutexChannel

open ZioBenchmarks.Transition State

variable {β Call Task α : Type}

/-- The channel is closed, or `k` is about to set `closed` with the mutex held. -/
def State.Closing (s : State β Call Task α) (k : Call) : Prop :=
  s.closed = true ∨ s.pc k = .closeTest

/-- Statements of a send that entered after the close. -/
def Pc.Refused (p : Pc Call) : Prop :=
  p = .sendClosed ∨ p = .unlock .closed ∨ p = .returned .closed

/-- Statements of a call that waited when the close came. -/
def Pc.Dismissed (p : Pc Call) : Prop :=
  p.parked = true ∨ p.resumed = true ∨ p = .returned .closed

/-- Statements of a receive that took an item of the closed channel. -/
def Pc.Drained (p : Pc Call) : Prop :=
  p = .recvRefill ∨ p = .unlock .ok ∨ p = .returned .ok

/-- Statements of a receive that found the closed channel empty. -/
def Pc.Missed (p : Pc Call) : Prop :=
  p = .recvPop ∨ p = .recvClosed ∨ p = .unlock .closed ∨ p = .returned .closed

/-- Statements of a `close` that is not the first. -/
def Pc.Late (p : Pc Call) : Prop :=
  p = .idle ∨ p = .lock ∨ p = .closeTest ∨ p = .unlock .ok ∨ ∃ r, p = .returned r

/-- The receive that found the ring empty. -/
def Label.misses : Label Call Task → Option Call
  | .exec c .recvCount .recvPop => some c
  | _ => none

theorem Label.misses_of_silent {l : Label Call Task} (h : l.isExec = false) : l.misses = none := by
  cases l <;> simp_all [Label.isExec, Label.misses]

/-- The receive that holds the mutex and has not looked at the ring. -/
def State.looking (s : State β Call Task α) : List Call :=
  match s.holder with
  | some (h, .recvCount) => [h]
  | _ => []

/-- A send or receive that gets the mutex finds the channel closed. -/
theorem Inv.closed_of_section {cfg : Config Call Task α} {s : State β Call Task α} {c k : Call}
    (hi : Inv cfg s) (hc : s.Closing k) (hcrit : (s.pc c).critical = true) (hne : c ≠ k) :
    s.closed = true := by
  rcases hc with hc | hk
  · exact hc
  · exact absurd (hi.exclusive.unique (by rw [hk]; rfl) hcrit) hne

variable [SlotMemory β α] [DecidableEq Call] [DecidableEq Task]
variable {cfg : Config Call Task α} {s s' : State β Call Task α} {c d k : Call}

/-- `closed` is never reset. -/
theorem next_closed (h : next cfg s c = some s') (hc : s.closed = true) : s'.closed = true := by
  revert h
  fun_cases next cfg s c
  all_goals simp only [reduceCtorEq, Option.some.injEq, IsEmpty.forall_iff]
  all_goals
    rintro rfl
    simp_all

theorem next_closing (h : next cfg s c = some s') (hc : s.Closing k) : s'.Closing k := by
  rcases hc with hc | hk
  · exact .inl (next_closed h hc)
  · by_cases hne : k = c
    · subst hne
      simp only [next, hk] at h
      split at h
      case isTrue hcl =>
        obtain rfl := Option.some.inj h
        exact .inl hcl
      case isFalse =>
        obtain rfl := Option.some.inj h
        exact .inl rfl
    · exact .inr ((next_pc h k hne).trans hk)

omit [SlotMemory β α] [DecidableEq Call] [DecidableEq Task] in
/-- Nothing is accepted any more. -/
theorem accepts_eq_none (hi : Inv cfg s) (hkind : cfg.kind k = .close) (hc : s.Closing k) :
    (execLabel s s' c).accepts = none := by
  have hne : cfg.kind c ≠ .close → c ≠ k := by
    rintro hk rfl
    exact hk hkind
  have hk := hi.kind_ok c
  have ha := hi.chanAt c
  have hclosed := hi.closed_of_section (c := c) hc
  cases hp : s.pc c
  -- the statements that accept rely on an open channel
  case sendHandoff r => simp_all [Pc.critical, Pc.kindOk, ChanAt]
  case sendRoom => simp_all [Pc.critical, Pc.kindOk, ChanAt]
  case recvMove w => simp_all [Pc.critical, Pc.kindOk, ChanAt]
  case recvTake w => simp_all [Pc.critical, Pc.kindOk, ChanAt]
  all_goals simp [execLabel, hp, Label.accepts]

/-- Only a receive that looks at the ring is served. -/
theorem recvCount_of_serves (hi : Inv cfg s) (hkind : cfg.kind k = .close) (hc : s.Closing k)
    (h : next cfg s c = some s') (hd : (execLabel s s' c).serves = some d) :
    d = c ∧ s.pc c = .recvCount ∧ 0 < s.count ∧ s'.pc c = .recvRefill := by
  have hacc : (execLabel s s' c).accepts = none := accepts_eq_none hi hkind hc
  cases hp : s.pc c
  case recvCount =>
    simp only [next, hp] at h
    split at h
    case isTrue hpos =>
      obtain rfl := Option.some.inj h
      simp_all [execLabel, Label.serves]
    case isFalse =>
      obtain rfl := Option.some.inj h
      simp [execLabel, hp, Label.serves] at hd
  all_goals simp [execLabel, hp, Label.serves, Label.accepts] at hd hacc

/-! ## Calls that the close finds, and calls that come later -/

theorem next_refused (hi : Inv cfg s) (hkind : cfg.kind k = .close) (hc : s.Closing k)
    (h : next cfg s c = some s') (hd : (s.pc d).Refused) : (s'.pc d).Refused := by
  by_cases hdc : d = c
  · subst hdc
    have hk := hi.kind_ok d
    have hclosed := hi.closed_of_section (c := d) hc
    rcases hd with hp | hp | hp
    · rw [hp] at hk hclosed
      have hne : d ≠ k := by
        rintro rfl
        simp [Pc.kindOk, hkind] at hk
      simp only [next, hp, hclosed rfl hne, if_true, Option.some.injEq] at h
      subst h
      exact .inr (.inl (by simp))
    · simp only [next, hp, Option.some.injEq] at h
      subst h
      exact .inr (.inr (by simp))
    · simp [next, hp] at h
  · rwa [next_pc h d hdc]

theorem next_missed (hi : Inv cfg s) (hkind : cfg.kind k = .close) (hc : s.Closing k)
    (h : next cfg s c = some s') (hd : (s.pc d).Missed) : (s'.pc d).Missed := by
  by_cases hdc : d = c
  · subst hdc
    have hk := hi.kind_ok d
    have ha := hi.chanAt d
    have hclosed := hi.closed_of_section (c := d) hc
    rcases hd with hp | hp | hp | hp
    · rw [hp] at hk hclosed ha
      have hne : d ≠ k := by
        rintro rfl
        simp [Pc.kindOk, hkind] at hk
      -- the channel is closed, so no send waits and the refill finds nothing
      have hempty : s.senders = [] := ((ha rfl).2.2 (hclosed rfl hne)).1
      simp only [next, hp, hempty, Option.some.injEq] at h
      subst h
      exact .inr (.inl (by simp))
    · rw [hp] at hk hclosed
      have hne : d ≠ k := by
        rintro rfl
        simp [Pc.kindOk, hkind] at hk
      simp only [next, hp, hclosed rfl hne, if_true, Option.some.injEq] at h
      subst h
      exact .inr (.inr (.inl (by simp)))
    · simp only [next, hp, Option.some.injEq] at h
      subst h
      exact .inr (.inr (.inr (by simp)))
    · simp [next, hp] at h
  · rwa [next_pc h d hdc]

theorem next_drained (hi : Inv cfg s) (hkind : cfg.kind k = .close) (hc : s.Closing k)
    (h : next cfg s c = some s') (hkd : cfg.kind d = .receive) (hd : (s.pc d).Drained) :
    (s'.pc d).Drained := by
  by_cases hdc : d = c
  · subst hdc
    have ha := hi.chanAt d
    have hne : d ≠ k := by
      rintro rfl
      simp [hkind] at hkd
    have hclosed := hi.closed_of_section (c := d) hc
    rcases hd with hp | hp | hp
    · rw [hp] at hclosed ha
      -- no send waits in a closed channel
      have hempty : s.senders = [] := by
        by_contra hs
        have := ((ha rfl).2.2 hs).2
        simp [hclosed rfl hne] at this
      simp only [next, hp, hempty, Option.some.injEq] at h
      subst h
      exact .inr (.inl (by simp))
    · simp only [next, hp, Option.some.injEq] at h
      subst h
      exact .inr (.inr (by simp))
    · simp [next, hp] at h
  · rwa [next_pc h d hdc]

theorem next_late (hi : Inv cfg s) (hc : s.Closing k) (h : next cfg s c = some s')
    (hkd : cfg.kind d = .close) (hdk : d ≠ k) (hd : (s.pc d).Late) : (s'.pc d).Late := by
  by_cases hdc : d = c
  · subst hdc
    have hclosed := hi.closed_of_section (c := d) hc
    rcases hd with hp | hp | hp | hp | ⟨r, hp⟩
    · simp [next, hp] at h
    · simp only [next, hp, hkd] at h
      split at h
      case isTrue =>
        obtain rfl := Option.some.inj h
        exact .inr (.inr (.inl (by simp [Kind.entry])))
      case isFalse => simp at h
    · rw [hp] at hclosed
      simp only [next, hp, hclosed rfl hdk, if_true, Option.some.injEq] at h
      subst h
      exact .inr (.inr (.inr (.inl (by simp))))
    · simp only [next, hp, Option.some.injEq] at h
      subst h
      exact .inr (.inr (.inr (.inr ⟨.ok, by simp⟩)))
    · simp [next, hp] at h
  · rwa [next_pc h d hdc]

omit [SlotMemory β α] [DecidableEq Call] [DecidableEq Task] in
/-- A canceled waiter of a closed channel was claimed, if only by the close. -/
theorem queued_eq_false_of_closing (hi : Inv cfg s) (hkind : cfg.kind k = .close)
    (hc : s.Closing k) (hp : s.pc d = .cancelTest) : (s.waiter d).queued = false := by
  have hk := hi.kind_ok d
  have ha := hi.chanAt d
  have hclosed := hi.closed_of_section (c := d) hc
  rw [hp] at hk ha hclosed
  have hne : d ≠ k := by
    rintro rfl
    simp [Pc.kindOk, hkind] at hk
  obtain ⟨hsend, hrecv⟩ := (ha rfl).2 (hclosed rfl hne)
  by_contra hq
  have hl := (hi.linked_of_cancelTest hp (by simpa using hq)).2
  simp [Linked, hsend, hrecv] at hl

/-- A call that waited when the close came can neither be canceled any more, nor succeed. -/
theorem next_dismissed (hi : Inv cfg s) (hkind : cfg.kind k = .close) (hc : s.Closing k)
    (h : next cfg s c = some s') (hd : (s.pc d).Dismissed) (hnc : ¬ s.Committed d) :
    (s'.pc d).Dismissed := by
  by_cases hdc : d = c
  · subst hdc
    have hq := queued_eq_false_of_closing (d := d) hi hkind hc
    revert h
    fun_cases next cfg s d
    all_goals simp only [reduceCtorEq, Option.some.injEq, IsEmpty.forall_iff]
    all_goals
      rintro rfl
      simp_all [Pc.Dismissed, Pc.parked, Pc.resumed, Committed, Pc.moved]
  · rwa [next_pc h d hdc]

/-! ## The receives that come later -/

theorem enters_pc (h : next cfg s c = some s') (hd : (execLabel s s' c).enters = some d) :
    d = c ∧ s.pc c = .lock ∧ s.holder = none ∧ s'.pc c = (cfg.kind c).entry := by
  cases hp : s.pc c
  case lock =>
    simp only [next, hp] at h
    split at h
    case isTrue hm =>
      obtain rfl := Option.some.inj h
      simp_all [execLabel, Label.enters, holder_of_free]
    case isFalse => simp at h
  all_goals simp [execLabel, hp, Label.enters] at hd

theorem misses_pc (h : next cfg s c = some s') (hd : (execLabel s s' c).misses = some d) :
    d = c ∧ s.pc c = .recvCount ∧ s.count = 0 ∧ s'.pc c = .recvPop := by
  cases hp : s.pc c
  case recvCount =>
    simp only [next, hp] at h
    split at h
    case isTrue =>
      obtain rfl := Option.some.inj h
      simp [execLabel, hp, Label.misses] at hd
    case isFalse hpos =>
      obtain rfl := Option.some.inj h
      simp_all [execLabel, Label.misses]
  all_goals simp [execLabel, hp, Label.misses] at hd

omit [SlotMemory β α] [DecidableEq Call] [DecidableEq Task] in
@[simp] theorem after_ne_recvCount (a : After) : (a.pc : Pc Call) ≠ .recvCount := by
  cases a <;> simp [After.pc]

theorem lock_of_next_recvCount (h : next cfg s c = some s') (hp : s'.pc c = .recvCount) :
    s.pc c = .lock := by
  revert h hp
  fun_cases next cfg s c
  all_goals simp only [reduceCtorEq, Option.some.injEq, IsEmpty.forall_iff]
  all_goals
    rintro rfl
    simp_all

omit [SlotMemory β α] [DecidableEq Call] [DecidableEq Task] in
theorem looking_eq_nil (h : s.holder = none ∨ ∃ p, s.holder = some (c, p) ∧ p ≠ .recvCount) :
    s.looking = [] := by
  rcases h with h | ⟨p, h, hp⟩
  · simp [looking, h]
  · rw [looking, h]
    split
    case h_1 heq => simp_all
    case h_2 => rfl

/-- A receive that enters looks at the ring next, and is served or misses. -/
theorem next_looking (hi : Inv cfg s) (hkind : cfg.kind k = .close) (hc : s.Closing k)
    (h : next cfg s c = some s') :
    (execLabel s s' c).serves.toList ++ (execLabel s s' c).misses.toList ++ s'.looking =
      s.looking ++ (execLabel s s' c).enters.toList.filter (cfg.kind · = .receive) := by
  have hh := hi.exclusive.holderStep (next_exclusive hi.exclusive h) (next_pc h)
  obtain ⟨hin, hin', hleave, henter, hout⟩ := hh
  -- only the test of `count` decides between an item and `error.Closed`
  by_cases hp : s.pc c = .recvCount
  · have hl : s.looking = [c] := by
      rw [looking, hin (by rw [hp]; rfl), hp]
    simp only [next, hp] at h
    split at h
    case isTrue =>
      obtain rfl := Option.some.inj h
      rw [looking_eq_nil (c := c) (.inr ⟨_, hin' (by simp [Pc.critical]), by simp⟩), hl]
      simp [execLabel, hp, Label.serves, Label.misses, Label.enters]
    case isFalse =>
      obtain rfl := Option.some.inj h
      rw [looking_eq_nil (c := c) (.inr ⟨_, hin' (by simp [Pc.critical]), by simp⟩), hl]
      simp [execLabel, hp, Label.serves, Label.misses, Label.enters]
  -- any other statement serves and misses nobody: what is left is who holds the mutex
  have hserves : (execLabel s s' c).serves = none := by
    rw [Option.eq_none_iff_forall_ne_some]
    exact fun d hd => hp (recvCount_of_serves hi hkind hc h hd).2.1
  have hmisses : (execLabel s s' c).misses = none := by
    rw [Option.eq_none_iff_forall_ne_some]
    exact fun d hd => hp (misses_pc h hd).2.1
  rw [hserves, hmisses]
  cases he : (execLabel s s' c).enters with
  | some d =>
      obtain ⟨rfl, -, hfree, hpc⟩ := enters_pc h he
      have hcrit : (s'.pc d).critical = true := by simp [hpc]
      rw [looking_eq_nil (c := d) (.inl hfree)]
      cases hk : cfg.kind d with
      | receive => simp [looking, hin' hcrit, hpc, hk, Kind.entry]
      | send => simp [looking, hin' hcrit, hpc, hk, Kind.entry]
      | close => simp [looking, hin' hcrit, hpc, hk, Kind.entry]
  | none =>
      have hp' : s'.pc c ≠ .recvCount := by
        intro hp'
        simp [execLabel, lock_of_next_recvCount h hp', Label.enters] at he
      simp only [Option.toList_none, List.nil_append, List.filter_nil, List.append_nil]
      -- the mutex is kept, released, taken or not touched
      cases hcrit : (s.pc c).critical with
      | true =>
          rw [looking_eq_nil (c := c) (.inr ⟨_, hin hcrit, hp⟩)]
          cases hcrit' : (s'.pc c).critical with
          | true => exact looking_eq_nil (c := c) (.inr ⟨_, hin' hcrit', hp'⟩)
          | false => exact looking_eq_nil (c := c) (.inl (hleave hcrit hcrit'))
      | false =>
          cases hcrit' : (s'.pc c).critical with
          | true =>
              rw [looking_eq_nil (c := c) (.inl (henter hcrit hcrit'))]
              exact looking_eq_nil (c := c) (.inr ⟨_, hin' hcrit', hp'⟩)
          | false => rw [looking, looking, hout hcrit hcrit']

/-! ## Runs behind the close -/

/-- The receives that took the mutex, in order. -/
def enteredReceives (cfg : Config Call Task α) (tr : List (Label Call Task)) : List Call :=
  (events Label.enters tr).filter (cfg.kind · = .receive)

/-- What holds in `s`, after `tr`, if the first close `k` held the mutex in `s₀`. -/
structure Draining (cfg : Config Call Task α) (k : Call) (s₀ : State β Call Task α)
    (tr : List (Label Call Task)) (s : State β Call Task α) : Prop where
  closing : s.Closing k
  refused : ∀ c ∈ events Label.enters tr, cfg.kind c = .send → (s.pc c).Refused
  dismissed : ∀ w, Linked s₀.toFutexChannelImpl w → (s.pc w).Dismissed ∧ ¬ s.Committed w
  late : ∀ c, cfg.kind c = .close → c ≠ k → (s.pc c).Late
  order : enteredReceives cfg tr =
    events Label.serves tr ++ events Label.misses tr ++ s.looking
  items : (events Label.serves tr).map s.cell ++ s.ring cfg = s₀.ring cfg
  empty : events Label.misses tr ≠ [] → s.count = 0
  drained : ∀ c ∈ events Label.serves tr, (s.pc c).Drained
  missed : ∀ c ∈ events Label.misses tr, (s.pc c).Missed

omit [DecidableEq Call] [DecidableEq Task] in
/-- Where the first close has just taken the mutex. -/
theorem Draining.start (hi : Inv cfg s) (hk : s.pc k = .closeTest) :
    Draining cfg k s [] s := by
  -- the closing call holds the mutex
  have hfocus : s.focus = .closeTest := by
    rw [← hk]
    exact hi.exclusive.focus_eq (by rw [hk]; rfl)
  have hholder : s.holder = some (k, .closeTest) := by
    rw [← hk]
    exact hi.exclusive.holder_eq (by rw [hk]; rfl)
  constructor
  case closing => exact .inr hk
  case dismissed =>
    intro w hw
    obtain ⟨hp, hfresh⟩ := hi.linked w hw
    refine ⟨.inl hp, ?_⟩
    have hm : (s.pc w).moved = false := by
      cases hpc : s.pc w <;> simp_all [Pc.parked, Pc.moved]
    simp [Committed, hm, hfresh.2.2, hfocus]
  case late =>
    intro c hkind hne
    have hcrit := hi.exclusive.other (c := k) (by rw [hk]; rfl) hne
    have hok := hi.kind_ok c
    cases hpc : s.pc c <;> simp_all [Pc.critical, Pc.kindOk, Pc.Late]
  case order => simp [enteredReceives, looking, hholder]
  all_goals simp

section Step

variable [LawfulSlotMemory β α]
variable {pre tr : List (Label Call Task)} {s₀ : State β Call Task α} {l : Label Call Task}

omit [LawfulSlotMemory β α] in
/-- No receive is served twice, before or behind the close, so a served cell is not written again. -/
theorem served_cells (hrun : (system β cfg).Run (pre ++ tr) s) (h : next cfg s c = some s') :
    (events Label.serves tr).map s'.cell = (events Label.serves tr).map s.cell := by
  have hrun' : (system β cfg).Run (pre ++ (tr ++ [execLabel s s' c])) s' := by
    rw [← List.append_assoc]
    exact hrun.snoc ⟨.run c, h, rfl⟩
  have hnodup : (events Label.serves tr ++ (execLabel s s' c).serves.toList).Nodup := by
    have hser := ((List.sublist_append_left _ _).trans (order_invariant hrun').2).nodup
      (enters_invariant hrun').1
    rw [events_append, events_snoc] at hser
    exact hser.of_append_right
  apply List.map_congr_left
  intro d hmem
  apply next_cell h
  intro hserves
  rw [hserves, Option.toList_some, List.nodup_append] at hnodup
  exact hnodup.2.2 d hmem d (List.mem_singleton_self d) rfl

omit [LawfulSlotMemory β α] in
theorem served_receive (hrun : (system β cfg).Run (pre ++ tr) s) :
    ∀ d ∈ events Label.serves tr, cfg.kind d = .receive := by
  intro d hmem
  apply (committed_invariant hrun).2.1
  rw [events_append]
  exact List.mem_append_right _ hmem

section Exec

variable (hd : Draining cfg k s₀ tr s) (hi : Inv cfg s) (hkind : cfg.kind k = .close)
  (h : next cfg s c = some s')

include hd hi hkind h

/-- Nothing is added to the ring, and what is taken from it was its first item. -/
theorem Draining.items_exec (hrun : (system β cfg).Run (pre ++ tr) s) :
    (events Label.serves (tr ++ [execLabel s s' c])).map s'.cell ++ s'.ring cfg =
      s₀.ring cfg := by
  have hring := next_ring_items hi (items_invariant hrun).1 h
  rw [accepts_eq_none hi hkind hd.closing, Option.toList_none, List.map_nil,
    List.append_nil] at hring
  rw [events_snoc, List.map_append, served_cells hrun h, List.append_assoc, hring]
  exact hd.items

omit [LawfulSlotMemory β α] in
theorem Draining.dismissed_exec {w : Call} (hw : Linked s₀.toFutexChannelImpl w) :
    (s'.pc w).Dismissed ∧ ¬ s'.Committed w := by
  have hc := hd.closing
  obtain ⟨hp, hnc⟩ := hd.dismissed w hw
  have hk : cfg.kind w ≠ .close := by
    have hok := hi.kind_ok w
    cases hpc : s.pc w <;> simp_all [Pc.Dismissed, Pc.parked, Pc.resumed, Pc.kindOk]
  refine ⟨next_dismissed hi hkind hc h hp hnc, fun hcom => ?_⟩
  rcases (next_committed hi h hk).1 hcom with hcom | hacc | hser
  · exact hnc hcom
  · simp [accepts_eq_none hi hkind hc] at hacc
  · obtain ⟨rfl, hpc, -⟩ := recvCount_of_serves hi hkind hc h hser
    simp [hpc, Pc.Dismissed, Pc.parked, Pc.resumed] at hp

omit [LawfulSlotMemory β α] in
/-- A receive is served before the first one is missed. -/
theorem Draining.order_exec : enteredReceives cfg (tr ++ [execLabel s s' c]) =
    events Label.serves (tr ++ [execLabel s s' c]) ++
      events Label.misses (tr ++ [execLabel s s' c]) ++ s'.looking := by
  have hc := hd.closing
  have hlook := next_looking hi hkind hc h
  have hmid : (execLabel s s' c).serves = none ∨ events Label.misses tr = [] := by
    by_contra hne
    obtain ⟨hser, hmiss⟩ := not_or.1 hne
    obtain ⟨d, hser⟩ := Option.ne_none_iff_exists'.1 hser
    have hpos := (recvCount_of_serves hi hkind hc h hser).2.2.1
    have hzero := hd.empty hmiss
    omega
  have hent : enteredReceives cfg (tr ++ [execLabel s s' c]) = enteredReceives cfg tr ++
      (execLabel s s' c).enters.toList.filter (cfg.kind · = .receive) := by
    rw [enteredReceives, events_snoc, List.filter_append, enteredReceives]
  rw [hent, hd.order, List.append_assoc _ s.looking, ← hlook, events_snoc, events_snoc]
  rcases hmid with hser | hmiss
  · simp [hser]
  · simp [hmiss]

end Exec

/-- One statement of the drain. -/
theorem Draining.exec (hd : Draining cfg k s₀ tr s) (hkind : cfg.kind k = .close)
    (hrun : (system β cfg).Run (pre ++ tr) s) (h : next cfg s c = some s') :
    Draining cfg k s₀ (tr ++ [execLabel s s' c]) s' := by
  have hi := reachable_inv hrun.reachable
  have hc := hd.closing
  have hitems := hd.items_exec hi hkind h hrun
  have hcount : s'.count ≤ s.count := by
    have h1 := congrArg List.length hd.items
    have h2 := congrArg List.length hitems
    simp only [events_snoc, List.length_append, List.length_map, State.ring,
      Ring.contents_length] at h1 h2
    omega
  constructor
  case closing => exact next_closing h hc
  case refused =>
    intro d hmem hk
    rw [events_snoc, List.mem_append, Option.mem_toList] at hmem
    rcases hmem with hmem | hent
    · exact next_refused hi hkind hc h (hd.refused d hmem hk)
    · obtain ⟨rfl, -, -, hpc⟩ := enters_pc h hent
      exact .inl (by simp [hpc, hk, Kind.entry])
  case dismissed => exact fun w hw => hd.dismissed_exec hi hkind h hw
  case late => exact fun d hk hne => next_late hi hc h hk hne (hd.late d hk hne)
  case order => exact hd.order_exec hi hkind h
  case items => exact hitems
  case empty =>
    intro hne
    rw [events_snoc] at hne
    cases hm : (execLabel s s' c).misses with
    | some d =>
        have hzero := (misses_pc h hm).2.2.1
        omega
    | none =>
        rw [hm, Option.toList_none, List.append_nil] at hne
        have hzero := hd.empty hne
        omega
  case drained =>
    intro d hmem
    rw [events_snoc, List.mem_append, Option.mem_toList] at hmem
    rcases hmem with hmem | hser
    · exact next_drained hi hkind hc h (served_receive hrun d hmem) (hd.drained d hmem)
    · obtain ⟨rfl, -, -, hpc⟩ := recvCount_of_serves hi hkind hc h hser
      exact .inl hpc
  case missed =>
    intro d hmem
    rw [events_snoc, List.mem_append, Option.mem_toList] at hmem
    rcases hmem with hmem | hmiss
    · exact next_missed hi hkind hc h (hd.missed d hmem)
    · obtain ⟨rfl, -, -, hpc⟩ := misses_pc h hmiss
      exact .inl hpc

omit [LawfulSlotMemory β α] [DecidableEq Call] [DecidableEq Task] in
theorem Draining.outside (hd : Draining cfg k s₀ tr s) (hi : Inv cfg s) (ho : Outside cfg s s')
    (hl : l.isExec = false) : Draining cfg k s₀ (tr ++ [l]) s' := by
  constructor
  case closing =>
    -- a step outside of the critical section changes neither the lists nor the ring
    rcases hd.closing with hc | hk
    · exact .inl (by rw [ho.impl]; exact hc)
    · exact .inr ((ho.pc_eq (by rw [hk]; rfl)).trans hk)
  case refused =>
    intro c hc hk
    rw [events_snoc, Label.enters_of_silent hl, Option.toList_none, List.append_nil] at hc
    have hr := hd.refused c hc hk
    rwa [ho.pc_eq_of_ne]
    all_goals
      intro hp
      simp [hp, Pc.Refused] at hr
  case dismissed =>
    intro w hw
    obtain ⟨hp, hnc⟩ := hd.dismissed w hw
    refine ⟨?_, (ho.committed_iff hi).not.2 hnc⟩
    rw [Pc.Dismissed, ho.parked_eq, ho.resumed_eq]
    refine hp.imp_right (Or.imp_right fun hr => ?_)
    rwa [ho.pc_eq_of_ne]
    all_goals simp [hr]
  case late =>
    intro c hk hne
    rcases ho.pc c with hp | ⟨-, hp⟩ | ⟨-, hp, -⟩ | ⟨hp, -⟩
    · rw [hp]
      exact hd.late c hk hne
    · exact .inr (.inl hp)
    · exact .inr (.inr (.inr (.inr ⟨_, hp⟩)))
    · have hlate := hd.late c hk hne
      rcases hp with hp | hp
      · simp [hp, Pc.Late] at hlate
      · simp [hp, Pc.Late] at hlate
  case order =>
    have hlook : s'.looking = s.looking := by
      rw [looking, looking, ho.holder_eq hi.exclusive]
    have horder := hd.order
    rw [enteredReceives] at horder ⊢
    simpa [Label.enters_of_silent hl, Label.serves_of_silent hl, Label.misses_of_silent hl,
      hlook] using horder
  case items =>
    rw [events_snoc, Label.serves_of_silent hl, Option.toList_none, List.append_nil, ho.cell,
      State.ring, ho.impl]
    exact hd.items
  case empty =>
    rw [events_snoc, Label.misses_of_silent hl, Option.toList_none, List.append_nil, ho.impl]
    exact hd.empty
  case drained =>
    intro c hc
    rw [events_snoc, Label.serves_of_silent hl, Option.toList_none, List.append_nil] at hc
    have hr := hd.drained c hc
    rwa [ho.pc_eq_of_ne]
    all_goals
      intro hp
      simp [hp, Pc.Drained] at hr
  case missed =>
    intro c hc
    rw [events_snoc, Label.misses_of_silent hl, Option.toList_none, List.append_nil] at hc
    have hr := hd.missed c hc
    rwa [ho.pc_eq_of_ne]
    all_goals
      intro hp
      simp [hp, Pc.Missed] at hr

end Step

end ZioBenchmarks.FutexChannel
