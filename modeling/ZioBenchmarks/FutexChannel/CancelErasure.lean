import ZioBenchmarks.FutexChannel.History

/-!
# Runs without the canceled calls

A call that ends with `error.Canceled` has read the channel under the mutex and has stood in a
waiter list, and still no other call can tell. `without D` is the state a run has when the calls in
`D` were never made. It commutes with every statement of a call outside of `D` and absorbs every
statement of a call in `D`, as long as the calls in `D` can still end canceled: nobody has popped
them, and they have popped nobody.
-/

set_option autoImplicit false

namespace ZioBenchmarks.FutexChannel

open ZioBenchmarks.Transition State

variable {β Call Task α : Type}

/-! ## Calls that can still end canceled -/

/-- Statements of a call that has found nothing to do so far, or is canceled for good. -/
@[grind =] def Pc.cancelable : Pc Call → Bool
  | .idle | .lock | .sendClosed | .sendPop | .sendRoom | .recvCount | .recvPop | .recvClosed
  | .closeTest | .unlock .canceled | .returned .canceled => true
  | _ => false

@[simp, grind =] theorem entry_cancelable (k : Kind) : (k.entry : Pc Call).cancelable = true := by
  cases k <;> rfl

@[simp, grind =] theorem after_cancelable (a : After) : (a.pc : Pc Call).cancelable = false := by
  cases a <;> rfl

/-- The call can still end with `error.Canceled`: if its waiter exists, it is linked. -/
def Cancelable (s : State β Call Task α) (c : Call) : Prop :=
  (s.pc c).cancelable = true ∨ ((s.pc c).parked = true ∧ Linked s.toFutexChannelImpl c)

/-- The call is being executed. -/
@[grind =] def Pc.active : Pc Call → Bool
  | .idle | .returned _ => false
  | _ => true

@[simp, grind =] theorem entry_active (k : Kind) : (k.entry : Pc Call).active = true := by
  cases k <;> rfl

@[simp, grind =] theorem after_active (a : After) : (a.pc : Pc Call).active = true := by
  cases a <;> rfl

section Without

/-- The values `x` at the calls in `D`, and `g` at the others. -/
def masked {γ : Type} (D : Call → Bool) (x g : Call → γ) : Call → γ :=
  fun c => if D c then x c else g c

variable {D : Call → Bool} {c : Call}

section Masked

variable {γ : Type} (x g : Call → γ)

theorem masked_apply (hc : D c = false) : masked D x g c = g c := by
  simp [masked, hc]

theorem masked_self : masked D x x = x := by
  funext c
  simp [masked]

variable [DecidableEq Call] (v : γ)

/-- A write to a kept call is still there. -/
theorem masked_update (hc : D c = false) :
    masked D x (Function.update g c v) = Function.update (masked D x g) c v := by
  funext e
  by_cases he : e = c
  · subst he
    simp [masked, hc]
  · simp [masked, he]

/-- A write to a deleted call is not. -/
theorem masked_update_deleted (hc : D c = true) :
    masked D x (Function.update g c v) = masked D x g := by
  funext e
  by_cases he : e = c
  · subst he
    simp [masked, hc]
  · simp [masked, he]

end Masked

variable (D) (cfg : Config Call Task α) (f : Task → Bool)

/-- The calls that the tasks are in, except for those in `D`. -/
def keptRunning (g : Task → Option Call) : Task → Option Call :=
  fun t => (g t).filter (!D ·)

theorem keptRunning_update [DecidableEq Task] (g : Task → Option Call) (t : Task)
    (o : Option Call) :
    keptRunning D (Function.update g t o) =
      Function.update (keptRunning D g) t (o.filter (!D ·)) := by
  funext u
  by_cases hu : u = t
  · subst hu
    simp [keptRunning]
  · simp [keptRunning, hu]

/-- The state without the calls in `D`. A request that a deleted wait consumed is still pending
there, so the requests are a parameter. -/
def State.without (s : State β Call Task α) : State β Call Task α where
  buffer := s.buffer
  head := s.head
  tail := s.tail
  count := s.count
  closed := s.closed
  mutex := s.mutex.filter (!D ·)
  senders := s.senders.filter (!D ·)
  receivers := s.receivers.filter (!D ·)
  waiter := masked D (fun _ => .absent) s.waiter
  cell := masked D cfg.item s.cell
  pc := masked D (fun _ => .idle) s.pc
  sleeping := masked D (fun _ => false) s.sleeping
  running := keptRunning D s.running
  cancel := f

theorem without_initial (b : β) :
    (initial cfg b).without D cfg (fun _ => false) = initial cfg b := by
  simp only [State.without, initial, masked_self]
  rfl

variable {D cfg f} {s : State β Call Task α}

/-! ### Deletion commutes with the updates of a state -/

section Kept

variable (hc : D c = false)

include hc

theorem without_pc : (s.without D cfg f).pc c = s.pc c := by
  simp [without, masked_apply _ _ hc]

theorem without_waiter : (s.without D cfg f).waiter c = s.waiter c := by
  simp [without, masked_apply _ _ hc]

theorem without_cell : (s.without D cfg f).cell c = s.cell c := by
  simp [without, masked_apply _ _ hc]

theorem without_sleeping : (s.without D cfg f).sleeping c = s.sleeping c := by
  simp [without, masked_apply _ _ hc]

variable [DecidableEq Call]

theorem without_goto (p : Pc Call) :
    (s.goto c p).without D cfg f = (s.without D cfg f).goto c p := by
  simp [without, goto, masked_update _ _ _ hc]

theorem without_setWaiter (w : Waiter) :
    (s.setWaiter c w).without D cfg f = (s.without D cfg f).setWaiter c w := by
  simp [without, setWaiter, masked_update _ _ _ hc]

theorem without_setSleeping (b : Bool) :
    (s.setSleeping c b).without D cfg f = (s.without D cfg f).setSleeping c b := by
  simp [without, setSleeping, masked_update _ _ _ hc]

end Kept

variable [DecidableEq Call]

theorem without_remove : (s.remove cfg c).without D cfg f = (s.without D cfg f).remove cfg c := by
  unfold remove
  cases cfg.kind c <;> simp [without, List.erase_filter]

section Deleted

variable (hc : D c = true)

include hc

theorem without_goto_deleted (p : Pc Call) :
    (s.goto c p).without D cfg f = s.without D cfg f := by
  simp [without, goto, masked_update_deleted _ _ _ hc]

theorem without_setWaiter_deleted (w : Waiter) :
    (s.setWaiter c w).without D cfg f = s.without D cfg f := by
  simp [without, setWaiter, masked_update_deleted _ _ _ hc]

theorem without_setSleeping_deleted (b : Bool) :
    (s.setSleeping c b).without D cfg f = s.without D cfg f := by
  simp [without, setSleeping, masked_update_deleted _ _ _ hc]

theorem without_remove_deleted : (s.remove cfg c).without D cfg f = s.without D cfg f := by
  rw [without_remove]
  unfold remove
  cases cfg.kind c <;> simp [without, List.erase_of_not_mem, hc]

end Deleted

end Without

section Step

variable [SlotMemory β α] [DecidableEq Call] [DecidableEq Task]
variable {cfg : Config Call Task α} {s s' : State β Call Task α} {c d : Call}
  {D : Call → Bool} {f : Task → Bool} {l : Label Call Task} {tr : List (Label Call Task)}

/-! ## What a step does to the calls of a task, and to a waiter that is linked -/

/-- A task knows the call it is in. -/
def RunningOk (cfg : Config Call Task α) (s : State β Call Task α) : Prop :=
  ∀ c, (s.pc c).active = true → s.running (cfg.task c) = some c

/-- No statement files a request. -/
theorem next_cancel (h : next cfg s c = some s') : s'.cancel = s.cancel := by
  revert h
  fun_cases next cfg s c
  all_goals simp only [reduceCtorEq, Option.some.injEq, IsEmpty.forall_iff]
  all_goals
    rintro rfl
    simp

theorem next_runningOk (hr : RunningOk cfg s) (h : next cfg s c = some s') : RunningOk cfg s' := by
  intro d hd
  have hcd := hr d
  have hcc := hr c
  have hpc := next_pc h
  revert h
  fun_cases next cfg s c
  all_goals simp only [reduceCtorEq, Option.some.injEq, IsEmpty.forall_iff]
  all_goals
    rintro rfl
    simp only [goto_pc, ret_pc, goto_running, ret_running, setWaiter_running, setCell_running,
      setSleeping_running, remove_running, setWaiter_pc, setCell_pc, setSleeping_pc, remove_pc]
      at hd ⊢
    grind -ring -linarith -order -ac

omit [SlotMemory β α] [DecidableEq Call] [DecidableEq Task] in
/-- A call whose wait could still be canceled is nobody's target. -/
theorem Inv.not_targets_of_cancelable (hi : Inv cfg s) (hd : Cancelable s d) :
    ¬ s.focus.Targets d := by
  intro ht
  have hclaim := ht.stages
  have hpopped := hi.popped d
  have hmarked := hi.marked d
  have hstoring := hi.storing d
  have hwaking := hi.waking d
  have hlinked := hi.linked d
  have hpc : (s.pc d).parked = true → (s.pc d).cancelable = false := by
    cases s.pc d <;> simp [Pc.parked, Pc.cancelable]
  grind -ring -linarith -order -ac [Cancelable]

omit [SlotMemory β α] [DecidableEq Call] [DecidableEq Task] in
theorem Inv.kept_of_targets (hi : Inv cfg s) (hD : ∀ d, D d = true → Cancelable s d) {w : Call}
    (ht : (s.pc c).Targets w) : D w = false := by
  have hcritical : (s.pc c).critical = true := by
    obtain ⟨st, hst⟩ := ht
    cases hp : s.pc c <;> simp_all [Pc.claim, Pc.critical]
  rw [← hi.exclusive.focus_eq hcritical] at ht
  cases hw : D w with
  | false => rfl
  | true => exact absurd ht (hi.not_targets_of_cancelable (hD w hw))

/-- What could still end canceled after a statement, could before it. -/
theorem next_cancelable (hi : Inv cfg s) (h : next cfg s c = some s') (hd : Cancelable s' d) :
    Cancelable s d := by
  have htest := hi.linked_of_cancelTest (c := d)
  revert h
  fun_cases next cfg s c
  all_goals simp only [reduceCtorEq, Option.some.injEq, IsEmpty.forall_iff]
  all_goals
    rintro rfl
    simp only [Cancelable, Linked, goto_pc, ret_pc, setWaiter_pc, setCell_pc, setSleeping_pc,
      remove_pc, goto_impl, ret_impl, setWaiter_impl, setCell_impl, setSleeping_impl,
      remove_senders, remove_receivers] at hd ⊢
    grind -ring -linarith -order -ac [List.mem_of_mem_erase]

omit [SlotMemory β α] [DecidableEq Call] [DecidableEq Task] in
theorem Outside.cancelable (h : Outside cfg s s') (hd : Cancelable s' d) : Cancelable s d := by
  unfold Cancelable at hd ⊢
  rw [h.impl] at hd
  rcases h.pc d with hp | ⟨hp, -⟩ | ⟨hp, -⟩ | ⟨hp | hp, hp'⟩
  · rwa [hp] at hd
  · simp [hp, Pc.cancelable]
  · simp [hp, Pc.cancelable]
  all_goals simpa [hp, hp', Pc.cancelable, Pc.parked] using hd

/-! ## Statements of a kept call -/

theorem next_without (hc : D c = false)
    (hnow : ∀ w, (s.pc c).Targets w → D w = false) (hthen : ∀ w, (s'.pc c).Targets w → D w = false)
    (h : next cfg s c = some s') :
    next cfg (s.without D cfg f) c = some (s'.without D cfg f) := by
  have hpc : (s.without D cfg f).pc c = s.pc c := without_pc hc
  revert h
  fun_cases next cfg s c
  all_goals simp only [reduceCtorEq, Option.some.injEq, IsEmpty.forall_iff]
  case case41 =>
    rintro rfl
    simp [next, without_goto, without_setWaiter, without_remove, without_waiter, *]
  all_goals
    rintro rfl
    simp [Pc.Targets, Pc.claim, *] at hnow hthen
    simp [next, without, goto, ret, setWaiter, setCell, setSleeping, keptRunning_update,
      masked_update, masked_apply, Option.filter_some, *]

/-! ## Statements of a deleted call -/

theorem next_without_deleted (hi : Inv cfg s) (hr : RunningOk cfg s) (hc : D c = true)
    (hd : Cancelable s c) (hd' : Cancelable s' c) (h : next cfg s c = some s') :
    s'.without D cfg f = s.without D cfg f := by
  have hrun := hr c
  have hmutex := hi.exclusive c
  have hkept : s.running (cfg.task c) = some c → keptRunning D s.running (cfg.task c) = none := by
    intro hc'
    simp [keptRunning, hc', Option.filter_some, hc]
  revert h
  fun_cases next cfg s c
  all_goals simp only [reduceCtorEq, Option.some.injEq, IsEmpty.forall_iff]
  case case41 =>
    rintro rfl
    simp [without_goto_deleted, without_setWaiter_deleted, without_remove_deleted, hc]
  all_goals
    rintro rfl
    -- outside of the lists a call that may be canceled writes only what belongs to it
    simp [Cancelable, Pc.cancelable, Pc.parked, Pc.active, Pc.critical, *] at hd hd' hrun hmutex
  all_goals
    simp [without, goto, ret, setWaiter, setSleeping, keptRunning_update, masked_update_deleted,
      Option.filter_some, *]

/-! ## The run without the canceled calls -/

/-- Steps of the calls outside of `D`, and requests. -/
def Label.kept (D : Call → Bool) (l : Label Call Task) : Bool :=
  match l.owner with
  | none => true
  | some c => !D c

/-- The second run is in the state without the calls in `D`, with at least the same requests
pending. -/
def Erased (D : Call → Bool) (cfg : Config Call Task α) (s t : State β Call Task α) : Prop :=
  ∃ f, (∀ u, s.cancel u = true → f u = true) ∧ t = s.without D cfg f

/-- A kept step is a step of the second run, with the same label. -/
theorem act_without {a : Act Call Task} {t : State β Call Task α}
    (hnow : ∀ c w, (s.pc c).Targets w → D w = false)
    (hthen : ∀ c w, (s'.pc c).Targets w → D w = false)
    (h : act cfg s a = some s') (hR : Erased D cfg s t) (hkeep : (a.label s s').kept D = true) :
    ∃ t', act cfg t a = some t' ∧ a.label t t' = a.label s s' ∧ Erased D cfg s' t' := by
  -- `f` are the cancel requests of the second run: at least those of the first
  obtain ⟨f, hf, rfl⟩ := hR
  cases a with
  | run c =>
      have hc : D c = false := by simpa [Act.label, Label.kept, Label.owner] using hkeep
      refine ⟨_, next_without hc (hnow c) (hthen c) h, ?_, f, ?_, rfl⟩
      · simp [Act.label, execLabel, without_pc hc]
      · rwa [next_cancel h]
  | begin c =>
      have hc : D c = false := by simpa [Act.label, Label.kept, Label.owner] using hkeep
      obtain ⟨hp, hrun, rfl⟩ := act_begin h
      have hfree : keptRunning D s.running (cfg.task c) = none := by simp [keptRunning, hrun]
      refine ⟨_, ?_, rfl, f, hf, rfl⟩
      simp [act, hp, without, goto, masked_apply, masked_update, keptRunning_update,
        Option.filter_some, hc, hfree]
  | cancel c =>
      have hc : D c = false := by simpa [Act.label, Label.kept, Label.owner] using hkeep
      obtain ⟨hreq, hcases⟩ := act_cancel h
      -- the request a kept call consumes is pending in both runs
      have hpending : ∀ u, Function.update s.cancel (cfg.task c) false u = true →
          Function.update f (cfg.task c) false u = true := by
        intro u hu
        by_cases hut : u = cfg.task c
        · simp [hut] at hu
        · simpa [hut] using hf u (by simpa [hut] using hu)
      have hpc : (s.without D cfg f).pc c = s.pc c := without_pc hc
      rcases hcases with ⟨hp, hk, rfl⟩ | ⟨hp, rfl⟩
      · refine ⟨_, ?_, by simp [Act.label, hpc], Function.update f (cfg.task c) false, hpending,
          rfl⟩
        simp [act, hp, hk, without, ret, masked_apply, masked_update, keptRunning_update, hc,
          hf _ hreq]
      · refine ⟨_, ?_, by simp [Act.label, hpc], Function.update f (cfg.task c) false, hpending,
          rfl⟩
        rcases hp with hp | hp
        all_goals
          simp [act, hp, without, goto, setSleeping, masked_apply, masked_update, hc, hf _ hreq]
  | spurious c =>
      have hc : D c = false := by simpa [Act.label, Label.kept, Label.owner] using hkeep
      obtain ⟨hs, rfl⟩ := act_spurious h
      refine ⟨_, ?_, rfl, f, hf, rfl⟩
      simp [act, without_sleeping hc, hs, without_setSleeping hc]
  | request u =>
      simp only [act, Option.some.injEq] at h
      subst h
      refine ⟨_, rfl, rfl, Function.update f u true, fun v hv => ?_, rfl⟩
      by_cases hvu : v = u
      · simp [hvu]
      · simpa [hvu] using hf v (by simpa [hvu] using hv)

/-- A deleted step leaves the second run where it is. -/
theorem act_without_deleted {a : Act Call Task} {t : State β Call Task α} (hi : Inv cfg s)
    (hr : RunningOk cfg s) (hD : ∀ d, D d = true → Cancelable s d)
    (hD' : ∀ d, D d = true → Cancelable s' d) (h : act cfg s a = some s') (hR : Erased D cfg s t)
    (hkeep : (a.label s s').kept D = false) : Erased D cfg s' t := by
  obtain ⟨f, hf, rfl⟩ := hR
  cases a with
  | run c =>
      have hc : D c = true := by simpa [Act.label, Label.kept, Label.owner] using hkeep
      refine ⟨f, by rwa [next_cancel h], ?_⟩
      exact (next_without_deleted hi hr hc (hD c hc) (hD' c hc) h).symm
  | begin c =>
      have hc : D c = true := by simpa [Act.label, Label.kept, Label.owner] using hkeep
      obtain ⟨-, hrun, rfl⟩ := act_begin h
      have hfree : keptRunning D s.running (cfg.task c) = none := by simp [keptRunning, hrun]
      refine ⟨f, hf, ?_⟩
      simp [without, goto, masked_update_deleted, keptRunning_update, Option.filter_some, hc, hfree]
  | cancel c =>
      have hc : D c = true := by simpa [Act.label, Label.kept, Label.owner] using hkeep
      obtain ⟨-, hcases⟩ := act_cancel h
      -- a deleted call consumes a request of the first run only
      have hpending : ∀ u, Function.update s.cancel (cfg.task c) false u = true → f u = true := by
        intro u hu
        by_cases hut : u = cfg.task c
        · simp [hut] at hu
        · exact hf u (by simpa [hut] using hu)
      rcases hcases with ⟨hp, -, rfl⟩ | ⟨hp, rfl⟩
      -- the call returns: its task runs nothing in either run
      · have hrun := hr c (by simp [hp, Pc.active])
        have hfree : keptRunning D s.running (cfg.task c) = none := by
          simp [keptRunning, hrun, Option.filter_some, hc]
        refine ⟨f, hpending, ?_⟩
        simp [without, ret, masked_update_deleted, keptRunning_update, hc, hfree]
      · refine ⟨f, hpending, ?_⟩
        simp [without, goto, setSleeping, masked_update_deleted, hc]
  | spurious c =>
      have hc : D c = true := by simpa [Act.label, Label.kept, Label.owner] using hkeep
      obtain ⟨-, rfl⟩ := act_spurious h
      exact ⟨f, hf, (without_setSleeping_deleted hc false).symm⟩
  | request u => simp [Act.label, Label.kept, Label.owner] at hkeep

theorem step_runningOk (hr : RunningOk cfg s) (h : (system β cfg).step s l s') :
    RunningOk cfg s' := by
  obtain ⟨a, ha, rfl⟩ := h
  cases a with
  | run c => exact next_runningOk hr ha
  | begin c =>
      obtain ⟨hp, hrun, rfl⟩ := act_begin ha
      intro d hd
      by_cases hdc : d = c
      · simp [hdc]
      · have hrd := hr d (by simpa [hdc] using hd)
        -- two calls that run are calls of different tasks
        have htask : cfg.task d ≠ cfg.task c := by
          intro htask
          simp [← htask, hrd] at hrun
        simpa [htask] using hrd
  | cancel c =>
      obtain ⟨-, ⟨hp, -, rfl⟩ | ⟨hp, rfl⟩⟩ := act_cancel ha
      · have hrc := hr c (by simp [hp, Pc.active])
        intro d hd
        by_cases hdc : d = c
        · simp [hdc, Pc.active] at hd
        · have hrd := hr d (by simpa [hdc] using hd)
          have htask : cfg.task d ≠ cfg.task c := by
            intro htask
            rw [htask, hrc] at hrd
            exact hdc (Option.some.inj hrd).symm
          simpa [htask] using hrd
      · intro d hd
        by_cases hdc : d = c
        · subst hdc
          exact hr d (by rcases hp with hp | hp <;> simp [hp, Pc.active])
        · exact hr d (by simpa [hdc] using hd)
  | spurious c =>
      obtain ⟨-, rfl⟩ := act_spurious ha
      exact hr
  | request u =>
      simp only [act, Option.some.injEq] at ha
      subst ha
      exact hr

theorem reachable_runningOk (h : (system β cfg).Reachable s) : RunningOk cfg s := by
  refine h.invariant ?_ fun s l s' hr hs => step_runningOk hr hs
  rintro _ ⟨b, rfl⟩ c hc
  simp [initial, Pc.active] at hc

theorem step_cancelable (hi : Inv cfg s) (h : (system β cfg).step s l s')
    (hd : Cancelable s' d) : Cancelable s d := by
  rcases step_cases h with ⟨c, hn, -⟩ | ⟨ho, -⟩
  · exact next_cancelable hi hn hd
  · exact ho.cancelable hd

/-- The calls that ended with `error.Canceled`. -/
def State.canceledCalls (s : State β Call Task α) (c : Call) : Bool :=
  s.pc c = .returned .canceled

omit [SlotMemory β α] [DecidableEq Task] in
/-- At the end of a run nothing in the channel refers to a canceled call. -/
theorem without_impl (hi : Inv cfg s) :
    (s.without s.canceledCalls cfg f).toFutexChannelImpl = s.toFutexChannelImpl := by
  -- a queued waiter is parked and the holder of the mutex is inside: neither has returned
  have hlinked : ∀ w, Linked s.toFutexChannelImpl w → s.canceledCalls w = false := by
    intro w hw
    have hp := (hi.linked w hw).1
    cases hc : s.pc w <;> simp_all [Pc.parked, canceledCalls]
  have hmutex : s.mutex.filter (!s.canceledCalls ·) = s.mutex := by
    cases hm : s.mutex with
    | none => rfl
    | some c =>
        have hcritical := (hi.exclusive c).2 hm
        have hkept : s.canceledCalls c = false := by
          cases hc : s.pc c <;> simp_all [Pc.critical, canceledCalls]
        simp [Option.filter_some, hkept]
  have hsenders : s.senders.filter (!s.canceledCalls ·) = s.senders :=
    List.filter_eq_self.2 fun w hw => by simp [hlinked w (.inl hw)]
  have hreceivers : s.receivers.filter (!s.canceledCalls ·) = s.receivers :=
    List.filter_eq_self.2 fun w hw => by simp [hlinked w (.inr hw)]
  simp [without, hmutex, hsenders, hreceivers]

/-- A canceled call leaves no trace: without the steps of every call that ended with
`error.Canceled` a run is still a run. The other calls take the same branches (the labels are the
same) and end with the same result and the same value, the channel is the same in every field, and
the deleted calls were not made. -/
theorem cancel_leaves_no_trace {b : β} (h : (system β cfg).Path (initial cfg b) tr s) :
    ∃ t, (system β cfg).Path (initial cfg b) (tr.filter (Label.kept s.canceledCalls)) t ∧
      t.toFutexChannelImpl = s.toFutexChannelImpl ∧
      (∀ c, s.pc c ≠ .returned .canceled → t.pc c = s.pc c ∧ t.waiter c = s.waiter c ∧
        t.cell c = s.cell c ∧ t.sleeping c = s.sleeping c) ∧
      ∀ c, s.pc c = .returned .canceled → t.pc c = .idle := by
  have hpre : (system β cfg).Run [] (initial cfg b) := .nil ⟨b, rfl⟩
  have hinit : Erased s.canceledCalls cfg (initial cfg b) (initial cfg b) :=
    ⟨fun _ => false, by simp [initial], (without_initial _ cfg b).symm⟩
  -- every deleted call has returned `error.Canceled` at the end, so it could do so all along
  have hend : ∀ d, s.canceledCalls d = true → Cancelable s d := by
    intro d hd
    refine .inl ?_
    simp [show s.pc d = .returned .canceled by simpa [canceledCalls] using hd, Pc.cancelable]
  have hback : ∀ s₁ l s₂, (system β cfg).Reachable s₁ → (system β cfg).step s₁ l s₂ →
      (∀ d, s.canceledCalls d = true → Cancelable s₂ d) →
      ∀ d, s.canceledCalls d = true → Cancelable s₁ d :=
    fun s₁ l s₂ hr hs hD d hd => step_cancelable (reachable_inv hr) hs (hD d hd)
  -- a step of a call that is kept is the same step of the second run
  have hstep : ∀ s₁ l s₂ t, (system β cfg).Reachable s₁ → (system β cfg).step s₁ l s₂ →
      (∀ d, s.canceledCalls d = true → Cancelable s₂ d) → Erased s.canceledCalls cfg s₁ t →
      Label.kept s.canceledCalls l = true →
      ∃ t', (system β cfg).step t l t' ∧ Erased s.canceledCalls cfg s₂ t' := by
    intro s₁ l s₂ t hr hs hD hR hkeep
    have hi := reachable_inv hr
    have hi' := reachable_inv (hr.step hs)
    have hD₁ := hback _ _ _ hr hs hD
    obtain ⟨a, ha, rfl⟩ := hs
    obtain ⟨t', ht', hl, hR'⟩ := act_without (fun c w => hi.kept_of_targets hD₁)
      (fun c w => hi'.kept_of_targets hD) ha hR hkeep
    exact ⟨t', ⟨a, ht', hl.symm⟩, hR'⟩
  -- a step of a call that is deleted leaves the second run where it is
  have hdrop : ∀ s₁ l s₂ t, (system β cfg).Reachable s₁ → (system β cfg).step s₁ l s₂ →
      (∀ d, s.canceledCalls d = true → Cancelable s₂ d) → Erased s.canceledCalls cfg s₁ t →
      Label.kept s.canceledCalls l = false → Erased s.canceledCalls cfg s₂ t := by
    intro s₁ l s₂ t hr hs hD hR hkeep
    have hD₁ := hback _ _ _ hr hs hD
    obtain ⟨a, ha, rfl⟩ := hs
    exact act_without_deleted (reachable_inv hr) (reachable_runningOk hr) hD₁ hD ha hR hkeep
  obtain ⟨t, hpath, f, -, rfl⟩ := System.Path.erase hpre hback hstep hdrop h hinit hend
  refine ⟨_, hpath, without_impl (reachable_inv (hpre.append h).reachable), ?_, ?_⟩
  · intro c hc
    have hkept : s.canceledCalls c = false := by simpa [canceledCalls] using hc
    exact ⟨without_pc hkept, without_waiter hkept, without_cell hkept, without_sleeping hkept⟩
  · intro c hc
    simp [without, masked, canceledCalls, hc]

end Step

/-- The receive sleeps until it is canceled, and the send comes while it is in the list no more. -/
def canceledAhead : List (Label (Fin 3) (Fin 3)) × State (Nat → Nat) (Fin 3) (Fin 3) Nat :=
  (replay (threeCalls 1) (initial (threeCalls 1) fun _ => 0)
    (.begin 1 :: List.replicate 7 (.run 1) ++ [.request 1, .begin 0, .cancel 1] ++
      List.replicate 3 (.run 1) ++ List.replicate 5 (.run 0))).get (by decide)

theorem cancel_leaves_no_trace_canceledAhead :
    canceledAhead.2.pc 1 = .returned .canceled ∧
      ∃ t, (system (Nat → Nat) (threeCalls 1)).Path (initial (threeCalls 1) fun _ => 0)
          (canceledAhead.1.filter (Label.kept canceledAhead.2.canceledCalls)) t ∧
        t.count = 1 ∧ t.pc 0 = .returned .ok ∧ t.pc 1 = .idle := by
  have hpath : (system (Nat → Nat) (threeCalls 1)).Path (initial (threeCalls 1) fun _ => 0)
      canceledAhead.1 canceledAhead.2 := path_of_replay (Option.some_get _).symm
  have hp : canceledAhead.2.pc 1 = .returned .canceled := by decide
  obtain ⟨t, ht, himpl, hkept, hdeleted⟩ := cancel_leaves_no_trace hpath
  refine ⟨hp, t, ht, ?_, ?_, hdeleted 1 hp⟩
  · rw [himpl]
    decide
  · rw [(hkept 0 (by decide)).1]
    decide

end ZioBenchmarks.FutexChannel
