import ZioBenchmarks.FutexChannel.Control
import ZioBenchmarks.Transition.Runs

/-!
# Steps of a `FutexChannel`

`next` executes one statement of a call: a load or store of a futex word, `futexWait`, `futexWake`,
a lock, an unlock, a list operation, a copy through `data_ptr`, or an assignment of `done` or
`queued` is one step each. A statement that touches only fields the mutex protects is executed
together with the test that guards it. `act` adds what the environment does: a task starts a call,
a cancelable wait reports `error.Canceled`, a sleeper wakes spuriously, a cancel request arrives.
-/

set_option autoImplicit false

namespace ZioBenchmarks.FutexChannel

open ZioBenchmarks.Transition

variable {β Call Task α : Type} [SlotMemory β α] [DecidableEq Call] [DecidableEq Task]

/-- One statement of the call `c`; `none` where the call waits, has returned, or was not made. -/
def next (cfg : Config Call Task α) (s : State β Call Task α) (c : Call) :
    Option (State β Call Task α) :=
  match s.pc c with
  | .idle => none
  | .lock =>
      if s.mutex = none then some ({ s with mutex := some c }.goto c (cfg.kind c).entry) else none
  -- send
  | .sendClosed =>
      if s.closed then some (s.goto c (.unlock .closed)) else some (s.goto c .sendPop)
  | .sendPop =>
      match s.receivers with
      | [] => some (s.goto c .sendRoom)
      | r :: rest => some ({ s with receivers := rest }.goto c (.sendHandoff r))
  | .sendHandoff r => some ((s.setCell r (s.cell c)).goto c (.setDone r true .ret))
  | .sendRoom =>
      if s.count < cfg.capacity then
        some ({ s with
          buffer := SlotMemory.store s.buffer s.tail (s.cell c)
          tail := (s.tail + 1) % cfg.capacity
          count := s.count + 1 }.goto c (.unlock .ok))
      else
        some ({ s.setWaiter c {} with senders := s.senders ++ [c] }.goto c .unlockPark)
  -- receive
  | .recvCount =>
      if 0 < s.count then
        some ({ s.setCell c (SlotMemory.load s.buffer s.head) with
          head := (s.head + 1) % cfg.capacity
          count := s.count - 1 }.goto c .recvRefill)
      else
        some (s.goto c .recvPop)
  | .recvRefill =>
      match s.senders with
      | [] => some (s.goto c (.unlock .ok))
      | w :: rest => some ({ s with senders := rest }.goto c (.recvMove w))
  | .recvMove w =>
      some ({ s with
        buffer := SlotMemory.store s.buffer s.tail (s.cell w)
        tail := (s.tail + 1) % cfg.capacity
        count := s.count + 1 }.goto c (.setDone w true .ret))
  | .recvPop =>
      match s.senders with
      | [] => some (s.goto c .recvClosed)
      | w :: rest => some ({ s with senders := rest }.goto c (.recvTake w))
  | .recvTake w => some ((s.setCell c (s.cell w)).goto c (.setDone w true .ret))
  | .recvClosed =>
      if s.closed then some (s.goto c (.unlock .closed))
      else some ({ s.setWaiter c {} with receivers := s.receivers ++ [c] }.goto c .unlockPark)
  -- close
  | .closeTest =>
      if s.closed then some (s.goto c (.unlock .ok))
      else some ({ s with closed := true }.goto c .closeReceivers)
  | .closeReceivers =>
      match s.receivers with
      | [] => some (s.goto c .closeSenders)
      | r :: rest => some ({ s with receivers := rest }.goto c (.setDone r false .closeReceivers))
  | .closeSenders =>
      match s.senders with
      | [] => some (s.goto c (.unlock .ok))
      | w :: rest => some ({ s with senders := rest }.goto c (.setDone w false .closeSenders))
  -- the claimed waiter, and wake
  | .setDone w b k =>
      some ((s.setWaiter w { s.waiter w with done := b }).goto c (.setQueued w k))
  | .setQueued w k =>
      some ((s.setWaiter w { s.waiter w with queued := false }).goto c (.storeFutex w k))
  | .storeFutex w k =>
      some ((s.setWaiter w { s.waiter w with futex := 1 }).goto c (.futexWake w k))
  | .futexWake w k => some ((s.setSleeping w false).goto c k.pc)
  | .unlock r => some ({ s with mutex := none }.ret cfg c r)
  | .unlockPark => some ({ s with mutex := none }.goto c .load)
  -- park
  | .load =>
      if (s.waiter c).futex = 0 then some (s.goto c .wait) else some (s.goto c .relock)
  | .wait =>
      -- the kernel compares the word with 0 before it lets the caller sleep
      if (s.waiter c).futex = 0 then
        some ((s.setSleeping c true).goto c .waiting)
      else
        some (s.goto c .load)
  | .waiting => if s.sleeping c then none else some (s.goto c .load)
  | .cancelLock =>
      if s.mutex = none then some ({ s with mutex := some c }.goto c .cancelTest) else none
  | .cancelTest =>
      if (s.waiter c).queued then
        some (((s.remove cfg c).setWaiter c { s.waiter c with queued := false }).goto c
          (.unlock .canceled))
      else
        some (s.goto c .cancelUnlock)
  | .cancelUnlock => some ({ s with mutex := none }.goto c .result)
  | .relock => if s.mutex = none then some ({ s with mutex := some c }.goto c .reunlock) else none
  | .reunlock => some ({ s with mutex := none }.goto c .result)
  | .result => if (s.waiter c).done then some (s.ret cfg c .ok) else some (s.ret cfg c .closed)
  | .returned _ => none

-- the principle behind every case analysis of a statement, derived once
attribute [elab_as_elim] next.fun_cases_unfolding

/-- What can happen next: a statement of a call, or an action of the environment. -/
inductive Act (Call Task : Type) where
  | begin (c : Call)
  | run (c : Call)
  | cancel (c : Call)
  | spurious (c : Call)
  | request (t : Task)
  deriving DecidableEq, Repr

/-- Effect of an action, if it can happen. A task is in one call at a time. A wait reports
`error.Canceled` only by consuming the pending request of its task; the entry lock of `close` is not
cancelable. -/
def act (cfg : Config Call Task α) (s : State β Call Task α) :
    Act Call Task → Option (State β Call Task α)
  | .begin c =>
      if s.pc c = .idle ∧ s.running (cfg.task c) = none then
        some ({ s with running := Function.update s.running (cfg.task c) (some c) }.goto c .lock)
      else none
  | .run c => next cfg s c
  | .cancel c =>
      if s.cancel (cfg.task c) then
        match s.pc c with
        | .lock =>
            -- `close` locks with `lockUncancelable`
            if cfg.kind c = .close then none
            else some ({ s with cancel := Function.update s.cancel (cfg.task c) false }.ret cfg c
              .canceled)
        | .wait | .waiting =>
            some ({ s.setSleeping c false with
              cancel := Function.update s.cancel (cfg.task c) false }.goto c .cancelLock)
        | _ => none
      else none
  | .spurious c =>
      if s.sleeping c then some (s.setSleeping c false) else none
  | .request t => some { s with cancel := Function.update s.cancel t true }

theorem act_begin {cfg : Config Call Task α} {s s' : State β Call Task α} {c : Call}
    (h : act cfg s (.begin c) = some s') :
    s.pc c = .idle ∧ s.running (cfg.task c) = none ∧
      s' = { s with running := Function.update s.running (cfg.task c) (some c) }.goto c .lock := by
  simp only [act] at h
  split at h
  case isTrue hb => exact ⟨hb.1, hb.2, (Option.some.inj h).symm⟩
  case isFalse => simp at h

/-- A canceled entry lock returns; a canceled wait goes on to the lock that decides the race. -/
theorem act_cancel {cfg : Config Call Task α} {s s' : State β Call Task α} {c : Call}
    (h : act cfg s (.cancel c) = some s') :
    s.cancel (cfg.task c) = true ∧
      ((s.pc c = .lock ∧ cfg.kind c ≠ .close ∧
          s' = { s with cancel := Function.update s.cancel (cfg.task c) false }.ret cfg c
            .canceled) ∨
        ((s.pc c = .wait ∨ s.pc c = .waiting) ∧
          s' = { s.setSleeping c false with
            cancel := Function.update s.cancel (cfg.task c) false }.goto c .cancelLock)) := by
  simp only [act] at h
  split at h
  case isFalse => simp at h
  case isTrue hc =>
    refine ⟨hc, ?_⟩
    split at h
    case h_1 hp =>
      split at h
      case isTrue => simp at h
      case isFalse hk => exact .inl ⟨hp, hk, (Option.some.inj h).symm⟩
    case h_2 hp => exact .inr ⟨.inl hp, (Option.some.inj h).symm⟩
    case h_3 hp => exact .inr ⟨.inr hp, (Option.some.inj h).symm⟩
    case h_4 => simp at h

theorem act_spurious {cfg : Config Call Task α} {s s' : State β Call Task α} {c : Call}
    (h : act cfg s (.spurious c) = some s') :
    s.sleeping c = true ∧ s' = s.setSleeping c false := by
  simp only [act] at h
  split at h
  case isTrue hs => exact ⟨hs, (Option.some.inj h).symm⟩
  case isFalse => simp at h

/-- A step as an observer sees it: the statement a call executed and the one it goes on to, so that
a label tells every branch that was taken. -/
inductive Label (Call Task : Type) where
  | begin (c : Call)
  | exec (c : Call) (p p' : Pc Call)
  | cancel (c : Call) (p : Pc Call)
  | spurious (c : Call)
  | request (t : Task)
  deriving DecidableEq, Repr

/-- The label of a statement of `c` from `s` to `s'`. -/
abbrev execLabel (s s' : State β Call Task α) (c : Call) : Label Call Task :=
  .exec c (s.pc c) (s'.pc c)

/-- The label of an action from `s` to `s'`. -/
def Act.label (s s' : State β Call Task α) : Act Call Task → Label Call Task
  | .begin c => .begin c
  | .run c => execLabel s s' c
  | .cancel c => .cancel c (s.pc c)
  | .spurious c => .spurious c
  | .request t => .request t

/-- The transition system of the channel and its callers. -/
def system (β : Type) [SlotMemory β α] (cfg : Config Call Task α) :
    System (State β Call Task α) (Label Call Task) where
  init s := ∃ b, s = initial cfg b
  step s l s' := ∃ a, act cfg s a = some s' ∧ l = a.label s s'

/-- The call a step belongs to. -/
def Label.owner : Label Call Task → Option Call
  | .begin c | .exec c _ _ | .cancel c _ | .spurious c => some c
  | .request _ => none

/-- Run a list of actions, with the labels they give. -/
def replay (cfg : Config Call Task α) :
    State β Call Task α → List (Act Call Task) →
      Option (List (Label Call Task) × State β Call Task α) :=
  System.replay (System.labelled (act cfg) fun s a s' => a.label s s')

theorem path_of_replay {cfg : Config Call Task α} {as : List (Act Call Task)}
    {s : State β Call Task α} {r : List (Label Call Task) × State β Call Task α}
    (h : replay cfg s as = some r) : (system β cfg).Path s r.1 r.2 :=
  System.Path.of_labelled (T := system β cfg) (fun _ a _ ha => ⟨a, ha, rfl⟩) h

theorem run_of_replay {cfg : Config Call Task α} {as : List (Act Call Task)} {b : β}
    {r : List (Label Call Task) × State β Call Task α}
    (h : replay cfg (initial cfg b) as = some r) : (system β cfg).Run r.1 r.2 :=
  ⟨_, ⟨b, rfl⟩, path_of_replay h⟩

/-- The calls of `threeCalls` are numerals. -/
instance neZero_three : @NeZero Nat Zero.ofOfNat0 3 := ⟨by decide⟩

/-- A send, a receive and a close, each made by a task of its own. -/
def threeCalls (capacity : Nat) : Config (Fin 3) (Fin 3) Nat where
  capacity := capacity
  kind c := if c = 0 then .send else if c = 1 then .receive else .close
  task c := c
  item c := c + 7

end ZioBenchmarks.FutexChannel
