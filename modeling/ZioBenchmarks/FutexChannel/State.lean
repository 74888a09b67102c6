import Mathlib.Logic.Function.Basic

/-!
# State of a `FutexChannel`

The channel of `futex_channel.zig` together with the tasks that use it. `FutexChannelImpl` holds the
fields the mutex protects, `Waiter` is the record a blocked call keeps on its own stack, and `Pc` is
the statement a call executes next. Calls are named: a name stands for one execution of `send`,
`receive` or `close` and for the stack frame of that execution, so a frame that died is never
confused with a later one.

The item type is a parameter, and so is the memory behind `buffer` (`SlotMemory`), which the code
addresses one slot at a time through `elemPtr`.
-/

set_option autoImplicit false

namespace ZioBenchmarks.FutexChannel

/-- Memory addressed by slot: `load` and `store` are the two directions of the `@memcpy` through
`elemPtr`. -/
class SlotMemory (β : Type) (α : outParam Type) where
  load : β → Nat → α
  store : β → Nat → α → β

/-- A store changes its own slot and no other. -/
class LawfulSlotMemory (β : Type) (α : outParam Type) [SlotMemory β α] : Prop where
  load_store : ∀ (b : β) (i : Nat) (v : α),
    SlotMemory.load (SlotMemory.store b i v) = Function.update (SlotMemory.load b) i v

/-- A buffer of typed elements. -/
instance elementMemory {α : Type} : SlotMemory (Nat → α) α where
  load b i := b i
  store b i v := Function.update b i v

instance {α : Type} : LawfulSlotMemory (Nat → α) α := ⟨fun _ _ _ => rfl⟩

/-- The three operations of the channel. -/
inductive Kind where
  | send
  | receive
  | close
  deriving DecidableEq, Repr

/-- How a call ended: normally, with `error.Closed`, or with `error.Canceled`. -/
inductive Outcome where
  | ok
  | closed
  | canceled
  deriving DecidableEq, Repr

/-- What the tasks do: the capacity of the channel, the operation of each call, the task that makes
it, and the variable its `data_ptr` points at (the item of a send, the `undefined` result of a
receive). -/
structure Config (Call Task α : Type) where
  capacity : Nat
  kind : Call → Kind
  task : Call → Task
  item : Call → α

/-- `Waiter` without its list node and its `data_ptr`: links are list membership in the model, and
`data_ptr` always points at the variable of the call that owns the waiter. The defaults are those
of the source. -/
structure Waiter where
  futex : Nat := 0
  done : Bool := false
  queued : Bool := true
  deriving DecidableEq, Repr

/-- The record of a call that has not blocked. -/
def Waiter.absent : Waiter := ⟨0, false, false⟩

/-- Where the code continues after `wake` returned: to the unlock, or to one of the loops of
`close`. -/
inductive After where
  | ret
  | closeReceivers
  | closeSenders
  deriving DecidableEq, Repr

/-- The statement a call executes next. -/
inductive Pc (Call : Type) where
  /-- Not called yet. -/
  | idle
  /-- Waiting for the mutex on entry. -/
  | lock
  /-- `send`: `if (self.closed)`. -/
  | sendClosed
  /-- `send`: `self.receivers.popFirst()`. -/
  | sendPop
  /-- `send`: copy the item into the popped receiver's variable. -/
  | sendHandoff (r : Call)
  /-- `send`: buffer the item if there is room, else append a waiter. -/
  | sendRoom
  /-- `receive`: take from the ring if `count > 0`. -/
  | recvCount
  /-- `receive`: `self.senders.popFirst()` after a slot was freed. -/
  | recvRefill
  /-- `receive`: copy the popped sender's item into the freed slot. -/
  | recvMove (w : Call)
  /-- `receive`: `self.senders.popFirst()` with an empty ring. -/
  | recvPop
  /-- `receive`: copy the popped sender's item into the result. -/
  | recvTake (w : Call)
  /-- `receive`: `if (self.closed)`, else append a waiter. -/
  | recvClosed
  /-- `close`: `if (self.closed) return`, else set it. -/
  | closeTest
  /-- `close`: head of the loop over `receivers`. -/
  | closeReceivers
  /-- `close`: head of the loop over `senders`. -/
  | closeSenders
  /-- `w.done = b`. -/
  | setDone (w : Call) (b : Bool) (k : After)
  /-- `w.queued = false`. -/
  | setQueued (w : Call) (k : After)
  /-- `wake`: `w.futex.store(1, .release)`. -/
  | storeFutex (w : Call) (k : After)
  /-- `wake`: `io.futexWake`. -/
  | futexWake (w : Call) (k : After)
  /-- Unlock and return. -/
  | unlock (r : Outcome)
  /-- Unlock and call `park`. -/
  | unlockPark
  /-- `park`: `w.futex.load(.acquire) == 0`. -/
  | load
  /-- `park`: call `io.futexWait`. -/
  | wait
  /-- `park`: inside `io.futexWait`. -/
  | waiting
  /-- `park`, canceled: `self.mutex.lockUncancelable`. -/
  | cancelLock
  /-- `park`, canceled: `if (w.queued)`. -/
  | cancelTest
  /-- `park`, canceled but claimed by a peer: the deferred unlock. -/
  | cancelUnlock
  /-- `park`, woken: `self.mutex.lockUncancelable`. -/
  | relock
  /-- `park`, woken: `self.mutex.unlock`. -/
  | reunlock
  /-- `return if (w.done) {} else error.Closed`. -/
  | result
  /-- Returned. -/
  | returned (r : Outcome)
  deriving DecidableEq, Repr

/-- The fields of `FutexChannelImpl`. `elem_size` belongs to the memory and `capacity` to the
configuration, since neither changes. -/
structure FutexChannelImpl (β Call : Type) where
  buffer : β
  head : Nat
  tail : Nat
  count : Nat
  closed : Bool
  mutex : Option Call
  senders : List Call
  receivers : List Call

/-- The channel, the stack frame of every call (`waiter`, `cell`, `pc`), and the runtime: the calls
asleep in `futexWait`, the call each task is in, and its pending cancel request. -/
structure State (β Call Task α : Type) extends FutexChannelImpl β Call where
  waiter : Call → Waiter
  cell : Call → α
  pc : Call → Pc Call
  sleeping : Call → Bool
  running : Task → Option Call
  cancel : Task → Bool

variable {β Call Task α : Type}

/-- `FutexChannel.init` over the memory `b`, with no call made yet. -/
def initial (cfg : Config Call Task α) (b : β) : State β Call Task α where
  buffer := b
  head := 0
  tail := 0
  count := 0
  closed := false
  mutex := none
  senders := []
  receivers := []
  waiter _ := .absent
  cell := cfg.item
  pc _ := .idle
  sleeping _ := false
  running _ := none
  cancel _ := false

variable [DecidableEq Call] [DecidableEq Task]

namespace State

/-- `c` continues at `p`. -/
def goto (s : State β Call Task α) (c : Call) (p : Pc Call) : State β Call Task α :=
  { s with pc := Function.update s.pc c p }

/-- `c` returns `r`, and its task is free for another call. -/
def ret (cfg : Config Call Task α) (s : State β Call Task α) (c : Call) (r : Outcome) :
    State β Call Task α :=
  { s with
    pc := Function.update s.pc c (.returned r)
    running := Function.update s.running (cfg.task c) none }

/-- Overwrite the waiter of `c`. -/
def setWaiter (s : State β Call Task α) (c : Call) (w : Waiter) : State β Call Task α :=
  { s with waiter := Function.update s.waiter c w }

/-- Overwrite the variable of `c`. -/
def setCell (s : State β Call Task α) (c : Call) (v : α) : State β Call Task α :=
  { s with cell := Function.update s.cell c v }

/-- Put `c` to sleep in `futexWait`, or end its sleep. -/
def setSleeping (s : State β Call Task α) (c : Call) (b : Bool) : State β Call Task α :=
  { s with sleeping := Function.update s.sleeping c b }

/-- `queue.remove(&w.node)`, with the list the owner passed to `park`. -/
def remove (cfg : Config Call Task α) (s : State β Call Task α) (c : Call) :
    State β Call Task α :=
  match cfg.kind c with
  | .send => { s with senders := s.senders.erase c }
  | .receive => { s with receivers := s.receivers.erase c }
  | .close => s

section Projections

omit [DecidableEq Task]

variable (s : State β Call Task α) (c d : Call) (p : Pc Call) (w : Waiter) (v : α)

@[simp, grind =] theorem goto_pc : (s.goto c p).pc d = if d = c then p else s.pc d :=
  Function.update_apply ..

@[simp, grind =] theorem goto_impl :
    (s.goto c p).toFutexChannelImpl = s.toFutexChannelImpl := rfl

@[simp, grind =] theorem goto_waiter : (s.goto c p).waiter = s.waiter := rfl

@[simp, grind =] theorem goto_cell : (s.goto c p).cell = s.cell := rfl

@[simp, grind =] theorem goto_sleeping : (s.goto c p).sleeping = s.sleeping := rfl

@[simp, grind =] theorem goto_running : (s.goto c p).running = s.running := rfl

@[simp, grind =] theorem goto_cancel : (s.goto c p).cancel = s.cancel := rfl

@[simp, grind =] theorem setWaiter_waiter :
    (s.setWaiter c w).waiter d = if d = c then w else s.waiter d :=
  Function.update_apply ..

@[simp, grind =] theorem setWaiter_impl :
    (s.setWaiter c w).toFutexChannelImpl = s.toFutexChannelImpl := rfl

@[simp, grind =] theorem setWaiter_cell : (s.setWaiter c w).cell = s.cell := rfl

@[simp, grind =] theorem setWaiter_pc : (s.setWaiter c w).pc = s.pc := rfl

@[simp, grind =] theorem setWaiter_sleeping : (s.setWaiter c w).sleeping = s.sleeping := rfl

@[simp, grind =] theorem setWaiter_running : (s.setWaiter c w).running = s.running := rfl

@[simp, grind =] theorem setWaiter_cancel : (s.setWaiter c w).cancel = s.cancel := rfl

@[simp, grind =] theorem setCell_cell :
    (s.setCell c v).cell d = if d = c then v else s.cell d :=
  Function.update_apply ..

@[simp, grind =] theorem setCell_impl :
    (s.setCell c v).toFutexChannelImpl = s.toFutexChannelImpl := rfl

@[simp, grind =] theorem setCell_waiter : (s.setCell c v).waiter = s.waiter := rfl

@[simp, grind =] theorem setCell_pc : (s.setCell c v).pc = s.pc := rfl

@[simp, grind =] theorem setCell_sleeping : (s.setCell c v).sleeping = s.sleeping := rfl

@[simp, grind =] theorem setCell_running : (s.setCell c v).running = s.running := rfl

@[simp, grind =] theorem setCell_cancel : (s.setCell c v).cancel = s.cancel := rfl

variable (b : Bool)

@[simp, grind =] theorem setSleeping_sleeping :
    (s.setSleeping c b).sleeping d = if d = c then b else s.sleeping d :=
  Function.update_apply ..

@[simp, grind =] theorem setSleeping_impl :
    (s.setSleeping c b).toFutexChannelImpl = s.toFutexChannelImpl := rfl

@[simp, grind =] theorem setSleeping_waiter : (s.setSleeping c b).waiter = s.waiter := rfl

@[simp, grind =] theorem setSleeping_cell : (s.setSleeping c b).cell = s.cell := rfl

@[simp, grind =] theorem setSleeping_pc : (s.setSleeping c b).pc = s.pc := rfl

@[simp, grind =] theorem setSleeping_running : (s.setSleeping c b).running = s.running := rfl

@[simp, grind =] theorem setSleeping_cancel : (s.setSleeping c b).cancel = s.cancel := rfl

end Projections

section Projections

variable (cfg : Config Call Task α) (s : State β Call Task α) (c d : Call) (r : Outcome)

@[simp, grind =] theorem ret_pc :
    (s.ret cfg c r).pc d = if d = c then .returned r else s.pc d :=
  Function.update_apply ..

@[simp, grind =] theorem ret_impl :
    (s.ret cfg c r).toFutexChannelImpl = s.toFutexChannelImpl := rfl

@[simp, grind =] theorem ret_waiter : (s.ret cfg c r).waiter = s.waiter := rfl

@[simp, grind =] theorem ret_cell : (s.ret cfg c r).cell = s.cell := rfl

@[simp, grind =] theorem ret_sleeping : (s.ret cfg c r).sleeping = s.sleeping := rfl

@[simp, grind =] theorem ret_running :
    (s.ret cfg c r).running = Function.update s.running (cfg.task c) none := rfl

@[simp, grind =] theorem ret_cancel : (s.ret cfg c r).cancel = s.cancel := rfl

omit [DecidableEq Task]

@[simp, grind =] theorem remove_senders :
    (s.remove cfg c).senders =
      if cfg.kind c = .send then s.senders.erase c else s.senders := by
  unfold remove
  cases cfg.kind c <;> rfl

@[simp, grind =] theorem remove_receivers :
    (s.remove cfg c).receivers =
      if cfg.kind c = .receive then s.receivers.erase c else s.receivers := by
  unfold remove
  cases cfg.kind c <;> rfl

/-- Everything but the two lists is left alone. -/
theorem remove_eq : s.remove cfg c =
    { s with senders := (s.remove cfg c).senders, receivers := (s.remove cfg c).receivers } := by
  unfold remove
  cases cfg.kind c <;> rfl

@[simp, grind =] theorem remove_buffer : (s.remove cfg c).buffer = s.buffer := by rw [remove_eq]

@[simp, grind =] theorem remove_head : (s.remove cfg c).head = s.head := by rw [remove_eq]

@[simp, grind =] theorem remove_tail : (s.remove cfg c).tail = s.tail := by rw [remove_eq]

@[simp, grind =] theorem remove_count : (s.remove cfg c).count = s.count := by rw [remove_eq]

@[simp, grind =] theorem remove_closed : (s.remove cfg c).closed = s.closed := by rw [remove_eq]

@[simp, grind =] theorem remove_mutex : (s.remove cfg c).mutex = s.mutex := by rw [remove_eq]

@[simp, grind =] theorem remove_waiter : (s.remove cfg c).waiter = s.waiter := by rw [remove_eq]

@[simp, grind =] theorem remove_cell : (s.remove cfg c).cell = s.cell := by rw [remove_eq]

@[simp, grind =] theorem remove_pc : (s.remove cfg c).pc = s.pc := by rw [remove_eq]

@[simp, grind =] theorem remove_sleeping : (s.remove cfg c).sleeping = s.sleeping := by
  rw [remove_eq]

@[simp, grind =] theorem remove_running : (s.remove cfg c).running = s.running := by
  rw [remove_eq]

@[simp, grind =] theorem remove_cancel : (s.remove cfg c).cancel = s.cancel := by rw [remove_eq]

end Projections

end State

end ZioBenchmarks.FutexChannel
