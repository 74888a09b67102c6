import ZioBenchmarks.FutexChannel.Control
import ZioBenchmarks.Ring.Circular

/-!
# The invariant of a `FutexChannel`

Between sections the channel is settled: a waiting sender means a full ring, and a closed channel
has no waiters. Inside a section `ChanAt` says what the holder of the mutex has established so far.
A waiter goes through the stages linked, popped, marked, storing, waking, claimed; the focus tells
which waiter is in the middle of a claim, and its owner can be no further than the lock that
ends `park`.
-/

set_option autoImplicit false

namespace ZioBenchmarks.FutexChannel

variable {β Call Task α : Type}

/-- What holds of the channel fields while the mutex is free. -/
def Settled (cfg : Config Call Task α) (ch : FutexChannelImpl β Call) : Prop :=
  (ch.senders ≠ [] → ch.count = cfg.capacity) ∧
    (ch.closed = true → ch.senders = [] ∧ ch.receivers = [])

/-- What holds of the channel fields where the code continues after a `wake`. -/
def AfterAt (cfg : Config Call Task α) (ch : FutexChannelImpl β Call) : After → Prop
  | .ret => Settled cfg ch
  | .closeReceivers => ch.closed = true ∧ (ch.senders ≠ [] → ch.count = cfg.capacity)
  | .closeSenders =>
      ch.closed = true ∧ ch.receivers = [] ∧ (ch.senders ≠ [] → ch.count = cfg.capacity)

/-- What holds of the channel fields at each statement of the mutex holder. -/
def ChanAt (cfg : Config Call Task α) (ch : FutexChannelImpl β Call) : Pc Call → Prop
  | .sendPop => ch.closed = false ∧ Settled cfg ch
  | .sendHandoff r =>
      ch.closed = false ∧ ch.count = 0 ∧ ch.senders = [] ∧ cfg.kind r = .receive
  | .sendRoom => ch.closed = false ∧ ch.receivers = [] ∧ Settled cfg ch
  | .recvRefill =>
      ch.receivers = [] ∧ ch.count < cfg.capacity ∧
        (ch.senders ≠ [] → ch.count + 1 = cfg.capacity ∧ ch.closed = false)
  | .recvMove w =>
      ch.receivers = [] ∧ ch.count + 1 = cfg.capacity ∧ ch.closed = false ∧ cfg.kind w = .send
  | .recvPop => ch.count = 0 ∧ Settled cfg ch
  | .recvTake w =>
      ch.count = 0 ∧ ch.receivers = [] ∧ ch.closed = false ∧ Settled cfg ch ∧ cfg.kind w = .send
  | .recvClosed => ch.count = 0 ∧ ch.senders = [] ∧ Settled cfg ch
  | .closeReceivers => AfterAt cfg ch .closeReceivers
  | .closeSenders => AfterAt cfg ch .closeSenders
  | .setDone _ b k => AfterAt cfg ch k ∧ (b = true ↔ k = .ret)
  | .setQueued _ k | .storeFutex _ k | .futexWake _ k => AfterAt cfg ch k
  | _ => Settled cfg ch

@[simp, grind =] theorem chanAt_entry (cfg : Config Call Task α) (ch : FutexChannelImpl β Call)
    (k : Kind) : ChanAt cfg ch k.entry ↔ Settled cfg ch := by
  cases k <;> rfl

@[simp, grind =] theorem chanAt_after (cfg : Config Call Task α) (ch : FutexChannelImpl β Call)
    (k : After) : ChanAt cfg ch k.pc ↔ AfterAt cfg ch k := by
  cases k <;> rfl

/-- The waiter of `w` is in one of the two lists. -/
def Linked (ch : FutexChannelImpl β Call) (w : Call) : Prop := w ∈ ch.senders ∨ w ∈ ch.receivers

/-- A waiter nobody has written to since its owner appended it. -/
def Waiter.Fresh (w : Waiter) : Prop := w.queued = true ∧ w.futex = 0 ∧ w.done = false

/-- The owner is between the append and the end of its wait, outside of the mutex. -/
def Pc.Asleep (p : Pc Call) : Prop := p.parked = true ∧ p.critical = false

/-- The waiter was claimed and its owner may leave. -/
def Waiter.Claimed (w : Waiter) : Prop := w.queued = false ∧ w.futex = 1

/-- The invariant of the channel and its callers. -/
structure Inv (cfg : Config Call Task α) (s : State β Call Task α) : Prop where
  exclusive : s.Exclusive
  kind_ok : ∀ c, (s.pc c).kindOk (cfg.kind c) = true
  chan_at : ChanAt cfg s.toFutexChannelImpl s.focus
  ring : Ring.WellFormed cfg.capacity s.head s.tail s.count
  receivers_empty : s.receivers ≠ [] → s.count = 0 ∧ s.senders = []
  senders_nodup : s.senders.Nodup
  receivers_nodup : s.receivers.Nodup
  senders_kind : ∀ w ∈ s.senders, cfg.kind w = .send
  receivers_kind : ∀ w ∈ s.receivers, cfg.kind w = .receive
  linked : ∀ w, Linked s.toFutexChannelImpl w → (s.pc w).parked = true ∧ (s.waiter w).Fresh
  popped : ∀ w, s.focus.claim = some (.popped, w) →
    ¬ Linked s.toFutexChannelImpl w ∧ (s.pc w).Asleep ∧ (s.waiter w).Fresh
  marked : ∀ w, s.focus.claim = some (.marked, w) →
    ¬ Linked s.toFutexChannelImpl w ∧ (s.pc w).Asleep ∧
      (s.waiter w).queued = true ∧ (s.waiter w).futex = 0
  storing : ∀ w, s.focus.claim = some (.storing, w) →
    (s.pc w).Asleep ∧ (s.waiter w).queued = false ∧ (s.waiter w).futex = 0
  waking : ∀ w, s.focus.claim = some (.waking, w) →
    ((s.pc w).Asleep ∨ s.pc w = .relock) ∧ (s.waiter w).Claimed
  parked : ∀ c, (s.pc c).parked = true →
    Linked s.toFutexChannelImpl c ∨ s.focus.Targets c ∨ (s.waiter c).Claimed
  resumed : ∀ c, (s.pc c).resumed = true → (s.waiter c).Claimed
  early : ∀ c, (s.pc c).early = true → s.waiter c = .absent
  queued : ∀ c, (s.waiter c).queued = true → (s.pc c).parked = true
  sleeping : ∀ c, s.sleeping c = true →
    s.pc c = .waiting ∧ ((s.waiter c).futex = 1 → s.focus.claim = some (.waking, c))

attribute [grind] Linked Waiter.Fresh Pc.Asleep Waiter.Claimed

/-- The holder of the mutex finds what its statement relies on. -/
theorem Inv.chanAt {cfg : Config Call Task α} {s : State β Call Task α} (hi : Inv cfg s) (c : Call)
    (hc : (s.pc c).critical = true) : ChanAt cfg s.toFutexChannelImpl (s.pc c) := by
  rw [← hi.exclusive.focus_eq hc]
  exact hi.chan_at

/-- A canceled call that finds `queued` still set is linked, and nobody has claimed it. -/
theorem Inv.linked_of_cancelTest {cfg : Config Call Task α} {s : State β Call Task α}
    (hi : Inv cfg s) {c : Call} (hc : s.pc c = .cancelTest) (hq : (s.waiter c).queued = true) :
    s.focus = .cancelTest ∧ Linked s.toFutexChannelImpl c := by
  have hf : s.focus = .cancelTest := by
    rw [← hc]
    exact hi.exclusive.focus_eq (by rw [hc]; rfl)
  refine ⟨hf, ?_⟩
  rcases hi.parked c (by rw [hc]; rfl) with hl | ht | hcl
  · exact hl
  · simp [hf, Pc.Targets, Pc.claim] at ht
  · simp [hcl.1] at hq

end ZioBenchmarks.FutexChannel
