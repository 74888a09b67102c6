import ZioBenchmarks.Fold.Update
import ZioBenchmarks.Ring.Circular
import ZioBenchmarks.Transition.Runs

/-!
# Photon's bounded queue

`Queue` of `worker_pool_photon.cpp`: a ring whose counters `head` and `tail` run freely, so that
they wrap around `2 ^ 64`, a mutex around the access to the ring, and two semaphores that are waited
on and signalled outside of it. A call goes through three steps, the wait, the locked section and
the signal, and any number of calls can be between two of them.

`items` and `space` never count more than the ring bears out: every slot is counted by `space`,
holds a value, or belongs to a call between two of its steps.
-/

set_option autoImplicit false

namespace ZioBenchmarks.PhotonQueue

open ZioBenchmarks.Transition ZioBenchmarks.Fold

/-- `static const size_t CAP`. -/
def CAP : Nat := 256

/-- Where a task is. -/
inductive Pc where
  /-- Between two calls. -/
  | idle
  /-- `push`: `space.wait(1)`. -/
  | spaceWait (v : UInt64)
  /-- `push`: `buf[tail++ % CAP] = v`, under the lock. -/
  | put (v : UInt64)
  /-- `push`: `items.signal(1)`. -/
  | itemsSignal
  /-- `pop`: `items.wait(1)`. -/
  | itemsWait
  /-- `pop`: `v = buf[head++ % CAP]`, under the lock. -/
  | get
  /-- `pop`: `space.signal(1)`. -/
  | spaceSignal (v : UInt64)
  deriving DecidableEq, Repr

/-- `Queue` and its callers. -/
structure State (Task : Type) where
  buf : Nat → UInt64
  head : UInt64
  tail : UInt64
  items : Nat
  space : Nat
  pc : Task → Pc

variable {Task : Type} [DecidableEq Task]

/-- `t` continues at `p`. -/
def State.goto (s : State Task) (t : Task) (p : Pc) : State Task :=
  { s with pc := Function.update s.pc t p }

/-- What an observer sees of a step: a locked section with the task, the value and the slot. -/
inductive Label (Task : Type) where
  | pushed (t : Task) (v : UInt64) (slot : Nat)
  | popped (t : Task) (v : UInt64) (slot : Nat)
  | silent (t : Task)
  deriving DecidableEq, Repr

/-- What can happen next: a task calls `push` or `pop`, or executes one step of its call. -/
inductive Act (Task : Type) where
  | push (t : Task) (v : UInt64)
  | pop (t : Task)
  | run (t : Task)

/-- One step of a call. -/
def next (s : State Task) (t : Task) : Option (Label Task × State Task) :=
  match s.pc t with
  | .idle => none
  | .spaceWait v =>
      if 0 < s.space then some (.silent t, { s with space := s.space - 1 }.goto t (.put v)) else none
  | .put v =>
      some (.pushed t v (s.tail.toNat % CAP), { s with
        buf := Function.update s.buf (s.tail.toNat % CAP) v
        tail := s.tail + 1 }.goto t .itemsSignal)
  | .itemsSignal => some (.silent t, { s with items := s.items + 1 }.goto t .idle)
  | .itemsWait =>
      if 0 < s.items then some (.silent t, { s with items := s.items - 1 }.goto t .get) else none
  | .get =>
      some (.popped t (s.buf (s.head.toNat % CAP)) (s.head.toNat % CAP),
        { s with head := s.head + 1 }.goto t (.spaceSignal (s.buf (s.head.toNat % CAP))))
  | .spaceSignal _ => some (.silent t, { s with space := s.space + 1 }.goto t .idle)

/-- Effect of an action, if it can happen. -/
def act (s : State Task) : Act Task → Option (Label Task × State Task)
  | .push t v => if s.pc t = .idle then some (.silent t, s.goto t (.spaceWait v)) else none
  | .pop t => if s.pc t = .idle then some (.silent t, s.goto t .itemsWait) else none
  | .run t => next s t

/-- `Queue` with any tasks that push and pop in any order; `buf` starts with anything. -/
def system (Task : Type) [DecidableEq Task] : System (State Task) (Label Task) where
  init s := ∃ b, s = ⟨b, 0, 0, 0, CAP, fun _ => .idle⟩
  step s l s' := ∃ a, act s a = some (l, s')

/-- The values pushed, in the order of the locked sections. -/
def pushes (tr : List (Label Task)) : List UInt64 :=
  tr.filterMap fun
    | .pushed _ v _ => some v
    | _ => none

/-- The values popped, in the order of the locked sections. -/
def pops (tr : List (Label Task)) : List UInt64 :=
  tr.filterMap fun
    | .popped _ v _ => some v
    | _ => none

/-- The slot holds a value that was written and has not been read. -/
def unread (i : Nat) (o : Bool) : Label Task → Bool
  | .pushed _ _ j => if j = i then true else o
  | .popped _ _ j => if j = i then false else o
  | .silent _ => o

/-- The slots that hold an unread value behind a run. -/
def occupied (tr : List (Label Task)) (i : Nat) : Bool := tr.foldl (unread i) false

/-- Places that a call has taken from `space` and not filled, or emptied and not given back. -/
def Pc.place : Pc → Nat
  | .put _ | .spaceSignal _ => 1
  | .idle | .spaceWait _ | .itemsSignal | .itemsWait | .get => 0

/-- Values that a call has put and not counted in `items`, or taken from `items` and not read. -/
def Pc.value : Pc → Nat
  | .itemsSignal | .get => 1
  | .idle | .spaceWait _ | .put _ | .itemsWait | .spaceSignal _ => 0

section Statements

variable (v : UInt64)

@[simp] theorem place_idle : Pc.idle.place = 0 := rfl

@[simp] theorem place_spaceWait : (Pc.spaceWait v).place = 0 := rfl

@[simp] theorem place_put : (Pc.put v).place = 1 := rfl

@[simp] theorem place_itemsSignal : Pc.itemsSignal.place = 0 := rfl

@[simp] theorem place_itemsWait : Pc.itemsWait.place = 0 := rfl

@[simp] theorem place_get : Pc.get.place = 0 := rfl

@[simp] theorem place_spaceSignal : (Pc.spaceSignal v).place = 1 := rfl

@[simp] theorem value_idle : Pc.idle.value = 0 := rfl

@[simp] theorem value_spaceWait : (Pc.spaceWait v).value = 0 := rfl

@[simp] theorem value_put : (Pc.put v).value = 0 := rfl

@[simp] theorem value_itemsSignal : Pc.itemsSignal.value = 1 := rfl

@[simp] theorem value_itemsWait : Pc.itemsWait.value = 0 := rfl

@[simp] theorem value_get : Pc.get.value = 1 := rfl

@[simp] theorem value_spaceSignal : (Pc.spaceSignal v).value = 0 := rfl

end Statements

variable [Fintype Task] {s s' : State Task} {tr : List (Label Task)} {l : Label Task} {t : Task}
  {used : Nat}

/-- The invariant, with `used` values in the ring. The slots are those of a ring whose indices are
the counters modulo `CAP`. -/
structure Inv (tr : List (Label Task)) (s : State Task) (used : Nat) : Prop where
  ring : Ring.WellFormed CAP (s.head.toNat % CAP) (s.tail.toNat % CAP) used
  distance : s.tail = s.head + UInt64.ofNat used
  contents : pushes tr = pops tr ++ Ring.contents s.buf CAP (s.head.toNat % CAP) used
  occupied : ∀ i, occupied tr i = true ↔ i ∈ Ring.slots CAP (s.head.toNat % CAP) used
  items : s.items + ∑ t, (s.pc t).value = used
  space : s.space + ∑ t, (s.pc t).place + used = CAP

/-- A free-running counter modulo `CAP` counts modulo `CAP`, also where it wraps around. -/
theorem mod_succ (x : UInt64) : (x + 1).toNat % CAP = (x.toNat % CAP + 1) % CAP := by
  have hone : (1 : UInt64).toNat = 1 := rfl
  rw [UInt64.toNat_add, hone, Nat.mod_mod_of_dvd _ (by decide : CAP ∣ 2 ^ 64), Nat.mod_add_mod]

omit [DecidableEq Task] in
theorem initial_inv (b : Nat → UInt64) :
    Inv [] (⟨b, 0, 0, 0, CAP, fun _ => .idle⟩ : State Task) 0 where
  ring := Ring.WellFormed.initial
  distance := rfl
  contents := rfl
  occupied := by simp [PhotonQueue.occupied]
  items := by simp [Pc.value]
  space := by simp [Pc.place]

omit [DecidableEq Task] [Fintype Task] in
theorem occupied_snoc (i : Nat) : occupied (tr ++ [l]) i = unread i (occupied tr i) l := by
  simp [occupied]

omit [DecidableEq Task] [Fintype Task] in
theorem pushes_append (us : List (Label Task)) : pushes (tr ++ us) = pushes tr ++ pushes us :=
  List.filterMap_append ..

omit [DecidableEq Task] [Fintype Task] in
theorem pops_append (us : List (Label Task)) : pops (tr ++ us) = pops tr ++ pops us :=
  List.filterMap_append ..

omit [DecidableEq Task] in
/-- A wait or a signal moves a count between a semaphore and a call. -/
theorem Inv.silent (hi : Inv tr s used) (hbuf : s'.buf = s.buf) (hhead : s'.head = s.head)
    (htail : s'.tail = s.tail) (hitems : s'.items + ∑ t, (s'.pc t).value = used)
    (hspace : s'.space + ∑ t, (s'.pc t).place + used = CAP) :
    Inv (tr ++ [.silent t]) s' used where
  ring := by rw [hhead, htail]; exact hi.ring
  distance := by rw [hhead, htail]; exact hi.distance
  contents := by
    rw [pushes_append, pops_append, hbuf, hhead, hi.contents]
    simp [pushes, pops]
  occupied i := by
    rw [occupied_snoc, hhead, ← hi.occupied i]
    rfl
  items := hitems
  space := hspace

omit [DecidableEq Task] in
/-- A task in the section of `push` has a place: the slot at `tail` is free. -/
theorem Inv.room (hi : Inv tr s used) {v : UInt64} (hp : s.pc t = .put v) : used < CAP := by
  have hle := le_sum Pc.place s.pc t
  rw [hp, place_put] at hle
  have hspace := hi.space
  omega

omit [DecidableEq Task] in
/-- A task in the section of `pop` has a value: the slot at `head` is occupied. -/
theorem Inv.available (hi : Inv tr s used) (hp : s.pc t = .get) : 0 < used := by
  have hle := le_sum Pc.value s.pc t
  rw [hp, value_get] at hle
  have hitems := hi.items
  omega

theorem Inv.put (hi : Inv tr s used) {v : UInt64} (hp : s.pc t = .put v) :
    Inv (tr ++ [.pushed t v (s.tail.toNat % CAP)])
      ({ s with
        buf := Function.update s.buf (s.tail.toNat % CAP) v
        tail := s.tail + 1 }.goto t .itemsSignal) (used + 1) where
  ring := by
    have h := hi.ring.push (hi.room hp)
    rwa [← mod_succ] at h
  distance := by
    have h := hi.distance
    simp only [State.goto]
    rw [h, UInt64.ofNat_add, UInt64.add_assoc]
    rfl
  contents := by
    have h := hi.ring.contents_push (hi.room hp) s.buf v
    rw [pushes_append, pops_append, hi.contents]
    simp only [State.goto]
    rw [h]
    simp [pushes, pops]
  occupied i := by
    have h := hi.occupied i
    -- the slot behind the last value becomes occupied, and no other changes
    have htail := hi.ring.tail_eq (by decide)
    rw [occupied_snoc]
    simp only [State.goto, unread, Ring.slots_succ, List.mem_append, List.mem_singleton]
    rw [← htail, ← h]
    by_cases hi' : s.tail.toNat % CAP = i
    · simp [hi']
    · simp [hi', Ne.symm hi']
  items := by
    -- the value is counted by the task until `items` counts it
    have hsum := sum_update Pc.value s.pc t .itemsSignal
    rw [hp, value_put, value_itemsSignal] at hsum
    have hitems := hi.items
    simp only [State.goto]
    omega
  space := by
    -- the place the task had waited for is used up
    have hsum := sum_update Pc.place s.pc t .itemsSignal
    rw [hp, place_put, place_itemsSignal] at hsum
    have hspace := hi.space
    simp only [State.goto]
    omega

theorem Inv.get (hi : Inv tr s used) (hp : s.pc t = .get) :
    Inv (tr ++ [.popped t (s.buf (s.head.toNat % CAP)) (s.head.toNat % CAP)])
      ({ s with head := s.head + 1 }.goto t (.spaceSignal (s.buf (s.head.toNat % CAP))))
      (used - 1) where
  ring := by
    have h := hi.ring.pop (hi.available hp)
    rwa [← mod_succ] at h
  distance := by
    have h := hi.distance
    obtain ⟨n, rfl⟩ : ∃ n, used = n + 1 := ⟨used - 1, by have := hi.available hp; omega⟩
    simp only [State.goto]
    rw [h, UInt64.ofNat_add, Nat.add_sub_cancel, UInt64.add_assoc, UInt64.add_comm (UInt64.ofNat n)]
    rfl
  contents := by
    have h := hi.ring.contents_pop (hi.available hp) s.buf
    rw [pushes_append, pops_append, hi.contents, h]
    simp only [State.goto]
    rw [mod_succ]
    simp [pushes, pops]
  occupied i := by
    have h := hi.occupied i
    obtain ⟨n, rfl⟩ : ∃ n, used = n + 1 := ⟨used - 1, by have := hi.available hp; omega⟩
    -- the oldest slot becomes free, and the slots of the ring are distinct
    have hnodup := @Ring.slots_nodup _ (s.head.toNat % CAP) _ hi.ring.count_le
    rw [Ring.slots_eq_cons, hi.ring.head_mod (Nat.succ_pos n)] at h hnodup
    rw [occupied_snoc]
    simp only [State.goto, unread, Nat.add_sub_cancel]
    rw [mod_succ]
    by_cases hi' : s.head.toNat % CAP = i
    · subst hi'
      simpa using (List.nodup_cons.1 hnodup).1
    · simpa [hi', Ne.symm hi'] using h
  items := by
    -- the value the task had waited for is used up
    have hsum := sum_update Pc.value s.pc t (.spaceSignal (s.buf (s.head.toNat % CAP)))
    rw [hp, value_get, value_spaceSignal] at hsum
    have hitems := hi.items
    simp only [State.goto]
    omega
  space := by
    -- the place is counted by the task until `space` counts it
    have hsum := sum_update Pc.place s.pc t (.spaceSignal (s.buf (s.head.toNat % CAP)))
    rw [hp, place_get, place_spaceSignal] at hsum
    have hspace := hi.space
    have havail := hi.available hp
    simp only [State.goto]
    omega

/-- A step that only moves a task, and the counts of the semaphores along with it. -/
theorem Inv.move (hi : Inv tr s used) {p : Pc} {items space : Nat}
    (hitems : items + p.value = s.items + (s.pc t).value)
    (hspace : space + p.place = s.space + (s.pc t).place) :
    Inv (tr ++ [.silent t]) ({ s with items := items, space := space }.goto t p) used := by
  have hvalue := sum_update Pc.value s.pc t p
  have hplace := sum_update Pc.place s.pc t p
  have hi₁ := hi.items
  have hi₂ := hi.space
  have hvalues : items +
      ∑ t', (({ s with items := items, space := space } : State Task).goto t p |>.pc t').value =
        used := by
    simp only [State.goto]
    omega
  have hplaces : space +
      ∑ t', (({ s with items := items, space := space } : State Task).goto t p |>.pc t').place +
        used = CAP := by
    simp only [State.goto]
    omega
  exact hi.silent rfl rfl rfl hvalues hplaces

theorem next_inv (hi : Inv tr s used) (h : next s t = some (l, s')) :
    ∃ used', Inv (tr ++ [l]) s' used' := by
  cases hp : s.pc t with
  | idle => simp [next, hp] at h
  | spaceWait v =>
      simp only [next, hp] at h
      split at h
      case isTrue hpos =>
        simp only [Option.some.injEq, Prod.mk.injEq] at h
        obtain ⟨rfl, rfl⟩ := h
        exact ⟨used, hi.move (by simp [hp]) (by simp [hp]; omega)⟩
      case isFalse => simp at h
  | put v =>
      simp only [next, hp, Option.some.injEq, Prod.mk.injEq] at h
      obtain ⟨rfl, rfl⟩ := h
      exact ⟨used + 1, hi.put hp⟩
  | itemsSignal =>
      simp only [next, hp, Option.some.injEq, Prod.mk.injEq] at h
      obtain ⟨rfl, rfl⟩ := h
      exact ⟨used, hi.move (by simp [hp]) (by simp [hp])⟩
  | itemsWait =>
      simp only [next, hp] at h
      split at h
      case isTrue hpos =>
        simp only [Option.some.injEq, Prod.mk.injEq] at h
        obtain ⟨rfl, rfl⟩ := h
        exact ⟨used, hi.move (by simp [hp]; omega) (by simp [hp])⟩
      case isFalse => simp at h
  | get =>
      simp only [next, hp, Option.some.injEq, Prod.mk.injEq] at h
      obtain ⟨rfl, rfl⟩ := h
      exact ⟨used - 1, hi.get hp⟩
  | spaceSignal v =>
      simp only [next, hp, Option.some.injEq, Prod.mk.injEq] at h
      obtain ⟨rfl, rfl⟩ := h
      exact ⟨used, hi.move (by simp [hp]) (by simp [hp])⟩

theorem act_inv {a : Act Task} (hi : Inv tr s used) (h : act s a = some (l, s')) :
    ∃ used', Inv (tr ++ [l]) s' used' := by
  cases a with
  | run t => exact next_inv hi h
  | push t v =>
      simp only [act] at h
      split at h
      case isTrue hp =>
        simp only [Option.some.injEq, Prod.mk.injEq] at h
        obtain ⟨rfl, rfl⟩ := h
        exact ⟨used, hi.move (by simp [hp]) (by simp [hp])⟩
      case isFalse => simp at h
  | pop t =>
      simp only [act] at h
      split at h
      case isTrue hp =>
        simp only [Option.some.injEq, Prod.mk.injEq] at h
        obtain ⟨rfl, rfl⟩ := h
        exact ⟨used, hi.move (by simp [hp]) (by simp [hp])⟩
      case isFalse => simp at h

theorem run_inv (h : (system Task).Run tr s) : ∃ used, Inv tr s used := by
  refine System.Run.invariant (I := fun tr s => ∃ used, Inv tr s used) ?_ ?_ h
  · rintro _ ⟨b, rfl⟩
    exact ⟨0, initial_inv b⟩
  · rintro tr s l s' - ⟨used, hi⟩ ⟨a, ha⟩
    exact act_inv hi ha

omit [DecidableEq Task] in
/-- The counters tell how many values are in the ring. -/
theorem Inv.count (hi : Inv tr s used) :
    (pushes tr).length = (pops tr).length + used ∧ (s.tail - s.head).toNat = used ∧
      used ≤ CAP := by
  have hle := hi.ring.count_le
  refine ⟨?_, ?_, hle⟩
  · have h := congrArg List.length hi.contents
    simpa using h
  · have hfits : (UInt64.ofNat used).toNat = used :=
      UInt64.toNat_ofNat_of_lt' (show used < 2 ^ 64 by simp only [CAP] at hle; omega)
    rw [hi.distance, UInt64.add_comm, UInt64.add_sub_cancel, hfits]

omit [Fintype Task] in
/-- A label that names a slot comes from a locked section. -/
theorem act_pushed {a : Act Task} {v : UInt64} {i : Nat} (h : act s a = some (.pushed t v i, s')) :
    s.pc t = .put v ∧ i = s.tail.toNat % CAP := by
  cases a with
  | push t' v' => simp [act] at h
  | pop t' => simp [act] at h
  | run t' =>
      cases hp : s.pc t' with
      | put v' =>
          simp only [act, next, hp, Option.some.injEq, Prod.mk.injEq, Label.pushed.injEq] at h
          obtain ⟨⟨rfl, rfl, rfl⟩, -⟩ := h
          exact ⟨hp, rfl⟩
      | _ => simp [act, next, hp] at h

omit [Fintype Task] in
theorem act_popped {a : Act Task} {v : UInt64} {i : Nat} (h : act s a = some (.popped t v i, s')) :
    s.pc t = .get ∧ i = s.head.toNat % CAP := by
  cases a with
  | push t' v' => simp [act] at h
  | pop t' => simp [act] at h
  | run t' =>
      cases hp : s.pc t' with
      | get =>
          simp only [act, next, hp, Option.some.injEq, Prod.mk.injEq, Label.popped.injEq] at h
          obtain ⟨⟨rfl, -, rfl⟩, -⟩ := h
          exact ⟨hp, rfl⟩
      | _ => simp [act, next, hp] at h

/-- Photon's queue is a bounded FIFO. No push writes a slot whose value was not popped, no pop reads
a slot that was not written since it was last read, the values popped are the values pushed, in the
order of the locked sections, and the distance of the counters modulo `2 ^ 64` is the number of
values pushed and not popped, which is at most `CAP`. -/
theorem queue_fifo (h : (system Task).Run tr s) :
    (∀ t v i s', (system Task).step s (.pushed t v i) s' → occupied tr i = false) ∧
    (∀ t v i s', (system Task).step s (.popped t v i) s' → occupied tr i = true) ∧
    pops tr = (pushes tr).take (pops tr).length ∧
    (s.tail - s.head).toNat + (pops tr).length = (pushes tr).length ∧
    (s.tail - s.head).toNat ≤ CAP := by
  obtain ⟨used, hi⟩ := run_inv h
  obtain ⟨hlen, hdist, hle⟩ := hi.count
  refine ⟨?_, ?_, ?_, by omega, by omega⟩
  · rintro t v i s' ⟨a, ha⟩
    obtain ⟨hp, rfl⟩ := act_pushed ha
    have hfree := hi.ring.tail_not_mem (hi.room hp)
    rw [← hi.occupied] at hfree
    simpa using hfree
  · rintro t v i s' ⟨a, ha⟩
    obtain ⟨hp, rfl⟩ := act_popped ha
    rw [hi.occupied]
    obtain ⟨n, rfl⟩ : ∃ n, used = n + 1 := ⟨used - 1, by have := hi.available hp; omega⟩
    rw [Ring.slots_eq_cons, hi.ring.head_mod (Nat.succ_pos n)]
    exact List.mem_cons_self
  · rw [hi.contents, List.take_left]

/-- Task `true` pushes `7` and `8`, and task `false` pops once, while `8` is put and not yet
signalled. -/
def twoPushes : List (Label Bool) × State Bool :=
  (System.replay act ⟨fun _ => 0, 0, 0, 0, CAP, fun _ => .idle⟩
    [.pop false, .push true 7, .run true, .run true, .run true, .push true 8, .run false, .run true,
      .run false, .run true, .run false]).get rfl

/-- The value popped is the first one pushed, and the other one is in the ring. -/
theorem queue_fifo_one :
    (system Bool).Run twoPushes.1 twoPushes.2 ∧ pushes twoPushes.1 = [7, 8] ∧
      pops twoPushes.1 = [7] ∧ pops twoPushes.1 = (pushes twoPushes.1).take 1 ∧
      (twoPushes.2.tail - twoPushes.2.head).toNat + 1 = 2 := by
  have h : (system Bool).Run twoPushes.1 twoPushes.2 :=
    System.Run.of_replay (T := system Bool) (fun _ a _ _ ha => ⟨a, ha⟩) ⟨fun _ => 0, rfl⟩
      (Option.some_get _).symm
  exact ⟨h, rfl, rfl, (queue_fifo h).2.2.1, (queue_fifo h).2.2.2.1⟩

end ZioBenchmarks.PhotonQueue
