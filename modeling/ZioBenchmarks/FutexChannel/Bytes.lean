import ZioBenchmarks.FutexChannel.Fifo
import ZioBenchmarks.Memory.Flat

/-!
# The type-erased byte ring

`FutexChannelImpl` runs over raw bytes: a variable is `elem_size` bytes, and the buffer is one flat
array that `elemPtr` addresses. Reading the bytes of every variable and of every slot as an element
turns a state of the byte-level channel into a state of the channel over a buffer of elements. All
operations commute with it, so the two channels have the same runs.
-/

set_option autoImplicit false

namespace ZioBenchmarks.FutexChannel

open ZioBenchmarks.Transition ZioBenchmarks.Memory

/-- The bytes of one variable, `[*]u8` with `elem_size`. -/
abbrev Bytes (elem_size : Nat) : Type := Vector UInt8 elem_size

/-- `buffer`: as many bytes as `capacity` elements have. -/
structure Buffer (elem_size capacity : Nat) where
  bytes : Vector UInt8 (capacity * elem_size)

/-- The two directions of `@memcpy` through `elemPtr(i)[0..elem_size]`. -/
instance byteMemory (n cap : Nat) : SlotMemory (Buffer n cap) (Bytes n) where
  load b i := slot b.bytes i
  store b i v := ⟨setSlot b.bytes i v⟩

/-- How a type lies in memory: `std.mem.asBytes` of a value, and the value some bytes stand for. -/
structure Layout (T : Type) (elem_size : Nat) where
  asBytes : T → Bytes elem_size
  ofBytes : Bytes elem_size → T
  ofBytes_asBytes : ∀ v, ofBytes (asBytes v) = v

variable {β β' Call Task α α' T : Type} {n : Nat}

/-- The calls `FutexChannel(T)` makes to its `impl`: a send passes the bytes of its item, a receive
an `undefined` variable. -/
def Config.erase (L : Layout T n) (cfg : Config Call Task T) (undefined : Call → Bytes n) :
    Config Call Task (Bytes n) where
  capacity := cfg.capacity
  kind := cfg.kind
  task := cfg.task
  item c := if cfg.kind c = .send then L.asBytes (cfg.item c) else undefined c

/-- The same calls with their variables read by `f`. -/
def Config.map (f : α → α') (cfg : Config Call Task α) : Config Call Task α' where
  capacity := cfg.capacity
  kind := cfg.kind
  task := cfg.task
  item c := f (cfg.item c)

namespace State

/-- The same state with its variables read by `f` and its buffer by `g`. -/
def map (f : α → α') (g : β → β') (s : State β Call Task α) : State β' Call Task α' :=
  { s with buffer := g s.buffer, cell := f ∘ s.cell }

/-- Read the bytes of every variable and of every slot. -/
def decode {cap : Nat} (f : Bytes n → T) (s : State (Buffer n cap) Call Task (Bytes n)) :
    State (Nat → T) Call Task T :=
  s.map f fun b i => f (slot b.bytes i)

/-- The slot whose `elemPtr` the statement evaluates. -/
def elemIndex (cfg : Config Call Task α) (s : State β Call Task α) : Pc Call → Option Nat
  | .sendRoom => if s.count < cfg.capacity then some s.tail else none
  | .recvCount => if 0 < s.count then some s.head else none
  | .recvMove _ => some s.tail
  | _ => none

end State

/-- `f` and `g` read the elements and the memory of one channel as those of another: below `cap`,
they agree with both directions of the copy. -/
structure MemoryMap [SlotMemory β α] [SlotMemory β' α'] (cap : Nat) (f : α → α') (g : β → β') :
    Prop where
  load : ∀ b i, i < cap → SlotMemory.load (g b) i = f (SlotMemory.load b i)
  store : ∀ b i v, i < cap → g (SlotMemory.store b i v) = SlotMemory.store (g b) i (f v)

/-- Reading bytes slot by slot. -/
theorem decode_memoryMap (cap : Nat) (f : Bytes n → T) :
    MemoryMap cap f (fun (b : Buffer n cap) i => f (slot b.bytes i)) where
  load _ _ _ := rfl
  store b i v hi := by
    change f ∘ slot (setSlot b.bytes i v) = Function.update (f ∘ slot b.bytes) i (f v)
    rw [slot_setSlot _ hi, Function.comp_update]

namespace Inv

variable {cfg : Config Call Task α} {s : State β Call Task α} {c : Call} {i : Nat}

/-- A slot whose `elemPtr` is evaluated is a slot of the buffer. -/
theorem elemIndex_lt (hi : Inv cfg s) (h : s.elemIndex cfg (s.pc c) = some i) :
    i < cfg.capacity := by
  have hle := hi.ring.count_le
  cases hp : s.pc c
  case sendRoom =>
    rw [hp, State.elemIndex] at h
    split at h
    case isTrue hroom =>
      obtain rfl := Option.some.inj h
      -- there is room, so the write index is the slot behind the last element
      rw [hi.ring.tail_eq (by omega)]
      exact Nat.mod_lt _ (by omega)
    case isFalse => simp at h
  case recvCount =>
    rw [hp, State.elemIndex] at h
    split at h
    case isTrue hpos =>
      obtain rfl := Option.some.inj h
      exact hi.ring.head_lt (by omega)
    case isFalse => simp at h
  case recvMove w =>
    have ha := hi.chan_at
    rw [hi.exclusive.focus_eq (c := c) (by rw [hp]; rfl), hp] at ha
    rw [hp, State.elemIndex] at h
    obtain rfl := Option.some.inj h
    -- the receive that moves an item has just taken one out
    have hcount := ha.2.1
    rw [hi.ring.tail_eq (by omega)]
    exact Nat.mod_lt _ (by omega)
  all_goals simp [hp, State.elemIndex] at h

end Inv

section Commute

variable [SlotMemory β α] [SlotMemory β' α'] [DecidableEq Call] [DecidableEq Task]
  {cfg : Config Call Task α} {s : State β Call Task α} {f : α → α'} {g : β → β'}

omit [SlotMemory β α] [SlotMemory β' α'] [DecidableEq Task] in
theorem map_remove (c : Call) :
    (s.map f g).remove (cfg.map f) c = (s.remove cfg c).map f g := by
  simp only [State.remove, Config.map]
  cases cfg.kind c <;> rfl

/-- One statement commutes with reading the memory, if the slot it uses is one of the buffer. -/
theorem next_map (hm : MemoryMap cfg.capacity f g) (c : Call)
    (hidx : ∀ i, s.elemIndex cfg (s.pc c) = some i → i < cfg.capacity) :
    next (cfg.map f) (s.map f g) c = (next cfg s c).map (State.map f g) := by
  revert hidx
  fun_cases next cfg s c
  case case10 hp hroom =>
    intro _
    simp [next, State.map, Config.map, State.goto, State.setWaiter, hp, hroom]
  case case41 =>
    -- the list a canceled waiter leaves depends on the call
    intro _
    simp only [next, map_remove, Option.map_some]
    simp_all [State.map, State.goto, State.setWaiter]
  all_goals
    intro hidx
    simp only [State.elemIndex, reduceCtorEq, IsEmpty.forall_iff, implies_true,
      Option.some.injEq, forall_eq', reduceIte, *] at hidx
    simp_all [next, State.map, Config.map, State.goto, State.setCell, State.setWaiter,
      State.setSleeping, State.ret, Function.comp_update, hm.load, hm.store]

/-- So does every action. -/
theorem act_map (hm : MemoryMap cfg.capacity f g) (hi : Inv cfg s) (a : Act Call Task) :
    act (cfg.map f) (s.map f g) a = (act cfg s a).map (State.map f g) := by
  cases a with
  -- only a statement of a call reads or writes the buffer
  | run c => exact next_map hm c fun i h => hi.elemIndex_lt h
  | begin c =>
      by_cases hb : s.pc c = .idle ∧ s.running (cfg.task c) = none
      · simp [act, State.map, Config.map, State.goto, hb]
      · simp [act, State.map, Config.map, hb]
  | cancel c =>
      by_cases hc : s.cancel (cfg.task c) = true
      · by_cases hk : cfg.kind c = .close
        · cases hp : s.pc c <;>
            simp [act, State.map, Config.map, State.goto, State.setSleeping, hc, hk, hp]
        · cases hp : s.pc c <;>
            simp [act, State.map, Config.map, State.goto, State.setSleeping, State.ret, hc, hk, hp]
      · simp [act, State.map, Config.map, hc]
  | spurious c =>
      by_cases hs : s.sleeping c = true
      · simp [act, State.map, State.setSleeping, hs]
      · simp [act, State.map, hs]
  | request t => rfl

end Commute

section Channel

variable [DecidableEq Call] [DecidableEq Task] {L : Layout T n} {cfg : Config Call Task T}
  {undefined : Call → Bytes n}

/-- The byte-level channel behind `FutexChannel(T)`. -/
def byteSystem (L : Layout T n) (cfg : Config Call Task T) (undefined : Call → Bytes n) :
    System (State (Buffer n cfg.capacity) Call Task (Bytes n)) (Label Call Task) :=
  system (Buffer n cfg.capacity) (cfg.erase L undefined)

/-- The channel over a buffer of elements, with the same calls. -/
def elementSystem (L : Layout T n) (cfg : Config Call Task T) (undefined : Call → Bytes n) :
    System (State (Nat → T) Call Task T) (Label Call Task) :=
  system (Nat → T) ((cfg.erase L undefined).map L.ofBytes)

variable {s s' : State (Buffer n cfg.capacity) Call Task (Bytes n)} {l : Label Call Task} {U : Type}

/-- Every operation commutes with decoding. -/
theorem act_decode (f : Bytes n → U) (h : (byteSystem L cfg undefined).Reachable s)
    (a : Act Call Task) :
    act ((cfg.erase L undefined).map f) (s.decode f) a =
      (act (cfg.erase L undefined) s a).map (State.decode f) := by
  have hi : Inv (cfg.erase L undefined) s := reachable_inv h
  exact act_map (decode_memoryMap _ f) hi a

omit [DecidableEq Call] [DecidableEq Task] in
theorem label_decode (f : Bytes n → U) (a : Act Call Task) :
    a.label (s.decode f) (s'.decode f) = a.label s s' := by
  cases a <;> rfl

/-- A step of the byte-level channel is a step of the channel over elements, -/
theorem step_decode (f : Bytes n → U) (h : (byteSystem L cfg undefined).Reachable s)
    (hs : (byteSystem L cfg undefined).step s l s') :
    (system (Nat → U) ((cfg.erase L undefined).map f)).step (s.decode f) l (s'.decode f) := by
  obtain ⟨a, ha, rfl⟩ := hs
  refine ⟨a, ?_, (label_decode f a).symm⟩
  rw [act_decode f h, ha]
  rfl

/-- and there are no other steps from a decoded state. -/
theorem step_lift (f : Bytes n → U) (h : (byteSystem L cfg undefined).Reachable s)
    {t : State (Nat → U) Call Task U}
    (hs : (system (Nat → U) ((cfg.erase L undefined).map f)).step (s.decode f) l t) :
    ∃ s', (byteSystem L cfg undefined).step s l s' ∧ s'.decode f = t := by
  obtain ⟨a, ha, rfl⟩ := hs
  rw [act_decode f h] at ha
  obtain ⟨s', hs', rfl⟩ := Option.map_eq_some_iff.1 ha
  exact ⟨s', ⟨a, hs', (label_decode f a)⟩, rfl⟩

/-- Runs of the byte-level channel are runs over elements, whatever the bytes are read as. -/
theorem run_decode (f : Bytes n → U) {tr : List (Label Call Task)}
    (h : (byteSystem L cfg undefined).Run tr s) :
    (system (Nat → U) ((cfg.erase L undefined).map f)).Run tr (s.decode f) := by
  obtain ⟨_, ⟨b, rfl⟩, hp⟩ := h
  have hrun : (byteSystem L cfg undefined).Run [] (initial (cfg.erase L undefined) b) :=
    .nil ⟨b, rfl⟩
  have hpath := hp.map (f := State.decode f) hrun fun _ _ _ hr hs => step_decode f hr hs
  exact ⟨_, ⟨fun i => f (slot b.bytes i), rfl⟩, hpath⟩

/-- A path over elements from a decoded state is a path of the byte-level channel. -/
theorem path_lift (f : Bytes n → U) {tr us : List (Label Call Task)}
    (h : (byteSystem L cfg undefined).Run tr s) {t : State (Nat → U) Call Task U}
    (hp : (system (Nat → U) ((cfg.erase L undefined).map f)).Path (s.decode f) us t) :
    ∃ s', (byteSystem L cfg undefined).Path s us s' ∧ s'.decode f = t :=
  hp.lift (f := State.decode f) h fun _ _ _ hr hs => step_lift f hr hs

/-- A statement changes no byte outside of the slot it writes. -/
theorem next_bytes {c : Call} (hn : next (cfg.erase L undefined) s c = some s') {j : Nat}
    (hj : j < cfg.capacity * n)
    (hout : ∀ i, s.ringWrite (cfg.erase L undefined) (s.pc c) = some i → ¬ InSlot n i j) :
    s'.buffer.bytes[j] = s.buffer.bytes[j] := by
  have hb := next_buffer hn
  cases hw : s.ringWrite (cfg.erase L undefined) (s.pc c) with
  | none =>
      rw [hw] at hb
      rw [hb]
  | some i =>
      rw [hw] at hb
      rw [hb]
      exact getElem_setSlot_of_not_inSlot _ _ hj (hout i hw)

/-- What a successful receive returns are the bytes of an accepted send. -/
theorem received_bytes {tr : List (Label Call Task)} (h : (byteSystem L cfg undefined).Run tr s)
    {c : Call} (hk : cfg.kind c = .receive) (hr : s.pc c = .returned .ok) :
    ∃ d ∈ events Label.accepts tr, cfg.kind d = .send ∧ s.cell c = L.asBytes (cfg.item d) := by
  -- the bytes themselves are elements, too
  have hrun := run_decode id h
  have hc : c ∈ events Label.serves tr := (receive_ok_iff hrun hk hr).1 rfl
  have hitems := (items_invariant hrun).2
  have hmem : s.cell c ∈ (events Label.accepts tr).map ((cfg.erase L undefined).map id).item := by
    rw [hitems]
    exact List.mem_append_left _ (List.mem_map_of_mem (f := (s.decode id).cell) hc)
  obtain ⟨d, hd, heq⟩ := List.mem_map.1 hmem
  have hsend : cfg.kind d = .send := (committed_invariant hrun).1 d hd
  refine ⟨d, hd, hsend, ?_⟩
  rw [← heq]
  simp [Config.map, Config.erase, hsend]

/-- The byte ring refines a ring of elements. Every slice of the buffer that is touched lies inside
of it, a write leaves the other slots alone, decoding commutes with every operation, so that the
two channels have the same runs in both directions, and a receive returns a value that was sent,
bit for bit. -/
theorem byte_ring_refines {tr : List (Label Call Task)}
    (h : (byteSystem L cfg undefined).Run tr s) :
    (∀ c i, s.elemIndex (cfg.erase L undefined) (s.pc c) = some i →
      i * n + n ≤ cfg.capacity * n) ∧
    (∀ c s', next (cfg.erase L undefined) s c = some s' → ∀ j (hj : j < cfg.capacity * n),
      (∀ i, s.ringWrite (cfg.erase L undefined) (s.pc c) = some i → ¬ InSlot n i j) →
        s'.buffer.bytes[j] = s.buffer.bytes[j]) ∧
    (∀ a, act ((cfg.erase L undefined).map L.ofBytes) (s.decode L.ofBytes) a =
      (act (cfg.erase L undefined) s a).map (State.decode L.ofBytes)) ∧
    (elementSystem L cfg undefined).Run tr (s.decode L.ofBytes) ∧
    (∀ us t, (elementSystem L cfg undefined).Path (s.decode L.ofBytes) us t →
      ∃ s', (byteSystem L cfg undefined).Path s us s' ∧ s'.decode L.ofBytes = t) ∧
    ∀ c, cfg.kind c = .receive → s.pc c = .returned .ok →
      ∃ d ∈ events Label.accepts tr, cfg.kind d = .send ∧ s.cell c = L.asBytes (cfg.item d) ∧
        L.ofBytes (s.cell c) = cfg.item d := by
  have hi : Inv (cfg.erase L undefined) s := reachable_inv h.reachable
  refine ⟨?_, ?_, act_decode L.ofBytes h.reachable, run_decode L.ofBytes h, ?_, ?_⟩
  · intro c i hc
    exact slot_end_le (hi.elemIndex_lt hc)
  · intro c s' hn j hj hout
    exact next_bytes hn hj hout
  · intro us t hp
    exact path_lift L.ofBytes h hp
  · intro c hk hr
    obtain ⟨d, hd, hsend, hbytes⟩ := received_bytes h hk hr
    refine ⟨d, hd, hsend, hbytes, ?_⟩
    rw [hbytes, L.ofBytes_asBytes]

end Channel

/-- Two bytes, the second of which a `bool` uses only in part. -/
def pairLayout : Layout (UInt8 × Bool) 2 where
  asBytes v := #v[v.1, if v.2 then 1 else 0]
  ofBytes b := (b[0], b[1] != 0)
  ofBytes_asBytes := by
    rintro ⟨x, b⟩
    cases b <;> rfl

/-- A send of `(7, true)` and a receive, over a buffer of two elements. -/
def sendPair : Config Bool Bool (UInt8 × Bool) where
  capacity := 2
  kind c := if c then .receive else .send
  task c := c
  item _ := (7, true)

/-- The receive finds the item in the buffer. -/
def pairReceived : List (Label Bool Bool) × State (Buffer 2 2) Bool Bool (Bytes 2) :=
  (replay (sendPair.erase pairLayout fun _ => #v[1, 2])
    (initial (sendPair.erase pairLayout fun _ => #v[1, 2]) ⟨#v[0, 0, 0, 0]⟩)
    (.begin false :: List.replicate 5 (.run false) ++
      .begin true :: List.replicate 4 (.run true))).get (by decide)

theorem byte_ring_refines_pairReceived :
    pairReceived.2.cell true = #v[7, 1] ∧
      ∃ d, sendPair.kind d = .send ∧
        pairReceived.2.cell true = pairLayout.asBytes (sendPair.item d) := by
  have hr : (byteSystem pairLayout sendPair fun _ => #v[1, 2]).Run pairReceived.1 pairReceived.2 :=
    run_of_replay (Option.some_get _).symm
  obtain ⟨-, -, -, -, -, hbytes⟩ := byte_ring_refines hr
  obtain ⟨d, -, hd, heq, -⟩ := hbytes true rfl (by decide)
  exact ⟨by decide, d, hd, heq⟩

end ZioBenchmarks.FutexChannel
