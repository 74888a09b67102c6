import ZioBenchmarks.PingPong.Pair

/-!
# Ping-pong over semaphore slots

Photon's pair exchanges its message through two slots, each with a semaphore that counts the stored
value and one that counts the free place. Nothing is closed: the task that breaks out of its loop
sends one more message, which releases the peer, and the peer sends one that nobody receives. Each
wait, store, load and signal is a step.

Until the first task breaks out only one statement can be executed; from then on that task signals
`done` while the peer finishes (`Stage`).
-/

set_option autoImplicit false

namespace ZioBenchmarks.PingPong.Slots

open ZioBenchmarks.Transition

/-- `Slot`, with the counts of its semaphores. -/
structure Slot where
  value : UInt64 := 0
  full : Nat := 0
  empty : Nat := 1
  deriving DecidableEq, Repr

/-- The statement a task executes next. A send knows whether the loop breaks behind it. -/
inductive Pc where
  /-- `send`: `empty.wait(1)`. -/
  | emptyWait (v : UInt64) (last : Bool)
  /-- `send`: `value = v`. -/
  | store (v : UInt64) (last : Bool)
  /-- `send`: `full.signal(1)`. -/
  | fullSignal (v : UInt64) (last : Bool)
  /-- `recv`: `full.wait(1)`. -/
  | fullWait
  /-- `recv`: `uint64_t v = value`. -/
  | load
  /-- `recv`: `empty.signal(1)`. -/
  | emptySignal (v : UInt64)
  /-- `next = recv() + 1; if (next >= per_pair)`. -/
  | test (v : UInt64)
  /-- `done.signal(1)`. -/
  | done
  | returned
  deriving DecidableEq, Repr

/-- `Pair`: `ab` is the slot of the first task and `ba` that of the second. -/
structure State where
  slot : Role → Slot
  pc : Role → Pc

/-- What an observer sees of a step. -/
inductive Label where
  | stored (r : Role) (v : UInt64)
  /-- `r` loaded `v` from the slot of its peer. -/
  | loaded (r : Role) (v : UInt64)
  | done (r : Role)
  | silent (r : Role)
  deriving DecidableEq, Repr

/-- `r` continues at `p`. -/
def State.goto (s : State) (r : Role) (p : Pc) : State :=
  { s with pc := Function.update s.pc r p }

/-- Overwrite the slot `r` sends to. -/
def State.setSlot (s : State) (r : Role) (x : Slot) : State :=
  { s with slot := Function.update s.slot r x }

/-- One statement of one of the two loops; the first task enters its loop behind its first send. -/
def loop (perPair : UInt64) (s : State) (r : Role) : Option (Label × State) :=
  match s.pc r with
  | .emptyWait v last =>
      if 0 < (s.slot r).empty then
        some (.silent r, (s.setSlot r { s.slot r with empty := (s.slot r).empty - 1 }).goto r
          (.store v last))
      else none
  | .store v last =>
      some (.stored r v, (s.setSlot r { s.slot r with value := v }).goto r (.fullSignal v last))
  | .fullSignal _ last =>
      some (.silent r, (s.setSlot r { s.slot r with full := (s.slot r).full + 1 }).goto r
        (if last then .done else .fullWait))
  | .fullWait =>
      if 0 < (s.slot r.peer).full then
        some (.silent r, (s.setSlot r.peer { s.slot r.peer with
          full := (s.slot r.peer).full - 1 }).goto r .load)
      else none
  | .load => some (.loaded r (s.slot r.peer).value, s.goto r (.emptySignal (s.slot r.peer).value))
  | .emptySignal v =>
      some (.silent r, (s.setSlot r.peer { s.slot r.peer with
        empty := (s.slot r.peer).empty + 1 }).goto r (.test v))
  | .test v =>
      if perPair ≤ v + 1 then some (.silent r, s.goto r (.emptyWait (v + 1) true))
      else some (.silent r, s.goto r (.emptyWait (v + 1) false))
  | .done => some (.done r, s.goto r .returned)
  | .returned => none

/-- The first task starts with its first send, the second with its first receive. -/
def initial : State where
  slot _ := {}
  pc
    | .a => .emptyWait 0 false
    | .b => .fullWait

/-- The two loops in any order of steps. -/
def system (perPair : UInt64) : System State Label where
  init s := s = initial
  step s l s' := ∃ r, loop perPair s r = some (l, s')

/-- What `main` makes of `--pairs`. -/
def perPairOf (pairs : UInt64) : UInt64 :=
  let perPair := 100000 / (if pairs = 0 then 1 else pairs)
  if perPair < 1 then 1 else perPair

/-- The values stored, each with the task that sends it, in order. -/
def stores (tr : List Label) : List (Role × UInt64) :=
  tr.filterMap fun
    | .stored r v => some (r, v)
    | _ => none

/-- The values loaded, each with the task that receives it, in order. -/
def loads (tr : List Label) : List (Role × UInt64) :=
  tr.filterMap fun
    | .loaded r v => some (r, v)
    | _ => none

/-! ## Stages -/

/-- The state with the given slots and statements of the sender of `k` and of its peer. -/
def stateOf (k : Nat) (xs xr : Slot) (ps pr : Pc) : State where
  slot r := if r = sender k then xs else xr
  pc r := if r = sender k then ps else pr

/-- What the sender of `k` does behind its send: it waits for the reply, or the loop has broken and
it signals `done`, if it has not yet. -/
def behind (n k : Nat) (finished : Bool) : Pc :=
  if k < n then .fullWait else if finished then .returned else .done

/-- Where the exchange of a value is. -/
inductive Point where
  | emptyWait
  | store
  | fullSignal
  | fullWait
  | load
  | emptySignal
  | test
  deriving DecidableEq, Repr

/-- Where a pair is: at a point of the value `k`, or behind the last send. The flags say which of
the tasks that broke out have signalled `done`. -/
inductive Stage where
  | at (k : Nat) (point : Point) (finished : Bool)
  | finished (sender peer : Bool)
  deriving DecidableEq, Repr

/-- The state of a stage, for a limit `n`. -/
def Stage.state (n : Nat) : Stage → State
  | .at k .emptyWait f =>
      stateOf k ⟨UInt64.ofNat (k - 2), 0, 1⟩ ⟨UInt64.ofNat (k - 1), 0, 1⟩
        (.emptyWait (UInt64.ofNat k) (n ≤ k)) (behind n (k - 1) f)
  | .at k .store f =>
      stateOf k ⟨UInt64.ofNat (k - 2), 0, 0⟩ ⟨UInt64.ofNat (k - 1), 0, 1⟩
        (.store (UInt64.ofNat k) (n ≤ k)) (behind n (k - 1) f)
  | .at k .fullSignal f =>
      stateOf k ⟨UInt64.ofNat k, 0, 0⟩ ⟨UInt64.ofNat (k - 1), 0, 1⟩
        (.fullSignal (UInt64.ofNat k) (n ≤ k)) (behind n (k - 1) f)
  | .at k .fullWait f =>
      stateOf k ⟨UInt64.ofNat k, 1, 0⟩ ⟨UInt64.ofNat (k - 1), 0, 1⟩ (behind n k f) .fullWait
  | .at k .load f =>
      stateOf k ⟨UInt64.ofNat k, 0, 0⟩ ⟨UInt64.ofNat (k - 1), 0, 1⟩ (behind n k f) .load
  | .at k .emptySignal f =>
      stateOf k ⟨UInt64.ofNat k, 0, 0⟩ ⟨UInt64.ofNat (k - 1), 0, 1⟩ (behind n k f)
        (.emptySignal (UInt64.ofNat k))
  | .at k .test f =>
      stateOf k ⟨UInt64.ofNat k, 0, 1⟩ ⟨UInt64.ofNat (k - 1), 0, 1⟩ (behind n k f)
        (.test (UInt64.ofNat k))
  | .finished f g =>
      stateOf (n + 1) ⟨UInt64.ofNat (n + 1), 1, 0⟩ ⟨UInt64.ofNat n, 0, 1⟩ (behind n (n + 1) f)
        (behind n n g)

/-- The values that are received go up to `n`, and one more is sent. -/
def Stage.Valid (n : Nat) : Stage → Prop
  | .at k .emptyWait _ | .at k .store _ | .at k .fullSignal _ => k ≤ n + 1
  | .at k .fullWait _ | .at k .load _ | .at k .emptySignal _ | .at k .test _ => k ≤ n
  | .finished _ _ => True

/-- The values stored up to a stage. -/
def Stage.stored (n : Nat) : Stage → Nat
  | .at k .emptyWait _ | .at k .store _ => k
  | .at k _ _ => k + 1
  | .finished _ _ => n + 2

/-- The values loaded up to a stage. -/
def Stage.loaded (n : Nat) : Stage → Nat
  | .at k .emptySignal _ | .at k .test _ => k + 1
  | .at k _ _ => k
  | .finished _ _ => n + 1

/-- The turn of the exchange of a value at a point. -/
def Point.index : Point → Nat
  | .emptyWait => 0
  | .store => 1
  | .fullSignal => 2
  | .fullWait => 3
  | .load => 4
  | .emptySignal => 5
  | .test => 6

/-- The steps up to a stage; a flag counts only once its task has broken out. -/
def Stage.steps (n : Nat) : Stage → Nat
  | .at k .emptyWait f => 7 * k + Point.emptyWait.index + if f ∧ n ≤ k - 1 then 1 else 0
  | .at k .store f => 7 * k + Point.store.index + if f ∧ n ≤ k - 1 then 1 else 0
  | .at k .fullSignal f => 7 * k + Point.fullSignal.index + if f ∧ n ≤ k - 1 then 1 else 0
  | .at k point f => 7 * k + point.index + if f ∧ n ≤ k then 1 else 0
  | .finished f g => 7 * (n + 1) + Point.fullWait.index + f.toNat + g.toNat

/-- The first `m` sends: the value `k` comes from its sender. -/
def sends (m : Nat) : List (Role × UInt64) :=
  (List.range m).map fun k => (sender k, UInt64.ofNat k)

section StateOf

variable (k : Nat) (xs xr x : Slot) (ps pr p : Pc)

@[simp] theorem stateOf_slot_sender : (stateOf k xs xr ps pr).slot (sender k) = xs := by
  simp [stateOf]

@[simp] theorem stateOf_slot_peer : (stateOf k xs xr ps pr).slot (sender k).peer = xr := by
  simp [stateOf, peer_ne]

@[simp] theorem stateOf_pc_sender : (stateOf k xs xr ps pr).pc (sender k) = ps := by
  simp [stateOf]

@[simp] theorem stateOf_pc_peer : (stateOf k xs xr ps pr).pc (sender k).peer = pr := by
  simp [stateOf, peer_ne]

@[simp] theorem goto_sender : (stateOf k xs xr ps pr).goto (sender k) p = stateOf k xs xr p pr := by
  simp [State.goto, stateOf, update_ite_self]

@[simp] theorem goto_peer :
    (stateOf k xs xr ps pr).goto (sender k).peer p = stateOf k xs xr ps p := by
  simp [State.goto, stateOf, update_ite_peer]

@[simp] theorem setSlot_sender :
    (stateOf k xs xr ps pr).setSlot (sender k) x = stateOf k x xr ps pr := by
  simp [State.setSlot, stateOf, update_ite_self]

@[simp] theorem setSlot_peer :
    (stateOf k xs xr ps pr).setSlot (sender k).peer x = stateOf k xs x ps pr := by
  simp [State.setSlot, stateOf, update_ite_peer]

/-- The next value goes the other way. -/
theorem stateOf_succ : stateOf (k + 1) xs xr ps pr = stateOf k xr xs pr ps := by
  unfold stateOf
  congr 1
  all_goals
    funext r
    rcases eq_or_eq_peer r (sender k) with rfl | rfl
    all_goals simp [sender_succ, peer_ne, (peer_ne _).symm]

end StateOf

/-! ## A run goes through the stages -/

variable {perPair : UInt64} {n k : Nat} {s s' : State} {l : Label} {tr : List Label}
  {st st' : Stage} {r : Role} {f : Bool}

theorem behind_of_le (hk : n ≤ k) : behind n k f = if f then .returned else .done := by
  rw [behind, if_neg (by omega)]

/-- Behind its send a task neither sends nor receives. -/
theorem behind_cases (n k : Nat) (f : Bool) :
    behind n k f = .fullWait ∨ behind n k f = .done ∨ behind n k f = .returned := by
  unfold behind
  split
  · exact .inl rfl
  · cases f with
    | true => exact .inr (.inr rfl)
    | false => exact .inr (.inl rfl)

@[simp] theorem behind_ne_store (v : UInt64) (b : Bool) : behind n k f ≠ .store v b := by
  rcases behind_cases n k f with h | h | h <;> simp [h]

@[simp] theorem behind_ne_emptyWait (v : UInt64) (b : Bool) : behind n k f ≠ .emptyWait v b := by
  rcases behind_cases n k f with h | h | h <;> simp [h]

/-- Behind its send a task waits for the reply of its peer, or signals `done`. -/
theorem loop_behind (hp : s.pc r = behind n k f) (hfull : k < n → (s.slot r.peer).full = 0)
    (h : loop perPair s r = some (l, s')) :
    n ≤ k ∧ f = false ∧ l = .done r ∧ s' = s.goto r (behind n k true) := by
  by_cases hk : k < n
  · simp [loop, hp, behind, hk, hfull hk] at h
  · cases f with
    | true => simp [loop, hp, behind, hk] at h
    | false =>
        simp only [loop, hp, behind, if_neg hk, Bool.false_eq_true, if_false, Option.some.injEq,
          Prod.mk.injEq] at h
        obtain ⟨rfl, rfl⟩ := h
        exact ⟨by omega, rfl, rfl, by rw [behind, if_neg hk]; rfl⟩

theorem sends_succ (m : Nat) : sends (m + 1) = sends m ++ [(sender m, UInt64.ofNat m)] := by
  simp [sends, List.range_succ]

/-- What a step adds to the history of a stage. -/
structure StageStep (n : Nat) (st : Stage) (l : Label) (st' : Stage) : Prop where
  valid : st'.Valid n
  stored : sends (st'.stored n) = sends (st.stored n) ++ stores [l]
  loaded : exchange (st'.loaded n) = exchange (st.loaded n) ++ loads [l]
  steps : st'.steps n = st.steps n + 1

/-- A step that is neither a store nor a load. -/
theorem StageStep.quiet (hv : st'.Valid n) (hs : st'.stored n = st.stored n)
    (hl : st'.loaded n = st.loaded n) (hsteps : st'.steps n = st.steps n + 1)
    (hstores : stores [l] = []) (hloads : loads [l] = []) : StageStep n st l st' :=
  ⟨hv, by rw [hs, hstores, List.append_nil], by rw [hl, hloads, List.append_nil], hsteps⟩

/-- The task that does not take part in the exchange signals `done`. -/
theorem loop_other {t : Stage} (hp : (st.state n).pc r = behind n k f)
    (hfull : k < n → ((st.state n).slot r.peer).full = 0)
    (hstate : n ≤ k → t.state n = (st.state n).goto r (behind n k true)) (hv : t.Valid n)
    (hs : t.stored n = st.stored n) (hl : t.loaded n = st.loaded n)
    (hsteps : n ≤ k → f = false → t.steps n = st.steps n + 1)
    (h : loop perPair (st.state n) r = some (l, s')) :
    ∃ st', StageStep n st l st' ∧ s' = st'.state n := by
  obtain ⟨hk, hf, rfl, rfl⟩ := loop_behind hp hfull h
  exact ⟨t, .quiet hv hs hl (hsteps hk hf) rfl rfl, (hstate hk).symm⟩

/-- The sender of `k` signals that it is stored: it has gone on to wait for the reply, or it is
behind its last send. -/
theorem loop_fullSignal (hpos : 0 < n) (hv : (Stage.at k .fullSignal f).Valid n)
    (h : loop perPair ((Stage.at k .fullSignal f).state n) (sender k) = some (l, s')) :
    ∃ st', StageStep n (.at k .fullSignal f) l st' ∧ s' = st'.state n := by
  simp [loop, Stage.state] at h
  obtain ⟨rfl, rfl⟩ := h
  simp only [Stage.Valid] at hv
  by_cases hk : k ≤ n
  · -- the peer is still in its loop
    have hloop : k - 1 < n := by omega
    have hpeer : behind n (k - 1) f = .fullWait := by
      rw [behind, if_pos hloop]
    have hsteps : (Stage.at k .fullWait false).steps n =
        (Stage.at k .fullSignal f).steps n + 1 := by
      simp [Stage.steps, Point.index, hloop]
    refine ⟨.at k .fullWait false, .quiet hk rfl rfl hsteps rfl rfl, ?_⟩
    rw [hpeer]
    by_cases hlast : n ≤ k
    · simp [Stage.state, behind, hlast, show ¬ k < n by omega]
    · simp [Stage.state, behind, hlast, show k < n by omega]
  · -- this was the message that nobody receives
    obtain rfl : k = n + 1 := by omega
    have hsteps : (Stage.finished false f).steps n =
        (Stage.at (n + 1) .fullSignal f).steps n + 1 := by
      cases f <;> simp [Stage.steps, Point.index]
    refine ⟨.finished false f, .quiet trivial rfl rfl hsteps rfl rfl, ?_⟩
    simp [Stage.state, behind, show ¬ n + 1 < n by omega]

/-- The receiver of `k` tests it: it sends the next value in any case, and breaks out behind that
send if the value was the last one. -/
theorem loop_test (hn : perPair.toNat = n) (hpos : 0 < n) (hfit : n + 1 < 2 ^ 64)
    (hv : (Stage.at k .test f).Valid n)
    (h : loop perPair ((Stage.at k .test f).state n) (sender k).peer = some (l, s')) :
    ∃ st', StageStep n (.at k .test f) l st' ∧ s' = st'.state n := by
  simp only [Stage.Valid] at hv
  have hnext : (UInt64.ofNat (k + 1)).toNat = k + 1 :=
    UInt64.toNat_ofNat_of_lt' (show k + 1 < 2 ^ 64 by omega)
  -- the comparison of the source, on the value itself
  have hle : perPair ≤ UInt64.ofNat (k + 1) ↔ n ≤ k + 1 := by
    rw [UInt64.le_iff_toNat_le, hnext, hn]
  have hstate : s' = (Stage.at (k + 1) .emptyWait f).state n ∧ l = .silent (sender k).peer := by
    have hprev : k + 1 - 2 = k - 1 := by omega
    simp only [loop, Stage.state, stateOf_pc_peer, goto_peer, ofNat_succ, hle] at h
    rw [Stage.state, stateOf_succ, hprev, Nat.add_sub_cancel]
    by_cases hlast : n ≤ k + 1
    · simp only [hlast, if_true, Option.some.injEq, Prod.mk.injEq] at h
      obtain ⟨rfl, rfl⟩ := h
      rw [decide_eq_true hlast]
      exact ⟨rfl, rfl⟩
    · simp only [hlast, if_false, Option.some.injEq, Prod.mk.injEq] at h
      obtain ⟨rfl, rfl⟩ := h
      rw [decide_eq_false hlast]
      exact ⟨rfl, rfl⟩
  obtain ⟨rfl, rfl⟩ := hstate
  refine ⟨.at (k + 1) .emptyWait f, .quiet ?_ rfl rfl ?_ rfl rfl, rfl⟩
  · simp only [Stage.Valid]
    omega
  · simp only [Stage.steps, Point.index, Nat.add_sub_cancel]
    omega

/-- In a stage the exchange can go on, and a task that broke out can signal `done`. -/
theorem loop_stage (hn : perPair.toNat = n) (hpos : 0 < n) (hfit : n + 1 < 2 ^ 64)
    (hv : st.Valid n) (h : loop perPair (st.state n) r = some (l, s')) :
    ∃ st', StageStep n st l st' ∧ s' = st'.state n := by
  cases st with
  | «at» k point f =>
      cases point with
      | emptyWait =>
          rcases eq_or_eq_peer r (sender k) with rfl | rfl
          · simp [loop, Stage.state] at h
            obtain ⟨rfl, rfl⟩ := h
            exact ⟨.at k .store f, .quiet hv rfl rfl
              (by simp only [Stage.steps, Point.index]; omega) rfl rfl, rfl⟩
          · exact loop_other (k := k - 1) (f := f) (t := .at k .emptyWait true)
              (by simp [Stage.state]) (by simp [Stage.state]) (by simp [Stage.state]) hv rfl rfl
              (fun hk hf => by simp [Stage.steps, hk, hf]) h
      | store =>
          rcases eq_or_eq_peer r (sender k) with rfl | rfl
          · simp [loop, Stage.state] at h
            obtain ⟨rfl, rfl⟩ := h
            refine ⟨.at k .fullSignal f, ⟨hv, ?_, ?_, ?_⟩, rfl⟩
            · simp [Stage.stored, sends_succ, stores]
            · simp [Stage.loaded, loads]
            · simp only [Stage.steps, Point.index]
              omega
          · exact loop_other (k := k - 1) (f := f) (t := .at k .store true)
              (by simp [Stage.state]) (by simp [Stage.state]) (by simp [Stage.state]) hv rfl rfl
              (fun hk hf => by simp [Stage.steps, hk, hf]) h
      | fullSignal =>
          rcases eq_or_eq_peer r (sender k) with rfl | rfl
          · exact loop_fullSignal hpos hv h
          · exact loop_other (k := k - 1) (f := f) (t := .at k .fullSignal true)
              (by simp [Stage.state]) (by simp [Stage.state]) (by simp [Stage.state]) hv rfl rfl
              (fun hk hf => by simp [Stage.steps, hk, hf]) h
      | fullWait =>
          rcases eq_or_eq_peer r (sender k) with rfl | rfl
          · exact loop_other (k := k) (f := f) (t := .at k .fullWait true)
              (by simp [Stage.state]) (by simp [Stage.state]) (by simp [Stage.state]) hv rfl rfl
              (fun hk hf => by simp [Stage.steps, hk, hf]) h
          · simp [loop, Stage.state] at h
            obtain ⟨rfl, rfl⟩ := h
            exact ⟨.at k .load f, .quiet hv rfl rfl
              (by simp only [Stage.steps, Point.index]; omega) rfl rfl, rfl⟩
      | load =>
          rcases eq_or_eq_peer r (sender k) with rfl | rfl
          · exact loop_other (k := k) (f := f) (t := .at k .load true)
              (by simp [Stage.state]) (by simp [Stage.state]) (by simp [Stage.state]) hv rfl rfl
              (fun hk hf => by simp [Stage.steps, hk, hf]) h
          · simp [loop, Stage.state] at h
            obtain ⟨rfl, rfl⟩ := h
            refine ⟨.at k .emptySignal f, ⟨hv, ?_, ?_, ?_⟩, rfl⟩
            · simp [Stage.stored, stores]
            · simp [Stage.loaded, exchange_succ, loads]
            · simp only [Stage.steps, Point.index]
              omega
      | emptySignal =>
          rcases eq_or_eq_peer r (sender k) with rfl | rfl
          · exact loop_other (k := k) (f := f) (t := .at k .emptySignal true)
              (by simp [Stage.state]) (by simp [Stage.state]) (by simp [Stage.state]) hv rfl rfl
              (fun hk hf => by simp [Stage.steps, hk, hf]) h
          · simp [loop, Stage.state] at h
            obtain ⟨rfl, rfl⟩ := h
            exact ⟨.at k .test f, .quiet hv rfl rfl
              (by simp only [Stage.steps, Point.index]; omega) rfl rfl, rfl⟩
      | test =>
          rcases eq_or_eq_peer r (sender k) with rfl | rfl
          · exact loop_other (k := k) (f := f) (t := .at k .test true)
              (by simp [Stage.state]) (by simp [Stage.state]) (by simp [Stage.state]) hv rfl rfl
              (fun hk hf => by simp [Stage.steps, hk, hf]) h
          · exact loop_test hn hpos hfit hv h
  | finished f g =>
      rcases eq_or_eq_peer r (sender (n + 1)) with rfl | rfl
      · exact loop_other (k := n + 1) (f := f) (t := .finished true g)
          (by simp [Stage.state]) (by simp [Stage.state]) (by simp [Stage.state]) hv rfl rfl
          (fun _ hf => by simp [Stage.steps, hf]; omega) h
      · exact loop_other (k := n) (f := g) (t := .finished f true)
          (by simp [Stage.state]) (by simp) (by simp [Stage.state]) hv rfl rfl
          (fun _ hf => by simp [Stage.steps, hf]) h

/-- A run is always in a stage. -/
theorem stage_invariant (hn : perPair.toNat = n) (hpos : 0 < n) (hfit : n + 1 < 2 ^ 64)
    (h : (system perPair).Run tr s) :
    ∃ st : Stage, st.Valid n ∧ s = st.state n ∧ stores tr = sends (st.stored n) ∧
      loads tr = exchange (st.loaded n) ∧ tr.length = st.steps n := by
  refine System.Run.invariant
    (I := fun tr s => ∃ st : Stage, st.Valid n ∧ s = st.state n ∧ stores tr = sends (st.stored n) ∧
      loads tr = exchange (st.loaded n) ∧ tr.length = st.steps n) ?_ ?_ h
  · rintro _ rfl
    -- the first sender is about to wait for the place in its slot
    refine ⟨.at 0 .emptyWait false, Nat.zero_le _, ?_, rfl, rfl, by simp [Stage.steps, Point.index]⟩
    simp only [initial, Stage.state, stateOf, behind]
    congr 1
    · funext r
      simp
    · funext r
      cases r <;> simp [sender, hpos, Nat.pos_iff_ne_zero.1 hpos]
  · rintro tr s l s' - ⟨st, hv, rfl, hs, hl, hlength⟩ ⟨r, hr⟩
    obtain ⟨st', hstep, rfl⟩ := loop_stage hn hpos hfit hv hr
    refine ⟨st', hstep.valid, rfl, ?_, ?_, ?_⟩
    · rw [hstep.stored, ← hs]
      exact List.filterMap_append ..
    · rw [hstep.loaded, ← hl]
      exact List.filterMap_append ..
    · rw [List.length_append, hlength, hstep.steps, List.length_singleton]

/-! ## What the pair does -/

/-- A task that is neither blocked in its receive nor has returned can move. -/
theorem exists_step (hv : st.Valid n) (hs : ∃ r, (st.state n).pc r ≠ .returned) :
    ∃ r x, loop perPair (st.state n) r = some x := by
  cases st with
  | «at» k point f =>
      cases point with
      | emptyWait | store | fullSignal => exact ⟨sender k, by simp [loop, Stage.state]⟩
      | fullWait | load | emptySignal => exact ⟨(sender k).peer, by simp [loop, Stage.state]⟩
      | test =>
          refine ⟨(sender k).peer, ?_⟩
          simp only [loop, Stage.state, stateOf_pc_peer]
          split <;> simp
  | finished f g =>
      obtain ⟨r, hr⟩ := hs
      refine ⟨r, ?_⟩
      rcases eq_or_eq_peer r (sender (n + 1)) with rfl | rfl
      · simp only [Stage.state, stateOf_pc_sender, behind_of_le (Nat.le_succ n)] at hr
        cases f with
        | true => exact absurd rfl hr
        | false => simp [loop, Stage.state, behind_of_le]
      · simp only [Stage.state, stateOf_pc_peer, behind_of_le (Nat.le_refl n)] at hr
        cases g with
        | true => exact absurd rfl hr
        | false => simp [loop, Stage.state, behind_of_le]

/-- A value that is about to be stored overwrites no value that was not read. -/
theorem loaded_of_store (hs : stores tr = sends (st.stored n))
    (hl : loads tr = exchange (st.loaded n)) {v x : UInt64} {b : Bool}
    (hp : (st.state n).pc r = .store v b) (hx : (r, x) ∈ stores tr) : (r.peer, x) ∈ loads tr := by
  cases st with
  | «at» k point f =>
      cases point with
      | store =>
          rw [hs] at hx
          rw [hl]
          simp only [Stage.stored, Stage.loaded, sends, exchange, List.mem_map,
            Prod.mk.injEq] at hx ⊢
          obtain ⟨j, hj, rfl, rfl⟩ := hx
          exact ⟨j, hj, rfl, rfl⟩
      | emptyWait | fullSignal | fullWait | load | emptySignal | test =>
          rcases eq_or_eq_peer r (sender k) with rfl | rfl
          all_goals simp [Stage.state] at hp
  | finished f g =>
      rcases eq_or_eq_peer r (sender (n + 1)) with rfl | rfl
      all_goals simp [Stage.state] at hp

/-- No send waits: its slot is empty when the task gets to it. -/
theorem empty_of_emptyWait {v : UInt64} {b : Bool} (hp : (st.state n).pc r = .emptyWait v b) :
    0 < ((st.state n).slot r).empty := by
  cases st with
  | «at» k point f =>
      cases point with
      | emptyWait | store | fullSignal | fullWait | load | emptySignal | test =>
          rcases eq_or_eq_peer r (sender k) with rfl | rfl
          all_goals simp [Stage.state] at hp ⊢
  | finished f g =>
      rcases eq_or_eq_peer r (sender (n + 1)) with rfl | rfl
      all_goals simp [Stage.state] at hp

/-- A value takes at most seven steps, and the two tasks signal `done` once each. -/
theorem steps_le (hv : st.Valid n) : st.steps n ≤ 7 * n + 12 := by
  cases st with
  | «at» k point f =>
      cases point
      all_goals
        simp only [Stage.Valid, Stage.steps, Point.index] at hv ⊢
        split
        all_goals omega
  | finished f g =>
      have hf := Bool.toNat_le f
      have hg := Bool.toNat_le g
      simp only [Stage.steps, Point.index]
      omega

/-- Photon's ping-pong. No value is overwritten before it was read, the values `0`, `1`, ... up to
`per_pair` are received in this order, even ones by the second task and odd ones by the first, no
send waits for its slot, somebody can move until both tasks have broken out and signalled `done`,
which a run does within `7 * per_pair + 12` steps, and then `per_pair + 2` values were sent, the
last of which nobody received. -/
theorem ping_pong_slots (hpos : 1 ≤ perPair) (hfit : perPair.toNat + 1 < 2 ^ 64)
    (h : (system perPair).Run tr s) :
    (∀ r v b, s.pc r = .store v b → ∀ x, (r, x) ∈ stores tr → (r.peer, x) ∈ loads tr) ∧
    (∃ m ≤ perPair.toNat + 2, stores tr = sends m) ∧
    (∃ m ≤ perPair.toNat + 1, loads tr = exchange m) ∧
    (∀ r v b, s.pc r = .emptyWait v b → 0 < (s.slot r).empty) ∧
    tr.length ≤ 7 * perPair.toNat + 12 ∧
    ((∃ r, s.pc r ≠ .returned) → ∃ l s', (system perPair).step s l s') ∧
    ((∀ r, s.pc r = .returned) →
      stores tr = sends (perPair.toNat + 2) ∧ loads tr = exchange (perPair.toNat + 1)) := by
  have hpos' : 0 < perPair.toNat := by
    rw [UInt64.le_iff_toNat_le] at hpos
    exact hpos
  obtain ⟨st, hv, rfl, hs, hl, hlength⟩ := stage_invariant rfl hpos' hfit h
  refine ⟨fun r v b hp x => loaded_of_store hs hl hp, ⟨_, ?_, hs⟩, ⟨_, ?_, hl⟩,
    fun r v b => empty_of_emptyWait, hlength.trans_le (steps_le hv), ?_, ?_⟩
  · cases st with
    | «at» k point f =>
        cases point
        all_goals
          simp only [Stage.Valid, Stage.stored] at hv ⊢
          omega
    | finished f g => exact le_rfl
  · cases st with
    | «at» k point f =>
        cases point
        all_goals
          simp only [Stage.Valid, Stage.loaded] at hv ⊢
          omega
    | finished f g => exact le_rfl
  · intro hr
    obtain ⟨r, x, hx⟩ : ∃ r x, loop perPair _ r = some x := exists_step hv hr
    exact ⟨x.1, x.2, r, hx⟩
  · intro hr
    cases st with
    | «at» k point f =>
        have hsender := hr (sender k)
        have hpeer := hr (sender k).peer
        cases point
        all_goals simp [Stage.state] at hsender hpeer
    | finished f g => exact ⟨hs, hl⟩

/-- The values of `per_pair` that `main` computes are far below the bound. -/
theorem perPairOf_bounds (pairs : UInt64) :
    1 ≤ perPairOf pairs ∧ (perPairOf pairs).toNat + 1 < 2 ^ 64 := by
  have hone : (1 : UInt64).toNat = 1 := rfl
  have hle : (100000 / (if pairs = 0 then 1 else pairs)).toNat ≤ 100000 := by
    rw [UInt64.toNat_div]
    exact Nat.div_le_self _ _
  simp only [perPairOf, UInt64.le_iff_toNat_le, UInt64.lt_iff_toNat_lt]
  generalize 100000 / (if pairs = 0 then 1 else pairs) = perPair at hle
  by_cases hsmall : perPair.toNat < (1 : UInt64).toNat
  · rw [if_pos hsmall]
    decide
  · rw [if_neg hsmall]
    omega

/-- The pair that `main` starts for `--pairs 100000`, run to its end. -/
def onePing : List Label × State :=
  (System.replay (loop (perPairOf 100000)) initial
    [.a, .a, .a, .b, .b, .b, .b, .b, .b, .b, .a, .a, .a, .a, .a, .a, .a, .a, .b]).get rfl

/-- Three values are sent and two are received, and both tasks signal `done`. -/
theorem ping_pong_slots_onePing :
    (system (perPairOf 100000)).Run onePing.1 onePing.2 ∧ (∀ r, onePing.2.pc r = .returned) ∧
      onePing.1.length = 19 ∧ onePing.1.count (.done .a) = 1 ∧ onePing.1.count (.done .b) = 1 ∧
      stores onePing.1 = [(.a, 0), (.b, 1), (.a, 2)] ∧ loads onePing.1 = [(.b, 0), (.a, 1)] := by
  have h : (system (perPairOf 100000)).Run onePing.1 onePing.2 :=
    System.Run.of_replay (T := system (perPairOf 100000)) (fun _ r _ _ hr => ⟨r, hr⟩) rfl
      (Option.some_get _).symm
  have hreturned : ∀ r, onePing.2.pc r = .returned := by
    intro r
    cases r <;> rfl
  obtain ⟨hstores, hloads⟩ :=
    (ping_pong_slots (by decide) (by decide) h).2.2.2.2.2.2 hreturned
  exact ⟨h, hreturned, rfl, rfl, rfl, hstores, hloads⟩

end ZioBenchmarks.PingPong.Slots
