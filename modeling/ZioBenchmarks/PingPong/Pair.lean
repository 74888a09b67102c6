import Mathlib.Algebra.Group.Nat.Defs
import Mathlib.Logic.Function.Basic
import Mathlib.Data.List.Range
import ZioBenchmarks.Transition.Runs

/-!
# The ping-pong pair

`taskA` and `taskB` exchange one message over two channels of capacity 1 until its value reaches the
limit, and the task that finds it there closes the channel it sends on. The channels are what the
tasks may rely on: a `send` waits for room and fails once the channel is closed, a `receive` waits
for an item, and fails once the channel is closed and empty.

The two tasks never run side by side: in each reachable state one statement of one task can be
executed (`Stage`), and a run goes through the stages in order.
-/

set_option autoImplicit false

namespace ZioBenchmarks.PingPong

open ZioBenchmarks.Transition

/-- `taskA` sends on `a_to_b` and receives from `b_to_a`, `taskB` the other way round. -/
inductive Role where
  | a
  | b
  deriving DecidableEq, Repr

/-- The other task. -/
def Role.peer : Role → Role
  | .a => .b
  | .b => .a

/-- A channel of capacity 1. -/
structure Channel where
  buffer : List UInt64 := []
  closed : Bool := false
  deriving DecidableEq, Repr

/-- The statement a task executes next. -/
inductive Pc where
  /-- Send the value on the own channel. -/
  | send (v : UInt64)
  /-- Receive from the channel of the peer. -/
  | receive
  /-- `const next = val + 1; if (next >= limit)`. -/
  | test (val : UInt64)
  /-- Close the own channel. -/
  | close
  | returned
  deriving DecidableEq, Repr

/-- The channels, named by the task that sends on them, and the tasks. -/
structure State where
  channel : Role → Channel
  pc : Role → Pc

/-- What an observer sees of a step. -/
inductive Label where
  | sent (r : Role) (v : UInt64)
  /-- The send failed with `error.Closed`. -/
  | refused (r : Role)
  | received (r : Role) (v : UInt64)
  /-- The receive failed with `error.Closed`. -/
  | ended (r : Role)
  | tested (r : Role)
  | closed (r : Role)
  deriving DecidableEq, Repr

/-- `r` continues at `p`. -/
def State.goto (s : State) (r : Role) (p : Pc) : State :=
  { s with pc := Function.update s.pc r p }

/-- Overwrite the channel `r` sends on. -/
def State.setChannel (s : State) (r : Role) (c : Channel) : State :=
  { s with channel := Function.update s.channel r c }

/-- One statement of `taskA` or `taskB`: the loop is the same, and `taskA` enters it behind its first
send. -/
def task (limit : UInt64) (s : State) (r : Role) : Option (Label × State) :=
  match s.pc r with
  | .send v =>
      if (s.channel r).closed then some (.refused r, s.goto r .returned)
      else if (s.channel r).buffer.length < 1 then
        some (.sent r v, (s.setChannel r { s.channel r with
          buffer := (s.channel r).buffer ++ [v] }).goto r .receive)
      else none
  | .receive =>
      match (s.channel r.peer).buffer with
      | v :: rest =>
          some (.received r v,
            (s.setChannel r.peer { s.channel r.peer with buffer := rest }).goto r (.test v))
      | [] => if (s.channel r.peer).closed then some (.ended r, s.goto r .returned) else none
  | .test val =>
      if limit ≤ val + 1 then some (.tested r, s.goto r .close)
      else some (.tested r, s.goto r (.send (val + 1)))
  | .close =>
      some (.closed r, (s.setChannel r { s.channel r with closed := true }).goto r .returned)
  | .returned => none

/-- `pair`: `taskA` starts with its first send, `taskB` with its first receive. -/
def initial : State where
  channel _ := {}
  pc
    | .a => .send 0
    | .b => .receive

/-- The two tasks in any order of steps. -/
def system (limit : UInt64) : System State Label where
  init s := s = initial
  step s l s' := ∃ r, task limit s r = some (l, s')

/-- The values received, each with the task that received it, in order. -/
def deliveries (tr : List Label) : List (Role × UInt64) :=
  tr.filterMap fun
    | .received r v => some (r, v)
    | _ => none

/-- The channels closed, in order. -/
def closes (tr : List Label) : List Role :=
  tr.filterMap fun
    | .closed r => some r
    | _ => none

/-- The messages a statement holds. -/
def Pc.messages : Pc → Nat
  | .send _ | .test _ => 1
  | .receive | .close | .returned => 0

/-- The messages in the channels and in the hands of the tasks. -/
def State.messages (s : State) : Nat :=
  (s.channel .a).buffer.length + (s.channel .b).buffer.length + (s.pc .a).messages +
    (s.pc .b).messages

/-! ## Stages -/

/-- The number of values a pair exchanges. -/
def total (limit : UInt64) : Nat := max limit.toNat 1

/-- The task that sends the value `k`: even values come from `taskA`. -/
def sender (k : Nat) : Role := if k % 2 = 0 then .a else .b

/-- Where a pair is. -/
inductive Stage where
  /-- The value `k` is about to be sent. -/
  | sending (k : Nat)
  /-- The value `k` is in a channel. -/
  | sent (k : Nat)
  /-- The value `k` was received. -/
  | received (k : Nat)
  /-- The last value `k` was received, and its receiver is about to close. -/
  | closing (k : Nat)
  /-- The receiver of the last value `k` has closed and returned. -/
  | closed (k : Nat)
  /-- Both tasks have returned. -/
  | finished (k : Nat)
  deriving DecidableEq, Repr

/-- The state of a stage, from the channel that is not empty or not open and the statements of the
sender of `k` and of its receiver. -/
def stateOf (k : Nat) (cs cr : Channel) (ps pr : Pc) : State where
  channel r := if r = sender k then cs else cr
  pc r := if r = sender k then ps else pr

/-- The state of a stage. -/
def Stage.state : Stage → State
  | .sending k => stateOf k {} {} (.send (UInt64.ofNat k)) .receive
  | .sent k => stateOf k { buffer := [UInt64.ofNat k] } {} .receive .receive
  | .received k => stateOf k {} {} .receive (.test (UInt64.ofNat k))
  | .closing k => stateOf k {} {} .receive .close
  | .closed k => stateOf k {} { closed := true } .receive .returned
  | .finished k => stateOf k {} { closed := true } .returned .returned

/-- The value of a stage is one that is exchanged, and the last one where the pair ends. -/
def Stage.Valid (limit : UInt64) : Stage → Prop
  | .sending k | .sent k | .received k => k < total limit
  | .closing k | .closed k | .finished k => k + 1 = total limit

/-- The number of steps to a stage. -/
def Stage.index : Stage → Nat
  | .sending k => 3 * k
  | .sent k => 3 * k + 1
  | .received k => 3 * k + 2
  | .closing k => 3 * k + 3
  | .closed k => 3 * k + 4
  | .finished k => 3 * k + 5

/-- The values delivered up to a stage. -/
def Stage.delivered : Stage → Nat
  | .sending k | .sent k => k
  | .received k | .closing k | .closed k | .finished k => k + 1

/-- The channels closed up to a stage. -/
def Stage.closes : Stage → List Role
  | .closed k | .finished k => [(sender k).peer]
  | _ => []

/-- The first `n` deliveries: the value `k` goes to the peer of its sender. -/
def exchange (n : Nat) : List (Role × UInt64) :=
  (List.range n).map fun k => ((sender k).peer, UInt64.ofNat k)

/-- What a stage is followed by. -/
def Stage.next (limit : UInt64) : Stage → Option (Label × Stage)
  | .sending k => some (.sent (sender k) (UInt64.ofNat k), .sent k)
  | .sent k => some (.received (sender k).peer (UInt64.ofNat k), .received k)
  | .received k =>
      some (.tested (sender k).peer,
        if limit.toNat ≤ k + 1 then .closing k else .sending (k + 1))
  | .closing k => some (.closed (sender k).peer, .closed k)
  | .closed k => some (.ended (sender k), .finished k)
  | .finished _ => none

section StateOf

variable (k : Nat) (cs cr c : Channel) (ps pr p : Pc)

theorem peer_ne (r : Role) : r.peer ≠ r := by
  cases r <;> decide

@[simp] theorem peer_peer (r : Role) : r.peer.peer = r := by
  cases r <;> rfl

theorem eq_or_eq_peer (r q : Role) : r = q ∨ r = q.peer := by
  cases r <;> cases q <;> decide

theorem sender_succ : sender (k + 1) = (sender k).peer := by
  rcases Nat.mod_two_eq_zero_or_one k with h | h
  all_goals
    have h' : (k + 1) % 2 = 1 - k % 2 := by omega
    simp [sender, h, h', Role.peer]

@[simp] theorem stateOf_channel_sender : (stateOf k cs cr ps pr).channel (sender k) = cs := by
  simp [stateOf]

@[simp] theorem stateOf_channel_peer : (stateOf k cs cr ps pr).channel (sender k).peer = cr := by
  simp [stateOf, peer_ne]

@[simp] theorem stateOf_pc_sender : (stateOf k cs cr ps pr).pc (sender k) = ps := by
  simp [stateOf]

@[simp] theorem stateOf_pc_peer : (stateOf k cs cr ps pr).pc (sender k).peer = pr := by
  simp [stateOf, peer_ne]

/-- A pair of values by role is updated on one side. -/
theorem update_ite_self {γ : Type} (q : Role) (x y z : γ) :
    (Function.update (fun r => if r = q then x else y) q z) = fun r => if r = q then z else y := by
  funext r
  by_cases hr : r = q
  · simp [hr]
  · simp [hr]

theorem update_ite_peer {γ : Type} (q : Role) (x y z : γ) :
    (Function.update (fun r => if r = q then x else y) q.peer z) =
      fun r => if r = q then x else z := by
  funext r
  rcases eq_or_eq_peer r q with rfl | rfl
  · simp [(peer_ne r).symm]
  · simp [peer_ne]

@[simp] theorem goto_sender : (stateOf k cs cr ps pr).goto (sender k) p = stateOf k cs cr p pr := by
  simp [State.goto, stateOf, update_ite_self]

@[simp] theorem goto_peer :
    (stateOf k cs cr ps pr).goto (sender k).peer p = stateOf k cs cr ps p := by
  simp [State.goto, stateOf, update_ite_peer]

@[simp] theorem setChannel_sender :
    (stateOf k cs cr ps pr).setChannel (sender k) c = stateOf k c cr ps pr := by
  simp [State.setChannel, stateOf, update_ite_self]

@[simp] theorem setChannel_peer :
    (stateOf k cs cr ps pr).setChannel (sender k).peer c = stateOf k cs c ps pr := by
  simp [State.setChannel, stateOf, update_ite_peer]

/-- The next value goes the other way. -/
theorem stateOf_succ : stateOf (k + 1) cs cr ps pr = stateOf k cr cs pr ps := by
  unfold stateOf
  congr 1
  all_goals
    funext r
    rcases eq_or_eq_peer r (sender k) with rfl | rfl
    all_goals simp [sender_succ, peer_ne, (peer_ne _).symm]

end StateOf

/-! ## A run goes through the stages -/

variable {limit : UInt64} {s s' : State} {l : Label} {tr : List Label} {st st' : Stage} {r : Role}
  {k : Nat}

/-- Every value that is exchanged fits, and so does its successor. -/
theorem toNat_of_lt_total (hk : k < total limit) :
    (UInt64.ofNat k).toNat = k ∧ (UInt64.ofNat k + 1).toNat = k + 1 := by
  have hlimit : limit.toNat < 2 ^ 64 := limit.toNat_lt
  have hk' : (UInt64.ofNat k).toNat = k := UInt64.toNat_ofNat_of_lt' (by
    show k < 2 ^ 64
    simp only [total] at hk
    omega)
  refine ⟨hk', ?_⟩
  rw [UInt64.toNat_add, hk']
  have hone : (1 : UInt64).toNat = 1 := rfl
  simp only [total] at hk
  omega

theorem ofNat_succ : UInt64.ofNat k + 1 = UInt64.ofNat (k + 1) := by
  rw [UInt64.ofNat_add]
  rfl

/-- In a stage the only step is the one to the next stage. -/
theorem task_stage (hv : st.Valid limit) (h : task limit st.state r = some (l, s')) :
    ∃ st', st.next limit = some (l, st') ∧ s' = st'.state := by
  cases st with
  | sending k =>
      -- the peer waits for the message, so only the sender moves
      rcases eq_or_eq_peer r (sender k) with rfl | rfl
      all_goals simp [task, Stage.state] at h
      obtain ⟨rfl, rfl⟩ := h
      exact ⟨_, rfl, rfl⟩
  | sent k =>
      rcases eq_or_eq_peer r (sender k) with rfl | rfl
      all_goals simp [task, Stage.state] at h
      obtain ⟨rfl, rfl⟩ := h
      exact ⟨_, rfl, rfl⟩
  | received k =>
      -- the comparison of the source, on the value itself
      have hle : limit ≤ UInt64.ofNat k + 1 ↔ limit.toNat ≤ k + 1 := by
        rw [UInt64.le_iff_toNat_le, (toNat_of_lt_total hv).2]
      rcases eq_or_eq_peer r (sender k) with rfl | rfl
      all_goals simp only [task, Stage.state, stateOf_pc_sender, stateOf_pc_peer, hle] at h
      · simp at h
      · split at h
        case isTrue hlast =>
          simp only [goto_peer, Option.some.injEq, Prod.mk.injEq] at h
          obtain ⟨rfl, rfl⟩ := h
          exact ⟨_, rfl, by rw [if_pos hlast]; rfl⟩
        case isFalse hmore =>
          simp only [goto_peer, Option.some.injEq, Prod.mk.injEq] at h
          obtain ⟨rfl, rfl⟩ := h
          refine ⟨_, rfl, ?_⟩
          rw [if_neg hmore, Stage.state, stateOf_succ, ofNat_succ]
  | closing k =>
      rcases eq_or_eq_peer r (sender k) with rfl | rfl
      all_goals simp [task, Stage.state] at h
      obtain ⟨rfl, rfl⟩ := h
      exact ⟨_, rfl, rfl⟩
  | closed k =>
      rcases eq_or_eq_peer r (sender k) with rfl | rfl
      all_goals simp [task, Stage.state] at h
      obtain ⟨rfl, rfl⟩ := h
      exact ⟨_, rfl, rfl⟩
  | finished k =>
      rcases eq_or_eq_peer r (sender k) with rfl | rfl
      all_goals simp [task, Stage.state] at h

/-- The step to the next stage can be taken. -/
theorem exists_step (hv : st.Valid limit) (hnext : st.next limit = some (l, st')) :
    ∃ r s', task limit st.state r = some (l, s') := by
  cases st with
  | sending k | closed k =>
      simp only [Stage.next, Option.some.injEq, Prod.mk.injEq] at hnext
      obtain ⟨rfl, rfl⟩ := hnext
      exact ⟨sender k, by simp [task, Stage.state]⟩
  | sent k | closing k =>
      simp only [Stage.next, Option.some.injEq, Prod.mk.injEq] at hnext
      obtain ⟨rfl, rfl⟩ := hnext
      exact ⟨(sender k).peer, by simp [task, Stage.state]⟩
  | received k =>
      simp only [Stage.next, Option.some.injEq, Prod.mk.injEq] at hnext
      obtain ⟨rfl, -⟩ := hnext
      refine ⟨(sender k).peer, ?_⟩
      simp only [task, Stage.state, stateOf_pc_peer]
      split <;> simp
  | finished k => simp [Stage.next] at hnext

theorem next_valid (hv : st.Valid limit) (hnext : st.next limit = some (l, st')) :
    st'.Valid limit ∧ st'.index = st.index + 1 := by
  cases st with
  | received k =>
      simp only [Stage.next, Option.some.injEq, Prod.mk.injEq] at hnext
      obtain ⟨rfl, rfl⟩ := hnext
      simp only [Stage.Valid, total] at hv
      split
      case isTrue hlast =>
        refine ⟨?_, rfl⟩
        simp only [Stage.Valid, total]
        omega
      case isFalse hmore =>
        refine ⟨?_, rfl⟩
        simp only [Stage.Valid, total]
        omega
  | finished k => simp [Stage.next] at hnext
  | sending k | sent k | closing k | closed k =>
      simp only [Stage.next, Option.some.injEq, Prod.mk.injEq] at hnext
      obtain ⟨rfl, rfl⟩ := hnext
      exact ⟨hv, rfl⟩

/-- What a run looks like from outside when it has come to a stage. -/
structure History (tr : List Label) (st : Stage) : Prop where
  length : tr.length = st.index
  delivered : deliveries tr = exchange st.delivered
  closed : closes tr = st.closes
  accepted : ∀ r, Label.refused r ∉ tr

theorem exchange_succ (n : Nat) :
    exchange (n + 1) = exchange n ++ [((sender n).peer, UInt64.ofNat n)] := by
  simp [exchange, List.range_succ]

theorem next_history (hh : History tr st) (hv : st.Valid limit)
    (hnext : st.next limit = some (l, st')) : History (tr ++ [l]) st' := by
  have hindex := (next_valid hv hnext).2
  obtain ⟨hlen, hdel, hclosed, hacc⟩ := hh
  have happend : deliveries (tr ++ [l]) = deliveries tr ++ deliveries [l] :=
    List.filterMap_append ..
  have happend' : closes (tr ++ [l]) = closes tr ++ closes [l] := List.filterMap_append ..
  refine ⟨by rw [List.length_append, hlen, hindex]; rfl, ?_, ?_, ?_⟩
  · rw [happend, hdel]
    -- only a stage with a message in a channel delivers one
    cases st with
    | received k =>
        simp only [Stage.next, Option.some.injEq, Prod.mk.injEq] at hnext
        obtain ⟨rfl, rfl⟩ := hnext
        split <;> simp [deliveries, Stage.delivered]
    | finished k => simp [Stage.next] at hnext
    | sending k | sent k | closing k | closed k =>
        simp only [Stage.next, Option.some.injEq, Prod.mk.injEq] at hnext
        obtain ⟨rfl, rfl⟩ := hnext
        simp [deliveries, Stage.delivered, exchange_succ]
  · rw [happend', hclosed]
    cases st with
    | received k =>
        simp only [Stage.next, Option.some.injEq, Prod.mk.injEq] at hnext
        obtain ⟨rfl, rfl⟩ := hnext
        split <;> simp [closes, Stage.closes]
    | finished k => simp [Stage.next] at hnext
    | sending k | sent k | closing k | closed k =>
        simp only [Stage.next, Option.some.injEq, Prod.mk.injEq] at hnext
        obtain ⟨rfl, rfl⟩ := hnext
        simp [closes, Stage.closes]
  · intro r hr
    rcases List.mem_append.1 hr with hr | hr
    · exact hacc r hr
    · obtain rfl := List.mem_singleton.1 hr
      cases st <;> simp [Stage.next] at hnext

/-- A run is always in a stage. -/
theorem stage_invariant (h : (system limit).Run tr s) :
    ∃ st : Stage, st.Valid limit ∧ s = st.state ∧ History tr st := by
  refine System.Run.invariant
    (I := fun tr s => ∃ st : Stage, st.Valid limit ∧ s = st.state ∧ History tr st) ?_ ?_ h
  · rintro _ rfl
    refine ⟨.sending 0, ?_, ?_, rfl, rfl, rfl, by simp⟩
    · simp only [Stage.Valid, total]
      omega
    · simp only [initial, Stage.state, stateOf]
      congr 1
      · funext r
        simp
      · funext r
        cases r <;> rfl
  · rintro tr s l s' - ⟨st, hv, rfl, hh⟩ ⟨r, hr⟩
    obtain ⟨st', hnext, rfl⟩ := task_stage hv hr
    exact ⟨st', (next_valid hv hnext).1, rfl, next_history hh hv hnext⟩

theorem messages_stage (st : Stage) : st.state.messages ≤ 1 := by
  -- the order of the roles does not matter for the number of messages
  have hsum : ∀ s : State, ∀ k : Nat, s.messages =
      (s.channel (sender k)).buffer.length + (s.channel (sender k).peer).buffer.length +
        (s.pc (sender k)).messages + (s.pc (sender k).peer).messages := by
    intro s k
    cases sender k with
    | a => rfl
    | b =>
        simp only [State.messages, Role.peer]
        omega
  cases st with
  | sending k | sent k | received k | closing k | closed k | finished k =>
      rw [hsum _ k]
      simp [Stage.state, Pc.messages]

theorem succ_fits (hv : st.Valid limit) {v : UInt64} (hr : st.state.pc r = .test v) :
    v.toNat + 1 < 2 ^ 64 := by
  cases st with
  | received k =>
      rcases eq_or_eq_peer r (sender k) with rfl | rfl
      · simp [Stage.state] at hr
      · simp only [Stage.state, stateOf_pc_peer, Pc.test.injEq] at hr
        obtain ⟨h1, h2⟩ := toNat_of_lt_total hv
        rw [← hr, h1, ← h2]
        exact UInt64.toNat_lt _
  | sending k | sent k | closing k | closed k | finished k =>
      rcases eq_or_eq_peer r (sender k) with rfl | rfl
      all_goals simp [Stage.state] at hr

/-- The ping-pong pair. At every moment at most one message exists; the values `0`, `1`, ... are
delivered in this order, even ones to `taskB` and odd ones to `taskA`, and no more than
`max limit 1` of them; the successor of a received value fits; somebody can move until both tasks
have returned, and a run is no longer than `3 * max limit 1 + 2`; no send is refused; and when both
have returned all values were delivered, one of the channels was closed, once, and both are empty. -/
theorem ping_pong (h : (system limit).Run tr s) :
    s.messages ≤ 1 ∧
    (deliveries tr).length ≤ total limit ∧
    deliveries tr = exchange (deliveries tr).length ∧
    (∀ r v, s.pc r = .test v → v.toNat + 1 < 2 ^ 64) ∧
    (∀ r, Label.refused r ∉ tr) ∧
    tr.length ≤ 3 * total limit + 2 ∧
    ((∃ r, s.pc r ≠ .returned) → ∃ l s', (system limit).step s l s') ∧
    ((∀ r, s.pc r = .returned) →
      deliveries tr = exchange (total limit) ∧
      ∃ r, closes tr = [r] ∧ (s.channel r).closed = true ∧ (s.channel r.peer).closed = false ∧
        ∀ q, (s.channel q).buffer = []) := by
  obtain ⟨st, hv, rfl, hh⟩ := stage_invariant h
  have hdel : (deliveries tr).length = st.delivered := by
    rw [hh.delivered]
    simp [exchange]
  have hmax : st.delivered ≤ total limit ∧ st.index ≤ 3 * total limit + 2 := by
    cases st
    all_goals
      simp only [Stage.Valid] at hv
      simp only [Stage.delivered, Stage.index]
      omega
  refine ⟨messages_stage st, by omega, ?_, ?_, hh.accepted, ?_, ?_, ?_⟩
  · rw [hdel]
    exact hh.delivered
  · intro r v hr
    exact succ_fits hv hr
  · rw [hh.length]
    exact hmax.2
  · rintro ⟨r, hr⟩
    cases hnext : st.next limit with
    | some n =>
        obtain ⟨r', s', hs'⟩ := exists_step hv hnext
        exact ⟨n.1, s', r', hs'⟩
    | none =>
        cases st <;> simp [Stage.next] at hnext
        rename_i k
        rcases eq_or_eq_peer r (sender k) with rfl | rfl
        all_goals simp [Stage.state] at hr
  · intro hs
    -- only in the last stage both tasks have returned
    cases st with
    | finished k =>
        refine ⟨?_, (sender k).peer, hh.closed, by simp [Stage.state], by simp [Stage.state], ?_⟩
        · rw [hh.delivered, ← show k + 1 = total limit from hv]
          rfl
        · intro q
          rcases eq_or_eq_peer q (sender k) with rfl | rfl
          all_goals simp [Stage.state]
    | sending k | sent k | received k | closing k | closed k =>
        have hsender := hs (sender k)
        simp [Stage.state] at hsender

/-- A pair with limit 2, run to its end. -/
def limitTwo : List Label × State :=
  (System.replay (task 2) initial [.a, .b, .b, .b, .a, .a, .a, .b]).get rfl

/-- `taskB` receives `0`, `taskA` receives `1` and closes its channel, and `taskB` finds it closed. -/
theorem ping_pong_limit_two :
    (system 2).Run limitTwo.1 limitTwo.2 ∧
      limitTwo.1 = [.sent .a 0, .received .b 0, .tested .b, .sent .b 1, .received .a 1, .tested .a,
        .closed .a, .ended .b] ∧
      (∀ r, limitTwo.2.pc r = .returned) ∧ deliveries limitTwo.1 = [(.b, 0), (.a, 1)] ∧
      ∃ r, closes limitTwo.1 = [r] ∧ (limitTwo.2.channel r).closed = true ∧
        (limitTwo.2.channel r.peer).closed = false ∧ ∀ q, (limitTwo.2.channel q).buffer = [] := by
  have h : (system 2).Run limitTwo.1 limitTwo.2 :=
    System.Run.of_replay (T := system 2) (fun _ r _ _ hr => ⟨r, hr⟩) rfl (Option.some_get _).symm
  have hreturned : ∀ r, limitTwo.2.pc r = .returned := by
    intro r
    cases r <;> rfl
  obtain ⟨hdeliveries, hcloses⟩ := (ping_pong h).2.2.2.2.2.2.2 hreturned
  exact ⟨h, rfl, hreturned, hdeliveries, hcloses⟩

end ZioBenchmarks.PingPong
