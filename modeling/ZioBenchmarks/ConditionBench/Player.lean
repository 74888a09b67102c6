import Mathlib.Data.Fin.Basic
import Mathlib.Data.Fintype.Basic
import ZioBenchmarks.Transition.Runs

/-!
# Condition-variable ping-pong

Two players hand a turn to each other through one mutex and one condition. A player assigns `turn`
under the mutex and signals after it unlocked, so a signal can come late, reach nobody, or wake the
peer in a later round. The condition is what its users may rely on: `wait` releases the mutex and
sleeps in one step, a sleeper may wake at any time, it takes the mutex again before `wait` returns,
and a `signal` wakes some of the sleepers, one at least if there is one.
-/

set_option autoImplicit false

namespace ZioBenchmarks.ConditionBench

open ZioBenchmarks.Transition

/-- `me` of a player. -/
abbrev Player := Fin 2

/-- The statement a player executes next, with the number of its assignments to `turn` so far. -/
inductive Pc where
  /-- Head of the loop over the rounds, and the lock. -/
  | loop (k : Nat)
  /-- `while (s.turn != me)`. -/
  | test (k : Nat)
  /-- Call `cond.wait`. -/
  | wait (k : Nat)
  /-- Inside `cond.wait`, asleep. -/
  | asleep (k : Nat)
  /-- Inside `cond.wait`, awake and waiting for the mutex. -/
  | relock (k : Nat)
  /-- `s.turn = 1 - me`. -/
  | assign (k : Nat)
  | unlock (k : Nat)
  | signal (k : Nat)
  | returned
  deriving DecidableEq, Repr

/-- `Shared` and the two players. -/
structure State where
  mutex : Option Player
  turn : Player
  pc : Player → Pc

/-- `p` continues at `c`. -/
def State.goto (s : State) (p : Player) (c : Pc) : State :=
  { s with pc := Function.update s.pc p c }

/-- The player sleeps in `cond.wait`. -/
def Pc.isAsleep : Pc → Bool
  | .asleep _ => true
  | _ => false

/-- A sleeper that was woken wants the mutex. -/
def Pc.woken : Pc → Pc
  | .asleep k => .relock k
  | c => c

/-- Statements executed while holding the mutex. -/
def Pc.critical : Pc → Bool
  | .test _ | .wait _ | .assign _ | .unlock _ => true
  | _ => false

/-- One statement of `player`, `taskPlayer` or `threadPlayer`, except for the signal. -/
def player (rounds : Nat) (s : State) (p : Player) : Option State :=
  match s.pc p with
  | .loop k =>
      if k < rounds then
        if s.mutex = none then some ({ s with mutex := some p }.goto p (.test k)) else none
      else
        some (s.goto p .returned)
  | .test k => if s.turn ≠ p then some (s.goto p (.wait k)) else some (s.goto p (.assign k))
  | .wait k => some ({ s with mutex := none }.goto p (.asleep k))
  | .relock k =>
      if s.mutex = none then some ({ s with mutex := some p }.goto p (.test k)) else none
  | .assign k => some ({ s with turn := 1 - p }.goto p (.unlock (k + 1)))
  | .unlock k => some ({ s with mutex := none }.goto p (.signal k))
  | .asleep _ | .signal _ | .returned => none

/-- What can happen next: a statement of a player, its signal with the players it wakes, or a
spurious wakeup. -/
inductive Act where
  | run (p : Player)
  | signal (p : Player) (woken : Player → Bool)
  | spurious (p : Player)

/-- Effect of an action, if it can happen. -/
def act (rounds : Nat) (s : State) : Act → Option State
  | .run p => player rounds s p
  | .signal p woken =>
      match s.pc p with
      | .signal k =>
          if (∀ q, woken q = true → (s.pc q).isAsleep = true) ∧
              ((∃ q, (s.pc q).isAsleep = true) → ∃ q, woken q = true) then
            some ({ s with pc := fun q => if woken q then (s.pc q).woken else s.pc q }.goto p
              (.loop k))
          else none
      | _ => none
  | .spurious p => if (s.pc p).isAsleep then some (s.goto p (s.pc p).woken) else none

/-- A step as an observer sees it. -/
inductive Label where
  | run (p : Player)
  /-- `p` assigned `turn`. -/
  | assign (p : Player)
  | signal (p : Player)
  | spurious (p : Player)
  deriving DecidableEq, Repr

/-- The label of an action in `s`. -/
def Act.label (s : State) : Act → Label
  | .run p =>
      match s.pc p with
      | .assign _ => .assign p
      | _ => .run p
  | .signal p _ => .signal p
  | .spurious p => .spurious p

/-- The two players in any order of steps. -/
def system (rounds : Nat) : System State Label where
  init s := s = ⟨none, 0, fun _ => .loop 0⟩
  step s l s' := ∃ a, act rounds s a = some s' ∧ l = a.label s

/-- The players that assigned `turn`, in order. -/
def assigns (tr : List Label) : List Player :=
  tr.filterMap fun
    | .assign p => some p
    | _ => none

/-- The assignments a player has made. -/
def Pc.assigned (rounds : Nat) : Pc → Nat
  | .loop k | .test k | .wait k | .asleep k | .relock k | .assign k | .unlock k | .signal k => k
  | .returned => rounds

/-- What a player knows about the turn and the rounds that are left to it. -/
def Pc.Ok (rounds : Nat) (p turn : Player) : Pc → Prop
  | .loop k | .unlock k | .signal k => k ≤ rounds
  | .test k | .asleep k | .relock k => k < rounds
  | .wait k => k < rounds ∧ turn ≠ p
  | .assign k => k < rounds ∧ turn = p
  | .returned => True

/-- The peer has handed the turn over and has not signalled yet. -/
def Pc.signalling : Pc → Bool
  | .unlock _ | .signal _ => true
  | _ => false

@[simp] theorem goto_pc (s : State) (p q : Player) (c : Pc) :
    (s.goto p c).pc q = if q = p then c else s.pc q := Function.update_apply ..

@[simp] theorem goto_mutex (s : State) (p : Player) (c : Pc) : (s.goto p c).mutex = s.mutex := rfl

@[simp] theorem goto_turn (s : State) (p : Player) (c : Pc) : (s.goto p c).turn = s.turn := rfl

@[simp] theorem woken_critical (c : Pc) : c.woken.critical = c.critical := by
  cases c <;> rfl

@[simp] theorem woken_assigned (c : Pc) (n : Nat) : c.woken.assigned n = c.assigned n := by
  cases c <;> rfl

@[simp] theorem woken_signalling (c : Pc) : c.woken.signalling = c.signalling := by
  cases c <;> rfl

@[simp] theorem woken_isAsleep (c : Pc) : c.woken.isAsleep = false := by
  cases c <;> rfl

@[simp] theorem woken_ok {c : Pc} {n : Nat} {p turn : Player} :
    c.woken.Ok n p turn ↔ c.Ok n p turn := by
  cases c <;> rfl

variable {rounds : Nat} {s s' : State} {p q : Player} {tr : List Label} {l : Label}

/-- There is one peer. -/
theorem eq_peer (h : q ≠ p) : q = 1 - p := by
  revert p q
  decide

theorem eq_zero_or_one (p : Player) : p = 0 ∨ p = 1 := by
  revert p
  decide

theorem peer_ne : 1 - p ≠ p := by
  revert p
  decide

/-- The invariant: the players assign in turns, and a sleeper whose turn it is will be signalled. -/
structure Inv (rounds : Nat) (s : State) : Prop where
  exclusive : ∀ p, (s.pc p).critical = true ↔ s.mutex = some p
  ok : ∀ p, (s.pc p).Ok rounds p s.turn
  alternate : (s.pc 0).assigned rounds = (s.pc 1).assigned rounds + s.turn
  signalled : ∀ p, (s.pc p).isAsleep = true → s.turn = p → (s.pc (1 - p)).signalling = true

theorem initial_inv : Inv rounds ⟨none, 0, fun _ => .loop 0⟩ where
  exclusive := by simp [Pc.critical]
  ok := by simp [Pc.Ok]
  alternate := rfl
  signalled := by simp [Pc.isAsleep]

/-- What a statement of a player does. -/
theorem player_cases (h : player rounds s p = some s') :
    (∃ k, s.pc p = .loop k ∧ k < rounds ∧ s.mutex = none ∧
      s' = { s with mutex := some p }.goto p (.test k)) ∨
    (∃ k, s.pc p = .loop k ∧ rounds ≤ k ∧ s' = s.goto p .returned) ∨
    (∃ k, s.pc p = .test k ∧ s.turn ≠ p ∧ s' = s.goto p (.wait k)) ∨
    (∃ k, s.pc p = .test k ∧ s.turn = p ∧ s' = s.goto p (.assign k)) ∨
    (∃ k, s.pc p = .wait k ∧ s' = { s with mutex := none }.goto p (.asleep k)) ∨
    (∃ k, s.pc p = .relock k ∧ s.mutex = none ∧
      s' = { s with mutex := some p }.goto p (.test k)) ∨
    (∃ k, s.pc p = .assign k ∧ s' = { s with turn := 1 - p }.goto p (.unlock (k + 1))) ∨
    ∃ k, s.pc p = .unlock k ∧ s' = { s with mutex := none }.goto p (.signal k) := by
  revert h
  fun_cases player rounds s p
  all_goals simp only [reduceCtorEq, Option.some.injEq, IsEmpty.forall_iff]
  all_goals
    rintro rfl
    simp_all

/-- Outside of the lock a player relies on nothing about the turn. -/
theorem Pc.Ok.of_not_critical {c : Pc} {turn turn' : Player} (h : c.Ok rounds p turn)
    (hc : c.critical = false) : c.Ok rounds p turn' := by
  cases c <;> simp_all [Pc.Ok, Pc.critical]

/-- A player moves on, and takes the mutex or leaves it to others; the turn stays. -/
theorem Inv.move (hi : Inv rounds s) {c : Pc} {m : Option Player}
    (hcritical : c.critical = true ↔ m = some p)
    (hmutex : ∀ q, q ≠ p → (m = some q ↔ s.mutex = some q)) (hok : c.Ok rounds p s.turn)
    (hassigned : c.assigned rounds = (s.pc p).assigned rounds)
    (hasleep : c.isAsleep = true → s.turn ≠ p)
    (hsignalling : (s.pc p).signalling = true → c.signalling = true) :
    Inv rounds ({ s with mutex := m }.goto p c) where
  exclusive q := by
    have hx := hi.exclusive q
    by_cases hq : q = p
    · subst hq
      simpa using hcritical
    · simpa [hq, hmutex q hq] using hx
  ok q := by
    have hq' := hi.ok q
    by_cases hq : q = p
    · subst hq
      simpa using hok
    · simpa [hq] using hq'
  alternate := by
    have hsame : ∀ q, (({ s with mutex := m }.goto p c).pc q).assigned rounds =
        (s.pc q).assigned rounds := by
      intro q
      by_cases hq : q = p
      · subst hq
        simpa using hassigned
      · simp [hq]
    rw [hsame, hsame]
    exact hi.alternate
  -- nobody falls asleep in its own turn, and who is to wake a sleeper still is
  signalled q hq ht := by
    rw [goto_turn] at ht
    by_cases hqp : q = p
    · subst hqp
      rw [goto_pc, if_pos rfl] at hq
      exact absurd ht (hasleep hq)
    · rw [goto_pc, if_neg hqp] at hq
      have hsig := hi.signalled q hq ht
      have hpeer : p = 1 - q := eq_peer (Ne.symm hqp)
      rw [← hpeer] at hsig ⊢
      rw [goto_pc, if_pos rfl]
      exact hsignalling hsig

/-- A player hands the turn over. It holds the mutex, so the peer relies on nothing about the turn;
and it will signal, so the peer may be asleep. -/
theorem Inv.assign (hi : Inv rounds s) {k : Nat} (hk : s.pc p = .assign k) :
    Inv rounds ({ s with turn := 1 - p }.goto p (.unlock (k + 1))) where
  exclusive q := by
    have hx := hi.exclusive q
    by_cases hq : q = p
    · subst hq
      rw [hk] at hx
      simpa [Pc.critical] using hx
    · simpa [hq] using hx
  ok q := by
    have hok := hi.ok p
    rw [hk] at hok
    by_cases hq : q = p
    · subst hq
      rw [goto_pc, if_pos rfl]
      exact hok.1
    · have hmutex := (hi.exclusive p).1 (by rw [hk]; rfl)
      have hc : (s.pc q).critical = false := by
        rw [Bool.eq_false_iff, ne_eq, hi.exclusive q, hmutex, Option.some.injEq]
        exact Ne.symm hq
      simpa [hq] using (hi.ok q).of_not_critical hc
  alternate := by
    have halt := hi.alternate
    have hok := hi.ok p
    rw [hk] at hok
    rcases eq_zero_or_one p with rfl | rfl
    · rw [hk, hok.2] at halt
      simp only [Pc.assigned, Fin.val_zero, Nat.add_zero] at halt
      simp [Pc.assigned, halt]
    · rw [hk, hok.2] at halt
      simp only [Pc.assigned] at halt
      simp [Pc.assigned, halt]
  signalled q hq ht := by
    obtain rfl : 1 - p = q := ht
    have hpeer : 1 - (1 - p) = p := (eq_peer (Ne.symm peer_ne)).symm
    rw [hpeer, goto_pc, if_pos rfl]
    rfl

theorem player_inv (hi : Inv rounds s) (h : player rounds s p = some s') : Inv rounds s' := by
  have hx := hi.exclusive p
  have hok := hi.ok p
  rcases player_cases h with ⟨k, hk, hlt, hm, rfl⟩ | ⟨k, hk, hle, rfl⟩ | ⟨k, hk, ht, rfl⟩ |
    ⟨k, hk, ht, rfl⟩ | ⟨k, hk, rfl⟩ | ⟨k, hk, hm, rfl⟩ | ⟨k, hk, rfl⟩ | ⟨k, hk, rfl⟩
  all_goals
    rw [hk] at hx hok
  · -- the lock
    refine hi.move (iff_of_true rfl rfl) (fun q hq => ?_) hlt (by rw [hk]; rfl) nofun
      (by rw [hk]; exact nofun)
    simp [hm, Ne.symm hq]
  · -- behind the last round
    refine hi.move hx (fun _ _ => Iff.rfl) trivial ?_ nofun (by rw [hk]; exact nofun)
    rw [hk]
    exact Nat.le_antisymm hle hok
  · exact hi.move hx (fun _ _ => Iff.rfl) ⟨hok, ht⟩ (by rw [hk]; rfl) nofun
      (by rw [hk]; exact nofun)
  · exact hi.move hx (fun _ _ => Iff.rfl) ⟨hok, ht⟩ (by rw [hk]; rfl) nofun
      (by rw [hk]; exact nofun)
  · -- the mutex is released, and it is not the turn of the player that falls asleep
    refine hi.move (by simp [Pc.critical]) (fun q hq => ?_) hok.1 (by rw [hk]; rfl)
      (fun _ => hok.2) (by rw [hk]; exact nofun)
    simp [hx.1 rfl, Ne.symm hq]
  · refine hi.move (iff_of_true rfl rfl) (fun q hq => ?_) hok (by rw [hk]; rfl) nofun
      (by rw [hk]; exact nofun)
    simp [hm, Ne.symm hq]
  · exact hi.assign hk
  · -- the unlock comes before the signal
    refine hi.move (by simp [Pc.critical]) (fun q hq => ?_) hok (by rw [hk]; rfl) nofun
      (fun _ => rfl)
    simp [hx.1 rfl, Ne.symm hq]

/-- The state with some of the sleepers awake. -/
def State.wake (s : State) (woken : Player → Bool) : State :=
  { s with pc := fun q => if woken q then (s.pc q).woken else s.pc q }

/-- A wakeup changes nothing that the invariant reads, but for the sleep itself. -/
theorem wake_inv (hi : Inv rounds s) (woken : Player → Bool) : Inv rounds (s.wake woken) where
  exclusive q := by
    have hx := hi.exclusive q
    simp only [State.wake]
    split
    · rwa [woken_critical]
    · exact hx
  ok q := by
    have hok := hi.ok q
    simp only [State.wake]
    split
    · rwa [woken_ok]
    · exact hok
  alternate := by
    have hassigned : ∀ q, ((s.wake woken).pc q).assigned rounds = (s.pc q).assigned rounds := by
      intro q
      simp only [State.wake]
      split <;> simp
    rw [hassigned, hassigned]
    exact hi.alternate
  -- a player that is still asleep was not woken, and `wake` moves nobody who signals
  signalled q hq ht := by
    have hasleep : (s.pc q).isAsleep = true := by
      simp only [State.wake] at hq
      split at hq
      · simp at hq
      · exact hq
    have hsig := hi.signalled q hasleep ht
    simp only [State.wake]
    split <;> simpa using hsig

/-- A player that has signalled goes on to its next round; no sleeper waits for its signal. -/
theorem signal_inv {k : Nat} (hi : Inv rounds s) (hk : s.pc p = .signal k)
    (hawake : ∀ q, (s.pc q).isAsleep = false) : Inv rounds (s.goto p (.loop k)) where
  exclusive q := by
    have hx := hi.exclusive q
    by_cases hq : q = p
    · subst hq
      rw [hk] at hx
      simpa [Pc.critical] using hx
    · simpa [hq] using hx
  ok q := by
    have hok := hi.ok q
    by_cases hq : q = p
    · subst hq
      rw [hk] at hok
      simpa [Pc.Ok] using hok
    · simpa [hq] using hok
  alternate := by
    have hassigned : ∀ q,
        ((s.goto p (.loop k)).pc q).assigned rounds = (s.pc q).assigned rounds := by
      intro q
      by_cases hq : q = p
      · subst hq
        simp [hk, Pc.assigned]
      · simp [hq]
    rw [hassigned, hassigned]
    exact hi.alternate
  -- nobody is asleep behind a signal: it woke the only player it can have found
  signalled q hq := by
    by_cases hqp : q = p
    · simp [hqp, Pc.isAsleep] at hq
    · rw [goto_pc, if_neg hqp, hawake q] at hq
      simp at hq

/-- With two players a signal wakes every sleeper. -/
theorem awake_of_signal {k : Nat} {woken : Player → Bool} (hk : s.pc p = .signal k)
    (hsleepers : ∀ q, woken q = true → (s.pc q).isAsleep = true)
    (hsome : (∃ q, (s.pc q).isAsleep = true) → ∃ q, woken q = true) (q : Player) :
    ((s.wake woken).pc q).isAsleep = false := by
  have hp : (s.pc p).isAsleep = false := by rw [hk]; rfl
  by_cases hq : (s.pc q).isAsleep = true
  · have hqp : q = 1 - p := eq_peer (by rintro rfl; simp [hp] at hq)
    obtain ⟨w, hw⟩ := hsome ⟨q, hq⟩
    have hwp : w = 1 - p := by
      apply eq_peer
      rintro rfl
      rw [hsleepers w hw] at hp
      cases hp
    simp [State.wake, hqp, ← hwp, hw]
  · simp only [State.wake]
    split
    · simp
    · simpa using hq

theorem act_inv {a : Act} (hi : Inv rounds s) (h : act rounds s a = some s') : Inv rounds s' := by
  cases a with
  | run p => exact player_inv hi h
  | signal p woken =>
      simp only [act] at h
      split at h
      case h_1 k hk =>
        split at h
        case isTrue hw =>
          obtain rfl := Option.some.inj h
          have hawake := awake_of_signal hk hw.1 hw.2
          -- the signalling player itself is awake, so `wake` leaves it where it is
          have hk' : (s.wake woken).pc p = .signal k := by
            simp only [State.wake, hk, Pc.woken, ite_self]
          exact signal_inv (wake_inv hi woken) hk' hawake
        case isFalse => simp at h
      case h_2 => simp at h
  | spurious p =>
      simp only [act] at h
      split at h
      case isTrue =>
        obtain rfl := Option.some.inj h
        -- a spurious wakeup is a signal that wakes this one player and is sent by nobody
        have hwake : s.goto p (s.pc p).woken = s.wake (· = p) := by
          simp only [State.goto, State.wake, decide_eq_true_eq]
          congr
          funext q
          by_cases hq : q = p
          · simp [hq]
          · simp [hq]
        rw [hwake]
        exact wake_inv hi _
      case isFalse => simp at h

theorem reachable_inv (h : (system rounds).Reachable s) : Inv rounds s := by
  refine h.invariant ?_ ?_
  · rintro _ rfl
    exact initial_inv
  · rintro s l s' hi ⟨a, ha, rfl⟩
    exact act_inv hi ha

/-! ## The order of the assignments -/

/-- The first `n` players of the alternation. -/
def alternation (n : Nat) : List Player := (List.range n).map fun k => Fin.ofNat 2 k

theorem alternation_succ (n : Nat) : alternation (n + 1) = alternation n ++ [Fin.ofNat 2 n] := by
  simp [alternation, List.range_succ]

/-- Each player counts its own assignments. -/
theorem step_assigned {a : Act} (hi : Inv rounds s) (h : act rounds s a = some s') (q : Player) :
    (s'.pc q).assigned rounds =
      (s.pc q).assigned rounds + (assigns [a.label s]).count q := by
  have hok := hi.ok q
  cases a with
  | run p =>
      by_cases hq : q = p
      · subst hq
        rcases player_cases h with ⟨k, hk, hlt, hm, rfl⟩ | ⟨k, hk, hle, rfl⟩ | ⟨k, hk, ht, rfl⟩ |
          ⟨k, hk, ht, rfl⟩ | ⟨k, hk, rfl⟩ | ⟨k, hk, hm, rfl⟩ | ⟨k, hk, rfl⟩ | ⟨k, hk, rfl⟩
        all_goals
          simp only [hk, Pc.Ok] at hok
          simp [Act.label, assigns, hk, Pc.assigned]
        omega
      -- an assignment of the other player is not counted, and its step does not move `q`
      · have hlabel : (assigns [(Act.run p).label s]).count q = 0 := by
          simp only [Act.label]
          split <;> simp [assigns, Ne.symm hq]
        have hpc : s'.pc q = s.pc q := by
          rcases player_cases h with ⟨k, hk, hlt, hm, rfl⟩ | ⟨k, hk, hle, rfl⟩ | ⟨k, hk, ht, rfl⟩ |
            ⟨k, hk, ht, rfl⟩ | ⟨k, hk, rfl⟩ | ⟨k, hk, hm, rfl⟩ | ⟨k, hk, rfl⟩ | ⟨k, hk, rfl⟩
          all_goals simp [hq]
        rw [hpc, hlabel, Nat.add_zero]
  | signal p woken =>
      simp only [act] at h
      split at h
      case h_1 k hk =>
        split at h
        case isTrue =>
          obtain rfl := Option.some.inj h
          by_cases hq : q = p
          · simp [hq, hk, Act.label, assigns, Pc.assigned]
          · simp only [goto_pc, if_neg hq]
            split <;> simp [Act.label, assigns]
        case isFalse => simp at h
      case h_2 => simp at h
  | spurious p =>
      simp only [act] at h
      split at h
      case isTrue =>
        obtain rfl := Option.some.inj h
        by_cases hq : q = p
        · simp [hq, Act.label, assigns]
        · simp [hq, Act.label, assigns]
      case isFalse => simp at h

theorem assigned_invariant (h : (system rounds).Run tr s) (q : Player) :
    (assigns tr).count q = (s.pc q).assigned rounds := by
  refine System.Run.invariant
    (I := fun tr s => (assigns tr).count q = (s.pc q).assigned rounds) ?_ ?_ h
  · rintro _ rfl
    rfl
  · rintro tr s l s' hr hi ⟨a, ha, rfl⟩
    rw [step_assigned (reachable_inv hr.reachable) ha q, ← hi]
    simp [assigns, List.filterMap_append]

/-- The turn is the parity of the number of assignments. -/
theorem turn_eq (h : (system rounds).Run tr s) : s.turn = Fin.ofNat 2 (assigns tr).length := by
  have hcount : ∀ l : List Player, l.length = l.count 0 + l.count 1 := by
    intro l
    induction l with
    | nil => rfl
    | cons p l ih =>
        rcases eq_zero_or_one p with rfl | rfl
        all_goals
          simp
          omega
  have halt := (reachable_inv h.reachable).alternate
  rw [← assigned_invariant h, ← assigned_invariant h] at halt
  apply Fin.ext
  have hlt := s.turn.isLt
  simp only [Fin.ofNat, hcount]
  omega

/-- Only the player whose turn it is assigns. -/
theorem assigns_label (hi : Inv rounds s) (a : Act) :
    assigns [a.label s] = [] ∨ assigns [a.label s] = [s.turn] := by
  cases a with
  | run p =>
      have hok := hi.ok p
      cases hk : s.pc p
      case assign k =>
        rw [hk] at hok
        right
        simp [Act.label, hk, assigns, hok.2]
      all_goals
        left
        simp [Act.label, hk, assigns]
  | signal p woken => exact .inl rfl
  | spurious p => exact .inl rfl

theorem assigns_eq (h : (system rounds).Run tr s) :
    assigns tr = alternation (assigns tr).length := by
  refine System.Run.invariant (I := fun tr _ => assigns tr = alternation (assigns tr).length)
    ?_ ?_ h
  · rintro _ rfl
    rfl
  · rintro tr s l s' hr hi ⟨a, ha, rfl⟩
    have happend : assigns (tr ++ [a.label s]) = assigns tr ++ assigns [a.label s] := by
      simp [assigns, List.filterMap_append]
    rw [happend]
    rcases assigns_label (reachable_inv hr.reachable) a with hl | hl
    · rw [hl, List.append_nil]
      exact hi
    · rw [hl, List.length_append, List.length_singleton, alternation_succ, ← hi, turn_eq hr]

/-! ## No lost wakeup -/

/-- A step that the code takes by itself: not a spurious wakeup. -/
def Label.own : Label → Bool
  | .spurious _ => false
  | _ => true

/-- A signal can always be sent, to all sleepers at once. -/
theorem exists_signal {k : Nat} (hk : s.pc p = .signal k) :
    ∃ l s', (system rounds).step s l s' ∧ l.own = true := by
  refine ⟨.signal p, (s.wake fun q => (s.pc q).isAsleep).goto p (.loop k),
    ⟨.signal p fun q => (s.pc q).isAsleep, ?_, rfl⟩, rfl⟩
  simp only [act, hk]
  rw [if_pos ⟨fun q hq => hq, fun h => h⟩]
  rfl

theorem exists_run (h : ∃ s', player rounds s p = some s') :
    ∃ l s', (system rounds).step s l s' ∧ l.own = true := by
  obtain ⟨s', hs⟩ := h
  refine ⟨(Act.run p).label s, s', ⟨.run p, hs, rfl⟩, ?_⟩
  simp only [Act.label]
  split <;> rfl

/-- A player that sleeps through its turn, or whose turn will not come any more, does not exist. -/
theorem exists_step (hi : Inv rounds s) (hs : ∃ p, s.pc p ≠ .returned) :
    ∃ l s', (system rounds).step s l s' ∧ l.own = true := by
  have hinside : ∀ p, (s.pc p).critical = true → ∃ s', player rounds s p = some s' := by
    intro p hp
    cases hk : s.pc p <;> simp_all [player, Pc.critical]
    split <;> simp
  cases hm : s.mutex with
  | some p => exact exists_run (hinside p ((hi.exclusive p).2 hm))
  | none =>
      by_contra hstuck
      -- with the mutex free, a player that cannot move sleeps or has returned
      have hpc : ∀ p, (∃ k, s.pc p = .asleep k) ∨ s.pc p = .returned := by
        intro p
        by_contra hp
        apply hstuck
        cases hk : s.pc p
        case signal k => exact exists_signal hk
        case asleep k => exact absurd (.inl ⟨k, hk⟩) hp
        case returned => exact absurd (.inr hk) hp
        case loop k =>
          apply exists_run (p := p)
          by_cases hlt : k < rounds
          · simp [player, hk, hlt, hm]
          · simp [player, hk, hlt]
        case relock k => exact exists_run (p := p) (by simp [player, hk, hm])
        all_goals exact exists_run (hinside p (by simp [hk, Pc.critical]))
      have hquiet : ∀ p, (s.pc p).signalling = false := by
        intro p
        rcases hpc p with ⟨k, hk⟩ | hk <;> simp [hk, Pc.signalling]
      have hasleep : ∀ p, s.turn = p → (s.pc p).isAsleep = false := by
        intro p ht
        by_contra hp
        have hsig := hi.signalled p (by simpa using hp) ht
        simp [hquiet] at hsig
      obtain ⟨p, hp⟩ := hs
      obtain ⟨k, hk⟩ := (hpc p).resolve_right hp
      have hlt : k < rounds := by
        have hok := hi.ok p
        rwa [hk] at hok
      have hturn : s.turn ≠ p := by
        intro ht
        have hawake := hasleep p ht
        simp [hk, Pc.isAsleep] at hawake
      -- it is the turn of the peer, who has returned, and so has made all its assignments
      have hpeer : s.pc s.turn = .returned := by
        rcases hpc s.turn with ⟨k', hk'⟩ | hk'
        · have hawake := hasleep s.turn rfl
          simp [hk', Pc.isAsleep] at hawake
        · exact hk'
      have halt := hi.alternate
      rcases eq_zero_or_one p with rfl | rfl
      · have ht : s.turn = 1 := eq_peer hturn
        rw [ht] at hpeer halt
        rw [hk, hpeer] at halt
        simp only [Pc.assigned] at halt
        omega
      · have ht : s.turn = 0 := eq_peer hturn
        rw [ht] at hpeer halt
        rw [hk, hpeer] at halt
        simp only [Pc.assigned, Fin.val_zero] at halt
        omega

/-! ## How long a run is -/

/-- What a player has still to do before it returns or sleeps; a signaller has to wake its peer. -/
def Pc.rank (rounds : Nat) : Pc → Nat
  | .asleep k => 8 * (rounds - k)
  | .wait k | .assign k => 8 * (rounds - k) + 1
  | .test k => 8 * (rounds - k) + 2
  | .loop k | .relock k => 8 * (rounds - k) + 3
  | .signal k => 8 * (rounds - k) + 7
  | .unlock k => 8 * (rounds - k) + 8
  | .returned => 0

def State.rank (rounds : Nat) (s : State) : Nat := (s.pc 0).rank rounds + (s.pc 1).rank rounds

/-- A woken player has to take the mutex and to look at the turn again. -/
theorem woken_rank (c : Pc) : c.woken.rank rounds ≤ c.rank rounds + 3 := by
  cases c <;> simp [Pc.woken, Pc.rank]

theorem rank_eq (p : Player) :
    s.rank rounds = (s.pc p).rank rounds + (s.pc (1 - p)).rank rounds := by
  rcases eq_zero_or_one p with rfl | rfl
  · rfl
  · exact Nat.add_comm _ _

theorem player_rank (hi : Inv rounds s) (h : player rounds s p = some s') :
    s'.rank rounds < s.rank rounds := by
  have hok := hi.ok p
  rw [rank_eq p, rank_eq p]
  rcases player_cases h with ⟨k, hk, hlt, hm, rfl⟩ | ⟨k, hk, hle, rfl⟩ | ⟨k, hk, ht, rfl⟩ |
    ⟨k, hk, ht, rfl⟩ | ⟨k, hk, rfl⟩ | ⟨k, hk, hm, rfl⟩ | ⟨k, hk, rfl⟩ | ⟨k, hk, rfl⟩
  all_goals
    rw [hk] at hok
    simp only [goto_pc, if_true, if_neg peer_ne, hk, Pc.rank]
  -- only an assignment needs that there is a round left
  case inr.inr.inr.inr.inr.inr.inl =>
    have hlt := hok.1
    omega
  all_goals omega

/-- A step of the code brings the end nearer. -/
theorem step_rank (h : (system rounds).Reachable s) (hstep : (system rounds).step s l s')
    (hl : l.own = true) : s'.rank rounds < s.rank rounds := by
  obtain ⟨a, ha, rfl⟩ := hstep
  cases a with
  | run p => exact player_rank (reachable_inv h) ha
  | signal p woken =>
      simp only [act] at ha
      split at ha
      case h_1 k hk =>
        split at ha
        case isTrue =>
          obtain rfl := Option.some.inj ha
          -- the signal costs more than what the peer has to do if it wakes
          have hle := @woken_rank rounds (s.pc (1 - p))
          rw [rank_eq p, rank_eq p, goto_pc, goto_pc, if_pos rfl, if_neg peer_ne, hk, Pc.rank,
            Pc.rank]
          dsimp only
          split <;> omega
        case isFalse => cases ha
      case h_2 => cases ha
  | spurious p => cases hl

/-- A spurious wakeup costs three steps. -/
theorem spurious_rank (hstep : (system rounds).step s l s') (hl : l.own = false) :
    s'.rank rounds ≤ s.rank rounds + 3 := by
  obtain ⟨a, ha, rfl⟩ := hstep
  cases a with
  | run p =>
      simp only [Act.label] at hl
      split at hl <;> cases hl
  | signal p woken => cases hl
  | spurious p =>
      simp only [act] at ha
      split at ha
      case isTrue =>
        obtain rfl := Option.some.inj ha
        have hle := @woken_rank rounds (s.pc p)
        rw [rank_eq p, rank_eq p, goto_pc, goto_pc, if_pos rfl, if_neg peer_ne]
        omega
      case isFalse => cases ha

/-- A run has at most sixteen steps of the code for a round, and three for a spurious wakeup. -/
theorem run_own_length (h : (system rounds).Run tr s) :
    tr.countP Label.own ≤ 16 * rounds + 6 + 3 * tr.countP fun l => !l.own := by
  obtain ⟨a, rfl, hp⟩ := h
  have hle := hp.countP_le (μ := State.rank rounds) Label.own
    (fun _ _ _ hr hs hl => step_rank hr hs hl) (fun _ _ _ _ hs hl => spurious_rank hs hl)
    (System.Run.nil rfl).reachable
  have hrank : State.rank rounds ⟨none, 0, fun _ => .loop 0⟩ = 16 * rounds + 6 := by
    simp only [State.rank, Pc.rank]
    omega
  omega

/-- From every state of a run both players can return without any spurious wakeup. -/
theorem exists_returned (h : (system rounds).Run tr s) :
    ∃ us s', (system rounds).Path s us s' ∧ (∀ l ∈ us, l.own = true) ∧ ∀ p, s'.pc p = .returned := by
  refine System.Reachable.exists_final_own (μ := State.rank rounds) Label.own
    (fun _ _ _ hr hs hl => step_rank hr hs hl) ?_ h.reachable
  intro t ht hrun
  exact exists_step (reachable_inv ht) (not_forall.1 hrun)

/-- The condition-variable ping-pong: the `k`-th assignment to `turn` is made by player `k mod 2`;
somebody can move until both players have returned; a run has at most sixteen steps of the code for a
round and three for a spurious wakeup, and from each of its states both players can return without
one; and when they have, each has made `rounds` assignments. -/
theorem strictly_alternates (h : (system rounds).Run tr s) :
    (∀ (k : Nat) (p : Player), (assigns tr)[k]? = some p → (p : Nat) = k % 2) ∧
      ((∃ p, s.pc p ≠ .returned) → ∃ l s', (system rounds).step s l s' ∧ l.own = true) ∧
      (tr.countP Label.own ≤ 16 * rounds + 6 + 3 * tr.countP fun l => !l.own) ∧
      (∃ us s', (system rounds).Path s us s' ∧ (∀ l ∈ us, l.own = true) ∧
        ∀ p, s'.pc p = .returned) ∧
      ((∀ p, s.pc p = .returned) → ∀ p, (assigns tr).count p = rounds) := by
  refine ⟨fun k p hk => ?_, exists_step (reachable_inv h.reachable), run_own_length h,
    exists_returned h, fun hs p => ?_⟩
  · rw [assigns_eq h] at hk
    simp only [alternation, List.getElem?_map, Option.map_eq_some_iff] at hk
    obtain ⟨n, hn, rfl⟩ := hk
    obtain ⟨-, rfl⟩ := List.getElem?_eq_some_iff.1 hn
    simp
  · rw [assigned_invariant h, hs p]
    rfl

/-- Player 1 is the first to take the mutex, goes to sleep, wakes too early, and sleeps again; from
then on each of the two sleeps until the other one signals. -/
def twoRounds : List Label × State :=
  (System.replay (System.labelled (act 2) fun s a _ => a.label s) ⟨none, 0, fun _ => .loop 0⟩
    [.run 1, .run 1, .run 1, .spurious 1, .run 1, .run 1, .run 1,
      .run 0, .run 0, .run 0, .run 0, .signal 0 (· = 1), .run 0, .run 0, .run 0,
      .run 1, .run 1, .run 1, .run 1, .signal 1 (· = 0), .run 1, .run 1, .run 1,
      .run 0, .run 0, .run 0, .run 0, .signal 0 (· = 1), .run 0,
      .run 1, .run 1, .run 1, .run 1, .signal 1 fun _ => false, .run 1]).get rfl

/-- Both players return, and have assigned twice each. -/
theorem strictly_alternates_twoRounds :
    (system 2).Run twoRounds.1 twoRounds.2 ∧ (∀ p, twoRounds.2.pc p = .returned) ∧
      assigns twoRounds.1 = [0, 1, 0, 1] ∧ ∀ p, (assigns twoRounds.1).count p = 2 := by
  have h : (system 2).Run twoRounds.1 twoRounds.2 :=
    System.Run.of_labelled (T := system 2) (fun _ a _ ha => ⟨a, ha, rfl⟩) rfl
      (Option.some_get _).symm
  have hreturned : ∀ p, twoRounds.2.pc p = .returned := by decide
  exact ⟨h, hreturned, rfl, (strictly_alternates h).2.2.2.2 hreturned⟩

end ZioBenchmarks.ConditionBench
