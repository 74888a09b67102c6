import ZioBenchmarks.Fold.Update
import ZioBenchmarks.Transition.Runs

/-!
# The task chain

`link` of `task_chain.zig`: every link starts the next one in the group of `main` and returns at
once, so that the group is joined by tasks that are not its first one. `async` makes a task of the
group, or, if the backend prefers, a call inside of its caller. The links are named by their `n`,
and `main` stands above the first of them.
-/

set_option autoImplicit false

namespace ZioBenchmarks.TaskChain

open ZioBenchmarks.Transition

/-- The statement a call executes next. -/
inductive Pc where
  /-- Not called yet. -/
  | idle
  /-- `if (n == 0) return`. -/
  | entry
  /-- `group.async(io, link, ...)`. -/
  | async
  /-- Inside of an `async` that runs the call itself. -/
  | call
  /-- `try group.await(io)`, of `main` only. -/
  | await
  /-- The end of a link. -/
  | leave
  | returned
  deriving DecidableEq, Repr

structure Frame where
  pc : Pc
  /-- Started as a task of the group. -/
  spawned : Bool
  deriving DecidableEq, Repr

/-- The links of a chain of `length`, `main` as number `length + 1`, and the number of tasks that
the group waits for. -/
structure State where
  frame : Nat → Frame
  pending : Nat

inductive Label where
  | called (n : Nat) (spawned : Bool)
  | entered (n : Nat)
  | awaited
  | returned (n : Nat)
  deriving DecidableEq, Repr

/-- `n` continues as `f`. -/
def State.set (s : State) (n : Nat) (f : Frame) : State :=
  { s with frame := Function.update s.frame n f }

variable (length : Nat)

/-- The statement behind `async`. -/
def after (n : Nat) : Pc := if n = length + 1 then .await else .leave

/-- The end of a link: a task leaves the group, an inline call goes back to its caller. -/
def finish (s : State) (n : Nat) : State :=
  if (s.frame n).spawned then { s.set n ⟨.returned, true⟩ with pending := s.pending - 1 }
  else (s.set n ⟨.returned, false⟩).set (n + 1) { s.frame (n + 1) with pc := after length (n + 1) }

/-- One statement of `n`. The backend decides whether `async` makes a task. -/
def step (s : State) (n : Nat) (granted : Bool) : Option (Label × State) :=
  match (s.frame n).pc with
  | .idle | .call | .returned => none
  | .entry =>
      some (.entered n, s.set n { s.frame n with pc := if n = 0 then .leave else .async })
  | .async =>
      some (.called (n - 1) granted,
        if granted then
          { (s.set (n - 1) ⟨.entry, true⟩).set n { s.frame n with pc := after length n } with
            pending := s.pending + 1 }
        else (s.set (n - 1) ⟨.entry, false⟩).set n { s.frame n with pc := .call })
  | .await =>
      if s.pending = 0 then some (.awaited, s.set n { s.frame n with pc := .returned }) else none
  | .leave => some (.returned n, finish length s n)

/-- `main` is about to start the first link. -/
def initial : State := State.set ⟨fun _ => ⟨.idle, false⟩, 0⟩ (length + 1) ⟨.async, false⟩

/-- All tasks in any order, with any answers of the backend. -/
def system : System State Label where
  init s := s = initial length
  step s l s' := ∃ n granted, step length s n granted = some (l, s')

def calls (tr : List Label) : List Nat :=
  tr.filterMap fun
    | .called n _ => some n
    | _ => none

def entries (tr : List Label) : List Nat :=
  tr.filterMap fun
    | .entered n => some n
    | _ => none

/-- The links from the first one, `length`, to `c`. -/
def links (c : Nat) : List Nat := (List.range' c (length + 1 - c)).reverse

/-! ## The invariant -/

/-- Called, and not returned yet. -/
def Frame.Live (f : Frame) : Prop := f.pc ≠ .idle ∧ f.pc ≠ .returned

/-- A task that the group waits for. -/
def Frame.busy (f : Frame) : Nat :=
  match f.pc with
  | .idle | .returned => 0
  | .entry | .async | .call | .await | .leave => if f.spawned then 1 else 0

/-- The steps that are left of a call. -/
def Pc.rank : Pc → Nat
  | .idle => 4
  | .entry => 3
  | .async => 2
  | .call | .await | .leave => 1
  | .returned => 0

/-- What the next link can be, by the statement its caller executes next. -/
def Shape (pc : Pc) (child : Frame) : Prop :=
  match pc with
  | .idle | .entry | .async => child.pc = .idle
  | .call => child.spawned = false ∧ child.Live
  | .await | .leave | .returned => child.pc = .returned ∨ (child.spawned = true ∧ child.Live)

structure Inv (s : State) : Prop where
  above : ∀ n, length + 1 < n → (s.frame n).pc = .idle
  main : (s.frame (length + 1)).pc ≠ .idle ∧ (s.frame (length + 1)).pc ≠ .entry ∧
    (s.frame (length + 1)).pc ≠ .leave ∧ (s.frame (length + 1)).spawned = false
  link : ∀ n, n ≤ length → (s.frame n).pc ≠ .await
  last : (s.frame 0).pc ≠ .async ∧ (s.frame 0).pc ≠ .call
  shape : ∀ n, n ≤ length → Shape (s.frame (n + 1)).pc (s.frame n)
  pending : s.pending = ∑ n ∈ Finset.range (length + 2), (s.frame n).busy
  joined : (s.frame (length + 1)).pc = .returned → ∀ n, n ≤ length → (s.frame n).pc = .returned

variable {length} {s s' : State} {l : Label} {tr : List Label} {n m : Nat} {granted : Bool}
  {f g : Frame}

@[simp] theorem set_frame_self (s : State) (n : Nat) (f : Frame) : (s.set n f).frame n = f :=
  Function.update_self ..

theorem set_frame_of_ne (s : State) (f : Frame) (h : m ≠ n) : (s.set n f).frame m = s.frame m :=
  Function.update_of_ne h ..

@[simp] theorem set_pending (s : State) (n : Nat) (f : Frame) : (s.set n f).pending = s.pending :=
  rfl

/-- What one statement does. -/
theorem step_cases (h : step length s n granted = some (l, s')) :
    ((s.frame n).pc = .entry ∧ l = .entered n ∧
      s' = s.set n { s.frame n with pc := if n = 0 then .leave else .async }) ∨
    ((s.frame n).pc = .async ∧ l = .called (n - 1) granted ∧
      s' = if granted then
          { (s.set (n - 1) ⟨.entry, true⟩).set n { s.frame n with pc := after length n } with
            pending := s.pending + 1 }
        else (s.set (n - 1) ⟨.entry, false⟩).set n { s.frame n with pc := .call }) ∨
    ((s.frame n).pc = .await ∧ s.pending = 0 ∧ l = .awaited ∧
      s' = s.set n { s.frame n with pc := .returned }) ∨
    ((s.frame n).pc = .leave ∧ l = .returned n ∧ s' = finish length s n) := by
  unfold step at h
  cases hpc : (s.frame n).pc with
  | idle | call | returned => simp [hpc] at h
  | entry =>
      simp only [hpc, Option.some.injEq, Prod.mk.injEq] at h
      exact .inl ⟨rfl, h.1.symm, h.2.symm⟩
  | async =>
      simp only [hpc, Option.some.injEq, Prod.mk.injEq] at h
      exact .inr (.inl ⟨rfl, h.1.symm, h.2.symm⟩)
  | await =>
      simp only [hpc] at h
      by_cases hp : s.pending = 0
      · rw [if_pos hp] at h
        simp only [Option.some.injEq, Prod.mk.injEq] at h
        exact .inr (.inr (.inl ⟨rfl, hp, h.1.symm, h.2.symm⟩))
      · rw [if_neg hp] at h
        cases h
  | leave =>
      simp only [hpc, Option.some.injEq, Prod.mk.injEq] at h
      exact .inr (.inr (.inr ⟨rfl, h.1.symm, h.2.symm⟩))

theorem initial_frame (h : n ≠ length + 1) : (initial length).frame n = ⟨.idle, false⟩ :=
  set_frame_of_ne _ _ h

@[simp] theorem initial_main : (initial length).frame (length + 1) = ⟨.async, false⟩ :=
  set_frame_self ..

theorem initial_inv : Inv length (initial length) where
  above n hn := by rw [initial_frame (by omega)]
  main := by simp
  link n hn := by simp [initial_frame (show n ≠ length + 1 by omega)]
  last := by simp [initial_frame (show 0 ≠ length + 1 by omega)]
  shape n hn := by
    rw [initial_frame (show n ≠ length + 1 by omega)]
    by_cases hlast : n = length
    · rw [hlast, initial_main]
      rfl
    · rw [initial_frame (by omega)]
      rfl
  pending := by
    have hbusy : ∀ n, ((initial length).frame n).busy = 0 := by
      intro n
      by_cases hn : n = length + 1
      · rw [hn, initial_main]
        rfl
      · rw [initial_frame hn]
        rfl
    rw [Finset.sum_eq_zero fun n _ => hbusy n]
    rfl
  joined h := by simp at h

/-! ## A call and its caller move -/

/-- The link `c` continues as `f` and its caller as `g`. -/
def State.move (s : State) (c : Nat) (f g : Frame) (p : Nat) : State :=
  { (s.set c f).set (c + 1) g with pending := p }

section Move

variable {c p : Nat}

@[simp] theorem move_caller : (s.move c f g p).frame (c + 1) = g := set_frame_self ..

@[simp] theorem move_link : (s.move c f g p).frame c = f :=
  (set_frame_of_ne _ _ (Nat.succ_ne_self c).symm).trans (set_frame_self ..)

theorem move_other (h : m ≠ c) (h' : m ≠ c + 1) : (s.move c f g p).frame m = s.frame m :=
  (set_frame_of_ne _ _ h').trans (set_frame_of_ne _ _ h)

/-- A link moves, and its caller stays. -/
theorem move_self : s.move c f (s.frame (c + 1)) p = { s.set c f with pending := p } := by
  have hframe : Function.update (Function.update s.frame c f) (c + 1) (s.frame (c + 1)) =
      Function.update s.frame c f := by
    rw [← Function.update_of_ne (Nat.succ_ne_self c) f s.frame, Function.update_eq_self]
  unfold State.move State.set
  rw [hframe]

/-- `main` moves, and the first link stays. -/
theorem move_main : s.move c (s.frame c) g p = { s.set (c + 1) g with pending := p } := by
  unfold State.move State.set
  rw [Function.update_eq_self]

end Move

/-- A caller does not see more of a call than whether it is a task and whether it has returned. -/
theorem Shape.congr {pc : Pc} (h : Shape pc f) (hspawned : f.spawned = g.spawned) (hf : f.Live)
    (hg : g.Live) : Shape pc g := by
  cases pc with
  | idle | entry | async => exact absurd h hf.1
  | call => exact ⟨hspawned ▸ h.1, hg⟩
  | await | leave | returned =>
      rcases h with h | h
      · exact absurd h hf.2
      · exact .inr ⟨hspawned ▸ h.1, hg⟩

theorem busy_of_live (h : f.Live) : f.busy = if f.spawned then 1 else 0 := by
  obtain ⟨pc, spawned⟩ := f
  cases pc with
  | idle => exact absurd rfl h.1
  | returned => exact absurd rfl h.2
  | entry | async | call | await | leave => rfl

/-- What a sum over all calls loses and gains. -/
theorem sum_move {c p : Nat} (w : Frame → Nat) (hc : c ≤ length) :
    (∑ n ∈ Finset.range (length + 2), w ((s.move c f g p).frame n)) + w (s.frame c) +
      w (s.frame (c + 1)) = (∑ n ∈ Finset.range (length + 2), w (s.frame n)) + w f + w g := by
  have hsum := Fold.sum_update_mem w s.frame
    (Finset.mem_range.2 (show c < length + 2 by omega)) f
  have hsum' := Fold.sum_update_mem w (Function.update s.frame c f)
    (Finset.mem_range.2 (show c + 1 < length + 2 by omega)) g
  rw [Function.update_of_ne (show c + 1 ≠ c by omega)] at hsum'
  show (∑ n ∈ Finset.range (length + 2),
    w (Function.update (Function.update s.frame c f) (c + 1) g n)) + _ + _ = _
  omega

/-- Moves that fit together keep the invariant. -/
theorem Inv.move {c p : Nat} (hi : Inv length s) (hc : c ≤ length)
    (hrunning : (s.frame (length + 1)).pc ≠ .returned)
    (hmain : c = length → g.pc ≠ .idle ∧ g.pc ≠ .entry ∧ g.pc ≠ .leave ∧ g.spawned = false)
    (hlink : f.pc ≠ .await ∧ (c < length → g.pc ≠ .await))
    (hlast : c = 0 → f.pc ≠ .async ∧ f.pc ≠ .call)
    (hbelow : ∀ m, c = m + 1 → Shape f.pc (s.frame m)) (hpair : Shape g.pc f)
    (habove : c < length → Shape (s.frame (c + 2)).pc g)
    (hpending : p + (s.frame c).busy + (s.frame (c + 1)).busy = s.pending + f.busy + g.busy)
    (hjoined : c = length → g.pc = .returned →
      f.pc = .returned ∧ ∀ n, n < length → (s.frame n).pc = .returned) :
    Inv length (s.move c f g p) := by
  have hself : (s.move c f g p).frame (c + 1) = g := move_caller
  have hchild : (s.move c f g p).frame c = f := move_link
  have hother : ∀ m, m ≠ c → m ≠ c + 1 → (s.move c f g p).frame m = s.frame m :=
    fun m h h' => move_other h h'
  refine ⟨?_, ?_, ?_, ?_, ?_, ?_, ?_⟩
  · intro m hm
    rw [hother m (by omega) (by omega)]
    exact hi.above m hm
  · rcases Nat.eq_or_lt_of_le hc with rfl | hlt
    · rw [hself]
      exact hmain rfl
    · rw [hother _ (by omega) (by omega)]
      exact hi.main
  · intro m hm
    by_cases hmc : m = c
    · rw [hmc, hchild]
      exact hlink.1
    · by_cases hmc' : m = c + 1
      · rw [hmc', hself]
        exact hlink.2 (by omega)
      · rw [hother m hmc hmc']
        exact hi.link m hm
  · by_cases hc0 : c = 0
    · subst hc0
      rw [hchild]
      exact hlast rfl
    · rw [hother 0 (Ne.symm hc0) (by omega)]
      exact hi.last
  · intro m hm
    by_cases hmc : m = c
    · rw [hmc, hchild, hself]
      exact hpair
    · by_cases hmc' : m = c + 1
      · rw [hmc', hself, hother (c + 1 + 1) (by omega) (by omega)]
        exact habove (by omega)
      · rw [hother m hmc hmc']
        by_cases hmc'' : m + 1 = c
        · rw [hmc'', hchild]
          exact hbelow m hmc''.symm
        · rw [hother (m + 1) hmc'' (by omega)]
          exact hi.shape m hm
  · have hsum := sum_move (s := s) (f := f) (g := g) (p := p) Frame.busy hc
    have hp := hi.pending
    show p = ∑ n ∈ Finset.range (length + 2), ((s.move c f g p).frame n).busy
    omega
  · intro hret m hm
    rcases Nat.eq_or_lt_of_le hc with rfl | hlt
    · rw [hself] at hret
      obtain ⟨hf, hall⟩ := hjoined rfl hret
      by_cases hmc : m = c
      · rw [hmc, hchild]
        exact hf
      · rw [hother m hmc (by omega)]
        exact hall m (by omega)
    · rw [hother _ (by omega) (by omega)] at hret
      exact absurd hret hrunning

/-- As long as somebody can move, `main` has not returned. -/
theorem Inv.running (hi : Inv length s) (hn : n ≤ length + 1) (hpc : (s.frame n).pc ≠ .returned) :
    (s.frame (length + 1)).pc ≠ .returned := by
  intro hret
  rcases Nat.eq_or_lt_of_le hn with rfl | hlt
  · exact hpc hret
  · exact hpc (hi.joined hret n (by omega))

/-- A group without tasks leaves only links that have returned. -/
theorem Inv.drained (hi : Inv length s) (hmain : (s.frame (length + 1)).pc = .await)
    (hzero : s.pending = 0) (hn : n ≤ length) : (s.frame n).pc = .returned := by
  have hbusy : ∀ m, m ≤ length → (s.frame m).busy = 0 := by
    intro m hm
    have hsum : ∑ n ∈ Finset.range (length + 2), (s.frame n).busy = 0 := by
      rw [← hi.pending, hzero]
    exact Finset.sum_eq_zero_iff.1 hsum m (Finset.mem_range.2 (by omega))
  have hdone : ∀ m, m ≤ length → ((s.frame (m + 1)).pc = .await ∨
      (s.frame (m + 1)).pc = .returned) → (s.frame m).pc = .returned := by
    intro m hm hcaller
    have hshape := hi.shape m hm
    have hforked : (s.frame m).pc = .returned ∨
        ((s.frame m).spawned = true ∧ (s.frame m).Live) := by
      rcases hcaller with h | h
      · rwa [h] at hshape
      · rwa [h] at hshape
    rcases hforked with h | ⟨hspawned, hlive⟩
    · exact h
    · have hone := busy_of_live hlive
      rw [hbusy m hm, hspawned] at hone
      cases hone
  obtain ⟨k, hk⟩ := Nat.exists_eq_add_of_le hn
  induction k generalizing n with
  | zero =>
      obtain rfl : length = n := hk
      exact hdone length le_rfl (.inl hmain)
  | succ k ih => exact hdone n hn (.inr (ih (show n + 1 ≤ length by omega) (by omega)))

/-! ## The steps keep the invariant -/

/-- What a step changes, from a state of the invariant: a link `c` and its caller. -/
inductive Moves (length : Nat) (s : State) : Label → Nat → Frame → Frame → Nat → Prop
  | entry {n : Nat} (hpc : (s.frame n).pc = .entry) :
      Moves length s (.entered n) n ⟨if n = 0 then .leave else .async, (s.frame n).spawned⟩
        (s.frame (n + 1)) s.pending
  | async {c : Nat} {granted : Bool} (hpc : (s.frame (c + 1)).pc = .async) :
      Moves length s (.called c granted) c ⟨.entry, granted⟩
        ⟨if granted then after length (c + 1) else .call, (s.frame (c + 1)).spawned⟩
        (s.pending + if granted then 1 else 0)
  | await (hpc : (s.frame (length + 1)).pc = .await) (hzero : s.pending = 0) :
      Moves length s .awaited length (s.frame length)
        ⟨.returned, (s.frame (length + 1)).spawned⟩ s.pending
  | task {n : Nat} (hpc : (s.frame n).pc = .leave) (hspawned : (s.frame n).spawned = true) :
      Moves length s (.returned n) n ⟨.returned, true⟩ (s.frame (n + 1)) (s.pending - 1)
  | inline {n : Nat} (hpc : (s.frame n).pc = .leave) (hspawned : (s.frame n).spawned = false)
      (hcall : (s.frame (n + 1)).pc = .call) :
      Moves length s (.returned n) n ⟨.returned, false⟩
        ⟨after length (n + 1), (s.frame (n + 1)).spawned⟩ s.pending

/-- Behind `main` nobody moves. -/
theorem Inv.le_of_pc (hi : Inv length s) (h : (s.frame n).pc ≠ .idle) : n ≤ length + 1 := by
  by_contra hn
  exact h (hi.above n (by omega))

/-- A call that is not a task is inside of its caller. -/
theorem Inv.inline_caller (hi : Inv length s) (hn : n ≤ length) (hlive : (s.frame n).Live)
    (hspawned : (s.frame n).spawned = false) : (s.frame (n + 1)).pc = .call := by
  have hshape := hi.shape n hn
  cases hcaller : (s.frame (n + 1)).pc with
  | idle | entry | async =>
      rw [hcaller] at hshape
      exact absurd hshape hlive.1
  | call => rfl
  | await | leave | returned =>
      rw [hcaller] at hshape
      rcases hshape with h | h
      · exact absurd h hlive.2
      · exact absurd (hspawned.symm.trans h.1) Bool.false_ne_true

theorem Inv.exists_moves (hi : Inv length s) (h : step length s n granted = some (l, s')) :
    ∃ c f g p, c ≤ length ∧ Moves length s l c f g p ∧ s' = s.move c f g p := by
  obtain ⟨hpc, rfl, rfl⟩ | ⟨hpc, rfl, rfl⟩ | ⟨hpc, hzero, rfl, rfl⟩ | ⟨hpc, rfl, rfl⟩ :=
    step_cases h
  · have hle := hi.le_of_pc (n := n) (by simp [hpc])
    have hne : n ≠ length + 1 := fun h => hi.main.2.1 (h ▸ hpc)
    exact ⟨n, _, _, _, by omega, .entry hpc, move_self.symm⟩
  · cases n with
    | zero => exact absurd hpc hi.last.1
    | succ c =>
        have hle := hi.le_of_pc (n := c + 1) (by simp [hpc])
        refine ⟨c, _, _, _, by omega, .async hpc, ?_⟩
        cases granted with
        | true => rfl
        | false => rfl
  · have hle := hi.le_of_pc (n := n) (by simp [hpc])
    have hlink : ¬ n ≤ length := fun h => hi.link n h hpc
    obtain rfl : n = length + 1 := by omega
    exact ⟨length, _, _, _, le_rfl, .await hpc hzero, move_main.symm⟩
  · have hle := hi.le_of_pc (n := n) (by simp [hpc])
    have hne : n ≠ length + 1 := fun h => hi.main.2.2.1 (h ▸ hpc)
    have hlive : (s.frame n).Live := ⟨by simp [hpc], by simp [hpc]⟩
    unfold finish
    cases hspawned : (s.frame n).spawned with
    | true => exact ⟨n, _, _, _, by omega, .task hpc hspawned, move_self.symm⟩
    | false =>
        have hcall := hi.inline_caller (by omega) hlive hspawned
        exact ⟨n, _, _, _, by omega, .inline hpc hspawned hcall, rfl⟩

theorem after_ne (length n : Nat) : after length n ≠ .idle ∧ after length n ≠ .entry ∧
    after length n ≠ .returned ∧ (n ≠ length + 1 → after length n ≠ .await) ∧
    (n = length + 1 → after length n ≠ .leave) := by
  unfold after
  by_cases h : n = length + 1
  · simp [h]
  · simp [h]

theorem shape_after (n : Nat) (f : Frame)
    (h : f.pc = .returned ∨ (f.spawned = true ∧ f.Live)) : Shape (after length n) f := by
  unfold after
  split
  · exact h
  · exact h

/-- Where `async` leaves its caller. -/
theorem async_ne (length n : Nat) (granted : Bool) :
    (if granted then after length n else .call) ≠ .idle ∧
      (if granted then after length n else .call) ≠ .entry ∧
      (if granted then after length n else .call) ≠ .returned ∧
      (n ≠ length + 1 → (if granted then after length n else .call) ≠ .await) ∧
      (n = length + 1 → (if granted then after length n else .call) ≠ .leave) := by
  cases granted with
  | true => exact after_ne length n
  | false => simp

theorem live_of_pc (h : f.pc = .entry ∨ f.pc = .async ∨ f.pc = .call ∨ f.pc = .await ∨
    f.pc = .leave) : f.Live := by
  rcases h with h | h | h | h | h
  all_goals exact ⟨by simp [h], by simp [h]⟩

/-- A link that moves to a statement with the same `Shape` is not seen by the links below it. -/
theorem Inv.below {c : Nat} {pc : Pc} (hi : Inv length s) (hc : c ≤ length)
    (hpc : Shape (s.frame c).pc = Shape pc) : ∀ m, c = m + 1 → Shape pc (s.frame m) := by
  rintro m rfl
  rw [← hpc]
  exact hi.shape m (by omega)

theorem Inv.move_entry {c : Nat} (hi : Inv length s) (hc : c ≤ length)
    (hpc : (s.frame c).pc = .entry) :
    Inv length (s.move c ⟨if c = 0 then .leave else .async, (s.frame c).spawned⟩
      (s.frame (c + 1)) s.pending) := by
  have hlive : (s.frame c).Live := live_of_pc (.inl hpc)
  have hlive' : Frame.Live ⟨if c = 0 then .leave else .async, (s.frame c).spawned⟩ := by
    constructor <;> split <;> simp
  have hrunning := hi.running (by omega) hlive.2
  refine hi.move hc hrunning ?_ ⟨by split <;> simp, fun hlt => hi.link (c + 1) hlt⟩ ?_ ?_
    ((hi.shape c hc).congr rfl hlive hlive') (fun hlt => hi.shape (c + 1) hlt) ?_ ?_
  · rintro rfl
    exact hi.main
  · rintro rfl
    simp
  · rintro m rfl
    exact hi.below hc (by rw [hpc]; rfl) m rfl
  · rw [busy_of_live hlive, busy_of_live hlive']
  · rintro rfl hret
    exact absurd hret hrunning

theorem Inv.move_async {c : Nat} (hi : Inv length s) (hc : c ≤ length)
    (hpc : (s.frame (c + 1)).pc = .async) :
    Inv length (s.move c ⟨.entry, granted⟩
      ⟨if granted then after length (c + 1) else .call, (s.frame (c + 1)).spawned⟩
      (s.pending + if granted then 1 else 0)) := by
  have hlive : (s.frame (c + 1)).Live := live_of_pc (.inr (.inl hpc))
  have hidle : (s.frame c).pc = .idle := by
    have hshape := hi.shape c hc
    rwa [hpc] at hshape
  obtain ⟨hidle', hentry', hreturned', hawait', hleave'⟩ := async_ne length (c + 1) granted
  have hlive' : Frame.Live ⟨if granted then after length (c + 1) else .call,
      (s.frame (c + 1)).spawned⟩ := ⟨hidle', hreturned'⟩
  have hentered : Frame.Live ⟨.entry, granted⟩ := live_of_pc (.inl rfl)
  refine hi.move hc (hi.running (by omega) hlive.2) ?_ ⟨by simp, fun hlt => hawait' (by omega)⟩
    (by simp) (hi.below hc (by rw [hidle]; rfl)) ?_ ?_ ?_ ?_
  · rintro rfl
    exact ⟨hidle', hentry', hleave' rfl, hi.main.2.2.2⟩
  · cases granted with
    | true => exact shape_after _ _ (.inr ⟨rfl, hentered⟩)
    | false => exact ⟨rfl, hentered⟩
  · exact fun hlt => (hi.shape (c + 1) hlt).congr rfl hlive hlive'
  · rw [busy_of_live hlive, busy_of_live hlive']
    simp only [Frame.busy, hidle]
    omega
  · rintro - hret
    exact absurd hret hreturned'

theorem Inv.move_await (hi : Inv length s) (hpc : (s.frame (length + 1)).pc = .await)
    (hzero : s.pending = 0) :
    Inv length (s.move length (s.frame length) ⟨.returned, (s.frame (length + 1)).spawned⟩
      s.pending) := by
  have hlive : (s.frame (length + 1)).Live := live_of_pc (.inr (.inr (.inr (.inl hpc))))
  have hreturned : ∀ m, m ≤ length → (s.frame m).pc = .returned := fun m hm =>
    hi.drained hpc hzero hm
  have hfirst := hreturned length le_rfl
  refine hi.move le_rfl hlive.2 (fun _ => ⟨by simp, by simp, by simp, hi.main.2.2.2⟩)
    ⟨by simp [hfirst], by simp⟩ (fun _ => by simp [hfirst]) (hi.below le_rfl rfl) (.inl hfirst)
    (by simp) ?_ (fun _ _ => ⟨hfirst, fun m hm => hreturned m hm.le⟩)
  rw [busy_of_live hlive, hi.main.2.2.2]
  simp [Frame.busy]

theorem Inv.move_task {c : Nat} (hi : Inv length s) (hc : c ≤ length)
    (hpc : (s.frame c).pc = .leave) (hspawned : (s.frame c).spawned = true) :
    Inv length (s.move c ⟨.returned, true⟩ (s.frame (c + 1)) (s.pending - 1)) := by
  have hlive : (s.frame c).Live := live_of_pc (.inr (.inr (.inr (.inr hpc))))
  have hrunning := hi.running (by omega) hlive.2
  have hshape := hi.shape c hc
  have hbusy : (s.frame c).busy = 1 := by
    rw [busy_of_live hlive, hspawned]
    rfl
  have hone : 1 ≤ s.pending := by
    rw [hi.pending, ← hbusy]
    exact Finset.single_le_sum (f := fun n => (s.frame n).busy) (fun _ _ => Nat.zero_le _)
      (Finset.mem_range.2 (by omega))
  refine hi.move hc hrunning ?_ ⟨by simp, fun hlt => hi.link (c + 1) hlt⟩ (by simp)
    (hi.below hc (by rw [hpc]; rfl)) ?_ (fun hlt => hi.shape (c + 1) hlt) ?_ ?_
  · rintro rfl
    exact hi.main
  · -- a caller of a task is through with it
    cases hcaller : (s.frame (c + 1)).pc with
    | idle | entry | async =>
        rw [hcaller] at hshape
        exact absurd hshape hlive.1
    | call =>
        rw [hcaller] at hshape
        exact absurd (hshape.1.symm.trans hspawned) Bool.false_ne_true
    | await | leave | returned => exact .inl rfl
  · rw [hbusy]
    simp only [Frame.busy]
    omega
  · rintro rfl hret
    exact absurd hret hrunning

theorem Inv.move_inline {c : Nat} (hi : Inv length s) (hc : c ≤ length)
    (hpc : (s.frame c).pc = .leave) (hspawned : (s.frame c).spawned = false)
    (hcall : (s.frame (c + 1)).pc = .call) :
    Inv length (s.move c ⟨.returned, false⟩
      ⟨after length (c + 1), (s.frame (c + 1)).spawned⟩ s.pending) := by
  have hlive : (s.frame c).Live := live_of_pc (.inr (.inr (.inr (.inr hpc))))
  have hcaller : (s.frame (c + 1)).Live := live_of_pc (.inr (.inr (.inl hcall)))
  obtain ⟨hidle', hentry', hreturned', hawait', hleave'⟩ := after_ne length (c + 1)
  have hcaller' : Frame.Live ⟨after length (c + 1), (s.frame (c + 1)).spawned⟩ :=
    ⟨hidle', hreturned'⟩
  refine hi.move hc (hi.running (by omega) hlive.2) ?_ ⟨by simp, fun hlt => hawait' (by omega)⟩
    (by simp) (hi.below hc (by rw [hpc]; rfl)) (shape_after _ _ (.inl rfl))
    (fun hlt => (hi.shape (c + 1) hlt).congr rfl hcaller hcaller') ?_ ?_
  · rintro rfl
    exact ⟨hidle', hentry', hleave' rfl, hi.main.2.2.2⟩
  · rw [busy_of_live hlive, busy_of_live hcaller, busy_of_live hcaller', hspawned]
    simp [Frame.busy]
  · rintro - hret
    exact absurd hret hreturned'

theorem Inv.moves {c p : Nat} (hi : Inv length s) (hc : c ≤ length)
    (h : Moves length s l c f g p) : Inv length (s.move c f g p) := by
  cases h with
  | entry hpc => exact hi.move_entry hc hpc
  | async hpc => exact hi.move_async hc hpc
  | await hpc hzero => exact hi.move_await hpc hzero
  | task hpc hspawned => exact hi.move_task hc hpc hspawned
  | inline hpc hspawned hcall => exact hi.move_inline hc hpc hspawned hcall

theorem reachable_inv (h : (system length).Reachable s) : Inv length s := by
  refine System.Reachable.invariant (I := Inv length) ?_ ?_ h
  · rintro _ rfl
    exact initial_inv
  · rintro s l s' hi ⟨n, granted, hs⟩
    obtain ⟨c, f, g, p, hc, hm, rfl⟩ := hi.exists_moves hs
    exact hi.moves hc hm

/-! ## The order of the links -/

theorem calls_append (tr : List Label) (l : Label) : calls (tr ++ [l]) = calls tr ++ calls [l] :=
  List.filterMap_append ..

theorem entries_append (tr : List Label) (l : Label) :
    entries (tr ++ [l]) = entries tr ++ entries [l] :=
  List.filterMap_append ..

/-- `c` is the lowest link that has been called. -/
structure Account (length : Nat) (tr : List Label) (s : State) (c : Nat) : Prop where
  bound : c ≤ length + 1
  idle : ∀ n, (s.frame n).pc = .idle ↔ n < c ∨ length + 1 < n
  calls : calls tr = links length c
  entries : entries tr = links length (if (s.frame c).pc = .entry then c + 1 else c)

theorem links_eq {c : Nat} (h : c ≤ length) : links length c = links length (c + 1) ++ [c] := by
  have hlen : length + 1 - c = length + 1 - (c + 1) + 1 := by omega
  rw [links, hlen, List.range'_succ, List.reverse_cons]
  rfl

theorem initial_account : Account length [] (initial length) (length + 1) where
  bound := le_rfl
  idle n := by
    by_cases hn : n = length + 1
    · simp [hn]
    · simp only [initial_frame hn, true_iff]
      omega
  calls := by simp [links, calls]
  entries := by simp [links, entries]

theorem move_pc_iff {c p : Nat} {pc : Pc} (hf : f.pc = pc ↔ (s.frame c).pc = pc)
    (hg : g.pc = pc ↔ (s.frame (c + 1)).pc = pc) (m : Nat) :
    ((s.move c f g p).frame m).pc = pc ↔ (s.frame m).pc = pc := by
  by_cases hm : m = c
  · rw [hm, move_link, hf]
  · by_cases hm' : m = c + 1
    · rw [hm', move_caller, hg]
    · rw [move_other hm hm']

/-- A step that neither calls a link nor enters one. -/
theorem Account.other {c k p : Nat} (ha : Account length tr s k)
    (hidle : (f.pc = .idle ↔ (s.frame c).pc = .idle) ∧
      (g.pc = .idle ↔ (s.frame (c + 1)).pc = .idle))
    (hentry : (f.pc = .entry ↔ (s.frame c).pc = .entry) ∧
      (g.pc = .entry ↔ (s.frame (c + 1)).pc = .entry))
    (hcalls : TaskChain.calls [l] = []) (hentries : TaskChain.entries [l] = []) :
    Account length (tr ++ [l]) (s.move c f g p) k where
  bound := ha.bound
  idle n := by rw [move_pc_iff hidle.1 hidle.2, ha.idle]
  calls := by
    have happend := calls_append tr l
    rw [happend, hcalls, List.append_nil, ha.calls]
  entries := by
    have happend := entries_append tr l
    simp only [move_pc_iff hentry.1 hentry.2]
    rw [happend, hentries, List.append_nil, ha.entries]

/-- The link that is entered is the lowest one. -/
theorem Account.lowest_of_entry {c k : Nat} (hi : Inv length s) (ha : Account length tr s k)
    (hc : c ≤ length) (hpc : (s.frame c).pc = .entry) : c = k := by
  have hle : k ≤ c := by
    by_contra hlt
    have hidle := (ha.idle c).2 (.inl (by omega))
    simp [hpc] at hidle
  by_contra hne
  obtain ⟨m, rfl⟩ : ∃ m, c = m + 1 := ⟨c - 1, by omega⟩
  have hshape := hi.shape m (by omega)
  rw [hpc] at hshape
  have hlt := (ha.idle m).1 hshape
  omega

/-- Whoever calls a link was the lowest one. -/
theorem Account.lowest_of_async {c k : Nat} (ha : Account length tr s k) (hc : c ≤ length)
    (hidle : (s.frame c).pc = .idle) (hpc : (s.frame (c + 1)).pc = .async) : k = c + 1 := by
  have hlt := (ha.idle c).1 hidle
  have hle : ¬ (c + 1 < k ∨ length + 1 < c + 1) := by
    rw [← ha.idle, hpc]
    simp
  omega

theorem Account.entered {c : Nat} (ha : Account length tr s c) (hc : c ≤ length)
    (hpc : (s.frame c).pc = .entry) :
    Account length (tr ++ [.entered c])
      (s.move c ⟨if c = 0 then .leave else .async, (s.frame c).spawned⟩ (s.frame (c + 1))
        s.pending) c := by
  have hcalls := calls_append tr (.entered c)
  have hentries := entries_append tr (.entered c)
  have hpc' : (if c = 0 then Pc.leave else Pc.async) ≠ .idle ∧
      (if c = 0 then Pc.leave else Pc.async) ≠ .entry := by
    constructor <;> split <;> simp
  refine ⟨ha.bound, ?_, ?_, ?_⟩
  · intro n
    rw [move_pc_iff (by simp [hpc, hpc'.1]) Iff.rfl, ha.idle]
  · rw [hcalls, ha.calls]
    exact List.append_nil _
  · rw [hentries, ha.entries, if_pos hpc, move_link, if_neg hpc'.2, links_eq hc]
    rfl

theorem Account.called {c : Nat} (ha : Account length tr s (c + 1)) (hc : c ≤ length)
    (hpc : (s.frame (c + 1)).pc = .async) :
    Account length (tr ++ [.called c granted])
      (s.move c ⟨.entry, granted⟩
        ⟨if granted then after length (c + 1) else .call, (s.frame (c + 1)).spawned⟩
        (s.pending + if granted then 1 else 0)) c := by
  have hcalls := calls_append tr (.called c granted)
  have hentries := entries_append tr (.called c granted)
  refine ⟨by omega, ?_, ?_, ?_⟩
  · intro n
    by_cases hn : n = c
    · rw [hn, move_link]
      simp
      omega
    · by_cases hn' : n = c + 1
      · rw [hn', move_caller]
        simp only [(async_ne length (c + 1) granted).1, false_iff]
        omega
      · rw [move_other hn hn', ha.idle]
        omega
  · rw [hcalls, ha.calls, links_eq hc]
    rfl
  · rw [hentries, ha.entries, if_neg (by simp [hpc]), move_link, if_pos rfl]
    exact List.append_nil _

theorem Account.moves {c k p : Nat} (hi : Inv length s) (ha : Account length tr s k)
    (hc : c ≤ length) (h : Moves length s l c f g p) :
    ∃ k', Account length (tr ++ [l]) (s.move c f g p) k' := by
  cases h with
  | entry hpc =>
      obtain rfl := ha.lowest_of_entry hi hc hpc
      exact ⟨c, ha.entered hc hpc⟩
  | async hpc =>
      have hidle : (s.frame c).pc = .idle := by
        have hshape := hi.shape c hc
        rwa [hpc] at hshape
      obtain rfl := ha.lowest_of_async hc hidle hpc
      exact ⟨c, ha.called hc hpc⟩
  | await hpc hzero => exact ⟨k, ha.other (by simp [hpc]) (by simp [hpc]) rfl rfl⟩
  | task hpc hspawned => exact ⟨k, ha.other (by simp [hpc]) (by simp [hpc]) rfl rfl⟩
  | inline hpc hspawned hcall =>
      have hafter := after_ne length (c + 1)
      refine ⟨k, ha.other ?_ ?_ rfl rfl⟩
      · simp [hpc, hcall, hafter.1]
      · simp [hpc, hcall, hafter.2.1]

theorem run_account (h : (system length).Run tr s) : ∃ c, Account length tr s c := by
  refine System.Run.invariant (I := fun tr s => ∃ c, Account length tr s c) ?_ ?_ h
  · rintro _ rfl
    exact ⟨_, initial_account⟩
  · rintro tr s l s' hr ⟨k, ha⟩ ⟨n, granted, hs⟩
    have hi := reachable_inv hr.reachable
    obtain ⟨c, f, g, p, hc, hm, rfl⟩ := hi.exists_moves hs
    exact ha.moves hi hc hm

/-! ## The chain ends -/

/-- The steps that are left. -/
def rank (length : Nat) (s : State) : Nat := ∑ n ∈ Finset.range (length + 2), (s.frame n).pc.rank

theorem rank_after (n : Nat) : (after length n).rank = 1 := by
  unfold after
  split <;> rfl

theorem rank_step (h : (system length).Reachable s) (hs : (system length).step s l s') :
    rank length s' < rank length s := by
  obtain ⟨n, granted, hs⟩ := hs
  obtain ⟨c, f, g, p, hc, hm, rfl⟩ := (reachable_inv h).exists_moves hs
  have hshape := (reachable_inv h).shape c hc
  have hsum := sum_move (s := s) (f := f) (g := g) (p := p) (fun f => f.pc.rank) hc
  have hlt : f.pc.rank + g.pc.rank < (s.frame c).pc.rank + (s.frame (c + 1)).pc.rank := by
    cases hm with
    | entry hpc =>
        have hle : (if c = 0 then Pc.leave else Pc.async).rank ≤ 2 := by
          split <;> simp [Pc.rank]
        show (if c = 0 then Pc.leave else Pc.async).rank + _ < _
        rw [hpc, show Pc.entry.rank = 3 from rfl]
        omega
    | @async _ granted hpc =>
        have hidle : (s.frame c).pc = .idle := by rwa [hpc] at hshape
        cases granted with
        | true =>
            rw [hpc, hidle, if_pos rfl, rank_after]
            decide
        | false =>
            rw [hpc, hidle, if_neg Bool.false_ne_true]
            simp [Pc.rank]
    | await hpc hzero =>
        rw [hpc]
        exact Nat.lt_succ_self _
    | task hpc hspawned => simp [hpc, Pc.rank]
    | inline hpc hspawned hcall =>
        rw [hpc, hcall, rank_after]
        decide
  unfold rank
  omega

theorem rank_initial : rank length (initial length) = 4 * (length + 1) + 2 := by
  have hlinks : ∀ n ∈ Finset.range (length + 1), ((initial length).frame n).pc.rank = 4 := by
    intro n hn
    rw [initial_frame (by have := Finset.mem_range.1 hn; omega)]
    rfl
  rw [rank, Finset.sum_range_succ, Finset.sum_const_nat hlinks, Finset.card_range, initial_main,
    Nat.mul_comm]
  rfl

/-- The lowest call that has not returned can go on. -/
theorem Inv.exists_step (hi : Inv length s) (h : (s.frame (length + 1)).pc ≠ .returned) :
    ∃ l s', (system length).step s l s' := by
  classical
  have hlive : ∃ n, (s.frame n).Live := ⟨length + 1, hi.main.1, h⟩
  have hspec := Nat.find_spec hlive
  have hmin : ∀ m, m < Nat.find hlive → ¬ (s.frame m).Live := fun m => Nat.find_min hlive
  have hle := hi.le_of_pc hspec.1
  generalize Nat.find hlive = n at hspec hmin hle
  cases hpc : (s.frame n).pc with
  | idle => exact absurd hpc hspec.1
  | returned => exact absurd hpc hspec.2
  | entry => exact ⟨_, _, n, true, by simp only [step, hpc]; rfl⟩
  | async => exact ⟨_, _, n, true, by simp only [step, hpc]; rfl⟩
  | leave => exact ⟨_, _, n, true, by simp only [step, hpc]; rfl⟩
  | call =>
      cases n with
      | zero => exact absurd hpc hi.last.2
      | succ c =>
          have hshape := hi.shape c (by omega)
          rw [hpc] at hshape
          exact absurd hshape.2 (hmin c (Nat.lt_succ_self c))
  | await =>
      obtain rfl : n = length + 1 := by
        have hlink : ¬ n ≤ length := fun h => hi.link n h hpc
        omega
      have hzero : s.pending = 0 := by
        rw [hi.pending]
        refine Finset.sum_eq_zero fun m hm => ?_
        have hm' : m < length + 2 := Finset.mem_range.1 hm
        by_cases hmain : m = length + 1
        · rw [hmain, busy_of_live hspec, hi.main.2.2.2]
          rfl
        · have hdead := hmin m (by omega)
          cases hpcm : (s.frame m).pc with
          | idle | returned => simp [Frame.busy, hpcm]
          | entry | async | call | await | leave =>
              exact absurd ⟨by simp [hpcm], by simp [hpcm]⟩ hdead
      exact ⟨_, _, length + 1, true, by simp only [step, hpc, hzero]; rfl⟩

/-- The chain of `task_chain`. Whatever mixture of tasks and inline calls the backend makes of it
and in every order of steps, the links are called and entered from the first one to the last one,
none of them twice; as long as `main` waits, somebody can go on, for less than four steps a link; and
`main` does not return early: when it has, all `length + 1` links were called and entered and have
returned, although only the first of them was started by `main`. -/
theorem chain_joins (h : (system length).Run tr s) :
    (∃ c, calls tr = links length c) ∧ (∃ c, entries tr = links length c) ∧
    ((s.frame (length + 1)).pc ≠ .returned → ∃ l s', (system length).step s l s') ∧
    tr.length ≤ 4 * (length + 1) + 2 ∧
    ((s.frame (length + 1)).pc = .returned →
      calls tr = links length 0 ∧ entries tr = links length 0 ∧ s.pending = 0 ∧
        ∀ n, n ≤ length → (s.frame n).pc = .returned) := by
  have hi := reachable_inv h.reachable
  obtain ⟨c, ha⟩ := run_account h
  refine ⟨⟨c, ha.calls⟩, ⟨_, ha.entries⟩, hi.exists_step, ?_, ?_⟩
  · obtain ⟨a, rfl, hp⟩ := h
    have hle := hp.length_le (μ := rank length) (fun s l s' hr hs => rank_step hr hs)
      (System.Run.nil rfl).reachable
    rw [rank_initial] at hle
    omega
  · intro hmain
    have hall := hi.joined hmain
    obtain rfl : c = 0 := by
      by_contra hc
      have hidle := (ha.idle 0).2 (.inl (by omega))
      rw [hall 0 (Nat.zero_le _)] at hidle
      cases hidle
    refine ⟨ha.calls, ?_, ?_, hall⟩
    · rw [ha.entries, hall 0 (Nat.zero_le _), if_neg (by simp)]
    · rw [hi.pending]
      refine Finset.sum_eq_zero fun m hm => ?_
      have hm' : m < length + 2 := Finset.mem_range.1 hm
      have hreturned : (s.frame m).pc = .returned := by
        by_cases hlast : m = length + 1
        · rw [hlast, hmain]
        · exact hall m (by omega)
      simp [Frame.busy, hreturned]

/-- A chain of three links, of which the second one is an inline call of the first. -/
def threeLinks : List Label × State :=
  (System.replay (fun s a => step 2 s a.1 a.2) (initial 2)
    [(3, true), (2, true), (2, false), (1, true), (1, true), (1, true), (2, true), (0, true),
      (0, true), (3, true)]).get rfl

/-- The last link outlives the others, and `main` awaits it. -/
theorem chain_joins_three :
    (system 2).Run threeLinks.1 threeLinks.2 ∧
      threeLinks.1 = [.called 2 true, .entered 2, .called 1 false, .entered 1, .called 0 true,
        .returned 1, .returned 2, .entered 0, .returned 0, .awaited] ∧
      threeLinks.2.pending = 0 ∧ ∀ n, n ≤ 2 → (threeLinks.2.frame n).pc = .returned := by
  have h : (system 2).Run threeLinks.1 threeLinks.2 :=
    System.Run.of_replay (T := system 2) (fun _ a _ _ ha => ⟨a.1, a.2, ha⟩) rfl
      (Option.some_get _).symm
  exact ⟨h, rfl, ((chain_joins h).2.2.2.2 rfl).2.2⟩

end ZioBenchmarks.TaskChain
