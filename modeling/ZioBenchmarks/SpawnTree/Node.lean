import Mathlib.Algebra.Order.BigOperators.Group.Finset
import Mathlib.Data.UInt
import ZioBenchmarks.Transition.Runs
import ZioBenchmarks.Tree.Address

/-!
# The spawn tree

`node` of `spawn_tree.zig`: every inner node starts two children in its own group and awaits the
group. A child is a task of the group, or, if the backend has no room for another task, an inline
call of the parent. The calls of `node` are named by their addresses in the tree, so that the pool
of tasks, the frames on their stacks and the counters of their groups are one table of frames.
-/

set_option autoImplicit false

namespace ZioBenchmarks.SpawnTree

open ZioBenchmarks.Transition ZioBenchmarks.Tree

/-- The statement a call of `node` executes next. -/
inductive Pc where
  /-- Not called yet. -/
  | idle
  /-- `if (level == 0) return`. -/
  | entry
  /-- The first or the second `group.concurrent(io, node, .{ io, level - 1 })`. -/
  | concurrent (second : Bool)
  /-- Inside of `catch node(io, level - 1)`. -/
  | call (second : Bool)
  /-- `group.await(io) catch {}`. -/
  | await
  /-- The end of the function. -/
  | leave
  | returned
  deriving DecidableEq, Repr

/-- The statement behind `group.concurrent(...) catch node(...)`. -/
def Pc.after : Bool → Pc
  | false => .concurrent true
  | true => .await

/-- A call of `node`: how it was started, and the tasks of its group that have not finished. -/
structure Frame where
  level : Nat
  pc : Pc
  spawned : Bool
  pending : Nat
  deriving DecidableEq, Repr

/-- The calls by address. -/
abbrev State := Address → Frame

/-- What happens in a step. -/
inductive Label where
  | called (p : Address) (spawned : Bool)
  | entered (p : Address)
  | awaited (p : Address)
  | returned (p : Address)
  deriving DecidableEq, Repr

/-- The end of a call: a task leaves its group, an inline call goes back to its caller. -/
def finish (s : State) : Address → State
  | [] => s
  | b :: q =>
      Function.update s q
        (if (s (b :: q)).spawned then { s q with pending := (s q).pending - 1 }
        else { s q with pc := .after b })

/-- One statement of the call at `p`. The backend decides whether `concurrent` gets a task. -/
def step (s : State) (p : Address) (granted : Bool) : Option (Label × State) :=
  match (s p).pc with
  | .idle | .call _ | .returned => none
  | .entry =>
      some (.entered p, Function.update s p
        { s p with pc := if (s p).level = 0 then .leave else .concurrent false })
  | .concurrent b =>
      some (.called (b :: p) granted,
        Function.update (Function.update s (b :: p) ⟨(s p).level - 1, .entry, granted, 0⟩) p
          (if granted then { s p with pc := .after b, pending := (s p).pending + 1 }
          else { s p with pc := .call b }))
  | .await =>
      if (s p).pending = 0 then
        some (.awaited p, Function.update s p { s p with pc := .leave })
      else none
  | .leave =>
      some (.returned p, finish (Function.update s p { s p with pc := .returned }) p)

/-- `main` calls `node(io, depth)`. -/
def initial (depth : Nat) : State
  | [] => ⟨depth, .entry, false, 0⟩
  | _ :: _ => ⟨0, .idle, false, 0⟩

/-- All tasks in any order, with any answers of the backend. -/
def system (depth : Nat) : System State Label where
  init s := s = initial depth
  step s l s' := ∃ p granted, step s p granted = some (l, s')

/-- The call that a step makes. -/
def Label.calls : Label → List Address
  | .called p _ => [p]
  | .entered _ | .awaited _ | .returned _ => []

/-- The call that a step begins to execute. -/
def Label.entries : Label → List Address
  | .entered p => [p]
  | .called _ _ | .awaited _ | .returned _ => []

/-- The calls of `node`, with that of `main`. -/
def calls (tr : List Label) : List Address := [] :: tr.flatMap Label.calls

/-- The calls that have begun to execute. -/
def entries (tr : List Label) : List Address := tr.flatMap Label.entries

/-- `const total_nodes`. -/
def totalNodes (depth : Nat) : UInt64 := (1 <<< UInt64.ofNat (depth + 1)) - 1

/-! ## What a call sees of another one -/

/-- A call from outside. -/
inductive View where
  | idle
  | running (spawned : Bool)
  | done
  deriving DecidableEq, Repr

def Frame.view (f : Frame) : View :=
  match f.pc with
  | .idle => .idle
  | .returned => .done
  | .entry | .concurrent _ | .call _ | .await | .leave => .running f.spawned

/-- A task that its group waits for. -/
def View.busy : View → Nat
  | .running true => 1
  | .running false | .idle | .done => 0

/-- Started as a task, or done. -/
def View.Forked (v : View) : Prop := v = .running true ∨ v = .done

/-- What the children of a call can be, by the statement it executes next. -/
def Frame.Shape (f : Frame) (child : Bool → View) : Prop :=
  f.pending = (child false).busy + (child true).busy ∧
  match f.pc with
  | .idle | .entry => child false = .idle ∧ child true = .idle
  | .concurrent false => 0 < f.level ∧ child false = .idle ∧ child true = .idle
  | .call false => 0 < f.level ∧ child false = .running false ∧ child true = .idle
  | .concurrent true => 0 < f.level ∧ (child false).Forked ∧ child true = .idle
  | .call true => 0 < f.level ∧ (child false).Forked ∧ child true = .running false
  | .await => 0 < f.level ∧ (child false).Forked ∧ (child true).Forked
  | .leave | .returned =>
      if f.level = 0 then child false = .idle ∧ child true = .idle
      else child false = .done ∧ child true = .done

/-- The views of the children of `p`. -/
def children (s : State) (p : Address) (b : Bool) : View := (s (b :: p)).view

/-- The invariant of the states. -/
structure Inv (depth : Nat) (s : State) : Prop where
  root : (s []).pc ≠ .idle
  level : ∀ p, (s p).pc ≠ .idle → p.length + (s p).level = depth
  shape : ∀ p, (s p).Shape (children s p)

section Views

variable (f : Frame) (v : View)

theorem view_eq_idle : f.view = .idle ↔ f.pc = .idle := by
  unfold Frame.view
  cases f.pc <;> simp

theorem view_eq_done : f.view = .done ↔ f.pc = .returned := by
  unfold Frame.view
  cases f.pc <;> simp

@[simp] theorem busy_idle : View.idle.busy = 0 := rfl

@[simp] theorem busy_done : View.done.busy = 0 := rfl

@[simp] theorem busy_inline : (View.running false).busy = 0 := rfl

@[simp] theorem busy_task : (View.running true).busy = 1 := rfl

@[simp] theorem forked_done : View.done.Forked := .inr rfl

@[simp] theorem forked_task : (View.running true).Forked := .inl rfl

@[simp] theorem not_forked_idle : ¬ View.idle.Forked := by simp [View.Forked]

@[simp] theorem not_forked_inline : ¬ (View.running false).Forked := by simp [View.Forked]

end Views

variable {depth : Nat} {s s' : State} {p q : Address} {b granted : Bool} {f g : Frame} {l : Label}

/-- What one statement does. -/
theorem step_cases (h : step s p granted = some (l, s')) :
    ((s p).pc = .entry ∧ l = .entered p ∧ s' = Function.update s p
      { s p with pc := if (s p).level = 0 then .leave else .concurrent false }) ∨
    (∃ b, (s p).pc = .concurrent b ∧ l = .called (b :: p) granted ∧
      s' = Function.update (Function.update s (b :: p) ⟨(s p).level - 1, .entry, granted, 0⟩) p
        (if granted then { s p with pc := .after b, pending := (s p).pending + 1 }
        else { s p with pc := .call b })) ∨
    ((s p).pc = .await ∧ (s p).pending = 0 ∧ l = .awaited p ∧
      s' = Function.update s p { s p with pc := .leave }) ∨
    ((s p).pc = .leave ∧ l = .returned p ∧
      s' = finish (Function.update s p { s p with pc := .returned }) p) := by
  unfold step at h
  cases hpc : (s p).pc with
  | idle | call b | returned => simp [hpc] at h
  | entry =>
      simp only [hpc, Option.some.injEq, Prod.mk.injEq] at h
      exact .inl ⟨rfl, h.1.symm, h.2.symm⟩
  | concurrent b =>
      simp only [hpc, Option.some.injEq, Prod.mk.injEq] at h
      exact .inr (.inl ⟨b, rfl, h.1.symm, h.2.symm⟩)
  | await =>
      simp only [hpc] at h
      split at h
      case isFalse => cases h
      case isTrue hp =>
        simp only [Option.some.injEq, Prod.mk.injEq] at h
        exact .inr (.inr (.inl ⟨rfl, hp, h.1.symm, h.2.symm⟩))
  | leave =>
      simp only [hpc, Option.some.injEq, Prod.mk.injEq] at h
      exact .inr (.inr (.inr ⟨rfl, h.1.symm, h.2.symm⟩))

/-! ## The invariant -/

theorem initial_inv (depth : Nat) : Inv depth (initial depth) where
  root := by simp [initial]
  level p hp := by
    cases p with
    | nil => simp [initial]
    | cons b q => simp [initial] at hp
  shape p := by
    cases p with
    | nil => exact ⟨rfl, rfl, rfl⟩
    | cons b q => exact ⟨rfl, rfl, rfl⟩

/-- A call that looks the same leaves its parent as it is, and the root has no parent. -/
theorem children_update (hview : p = [] ∨ f.view = (s p).view) :
    children (Function.update s p f) = children s := by
  funext q b
  unfold children
  by_cases hp : b :: q = p
  · rcases hview with hroot | hview
    · exact absurd (hp.trans hroot) (List.cons_ne_nil b q)
    · rw [hp, Function.update_self, hview]
  · rw [Function.update_of_ne hp]

/-- A call concerns its parent only. -/
theorem children_update_of_ne (hq : p ≠ q) :
    children (Function.update s (b :: q) f) p = children s p := by
  funext c
  unfold children
  rw [Function.update_of_ne (fun h => hq (List.cons.inj h).2)]

theorem children_update_self :
    children (Function.update s (b :: q) f) q = Function.update (children s q) b f.view := by
  funext c
  unfold children
  by_cases hc : c = b
  · rw [hc, Function.update_self, Function.update_self]
  · rw [Function.update_of_ne hc, Function.update_of_ne (fun h => hc (List.cons.inj h).1)]

/-- A statement of one call that does not change how it looks to its parent. -/
theorem Inv.update (hi : Inv depth s) (hpc : (s p).pc ≠ .idle) (hf : f.pc ≠ .idle)
    (hview : p = [] ∨ f.view = (s p).view) (hlevel : f.level = (s p).level)
    (hshape : f.Shape (children s p)) : Inv depth (Function.update s p f) where
  root := by
    by_cases hp : [] = p
    · rwa [hp, Function.update_self]
    · rw [Function.update_of_ne hp]
      exact hi.root
  level q hq := by
    by_cases hp : q = p
    · subst hp
      rw [Function.update_self, hlevel]
      exact hi.level q hpc
    · rw [Function.update_of_ne hp] at hq ⊢
      exact hi.level q hq
  shape q := by
    rw [children_update hview]
    by_cases hp : q = p
    · subst hp
      rwa [Function.update_self]
    · rw [Function.update_of_ne hp]
      exact hi.shape q

/-- A child and its parent change, and the parent does not look different. -/
theorem Inv.update_child (hi : Inv depth s) (hpc : (s q).pc ≠ .idle) (hview : g.view = (s q).view)
    (hlevel : g.level = (s q).level) (hchild : f.level + 1 = (s q).level)
    (hself : f.Shape (children s (b :: q)))
    (hparent : g.Shape (Function.update (children s q) b f.view)) :
    Inv depth (Function.update (Function.update s (b :: q) f) q g) := by
  have hne : q ≠ b :: q := (List.cons_ne_self b q).symm
  have hq : Function.update s (b :: q) f q = s q := Function.update_of_ne hne _ _
  have hchildren := children_update (s := Function.update s (b :: q) f) (p := q) (f := g)
    (.inr (by rw [hq, hview]))
  have hdepth := hi.level q hpc
  refine ⟨?_, fun p hp => ?_, fun p => ?_⟩
  · by_cases hroot : [] = q
    · rw [hroot, Function.update_self]
      intro h
      exact hpc ((view_eq_idle _).1 (hview ▸ (view_eq_idle _).2 h))
    · rw [Function.update_of_ne hroot, Function.update_of_ne (List.cons_ne_nil b q).symm]
      exact hi.root
  · by_cases hpq : p = q
    · subst hpq
      rw [Function.update_self, hlevel, hdepth]
    · rw [Function.update_of_ne hpq] at hp ⊢
      by_cases hpb : p = b :: q
      · subst hpb
        rw [Function.update_self, List.length_cons]
        omega
      · rw [Function.update_of_ne hpb] at hp ⊢
        exact hi.level p hp
  · rw [hchildren]
    by_cases hpq : p = q
    · subst hpq
      rw [Function.update_self, children_update_self]
      exact hparent
    · rw [Function.update_of_ne hpq, children_update_of_ne hpq]
      by_cases hpb : p = b :: q
      · subst hpb
        rwa [Function.update_self]
      · rw [Function.update_of_ne hpb]
        exact hi.shape p

/-- Only `.call b` has a child that is not a task. -/
theorem Frame.Shape.caller {child : Bool → View} (h : f.Shape child)
    (hb : child b = .running false) : f.pc = .call b := by
  obtain ⟨-, hpc⟩ := h
  rcases hf : f.pc with _ | _ | (_ | _) | (_ | _) | _ | _ | _ <;> cases b <;> simp_all

/-- An inline call returns to the statement that made it. -/
theorem Frame.Shape.inline {child : Bool → View} (h : f.Shape child)
    (hb : child b = .running false) :
    { f with pc := .after b }.Shape (Function.update child b .done) := by
  have hcall := h.caller hb
  obtain ⟨hpending, hpc⟩ := h
  cases b <;> simp_all [Frame.Shape, Pc.after]

/-- A task of the group finishes. -/
theorem Frame.Shape.task {child : Bool → View} (h : f.Shape child)
    (hb : child b = .running true) :
    { f with pending := f.pending - 1 }.Shape (Function.update child b .done) := by
  obtain ⟨hpending, hpc⟩ := h
  cases b with
  | false => rcases hf : f.pc with _ | _ | (_ | _) | (_ | _) | _ | _ | _ <;>
      simp_all [Frame.Shape]
  | true => rcases hf : f.pc with _ | _ | (_ | _) | (_ | _) | _ | _ | _ <;>
      simp_all [Frame.Shape]

/-- A child is started. -/
theorem Frame.Shape.start {child : Bool → View} (h : f.Shape child) (hpc : f.pc = .concurrent b) :
    (if granted then { f with pc := .after b, pending := f.pending + 1 }
      else { f with pc := .call b }).Shape (Function.update child b (.running granted)) := by
  obtain ⟨hpending, hchildren⟩ := h
  cases b <;> cases granted <;> simp_all [Frame.Shape, Pc.after]

/-- The child it is about to start is idle. -/
theorem Frame.Shape.fresh {child : Bool → View} (h : f.Shape child) (hpc : f.pc = .concurrent b) :
    0 < f.level ∧ child b = .idle := by
  obtain ⟨-, hchildren⟩ := h
  cases b <;> simp_all

/-- A group without tasks has finished. -/
theorem Frame.Shape.joined {child : Bool → View} (h : f.Shape child) (hpc : f.pc = .await)
    (hnone : f.pending = 0) : { f with pc := .leave }.Shape child := by
  obtain ⟨hpending, hchildren⟩ := h
  simp only [hpc] at hchildren
  obtain ⟨hlevel, hfirst, hsecond⟩ := hchildren
  have hdone : ∀ v : View, v.Forked → v.busy = 0 → v = .done := by
    rintro v (rfl | rfl) hbusy
    · cases hbusy
    · rfl
  refine ⟨hpending, ?_⟩
  simp only [if_neg hlevel.ne']
  exact ⟨hdone _ hfirst (by omega), hdone _ hsecond (by omega)⟩

/-- A call that is not idle has a parent that is not. -/
theorem Inv.parent (hi : Inv depth s) (hb : (s (b :: q)).pc ≠ .idle) : (s q).pc ≠ .idle := by
  intro hq
  obtain ⟨-, hpc⟩ := hi.shape q
  simp only [hq] at hpc
  have hidle : children s q b = .idle := by
    cases b with
    | false => exact hpc.1
    | true => exact hpc.2
  exact hb ((view_eq_idle _).1 hidle)

/-- A call returns. -/
theorem Inv.leave (hi : Inv depth s) (hpc : (s p).pc = .leave) :
    Inv depth (finish (Function.update s p { s p with pc := .returned }) p) := by
  have hself : { s p with pc := .returned }.Shape (children s p) := by
    have hshape := hi.shape p
    simp only [Frame.Shape, hpc] at hshape
    exact hshape
  have hp : (s p).pc ≠ .idle := by simp [hpc]
  cases p with
  | nil => exact hi.update hp (by simp) (.inl rfl) rfl hself
  | cons b q =>
      have hne : q ≠ b :: q := (List.cons_ne_self b q).symm
      have hview : children s q b = .running (s (b :: q)).spawned := by
        simp [children, Frame.view, hpc]
      have hq := hi.parent hp
      have hchild := hi.level _ hp
      have hparent := hi.level _ hq
      rw [List.length_cons] at hchild
      simp only [finish, Function.update_self, Function.update_of_ne hne]
      -- the parent is in `.call b` if the call is inline, and counts the task otherwise
      cases hspawned : (s (b :: q)).spawned with
      | true =>
          rw [hspawned] at hview
          exact hi.update_child hq rfl rfl (by simp only; omega) hself
            ((hi.shape q).task hview)
      | false =>
          rw [hspawned] at hview
          have hcall := (hi.shape q).caller hview
          refine hi.update_child hq ?_ rfl (by simp only; omega) hself
            ((hi.shape q).inline hview)
          cases b <;> simp [Frame.view, hcall, Pc.after]

theorem step_inv (hi : Inv depth s) (h : step s p granted = some (l, s')) : Inv depth s' := by
  have hshape := hi.shape p
  rcases step_cases h with ⟨hpc, -, rfl⟩ | ⟨b, hpc, -, rfl⟩ | ⟨hpc, hpending, -, rfl⟩ |
    ⟨hpc, -, rfl⟩
  · have hp : (s p).pc ≠ .idle := by simp [hpc]
    simp only [Frame.Shape, hpc] at hshape
    by_cases hlevel : (s p).level = 0
    · rw [if_pos hlevel]
      refine hi.update hp (by simp) (.inr (by simp [Frame.view, hpc])) rfl ⟨hshape.1, ?_⟩
      simpa [hlevel] using hshape.2
    · rw [if_neg hlevel]
      exact hi.update hp (by simp) (.inr (by simp [Frame.view, hpc])) rfl
        ⟨hshape.1, Nat.pos_of_ne_zero hlevel, hshape.2⟩
  · have hp : (s p).pc ≠ .idle := by simp [hpc]
    obtain ⟨hlevel, hidle⟩ := hshape.fresh hpc
    have hchild := hi.shape (b :: p)
    simp only [Frame.Shape, (view_eq_idle _).1 hidle] at hchild
    refine hi.update_child hp ?_ ?_ (Nat.sub_add_cancel hlevel) ?_ (hshape.start hpc)
    · cases granted <;> cases b <;> simp [Frame.view, hpc, Pc.after]
    · cases granted <;> rfl
    · refine ⟨?_, hchild.2⟩
      rw [hchild.2.1, hchild.2.2]
      rfl
  · have hp : (s p).pc ≠ .idle := by simp [hpc]
    exact hi.update hp (by simp) (.inr (by simp [Frame.view, hpc])) rfl
      (hshape.joined hpc hpending)
  · exact hi.leave hpc

theorem reachable_inv (h : (system depth).Reachable s) : Inv depth s := by
  refine System.Reachable.invariant ?_ ?_ h
  · rintro _ rfl
    exact initial_inv depth
  · rintro s l s' hi ⟨p, granted, hstep⟩
    exact step_inv hi hstep

/-! ## Every call is made once -/

/-- How often a call was made. -/
def Pc.called : Pc → Nat
  | .idle => 0
  | .entry | .concurrent _ | .call _ | .await | .leave | .returned => 1

/-- How often it was entered. -/
def Pc.begun : Pc → Nat
  | .idle | .entry => 0
  | .concurrent _ | .call _ | .await | .leave | .returned => 1

/-- The statements it has still to execute, and those of its callers that it stands for. -/
def Pc.rank : Pc → Nat
  | .idle => 8
  | .entry => 7
  | .concurrent false => 6
  | .call false => 5
  | .concurrent true => 4
  | .call true => 3
  | .await => 2
  | .leave => 1
  | .returned => 0

theorem called_le_one (pc : Pc) : pc.called ≤ 1 := by
  cases pc <;> simp [Pc.called]

theorem begun_le_one (pc : Pc) : pc.begun ≤ 1 := by
  cases pc <;> simp [Pc.begun]

theorem rank_le (pc : Pc) : pc.rank ≤ 8 := by
  rcases pc with _ | _ | (_ | _) | (_ | _) | _ | _ | _ <;> decide

/-- A number of a call that one update does not change. -/
theorem pc_update {γ : Type} (m : Pc → γ) (h : m f.pc = m (s p).pc) (q : Address) :
    m (Function.update s p f q).pc = m (s q).pc := by
  by_cases hq : q = p
  · rw [hq, Function.update_self, h]
  · rw [Function.update_of_ne hq]

/-- The end of a call moves its caller on, if the call is inline. -/
theorem finish_pc (hi : Inv depth s) (hpc : (s p).pc = .leave) (q : Address) :
    (finish (Function.update s p { s p with pc := .returned }) p q).pc =
        (Function.update s p { s p with pc := .returned } q).pc ∨
      ∃ b, (s q).pc = .call b ∧
        (finish (Function.update s p { s p with pc := .returned }) p q).pc = .after b := by
  cases p with
  | nil => exact .inl rfl
  | cons b r =>
      have hne : r ≠ b :: r := (List.cons_ne_self b r).symm
      simp only [finish, Function.update_self, Function.update_of_ne hne]
      by_cases hq : q = r
      · subst hq
        cases hspawned : (s (b :: q)).spawned with
        | true => exact .inl (by simp)
        | false =>
            have hview : children s q b = .running false := by
              simp [children, Frame.view, hpc, hspawned]
            exact .inr ⟨b, (hi.shape q).caller hview, by simp⟩
      · exact .inl (by rw [Function.update_of_ne hq])

/-- A call starts its child, and goes on or waits for it. -/
theorem start_pc (granted : Bool) (hi : Inv depth s) (hpc : (s p).pc = .concurrent b)
    (q : Address) :
    let s' := Function.update (Function.update s (b :: p) ⟨(s p).level - 1, .entry, granted, 0⟩) p
      (if granted then { s p with pc := .after b, pending := (s p).pending + 1 }
      else { s p with pc := .call b })
    (q = b :: p ∧ (s q).pc = .idle ∧ (s' q).pc = .entry) ∨
    (q = p ∧ ((s' q).pc = .after b ∨ (s' q).pc = .call b)) ∨
    (q ≠ b :: p ∧ q ≠ p ∧ s' q = s q) := by
  intro s'
  have hidle : (s (b :: p)).pc = .idle := (view_eq_idle _).1 ((hi.shape p).fresh hpc).2
  by_cases hq : q = p
  · subst hq
    refine .inr (.inl ⟨rfl, ?_⟩)
    simp only [s', Function.update_self]
    cases granted with
    | true => exact .inl rfl
    | false => exact .inr rfl
  · by_cases hb : q = b :: p
    · subst hb
      exact .inl ⟨rfl, hidle, by simp only [s', Function.update_of_ne hq, Function.update_self]⟩
    · refine .inr (.inr ⟨hb, hq, ?_⟩)
      simp only [s', Function.update_of_ne hq, Function.update_of_ne hb]

/-- A step makes the call it is labelled with, and begins the one it is labelled with. -/
theorem step_account (hi : Inv depth s) (h : step s p granted = some (l, s')) (q : Address) :
    (s' q).pc.called = (s q).pc.called + l.calls.count q ∧
      (s' q).pc.begun = (s q).pc.begun + l.entries.count q := by
  rcases step_cases h with ⟨hpc, rfl, rfl⟩ | ⟨b, hpc, rfl, rfl⟩ | ⟨hpc, -, rfl, rfl⟩ |
    ⟨hpc, rfl, rfl⟩
  · by_cases hq : q = p
    · subst hq
      rw [Function.update_self, hpc]
      split <;> simp [Label.calls, Label.entries, Pc.called, Pc.begun]
    · rw [Function.update_of_ne hq]
      simp [Label.calls, Label.entries, Ne.symm hq]
  · rcases start_pc granted hi hpc q with ⟨rfl, hidle, hentry⟩ | ⟨rfl, hnext⟩ |
      ⟨hb, hq, hsame⟩
    · rw [hentry, hidle]
      simp [Label.calls, Label.entries, Pc.called, Pc.begun]
    · have hne : q ≠ b :: q := (List.cons_ne_self b q).symm
      rcases hnext with hnext | hnext <;> rw [hnext, hpc] <;> cases b <;>
        simp [Label.calls, Label.entries, Pc.called, Pc.begun, Pc.after]
    · rw [hsame]
      simp [Label.calls, Label.entries, Ne.symm hb]
  · constructor
    · rw [pc_update Pc.called (by rw [hpc]; rfl)]
      rfl
    · rw [pc_update Pc.begun (by rw [hpc]; rfl)]
      rfl
  · have hcalled := pc_update (f := { s p with pc := .returned }) Pc.called (by rw [hpc]; rfl) q
    have hbegun := pc_update (f := { s p with pc := .returned }) Pc.begun (by rw [hpc]; rfl) q
    rcases finish_pc hi hpc q with hsame | ⟨b, hcall, hafter⟩
    · rw [hsame]
      exact ⟨hcalled, hbegun⟩
    · rw [hafter, hcall]
      cases b <;> exact ⟨rfl, rfl⟩

/-- A statement of one call. -/
theorem rank_update (hlt : f.pc.rank < (s p).pc.rank) :
    (∀ q, (Function.update s p f q).pc.rank ≤ (s q).pc.rank) ∧
      (Function.update s p f p).pc.rank < (s p).pc.rank := by
  refine ⟨fun q => ?_, by rwa [Function.update_self]⟩
  by_cases hq : q = p
  · subst hq
    rw [Function.update_self]
    exact hlt.le
  · rw [Function.update_of_ne hq]

/-- A step brings no call back, and the call that makes it goes on. -/
theorem step_rank (hi : Inv depth s) (h : step s p granted = some (l, s')) :
    (∀ q, (s' q).pc.rank ≤ (s q).pc.rank) ∧ (s' p).pc.rank < (s p).pc.rank := by
  rcases step_cases h with ⟨hpc, rfl, rfl⟩ | ⟨b, hpc, rfl, rfl⟩ | ⟨hpc, -, rfl, rfl⟩ |
    ⟨hpc, rfl, rfl⟩
  · apply rank_update
    rw [hpc]
    split <;> simp [Pc.rank]
  · refine ⟨fun q => ?_, ?_⟩
    · rcases start_pc granted hi hpc q with ⟨rfl, hidle, hentry⟩ | ⟨rfl, hnext⟩ |
        ⟨hb, hq, hsame⟩
      · rw [hentry, hidle]
        decide
      · rcases hnext with hnext | hnext <;> rw [hnext, hpc] <;> cases b <;> decide
      · rw [hsame]
    · rw [Function.update_self, hpc]
      cases granted <;> cases b <;> simp [Pc.rank, Pc.after]
  · apply rank_update
    rw [hpc]
    simp [Pc.rank]
  · obtain ⟨hle, hlt⟩ := rank_update (s := s) (p := p) (f := { s p with pc := .returned })
      (by rw [hpc]; simp [Pc.rank])
    refine ⟨fun q => ?_, ?_⟩
    · rcases finish_pc hi hpc q with hsame | ⟨b, hcall, hafter⟩
      · rw [hsame]
        exact hle q
      · rw [hafter, hcall]
        cases b <;> decide
    · rcases finish_pc hi hpc p with hsame | ⟨b, hcall, -⟩
      · rwa [hsame]
      · rw [hpc] at hcall
        cases hcall

/-- The calls that were made and begun, by the states they are in. -/
structure Account (tr : List Label) (s : State) : Prop where
  called : ∀ p, (calls tr).count p = (s p).pc.called
  begun : ∀ p, (entries tr).count p = (s p).pc.begun

variable {tr : List Label}

theorem run_account (h : (system depth).Run tr s) : Account tr s := by
  refine System.Run.invariant (I := Account) ?_ ?_ h
  · rintro _ rfl
    refine ⟨fun p => ?_, fun p => ?_⟩
    · cases p with
      | nil => rfl
      | cons b q => simp [calls, initial, Pc.called]
    · cases p <;> rfl
  · rintro tr s l s' hr ⟨hcalled, hbegun⟩ ⟨p, granted, hstep⟩
    have haccount := step_account (reachable_inv hr.reachable) hstep
    refine ⟨fun q => ?_, fun q => ?_⟩
    · rw [(haccount q).1, ← hcalled q]
      simp [calls, List.count_cons]
      omega
    · rw [(haccount q).2, ← hbegun q]
      simp [entries]

/-! ## The join -/

/-- A call that has returned is above calls that have returned. -/
theorem Inv.below (hi : Inv depth s) (hp : (s p).pc = .returned) (hsuffix : p <:+ q)
    (hq : q.length ≤ depth) : (s q).pc = .returned := by
  obtain ⟨w, rfl⟩ := hsuffix
  induction w with
  | nil => exact hp
  | cons b w ih =>
      have hparent : (s (w ++ p)).pc = .returned := ih (by simp at hq ⊢; omega)
      have hlevel := hi.level (w ++ p) (by simp [hparent])
      obtain ⟨-, hshape⟩ := hi.shape (w ++ p)
      simp only [hparent] at hshape
      have hne : (s (w ++ p)).level ≠ 0 := by
        simp only [List.cons_append, List.length_cons] at hq
        omega
      rw [if_neg hne] at hshape
      have hdone : children s (w ++ p) b = .done := by
        cases b with
        | false => exact hshape.1
        | true => exact hshape.2
      exact (view_eq_done _).1 hdone

/-- A call below the leaves of the tree is never made. -/
theorem Inv.idle (hi : Inv depth s) (hp : depth < p.length) : (s p).pc = .idle := by
  by_contra hne
  have hlevel := hi.level p hne
  omega

/-- The shift does not lose the bit. -/
theorem toNat_totalNodes (h : depth < 63) : (totalNodes depth).toNat = (nodes depth).length := by
  have hlength := length_nodes depth
  have hlt : 2 ^ (depth + 1) < 2 ^ 64 := Nat.pow_lt_pow_right (by decide) (by omega)
  have hamount : (UInt64.ofNat (depth + 1)).toNat = depth + 1 :=
    UInt64.toNat_ofNat_of_lt' (show depth + 1 < 2 ^ 64 by omega)
  have hshift : ((1 : UInt64) <<< UInt64.ofNat (depth + 1)).toNat = 2 ^ (depth + 1) := by
    rw [UInt64.toNat_shiftLeft, hamount, Nat.mod_eq_of_lt (show depth + 1 < 64 by omega)]
    simpa [Nat.shiftLeft_eq] using Nat.mod_eq_of_lt hlt
  have hpos : 0 < 2 ^ (depth + 1) := Nat.two_pow_pos _
  rw [totalNodes, UInt64.toNat_sub_of_le, hshift]
  · simp only [UInt64.toNat_one]
    omega
  · rw [UInt64.le_iff_toNat_le, hshift]
    exact hpos

/-- `node` joins what it starts. No call is made or begun twice; a call that has returned is above
calls that have all returned; and when the call of `main` returns, every node of the tree was called
and entered exactly once, `total_nodes` of them, and no task is left. -/
theorem node_joins (hdepth : depth < 63) (h : (system depth).Run tr s) :
    (calls tr).Nodup ∧ (entries tr).Nodup ∧
    (∀ p q, (s p).pc = .returned → p <:+ q → q.length ≤ depth → (s q).pc = .returned) ∧
    ((s []).pc = .returned →
      (calls tr).Perm (nodes depth) ∧ (entries tr).Perm (nodes depth) ∧
      (entries tr).length = (totalNodes depth).toNat ∧
      ∀ p, (s p).view = .idle ∨ (s p).view = .done) := by
  have hi := reachable_inv h.reachable
  obtain ⟨hcalled, hbegun⟩ := run_account h
  refine ⟨?_, ?_, fun p q hp hsuffix hq => hi.below hp hsuffix hq, fun hroot => ?_⟩
  · rw [List.nodup_iff_count_le_one]
    intro p
    rw [hcalled p]
    exact called_le_one _
  · rw [List.nodup_iff_count_le_one]
    intro p
    rw [hbegun p]
    exact begun_le_one _
  · have hin : ∀ p : Address, p.length ≤ depth → (s p).pc = .returned :=
      fun p hp => hi.below hroot (List.nil_suffix) hp
    have hout : ∀ p : Address, depth < p.length → (s p).pc = .idle := fun p hp => hi.idle hp
    have hentries : (entries tr).Perm (nodes depth) :=
      perm_nodes (fun p hp => by rw [hbegun, hin p hp]; rfl)
        (fun p hp => by rw [hbegun, hout p hp]; rfl)
    refine ⟨?_, hentries, by rw [hentries.length_eq, toNat_totalNodes hdepth], fun p => ?_⟩
    · exact perm_nodes (fun p hp => by rw [hcalled, hin p hp]; rfl)
        (fun p hp => by rw [hcalled, hout p hp]; rfl)
    · rw [view_eq_idle, view_eq_done]
      rcases Nat.lt_or_ge depth p.length with hp | hp
      · exact .inl (hout p hp)
      · exact .inr (hin p hp)

theorem run_of_replay {as : List (Address × Bool)} {r : List Label × State}
    (h : System.replay (fun s a => step s a.1 a.2) (initial depth) as = some r) :
    (system depth).Run r.1 r.2 :=
  System.Run.of_replay (T := system depth) (fun _ a _ _ ha => ⟨a.1, a.2, ha⟩) rfl h

/-- A tree of three nodes: the first child is a task, the second one an inline call. -/
def threeNodes : List Label × State :=
  (System.replay (fun s a => step s a.1 a.2) (initial 1)
    [([], true), ([], true), ([], false), ([true], true), ([true], true), ([false], true),
      ([false], true), ([], true), ([], true)]).get rfl

theorem node_joins_three : totalNodes 1 = 3 ∧
    (system 1).Run threeNodes.1 threeNodes.2 ∧
      threeNodes.1 = [.entered [], .called [false] true, .called [true] false, .entered [true],
        .returned [true], .entered [false], .returned [false], .awaited [], .returned []] ∧
      (entries threeNodes.1).length = (totalNodes 1).toNat := by
  have h : (system 1).Run threeNodes.1 threeNodes.2 := run_of_replay (Option.some_get _).symm
  exact ⟨by decide, h, rfl, ((node_joins (by decide) h).2.2.2 rfl).2.2.1⟩

/-! ## No call waits for ever -/

/-- What is still to execute. -/
def rank (depth : Nat) (s : State) : Nat := ((nodes depth).map fun p => (s p).pc.rank).sum

theorem rank_lt (hi : Inv depth s) (h : step s p granted = some (l, s')) :
    rank depth s' < rank depth s := by
  obtain ⟨hle, hlt⟩ := step_rank hi h
  refine List.sum_lt_sum _ _ (fun q _ => hle q) ⟨p, mem_nodes.2 ?_, hlt⟩
  by_contra hp
  have hidle := hi.idle (Nat.lt_of_not_le hp)
  simp [step, hidle] at h

/-- A deepest call that runs can go on: it is in no inline call, and its group has no task. -/
theorem Inv.deepest (hi : Inv depth s) {sp : Bool} (hp : (s p).view = .running sp)
    (hdeep : ∀ b sp, (s (b :: p)).view ≠ .running sp) : (step s p true).isSome := by
  have hshape := hi.shape p
  cases hpc : (s p).pc with
  | idle => simp [Frame.view, hpc] at hp
  | returned => simp [Frame.view, hpc] at hp
  | entry | concurrent b | leave => simp [step, hpc]
  | call b =>
      simp only [Frame.Shape, hpc] at hshape
      cases b with
      | false => exact absurd hshape.2.2.1 (hdeep false false)
      | true => exact absurd hshape.2.2.2 (hdeep true false)
  | await =>
      have hnone : ∀ b, (children s p b).busy = 0 := by
        intro b
        cases hv : children s p b with
        | idle | done => rfl
        | running sp => exact absurd hv (hdeep b sp)
      have hpending : (s p).pending = 0 := by rw [hshape.1, hnone, hnone]
      simp [step, hpc, hpending]

/-- Below a call that runs there is one that can go on. -/
theorem Inv.running_progress (hi : Inv depth s) {sp : Bool} (hp : (s p).view = .running sp) :
    ∃ l s', (system depth).step s l s' := by
  induction hn : depth - p.length using Nat.strongRecOn generalizing p sp with
  | _ n ih =>
      by_cases hdeep : ∀ b sp, (s (b :: p)).view ≠ .running sp
      · obtain ⟨⟨l, s'⟩, hstep⟩ := Option.isSome_iff_exists.1 (hi.deepest hp hdeep)
        exact ⟨l, s', p, true, hstep⟩
      · simp only [not_forall, not_not] at hdeep
        obtain ⟨b, sp', hchild⟩ := hdeep
        have hlevel := hi.level (b :: p) (fun h => by simp [Frame.view, h] at hchild)
        rw [List.length_cons] at hlevel
        exact ih (depth - (b :: p).length) (by rw [List.length_cons]; omega) hchild rfl

theorem Inv.progress (hi : Inv depth s) (hroot : (s []).pc ≠ .returned) :
    ∃ l s', (system depth).step s l s' := by
  cases hv : (s []).view with
  | idle => exact absurd ((view_eq_idle _).1 hv) hi.root
  | done => exact absurd ((view_eq_done _).1 hv) hroot
  | running sp => exact hi.running_progress hv

theorem rank_initial (depth : Nat) : rank depth (initial depth) < 8 * (nodes depth).length := by
  have hlt : rank depth (initial depth) < ((nodes depth).map fun _ => 8).sum := by
    refine List.sum_lt_sum _ _ (fun p _ => rank_le _) ⟨[], mem_nodes.2 (Nat.zero_le _), ?_⟩
    simp [initial, Pc.rank]
  simpa [Nat.mul_comm] using hlt

/-- `node` terminates under every schedule and whatever the backend grants: no state is stuck before
the call of `main` has returned, and no run takes eight steps or more for each node. -/
theorem node_terminates (h : (system depth).Run tr s) :
    ((s []).pc ≠ .returned → ∃ l s', (system depth).step s l s') ∧
    tr.length < 8 * (nodes depth).length := by
  refine ⟨(reachable_inv h.reachable).progress, ?_⟩
  obtain ⟨a, rfl, hp⟩ := h
  have hlength := hp.length_le (μ := rank depth) ?_ (System.Run.nil rfl).reachable
  · have hinit := rank_initial depth
    omega
  · rintro s l s' hr ⟨p, granted, hstep⟩
    exact rank_lt (reachable_inv hr) hstep

/-- The run of the tree of three nodes: `main` gets its call back after nine steps. -/
theorem node_terminates_three :
    (system 1).Run threeNodes.1 threeNodes.2 ∧ (threeNodes.2 []).pc = .returned ∧
      threeNodes.1.length = 9 ∧ threeNodes.1.length < 8 * (nodes 1).length := by
  have h : (system 1).Run threeNodes.1 threeNodes.2 := run_of_replay (Option.some_get _).symm
  exact ⟨h, rfl, rfl, (node_terminates h).2⟩

end ZioBenchmarks.SpawnTree
