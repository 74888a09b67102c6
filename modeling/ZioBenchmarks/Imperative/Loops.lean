import Mathlib.Data.List.Basic

/-!
# Loops that can raise

A program returns or raises, and leaves a state in both cases. `Triple P m Q E`: from a state with
`P` it returns with `Q` or raises with `E`. A loop has an invariant that may read which elements are
done (`Triple.forEach`), and the cleanup of `tryFinally` runs either way (`Triple.tryFinally`).
-/

set_option autoImplicit false

namespace ZioBenchmarks.Imperative

universe u v w

variable {σ : Type u} {ε : Type v} {α : Type w}

/-- A program over states. -/
abbrev Prog (σ : Type u) (ε : Type v) := σ → Except ε Unit × σ

/-- `for x in l: body`. -/
def forEach : List α → (α → Prog σ ε) → Prog σ ε
  | [], _, s => (.ok (), s)
  | x :: l, body, s =>
      match body x s with
      | (.ok _, s') => forEach l body s'
      | (.error e, s') => (.error e, s')

/-- `try: m finally: cleanup`. -/
def tryFinally (m : Prog σ ε) (cleanup : σ → σ) : Prog σ ε := fun s =>
  ((m s).1, cleanup (m s).2)

/-- From `P` the program returns in `Q` or raises in `E`. -/
def Triple (P : σ → Prop) (m : Prog σ ε) (Q E : σ → Prop) : Prop :=
  ∀ s, P s →
    match m s with
    | (.ok _, s') => Q s'
    | (.error _, s') => E s'

namespace Triple

variable {P Q Q' E E' : σ → Prop} {m : Prog σ ε} {body : α → Prog σ ε} {cleanup : σ → σ}

theorem consequence (h : Triple P m Q E) (hQ : ∀ s, Q s → Q' s) (hE : ∀ s, E s → E' s) :
    Triple P m Q' E' := by
  intro s hs
  have hm := h s hs
  revert hm
  cases m s with
  | mk r s' =>
      cases r with
      | ok _ => exact hQ s'
      | error _ => exact hE s'

/-- The rule of the loop: `I done` holds when the elements of `done` have had their turn. -/
theorem forEach {I : List α → σ → Prop} {l : List α}
    (h : ∀ done x rest, l = done ++ x :: rest →
      Triple (I done) (body x) (I (done ++ [x])) E) :
    Triple (I []) (Imperative.forEach l body) (I l) E := by
  have hrest : ∀ rest done, l = done ++ rest →
      Triple (I done) (Imperative.forEach rest body) (I l) E := by
    intro rest
    induction rest with
    | nil =>
        intro done hl s hs
        rw [List.append_nil] at hl
        rw [hl]
        exact hs
    | cons x rest ih =>
        intro done hl s hs
        have hbody := h done x rest hl s hs
        have htail := ih (done ++ [x]) (by rw [hl, List.append_assoc]; rfl)
        unfold Imperative.forEach
        revert hbody
        cases body x s with
        | mk r s' =>
            cases r with
            | ok _ => exact htail s'
            | error _ => exact fun he => he
  exact hrest l [] rfl

/-- The cleanup runs in both cases. -/
theorem tryFinally (h : Triple P m (fun s => Q (cleanup s)) fun s => E (cleanup s)) :
    Triple P (Imperative.tryFinally m cleanup) Q E := by
  intro s hs
  have hm := h s hs
  revert hm
  unfold Imperative.tryFinally
  cases m s with
  | mk r s' =>
      cases r with
      | ok _ => exact id
      | error _ => exact id

end Triple

end ZioBenchmarks.Imperative
