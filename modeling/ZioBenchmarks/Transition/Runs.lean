import Mathlib.Logic.Relation

/-!
# Labelled transition systems

A system is a set of initial states and a labelled step relation. A path lists the labels of
consecutive steps, oldest first, and a run is a path from an initial state, so that an argument by
induction on a run extends it at the end. The rules below are the ones a proof about a concrete
system uses: an invariant that may read the labels seen so far (`Run.invariant`), a measure that
every step decreases (`Path.length_le`, `Reachable.exists_final`) or every step but those of the
environment (`Path.countP_le`, `Reachable.exists_final_own`), a bound on the length of every run
(`Run.exists_final`), a simulation that drops some of the labels (`Path.erase`), and a function
between the states that carries paths over (`Path.map`) and back (`Path.lift`). Where the steps are
those of a partial function, `replay` runs a list of its actions.
-/

set_option autoImplicit false

namespace ZioBenchmarks.Transition

universe u v w

/-- A labelled transition system. -/
structure System (σ : Type u) (ℓ : Type v) where
  init : σ → Prop
  step : σ → ℓ → σ → Prop

namespace System

variable {σ : Type u} {ℓ : Type v} (T : System σ ℓ)

/-- Consecutive steps from `a`, with their labels in order. -/
inductive Path (a : σ) : List ℓ → σ → Prop
  | nil : Path a [] a
  | snoc {tr : List ℓ} {b c : σ} {l : ℓ} : Path a tr b → T.step b l c → Path a (tr ++ [l]) c

/-- A path from an initial state. -/
def Run (tr : List ℓ) (s : σ) : Prop := ∃ a, T.init a ∧ T.Path a tr s

/-- A state that some run ends in. -/
def Reachable (s : σ) : Prop := ∃ tr, T.Run tr s

variable {T}

theorem Path.append {a b c : σ} {tr us : List ℓ} (h : T.Path a tr b) (h' : T.Path b us c) :
    T.Path a (tr ++ us) c := by
  induction h' with
  | nil => simpa using h
  | snoc _ hstep ih =>
      rw [← List.append_assoc]
      exact ih.snoc hstep

theorem Path.single {a b : σ} {l : ℓ} (h : T.step a l b) : T.Path a [l] b :=
  by simpa using Path.snoc .nil h

theorem Run.nil {a : σ} (h : T.init a) : T.Run [] a := ⟨a, h, .nil⟩

theorem Run.snoc {tr : List ℓ} {s s' : σ} {l : ℓ} (h : T.Run tr s) (hstep : T.step s l s') :
    T.Run (tr ++ [l]) s' := by
  obtain ⟨a, ha, hp⟩ := h
  exact ⟨a, ha, hp.snoc hstep⟩

theorem Run.append {tr us : List ℓ} {s s' : σ} (h : T.Run tr s) (h' : T.Path s us s') :
    T.Run (tr ++ us) s' := by
  obtain ⟨a, ha, hp⟩ := h
  exact ⟨a, ha, hp.append h'⟩

theorem Run.reachable {tr : List ℓ} {s : σ} (h : T.Run tr s) : T.Reachable s := ⟨tr, h⟩

theorem Reachable.step {s s' : σ} {l : ℓ} (h : T.Reachable s) (hstep : T.step s l s') :
    T.Reachable s' := by
  obtain ⟨tr, hr⟩ := h
  exact (hr.snoc hstep).reachable

/-- Induction on a run: the predicate may read the labels of the run so far. -/
theorem Run.invariant {I : List ℓ → σ → Prop} (hinit : ∀ a, T.init a → I [] a)
    (hstep : ∀ tr s l s', T.Run tr s → I tr s → T.step s l s' → I (tr ++ [l]) s')
    {tr : List ℓ} {s : σ} (h : T.Run tr s) : I tr s := by
  obtain ⟨a, ha, hp⟩ := h
  induction hp with
  | nil => exact hinit a ha
  | snoc hp' hs ih => exact hstep _ _ _ _ ⟨a, ha, hp'⟩ ih hs

/-- An invariant of the states alone. -/
theorem Reachable.invariant {I : σ → Prop} (hinit : ∀ a, T.init a → I a)
    (hstep : ∀ s l s', I s → T.step s l s' → I s') {s : σ} (h : T.Reachable s) : I s := by
  obtain ⟨tr, hr⟩ := h
  exact Run.invariant (I := fun _ s => I s) hinit (fun _ s l s' _ hi hs => hstep s l s' hi hs) hr

/-- The continuation form of `Run.invariant`: an invariant of the path that follows a run. -/
theorem Path.invariant {I : List ℓ → σ → Prop} {pre : List ℓ} {a : σ} (hpre : T.Run pre a)
    (hinit : I [] a)
    (hstep : ∀ tr s l s', T.Run (pre ++ tr) s → I tr s → T.step s l s' → I (tr ++ [l]) s')
    {tr : List ℓ} {s : σ} (h : T.Path a tr s) : I tr s := by
  induction h with
  | nil => exact hinit
  | snoc hp hs ih => exact hstep _ _ _ _ (hpre.append hp) ih hs

section Progress

variable {μ : σ → Nat} {final : σ → Prop} (own : ℓ → Bool) {c : Nat}

/-- A bound on the system's own steps, from a measure that each of them decreases and that a step of
the environment raises by `c` at most. -/
theorem Path.countP_le
    (hdec : ∀ s l s', T.Reachable s → T.step s l s' → own l = true → μ s' < μ s)
    (henv : ∀ s l s', T.Reachable s → T.step s l s' → own l = false → μ s' ≤ μ s + c) {a s : σ}
    {tr : List ℓ} (ha : T.Reachable a) (h : T.Path a tr s) :
    tr.countP own + μ s ≤ μ a + c * tr.countP fun l => !own l := by
  obtain ⟨pre, hpre⟩ := ha
  refine Path.invariant
    (I := fun tr s => tr.countP own + μ s ≤ μ a + c * tr.countP fun l => !own l) hpre (by simp) ?_ h
  intro tr s l s' hr hi hs
  rw [List.countP_append, List.countP_append, List.countP_singleton, List.countP_singleton]
  cases hl : own l with
  | true =>
      have hlt := hdec s l s' hr.reachable hs hl
      simp only [if_true, Bool.not_true, Bool.false_eq_true, if_false, Nat.add_zero]
      omega
  | false =>
      have hle := henv s l s' hr.reachable hs hl
      simp only [Bool.false_eq_true, if_false, Bool.not_false, if_true, Nat.mul_add, Nat.mul_one,
        Nat.add_zero]
      omega

/-- A bound on the length of every path, from a measure that each step decreases. -/
theorem Path.length_le (hdec : ∀ s l s', T.Reachable s → T.step s l s' → μ s' < μ s) {a s : σ}
    {tr : List ℓ} (ha : T.Reachable a) (h : T.Path a tr s) : tr.length + μ s ≤ μ a := by
  have hle := h.countP_le (fun _ => true) (c := 0) (fun s l s' hr hs _ => hdec s l s' hr hs)
    (fun _ _ _ _ _ hl => by cases hl) ha
  rwa [List.countP_true, Nat.zero_mul, Nat.add_zero] at hle

/-- If the only states that are stuck without the environment are final, and the system's own steps
decrease a measure, they can always go on to a final state. -/
theorem Reachable.exists_final_own
    (hdec : ∀ s l s', T.Reachable s → T.step s l s' → own l = true → μ s' < μ s)
    (hprog : ∀ s, T.Reachable s → ¬ final s → ∃ l s', T.step s l s' ∧ own l = true) {s : σ}
    (h : T.Reachable s) : ∃ tr s', T.Path s tr s' ∧ (∀ l ∈ tr, own l = true) ∧ final s' := by
  induction hn : μ s using Nat.strongRecOn generalizing s with
  | _ n ih =>
      by_cases hf : final s
      · exact ⟨[], s, .nil, fun _ hl => absurd hl List.not_mem_nil, hf⟩
      · obtain ⟨l, s', hs, hl⟩ := hprog s h hf
        obtain ⟨tr, t, hp, hown, ht⟩ := ih (μ s') (hn ▸ hdec s l s' h hs hl) (h.step hs) rfl
        refine ⟨[l] ++ tr, t, (Path.single hs).append hp, ?_, ht⟩
        intro m hm
        rw [List.singleton_append, List.mem_cons] at hm
        rcases hm with rfl | hm
        · exact hl
        · exact hown m hm

/-- If the only states that are stuck are final, a system whose steps decrease a measure can always
go on to a final state. -/
theorem Reachable.exists_final (hdec : ∀ s l s', T.Reachable s → T.step s l s' → μ s' < μ s)
    (hprog : ∀ s, T.Reachable s → ¬ final s → ∃ l s', T.step s l s') {s : σ}
    (h : T.Reachable s) : ∃ tr s', T.Path s tr s' ∧ final s' := by
  have hprog' : ∀ s, T.Reachable s → ¬ final s → ∃ l s', T.step s l s' ∧ true = true := by
    intro s hr hf
    obtain ⟨l, s', hs⟩ := hprog s hr hf
    exact ⟨l, s', hs, rfl⟩
  obtain ⟨tr, s', hp, -, hf⟩ :=
    h.exists_final_own (fun _ => true) (fun s l s' hr hs _ => hdec s l s' hr hs) hprog'
  exact ⟨tr, s', hp, hf⟩

/-- If no run is longer than `b`, and every state with the property `P` that is not final has a step
that keeps it, such a state can always go on to a final one. -/
theorem Run.exists_final {P : σ → Prop} {b : Nat} (hlen : ∀ tr s, T.Run tr s → tr.length ≤ b)
    (hprog : ∀ s, T.Reachable s → P s → ¬ final s → ∃ l s', T.step s l s' ∧ P s') {tr : List ℓ}
    {s : σ} (h : T.Run tr s) (hP : P s) : ∃ us s', T.Path s us s' ∧ final s' := by
  induction hn : b - tr.length using Nat.strongRecOn generalizing tr s with
  | _ n ih =>
      by_cases hf : final s
      · exact ⟨[], s, .nil, hf⟩
      · obtain ⟨l, s', hs, hP'⟩ := hprog s h.reachable hP hf
        have hlt := hlen _ _ (h.snoc hs)
        rw [List.length_append, List.length_singleton] at hlt
        obtain ⟨us, t, hp, ht⟩ := ih (b - (tr ++ [l]).length)
          (by rw [List.length_append, List.length_singleton]; omega) (h.snoc hs) hP' rfl
        exact ⟨[l] ++ us, t, (Path.single hs).append hp, ht⟩

end Progress

section Erasure

variable {σ' : Type w} {T' : System σ' ℓ}

/-- Label erasure. `G` says of a state that it can still lead to the states the simulation is
about; it is inherited backwards, so that it holds all along a path that ends in `G`. A kept label
is a step of both systems, an erased one leaves the second system where it is. -/
theorem Path.erase {R : σ → σ' → Prop} {G : σ → Prop} {keep : ℓ → Bool} {pre : List ℓ} {a : σ}
    {a' : σ'} (hpre : T.Run pre a)
    (hback : ∀ s l s', T.Reachable s → T.step s l s' → G s' → G s)
    (hkeep : ∀ s l s' t, T.Reachable s → T.step s l s' → G s' → R s t → keep l = true →
      ∃ t', T'.step t l t' ∧ R s' t')
    (hdrop : ∀ s l s' t, T.Reachable s → T.step s l s' → G s' → R s t → keep l = false → R s' t)
    {tr : List ℓ} {s : σ} (h : T.Path a tr s) (hR : R a a') (hG : G s) :
    ∃ t, T'.Path a' (tr.filter keep) t ∧ R s t := by
  induction h with
  | nil => exact ⟨a', .nil, hR⟩
  | @snoc tr b c l hp hs ih =>
      have hb : T.Reachable b := (hpre.append hp).reachable
      obtain ⟨t, ht, hRt⟩ := ih (hback _ _ _ hb hs hG)
      cases hl : keep l with
      | true =>
          obtain ⟨t', hstep', hRt'⟩ := hkeep _ _ _ t hb hs hG hRt hl
          exact ⟨t', by simpa [List.filter_append, hl] using ht.snoc hstep', hRt'⟩
      | false =>
          exact ⟨t, by simpa [List.filter_append, hl] using ht, hdrop _ _ _ t hb hs hG hRt hl⟩

end Erasure

section Map

variable {σ' : Type w} {T' : System σ' ℓ} {f : σ → σ'}

/-- A function between the states that keeps the steps carries a path over, with the same labels. -/
theorem Path.map {pre : List ℓ} {a : σ} (hpre : T.Run pre a)
    (hstep : ∀ s l s', T.Reachable s → T.step s l s' → T'.step (f s) l (f s'))
    {tr : List ℓ} {s : σ} (h : T.Path a tr s) : T'.Path (f a) tr (f s) := by
  induction h with
  | nil => exact .nil
  | snoc hp hs ih => exact ih.snoc (hstep _ _ _ (hpre.append hp).reachable hs)

/-- If every step from the image of a state comes from a step of that state, every path from the
image comes from a path. -/
theorem Path.lift {pre : List ℓ} {a : σ} (hpre : T.Run pre a)
    (hstep : ∀ s l t, T.Reachable s → T'.step (f s) l t → ∃ s', T.step s l s' ∧ f s' = t)
    {tr : List ℓ} {t : σ'} (h : T'.Path (f a) tr t) : ∃ s, T.Path a tr s ∧ f s = t := by
  induction h with
  | nil => exact ⟨a, .nil, rfl⟩
  | snoc _ hs ih =>
      obtain ⟨s, hp, rfl⟩ := ih
      obtain ⟨s', hs', hf⟩ := hstep s _ _ (hpre.append hp).reachable hs
      exact ⟨s', hp.snoc hs', hf⟩

end Map

section Replay

variable {α : Type w} {act : σ → α → Option (ℓ × σ)}

/-- Run a list of actions, with the labels they give. -/
def replay (act : σ → α → Option (ℓ × σ)) (s : σ) : List α → Option (List ℓ × σ)
  | [] => some ([], s)
  | a :: as =>
      match act s a with
      | none => none
      | some (l, s') => (replay act s' as).map fun r => (l :: r.1, r.2)

theorem Path.of_replay (hact : ∀ s a l s', act s a = some (l, s') → T.step s l s') {as : List α}
    {s : σ} {r : List ℓ × σ} (h : replay act s as = some r) : T.Path s r.1 r.2 := by
  induction as generalizing s r with
  | nil =>
      simp only [replay, Option.some.injEq] at h
      subst h
      exact .nil
  | cons a as ih =>
      simp only [replay] at h
      split at h
      case h_1 => cases h
      case h_2 l s' ha =>
        obtain ⟨t, ht, rfl⟩ := Option.map_eq_some_iff.1 h
        exact (Path.single (hact _ _ _ _ ha)).append (ih ht)

theorem Run.of_replay (hact : ∀ s a l s', act s a = some (l, s') → T.step s l s') {as : List α}
    {a : σ} (ha : T.init a) {r : List ℓ × σ} (h : replay act a as = some r) : T.Run r.1 r.2 :=
  ⟨a, ha, .of_replay hact h⟩

/-- A function that gives the next state only, with the labels of the steps. -/
def labelled (act : σ → α → Option σ) (label : σ → α → σ → ℓ) (s : σ) (a : α) : Option (ℓ × σ) :=
  (act s a).map fun s' => (label s a s', s')

theorem Path.of_labelled {act : σ → α → Option σ} {label : σ → α → σ → ℓ}
    (hact : ∀ s a s', act s a = some s' → T.step s (label s a s') s') {as : List α} {s : σ}
    {r : List ℓ × σ} (h : replay (labelled act label) s as = some r) : T.Path s r.1 r.2 := by
  refine .of_replay (fun s a l s' hs => ?_) h
  obtain ⟨t, ha, ht⟩ := Option.map_eq_some_iff.1 hs
  cases ht
  exact hact s a s' ha

theorem Run.of_labelled {act : σ → α → Option σ} {label : σ → α → σ → ℓ}
    (hact : ∀ s a s', act s a = some s' → T.step s (label s a s') s') {as : List α} {a : σ}
    (ha : T.init a) {r : List ℓ × σ} (h : replay (labelled act label) a as = some r) :
    T.Run r.1 r.2 :=
  ⟨a, ha, .of_labelled hact h⟩

end Replay

end System

end ZioBenchmarks.Transition
