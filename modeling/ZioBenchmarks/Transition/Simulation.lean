import ZioBenchmarks.Transition.Runs

/-!
# Weak simulation

One system simulates another one if each step of the other is matched by a path with the same
visible labels: several steps, or none. Every run is then matched by a run that shows the same.
-/

set_option autoImplicit false

namespace ZioBenchmarks.Transition

universe u v w

namespace System

variable {σ : Type u} {σ' : Type w} {ℓ : Type v} {T : System σ ℓ} {T' : System σ' ℓ}
  {R : σ → σ' → Prop} {visible : ℓ → Bool}

theorem Run.simulate (hinit : ∀ a, T.init a → ∃ b, T'.init b ∧ R a b)
    (hstep : ∀ s l s' us t, T.Reachable s → T'.Run us t → R s t → T.step s l s' →
      ∃ vs t', T'.Path t vs t' ∧ vs.filter visible = [l].filter visible ∧ R s' t')
    {tr : List ℓ} {s : σ} (h : T.Run tr s) :
    ∃ us t, T'.Run us t ∧ us.filter visible = tr.filter visible ∧ R s t := by
  refine Run.invariant (I := fun tr s => ∃ us t, T'.Run us t ∧
    us.filter visible = tr.filter visible ∧ R s t) ?_ ?_ h
  · intro a ha
    obtain ⟨b, hb, hR⟩ := hinit a ha
    exact ⟨[], b, .nil hb, rfl, hR⟩
  · rintro tr s l s' hr ⟨us, t, hus, hvisible, hR⟩ hs
    obtain ⟨vs, t', hvs, hlabel, hR'⟩ := hstep s l s' us t hr.reachable hus hR hs
    refine ⟨us ++ vs, t', hus.append hvs, ?_, hR'⟩
    rw [List.filter_append, List.filter_append, hvisible, hlabel]

end System

end ZioBenchmarks.Transition
