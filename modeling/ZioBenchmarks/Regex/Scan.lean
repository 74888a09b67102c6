import ZioBenchmarks.Regex.Matches

/-!
# Searching for a number and what follows it

An expression that starts with a repeated class in a group, followed by something that cannot start
in the class: a search passes what is not in the class, and each run of the class that has the
wrong thing behind it.
-/

set_option autoImplicit false

namespace ZioBenchmarks.Regex

variable {p : Char → Bool} {t : Pattern} {b xs ys : List Char} {c : Char}

/-- `(p+)t`. -/
def grouped (p : Char → Bool) (t : Pattern) : Pattern := .seq (.group (plus p)) t

theorem results_grouped_of_not (h : p c = false) :
    results (grouped p t) ⟨b, c :: xs⟩ = [] := by
  simp [grouped, results, plus, h]

/-- No match starts in `xs`, whatever follows it. -/
def Passes (r : Pattern) (xs : List Char) : Prop :=
  ∀ b ys, ∃ b', search r b (xs ++ ys) = search r b' ys

theorem Passes.append {r : Pattern} (hxs : Passes r xs) (hys : Passes r ys) :
    Passes r (xs ++ ys) := by
  intro b zs
  obtain ⟨b₁, h₁⟩ := hxs b (ys ++ zs)
  obtain ⟨b₂, h₂⟩ := hys b₁ zs
  exact ⟨b₂, by rw [List.append_assoc, h₁, h₂]⟩

theorem Passes.flatten {r : Pattern} {parts : List (List Char)}
    (h : ∀ xs ∈ parts, Passes r xs) : Passes r parts.flatten := by
  induction parts with
  | nil => exact fun b ys => ⟨b, rfl⟩
  | cons xs parts ih =>
      exact (h xs List.mem_cons_self).append (ih fun zs hz => h zs (List.mem_cons_of_mem xs hz))

/-- Text outside of the class is passed. -/
theorem passes_text (h : ∀ c ∈ xs, p c = false) : Passes (grouped p t) xs := by
  induction xs with
  | nil => exact fun b ys => ⟨b, rfl⟩
  | cons x xs ih =>
      intro b ys
      have hx : p x = false := h x List.mem_cons_self
      obtain ⟨b', hb'⟩ := ih (fun c hc => h c (List.mem_cons_of_mem x hc)) (x :: b) ys
      exact ⟨b', by rw [List.cons_append, search_cons_of_results (results_grouped_of_not hx), hb']⟩

/-- A run of the class is passed if the rest of the expression fails behind it. -/
theorem passes_run {sep : List Char} (ht : FailsOn p t) (hxs : ∀ x ∈ xs, p x = true)
    (hne : sep ≠ []) (hsep : ∀ c ∈ sep, p c = false)
    (hfail : ∀ b ys, results t ⟨b, sep ++ ys⟩ = []) : Passes (grouped p t) (xs ++ sep) := by
  induction xs with
  | nil => exact passes_text hsep
  | cons x xs ih =>
      intro b ys
      have hhead : ∀ y ∈ (sep ++ ys).head?, p y = false := by
        obtain ⟨c, cs, rfl⟩ := List.exists_cons_of_ne_nil hne
        rintro y hy
        cases Option.some.inj hy
        exact hsep c List.mem_cons_self
      have hrun : results (grouped p t) ⟨b, x :: (xs ++ (sep ++ ys))⟩ = [] := by
        rw [grouped, ← List.cons_append,
          results_group_plus_seq ht (List.cons_ne_nil x xs) hxs hhead, hfail, List.map_nil]
      obtain ⟨b', hb'⟩ := ih (fun y hy => hxs y (List.mem_cons_of_mem x hy)) (x :: b) ys
      rw [List.append_assoc] at hb'
      exact ⟨b', by rw [List.cons_append, List.cons_append, List.append_assoc,
        search_cons_of_results hrun, hb']⟩

/-- At a run of the class the match is all of it, if the rest of the expression matches. -/
theorem search_found {gs : List (List Char)} (ht : FailsOn p t) (hne : xs ≠ [])
    (hxs : ∀ x ∈ xs, p x = true) (hys : ∀ y ∈ ys.head?, p y = false)
    (hfound : ∀ b, ∃ e ms, results t ⟨b, ys⟩ = (e, gs) :: ms) :
    search (grouped p t) b (xs ++ ys) = some (xs :: gs) := by
  obtain ⟨e, ms, he⟩ := hfound (xs.reverse ++ b)
  have hrun := @results_group_plus_seq p t b xs ys ht hne hxs hys
  rw [he, List.map_cons] at hrun
  exact search_of_results hrun

/-- Nothing of the class, no match. -/
theorem search_eq_none (h : ∀ c ∈ xs, p c = false) : search (grouped p t) b xs = none := by
  obtain ⟨b', hb'⟩ := passes_text (t := t) h b []
  rw [List.append_nil] at hb'
  rw [hb']
  rfl

end ZioBenchmarks.Regex
