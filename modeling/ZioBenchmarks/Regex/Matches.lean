import Mathlib.Data.List.Basic

/-!
# Regular expressions with backtracking

`results` lists all ways an expression matches at a place, in the order in which a backtracking
matcher tries them, so that the first one is the match. A repeated class is greedy; where what
follows cannot start in the class, only the longest repetition is left (`results_many_seq`,
`results_group_plus_seq`), and an expression can be evaluated from left to right.
-/

set_option autoImplicit false

namespace ZioBenchmarks.Regex

universe u

/-- A place in a text: what is before it, the nearest character first, and what is behind it. -/
structure Cursor where
  before : List Char
  after : List Char
  deriving DecidableEq, Repr

/-- Regular expressions; a class is the predicate of its characters. -/
inductive Pattern where
  | empty
  | char (p : Char → Bool)
  /-- `p*`, greedy. -/
  | many (p : Char → Bool)
  | seq (r t : Pattern)
  | alt (r t : Pattern)
  | group (r : Pattern)
  /-- `\b`, where `word` are the characters of words. -/
  | boundary (word : Char → Bool)

/-- The characters of `s`, one after the other. -/
def lit : List Char → Pattern
  | [] => .empty
  | c :: s => .seq (.char (· == c)) (lit s)

/-- `p+`. -/
def plus (p : Char → Bool) : Pattern := .seq (.char p) (.many p)

/-- One of some alternatives, the first one preferred. -/
def oneOf : List Pattern → Pattern
  | [] => .char fun _ => false
  | [r] => r
  | r :: rs => .alt r (oneOf rs)

/-- Where a repetition of a class can end, the longest one first. -/
def manyEnds (p : Char → Bool) : List Char → List Char → List Cursor
  | before, [] => [⟨before, []⟩]
  | before, x :: xs =>
      (if p x then manyEnds p (x :: before) xs else []) ++ [⟨before, x :: xs⟩]

/-- The text from one place to a later one. -/
def captured (c e : Cursor) : List Char := c.after.take (c.after.length - e.after.length)

/-- The ways to match at a place, the preferred one first: where it ends, and the groups. -/
def results : Pattern → Cursor → List (Cursor × List (List Char))
  | .empty, c => [(c, [])]
  | .char p, c =>
      match c.after with
      | [] => []
      | x :: xs => if p x then [(⟨x :: c.before, xs⟩, [])] else []
  | .many p, c => (manyEnds p c.before c.after).map fun e => (e, [])
  | .seq r t, c => (results r c).flatMap fun m => (results t m.1).map fun n => (n.1, m.2 ++ n.2)
  | .alt r t, c => results r c ++ results t c
  | .group r, c => (results r c).map fun m => (m.1, captured c m.1 :: m.2)
  | .boundary word, c =>
      if c.before.head?.any word = c.after.head?.any word then [] else [(c, [])]

/-- The groups of the leftmost match. -/
def search (r : Pattern) : List Char → List Char → Option (List (List Char))
  | before, [] => (results r ⟨before, []⟩).head?.map Prod.snd
  | before, x :: xs =>
      match results r ⟨before, x :: xs⟩ with
      | m :: _ => some m.2
      | [] => search r (x :: before) xs

/-- The text without its matches, from left to right; `skip` characters of a match are left. -/
def erase (r : Pattern) : Nat → List Char → List Char → List Char
  | _, _, [] => []
  | skip + 1, before, x :: xs => erase r skip (x :: before) xs
  | 0, before, x :: xs =>
      match (results r ⟨before, x :: xs⟩).map fun m => (captured ⟨before, x :: xs⟩ m.1).length with
      | (skip + 1) :: _ => erase r skip (x :: before) xs
      | _ => x :: erase r 0 (x :: before) xs

/-! ## Evaluation from left to right -/

variable {p q : Char → Bool} {r t : Pattern} {b s xs ys : List Char} {c d : Char}

/-- No match starts with a character of `p`. -/
def FailsOn (p : Char → Bool) (r : Pattern) : Prop :=
  ∀ b x xs, p x = true → results r ⟨b, x :: xs⟩ = []

attribute [local simp] lit results manyEnds

@[simp] theorem results_lit (t : List Char) :
    results (lit s) ⟨b, s ++ t⟩ = [(⟨s.reverse ++ b, t⟩, [])] := by
  induction s generalizing b with
  | nil => rfl
  | cons c s ih => simp [ih]

theorem results_lit_of_not_prefix (h : ¬ s <+: xs) : results (lit s) ⟨b, xs⟩ = [] := by
  induction s generalizing b xs with
  | nil => exact absurd List.nil_prefix h
  | cons c s ih =>
      cases xs with
      | nil => rfl
      | cons x xs =>
          by_cases hx : x = c
          · subst hx
            have hs : ¬ s <+: xs := fun hs => h (List.cons_prefix_cons.2 ⟨rfl, hs⟩)
            simp [ih hs]
          · simp [hx]

/-- A literal is passed. -/
theorem results_lit_seq (t : List Char) :
    results (.seq (lit s) r) ⟨b, s ++ t⟩ = results r ⟨s.reverse ++ b, t⟩ := by
  simp

/-- Where the shorter repetitions lead nowhere the longest one decides. -/
theorem flatMap_manyEnds {β : Type u} {f : Cursor → List β}
    (hf : ∀ b x xs, p x = true → f ⟨b, x :: xs⟩ = []) (hxs : ∀ x ∈ xs, p x = true)
    (hys : ∀ y ∈ ys.head?, p y = false) :
    (manyEnds p b (xs ++ ys)).flatMap f = f ⟨xs.reverse ++ b, ys⟩ := by
  induction xs generalizing b with
  | nil =>
      cases ys with
      | nil => simp
      | cons y ys => simp [hys y rfl]
  | cons x xs ih =>
      have hx : p x = true := hxs x List.mem_cons_self
      have hrest := @ih (x :: b) fun y hy => hxs y (List.mem_cons_of_mem x hy)
      rw [List.cons_append, manyEnds, if_pos hx, List.flatMap_append, hrest]
      simp [hf b x (xs ++ ys) hx]

/-- A greedy repetition is passed. -/
theorem results_many_seq (hr : FailsOn p r) (hxs : ∀ x ∈ xs, p x = true)
    (hys : ∀ y ∈ ys.head?, p y = false) :
    results (.seq (.many p) r) ⟨b, xs ++ ys⟩ = results r ⟨xs.reverse ++ b, ys⟩ := by
  have h := @flatMap_manyEnds p b xs ys _ (results r) hr hxs hys
  simp only [results, List.flatMap_map, List.nil_append]
  rw [← h]
  simp

/-- A greedy repetition in a group is passed, and the group is all of it. -/
theorem results_group_plus_seq (hr : FailsOn p r) (hne : xs ≠ []) (hxs : ∀ x ∈ xs, p x = true)
    (hys : ∀ y ∈ ys.head?, p y = false) :
    results (.seq (.group (plus p)) r) ⟨b, xs ++ ys⟩ =
      (results r ⟨xs.reverse ++ b, ys⟩).map fun n => (n.1, xs :: n.2) := by
  cases xs with
  | nil => exact absurd rfl hne
  | cons x xs =>
      have hx : p x = true := hxs x List.mem_cons_self
      have htail : ∀ y ∈ xs, p y = true := fun y hy => hxs y (List.mem_cons_of_mem x hy)
      let f : Cursor → List (Cursor × List (List Char)) := fun e =>
        (results r e).map fun n => (n.1, captured ⟨b, x :: (xs ++ ys)⟩ e :: n.2)
      have hf : ∀ b x xs, p x = true → f ⟨b, x :: xs⟩ = [] := by
        intro b x xs hp
        simp only [f, hr b x xs hp, List.map_nil]
      have h := @flatMap_manyEnds p (x :: b) xs ys _ f hf htail hys
      have hcaptured : captured ⟨b, x :: (xs ++ ys)⟩ ⟨xs.reverse ++ x :: b, ys⟩ = x :: xs := by
        have hlen : (x :: (xs ++ ys)).length - ys.length = (x :: xs).length := by
          simp only [List.length_cons, List.length_append]
          omega
        rw [captured, hlen, ← List.cons_append, List.take_left]
      have hend : f ⟨xs.reverse ++ x :: b, ys⟩ =
          (results r ⟨(x :: xs).reverse ++ b, ys⟩).map fun n => (n.1, (x :: xs) :: n.2) := by
        simp [f, hcaptured]
      rw [← hend, ← h]
      simp [plus, hx, f, List.flatMap_map]

/-! ## Expressions that cannot start with a character -/

theorem failsOn_lit (h : p c = false) : FailsOn p (lit (c :: s)) := by
  intro b x xs hx
  apply results_lit_of_not_prefix
  intro hstart
  rw [List.cons_prefix_cons] at hstart
  rw [hstart.1, hx] at h
  exact absurd h (by decide)

theorem failsOn_char (h : ∀ x, p x = true → q x = false) : FailsOn p (.char q) := by
  intro b x xs hx
  simp [h x hx]

theorem FailsOn.seq (h : FailsOn p r) (t : Pattern) : FailsOn p (.seq r t) := by
  intro b x xs hx
  simp [h b x xs hx]

theorem FailsOn.group (h : FailsOn p r) : FailsOn p (.group r) := by
  intro b x xs hx
  simp [h b x xs hx]

theorem FailsOn.many_seq (hq : ∀ x, p x = true → q x = false) (h : FailsOn p r) :
    FailsOn p (.seq (.many q) r) := by
  intro b x xs hx
  simp [hq x hx, h b x xs hx]

theorem failsOn_oneOf {rs : List Pattern} (h : ∀ r ∈ rs, FailsOn p r) : FailsOn p (oneOf rs) := by
  induction rs with
  | nil =>
      intro b x xs _
      rfl
  | cons r rs ih =>
      have hr := h r List.mem_cons_self
      have hrs := ih fun t ht => h t (List.mem_cons_of_mem r ht)
      cases rs with
      | nil => exact hr
      | cons t rs =>
          intro b x xs hx
          rw [oneOf, results, hr b x xs hx, hrs b x xs hx, List.nil_append]
          exact List.cons_ne_nil t rs

/-! ## Searching -/

/-- The match is the first one of the leftmost place that has one. -/
theorem search_of_results {m : Cursor × List (List Char)} {ms : List (Cursor × List (List Char))}
    (h : results r ⟨b, xs⟩ = m :: ms) : search r b xs = some m.2 := by
  cases xs with
  | nil => simp [search, h]
  | cons x xs => simp [search, h]

theorem search_cons_of_results (h : results r ⟨b, c :: xs⟩ = []) :
    search r b (c :: xs) = search r (c :: b) xs := by
  simp [search, h]

theorem results_lit_seq_of_ne (h : d ≠ c) : results (.seq (lit (c :: s)) r) ⟨b, d :: xs⟩ = [] := by
  have hnot : ¬ c :: s <+: d :: xs := by
    intro hstart
    exact h (List.cons_prefix_cons.1 hstart).1.symm
  rw [results, results_lit_of_not_prefix hnot, List.flatMap_nil]

/-- A text without the first character of a literal has no match. -/
theorem search_lit_seq_eq_none (h : c ∉ xs) : search (.seq (lit (c :: s)) r) b xs = none := by
  induction xs generalizing b with
  | nil => rfl
  | cons x xs ih =>
      rw [List.mem_cons, not_or] at h
      rw [search_cons_of_results (results_lit_seq_of_ne (Ne.symm h.1)), ih h.2]

theorem erase_lit_seq_eq_self (h : c ∉ xs) : erase (.seq (lit (c :: s)) r) 0 b xs = xs := by
  induction xs generalizing b with
  | nil => rfl
  | cons x xs ih =>
      rw [List.mem_cons, not_or] at h
      simp only [erase, results_lit_seq_of_ne (Ne.symm h.1), List.map_nil, ih h.2]

end ZioBenchmarks.Regex
