import Mathlib.Algebra.Group.Nat.Defs
import Mathlib.Data.List.TakeWhile

/-!
# The numbers of a command line

How the standard libraries of the benchmark programs read a number: `std.fmt.parseUnsigned` of Zig,
`str::parse` of Rust, `strtoull` of C, `strconv.ParseUint` and `strconv.ParseInt` of Go with base 0.
They disagree about signs, underscores, prefixes, leading zeros and what follows a number, but each
of them reads a decimal numeral back.
-/

set_option autoImplicit false

namespace ZioBenchmarks.Arguments

abbrev Text := List Char

/-- The value of a digit or letter. -/
def charToDigit (c : Char) : Option Nat :=
  if c.isDigit then some (c.toNat - 48)
  else if c.isLower then some (c.toNat - 87)
  else if c.isUpper then some (c.toNat - 55)
  else none

/-- One more digit of base `b`. -/
def pushDigit (b n : Nat) (c : Char) : Option Nat :=
  match charToDigit c with
  | some d => if d < b then some (b * n + d) else none
  | none => none

/-- The number that digits of base `b` stand for. -/
def digits (b : Nat) (s : Text) : Option Nat := s.foldlM (pushDigit b) 0

/-- A number that a `u64` can hold. -/
def fits (n : Option Nat) : Option Nat := n.filter (· < 2 ^ 64)

/-- `std.fmt.parseUnsigned(u64, s, 10)`: underscores separate digits. -/
def parseUnsigned (s : Text) : Option Nat :=
  if s = [] ∨ s.head? = some '_' ∨ s.getLast? = some '_' then none
  else fits (digits 10 (s.filter (· ≠ '_')))

/-- `s.parse()` for a `u64`: a plus sign may come first. -/
def fromStr (s : Text) : Option Nat :=
  let ds := if s.head? = some '+' then s.tail else s
  if ds = [] then none else fits (digits 10 ds)

/-- `isspace`, in the C locale. -/
def isSpace (c : Char) : Bool := c.toNat == 32 || (9 ≤ c.toNat && c.toNat ≤ 13)

/-- `strtoull(s, nullptr, 10)`: what follows the digits is ignored, no digits are 0, and what is too
large becomes `ULLONG_MAX`. -/
def strtoull (s : Text) : Nat :=
  let t := s.dropWhile isSpace
  let ds := if t.head? = some '+' ∨ t.head? = some '-' then t.tail else t
  let n := Nat.ofDigitChars 10 (ds.takeWhile Char.isDigit) 0
  if 2 ^ 64 ≤ n then 2 ^ 64 - 1
  else if t.head? = some '-' then (2 ^ 64 - n) % 2 ^ 64
  else n

/-- `s[1]` in lower case is `c`. -/
def prefixed (s : Text) (c : Char) : Bool := s.head? == some '0' && s[1]?.any (·.toLower == c)

/-- What `underscoreOK` saw last. -/
inductive Seen where
  | start
  | digit
  | underscore
  | other
  deriving DecidableEq

/-- The loop of `underscoreOK`. -/
def underscoresFrom (hex : Bool) : Seen → Text → Bool
  | seen, [] => seen ≠ .underscore
  | seen, c :: s =>
      if c.isDigit || (hex && ('a' ≤ c.toLower && c.toLower ≤ 'f')) then
        underscoresFrom hex .digit s
      else if c = '_' then seen = .digit && underscoresFrom hex .underscore s
      else seen ≠ .underscore && underscoresFrom hex .other s

/-- `underscoreOK(s)`: underscores stand between digits, or behind a prefix. -/
def underscoreOK (s : Text) : Bool :=
  let s := if s.head? = some '-' ∨ s.head? = some '+' then s.tail else s
  if prefixed s 'b' || prefixed s 'o' || prefixed s 'x' then
    underscoresFrom (prefixed s 'x') .digit (s.drop 2)
  else underscoresFrom false .start s

/-- The base that the prefix of a number stands for, and the digits behind it. -/
def goBase (s : Text) : Nat × Text :=
  if 3 ≤ s.length ∧ prefixed s 'b' then (2, s.drop 2)
  else if 3 ≤ s.length ∧ prefixed s 'o' then (8, s.drop 2)
  else if 3 ≤ s.length ∧ prefixed s 'x' then (16, s.drop 2)
  else if s.head? = some '0' then (8, s.tail)
  else (10, s)

/-- `strconv.ParseUint(s, 0, 64)`. -/
def parseUint (s : Text) : Option Nat :=
  if s = [] then none
  else if '_' ∈ (goBase s).2 ∧ underscoreOK s = false then none
  else fits (digits (goBase s).1 ((goBase s).2.filter (· ≠ '_')))

/-- `strconv.ParseInt(s, 0, 64)`. -/
def parseInt (s : Text) : Option Int :=
  let t := if s.head? = some '+' ∨ s.head? = some '-' then s.tail else s
  match parseUint t with
  | none => none
  | some n =>
      if s.head? = some '-' then if n ≤ 2 ^ 63 then some (-n) else none
      else if n < 2 ^ 63 then some n else none

/-! ## Numerals are read back -/

variable {n a : Nat} {s : Text} {c : Char}

theorem charToDigit_of_isDigit (h : c.isDigit = true) : charToDigit c = some (c.toNat - 48) := by
  rw [charToDigit, if_pos h]

theorem pushDigit_of_isDigit (h : c.isDigit = true) :
    pushDigit 10 a c = some (10 * a + (c.toNat - 48)) := by
  have hlt : c.toNat - 48 < 10 := by
    simp only [Char.isDigit, Bool.and_eq_true, decide_eq_true_eq] at h
    have h9 : c.toNat ≤ 57 := h.2
    omega
  rw [pushDigit, charToDigit_of_isDigit h]
  simp [hlt]

/-- Only a digit is a digit of base 10. -/
theorem isDigit_of_pushDigit {m : Nat} (h : pushDigit 10 a c = some m) : c.isDigit = true := by
  by_contra hc
  rw [pushDigit, charToDigit, if_neg hc] at h
  by_cases hlower : c.isLower = true
  · rw [if_pos hlower] at h
    have hge : 97 ≤ c.toNat := by
      have hrange : (decide ('a'.val ≤ c.val) && decide (c.val ≤ 'z'.val)) = true := hlower
      exact of_decide_eq_true (Bool.and_eq_true_iff.1 hrange).1
    simp only [show ¬ c.toNat - 87 < 10 by omega, if_false] at h
    cases h
  · rw [if_neg hlower] at h
    by_cases hupper : c.isUpper = true
    · rw [if_pos hupper] at h
      have hge : 65 ≤ c.toNat := by
        have hrange : decide ('A'.val ≤ c.val ∧ c.val ≤ 'Z'.val) = true := hupper
        exact (of_decide_eq_true hrange).1
      simp only [show ¬ c.toNat - 55 < 10 by omega, if_false] at h
      cases h
    · rw [if_neg hupper] at h
      cases h

theorem foldlM_pushDigit (h : ∀ c ∈ s, c.isDigit = true) :
    s.foldlM (pushDigit 10) a = some (Nat.ofDigitChars 10 s a) := by
  induction s generalizing a with
  | nil => simp
  | cons c s ih =>
      rw [List.foldlM_cons, pushDigit_of_isDigit (h c List.mem_cons_self), Nat.ofDigitChars_cons]
      exact ih fun d hd => h d (List.mem_cons_of_mem c hd)

theorem digits_eq (h : ∀ c ∈ s, c.isDigit = true) : digits 10 s = some (Nat.ofDigitChars 10 s 0) :=
  foldlM_pushDigit h

theorem isDigit_of_digits {m : Nat} (h : s.foldlM (pushDigit 10) a = some m) :
    ∀ c ∈ s, c.isDigit = true := by
  induction s generalizing a with
  | nil => simp
  | cons c s ih =>
      rw [List.foldlM_cons] at h
      obtain ⟨b, hb, h⟩ := Option.bind_eq_some_iff.1 h
      intro d hd
      rcases List.mem_cons.1 hd with rfl | hd
      · exact isDigit_of_pushDigit hb
      · exact ih h d hd

theorem isDigit_numeral (h : c ∈ Nat.toDigits 10 n) : c.isDigit = true :=
  Nat.isDigit_of_mem_toDigits (by decide) (by decide) h

theorem digits_numeral (n : Nat) : digits 10 (Nat.toDigits 10 n) = some n := by
  rw [digits_eq fun c hc => isDigit_numeral hc, Nat.ofDigitChars_ten_toDigits]

theorem fits_some (h : n < 2 ^ 64) : fits (some n) = some n :=
  Option.filter_eq_some_iff.2 ⟨rfl, decide_eq_true h⟩

/-- A numeral starts with a digit. -/
theorem exists_numeral (n : Nat) : ∃ c s, Nat.toDigits 10 n = c :: s ∧ c.isDigit = true := by
  cases hn : Nat.toDigits 10 n with
  | nil => exact absurd hn Nat.toDigits_ne_nil
  | cons c s => exact ⟨c, s, rfl, isDigit_numeral (hn ▸ List.mem_cons_self)⟩

/-- Only that of zero starts with `0`. -/
theorem head_numeral (hn : n ≠ 0) : (Nat.toDigits 10 n).head? ≠ some '0' := by
  induction n using Nat.base_induction 10 (by decide) with
  | single m hm =>
      rw [Nat.toDigits_of_lt_base hm]
      intro h
      have hzero : Nat.digitChar m = Nat.digitChar 0 := Option.some.inj h
      have hval := congrArg (fun c => c.toNat - 48) hzero
      simp only [Nat.toNat_digitChar_sub_48_of_lt_ten hm] at hval
      exact hn hval
  | digit m k hk hm ih =>
      rw [← Nat.toDigits_append_toDigits (by decide) hm hk]
      obtain ⟨c, s, hcs, -⟩ := exists_numeral m
      rw [hcs, List.cons_append, List.head?_cons, ← List.head?_cons (l := s), ← hcs]
      exact ih (by omega)

theorem filter_numeral (n : Nat) :
    (Nat.toDigits 10 n).filter (· ≠ '_') = Nat.toDigits 10 n := by
  rw [List.filter_eq_self]
  intro c hc
  have hdigit := isDigit_numeral hc
  simp only [decide_eq_true_eq]
  rintro rfl
  cases hdigit

theorem parseUnsigned_numeral (h : n < 2 ^ 64) : parseUnsigned (Nat.toDigits 10 n) = some n := by
  have hnot : ∀ c ∈ Nat.toDigits 10 n, c ≠ '_' := by
    rintro c hc rfl
    cases isDigit_numeral hc
  have hhead : (Nat.toDigits 10 n).head? ≠ some '_' := fun h =>
    hnot _ (List.mem_of_head? h) rfl
  have hlast : (Nat.toDigits 10 n).getLast? ≠ some '_' := fun h =>
    hnot _ (List.mem_of_getLast? h) rfl
  rw [parseUnsigned, if_neg (by simp [hhead, hlast, Nat.toDigits_ne_nil]), filter_numeral,
    digits_numeral, fits_some h]

theorem fromStr_numeral (h : n < 2 ^ 64) : fromStr (Nat.toDigits 10 n) = some n := by
  obtain ⟨c, s, hcs, hc⟩ := exists_numeral n
  have hhead : (Nat.toDigits 10 n).head? ≠ some '+' := by
    rw [hcs]
    rintro h
    rw [Option.some.inj h] at hc
    cases hc
  rw [fromStr, if_neg hhead, if_neg Nat.toDigits_ne_nil, digits_numeral, fits_some h]

/-- Digits behind an optional plus sign. -/
theorem strtoull_digits {t : Text} (hs : t = s ∨ t = '+' :: s) (hd : ∀ c ∈ s, c.isDigit = true)
    (hne : s ≠ []) (hlt : Nat.ofDigitChars 10 s 0 < 2 ^ 64) :
    strtoull t = Nat.ofDigitChars 10 s 0 := by
  have htake : s.takeWhile Char.isDigit = s := List.takeWhile_eq_self_iff.2 hd
  obtain ⟨c, r, rfl⟩ := List.exists_cons_of_ne_nil hne
  have hc := hd c List.mem_cons_self
  have hspace : isSpace c = false := by
    simp only [Char.isDigit, Bool.and_eq_true, decide_eq_true_eq] at hc
    have h0 : 48 ≤ c.toNat := hc.1
    simp only [isSpace, Bool.or_eq_false_iff, beq_eq_false_iff_ne, Bool.and_eq_false_iff,
      decide_eq_false_iff_not]
    omega
  have hplus : c ≠ '+' := by
    rintro rfl
    cases hc
  have hminus : c ≠ '-' := by
    rintro rfl
    cases hc
  rcases hs with rfl | rfl
  · simp only [strtoull, List.dropWhile_cons, hspace, List.head?_cons, Option.some.injEq, hplus,
      hminus, or_false, if_false, Bool.false_eq_true, htake]
    rw [if_neg (by omega)]
  · have hsign : isSpace '+' = false := by decide
    have hne : ('+' : Char) ≠ '-' := by decide
    simp only [strtoull, List.dropWhile_cons, hsign, List.head?_cons, Option.some.injEq, true_or,
      if_true, List.tail_cons, hne, if_false, Bool.false_eq_true, htake]
    rw [if_neg (by omega)]

theorem strtoull_numeral (h : n < 2 ^ 64) : strtoull (Nat.toDigits 10 n) = n := by
  have hn : Nat.ofDigitChars 10 (Nat.toDigits 10 n) 0 = n := Nat.ofDigitChars_ten_toDigits
  rw [strtoull_digits (.inl rfl) (fun c hc => isDigit_numeral hc) Nat.toDigits_ne_nil (hn.symm ▸ h),
    hn]

/-- What Rust accepts C reads the same. -/
theorem strtoull_of_fromStr (h : fromStr s = some n) : strtoull s = n := by
  have hread : ∀ ds, ds ≠ [] → (s = ds ∨ s = '+' :: ds) → fits (digits 10 ds) = some n →
      strtoull s = n := by
    intro ds hne hs hds
    obtain ⟨hdigits, hlt⟩ := Option.filter_eq_some_iff.1 hds
    have hall := isDigit_of_digits hdigits
    rw [digits_eq hall] at hdigits
    have hn : Nat.ofDigitChars 10 ds 0 = n := Option.some.inj hdigits
    rw [strtoull_digits hs hall hne (hn.symm ▸ of_decide_eq_true hlt), hn]
  simp only [fromStr] at h
  by_cases hplus : s.head? = some '+'
  · rw [if_pos hplus] at h
    obtain ⟨ds, rfl⟩ : ∃ ds, s = '+' :: ds := by
      cases s with
      | nil => cases hplus
      | cons c ds => exact ⟨ds, by rw [Option.some.inj hplus]⟩
    by_cases hds : ds = []
    · simp [hds] at h
    · rw [List.tail_cons, if_neg hds] at h
      exact hread ds hds (.inr rfl) h
  · rw [if_neg hplus] at h
    by_cases hds : s = []
    · simp [hds] at h
    · rw [if_neg hds] at h
      exact hread s hds (.inl rfl) h

theorem parseUint_numeral (h : n < 2 ^ 64) : parseUint (Nat.toDigits 10 n) = some n := by
  by_cases hn : n = 0
  · subst hn
    decide
  · have hhead := head_numeral hn
    have hpre : ∀ c, prefixed (Nat.toDigits 10 n) c = false := by
      intro c
      simp [prefixed, hhead]
    have hbase : goBase (Nat.toDigits 10 n) = (10, Nat.toDigits 10 n) := by
      simp [goBase, hpre, hhead]
    rw [parseUint, if_neg Nat.toDigits_ne_nil, hbase, if_neg (by simp), filter_numeral,
      digits_numeral, fits_some h]

theorem parseInt_numeral (h : n < 2 ^ 63) : parseInt (Nat.toDigits 10 n) = some (n : Int) := by
  obtain ⟨c, s, hcs, hc⟩ := exists_numeral n
  have hsign : ∀ d, d.isDigit = false → (Nat.toDigits 10 n).head? ≠ some d := by
    intro d hd hhead
    rw [hcs] at hhead
    rw [← Option.some.inj hhead, hc] at hd
    cases hd
  have hplus := hsign '+' rfl
  have hminus := hsign '-' rfl
  have hread := parseUint_numeral (show n < 2 ^ 64 by omega)
  simp only [parseInt, hplus, hminus, or_false, if_false, hread, h, if_true]

end ZioBenchmarks.Arguments
