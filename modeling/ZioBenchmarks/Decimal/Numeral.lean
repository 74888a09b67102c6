import Mathlib.Algebra.Field.Rat
import Mathlib.Algebra.Order.Ring.Rat
import Mathlib.Tactic.FieldSimp
import Mathlib.Tactic.Ring

/-!
# Decimal numerals

`numeral p v` prints `v / 10 ^ p` with no zero at the end of its fraction, and `value` reads digits
with at most one point among them. What is printed is read back exactly (`value_numeral`).
-/

set_option autoImplicit false

namespace ZioBenchmarks.Decimal

/-- The last `p` digits of `v`. -/
def padded : Nat → Nat → List Char
  | 0, _ => []
  | p + 1, v => padded p (v / 10) ++ [Nat.digitChar (v % 10)]

/-- `v / 10 ^ p`; the fraction ends with its last digit that is not zero. -/
def numeral : Nat → Nat → List Char
  | 0, v => Nat.toDigits 10 v
  | p + 1, v =>
      if v % 10 = 0 then numeral p (v / 10)
      else Nat.toDigits 10 (v / 10 ^ (p + 1)) ++ '.' :: padded (p + 1) v

/-- The number a text of digits and points stands for: there is a digit, and at most one point. -/
def value (s : List Char) : Option ℚ :=
  let whole := s.takeWhile Char.isDigit
  match s.dropWhile Char.isDigit with
  | [] => if whole.isEmpty then none else some (Nat.ofDigitChars 10 whole 0 : ℚ)
  | '.' :: fraction =>
      if !(whole ++ fraction).isEmpty && fraction.all Char.isDigit then
        some (Nat.ofDigitChars 10 (whole ++ fraction) 0 / 10 ^ fraction.length)
      else none
  | _ :: _ => none

/-! ## What is printed -/

variable {c : Char} {p v n b : Nat}

theorem isDigit_toDigits (h : c ∈ Nat.toDigits 10 n) : c.isDigit = true :=
  Nat.isDigit_of_mem_toDigits (by decide) (by decide) h

/-- The digits of a number are those of the base. -/
theorem exists_digitChar (hb : 1 < b) (h : c ∈ Nat.toDigits b n) :
    ∃ d < b, c = Nat.digitChar d := by
  induction n using Nat.base_induction b hb with
  | single m hm =>
      rw [Nat.toDigits_of_lt_base hm, List.mem_singleton] at h
      exact ⟨m, hm, h⟩
  | digit m k hk hm ih =>
      rw [← Nat.toDigits_append_toDigits hb hm hk, List.mem_append] at h
      rcases h with h | h
      · exact ih h
      · rw [Nat.toDigits_of_lt_base hk, List.mem_singleton] at h
        exact ⟨k, hk, h⟩

theorem isDigit_digitChar (hn : n < 10) : (Nat.digitChar n).isDigit = true := by
  have hmem : Nat.digitChar n ∈ Nat.toDigits 10 n := by
    rw [Nat.toDigits_of_lt_base hn]
    exact List.mem_singleton_self _
  exact isDigit_toDigits hmem

theorem isDigit_padded (h : c ∈ padded p v) : c.isDigit = true := by
  induction p generalizing v with
  | zero => exact absurd h List.not_mem_nil
  | succ p ih =>
      rw [padded, List.mem_append, List.mem_singleton] at h
      rcases h with h | rfl
      · exact ih h
      · exact isDigit_digitChar (Nat.mod_lt v (by decide))

@[simp] theorem length_padded : (padded p v).length = p := by
  induction p generalizing v with
  | zero => rfl
  | succ p ih => rw [padded, List.length_append, ih, List.length_singleton]

/-- The last `p` digits stand for the remainder. -/
theorem ofDigitChars_padded (a : Nat) :
    Nat.ofDigitChars 10 (padded p v) a = a * 10 ^ p + v % 10 ^ p := by
  induction p generalizing v with
  | zero => simp [padded, Nat.mod_one]
  | succ p ih =>
      have hdigit : v % 10 < 10 := Nat.mod_lt v (by decide)
      -- the remainder modulo `10 ^ (p + 1)` is the one of the tens, and the last digit
      have hmod : v % 10 ^ (p + 1) = v % 10 + 10 * (v / 10 % 10 ^ p) := by
        rw [Nat.pow_succ', Nat.mod_mul]
      rw [padded, Nat.ofDigitChars_append, ih, Nat.ofDigitChars_cons_digitChar_of_lt_ten hdigit,
        Nat.ofDigitChars_nil, hmod, Nat.pow_succ']
      ring

/-- A numeral starts with a digit, and consists of digits and points. -/
theorem numeral_chars (p v : Nat) :
    (∃ c s, numeral p v = c :: s ∧ c.isDigit = true) ∧
      ∀ c ∈ numeral p v, c.isDigit = true ∨ c = '.' := by
  have hdigits : ∀ n, ∃ c s, Nat.toDigits 10 n = c :: s ∧ c.isDigit = true := by
    intro n
    obtain ⟨c, s, h⟩ := List.exists_cons_of_ne_nil (@Nat.toDigits_ne_nil n 10)
    exact ⟨c, s, h, isDigit_toDigits (h ▸ List.mem_cons_self)⟩
  induction p generalizing v with
  | zero => exact ⟨hdigits v, fun c hc => .inl (isDigit_toDigits hc)⟩
  | succ p ih =>
      rw [numeral]
      split
      · exact ih (v / 10)
      · obtain ⟨c, s, h, hc⟩ := hdigits (v / 10 ^ (p + 1))
        refine ⟨⟨c, s ++ '.' :: padded (p + 1) v, by rw [h, List.cons_append], hc⟩, ?_⟩
        intro d hd
        rw [List.mem_append, List.mem_cons] at hd
        rcases hd with hd | rfl | hd
        · exact .inl (isDigit_toDigits hd)
        · exact .inr rfl
        · exact .inl (isDigit_padded hd)

theorem numeral_ne_nil : numeral p v ≠ [] := by
  obtain ⟨⟨c, s, h, -⟩, -⟩ := numeral_chars p v
  rw [h]
  exact List.cons_ne_nil c s

/-! ## What is read -/

theorem takeWhile_digits {s t : List Char} (hs : ∀ c ∈ s, c.isDigit = true)
    (ht : ∀ c ∈ t.head?, c.isDigit = false) :
    (s ++ t).takeWhile Char.isDigit = s ∧ (s ++ t).dropWhile Char.isDigit = t := by
  rw [List.takeWhile_append_of_pos hs, List.dropWhile_append_of_pos hs]
  cases t with
  | nil => simp
  | cons c t => simp [ht c rfl]

/-- The whole part, the point and the fraction are read together. -/
theorem value_point (p v : Nat) :
    value (Nat.toDigits 10 (v / 10 ^ (p + 1)) ++ '.' :: padded (p + 1) v) =
      some (v / 10 ^ (p + 1) : ℚ) := by
  obtain ⟨htake, hdrop⟩ := takeWhile_digits (s := Nat.toDigits 10 (v / 10 ^ (p + 1)))
    (t := '.' :: padded (p + 1) v) (fun c hc => isDigit_toDigits hc)
    (by simp)
  have hread : Nat.ofDigitChars 10
      (Nat.toDigits 10 (v / 10 ^ (p + 1)) ++ padded (p + 1) v) 0 = v := by
    rw [Nat.ofDigitChars_append, Nat.ofDigitChars_ten_toDigits, ofDigitChars_padded]
    exact Nat.div_add_mod' v _
  have hne : (Nat.toDigits 10 (v / 10 ^ (p + 1)) ++ padded (p + 1) v).isEmpty = false := by
    simp
  have hall : (padded (p + 1) v).all Char.isDigit = true :=
    List.all_eq_true.2 fun c hc => isDigit_padded hc
  simp only [value, htake, hdrop, hread, length_padded, hne, hall]
  rfl

/-- A printed number is read back. -/
theorem value_numeral (p v : Nat) : value (numeral p v) = some (v / 10 ^ p : ℚ) := by
  induction p generalizing v with
  | zero =>
      obtain ⟨htake, hdrop⟩ := takeWhile_digits (s := Nat.toDigits 10 v) (t := [])
        (fun c hc => isDigit_toDigits hc) (by simp)
      rw [List.append_nil] at htake hdrop
      simp [numeral, value, htake, hdrop]
  | succ p ih =>
      rw [numeral]
      split
      case isTrue hzero =>
        -- a zero at the end changes nothing
        have hv : (v : ℚ) = 10 * (v / 10 : Nat) := by
          have hdiv := Nat.div_add_mod v 10
          rw [hzero, Nat.add_zero] at hdiv
          exact_mod_cast hdiv.symm
        rw [ih, hv, pow_succ]
        congr 1
        field_simp
      case isFalse => exact value_point p v

end ZioBenchmarks.Decimal
