import ZioBenchmarks.Decimal.Numeral

/-!
# Numerals of a fixed precision

`fixed p v` prints `v / 10 ^ p` with all `p` digits of its fraction.
-/

set_option autoImplicit false

namespace ZioBenchmarks.Decimal

/-- `v / 10 ^ p`, with `p` digits behind the point. -/
def fixed : Nat → Nat → List Char
  | 0, v => Nat.toDigits 10 v
  | p + 1, v => Nat.toDigits 10 (v / 10 ^ (p + 1)) ++ '.' :: padded (p + 1) v

theorem value_fixed (p v : Nat) : value (fixed p v) = some (v / 10 ^ p : ℚ) := by
  cases p with
  | zero => exact value_numeral 0 v
  | succ p => exact value_point p v

theorem fixed_ne_nil {p v : Nat} : fixed p v ≠ [] := by
  cases p with
  | zero => exact Nat.toDigits_ne_nil
  | succ p => simp [fixed]

theorem fixed_chars {p v : Nat} {c : Char} (h : c ∈ fixed p v) :
    c.isDigit = true ∨ c = '.' := by
  cases p with
  | zero => exact .inl (isDigit_toDigits h)
  | succ p =>
      rw [fixed, List.mem_append, List.mem_cons] at h
      rcases h with h | rfl | h
      · exact .inl (isDigit_toDigits h)
      · exact .inr rfl
      · exact .inl (isDigit_padded h)

end ZioBenchmarks.Decimal
