import Mathlib.Data.Int.Log
import Mathlib.Data.Rat.Floor
import Mathlib.Tactic.FieldSimp
import Mathlib.Tactic.Linarith
import Mathlib.Tactic.Positivity
import Mathlib.Tactic.Ring

/-!
# Rounding to double precision

`round` is the number of binary64 that is nearest to a nonnegative rational, ties to even, with
gradual underflow and overflow to infinity. In the normal range its relative error is at most
`2 ^ -53` (`round_of_normal`), so that a product of two rounded factors is off by at most `2 ^ -51`
(`mul_round`).
-/

set_option autoImplicit false

namespace ZioBenchmarks.Binary64

/-- The nonnegative numbers of binary64, and what overflow and `0 * inf` make. -/
inductive Number where
  | finite (q : ℚ)
  | infinity
  | nan
  deriving DecidableEq

/-- The nearest integer, the even one of two. -/
def roundHalfEven (q : ℚ) : ℤ :=
  let rest := q - ⌊q⌋
  if rest < 1 / 2 ∨ (rest = 1 / 2 ∧ ⌊q⌋ % 2 = 0) then ⌊q⌋ else ⌊q⌋ + 1

/-- The exponent of the last place of a number: it has 53 bits, unless it is subnormal. -/
def exponent (q : ℚ) : ℤ := max (Int.log 2 q - 52) (-1074)

/-- The value of the last place. -/
def lastPlace (q : ℚ) : ℚ := 2 ^ exponent q

/-- What is rounded to this or more overflows. -/
def limit : ℚ := 2 ^ 1024

/-- The nearest number. -/
def round (q : ℚ) : Number :=
  let x : ℚ := roundHalfEven (q / lastPlace q) * lastPlace q
  if x < limit then .finite x else .infinity

def Number.mul : Number → Number → Number
  | .finite x, .finite y => round (x * y)
  | .infinity, .finite y => if y = 0 then .nan else .infinity
  | .finite x, .infinity => if x = 0 then .nan else .infinity
  | .infinity, .infinity => .infinity
  | .nan, _ => .nan
  | _, .nan => .nan

variable {q x y : ℚ}

theorem abs_roundHalfEven_sub (q : ℚ) : |(roundHalfEven q : ℚ) - q| ≤ 1 / 2 := by
  have hfloor := Int.floor_le q
  have hlt := Int.lt_floor_add_one q
  rw [roundHalfEven, abs_le]
  split
  case isTrue h =>
    have hrest : q - ⌊q⌋ ≤ 1 / 2 := by
      rcases h with h | h
      · exact h.le
      · exact h.1.le
    constructor
    · linarith
    · linarith
  case isFalse h =>
    have hrest : 1 / 2 ≤ q - ⌊q⌋ := by
      by_contra hlow
      exact h (.inl (not_le.1 hlow))
    rw [Int.cast_add, Int.cast_one]
    constructor
    · linarith
    · linarith

theorem lastPlace_pos (q : ℚ) : 0 < lastPlace q := zpow_pos (by norm_num) _

/-- The last place of a number in the normal range is the `2 ^ 52`-th part of its leading one. -/
theorem lastPlace_le (hlow : 2 ^ (-1022 : ℤ) ≤ q) : lastPlace q * 2 ^ 52 ≤ q := by
  have hpos : 0 < q := (zpow_pos (by norm_num) _).trans_le hlow
  have hlog : -1022 ≤ Int.log 2 q := by
    rw [← Int.zpow_le_iff_le_log (by decide) hpos]
    exact_mod_cast hlow
  have hexp : exponent q = Int.log 2 q - 52 := by
    rw [exponent]
    omega
  have hleading : lastPlace q * 2 ^ 52 = 2 ^ Int.log 2 q := by
    rw [lastPlace, hexp, zpow_sub₀ (by norm_num), div_mul_eq_mul_div]
    norm_num
  have hpow := @Int.zpow_log_le_self ℚ _ _ _ _ 2 q (by decide) hpos
  rw [hleading]
  exact_mod_cast hpow

/-- In the normal range a number is rounded with a relative error of at most `2 ^ -53`. -/
theorem round_of_normal (hlow : 2 ^ (-1022 : ℤ) ≤ q) (hhigh : q ≤ limit / 2) :
    ∃ x, round q = .finite x ∧ |x - q| ≤ q / 2 ^ 53 := by
  have hpos : 0 < q := (zpow_pos (by norm_num) _).trans_le hlow
  have hplace := lastPlace_pos q
  obtain ⟨x, hx⟩ : ∃ x : ℚ, x = roundHalfEven (q / lastPlace q) * lastPlace q := ⟨_, rfl⟩
  have herror : |x - q| ≤ q / 2 ^ 53 := by
    have hround := abs_roundHalfEven_sub (q / lastPlace q)
    have hfactor : x - q =
        (roundHalfEven (q / lastPlace q) - q / lastPlace q) * lastPlace q := by
      rw [hx, sub_mul, div_mul_cancel₀ q hplace.ne']
    rw [hfactor, abs_mul, abs_of_pos hplace]
    calc |(roundHalfEven (q / lastPlace q) : ℚ) - q / lastPlace q| * lastPlace q
        ≤ 1 / 2 * lastPlace q := mul_le_mul_of_nonneg_right hround hplace.le
      _ = lastPlace q * 2 ^ 52 / 2 ^ 53 := by ring
      _ ≤ q / 2 ^ 53 := div_le_div_of_nonneg_right (lastPlace_le hlow) (by norm_num)
  have hfits : x < limit := by
    have hupper := (abs_le.1 herror).2
    have hsmall : q / 2 ^ 53 < q := div_lt_self hpos (by norm_num)
    linarith
  refine ⟨x, ?_, herror⟩
  simp only [round]
  rw [← hx, if_pos hfits]

theorem pow_le_limit {k : Nat} (hk : k ≤ 1023) : (2 : ℚ) ^ k ≤ limit / 2 := by
  have hhalf : limit / 2 = 2 ^ 1023 := by
    rw [limit, pow_succ 2 1023, mul_div_cancel_right₀ _ two_ne_zero]
  rw [hhalf]
  exact pow_le_pow_right₀ (by norm_num) hk

/-- What is within a relative error is between two multiples. -/
theorem abs_sub_le_iff_between {u : ℚ} : |x - q| ≤ q * u ↔ q * (1 - u) ≤ x ∧ x ≤ q * (1 + u) := by
  rw [abs_le]
  constructor
  · rintro ⟨hlo, hhi⟩
    constructor
    · linarith
    · linarith
  · rintro ⟨hlo, hhi⟩
    constructor
    · linarith
    · linarith

theorem round_between (hlow : 2 ^ (-1022 : ℤ) ≤ q) (hhigh : q ≤ limit / 2) :
    ∃ x, round q = .finite x ∧ q * (1 - (2 ^ 53)⁻¹) ≤ x ∧ x ≤ q * (1 + (2 ^ 53)⁻¹) := by
  obtain ⟨x, hx, herror⟩ := round_of_normal hlow hhigh
  rw [div_eq_mul_inv, abs_sub_le_iff_between] at herror
  exact ⟨x, hx, herror⟩

/-- The numbers whose products are in the normal range. -/
structure Moderate (q : ℚ) : Prop where
  low : 2 ^ (-500 : ℤ) ≤ q
  high : q ≤ 2 ^ 500

namespace Moderate

variable {v w : ℚ}

theorem pos (hv : Moderate v) : 0 < v := (zpow_pos (by norm_num) _).trans_le hv.low

theorem round (hv : Moderate v) :
    ∃ x, Binary64.round v = .finite x ∧
      v * (1 - (2 ^ 53)⁻¹) ≤ x ∧ x ≤ v * (1 + (2 ^ 53)⁻¹) := by
  have hlow : (2 : ℚ) ^ (-1022 : ℤ) ≤ 2 ^ (-500 : ℤ) :=
    zpow_le_zpow_right₀ (by norm_num) (by norm_num)
  have hhigh := pow_le_limit (by norm_num : 500 ≤ 1023)
  exact round_between (hlow.trans hv.low) (hv.high.trans hhigh)

/-- The product of two rounded factors is in the normal range, too. -/
theorem mul_normal (hv : Moderate v) (hw : Moderate w)
    (hlo : v * (1 - (2 ^ 53)⁻¹) * (w * (1 - (2 ^ 53)⁻¹)) ≤ q)
    (hhi : q ≤ v * (1 + (2 ^ 53)⁻¹) * (w * (1 + (2 ^ 53)⁻¹))) :
    2 ^ (-1022 : ℤ) ≤ q ∧ q ≤ limit / 2 := by
  have hproduct : 0 < v * w := mul_pos hv.pos hw.pos
  have hlow : (2 : ℚ) ^ (-500 : ℤ) * 2 ^ (-500 : ℤ) ≤ v * w :=
    mul_le_mul hv.low hw.low (zpow_pos (by norm_num) _).le hv.pos.le
  have hhigh : v * w ≤ 2 ^ 500 * 2 ^ 500 :=
    mul_le_mul hv.high hw.high hw.pos.le (by positivity)
  constructor
  · calc (2 : ℚ) ^ (-1022 : ℤ) ≤ 2 ^ (-500 : ℤ) * 2 ^ (-501 : ℤ) := by
          rw [← zpow_add₀ two_ne_zero]
          exact zpow_le_zpow_right₀ (by norm_num) (by norm_num)
      _ = 2 ^ (-500 : ℤ) * 2 ^ (-500 : ℤ) * 2⁻¹ := by
          rw [mul_assoc, ← zpow_sub_one₀ two_ne_zero]
          norm_num
      _ ≤ v * w * ((1 - (2 ^ 53)⁻¹) * (1 - (2 ^ 53)⁻¹)) :=
          mul_le_mul hlow (by norm_num) (by norm_num) hproduct.le
      _ = v * (1 - (2 ^ 53)⁻¹) * (w * (1 - (2 ^ 53)⁻¹)) := by ring
      _ ≤ q := hlo
  · calc q ≤ v * (1 + (2 ^ 53)⁻¹) * (w * (1 + (2 ^ 53)⁻¹)) := hhi
      _ = v * w * ((1 + (2 ^ 53)⁻¹) * (1 + (2 ^ 53)⁻¹)) := by ring
      _ ≤ 2 ^ 500 * 2 ^ 500 * 2 := mul_le_mul hhigh (by norm_num) (by norm_num) (by positivity)
      _ = 2 ^ 1001 := by rw [← pow_add, ← pow_succ]
      _ ≤ limit / 2 := pow_le_limit (by norm_num)

end Moderate

/-- The product of two rounded factors: three roundings. -/
theorem mul_round {v w : ℚ} (hv : Moderate v) (hw : Moderate w) :
    ∃ x y z, round v = .finite x ∧ round w = .finite y ∧
      Number.mul (.finite x) (.finite y) = .finite z ∧ |z - v * w| ≤ v * w / 2 ^ 51 := by
  obtain ⟨x, hx, hx₁, hx₂⟩ := hv.round
  obtain ⟨y, hy, hy₁, hy₂⟩ := hw.round
  have hypos : 0 ≤ w * (1 - (2 ^ 53)⁻¹) := mul_nonneg hw.pos.le (by norm_num)
  have hxpos : 0 ≤ x := (mul_nonneg hv.pos.le (by norm_num)).trans hx₁
  have hlo : v * (1 - (2 ^ 53)⁻¹) * (w * (1 - (2 ^ 53)⁻¹)) ≤ x * y :=
    mul_le_mul hx₁ hy₁ hypos hxpos
  have hhi : x * y ≤ v * (1 + (2 ^ 53)⁻¹) * (w * (1 + (2 ^ 53)⁻¹)) :=
    mul_le_mul hx₂ hy₂ (hypos.trans hy₁) (mul_nonneg hv.pos.le (by norm_num))
  obtain ⟨hlow, hhigh⟩ := hv.mul_normal hw hlo hhi
  obtain ⟨z, hz, hz₁, hz₂⟩ := round_between hlow hhigh
  have hproduct : 0 ≤ v * w := (mul_pos hv.pos hw.pos).le
  refine ⟨x, y, z, hx, hy, hz, ?_⟩
  rw [div_eq_mul_inv, abs_sub_le_iff_between]
  constructor
  · calc v * w * (1 - (2 ^ 51)⁻¹)
        ≤ v * w * ((1 - (2 ^ 53)⁻¹) * (1 - (2 ^ 53)⁻¹) * (1 - (2 ^ 53)⁻¹)) :=
          mul_le_mul_of_nonneg_left (by norm_num) hproduct
      _ = v * (1 - (2 ^ 53)⁻¹) * (w * (1 - (2 ^ 53)⁻¹)) * (1 - (2 ^ 53)⁻¹) := by ring
      _ ≤ x * y * (1 - (2 ^ 53)⁻¹) := mul_le_mul_of_nonneg_right hlo (by norm_num)
      _ ≤ z := hz₁
  · calc z ≤ x * y * (1 + (2 ^ 53)⁻¹) := hz₂
      _ ≤ v * (1 + (2 ^ 53)⁻¹) * (w * (1 + (2 ^ 53)⁻¹)) * (1 + (2 ^ 53)⁻¹) :=
          mul_le_mul_of_nonneg_right hhi (by norm_num)
      _ = v * w * ((1 + (2 ^ 53)⁻¹) * (1 + (2 ^ 53)⁻¹) * (1 + (2 ^ 53)⁻¹)) := by ring
      _ ≤ v * w * (1 + (2 ^ 51)⁻¹) := mul_le_mul_of_nonneg_left (by norm_num) hproduct

theorem round_zero : round 0 = .finite 0 := by
  have hlimit : 0 < limit := pow_pos (by norm_num) 1024
  simp [round, roundHalfEven, hlimit]

end ZioBenchmarks.Binary64
