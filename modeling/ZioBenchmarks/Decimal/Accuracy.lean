import ZioBenchmarks.Decimal.Binary64

/-!
# Counting roundings

Sums, products and quotients of nonnegative floats are off by the roundings of their parts and one
of their own. `Near k x q` says that `x` is `q` up to `k` roundings, each of them a factor of at
most `1 + 2 ^ -52` in one direction or the other.
-/

set_option autoImplicit false

namespace ZioBenchmarks.Binary64

def Number.add : Number → Number → Number
  | .finite x, .finite y => round (x + y)
  | .nan, _ => .nan
  | _, .nan => .nan
  | _, _ => .infinity

def Number.div : Number → Number → Number
  | .finite x, .finite y =>
      if y = 0 then (if x = 0 then .nan else .infinity) else round (x / y)
  | .infinity, .finite _ => .infinity
  | .finite _, .infinity => .finite 0
  | .infinity, .infinity => .nan
  | .nan, _ => .nan
  | _, .nan => .nan

/-- What a rounding is off by at most. -/
def factor : ℚ := 1 + 1 / 2 ^ 52

/-- `x` is `q` up to `k` roundings. -/
structure Near (k : Nat) (x q : ℚ) : Prop where
  nonneg : 0 ≤ q
  low : q ≤ x * factor ^ k
  high : x ≤ q * factor ^ k

/-- Zero, and the numbers that are far from the ends of the range. -/
def Inner (q : ℚ) : Prop := q = 0 ∨ 2 ^ (-400 : ℤ) ≤ q ∧ q ≤ 2 ^ 400

variable {k l : Nat} {x y z p q : ℚ}

theorem factor_pow_pos (k : Nat) : 0 < factor ^ k := pow_pos (by norm_num [factor]) k

theorem factor_pow_le (hk : k ≤ 16) : factor ^ k ≤ 1 + 1 / 2 ^ 47 := by
  calc factor ^ k ≤ factor ^ 16 := pow_le_pow_right₀ (by norm_num [factor]) hk
    _ ≤ 1 + 1 / 2 ^ 47 := by norm_num [factor]

namespace Near

theorem refl (hq : 0 ≤ q) : Near 0 q q := ⟨hq, by simp, by simp⟩

theorem arg_nonneg (h : Near k x q) : 0 ≤ x :=
  nonneg_of_mul_nonneg_left (h.nonneg.trans h.low) (factor_pow_pos k)

theorem arg_pos (h : Near k x q) (hq : 0 < q) : 0 < x :=
  pos_of_mul_pos_left (hq.trans_le h.low) (factor_pow_pos k).le

theorem mono (h : Near k x q) (hkl : k ≤ l) : Near l x q := by
  have hpow : factor ^ k ≤ factor ^ l := pow_le_pow_right₀ (by norm_num [factor]) hkl
  exact ⟨h.nonneg, h.low.trans (mul_le_mul_of_nonneg_left hpow h.arg_nonneg),
    h.high.trans (mul_le_mul_of_nonneg_left hpow h.nonneg)⟩

theorem trans (h : Near k x y) (h' : Near l y q) : Near (k + l) x q where
  nonneg := h'.nonneg
  low := by
    calc q ≤ y * factor ^ l := h'.low
      _ ≤ x * factor ^ k * factor ^ l :=
        mul_le_mul_of_nonneg_right h.low (factor_pow_pos l).le
      _ = x * factor ^ (k + l) := by rw [pow_add, mul_assoc]
  high := by
    calc x ≤ y * factor ^ k := h.high
      _ ≤ q * factor ^ l * factor ^ k :=
        mul_le_mul_of_nonneg_right h'.high (factor_pow_pos k).le
      _ = q * factor ^ (k + l) := by rw [pow_add, mul_assoc, mul_comm (factor ^ l)]

theorem add (h : Near k x q) (h' : Near k y p) : Near k (x + y) (q + p) where
  nonneg := add_nonneg h.nonneg h'.nonneg
  low := by
    rw [add_mul]
    exact add_le_add h.low h'.low
  high := by
    rw [add_mul]
    exact add_le_add h.high h'.high

theorem mul (h : Near k x q) (h' : Near l y p) : Near (k + l) (x * y) (q * p) where
  nonneg := mul_nonneg h.nonneg h'.nonneg
  low := by
    calc q * p ≤ x * factor ^ k * (y * factor ^ l) :=
          mul_le_mul h.low h'.low h'.nonneg (h.nonneg.trans h.low)
      _ = x * y * factor ^ (k + l) := by rw [pow_add]; ring
  high := by
    calc x * y ≤ q * factor ^ k * (p * factor ^ l) :=
          mul_le_mul h.high h'.high h'.arg_nonneg (h.arg_nonneg.trans h.high)
      _ = q * p * factor ^ (k + l) := by rw [pow_add]; ring

theorem inv (h : Near k x q) (hq : 0 < q) : Near k x⁻¹ q⁻¹ := by
  have hx := h.arg_pos hq
  have hpow := factor_pow_pos k
  refine ⟨(inv_pos.2 hq).le, ?_, ?_⟩
  · rw [inv_le_iff_one_le_mul₀ hq]
    calc (1 : ℚ) = x⁻¹ * x := (inv_mul_cancel₀ hx.ne').symm
      _ ≤ x⁻¹ * (q * factor ^ k) := mul_le_mul_of_nonneg_left h.high (inv_pos.2 hx).le
      _ = x⁻¹ * factor ^ k * q := by ring
  · rw [inv_le_iff_one_le_mul₀ hx]
    calc (1 : ℚ) = q⁻¹ * q := (inv_mul_cancel₀ hq.ne').symm
      _ ≤ q⁻¹ * (x * factor ^ k) := mul_le_mul_of_nonneg_left h.low (inv_pos.2 hq).le
      _ = q⁻¹ * factor ^ k * x := by ring

theorem div (h : Near k x q) (h' : Near l y p) (hp : 0 < p) : Near (k + l) (x / y) (q / p) := by
  rw [div_eq_mul_inv, div_eq_mul_inv]
  exact h.mul (h'.inv hp)

theorem arg_eq_zero (h : Near k x q) (hq : q = 0) : x = 0 := by
  have hhigh := h.high
  rw [hq, zero_mul] at hhigh
  exact hhigh.antisymm h.arg_nonneg

/-- What is left of the error in the end. -/
theorem abs_sub_le (h : Near k x q) (hk : k ≤ 16) : |x - q| ≤ q / 2 ^ 47 := by
  have hpow := factor_pow_le hk
  have hlow := h.low.trans (mul_le_mul_of_nonneg_left hpow h.arg_nonneg)
  have hhigh := h.high.trans (mul_le_mul_of_nonneg_left hpow h.nonneg)
  have hx := h.arg_nonneg
  rw [abs_le]
  constructor
  · -- `x` is not above `q` in the case that matters
    by_contra hlt
    rw [not_le] at hlt
    have hle : x ≤ q := by
      have hq := div_nonneg h.nonneg (by norm_num : (0 : ℚ) ≤ 2 ^ 47)
      linarith
    linarith
  · linarith

end Near

/-- Numbers that are near to an inner one are not at the ends of the range either. -/
theorem Near.moderate (h : Near k x q) (hk : k ≤ 16) (hlow : 2 ^ (-400 : ℤ) ≤ q)
    (hhigh : q ≤ 2 ^ 400) : Moderate x := by
  have hpow : factor ^ k ≤ 2 := (factor_pow_le hk).trans (by norm_num)
  have hx := h.arg_nonneg
  constructor
  · have hle : 2 ^ (-400 : ℤ) ≤ x * 2 :=
      hlow.trans (h.low.trans (mul_le_mul_of_nonneg_left hpow hx))
    calc (2 : ℚ) ^ (-500 : ℤ) ≤ 2 ^ (-401 : ℤ) := zpow_le_zpow_right₀ (by norm_num) (by norm_num)
      _ = 2 ^ (-400 : ℤ) * 2⁻¹ := by rw [← zpow_sub_one₀ two_ne_zero]; norm_num
      _ ≤ x := by linarith
  · calc x ≤ q * factor ^ k := h.high
      _ ≤ 2 ^ 400 * 2 := mul_le_mul hhigh hpow (factor_pow_pos k).le (by positivity)
      _ = 2 ^ 401 := (pow_succ 2 400).symm
      _ ≤ 2 ^ 500 := pow_le_pow_right₀ (by norm_num) (by norm_num)

/-- One more rounding. -/
theorem Near.round (h : Near k x q) (hk : k ≤ 15) (hq : Inner q) :
    ∃ z, Binary64.round x = .finite z ∧ Near (k + 1) z q := by
  rcases hq with hzero | ⟨hlow, hhigh⟩
  · rw [h.arg_eq_zero hzero, round_zero]
    exact ⟨0, rfl, h.nonneg, by rw [hzero, zero_mul], by rw [hzero, zero_mul]⟩
  · obtain ⟨z, hz, hz₁, hz₂⟩ := (h.moderate (by omega) hlow hhigh).round
    have hx := h.arg_nonneg
    have hnear : Near 1 z x := by
      refine ⟨hx, ?_, ?_⟩
      · calc x ≤ x * ((1 - (2 ^ 53)⁻¹) * factor ^ 1) := by
              apply le_mul_of_one_le_right hx
              norm_num [factor]
          _ = x * (1 - (2 ^ 53)⁻¹) * factor ^ 1 := (mul_assoc _ _ _).symm
          _ ≤ z * factor ^ 1 := mul_le_mul_of_nonneg_right hz₁ (factor_pow_pos 1).le
      · calc z ≤ x * (1 + (2 ^ 53)⁻¹) := hz₂
          _ ≤ x * factor ^ 1 := mul_le_mul_of_nonneg_left (by norm_num [factor]) hx
    refine ⟨z, hz, ?_⟩
    rw [Nat.add_comm]
    exact hnear.trans h

theorem near_round (hq : 0 ≤ q) (hi : Inner q) : ∃ x, round q = .finite x ∧ Near 1 x q :=
  (Near.refl hq).round (by decide) hi

theorem Near.add_round (h : Near k x q) (h' : Near k y p) (hk : k ≤ 15) (hi : Inner (q + p)) :
    ∃ z, Number.add (.finite x) (.finite y) = .finite z ∧ Near (k + 1) z (q + p) :=
  (h.add h').round hk hi

theorem Near.div_round (h : Near k x q) (h' : Near l y p) (hp : 0 < p) (hk : k + l ≤ 15)
    (hi : Inner (q / p)) :
    ∃ z, Number.div (.finite x) (.finite y) = .finite z ∧ Near (k + l + 1) z (q / p) := by
  have hy : y ≠ 0 := (h'.arg_pos hp).ne'
  rw [Number.div, if_neg hy]
  exact (h.div h' hp).round hk hi

end ZioBenchmarks.Binary64
