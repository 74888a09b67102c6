import Mathlib.Algebra.BigOperators.Fin
import Mathlib.Algebra.Order.BigOperators.Group.Multiset
import Mathlib.Algebra.Order.Floor.Div
import ZioBenchmarks.WorkerPool.Work

/-!
# The split of the items

Producer `p` puts the items from `p * num_items / num_producers` up to
`(p + 1) * num_items / num_producers`, in 64-bit arithmetic. The boundaries are those of consecutive
ranges, so the producers' items, put together, are `1` to `num_items`.
-/

set_option autoImplicit false

namespace ZioBenchmarks.WorkerPool

/-- The arguments of a worker pool. The products of the split do not overflow. -/
structure Config where
  numItems : UInt64
  numProducers : UInt64
  numConsumers : UInt64
  workIters : UInt64
  producers_pos : 1 ≤ numProducers.toNat
  consumers_pos : 1 ≤ numConsumers.toNat
  fits : numProducers.toNat * numItems.toNat < 2 ^ 64

namespace Config

/-- `p * num_items / num_producers`. -/
def start (cfg : Config) (p : UInt64) : UInt64 := p * cfg.numItems / cfg.numProducers

/-- `(p + 1) * num_items / num_producers`. -/
def last (cfg : Config) (p : UInt64) : UInt64 := (p + 1) * cfg.numItems / cfg.numProducers

/-- The items `1` to `num_items`. -/
def items (cfg : Config) : List UInt64 := WorkerPool.items cfg.numItems

/-- A boundary, in unbounded arithmetic. -/
def boundary (cfg : Config) (k : Nat) : Nat := k * cfg.numItems.toNat / cfg.numProducers.toNat

end Config

variable (cfg : Config)

/-- No product of the split overflows. -/
theorem mul_numItems_toNat {x : UInt64} (hx : x.toNat ≤ cfg.numProducers.toNat) :
    (x * cfg.numItems).toNat = x.toNat * cfg.numItems.toNat := by
  have hle : x.toNat * cfg.numItems.toNat ≤ cfg.numProducers.toNat * cfg.numItems.toNat :=
    Nat.mul_le_mul_right _ hx
  rw [UInt64.toNat_mul, Nat.mod_eq_of_lt (hle.trans_lt cfg.fits)]

theorem div_toNat {x : UInt64} (hx : x.toNat ≤ cfg.numProducers.toNat) :
    (x * cfg.numItems / cfg.numProducers).toNat = cfg.boundary x.toNat := by
  rw [UInt64.toNat_div, mul_numItems_toNat cfg hx, Config.boundary]

/-- A loop that counts up to a bound does not overflow. -/
theorem toNat_succ_of_lt {i e : UInt64} (h : i < e) : (i + 1).toNat = i.toNat + 1 := by
  rw [UInt64.lt_iff_toNat_lt] at h
  have he : e.toNat < 2 ^ 64 := e.toNat_lt
  have hone : (1 : UInt64).toNat = 1 := rfl
  rw [UInt64.toNat_add, hone, Nat.mod_eq_of_lt (by omega)]

theorem start_toNat_of_lt {p : UInt64} (hp : p < cfg.numProducers) :
    (cfg.start p).toNat = cfg.boundary p.toNat := by
  rw [UInt64.lt_iff_toNat_lt] at hp
  exact div_toNat cfg hp.le

theorem last_toNat_of_lt {p : UInt64} (hp : p < cfg.numProducers) :
    (cfg.last p).toNat = cfg.boundary (p.toNat + 1) := by
  have hsucc := toNat_succ_of_lt hp
  rw [UInt64.lt_iff_toNat_lt] at hp
  rw [Config.last, div_toNat cfg (by rw [hsucc]; exact hp), hsucc]

/-- The number of a producer. -/
theorem ofNat_lt_numProducers {p : Nat} (hp : p < cfg.numProducers.toNat) :
    (UInt64.ofNat p).toNat = p ∧ UInt64.ofNat p < cfg.numProducers := by
  have hval : (UInt64.ofNat p).toNat = p :=
    UInt64.toNat_ofNat_of_lt' (hp.trans cfg.numProducers.toNat_lt)
  refine ⟨hval, ?_⟩
  rw [UInt64.lt_iff_toNat_lt, hval]
  exact hp

theorem start_toNat (p : Fin cfg.numProducers.toNat) :
    (cfg.start (UInt64.ofNat p)).toNat = cfg.boundary p := by
  obtain ⟨hval, hlt⟩ := ofNat_lt_numProducers cfg p.isLt
  rw [start_toNat_of_lt cfg hlt, hval]

theorem last_toNat (p : Fin cfg.numProducers.toNat) :
    (cfg.last (UInt64.ofNat p)).toNat = cfg.boundary (p + 1) := by
  obtain ⟨hval, hlt⟩ := ofNat_lt_numProducers cfg p.isLt
  rw [last_toNat_of_lt cfg hlt, hval]

theorem boundary_zero : cfg.boundary 0 = 0 := by
  rw [Config.boundary, Nat.zero_mul, Nat.zero_div]

theorem boundary_le_succ (k : Nat) : cfg.boundary k ≤ cfg.boundary (k + 1) :=
  Nat.div_le_div_right (Nat.mul_le_mul_right _ (Nat.le_succ k))

theorem boundary_mono : Monotone cfg.boundary := monotone_nat_of_le_succ (boundary_le_succ cfg)

theorem boundary_last : cfg.boundary cfg.numProducers.toNat = cfg.numItems.toNat :=
  Nat.mul_div_cancel_left _ cfg.producers_pos

/-- What a producer at `i` has left to put before `e`. -/
def todo (i e : UInt64) : List UInt64 :=
  (List.range' i.toNat (e.toNat - i.toNat)).map fun k => UInt64.ofNat (k + 1)

/-- A producer that counts itself out of `remaining`. -/
theorem countdown {remaining : UInt64} (h : 1 ≤ remaining.toNat) :
    remaining ≠ 0 ∧ (remaining - 1).toNat = remaining.toNat - 1 ∧
      (remaining - 1 = 0 ↔ remaining = 1) := by
  have hone : (1 : UInt64).toNat = 1 := rfl
  have hzero : (0 : UInt64).toNat = 0 := rfl
  have hsub : (remaining - 1).toNat = remaining.toNat - 1 :=
    UInt64.toNat_sub_of_le _ _ (by rw [UInt64.le_iff_toNat_le]; exact h)
  refine ⟨?_, hsub, ?_⟩
  · rintro rfl
    exact absurd h (by decide)
  · rw [← UInt64.toNat_inj, ← UInt64.toNat_inj, hsub, hone]
    omega

/-- The loop of a producer puts `i + 1` and goes on at `i + 1`. -/
theorem todo_of_lt {i e : UInt64} (h : i < e) : todo i e = (i + 1) :: todo (i + 1) e := by
  have hsucc := toNat_succ_of_lt h
  rw [UInt64.lt_iff_toNat_lt] at h
  have hvalue : UInt64.ofNat (i.toNat + 1) = i + 1 := by
    rw [← hsucc, UInt64.ofNat_toNat]
  obtain ⟨n, hn⟩ : ∃ n, e.toNat - i.toNat = n + 1 := ⟨e.toNat - i.toNat - 1, by omega⟩
  have hn' : e.toNat - (i + 1).toNat = n := by omega
  rw [todo, todo, hn, hn', List.range'_succ, List.map_cons, hvalue, hsucc]

theorem todo_of_not_lt {i e : UInt64} (h : ¬ i < e) : todo i e = [] := by
  rw [UInt64.lt_iff_toNat_lt] at h
  rw [todo, Nat.sub_eq_zero_of_le (Nat.le_of_not_lt h)]
  rfl

/-- The first `k` ranges are everything below the `k`-th boundary. -/
theorem sum_ranges (f : Nat → UInt64) (k : Nat) :
    ∑ p ∈ Finset.range k, (((List.range' (cfg.boundary p)
      (cfg.boundary (p + 1) - cfg.boundary p)).map f : List UInt64) : Multiset UInt64) =
      ((List.range (cfg.boundary k)).map f : List UInt64) := by
  induction k with
  | zero =>
      rw [boundary_zero]
      rfl
  | succ k ih =>
      have hle := boundary_le_succ cfg k
      -- the next range starts where the ranges before it end
      have hrange : List.range (cfg.boundary (k + 1)) = List.range (cfg.boundary k) ++
          List.range' (cfg.boundary k) (cfg.boundary (k + 1) - cfg.boundary k) := by
        have happend := @List.range'_append 0 (cfg.boundary k)
          (cfg.boundary (k + 1) - cfg.boundary k) 1
        rw [Nat.one_mul, Nat.zero_add, Nat.add_sub_cancel' hle] at happend
        rw [List.range_eq_range', List.range_eq_range', happend]
      rw [Finset.sum_range_succ, ih, hrange, List.map_append, ← Multiset.coe_add]

/-- The producers' shares, put together, are the items. -/
theorem sum_shares :
    ∑ p : Fin cfg.numProducers.toNat,
      (todo (cfg.start (UInt64.ofNat p)) (cfg.last (UInt64.ofNat p)) : Multiset UInt64) =
      (cfg.items : Multiset UInt64) := by
  simp only [todo, start_toNat, last_toNat]
  rw [Finset.sum_fin_eq_sum_range]
  have h := sum_ranges cfg (fun k => UInt64.ofNat (k + 1)) cfg.numProducers.toNat
  rw [boundary_last] at h
  rw [Config.items, items, ← h]
  apply Finset.sum_congr rfl
  intro p hp
  rw [dif_pos (Finset.mem_range.1 hp)]

/-- The shares are as long as the items together. -/
theorem sum_share_lengths :
    ∑ p : Fin cfg.numProducers.toNat,
      ((cfg.last (UInt64.ofNat p)).toNat - (cfg.start (UInt64.ofNat p)).toNat) =
      cfg.numItems.toNat := by
  have hcard := congrArg Multiset.card (sum_shares cfg)
  simpa [todo, Config.items, items] using hcard

/-- What the tasks took, put together. -/
theorem coe_flatten {n : Nat} (f : Fin n → List UInt64) :
    (((List.finRange n).map f).flatten : Multiset UInt64) = ∑ c, (f c : Multiset UInt64) := by
  have hsum : ∀ l : List (Fin n), ((l.map f).flatten : Multiset UInt64) =
      (l.map fun c => (f c : Multiset UInt64)).sum := by
    intro l
    induction l with
    | nil => rfl
    | cons c l ih =>
        rw [List.map_cons, List.flatten_cons, ← Multiset.coe_add, ih, List.map_cons, List.sum_cons]
  rw [hsum, Fin.sum_univ_def]

/-! ## The split is even -/

/-- Below the last of some rising boundaries a number is between two of them. -/
theorem exists_boundary_le {b : Nat → Nat} (hzero : b 0 = 0) (k : Nat) {i : Nat} (hi : i < b k) :
    ∃ p < k, b p ≤ i ∧ i < b (p + 1) := by
  induction k with
  | zero =>
      rw [hzero] at hi
      exact absurd hi (Nat.not_lt_zero i)
  | succ k ih =>
      by_cases hk : i < b k
      · obtain ⟨p, hp, hrange⟩ := ih hk
        exact ⟨p, hp.trans (Nat.lt_succ_self k), hrange⟩
      · exact ⟨k, Nat.lt_succ_self k, Nat.le_of_not_lt hk, hi⟩

/-- A number is between two consecutive boundaries only once. -/
theorem boundary_unique {b : Nat → Nat} (hb : Monotone b) {p q i : Nat} (hp : b p ≤ i)
    (hp' : i < b (p + 1)) (hq : b q ≤ i) (hq' : i < b (q + 1)) : p = q := by
  rcases Nat.lt_trichotomy p q with hlt | heq | hlt
  · have hle : b (p + 1) ≤ b q := hb hlt
    omega
  · exact heq
  · have hle : b (q + 1) ≤ b p := hb hlt
    omega

/-- Two consecutive floors of multiples of a fraction are its floor or its ceiling apart. -/
theorem add_div_sub_div (a n : Nat) {k : Nat} (hk : 0 < k) :
    (a + n) / k - a / k = n / k ∨ (a + n) / k - a / k = n ⌈/⌉ k := by
  rw [Nat.add_div hk, Nat.ceilDiv_eq_add_pred_div]
  by_cases hcarry : k ≤ a % k + n % k
  · -- the remainders carry, so that of `n` is not zero
    have ha : a % k < k := Nat.mod_lt a hk
    have hn : n % k < k := Nat.mod_lt n hk
    have hceil : (n + k - 1) / k = n / k + 1 := by
      have hsplit : n + k - 1 = k * (n / k + 1) + (n % k - 1) := by
        have hdiv := Nat.div_add_mod n k
        rw [Nat.mul_add]
        omega
      rw [hsplit, Nat.mul_add_div hk, Nat.div_eq_of_lt (by omega : n % k - 1 < k), Nat.add_zero]
    right
    rw [if_pos hcarry, hceil, Nat.add_assoc, Nat.add_sub_cancel_left]
  · left
    rw [if_neg hcarry, Nat.add_zero, Nat.add_sub_cancel_left]

theorem boundary_succ_sub (k : Nat) :
    cfg.boundary (k + 1) - cfg.boundary k = cfg.numItems.toNat / cfg.numProducers.toNat ∨
      cfg.boundary (k + 1) - cfg.boundary k =
        cfg.numItems.toNat ⌈/⌉ cfg.numProducers.toNat := by
  have h := add_div_sub_div (k * cfg.numItems.toNat) cfg.numItems.toNat cfg.producers_pos
  rwa [Config.boundary, Config.boundary, Nat.succ_mul]

variable {cfg} {p q i : UInt64}

/-- An index is in the range of a producer. -/
theorem mem_range_iff (hp : p < cfg.numProducers) :
    cfg.start p ≤ i ∧ i < cfg.last p ↔
      cfg.boundary p.toNat ≤ i.toNat ∧ i.toNat < cfg.boundary (p.toNat + 1) := by
  rw [UInt64.le_iff_toNat_le, start_toNat_of_lt cfg hp, UInt64.lt_iff_toNat_lt,
    last_toNat_of_lt cfg hp]

/-- An index is in one range at most. -/
theorem range_unique (hp : p < cfg.numProducers) (hq : q < cfg.numProducers)
    (hip : cfg.start p ≤ i ∧ i < cfg.last p) (hiq : cfg.start q ≤ i ∧ i < cfg.last q) : p = q := by
  obtain ⟨hp₁, hp₂⟩ := (mem_range_iff hp).1 hip
  obtain ⟨hq₁, hq₂⟩ := (mem_range_iff hq).1 hiq
  exact UInt64.toNat_inj.1 (boundary_unique (boundary_mono cfg) hp₁ hp₂ hq₁ hq₂)

/-- The ranges cover the indices of the items, and nothing else. -/
theorem exists_range_iff :
    (∃ p < cfg.numProducers, cfg.start p ≤ i ∧ i < cfg.last p) ↔ i < cfg.numItems := by
  rw [UInt64.lt_iff_toNat_lt, ← boundary_last cfg]
  constructor
  · rintro ⟨p, hp, hi⟩
    have hbelow := ((mem_range_iff hp).1 hi).2
    rw [UInt64.lt_iff_toNat_lt] at hp
    exact hbelow.trans_le (boundary_mono cfg hp)
  · intro hi
    obtain ⟨k, hk, hrange⟩ := exists_boundary_le (boundary_zero cfg) _ hi
    obtain ⟨hval, hlt⟩ := ofNat_lt_numProducers cfg hk
    refine ⟨UInt64.ofNat k, hlt, ?_⟩
    rw [mem_range_iff hlt, hval]
    exact hrange

/-- A range does not end before it starts, and is as long as the others but for one item. -/
theorem range_length (hp : p < cfg.numProducers) :
    cfg.start p ≤ cfg.last p ∧
      ((cfg.last p - cfg.start p).toNat = cfg.numItems.toNat / cfg.numProducers.toNat ∨
        (cfg.last p - cfg.start p).toNat = cfg.numItems.toNat ⌈/⌉ cfg.numProducers.toNat) := by
  have hle : cfg.start p ≤ cfg.last p := by
    rw [UInt64.le_iff_toNat_le, start_toNat_of_lt cfg hp, last_toNat_of_lt cfg hp]
    exact boundary_le_succ cfg _
  refine ⟨hle, ?_⟩
  rw [UInt64.toNat_sub_of_le _ _ hle, start_toNat_of_lt cfg hp, last_toNat_of_lt cfg hp]
  exact boundary_succ_sub cfg _

variable (cfg)

/-- The split is an even partition. No sum and no product overflows; the first range starts at `0`,
each one ends where the next one starts, and the last one ends at `num_items`; two ranges are
disjoint, together they are everything below `num_items`, and the length of a range is the floor or
the ceiling of `num_items / num_producers`. -/
theorem split_even_partition :
    (∀ p < cfg.numProducers,
      (p + 1).toNat = p.toNat + 1 ∧
      (p * cfg.numItems).toNat = p.toNat * cfg.numItems.toNat ∧
      ((p + 1) * cfg.numItems).toNat = (p.toNat + 1) * cfg.numItems.toNat) ∧
    (cfg.start 0 = 0 ∧ (∀ p, cfg.last p = cfg.start (p + 1)) ∧
      cfg.last (cfg.numProducers - 1) = cfg.numItems) ∧
    (∀ p < cfg.numProducers, ∀ q < cfg.numProducers, p ≠ q →
      ∀ i, cfg.start p ≤ i → i < cfg.last p → ¬ (cfg.start q ≤ i ∧ i < cfg.last q)) ∧
    (∀ i, (∃ p < cfg.numProducers, cfg.start p ≤ i ∧ i < cfg.last p) ↔ i < cfg.numItems) ∧
    ∀ p < cfg.numProducers, cfg.start p ≤ cfg.last p ∧
      ((cfg.last p - cfg.start p).toNat = cfg.numItems.toNat / cfg.numProducers.toNat ∨
        (cfg.last p - cfg.start p).toNat = cfg.numItems.toNat ⌈/⌉ cfg.numProducers.toNat) := by
  refine ⟨?_, ⟨?_, fun _ => rfl, ?_⟩, ?_, fun i => exists_range_iff, fun p hp => range_length hp⟩
  · intro p hp
    have hsucc := toNat_succ_of_lt hp
    rw [UInt64.lt_iff_toNat_lt] at hp
    refine ⟨hsucc, mul_numItems_toNat cfg hp.le, ?_⟩
    rw [mul_numItems_toNat cfg (by rw [hsucc]; exact hp), hsucc]
  · rw [Config.start, UInt64.zero_mul, UInt64.zero_div]
  · rw [Config.last, UInt64.sub_add_cancel, ← UInt64.toNat_inj, div_toNat cfg le_rfl, boundary_last]
  · intro p hp q hq hne i hi hi' hiq
    exact hne (range_unique hp hq ⟨hi, hi'⟩ hiq)

end ZioBenchmarks.WorkerPool
