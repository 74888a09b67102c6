import Mathlib.Data.UInt
import ZioBenchmarks.Fold.Commutative

/-!
# Work and checksum of the worker pools

`work` is the recurrence every item is put through, `consumer` combines the results of the items it
takes, and `main` combines what the consumers found. The checksum depends on the set of processed
items only (`checksum_eq`). A shift distributes over `xor`, so `work` is zero exactly if the `xor` of
the states of the recurrence is below `2 ^ 29`: these are the items whose loss the checksum does not
show.
-/

set_option autoImplicit false

namespace ZioBenchmarks.WorkerPool

open ZioBenchmarks.Fold

/-- The `xor` of a list. -/
def xorAll : List UInt64 → UInt64 := total (fun a b => a ^^^ b) 0

@[simp] theorem xorAll_nil : xorAll [] = 0 := rfl

@[simp] theorem xorAll_cons (a : UInt64) (l : List UInt64) :
    xorAll (a :: l) = a ^^^ xorAll l := total_cons _ _ a l

theorem xorAll_perm {l m : List UInt64} (h : l.Perm m) : xorAll l = xorAll m := total_perm _ _ h

theorem foldl_xor (a : UInt64) (l : List UInt64) :
    l.foldl (fun acc x => acc ^^^ x) a = a ^^^ xorAll l := foldl_eq_total _ _ a l

/-- `x *% 6364136223846793005 +% 1442695040888963407`. -/
def advance (x : UInt64) : UInt64 := x * 6364136223846793005 + 1442695040888963407

/-- The loop of `work`, with the number of turns that are left. -/
def workLoop : Nat → UInt64 → UInt64 → UInt64
  | 0, _, acc => acc
  | n + 1, x, acc => workLoop n (advance x) (acc ^^^ advance x >>> 29)

def work (seed iters : UInt64) : UInt64 := workLoop iters.toNat seed 0

/-- What a `consumer` writes to its `result` after it took `items`. -/
def consumer (iters : UInt64) (items : List UInt64) : UInt64 :=
  items.foldl (fun acc item => acc ^^^ work item iters) 0

/-- `for (results) |r| checksum ^= r`. -/
def checksum (results : List UInt64) : UInt64 := results.foldl (fun acc r => acc ^^^ r) 0

/-- The values the producers put: `1` to `num_items`. -/
def items (numItems : UInt64) : List UInt64 :=
  (List.range numItems.toNat).map fun i => UInt64.ofNat (i + 1)

/-! ## The checksum depends on the set of processed items only -/

theorem consumer_eq (iters : UInt64) (l : List UInt64) :
    consumer iters l = xorAll (l.map fun item => work item iters) := by
  rw [consumer, foldl_map_eq_total (fun a b : UInt64 => a ^^^ b) 0, UInt64.zero_xor, xorAll]

theorem checksum_eq (iters : UInt64) (runs : List (List UInt64)) :
    checksum (runs.map (consumer iters)) =
      xorAll (runs.flatten.map fun item => work item iters) := by
  have hruns : runs.map (consumer iters) =
      (runs.map (List.map fun item => work item iters)).map xorAll := by
    simp [consumer_eq]
  rw [checksum, foldl_xor, UInt64.zero_xor, hruns, xorAll, total_map_total, List.map_flatten]

/-- The checksum of a run whose consumers took `l` in all. -/
theorem checksum_of_perm {iters : UInt64} {runs : List (List UInt64)} {l : List UInt64}
    (h : runs.flatten.Perm l) :
    checksum (runs.map (consumer iters)) = xorAll (l.map fun item => work item iters) := by
  rw [checksum_eq, xorAll_perm (h.map _)]

/-! ## When `work` is zero -/

/-- The states of the recurrence after 1, 2, ..., `n` turns. -/
def states : Nat → UInt64 → List UInt64
  | 0, _ => []
  | n + 1, x => advance x :: states n (advance x)

theorem workLoop_eq (n : Nat) (x acc : UInt64) :
    workLoop n x acc = acc ^^^ (xorAll (states n x)) >>> 29 := by
  induction n generalizing x acc with
  | zero => simp [workLoop, states]
  | succ n ih => simp [workLoop, states, ih, UInt64.shiftRight_xor, UInt64.xor_assoc]

theorem work_eq_zero_iff (seed iters : UInt64) :
    work seed iters = 0 ↔ xorAll (states iters.toNat seed) < 2 ^ 29 := by
  rw [work, workLoop_eq, UInt64.zero_xor, ← UInt64.toNat_inj, UInt64.lt_iff_toNat_lt,
    UInt64.toNat_shiftRight]
  have h29 : (29 : UInt64).toNat % 64 = 29 := rfl
  have hpow : (2 ^ 29 : UInt64).toNat = 2 ^ 29 := rfl
  rw [h29, hpow, Nat.shiftRight_eq_div_pow]
  exact Nat.div_eq_zero_iff_lt (by decide)

/-! ## Which lost items the checksum shows -/

/-- A run that lost one item ends with another checksum exactly if the states of the recurrence
from that item do not cancel above bit 28. -/
theorem lost_item_detected_iff {numItems iters k : UInt64} {whole lossy : List (List UInt64)}
    (hk : k ∈ items numItems) (hwhole : whole.flatten.Perm (items numItems))
    (hlossy : lossy.flatten.Perm ((items numItems).erase k)) :
    checksum (lossy.map (consumer iters)) ≠ checksum (whole.map (consumer iters)) ↔
      2 ^ 29 ≤ xorAll (states iters.toNat k) := by
  have hall : whole.flatten.Perm (k :: (items numItems).erase k) :=
    hwhole.trans (List.perm_cons_erase hk)
  rw [checksum_of_perm hlossy, checksum_of_perm hall, List.map_cons, xorAll_cons]
  have hcancel : ∀ r : UInt64, r ≠ work k iters ^^^ r ↔ work k iters ≠ 0 := by
    intro r
    have hinj := UInt64.xor_left_inj (a := work k iters) (b := 0) r
    rw [UInt64.zero_xor] at hinj
    rw [ne_comm, ne_eq, ne_eq, hinj]
  rw [hcancel, ne_eq, work_eq_zero_iff, UInt64.not_lt]

theorem mem_items {numItems v : UInt64} : v ∈ items numItems ↔ 1 ≤ v ∧ v ≤ numItems := by
  have hn : numItems.toNat < 2 ^ 64 := numItems.toNat_lt
  simp only [items, List.mem_map, List.mem_range, UInt64.le_iff_toNat_le]
  constructor
  · rintro ⟨i, hi, rfl⟩
    have hv : (UInt64.ofNat (i + 1)).toNat = i + 1 :=
      UInt64.toNat_ofNat_of_lt' (show i + 1 < 2 ^ 64 by omega)
    have h1 : (1 : UInt64).toNat = 1 := rfl
    omega
  · rintro ⟨h1, h2⟩
    have h1' : (1 : UInt64).toNat = 1 := rfl
    refine ⟨v.toNat - 1, by omega, ?_⟩
    rw [Nat.sub_add_cancel (by omega), UInt64.ofNat_toNat]

/-- The first of three items is lost, with one turn of work per item. -/
theorem lost_item_detected_iff_one :
    checksum ([[2], [3]].map (consumer 1)) ≠ checksum ([[3, 1], [2]].map (consumer 1)) :=
  (@lost_item_detected_iff 3 1 1 [[3, 1], [2]] [[2], [3]] (by decide) (by decide)
    (by decide)).2 (by decide)

/-- Without work per item every checksum is zero. -/
theorem checksum_without_work (runs : List (List UInt64)) :
    checksum (runs.map (consumer 0)) = 0 := by
  have hzero : ∀ l : List UInt64, xorAll (l.map fun item => work item 0) = 0 := by
    intro l
    induction l with
    | nil => rfl
    | cons item l ih =>
        rw [List.map_cons, xorAll_cons, ih, UInt64.xor_zero]
        rfl
  rw [checksum_eq, hzero]

/-- The checksum does not always show a lost item: the light preset has 100000 items and no work. -/
theorem lost_item_not_detected :
    ¬ ∀ (numItems iters k : UInt64) (whole lossy : List (List UInt64)), k ∈ items numItems →
      whole.flatten.Perm (items numItems) → lossy.flatten.Perm ((items numItems).erase k) →
      checksum (lossy.map (consumer iters)) ≠ checksum (whole.map (consumer iters)) := by
  intro hclaim
  have hk : 1 ∈ items 100000 := mem_items.2 (by decide)
  apply hclaim 100000 0 1 [items 100000] [(items 100000).erase 1] hk (by simp) (by simp)
  rw [checksum_without_work, checksum_without_work]

end ZioBenchmarks.WorkerPool
