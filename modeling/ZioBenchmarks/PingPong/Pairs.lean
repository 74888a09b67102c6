import ZioBenchmarks.PingPong.Pair
import ZioBenchmarks.Transition.Group

/-!
# All pairs of a run

`main` of `queue_ping_pong_native.zig`: it starts one `pair` after another in a group, each with its
share of the messages, and waits for the group. The pairs share nothing, so each of them goes
through the stages of a pair alone, however the pairs interleave.
-/

set_option autoImplicit false

namespace ZioBenchmarks.PingPong.Pairs

open ZioBenchmarks.Transition

/-- The messages of all pairs together. -/
def total : UInt64 := 100000

/-- `if (pairs == 0) pairs = 1`. -/
def count (pairs : UInt64) : UInt64 := if pairs = 0 then 1 else pairs

/-- `@max(total / pairs, 1)`. -/
def perPair (pairs : UInt64) : UInt64 :=
  if total / count pairs ≤ 1 then 1 else total / count pairs

/-- `pair` by `pair`: a step of a pair is a statement of one of its two tasks, and it returns when
both of them have. That `pair` itself cannot start one of the two is left out: it has both from the
start. -/
def tasks (pairs : UInt64) : Tasks (count pairs).toNat Role Unit State Label where
  shared := ()
  start _ := initial
  act _ r _ s := (task (perPair pairs) s r).map fun x => (x.1, (), x.2)
  returned s := s.pc .a == .returned && s.pc .b == .returned

/-- `main`, with the pairs in any order of steps. -/
def main (pairs : UInt64) :
    System (Tasks.State (count pairs).toNat Unit State) (Tasks.Label (count pairs).toNat Label) :=
  (tasks pairs).group

/-! ## The shares -/

variable {pairs : UInt64}

theorem count_pos : 0 < (count pairs).toNat := by
  unfold count
  by_cases h : pairs = 0
  · rw [if_pos h]
    decide
  · rw [if_neg h]
    have hne : pairs.toNat ≠ (0 : UInt64).toNat := fun heq => h (UInt64.toNat_inj.1 heq)
    exact Nat.pos_of_ne_zero hne

theorem perPair_toNat : (perPair pairs).toNat = max (100000 / (count pairs).toNat) 1 := by
  have hdiv : (total / count pairs).toNat = 100000 / (count pairs).toNat := UInt64.toNat_div _ _
  have hone : (1 : UInt64).toNat = 1 := rfl
  unfold perPair
  by_cases h : total / count pairs ≤ 1
  · rw [if_pos h, hone]
    rw [UInt64.le_iff_toNat_le, hdiv, hone] at h
    omega
  · rw [if_neg h, hdiv]
    rw [UInt64.le_iff_toNat_le, hdiv, hone] at h
    omega

/-- A pair exchanges its share, which is never empty. -/
theorem total_perPair : PingPong.total (perPair pairs) = (perPair pairs).toNat := by
  rw [PingPong.total, perPair_toNat, max_assoc, max_self]

/-- The shares of all pairs: `total` without the remainder, or one message a pair. -/
theorem count_mul_perPair : (count pairs).toNat * (perPair pairs).toNat =
    max (100000 - 100000 % (count pairs).toNat) (count pairs).toNat := by
  have hpos : 0 < (count pairs).toNat := count_pos
  have hmod := Nat.div_add_mod 100000 (count pairs).toNat
  rw [perPair_toNat]
  rcases Nat.eq_zero_or_pos (100000 / (count pairs).toNat) with hzero | hone
  · rw [hzero, Nat.mul_zero] at hmod
    rw [hzero, show max 0 1 = 1 from rfl, Nat.mul_one]
    omega
  · have hle : (count pairs).toNat ≤ (count pairs).toNat * (100000 / (count pairs).toNat) :=
      Nat.le_mul_of_pos_right _ hone
    rw [max_eq_left hone]
    omega

/-! ## One pair -/

section Stages

variable {limit : UInt64} {st : Stage}

theorem stage_bounds (hv : st.Valid limit) :
    st.delivered ≤ PingPong.total limit ∧ st.index ≤ 3 * PingPong.total limit + 2 := by
  cases st with
  | sending k | sent k | received k =>
      have hk : k < PingPong.total limit := hv
      simp only [Stage.delivered, Stage.index]
      omega
  | closing k | closed k | finished k =>
      have hk : k + 1 = PingPong.total limit := hv
      simp only [Stage.delivered, Stage.index]
      omega

/-- Only a pair in its last stage has returned. -/
theorem finished_of_returned (h : ∀ r, st.state.pc r = .returned) : ∃ k, st = .finished k := by
  cases st with
  | finished k => exact ⟨k, rfl⟩
  | sending k | sent k | received k | closing k | closed k =>
      have hsender := h (sender k)
      simp [Stage.state] at hsender

theorem exists_task (hv : st.Valid limit) (h : ¬ ∀ r, st.state.pc r = .returned) :
    ∃ r x, task limit st.state r = some x := by
  cases hnext : st.next limit with
  | some n =>
      obtain ⟨r, s', hs'⟩ := exists_step hv hnext
      exact ⟨r, _, hs'⟩
  | none =>
      cases st with
      | finished k =>
          refine absurd (fun r => ?_) h
          rcases eq_or_eq_peer r (sender k) with rfl | rfl
          all_goals simp [Stage.state]
      | sending k | sent k | received k | closing k | closed k => simp [Stage.next] at hnext

end Stages

theorem returned_iff (s : State) :
    (tasks pairs).returned s = true ↔ ∀ r, s.pc r = .returned := by
  simp only [tasks, Bool.and_eq_true, beq_iff_eq]
  constructor
  · rintro ⟨ha, hb⟩ r
    cases r with
    | a => exact ha
    | b => exact hb
  · exact fun h => ⟨h .a, h .b⟩

/-! ## All pairs -/

variable {s : Tasks.State (count pairs).toNat Unit State}
  {tr : List (Tasks.Label (count pairs).toNat Label)}

/-- What a pair does in a run of `main` is a run of the pair alone. -/
theorem pair_run (h : (main pairs).Run tr s) (i : Fin (count pairs).toNat) :
    (system (perPair pairs)).Run (Tasks.own i tr) (s.task i) := by
  refine ⟨initial, rfl, Tasks.Run.own (P := fun _ => system (perPair pairs)) ?_ h i⟩
  intro i r x a m x' a' hact
  simp only [tasks, Option.map_eq_some_iff, Prod.mk.injEq] at hact
  obtain ⟨⟨l, t⟩, ht, rfl, -, rfl⟩ := hact
  exact ⟨r, ht⟩

theorem stop_of_returned (h : (main pairs).Reachable s) (hmain : s.main = .released)
    (i : Fin (count pairs).toNat) : ∀ r, (s.task i).pc r = .returned := by
  refine (returned_iff _).1 (Tasks.Reachable.returned ?_ h hmain i)
  intro i r x a hret
  rw [returned_iff] at hret
  simp [tasks, task, hret r]

theorem pair_delivers (h : (main pairs).Run tr s) (i : Fin (count pairs).toNat) :
    deliveries (Tasks.own i tr) = exchange (deliveries (Tasks.own i tr)).length ∧
      (deliveries (Tasks.own i tr)).length ≤ (perPair pairs).toNat ∧
      (s.task i).messages ≤ 1 ∧ ∀ r, Label.refused r ∉ Tasks.own i tr := by
  obtain ⟨st, hv, hs, hh⟩ := stage_invariant (pair_run h i)
  have hlen : (deliveries (Tasks.own i tr)).length = st.delivered := by
    rw [hh.delivered]
    simp [exchange]
  refine ⟨by rw [hlen, hh.delivered], ?_, ?_, hh.accepted⟩
  · rw [hlen, ← total_perPair]
    exact (stage_bounds hv).1
  · rw [hs]
    exact messages_stage st

theorem pair_steps_le (h : (main pairs).Run tr s) (i : Fin (count pairs).toNat) :
    (Tasks.own i tr).length ≤ 3 * (perPair pairs).toNat + 2 := by
  obtain ⟨st, hv, -, hh⟩ := stage_invariant (pair_run h i)
  rw [hh.length, ← total_perPair]
  exact (stage_bounds hv).2

/-- A pair that has not returned can go on. -/
theorem pair_progress (h : (main pairs).Run tr s) (i : Fin (count pairs).toNat)
    (hi : (tasks pairs).returned (s.task i) = false) :
    ∃ r x, task (perPair pairs) (s.task i) r = some x := by
  obtain ⟨st, hv, hs, -⟩ := stage_invariant (pair_run h i)
  have hbusy : ¬ ∀ r, (s.task i).pc r = .returned := by
    rw [← @returned_iff pairs, hi]
    exact Bool.false_ne_true
  rw [hs] at hbusy ⊢
  exact exists_task hv hbusy

/-- A pair that `main` has waited for went through all of its stages. -/
theorem pair_finished (h : (main pairs).Run tr s) (hmain : s.main = .released)
    (i : Fin (count pairs).toNat) :
    deliveries (Tasks.own i tr) = exchange (perPair pairs).toNat ∧
      ∃ r, closes (Tasks.own i tr) = [r] ∧ ∀ q, ((s.task i).channel q).buffer = [] := by
  obtain ⟨st, hv, hs, hh⟩ := stage_invariant (pair_run h i)
  have hret := stop_of_returned h.reachable hmain i
  rw [hs] at hret
  obtain ⟨k, rfl⟩ := finished_of_returned hret
  have hk : k + 1 = PingPong.total (perPair pairs) := hv
  refine ⟨?_, (sender k).peer, hh.closed, ?_⟩
  · rw [hh.delivered, ← total_perPair, ← hk]
    rfl
  · intro q
    rw [hs]
    rcases eq_or_eq_peer q (sender k) with rfl | rfl
    all_goals simp [Stage.state]

/-- The pairs of `queue_ping_pong`. In every order of steps each pair delivers its own values `0`,
`1`, ... in this order and alternately to its two tasks, with at most one message on its way; no
send is refused; until `main` has waited for all pairs, or was refused one, somebody can go on, a run
has a bounded length, and `main` can get through; and when it is through, every pair has delivered
its whole share, closed one of its channels, once, and emptied both, so that all pairs together
delivered `pairs` shares: the messages that `total` splits into, without the remainder. All of this
is about runs without cancellation: behind a refused pair the source cancels the others. -/
theorem pairs_complete (h : (main pairs).Run tr s) :
    (∀ i, deliveries (Tasks.own i tr) = exchange (deliveries (Tasks.own i tr)).length ∧
      (deliveries (Tasks.own i tr)).length ≤ (perPair pairs).toNat ∧
      (s.task i).messages ≤ 1 ∧ ∀ r, Label.refused r ∉ Tasks.own i tr) ∧
    (∀ k, s.main = .started k → ∃ l s', (main pairs).step s l s') ∧
    (∀ k, s.main = .started k →
      ∃ us s', (main pairs).Path s us s' ∧ s'.main = .released) ∧
    tr.length ≤ (count pairs).toNat * (3 * (perPair pairs).toNat + 3) + 1 ∧
    (s.main = .released →
      (∀ i, deliveries (Tasks.own i tr) = exchange (perPair pairs).toNat ∧
        ∃ r, closes (Tasks.own i tr) = [r] ∧ ∀ q, ((s.task i).channel q).buffer = []) ∧
      ∑ i, (deliveries (Tasks.own i tr)).length =
        max (100000 - 100000 % (count pairs).toNat) (count pairs).toNat) := by
  have hmove : ∀ s, (main pairs).Reachable s → ∀ i, (tasks pairs).returned (s.task i) = false →
      ∃ r x, (tasks pairs).act i r s.shared (s.task i) = some x := by
    rintro s ⟨tr, hr⟩ i hi
    obtain ⟨r, x, hx⟩ := pair_progress hr i hi
    exact ⟨r, _, by simp only [tasks, hx]; rfl⟩
  refine ⟨pair_delivers h, fun k hmain => ?_, fun k hmain => ?_, ?_, ?_⟩
  · exact Tasks.Reachable.exists_step h.reachable hmain (hmove s h.reachable)
  · exact Tasks.Run.exists_released (fun tr s hr => pair_steps_le hr) hmove h hmain
  · have hle := Tasks.Run.length_le (pair_steps_le h) h
    rw [Nat.mul_add] at hle ⊢
    omega
  · intro hmain
    have hall := pair_finished h hmain
    refine ⟨hall, ?_⟩
    calc ∑ i, (deliveries (Tasks.own i tr)).length
        = ∑ _i : Fin (count pairs).toNat, (perPair pairs).toNat :=
          Finset.sum_congr rfl fun i _ => by simp [(hall i).1, exchange]
      _ = (count pairs).toNat * (perPair pairs).toNat := by
          rw [Finset.sum_const_nat fun _ _ => rfl, Finset.card_univ, Fintype.card_fin]
      _ = max (100000 - 100000 % (count pairs).toNat) (count pairs).toNat := count_mul_perPair

/-- One pair gets through, and then has delivered all messages. -/
theorem pairs_complete_onePair :
    ∃ tr s, (main 1).Run tr s ∧ s.main = .released ∧
      (∀ i, deliveries (Tasks.own i tr) = exchange 100000 ∧
        ∃ r, closes (Tasks.own i tr) = [r] ∧ ∀ q, ((s.task i).channel q).buffer = []) ∧
      ∑ i, (deliveries (Tasks.own i tr)).length = 100000 := by
  have hstart : (main 1).Run [] ⟨.started 0, (), fun _ => initial⟩ := .nil rfl
  obtain ⟨tr, s, hpath, hmain⟩ := (pairs_complete hstart).2.2.1 0 rfl
  have h : (main 1).Run ([] ++ tr) s := hstart.append hpath
  exact ⟨_, s, h, hmain, (pairs_complete h).2.2.2.2 hmain⟩

end ZioBenchmarks.PingPong.Pairs
