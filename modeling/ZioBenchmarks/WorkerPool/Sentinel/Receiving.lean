import ZioBenchmarks.Fold.Update
import ZioBenchmarks.WorkerPool.Sentinel.Pool

/-!
# The receiving side of the pools with sentinels

A consumer has taken items and, once it has stopped, one sentinel behind them; the checksum is that
of the consumers that have combined their results. `Receiving` is kept by every step.
-/

set_option autoImplicit false

namespace ZioBenchmarks.WorkerPool.Sentinel

open ZioBenchmarks.Transition ZioBenchmarks.Fold

variable {cfg : Config}

/-- The consumer has taken its sentinel. -/
def ConsumerPc.stopped : ConsumerPc → Nat
  | .receive => 0
  | .combine | .signal | .returned => 1

/-- The consumer has not returned. -/
def ConsumerPc.running : ConsumerPc → Nat
  | .receive | .combine | .signal => 1
  | .returned => 0

/-- The consumer has combined its result. -/
def ConsumerPc.Combined : ConsumerPc → Prop
  | .receive | .combine => False
  | .signal | .returned => True

section Classes

@[simp] theorem stopped_receive : ConsumerPc.receive.stopped = 0 := rfl

@[simp] theorem stopped_combine : ConsumerPc.combine.stopped = 1 := rfl

@[simp] theorem stopped_signal : ConsumerPc.signal.stopped = 1 := rfl

@[simp] theorem stopped_returned : ConsumerPc.returned.stopped = 1 := rfl

@[simp] theorem running_receive : ConsumerPc.receive.running = 1 := rfl

@[simp] theorem running_combine : ConsumerPc.combine.running = 1 := rfl

@[simp] theorem running_signal : ConsumerPc.signal.running = 1 := rfl

@[simp] theorem running_returned : ConsumerPc.returned.running = 0 := rfl

@[simp] theorem combined_receive : ConsumerPc.receive.Combined ↔ False := Iff.rfl

@[simp] theorem combined_combine : ConsumerPc.combine.Combined ↔ False := Iff.rfl

@[simp] theorem combined_signal : ConsumerPc.signal.Combined ↔ True := Iff.rfl

@[simp] theorem combined_returned : ConsumerPc.returned.Combined ↔ True := Iff.rfl

end Classes

/-- What a consumer has taken: its items, and the sentinel at which it stopped. -/
def Consumer.received (x : Consumer) : List UInt64 := x.taken ++ List.replicate x.pc.stopped 0

/-- What the consumers have taken. -/
def State.received (s : State cfg) : Multiset UInt64 :=
  ∑ c, ((s.consumer c).received : Multiset UInt64)

/-- The consumers that have taken their sentinel. -/
def State.stopped (s : State cfg) : Nat := ∑ c, (s.consumer c).pc.stopped

/-- The consumers that have not returned. -/
def State.running (s : State cfg) : Nat := ∑ c, (s.consumer c).pc.running

/-- A consumer that took `mine`. -/
structure Consumer.Ok (cfg : Config) (mine : List UInt64) (x : Consumer) : Prop where
  received : mine = x.received
  real : 0 ∉ x.taken
  acc : x.acc = consumer cfg.workIters x.taken

/-- What was taken is what the consumers have, and the checksum is that of the consumers that have
combined their results. -/
structure Receiving (v : Variant) (tr : List (Label cfg)) (s : State cfg) : Prop where
  received : (takes tr : Multiset UInt64) = s.received
  consumers : ∀ c, (s.consumer c).Ok cfg (takesBy c tr)
  nodup : (combined tr).Nodup
  mem_combined : ∀ c, c ∈ combined tr ↔ (s.consumer c).pc.Combined
  checksum : s.checksum = WorkerPool.checksum ((combined tr).map fun c => (s.consumer c).acc)
  signalled : v = .photon → s.main ≠ .returned →
    s.consumersDone + s.running = cfg.numConsumers.toNat

section Receiving

variable {v : Variant} {tr : List (Label cfg)} {s s' : State cfg} {l : Label cfg}
  {c : Fin cfg.numConsumers.toNat} {y : Consumer}

/-- A step of a producer or of `main`. -/
theorem Receiving.frame (hi : Receiving v tr s) (htakes : takes [l] = [])
    (hmine : ∀ d, takesBy d [l] = []) (hcombined : combined [l] = [])
    (hconsumer : s'.consumer = s.consumer) (hchecksum : s'.checksum = s.checksum)
    (hsignalled : v = .photon → s'.main ≠ .returned →
      s'.consumersDone = s.consumersDone ∧ s.main ≠ .returned) :
    Receiving v (tr ++ [l]) s' where
  received := by
    rw [takes_snoc, htakes, List.append_nil, State.received, hconsumer]
    exact hi.received
  consumers d := by
    rw [takesBy_snoc, hmine, List.append_nil, hconsumer]
    exact hi.consumers d
  nodup := by
    rw [combined_snoc, hcombined, List.append_nil]
    exact hi.nodup
  mem_combined d := by
    rw [combined_snoc, hcombined, List.append_nil, hconsumer]
    exact hi.mem_combined d
  checksum := by
    rw [combined_snoc, hcombined, List.append_nil, hconsumer, hchecksum]
    exact hi.checksum
  signalled hv hm := by
    obtain ⟨hdone, hmain⟩ := hsignalled hv hm
    rw [hdone, State.running, hconsumer]
    exact hi.signalled hv hmain

/-- A step of a consumer that becomes `y`, given what it means for the checksum. -/
theorem Receiving.move (hi : Receiving v tr s)
    (hconsumer : s'.consumer = Function.update s.consumer c y)
    (hmine : takesBy c [l] = takes [l]) (hother : ∀ d, d ≠ c → takesBy d [l] = [])
    (hy : y.Ok cfg (takesBy c tr ++ takesBy c [l])) (hnodup : (combined (tr ++ [l])).Nodup)
    (hmem : ∀ d, d ∈ combined (tr ++ [l]) ↔ (Function.update s.consumer c y d).pc.Combined)
    (hchecksum : s'.checksum = WorkerPool.checksum
      ((combined (tr ++ [l])).map fun d => (Function.update s.consumer c y d).acc))
    (hmain : s'.main = s.main)
    (hsignalled : v = .photon →
      s'.consumersDone + y.pc.running = s.consumersDone + (s.consumer c).pc.running) :
    Receiving v (tr ++ [l]) s' := by
  have hreceived : s'.received + ((s.consumer c).received : Multiset UInt64) =
      s.received + y.received := by
    rw [State.received, hconsumer]
    exact sum_update (fun y : Consumer => (y.received : Multiset UInt64)) s.consumer c y
  have hrunning : s'.running + (s.consumer c).pc.running = s.running + y.pc.running := by
    rw [State.running, hconsumer]
    exact sum_update (fun y : Consumer => y.pc.running) s.consumer c y
  refine ⟨?_, ?_, hnodup, ?_, ?_, ?_⟩
  -- what the consumer has now is what it had and what it took
  · have hsplit : (y.received : Multiset UInt64) = takes [l] + ((s.consumer c).received) := by
      rw [← hy.received, hmine, (hi.consumers c).received, ← Multiset.coe_add, add_comm]
    rw [hsplit, ← add_assoc, add_left_inj, ← hi.received] at hreceived
    rw [hreceived, takes_snoc, Multiset.coe_add]
  · intro d
    rw [hconsumer, takesBy_snoc]
    by_cases hd : d = c
    · subst hd
      rw [Function.update_self]
      exact hy
    · rw [Function.update_of_ne hd, hother d hd, List.append_nil]
      exact hi.consumers d
  · rw [hconsumer]
    exact hmem
  · rw [hconsumer]
    exact hchecksum
  · intro hv hm
    rw [hmain] at hm
    have hold := hi.signalled hv hm
    have hmove := hsignalled hv
    omega

/-- An accumulator that is not in the checksum may change. -/
theorem map_acc_update {cs : List (Fin cfg.numConsumers.toNat)}
    (h : y.acc = (s.consumer c).acc ∨ c ∉ cs) :
    (cs.map fun d => (Function.update s.consumer c y d).acc) =
      cs.map fun d => (s.consumer d).acc := by
  apply List.map_congr_left
  intro d hd
  by_cases heq : d = c
  · subst heq
    rw [Function.update_self]
    exact h.resolve_right (fun hnot => hnot hd)
  · rw [Function.update_of_ne heq]

/-- A step of a consumer that does not combine its result. -/
theorem Receiving.quiet (hi : Receiving v tr s) (hcombined : combined [l] = [])
    (hconsumer : s'.consumer = Function.update s.consumer c y)
    (hmine : takesBy c [l] = takes [l]) (hother : ∀ d, d ≠ c → takesBy d [l] = [])
    (hy : y.Ok cfg (takesBy c tr ++ takesBy c [l]))
    (hpc : y.pc.Combined ↔ (s.consumer c).pc.Combined)
    (hacc : y.acc = (s.consumer c).acc ∨ ¬ (s.consumer c).pc.Combined)
    (hchecksum : s'.checksum = s.checksum) (hmain : s'.main = s.main)
    (hsignalled : v = .photon →
      s'.consumersDone + y.pc.running = s.consumersDone + (s.consumer c).pc.running) :
    Receiving v (tr ++ [l]) s' := by
  rw [← hi.mem_combined] at hacc
  refine hi.move hconsumer hmine hother hy ?_ ?_ ?_ hmain hsignalled
  · rw [combined_snoc, hcombined, List.append_nil]
    exact hi.nodup
  · intro d
    rw [combined_snoc, hcombined, List.append_nil, hi.mem_combined]
    by_cases hd : d = c
    · subst hd
      rw [Function.update_self, hpc]
    · rw [Function.update_of_ne hd]
  · rw [combined_snoc, hcombined, List.append_nil, map_acc_update hacc, hchecksum]
    exact hi.checksum

/-- A consumer takes an item. -/
theorem Receiving.item (hi : Receiving v tr s) (hc : (s.consumer c).pc = .receive) {item : UInt64}
    (hne : item ≠ 0) (rest : List UInt64) :
    Receiving v (tr ++ [.took c item]) ({ s with queue := rest }.setConsumer c
      ⟨.receive, (s.consumer c).acc ^^^ work item cfg.workIters,
        (s.consumer c).taken ++ [item]⟩) := by
  obtain ⟨hmine, hreal, hacc⟩ := hi.consumers c
  have hself : takesBy c [.took c item] = [item] := by
    rw [takesBy_took, if_pos rfl]
  refine hi.quiet rfl rfl hself ?_ ⟨?_, ?_, ?_⟩ (by rw [hc]) (.inr (by rw [hc]; exact id)) rfl rfl
    (fun _ => by rw [hc]; rfl)
  · intro d hd
    rw [takesBy_took, if_neg (Ne.symm hd)]
  · rw [hmine, hself, Consumer.received, hc, Consumer.received, stopped_receive,
      List.replicate_zero, List.append_nil, List.append_nil]
  · rw [List.mem_append, List.mem_singleton]
    exact not_or.2 ⟨hreal, Ne.symm hne⟩
  · rw [hacc, consumer, consumer, List.foldl_append]
    rfl

/-- A consumer takes a sentinel. -/
theorem Receiving.sentinel (hi : Receiving v tr s) (hc : (s.consumer c).pc = .receive)
    (rest : List UInt64) :
    Receiving v (tr ++ [.took c 0]) ({ s with queue := rest }.setConsumer c
      { s.consumer c with pc := .combine }) := by
  obtain ⟨hmine, hreal, hacc⟩ := hi.consumers c
  have hself : takesBy c [.took c 0] = [0] := by
    rw [takesBy_took, if_pos rfl]
  refine hi.quiet rfl rfl hself ?_ ⟨?_, hreal, hacc⟩ (by rw [hc]; rfl) (.inl rfl) rfl rfl
    (fun _ => by rw [hc]; rfl)
  · intro d hd
    rw [takesBy_took, if_neg (Ne.symm hd)]
  · rw [hmine, hself, Consumer.received, hc, stopped_receive, List.replicate_zero, List.append_nil]
    rfl

/-- A consumer signals that it is done. -/
theorem Receiving.signal (hi : Receiving v tr s) (hc : (s.consumer c).pc = .signal) :
    Receiving v (tr ++ [.silent]) ({ s with consumersDone := s.consumersDone + 1 }.setConsumer c
      { s.consumer c with pc := .returned }) := by
  obtain ⟨hmine, hreal, hacc⟩ := hi.consumers c
  refine hi.quiet rfl rfl rfl (fun _ _ => rfl) ⟨?_, hreal, hacc⟩ (by rw [hc]; rfl) (.inl rfl) rfl
    rfl (fun _ => by rw [hc]; rfl)
  rw [hmine, takesBy_silent, List.append_nil, Consumer.received, hc]
  rfl

/-- A consumer combines its result. -/
theorem Receiving.combine (hi : Receiving v tr s) (hc : (s.consumer c).pc = .combine) :
    Receiving v (tr ++ [.combined c])
      ({ s with checksum := s.checksum ^^^ (s.consumer c).acc }.setConsumer c
        { s.consumer c with pc := .afterCombine v }) := by
  obtain ⟨hmine, hreal, hacc⟩ := hi.consumers c
  -- a consumer combines once
  have hnot : c ∉ combined tr := by
    rw [hi.mem_combined, hc]
    exact id
  have hstopped : (ConsumerPc.afterCombine v).stopped = 1 := by
    cases v with
    | asio => rfl
    | photon => rfl
  have hafter : (ConsumerPc.afterCombine v).Combined := by
    cases v with
    | asio => trivial
    | photon => trivial
  refine hi.move rfl rfl (fun _ _ => rfl) ⟨?_, hreal, hacc⟩ ?_ ?_ ?_ rfl ?_
  · rw [hmine, takesBy_combined, List.append_nil, Consumer.received, Consumer.received, hc, hstopped]
    rfl
  · rw [combined_snoc, combined_combined, ← List.concat_eq_append, List.nodup_concat]
    exact ⟨hnot, hi.nodup⟩
  · intro d
    rw [combined_snoc, combined_combined, List.mem_append, List.mem_singleton, hi.mem_combined]
    by_cases hd : d = c
    · subst hd
      rw [Function.update_self]
      exact iff_of_true (.inr rfl) hafter
    · rw [Function.update_of_ne hd]
      exact or_iff_left hd
  -- its accumulator is final, and comes behind those combined before
  · have hmap : ((combined tr).map fun d => (Function.update s.consumer c
        { s.consumer c with pc := .afterCombine v } d).acc) =
        (combined tr).map fun d => (s.consumer d).acc := map_acc_update (.inl rfl)
    rw [combined_snoc, combined_combined, List.map_append, List.map_singleton, hmap,
      Function.update_self, WorkerPool.checksum, List.foldl_append]
    exact congrArg (· ^^^ (s.consumer c).acc) hi.checksum
  · intro hv
    rw [hv, hc]
    rfl

theorem consumerStep_receiving (hi : Receiving v tr s) (h : consumerStep v s c = some (l, s')) :
    Receiving v (tr ++ [l]) s' := by
  obtain ⟨rest, hc, -, rfl, rfl⟩ | ⟨item, rest, hc, -, hne, rfl, rfl⟩ | ⟨hc, rfl, rfl⟩ |
    ⟨hc, rfl, rfl⟩ := consumerStep_cases h
  · exact hi.sentinel hc rest
  · exact hi.item hc hne rest
  · exact hi.combine hc
  · exact hi.signal hc

theorem producerStep_receiving (hi : Receiving v tr s) {p : Fin cfg.numProducers.toNat}
    (h : producerStep v s p = some (l, s')) : Receiving v (tr ++ [l]) s' := by
  obtain ⟨i, e, -, -, -, rfl, rfl⟩ | ⟨i, e, -, -, rfl, rfl⟩ | ⟨-, -, rfl, rfl⟩ |
    ⟨-, -, rfl, rfl⟩ | ⟨c, -, -, -, rfl, rfl⟩ | ⟨c, -, -, rfl, rfl⟩ := producerStep_cases h
  all_goals exact hi.frame rfl (fun _ => rfl) rfl rfl rfl (fun _ hm => ⟨rfl, hm⟩)

theorem mainStep_receiving (hi : Receiving v tr s) (h : mainStep s = some (l, s')) :
    Receiving v (tr ++ [l]) s' := by
  obtain ⟨hmain, -, rfl, rfl⟩ | ⟨c, hmain, -, -, rfl, rfl⟩ | ⟨c, hmain, -, rfl, rfl⟩ |
    ⟨-, -, rfl, rfl⟩ | ⟨-, -, -, rfl, rfl⟩ := mainStep_cases h
  · exact hi.frame rfl (fun _ => rfl) rfl rfl rfl
      (fun _ _ => ⟨rfl, by rw [hmain]; intro hm; cases hm⟩)
  · exact hi.frame rfl (fun _ => rfl) rfl rfl rfl
      (fun _ _ => ⟨rfl, by rw [hmain]; intro hm; cases hm⟩)
  · exact hi.frame rfl (fun _ => rfl) rfl rfl rfl
      (fun _ _ => ⟨rfl, by rw [hmain]; intro hm; cases hm⟩)
  · exact hi.frame rfl (fun _ => rfl) rfl rfl rfl (fun _ hm => absurd rfl hm)
  · exact hi.frame rfl (fun _ => rfl) rfl rfl rfl (fun _ hm => absurd rfl hm)

end Receiving

end ZioBenchmarks.WorkerPool.Sentinel
