import ZioBenchmarks.Decimal.Numeral

/-!
# What the Go counterparts print

Each of them ends with one line: the duration of its run as `%v` prints a `time.Duration`, and in
parentheses what it has done.
-/

set_option autoImplicit false

namespace ZioBenchmarks.Bench

open ZioBenchmarks.Decimal

/-- A minute, in nanoseconds. -/
def minute : Nat := 60 * 10 ^ 9

/-- `%v` of a `time.Duration` of `d` nanoseconds: below a second one number, in the largest unit in
which it is at least one; from a second on hours, minutes and seconds without the leading zeros. -/
def durationString (d : Nat) : List Char :=
  if d = 0 then "0s".toList
  else if d < 10 ^ 3 then numeral 0 d ++ "ns".toList
  else if d < 10 ^ 6 then numeral 3 d ++ "µs".toList
  else if d < 10 ^ 9 then numeral 6 d ++ "ms".toList
  else
    let seconds := numeral 9 (d % minute) ++ "s".toList
    let minutes := d / minute
    if minutes = 0 then seconds
    else if minutes < 60 then Nat.toDigits 10 minutes ++ 'm' :: seconds
    else Nat.toDigits 10 (minutes / 60) ++ 'h' :: (Nat.toDigits 10 (minutes % 60) ++ 'm' :: seconds)

/-- `%d`. -/
def decimal (n : Int) : List Char :=
  if n < 0 then '-' :: Nat.toDigits 10 n.natAbs else Nat.toDigits 10 n.natAbs

/-- `%x`. -/
def hex (n : UInt64) : List Char := Nat.toDigits 16 n.toNat

/-- `(%d items, %d producers, %d consumers, work=%d, %d msgs/s, checksum=%x)`. -/
def workerPool (numItems numProducers numConsumers workIters : UInt64) (rate : Int)
    (checksum : UInt64) : List Char :=
  ["(".toList, decimal numItems.toNat, " items, ".toList, decimal numProducers.toNat,
    " producers, ".toList, decimal numConsumers.toNat, " consumers, work=".toList,
    decimal workIters.toNat, ", ".toList, decimal rate, " msgs/s, checksum=".toList,
    hex checksum, ")\n".toList].flatten

/-- `(%d pairs, %d msgs each)`. -/
def queuePingPong (pairs perPair : UInt64) : List Char :=
  ["(".toList, decimal pairs.toNat, " pairs, ".toList, decimal perPair.toNat,
    " msgs each)\n".toList].flatten

/-- `(%d iters, %d chunks, checksum=%x)`. -/
def cpuParallel (totalIters numChunks : Nat) (checksum : UInt64) : List Char :=
  ["(".toList, decimal totalIters, " iters, ".toList, decimal numChunks,
    " chunks, checksum=".toList, hex checksum, ")\n".toList].flatten

/-- `(%d tasks, sleep %dms)`. -/
def sleep (numTasks sleepMs : Int) : List Char :=
  ["(".toList, decimal numTasks, " tasks, sleep ".toList, decimal sleepMs, "ms)\n".toList].flatten

/-- What a line says behind the duration. -/
inductive Report where
  | workerPool (numItems numProducers numConsumers workIters : UInt64) (rate : Int)
      (checksum : UInt64)
  | queuePingPong (pairs perPair : UInt64)
  | cpuParallel (totalIters numChunks : Nat) (checksum : UInt64)
  | sleep (numTasks sleepMs : Int)

def Report.details : Report → List Char
  | .workerPool numItems numProducers numConsumers workIters rate checksum =>
      Bench.workerPool numItems numProducers numConsumers workIters rate checksum
  | .queuePingPong pairs perPair => Bench.queuePingPong pairs perPair
  | .cpuParallel totalIters numChunks checksum => Bench.cpuParallel totalIters numChunks checksum
  | .sleep numTasks sleepMs => Bench.sleep numTasks sleepMs

/-- `Duration: %v (...)`. -/
def line (d : Nat) (report : Report) : List Char :=
  "Duration: ".toList ++ (durationString d ++ ' ' :: report.details)

/-! ## The shape of a line -/

variable {d n p b : Nat} {c : Char}

theorem line_eq (d : Nat) (report : Report) :
    line d report = "Duration: ".toList ++ (durationString d ++ ' ' :: report.details) := rfl

/-- The units of a number below a minute, each with the place of the point. -/
def goUnits : List (Nat × List Char) :=
  [(0, "ns".toList), (3, "µs".toList), (6, "ms".toList), (9, "s".toList)]

/-- Below a minute a duration is one number and one unit. -/
theorem durationString_of_lt (hd : d < minute) :
    ∃ p u, (p, u) ∈ goUnits ∧ durationString d = numeral p d ++ u := by
  rw [durationString]
  by_cases hzero : d = 0
  · subst hzero
    exact ⟨9, "s".toList, by decide, by decide⟩
  by_cases hns : d < 10 ^ 3
  · exact ⟨0, "ns".toList, by decide, by rw [if_neg hzero, if_pos hns]⟩
  by_cases hus : d < 10 ^ 6
  · exact ⟨3, "µs".toList, by decide, by rw [if_neg hzero, if_neg hns, if_pos hus]⟩
  by_cases hms : d < 10 ^ 9
  · exact ⟨6, "ms".toList, by decide, by rw [if_neg hzero, if_neg hns, if_neg hus, if_pos hms]⟩
  refine ⟨9, "s".toList, by decide, ?_⟩
  rw [if_neg hzero, if_neg hns, if_neg hus, if_neg hms, Nat.div_eq_of_lt hd, Nat.mod_eq_of_lt hd]
  rfl

/-- From a minute on the first number is followed by `h`, or by `m` and another number. -/
theorem durationString_of_le (hd : minute ≤ d) :
    ∃ n c s, durationString d = Nat.toDigits 10 n ++ c :: s ∧
      (c = 'h' ∨ (c = 'm' ∧ ∃ x t, s = x :: t ∧ x.isDigit = true)) := by
  have hmin : minute = 60000000000 := rfl
  have hminutes : d / minute ≠ 0 := by
    rw [Nat.div_ne_zero_iff]
    exact ⟨by decide, hd⟩
  rw [durationString, if_neg (by omega), if_neg (by omega), if_neg (by omega), if_neg (by omega)]
  simp only [if_neg hminutes]
  split
  · -- minutes and seconds
    obtain ⟨⟨x, t, ht, hx⟩, -⟩ := numeral_chars 9 (d % minute)
    refine ⟨d / minute, 'm', _, rfl, .inr ⟨rfl, x, t ++ "s".toList, ?_, hx⟩⟩
    rw [ht, List.cons_append]
  · exact ⟨d / minute / 60, 'h', _, rfl, .inl rfl⟩

/-- A character that is no digit. -/
theorem notMem_toDigits (hb : 1 < b) (hb' : b ≤ 16) (hc : ∀ k < 16, c ≠ Nat.digitChar k) :
    c ∉ Nat.toDigits b n := by
  intro h
  obtain ⟨k, hk, rfl⟩ := exists_digitChar hb h
  exact hc k (hk.trans_le hb') rfl

theorem notMem_numeral (hc : c.isDigit = false) (hpoint : c ≠ '.') : c ∉ numeral p n := by
  intro h
  rcases (numeral_chars p n).2 c h with hdigit | hdot
  · rw [hc] at hdigit
    exact absurd hdigit (by decide)
  · exact hpoint hdot

theorem notMem_decimal {n : Int} (hc : ∀ k < 16, c ≠ Nat.digitChar k) (hminus : c ≠ '-') :
    c ∉ decimal n := by
  have hdigits : c ∉ Nat.toDigits 10 n.natAbs := notMem_toDigits (by decide) (by decide) hc
  rw [decimal]
  split
  · rw [List.mem_cons, not_or]
    exact ⟨hminus, hdigits⟩
  · exact hdigits

theorem notMem_durationString (hc : ∀ k < 16, c ≠ Nat.digitChar k) (hdigit : c.isDigit = false)
    (hother : c ∉ ".nµmsh".toList) : c ∉ durationString d := by
  have hnumeral : ∀ p v, c ∉ numeral p v := by
    intro p v
    apply notMem_numeral hdigit
    rintro rfl
    exact hother (by decide)
  have hdigits : ∀ n, c ∉ Nat.toDigits 10 n := fun n => notMem_toDigits (by decide) (by decide) hc
  have hzero : c ≠ '0' := hc 0 (by decide)
  simp only [String.reduceToList, List.mem_cons, List.not_mem_nil, or_false, not_or] at hother
  obtain ⟨-, hn, hmu, hm, hs, hh⟩ := hother
  rw [durationString]
  split
  · simp [hzero, hs]
  split
  · simp [hnumeral, hn, hs]
  split
  · simp [hnumeral, hmu, hs]
  split
  · simp [hnumeral, hm, hs]
  dsimp only
  split
  · simp [hnumeral, hs]
  split
  · simp [hnumeral, hdigits, hm, hs]
  · simp [hnumeral, hdigits, hm, hs, hh]

/-- Behind its first character a line has no `D`, and it has no escape character. -/
theorem notMem_line (hc : c = 'D' ∨ c = '\x1b') (report : Report) :
    c ∉ "uration: ".toList ++ (durationString d ++ ' ' :: report.details) := by
  have hdigits : ∀ k < 16, c ≠ Nat.digitChar k := by
    rcases hc with rfl | rfl
    · decide
    · decide
  have hduration : c ∉ durationString d := by
    rcases hc with rfl | rfl
    · exact notMem_durationString hdigits (by decide) (by decide)
    · exact notMem_durationString hdigits (by decide) (by decide)
  have hdecimal : ∀ n, c ∉ decimal n := by
    intro n
    apply notMem_decimal hdigits
    rcases hc with rfl | rfl
    · decide
    · decide
  have hhex : ∀ n, c ∉ hex n := fun n => notMem_toDigits (by decide) (by decide) hdigits
  have hdetails : c ∉ report.details := by
    rcases hc with rfl | rfl
    all_goals
      cases report
      all_goals
        simp only [Report.details, workerPool, queuePingPong, cpuParallel, sleep,
          List.flatten_cons, List.flatten_nil, List.mem_append, hdecimal, hhex]
        decide
  rw [List.mem_append, List.mem_append, List.mem_cons, not_or, not_or, not_or]
  rcases hc with rfl | rfl
  · exact ⟨by decide, hduration, by decide, hdetails⟩
  · exact ⟨by decide, hduration, by decide, hdetails⟩

end ZioBenchmarks.Bench
