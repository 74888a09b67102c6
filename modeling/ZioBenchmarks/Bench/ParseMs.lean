import ZioBenchmarks.Bench.Report
import ZioBenchmarks.Decimal.Binary64
import ZioBenchmarks.Regex.Matches

/-!
# How bench.py reads a duration

`parse_ms` takes the escape sequences out of the output of a run and searches it for a number and a
unit behind `Duration:`. The units are those of less than a minute: a line with minutes or hours has
no match and the run is dropped.
-/

set_option autoImplicit false

namespace ZioBenchmarks.Bench

open ZioBenchmarks.Decimal ZioBenchmarks.Regex ZioBenchmarks.Binary64

universe u

/-- `str.isalnum` of a character. Its table is part of Python; on ASCII it is letters and digits. -/
structure Unicode where
  isalnum : Char → Bool
  ascii : ∀ c, c.toNat < 128 → isalnum c = c.isAlphanum

/-- `\w`. -/
def Unicode.isWord (unicode : Unicode) (c : Char) : Bool := unicode.isalnum c || c == '_'

/-- `\s`: the characters for which `str.isspace` holds. -/
def isSpace (c : Char) : Bool :=
  let n := c.toNat
  decide (9 ≤ n ∧ n ≤ 13 ∨ 28 ≤ n ∧ n ≤ 32 ∨ n = 0x85 ∨ n = 0xa0 ∨ n = 0x1680 ∨
    0x2000 ≤ n ∧ n ≤ 0x200a ∨ n = 0x2028 ∨ n = 0x2029 ∨ n = 0x202f ∨ n = 0x205f ∨ n = 0x3000)

/-- `[0-9.]`. -/
def isNumeral (c : Char) : Bool := c.isDigit || c == '.'

/-- `UNIT_MS`. -/
def unitMs : List (List Char × ℚ) :=
  [("s".toList, 1000), ("ms".toList, 1), ("us".toList, 1 / 1000), ("µs".toList, 1 / 1000),
    ("ns".toList, 1 / 1000000)]

/-- `(µs|us|ns|ms|s)\b`. -/
def unitGroup (unicode : Unicode) : Pattern :=
  .seq (.group (oneOf [lit "µs".toList, lit "us".toList, lit "ns".toList, lit "ms".toList,
    lit "s".toList])) (.boundary unicode.isWord)

/-- `\s*(µs|us|ns|ms|s)\b`. -/
def unitPattern (unicode : Unicode) : Pattern := .seq (.many isSpace) (unitGroup unicode)

/-- `_DUR`: `Duration:\s*([0-9.]+)` and the unit. -/
def dur (unicode : Unicode) : Pattern :=
  .seq (lit "Duration:".toList) (.seq (.many isSpace) (.seq (.group (plus isNumeral))
    (unitPattern unicode)))

/-- `_ANSI`: `\x1b\[[0-9;]*m`. -/
def ansi : Pattern :=
  .seq (lit ['\x1b', '[']) (.seq (.many fun c => c.isDigit || c == ';') (lit ['m']))

/-- The arithmetic of the numbers: what `float` and a literal make of a decimal, and `*`. -/
structure Arithmetic (F : Type u) where
  float : ℚ → F
  mul : F → F → F

/-- Python's floats. -/
def binary64 : Arithmetic Number := ⟨round, Number.mul⟩

/-- Arithmetic without roundings. -/
def exact : Arithmetic ℚ := ⟨id, fun x y => x * y⟩

inductive Error where
  | valueError
  | keyError
  deriving DecidableEq, Repr

variable {F : Type u}

/-- `float(m.group(1))`. -/
def float (A : Arithmetic F) (number : List Char) : Except Error F :=
  match value number with
  | some q => .ok (A.float q)
  | none => .error .valueError

/-- `UNIT_MS[m.group(2)]`. -/
def unitFactor (A : Arithmetic F) (unit : List Char) : Except Error F :=
  match unitMs.lookup unit with
  | some q => .ok (A.float q)
  | none => .error .keyError

/-- `parse_ms`: `None` where nothing matches. -/
def parseMs (unicode : Unicode) (A : Arithmetic F) (text : List Char) : Except Error (Option F) :=
  match search (dur unicode) [] (erase ansi 0 [] text) with
  | some [number, unit] => do
      let x ← float A number
      let y ← unitFactor A unit
      return some (A.mul x y)
  | _ => .ok none

/-- A cell of `run_matrix`: the runs whose output has a duration are its samples. -/
def samples (unicode : Unicode) (A : Arithmetic F) : List (List Char) → Except Error (List F)
  | [] => .ok []
  | text :: texts => do
      let ms ← parseMs unicode A text
      let rest ← samples unicode A texts
      return ms.toList ++ rest

/-! ## The search, from left to right -/

variable {unicode : Unicode} {d : Nat} {report : Report} {b num tail : List Char}

theorem isNumeral_of_isSpace (c : Char) (h : isSpace c = true) : isNumeral c = false := by
  have hspace := of_decide_eq_true h
  have hzero : '0'.toNat = 48 := rfl
  have hnine : '9'.toNat = 57 := rfl
  rw [isNumeral, Bool.or_eq_false_iff]
  constructor
  · rw [Bool.eq_false_iff, ne_eq, Char.isDigit_iff_toNat]
    omega
  · rw [beq_eq_false_iff_ne]
    rintro rfl
    exact absurd h (by decide)

theorem isSpace_of_isNumeral (c : Char) (h : isNumeral c = true) : isSpace c = false := by
  rw [Bool.eq_false_iff]
  intro hspace
  rw [isNumeral_of_isSpace c hspace] at h
  exact absurd h (by decide)

/-- No unit starts with a character of `p`. -/
theorem failsOn_unitGroup {p : Char → Bool} (hp : "µunms".toList.all (fun c => !p c) = true) :
    FailsOn p (unitGroup unicode) := by
  have h : ∀ c ∈ "µunms".toList, p c = false := by
    intro c hc
    exact Bool.not_eq_true' _ ▸ List.all_eq_true.1 hp c hc
  apply FailsOn.seq
  apply FailsOn.group
  apply failsOn_oneOf
  intro r hr
  simp only [List.mem_cons, List.not_mem_nil, or_false] at hr
  rcases hr with rfl | rfl | rfl | rfl | rfl
  · exact failsOn_lit (h 'µ' (by decide))
  · exact failsOn_lit (h 'u' (by decide))
  · exact failsOn_lit (h 'n' (by decide))
  · exact failsOn_lit (h 'm' (by decide))
  · exact failsOn_lit (h 's' (by decide))

/-- Where there is no blank none is skipped. -/
theorem results_unitPattern_skip {xs : List Char} (h : ∀ c ∈ xs.head?, isSpace c = false) :
    results (unitPattern unicode) ⟨b, xs⟩ = results (unitGroup unicode) ⟨b, xs⟩ := by
  have hunit : FailsOn isSpace (unitGroup unicode) := failsOn_unitGroup (by decide)
  have hnone : ∀ c ∈ ([] : List Char), isSpace c = true := by simp
  exact results_many_seq hunit hnone h

/-- At the beginning of a line the number is passed, whatever follows it. -/
theorem results_dur (hne : num ≠ []) (hnum : ∀ c ∈ num, isNumeral c = true)
    (htail : ∀ c ∈ tail.head?, isNumeral c = false) :
    ∃ b, results (dur unicode) ⟨[], "Duration: ".toList ++ (num ++ tail)⟩ =
      (results (unitPattern unicode) ⟨b, tail⟩).map fun n => (n.1, num :: n.2) := by
  have hunit : FailsOn isNumeral (unitPattern unicode) :=
    FailsOn.many_seq isSpace_of_isNumeral (failsOn_unitGroup (by decide))
  have hnumber : FailsOn isSpace (.seq (.group (plus isNumeral)) (unitPattern unicode)) :=
    ((failsOn_char isNumeral_of_isSpace).seq _).group.seq _
  have hhead : ∀ c ∈ (num ++ tail).head?, isSpace c = false := by
    cases num with
    | nil => exact absurd rfl hne
    | cons c num =>
        rintro x hx
        obtain rfl : c = x := Option.some.inj hx
        exact isSpace_of_isNumeral c (hnum c List.mem_cons_self)
  have htext : "Duration: ".toList ++ (num ++ tail) =
      "Duration:".toList ++ ([' '] ++ (num ++ tail)) := rfl
  have hspace : ∀ c ∈ [' '], isSpace c = true := by
    intro c hc
    rw [List.mem_singleton] at hc
    subst hc
    decide
  refine ⟨num.reverse ++ ([' '].reverse ++ ("Duration:".toList.reverse ++ [])), ?_⟩
  rw [htext, dur, results_lit_seq, results_many_seq hnumber hspace hhead,
    results_group_plus_seq hunit hne hnum htail]

/-- A unit starts with a letter. -/
theorem head_unit {p : Nat} {unit : List Char} (hu : (p, unit) ∈ goUnits) :
    ∀ c ∈ (unit ++ tail).head?, isSpace c = false ∧ isNumeral c = false := by
  simp only [goUnits, List.mem_cons, Prod.mk.injEq, List.not_mem_nil, or_false] at hu
  rcases hu with ⟨-, rfl⟩ | ⟨-, rfl⟩ | ⟨-, rfl⟩ | ⟨-, rfl⟩
  all_goals
    rintro x hx
    cases Option.some.inj hx
    decide

/-- A unit and a blank behind it. -/
theorem results_unitPattern {p : Nat} {unit : List Char} (hu : (p, unit) ∈ goUnits) :
    ∃ e, results (unitPattern unicode) ⟨b, unit ++ ' ' :: tail⟩ = [(e, [unit])] := by
  have hword : unicode.isWord 's' = true := by
    rw [Unicode.isWord, unicode.ascii 's' (by decide)]
    decide
  have hblank : unicode.isWord ' ' = false := by
    rw [Unicode.isWord, unicode.ascii ' ' (by decide)]
    decide
  rw [results_unitPattern_skip fun c hc => (head_unit hu c hc).1]
  simp only [goUnits, List.mem_cons, Prod.mk.injEq, List.not_mem_nil, or_false] at hu
  rcases hu with ⟨-, rfl⟩ | ⟨-, rfl⟩ | ⟨-, rfl⟩ | ⟨-, rfl⟩
  all_goals simp [unitGroup, results, oneOf, lit, captured, hword, hblank]

/-- Neither hours, nor minutes with something behind them, are a unit. -/
theorem results_unitPattern_eq_nil {c : Char} {s : List Char}
    (hc : c = 'h' ∨ (c = 'm' ∧ ∃ x t, s = x :: t ∧ x.isDigit = true)) :
    results (unitPattern unicode) ⟨b, c :: s⟩ = [] := by
  have hhead : ∀ x ∈ (c :: s).head?, isSpace x = false := by
    rintro x hx
    cases Option.some.inj hx
    rcases hc with rfl | ⟨rfl, -⟩
    · decide
    · decide
  rw [results_unitPattern_skip hhead]
  rcases hc with rfl | ⟨rfl, x, t, rfl, hx⟩
  · simp [unitGroup, results, oneOf, lit]
  · have hs : x ≠ 's' := by
      rintro rfl
      exact absurd hx (by decide)
    simp [unitGroup, results, oneOf, lit, hs]

/-! ## A line is read -/

/-- A line has no escape sequence. -/
theorem erase_line (d : Nat) (report : Report) :
    erase ansi 0 [] (line d report) = line d report := by
  apply erase_lit_seq_eq_self
  have hrest := @notMem_line d '\x1b' (.inr rfl) report
  intro h
  rcases List.mem_cons.1 h with hfirst | hrest'
  · exact absurd hfirst (by decide)
  · exact hrest hrest'

theorem isNumeral_of_mem {p v : Nat} {c : Char} (h : c ∈ numeral p v) : isNumeral c = true := by
  rcases (numeral_chars p v).2 c h with hdigit | rfl
  · rw [isNumeral, hdigit, Bool.true_or]
  · decide

/-- Below a minute the search finds the number and the unit. -/
theorem search_line_of_lt (hd : d < minute) (report : Report) :
    ∃ p u, (p, u) ∈ goUnits ∧
      search (dur unicode) [] (erase ansi 0 [] (line d report)) = some [numeral p d, u] := by
  obtain ⟨p, u, hu, hline⟩ := durationString_of_lt hd
  have htail : ∀ c ∈ (u ++ ' ' :: report.details).head?, isNumeral c = false :=
    fun c hc => (head_unit hu c hc).2
  obtain ⟨b, hb⟩ := @results_dur unicode _ _ numeral_ne_nil (fun _ => isNumeral_of_mem) htail
  obtain ⟨e, he⟩ := @results_unitPattern unicode b report.details p u hu
  refine ⟨p, u, hu, ?_⟩
  rw [erase_line, line_eq, hline, List.append_assoc]
  rw [he] at hb
  exact search_of_results hb

/-- From a minute on it finds nothing, neither there nor further to the right. -/
theorem search_line_of_le (hd : minute ≤ d) (report : Report) :
    search (dur unicode) [] (erase ansi 0 [] (line d report)) = none := by
  obtain ⟨n, c, s, hline, hc⟩ := durationString_of_le hd
  have htail : ∀ x ∈ (c :: (s ++ ' ' :: report.details)).head?, isNumeral x = false := by
    rintro x hx
    cases Option.some.inj hx
    rcases hc with rfl | ⟨rfl, -⟩
    · decide
    · decide
  have hc' : c = 'h' ∨
      (c = 'm' ∧ ∃ x t, s ++ ' ' :: report.details = x :: t ∧ x.isDigit = true) := by
    rcases hc with rfl | ⟨rfl, x, t, rfl, hx⟩
    · exact .inl rfl
    · exact .inr ⟨rfl, x, t ++ ' ' :: report.details, rfl, hx⟩
  have hdigits : ∀ x ∈ Nat.toDigits 10 n, isNumeral x = true := by
    intro x hx
    rw [isNumeral, isDigit_toDigits hx, Bool.true_or]
  obtain ⟨b, hb⟩ := @results_dur unicode _ _ Nat.toDigits_ne_nil hdigits htail
  have hrest := @notMem_line d 'D' (.inl rfl) report
  have htext : line d report = 'D' :: ("uration: ".toList ++
      (durationString d ++ ' ' :: report.details)) := rfl
  have hfirst : results (dur unicode) ⟨[], line d report⟩ = [] := by
    rw [line_eq, hline, List.append_assoc, List.cons_append, hb, results_unitPattern_eq_nil hc',
      List.map_nil]
  rw [erase_line, htext, search_cons_of_results (htext ▸ hfirst)]
  exact search_lit_seq_eq_none hrest

theorem lookup_unitMs {p : Nat} {unit : List Char} (hu : (p, unit) ∈ goUnits) :
    p ≤ 9 ∧ unitMs.lookup unit = some (10 ^ p / 10 ^ 6) := by
  have hns : unitMs.lookup "ns".toList = some (1 / 1000000) := rfl
  have hus : unitMs.lookup "µs".toList = some (1 / 1000) := rfl
  have hms : unitMs.lookup "ms".toList = some 1 := rfl
  have hs : unitMs.lookup "s".toList = some 1000 := rfl
  simp only [goUnits, List.mem_cons, Prod.mk.injEq, List.not_mem_nil, or_false] at hu
  rcases hu with ⟨rfl, rfl⟩ | ⟨rfl, rfl⟩ | ⟨rfl, rfl⟩ | ⟨rfl, rfl⟩
  · rw [hns]
    norm_num
  · rw [hus]
    norm_num
  · rw [hms]
    norm_num
  · rw [hs]
    norm_num

/-- Below a minute `parse_ms` multiplies the number that was printed with the factor of its unit. -/
theorem parseMs_of_lt (A : Arithmetic F) (hd : d < minute) (report : Report) :
    ∃ p ≤ 9, parseMs unicode A (line d report) =
      .ok (some (A.mul (A.float (d / 10 ^ p)) (A.float (10 ^ p / 10 ^ 6)))) := by
  obtain ⟨p, u, hu, hsearch⟩ := @search_line_of_lt unicode d hd report
  obtain ⟨hp, hlookup⟩ := lookup_unitMs hu
  refine ⟨p, hp, ?_⟩
  simp only [parseMs, hsearch, float, unitFactor, value_numeral, hlookup]
  rfl

/-- From a minute on `parse_ms` returns `None`. -/
theorem parseMs_of_le (A : Arithmetic F) (hd : minute ≤ d) (report : Report) :
    parseMs unicode A (line d report) = .ok none := by
  simp only [parseMs, search_line_of_le hd report]

/-! ## What is read back -/

/-- `d` nanoseconds in milliseconds. -/
def milliseconds (d : Nat) : ℚ := d / 10 ^ 6

/-- The line of a run of `d` nanoseconds is read back: exactly, and in Python's floats up to their
roundings. -/
def ReadsBack (unicode : Unicode) (d : Nat) (report : Report) : Prop :=
  parseMs unicode exact (line d report) = .ok (some (milliseconds d)) ∧
    ∃ x, parseMs unicode binary64 (line d report) = .ok (some (.finite x)) ∧
      |x - milliseconds d| ≤ milliseconds d / 2 ^ 51

/-- The number that was printed times the factor of its unit. -/
theorem mul_factor (d p : Nat) : (d : ℚ) / 10 ^ p * (10 ^ p / 10 ^ 6) = milliseconds d := by
  rw [milliseconds]
  field_simp

theorem parseMs_exact (hd : d < minute) (report : Report) :
    parseMs unicode exact (line d report) = .ok (some (milliseconds d)) := by
  obtain ⟨p, -, hparse⟩ := @parseMs_of_lt _ unicode d exact hd report
  rw [hparse, ← mul_factor d p]
  rfl

/-- What is printed and the factors of the units are far from the ends of the range. -/
theorem moderate_of_le {p k : Nat} (hp : p ≤ 9) (hk : 1 ≤ k) (hk' : k ≤ 10 ^ 11) :
    Moderate ((k : ℚ) / 10 ^ p) := by
  have hone : (1 : ℚ) ≤ k := by exact_mod_cast hk
  have htop : (k : ℚ) ≤ 10 ^ 11 := by exact_mod_cast hk'
  have hpow : (1 : ℚ) ≤ 10 ^ p := one_le_pow₀ (by norm_num)
  have hpow' : (10 : ℚ) ^ p ≤ 10 ^ 9 := pow_le_pow_right₀ (by norm_num) hp
  constructor
  · calc (2 : ℚ) ^ (-500 : ℤ) ≤ 2 ^ (-30 : ℤ) := zpow_le_zpow_right₀ (by norm_num) (by norm_num)
      _ ≤ 1 / 10 ^ 9 := by norm_num
      _ ≤ k / 10 ^ p := div_le_div₀ (by positivity) hone (by positivity) hpow'
  · calc (k : ℚ) / 10 ^ p ≤ k := div_le_self (by positivity) hpow
      _ ≤ 10 ^ 11 := htop
      _ ≤ 2 ^ 37 := by norm_num
      _ ≤ 2 ^ 500 := pow_le_pow_right₀ (by norm_num) (by norm_num)

theorem parseMs_binary64 (hd : d < minute) (report : Report) :
    ∃ x, parseMs unicode binary64 (line d report) = .ok (some (.finite x)) ∧
      |x - milliseconds d| ≤ milliseconds d / 2 ^ 51 := by
  obtain ⟨p, hp, hparse⟩ := @parseMs_of_lt _ unicode d binary64 hd report
  have hfactor : ((10 ^ p : Nat) : ℚ) / 10 ^ 6 = 10 ^ p / 10 ^ 6 := by
    rw [Nat.cast_pow, Nat.cast_ofNat]
  have hpow : 10 ^ p ≤ 10 ^ 11 := Nat.pow_le_pow_right (by decide) (by omega)
  have hw := @moderate_of_le 6 (10 ^ p) (by decide) (Nat.one_le_pow p 10 (by decide)) hpow
  rw [hfactor] at hw
  have hmin : minute = 60000000000 := rfl
  rcases Nat.eq_zero_or_pos d with rfl | hpos
  · -- the product of zero and a number is zero
    obtain ⟨y, hy, -⟩ := hw.round
    have hzero : milliseconds 0 = 0 := by
      rw [milliseconds, Nat.cast_zero, zero_div]
    refine ⟨0, ?_, ?_⟩
    · rw [hparse]
      simp only [binary64, Nat.cast_zero, zero_div, hy, round_zero, Number.mul, zero_mul]
    · rw [hzero, sub_zero, zero_div, abs_zero]
  · have hv := @moderate_of_le p d hp hpos (by omega)
    obtain ⟨x, y, z, hx, hy, hz, herror⟩ := mul_round hv hw
    rw [mul_factor] at herror
    refine ⟨z, ?_, herror⟩
    rw [hparse]
    simp only [binary64, hx, hy, hz]

/-- The lines that are read back are those of less than a minute. -/
theorem reads_back_iff (unicode : Unicode) (d : Nat) (report : Report) :
    ReadsBack unicode d report ↔ d < minute := by
  constructor
  · rintro ⟨hexact, -⟩
    by_contra hd
    rw [parseMs_of_le exact (Nat.le_of_not_lt hd)] at hexact
    cases Except.ok.inj hexact
  · intro hd
    exact ⟨parseMs_exact hd report, parseMs_binary64 hd report⟩

/-- The table of a Python that knows no letters but those of ASCII. -/
def asciiTable : Unicode := ⟨Char.isAlphanum, fun _ _ => rfl⟩

/-- A run of 90.5 seconds is dropped. -/
theorem minutes_not_read_back :
    durationString 90500000000 = "1m30.5s".toList ∧
    parseMs asciiTable binary64 (line 90500000000 (.queuePingPong 1 100000)) = .ok none ∧
    ¬ ReadsBack asciiTable 90500000000 (.queuePingPong 1 100000) := by
  have hd : minute ≤ 90500000000 := by decide
  refine ⟨by decide, parseMs_of_le binary64 hd _, ?_⟩
  rintro ⟨hexact, -⟩
  rw [parseMs_of_le exact hd] at hexact
  cases Except.ok.inj hexact

/-- The samples of a cell are those of its runs that took less than a minute. -/
theorem samples_lines (runs : List (Nat × Report)) :
    samples unicode exact (runs.map fun r => line r.1 r.2) =
      .ok ((runs.filter fun r => r.1 < minute).map fun r => milliseconds r.1) := by
  induction runs with
  | nil => rfl
  | cons r runs ih =>
      rw [List.map_cons, samples, ih, List.filter_cons]
      by_cases hd : r.1 < minute
      · rw [parseMs_exact hd, if_pos (decide_eq_true hd)]
        rfl
      · rw [parseMs_of_le exact (Nat.le_of_not_lt hd), if_neg (by simpa using hd)]
        rfl

end ZioBenchmarks.Bench
