import ZioBenchmarks.Bench.ParseMs
import ZioBenchmarks.Decimal.Accuracy
import ZioBenchmarks.Decimal.Fixed
import ZioBenchmarks.Driver.Main
import ZioBenchmarks.Regex.Scan

/-!
# How bench.py reads the load driver

`main` of `tcp_driver.go` prints one line, or, if a connection failed, what went wrong. The line
has several numbers, and `parse_throughput` takes the first one with a unit of throughput behind it.
That is the rate: what is read back is the rate of the run up to the last place that is printed.
-/

set_option autoImplicit false

namespace ZioBenchmarks.Bench

open ZioBenchmarks.Decimal ZioBenchmarks.Regex ZioBenchmarks.Binary64
open ZioBenchmarks.Driver (Config Err Line Mode)

universe u

/-! ## What the driver prints -/

/-- `%.pf` of a float that is not negative. -/
def printFloat (p : Nat) : Number → List Char
  | .finite q => fixed p (roundHalfEven (q * 10 ^ p)).toNat
  | .infinity => "+Inf".toList
  | .nan => "NaN".toList

/-- `%.pf` of a float, given its sign and its size. -/
def printSigned (negative : Bool) (p : Nat) (x : Number) : List Char :=
  match negative, x with
  | true, .finite _ => '-' :: printFloat p x
  | true, .infinity => "-Inf".toList
  | _, _ => printFloat p x

/-- `Seconds()` of a duration of `d` nanoseconds. -/
def seconds (d : Nat) : Number :=
  .add (round (d / 10 ^ 9 : Nat)) (.div (round (d % 10 ^ 9 : Nat)) (round (10 ^ 9 : Nat)))

/-- `float64(total)/secs`, or `gb/secs`, without its sign. -/
def rate (line : Line) (d : Nat) : Number :=
  match line with
  | .echo total => .div (round total.natAbs) (seconds d)
  | .bytes n => .div (.div (round n.natAbs) (round (10 ^ 9 : Nat))) (seconds d)

/-- The unit of the rate. -/
def unitOf : Line → List Char
  | .echo _ => "msgs/s".toList
  | .bytes _ => "GB/s".toList

/-- The digits of the rate behind the point. -/
def places : Line → Nat
  | .echo _ => 0
  | .bytes _ => 2

/-- `total`, or the number of bytes. -/
def amount : Line → Int
  | .echo total => total
  | .bytes n => n

/-- `*mode`. With a mode that is none of the three every connection fails. -/
def modeName : Mode → List Char
  | .echo => "echo".toList
  | .send => "send".toList
  | .recv => "recv".toList
  | .other => []

/-- The line up to the rate. -/
def lineHead (cfg : Config) (d : Nat) : List (List Char) :=
  match cfg.line with
  | .echo total =>
      ["echo: ".toList, printFloat 3 (.mul (seconds d) (round 1000)) ++ " ms, ".toList,
        decimal total ++ " msgs over ".toList, decimal cfg.conns ++ " conns, size ".toList,
        decimal cfg.size ++ ", pipeline ".toList, decimal cfg.pipeline ++ ", ".toList]
  | .bytes _ =>
      [modeName cfg.mode ++ ": ".toList,
        printFloat 3 (.mul (seconds d) (round 1000)) ++ " ms, ".toList,
        decimal cfg.mb ++ " MB over ".toList, decimal cfg.conns ++ " conns, chunk ".toList,
        decimal cfg.size ++ ", ".toList]

/-- The line of a run of `d` nanoseconds. -/
def driverLine (cfg : Config) (d : Nat) : List Char :=
  (lineHead cfg d).flatten ++
    (printSigned (amount cfg.line < 0) (places cfg.line) (rate cfg.line d) ++
      (' ' :: unitOf cfg.line ++ ['\n']))

/-- What the driver writes: the line, or, if a connection failed, one line for each that could not
connect and a last one. -/
def output (cfg : Config) (results : Fin cfg.conns → Option Err) (d : Nat) : List Char :=
  if 0 < Driver.failed results then
    (List.replicate ((List.finRange cfg.conns).countP fun i => results i = some .connectFailed)
      "connect failed\n".toList).flatten ++
      (decimal (Driver.failed results) ++ "/".toList ++
        (decimal cfg.conns ++ " connections failed\n".toList))
  else driverLine cfg d

/-! ## What bench.py reads -/

/-- `\s*(msgs/s|GB/s)`. -/
def throughputUnit : Pattern :=
  .seq (.many isSpace) (.group (oneOf [lit "msgs/s".toList, lit "GB/s".toList]))

/-- `_THRU`: `([0-9.]+)` and the unit. -/
def thru : Pattern := grouped isNumeral throughputUnit

/-- `parse_throughput`: `None` where nothing matches. -/
def parseThroughput {F : Type u} (A : Arithmetic F) (text : List Char) : Except Error (Option F) :=
  match search thru [] (erase ansi 0 [] text) with
  | some (number :: _) => do
      let x ← float A number
      return some x
  | _ => .ok none

/-! ## The search, from left to right -/

variable {b xs ys : List Char} {p : Nat}

theorem failsOn_throughputUnit : FailsOn isNumeral throughputUnit := by
  apply FailsOn.many_seq isSpace_of_isNumeral
  apply FailsOn.group
  apply failsOn_oneOf
  intro r hr
  simp only [List.mem_cons, List.not_mem_nil, or_false] at hr
  rcases hr with rfl | rfl
  · exact failsOn_lit (c := 'm') (by decide)
  · exact failsOn_lit (c := 'G') (by decide)

/-- What stands behind a number that is not the rate. -/
def separators : List (List Char) :=
  [" ms, ".toList, " msgs over ".toList, " conns, size ".toList, ", pipeline ".toList,
    ", ".toList, " MB over ".toList, " conns, chunk ".toList, "/".toList,
    " connections failed\n".toList]

theorem results_separator {sep : List Char} (h : sep ∈ separators) (b ys : List Char) :
    results throughputUnit ⟨b, sep ++ ys⟩ = [] := by
  have hspace : isSpace ' ' = true := by decide
  simp only [separators, List.mem_cons, List.not_mem_nil, or_false] at h
  rcases h with rfl | rfl | rfl | rfl | rfl | rfl | rfl | rfl | rfl
  all_goals
    simp [throughputUnit, results, manyEnds, oneOf, lit, hspace,
      show isSpace 'm' = false by decide, show isSpace 'c' = false by decide,
      show isSpace 'M' = false by decide, show isSpace ',' = false by decide,
      show isSpace '/' = false by decide]

/-- No character of a numeral. -/
def isText (xs : List Char) : Bool := xs.all fun c => !isNumeral c

theorem isNumeral_of_isText (h : isText xs = true) : ∀ c ∈ xs, isNumeral c = false := by
  intro c hc
  simpa using List.all_eq_true.1 h c hc

theorem passes_isText (h : isText xs = true) : Passes thru xs :=
  passes_text (isNumeral_of_isText h)

theorem separator_text {sep : List Char} (h : sep ∈ separators) :
    sep ≠ [] ∧ isText sep = true := by
  simp only [separators, List.mem_cons, List.not_mem_nil, or_false] at h
  rcases h with rfl | rfl | rfl | rfl | rfl | rfl | rfl | rfl | rfl
  all_goals exact ⟨List.cons_ne_nil _ _, by decide⟩

/-- A number with a separator behind it is passed. -/
theorem passes_number {sep : List Char} (hxs : ∀ c ∈ xs, isNumeral c = true)
    (h : sep ∈ separators) : Passes thru (xs ++ sep) :=
  passes_run failsOn_throughputUnit hxs (separator_text h).1
    (isNumeral_of_isText (separator_text h).2) (results_separator h)

theorem isNumeral_toDigits {n : Nat} {c : Char} (h : c ∈ Nat.toDigits 10 n) :
    isNumeral c = true := by
  rw [isNumeral, isDigit_toDigits h, Bool.true_or]

theorem isNumeral_fixed {n : Nat} {c : Char} (h : c ∈ fixed p n) : isNumeral c = true := by
  rcases fixed_chars h with hdigit | rfl
  · rw [isNumeral, hdigit, Bool.true_or]
  · decide

theorem passes_decimal {sep : List Char} (n : Int) (h : sep ∈ separators) :
    Passes thru (decimal n ++ sep) := by
  have hdigits : Passes thru (Nat.toDigits 10 n.natAbs ++ sep) :=
    passes_number (fun _ => isNumeral_toDigits) h
  rw [decimal]
  split
  · have hminus : Passes thru ['-'] := passes_isText (by decide)
    exact hminus.append hdigits
  · exact hdigits

theorem passes_printFloat {sep : List Char} (x : Number) (h : sep ∈ separators) :
    Passes thru (printFloat p x ++ sep) := by
  have hsep : Passes thru sep := passes_isText (separator_text h).2
  cases x with
  | finite q => exact passes_number (fun _ => isNumeral_fixed) h
  | infinity =>
      have hinf : Passes thru "+Inf".toList := passes_isText (by decide)
      exact hinf.append hsep
  | nan =>
      have hnan : Passes thru "NaN".toList := passes_isText (by decide)
      exact hnan.append hsep

theorem passes_lineHead (cfg : Config) (d : Nat) : Passes thru (lineHead cfg d).flatten := by
  have hmode : isText (modeName cfg.mode ++ ": ".toList) = true := by
    cases cfg.mode <;> decide
  apply Passes.flatten
  unfold lineHead
  cases cfg.line with
  | echo total =>
      intro xs hxs
      simp only [List.mem_cons, List.not_mem_nil, or_false] at hxs
      rcases hxs with rfl | rfl | rfl | rfl | rfl | rfl
      · exact passes_isText (by decide)
      · exact passes_printFloat _ (by decide)
      all_goals exact passes_decimal _ (by decide)
  | bytes n =>
      intro xs hxs
      simp only [List.mem_cons, List.not_mem_nil, or_false] at hxs
      rcases hxs with rfl | rfl | rfl | rfl | rfl
      · exact passes_isText hmode
      · exact passes_printFloat _ (by decide)
      all_goals exact passes_decimal _ (by decide)

/-- The unit behind the rate is found. -/
theorem results_unitOf (line : Line) (b : List Char) :
    ∃ e ms, results throughputUnit ⟨b, ' ' :: unitOf line ++ ['\n']⟩ =
      (e, [unitOf line]) :: ms := by
  have hspace : isSpace ' ' = true := by decide
  cases line with
  | echo total =>
      simp [unitOf, throughputUnit, results, manyEnds, oneOf, lit, captured, hspace,
        show isSpace 'm' = false by decide]
  | bytes n =>
      simp [unitOf, throughputUnit, results, manyEnds, oneOf, lit, captured, hspace,
        show isSpace 'G' = false by decide]

theorem unitOf_text (line : Line) : isText (' ' :: unitOf line ++ ['\n']) = true := by
  cases line with
  | echo total => exact show isText " msgs/s\n".toList = true by decide
  | bytes n => exact show isText " GB/s\n".toList = true by decide

/-- The digits of the rate are found, without its sign. -/
theorem search_rate (negative : Bool) (line : Line) (x : Number) (b : List Char) :
    search thru b (printSigned negative p x ++ (' ' :: unitOf line ++ ['\n'])) =
      match x with
      | .finite q => some [fixed p (roundHalfEven (q * 10 ^ p)).toNat, unitOf line]
      | _ => none := by
  have hhead : ∀ c ∈ (' ' :: unitOf line ++ ['\n']).head?, isNumeral c = false := by
    intro c hc
    cases Option.some.inj hc
    decide
  have htext : ∀ xs : List Char, isText xs = true →
      search thru b (xs ++ (' ' :: unitOf line ++ ['\n'])) = none := by
    intro xs hxs
    apply search_eq_none
    intro c hc
    rcases List.mem_append.1 hc with hc | hc
    · exact isNumeral_of_isText hxs c hc
    · exact isNumeral_of_isText (unitOf_text line) c hc
  have hfound : ∀ b v, search thru b (fixed p v ++ (' ' :: unitOf line ++ ['\n'])) =
      some [fixed p v, unitOf line] := fun b v =>
    search_found failsOn_throughputUnit fixed_ne_nil (fun _ => isNumeral_fixed) hhead
      (results_unitOf line)
  cases x with
  | finite q =>
      cases negative with
      | false => exact hfound b _
      | true =>
          have hminus : Passes thru ['-'] := passes_isText (by decide)
          obtain ⟨b', hb'⟩ := hminus b
            (fixed p (roundHalfEven (q * 10 ^ p)).toNat ++ (' ' :: unitOf line ++ ['\n']))
          exact hb'.trans (hfound b' _)
  | infinity =>
      cases negative with
      | false => exact htext "+Inf".toList (by decide)
      | true => exact htext "-Inf".toList (by decide)
  | nan => cases negative <;> exact htext "NaN".toList (by decide)

/-! ## No escape sequences -/

theorem notEscape_printFloat (x : Number) : '\x1b' ∉ printFloat p x := by
  cases x with
  | finite q =>
      intro h
      rcases fixed_chars h with hdigit | hpoint
      · exact absurd hdigit (by decide)
      · exact absurd hpoint (by decide)
  | infinity => exact show '\x1b' ∉ "+Inf".toList by decide
  | nan => exact show '\x1b' ∉ "NaN".toList by decide

theorem notEscape_printSigned (negative : Bool) (x : Number) :
    '\x1b' ∉ printSigned negative p x := by
  have hx := @notEscape_printFloat p x
  cases negative with
  | false => exact hx
  | true =>
      cases x with
      | finite q =>
          intro h
          rcases List.mem_cons.1 h with h | h
          · exact absurd h (by decide)
          · exact hx h
      | infinity => exact show '\x1b' ∉ "-Inf".toList by decide
      | nan => exact hx

theorem notEscape_decimal (n : Int) : '\x1b' ∉ decimal n :=
  notMem_decimal (by decide) (by decide)

theorem notEscape_driverLine (cfg : Config) (d : Nat) : '\x1b' ∉ driverLine cfg d := by
  have happ : ∀ {xs sep : List Char}, '\x1b' ∉ xs → '\x1b' ∉ sep → '\x1b' ∉ xs ++ sep := by
    intro xs sep hxs hsep h
    rcases List.mem_append.1 h with h | h
    · exact hxs h
    · exact hsep h
  have hmode : '\x1b' ∉ modeName cfg.mode ++ ": ".toList := by cases cfg.mode <;> decide
  have hhead : ∀ xs ∈ lineHead cfg d, '\x1b' ∉ xs := by
    unfold lineHead
    intro xs hxs
    cases hline : cfg.line with
    | echo total =>
        simp only [hline, List.mem_cons, List.not_mem_nil, or_false] at hxs
        rcases hxs with rfl | rfl | rfl | rfl | rfl | rfl
        · decide
        · exact happ (notEscape_printFloat _) (by decide)
        all_goals exact happ (notEscape_decimal _) (by decide)
    | bytes n =>
        simp only [hline, List.mem_cons, List.not_mem_nil, or_false] at hxs
        rcases hxs with rfl | rfl | rfl | rfl | rfl
        · exact hmode
        · exact happ (notEscape_printFloat _) (by decide)
        all_goals exact happ (notEscape_decimal _) (by decide)
  refine happ ?_ (happ (notEscape_printSigned _ _) ?_)
  · intro h
    obtain ⟨xs, hxs, hmem⟩ := List.mem_flatten.1 h
    exact hhead xs hxs hmem
  · cases cfg.line with
    | echo total => exact show '\x1b' ∉ " msgs/s\n".toList by decide
    | bytes n => exact show '\x1b' ∉ " GB/s\n".toList by decide

/-! ## The rate, up to roundings -/

variable {d : Nat} {line : Line}

/-- Messages, or gigabytes, per second. -/
def exactRate (line : Line) (d : Nat) : ℚ :=
  match line with
  | .echo total => total.natAbs * 10 ^ 9 / d
  | .bytes n => n.natAbs / d

theorem inner_div {m n : Nat} (hm : m ≤ 2 ^ 200) (hn : 0 < n) (hn' : n ≤ 2 ^ 200) :
    Inner ((m : ℚ) / n) := by
  rcases Nat.eq_zero_or_pos m with rfl | hpos
  · exact .inl (by rw [Nat.cast_zero, zero_div])
  have hn₀ : (0 : ℚ) < n := by exact_mod_cast hn
  have hn₁ : (1 : ℚ) ≤ n := by exact_mod_cast hn
  have hn₂ : (n : ℚ) ≤ 2 ^ 200 := by exact_mod_cast hn'
  have hm₁ : (1 : ℚ) ≤ m := by exact_mod_cast hpos
  have hm₂ : (m : ℚ) ≤ 2 ^ 200 := by exact_mod_cast hm
  refine .inr ⟨?_, ?_⟩
  · calc (2 : ℚ) ^ (-400 : ℤ) ≤ 2 ^ (-200 : ℤ) := zpow_le_zpow_right₀ (by norm_num) (by norm_num)
      _ = 1 / 2 ^ 200 := by norm_num
      _ ≤ m / n := div_le_div₀ (by positivity) hm₁ hn₀ hn₂
  · calc (m : ℚ) / n ≤ m := div_le_self (by positivity) hn₁
      _ ≤ 2 ^ 200 := hm₂
      _ ≤ 2 ^ 400 := pow_le_pow_right₀ (by norm_num) (by norm_num)

theorem inner_nat {m : Nat} (hm : m ≤ 2 ^ 200) : Inner (m : ℚ) := by
  have h := inner_div hm Nat.one_pos (by norm_num)
  rwa [Nat.cast_one, div_one] at h

theorem near_nat {m : Nat} (hm : m ≤ 2 ^ 200) : ∃ x, round m = .finite x ∧ Near 1 x m :=
  near_round (Nat.cast_nonneg m) (inner_nat hm)

/-- A `time.Duration` fits into 63 bits. -/
theorem seconds_near (hd : d < 2 ^ 63) :
    ∃ s, seconds d = .finite s ∧ Near 4 s ((d : ℚ) / 10 ^ 9) := by
  have hsec : d / 10 ^ 9 ≤ 2 ^ 200 := by
    have h := Nat.div_le_self d (10 ^ 9)
    omega
  have hnsec : d % 10 ^ 9 ≤ 2 ^ 200 := by
    have h := Nat.mod_le d (10 ^ 9)
    omega
  obtain ⟨x, hx, hx'⟩ := near_nat hsec
  obtain ⟨y, hy, hy'⟩ := near_nat hnsec
  obtain ⟨z, hz, hz'⟩ := @near_nat (10 ^ 9) (by norm_num)
  obtain ⟨w, hw, hw'⟩ := hy'.div_round hz' (by norm_num) (by decide)
    (inner_div hnsec (by norm_num) (by norm_num))
  have hsum : ((d / 10 ^ 9 : Nat) : ℚ) + (d % 10 ^ 9 : Nat) / (10 ^ 9 : Nat) = d / 10 ^ 9 := by
    have hdiv := Nat.div_add_mod d (10 ^ 9)
    have hcast : ((d : Nat) : ℚ) = (10 ^ 9 : Nat) * (d / 10 ^ 9 : Nat) + (d % 10 ^ 9 : Nat) := by
      exact_mod_cast hdiv.symm
    rw [hcast, add_div, mul_div_right_comm]
    push_cast
    norm_num
  have hinner : Inner (((d / 10 ^ 9 : Nat) : ℚ) + (d % 10 ^ 9 : Nat) / (10 ^ 9 : Nat)) := by
    have h := @inner_div d (10 ^ 9) (by omega) (by norm_num) (by norm_num)
    rw [hsum]
    exact_mod_cast h
  obtain ⟨s, hs, hs'⟩ := (hx'.mono (by decide : 1 ≤ 3)).add_round hw' (by decide) hinner
  refine ⟨s, ?_, hsum ▸ hs'⟩
  rw [seconds, hx, hy, hz, hw]
  exact hs

theorem rate_near (hd : 0 < d) (hd' : d < 2 ^ 63) (hline : (amount line).natAbs ≤ 2 ^ 63) :
    ∃ x, rate line d = .finite x ∧ Near 8 x (exactRate line d) := by
  obtain ⟨s, hs, hs'⟩ := seconds_near hd'
  have hdpos : (0 : ℚ) < d := by exact_mod_cast hd
  have hspos : (0 : ℚ) < d / 10 ^ 9 := div_pos hdpos (by norm_num)
  cases line with
  | echo total =>
      obtain ⟨x, hx, hx'⟩ := @near_nat total.natAbs (hline.trans (by norm_num))
      have hexact : (total.natAbs : ℚ) / (d / 10 ^ 9) = total.natAbs * 10 ^ 9 / d := by
        field_simp
      have hinner : Inner ((total.natAbs : ℚ) / (d / 10 ^ 9)) := by
        have h := @inner_div (total.natAbs * 10 ^ 9) d
          ((Nat.mul_le_mul_right _ hline).trans (by norm_num)) hd (by omega)
        rw [hexact]
        exact_mod_cast h
      obtain ⟨z, hz, hz'⟩ := hx'.div_round hs' hspos (by decide) hinner
      refine ⟨z, ?_, ?_⟩
      · rw [rate, hx, hs]
        exact hz
      · rw [exactRate, ← hexact]
        exact hz'.mono (by decide)
  | bytes n =>
      obtain ⟨x, hx, hx'⟩ := @near_nat n.natAbs (hline.trans (by norm_num))
      obtain ⟨y, hy, hy'⟩ := @near_nat (10 ^ 9) (by norm_num)
      obtain ⟨g, hg, hg'⟩ := hx'.div_round hy' (by norm_num) (by decide)
        (inner_div (hline.trans (by norm_num)) (by norm_num) (by norm_num))
      have hexact : (n.natAbs : ℚ) / (10 ^ 9 : Nat) / (d / 10 ^ 9) = n.natAbs / d := by
        rw [Nat.cast_pow, Nat.cast_ofNat]
        field_simp
      have hinner : Inner ((n.natAbs : ℚ) / (10 ^ 9 : Nat) / (d / 10 ^ 9)) := by
        rw [hexact]
        exact inner_div (hline.trans (by norm_num)) hd (by omega)
      obtain ⟨z, hz, hz'⟩ := hg'.div_round hs' hspos (by decide) hinner
      refine ⟨z, ?_, ?_⟩
      · rw [rate, hx, hy, hg, hs]
        exact hz
      · rw [exactRate, ← hexact]
        exact hz'

/-- A run that took no time has no rate. -/
theorem rate_zero (line : Line) (hline : (amount line).natAbs ≤ 2 ^ 63) :
    ∀ q, rate line 0 ≠ .finite q := by
  obtain ⟨s, hs, hs'⟩ := seconds_near (show 0 < 2 ^ 63 by norm_num)
  have hzero : s = 0 := hs'.arg_eq_zero (by rw [Nat.cast_zero, zero_div])
  have hdiv : ∀ x q, Number.div (.finite x) (.finite s) ≠ .finite q := by
    intro x q
    rw [Number.div, if_pos hzero]
    split <;> simp
  cases line with
  | echo total =>
      obtain ⟨x, hx, -⟩ := @near_nat total.natAbs (hline.trans (by norm_num))
      intro q
      rw [rate, hx, hs]
      exact hdiv x q
  | bytes n =>
      obtain ⟨x, hx, hx'⟩ := @near_nat n.natAbs (hline.trans (by norm_num))
      obtain ⟨y, hy, hy'⟩ := @near_nat (10 ^ 9) (by norm_num)
      obtain ⟨g, hg, -⟩ := hx'.div_round hy' (by norm_num) (by decide)
        (inner_div (hline.trans (by norm_num)) (by norm_num) (by norm_num))
      intro q
      rw [rate, hx, hy, hg, hs]
      exact hdiv g q

/-- What is printed differs from the number by half of the last place. -/
theorem printed_near {x : ℚ} (hx : 0 ≤ x) (p : Nat) :
    |((roundHalfEven (x * 10 ^ p)).toNat / 10 ^ p : ℚ) - x| ≤ 1 / (2 * 10 ^ p) := by
  have hpow : (0 : ℚ) < 10 ^ p := by positivity
  have hround := abs_roundHalfEven_sub (x * 10 ^ p)
  have hnonneg : 0 ≤ roundHalfEven (x * 10 ^ p) := by
    have hfloor : 0 ≤ ⌊x * 10 ^ p⌋ := Int.floor_nonneg.2 (mul_nonneg hx hpow.le)
    rw [roundHalfEven]
    split
    · exact hfloor
    · omega
  have hcast : (((roundHalfEven (x * 10 ^ p)).toNat : Nat) : ℚ) = roundHalfEven (x * 10 ^ p) := by
    exact_mod_cast Int.toNat_of_nonneg hnonneg
  have hfactor : ((roundHalfEven (x * 10 ^ p)).toNat / 10 ^ p : ℚ) - x =
      (roundHalfEven (x * 10 ^ p) - x * 10 ^ p) / 10 ^ p := by
    rw [hcast]
    field_simp
  rw [hfactor, abs_div, abs_of_pos hpow, div_le_iff₀ hpow]
  calc |(roundHalfEven (x * 10 ^ p) : ℚ) - x * 10 ^ p| ≤ 1 / 2 := hround
    _ = 1 / (2 * 10 ^ p) * 10 ^ p := by field_simp

theorem natAbs_bmod_le (x : Int) {m : Nat} (hm : 0 < m) : (x.bmod m).natAbs ≤ (m + 1) / 2 := by
  have hlow := Int.le_bmod (x := x) hm
  have hhigh := Int.bmod_lt (x := x) hm
  omega

/-- The size of an `int64`. -/
theorem natAbs_int64_le (x : Int) : (Driver.int64 x).natAbs ≤ 2 ^ 63 := by
  have hle : (x.bmod (2 ^ 64)).natAbs ≤ (2 ^ 64 + 1) / 2 := natAbs_bmod_le x (by norm_num)
  rw [Driver.int64]
  exact hle.trans (by norm_num)

theorem amount_line (cfg : Config) : (amount cfg.line).natAbs ≤ 2 ^ 63 := by
  rw [Driver.Config.line]
  split
  · rw [amount]
    exact natAbs_int64_le _
  · rw [amount]
    exact natAbs_int64_le _

/-! ## The output is read back -/

theorem notEscape_output (cfg : Config) (results : Fin cfg.conns → Option Err) (d : Nat) :
    '\x1b' ∉ output cfg results d := by
  rw [output]
  split
  case isFalse => exact notEscape_driverLine cfg d
  case isTrue =>
    intro h
    simp only [List.mem_append] at h
    rcases h with h | (h | h) | h | h
    · obtain ⟨xs, hxs, hmem⟩ := List.mem_flatten.1 h
      rw [List.eq_of_mem_replicate hxs] at hmem
      exact absurd hmem (by decide)
    · exact notEscape_decimal _ h
    · exact absurd h (by decide)
    · exact notEscape_decimal _ h
    · exact absurd h (by decide)

/-- The messages of a failed run have no rate. -/
theorem search_failed (cfg : Config) (results : Fin cfg.conns → Option Err) (d : Nat)
    (hfailed : 0 < Driver.failed results) : search thru [] (output cfg results d) = none := by
  have hrefused : Passes thru (List.replicate
      ((List.finRange cfg.conns).countP fun i => results i = some .connectFailed)
      "connect failed\n".toList).flatten := by
    apply Passes.flatten
    intro xs hxs
    rw [List.eq_of_mem_replicate hxs]
    exact passes_isText (by decide)
  have hcount : Passes thru (decimal (Driver.failed results) ++ "/".toList) :=
    passes_decimal _ (by decide)
  have hconns : Passes thru (decimal cfg.conns ++ " connections failed\n".toList) :=
    passes_decimal _ (by decide)
  obtain ⟨b, hb⟩ := hrefused.append (hcount.append hconns) [] []
  rw [List.append_nil] at hb
  rw [output, if_pos hfailed, hb]
  rfl

/-- The line of a run has its rate, and nothing before that is taken for it. -/
theorem search_line (cfg : Config) (d : Nat) :
    search thru [] (driverLine cfg d) =
      match rate cfg.line d with
      | .finite q =>
          some [fixed (places cfg.line) (roundHalfEven (q * 10 ^ places cfg.line)).toNat,
            unitOf cfg.line]
      | _ => none := by
  obtain ⟨b, hb⟩ := passes_lineHead cfg d []
    (printSigned (amount cfg.line < 0) (places cfg.line) (rate cfg.line d) ++
      (' ' :: unitOf cfg.line ++ ['\n']))
  rw [driverLine, hb, search_rate]

variable {cfg : Config} {results : Fin cfg.conns → Option Err} {F : Type u}

/-- `bench.py` does not look at the exit status of the driver, and need not: a run has a sample
exactly if all of its connections did their share and it took some time, and then the sample is the
rate of the run, to half of the last place that is printed and up to the roundings of its floats. -/
theorem throughput_reads_back (A : Arithmetic F) (hd : d < 2 ^ 63) :
    (cfg.exit results = .exited 1 none ∨ d = 0 →
      parseThroughput A (output cfg results d) = .ok none) ∧
    (∀ line, cfg.exit results = .exited 0 (some line) → 0 < d →
      ∃ y : ℚ, parseThroughput A (output cfg results d) = .ok (some (A.float y)) ∧
        |y - exactRate line d| ≤ 1 / (2 * 10 ^ places line) + exactRate line d / 2 ^ 47) := by
  have herase : erase ansi 0 [] (output cfg results d) = output cfg results d :=
    erase_lit_seq_eq_self (notEscape_output cfg results d)
  have hamount := amount_line cfg
  rw [parseThroughput, herase]
  constructor
  · intro h
    by_cases hfailed : 0 < Driver.failed results
    · rw [search_failed cfg results d hfailed]
    · rcases h with h | rfl
      · simp [Driver.Config.exit, hfailed] at h
      · rw [output, if_neg hfailed, search_line]
        cases hrate : rate cfg.line 0 with
        | finite q => exact absurd hrate (rate_zero cfg.line hamount q)
        | infinity | nan => rfl
  · intro line hexit hpos
    have hfailed : ¬ 0 < Driver.failed results := by
      intro hfailed
      simp [Driver.Config.exit, hfailed] at hexit
    obtain rfl : cfg.line = line := by
      simpa [Driver.Config.exit, hfailed] using hexit
    obtain ⟨x, hx, hnear⟩ := rate_near hpos hd hamount
    obtain ⟨v, hv⟩ : ∃ v, v = (roundHalfEven (x * 10 ^ places cfg.line)).toNat := ⟨_, rfl⟩
    refine ⟨v / 10 ^ places cfg.line, ?_, ?_⟩
    · rw [output, if_neg hfailed, search_line, hx]
      simp only [float, ← hv, value_fixed]
      rfl
    · have hprinted := printed_near hnear.arg_nonneg (places cfg.line)
      have hrounded := hnear.abs_sub_le (by decide)
      rw [hv]
      exact (abs_sub_le _ x _).trans (add_le_add hprinted hrounded)

/-- One connection with 1000 messages. -/
def thousand : Config := ⟨.echo, 1, 1000, 1, 1, 0, by decide, by decide, by decide⟩

/-- In a second. -/
theorem throughput_reads_back_thousand :
    ∃ y : ℚ, parseThroughput exact (output thousand (fun _ => none) (10 ^ 9)) = .ok (some y) ∧
      |y - 1000| ≤ 1 / 2 + 1000 / 2 ^ 47 := by
  have hexit : thousand.exit (fun _ => none) = .exited 0 (some (.echo 1000)) := by
    have hline : thousand.line = .echo 1000 := by
      have h : Driver.int64 ((1000 : Nat) : Int) = 1000 := Driver.int64_eq (by norm_num)
      simpa [Driver.Config.line, thousand] using h
    simp [Driver.Config.exit, Driver.failed, hline]
  have hexact : exactRate (.echo 1000) (10 ^ 9) = 1000 := by norm_num [exactRate]
  have hd : 10 ^ 9 < 2 ^ 63 := by norm_num
  obtain ⟨y, hy, hnear⟩ := (throughput_reads_back exact hd).2 _ hexit (by norm_num)
  rw [hexact] at hnear
  exact ⟨y, hy, by simpa [places] using hnear⟩

end ZioBenchmarks.Bench
