import ZioBenchmarks.Arguments.Programs
import ZioBenchmarks.Bench.Matrix

/-!
# What the engines run with

`bench.py` gives the parameters of a column to every engine of a benchmark as `--key=value`, or
`-key=value` for Go. The numbers of a row are comparable only if all eleven programs behind it make
the same of them, and run in the mode of the table.
-/

set_option autoImplicit false

namespace ZioBenchmarks.Arguments

open ZioBenchmarks.Bench (Engine)

/-- An engine, whether its table is the multi-threaded one, and the program that it starts. -/
structure Row where
  engine : Engine
  mt : Bool
  main : Main

/-- The directories of the binaries. -/
structure Directories where
  B : String
  R : String
  CPP : String

/-- The engines of a benchmark. -/
def rows (dirs : Directories) (name : String) (stdio native tokio asio go photon : Main) :
    List Row :=
  [⟨⟨"zio-st-stdio", dirs.B ++ "/" ++ name, ["--zio"], [], "--"⟩, false, stdio⟩,
    ⟨⟨"zio-mt-stdio", dirs.B ++ "/" ++ name, ["--zio-mt"], [], "--"⟩, true, stdio⟩,
    ⟨⟨"zio-st-native", dirs.B ++ "/" ++ name ++ "_native", ["--zio"], [], "--"⟩, false, native⟩,
    ⟨⟨"zio-mt-native", dirs.B ++ "/" ++ name ++ "_native", ["--zio-mt"], [], "--"⟩, true, native⟩,
    ⟨⟨"tokio-st", dirs.R ++ "/" ++ name, ["--st"], [], "--"⟩, false, tokio⟩,
    ⟨⟨"tokio-mt", dirs.R ++ "/" ++ name, [], [], "--"⟩, true, tokio⟩,
    ⟨⟨"asio-st", dirs.CPP ++ "/" ++ name ++ "_asio", ["--st"], [], "--"⟩, false, asio⟩,
    ⟨⟨"asio-mt", dirs.CPP ++ "/" ++ name ++ "_asio", [], [], "--"⟩, true, asio⟩,
    ⟨⟨"go-st", dirs.B ++ "/" ++ name ++ "_go", [], [("GOMAXPROCS", "1")], "-"⟩, false, go⟩,
    ⟨⟨"go-mt", dirs.B ++ "/" ++ name ++ "_go", [], [], "-"⟩, true, go⟩,
    ⟨⟨"photon", dirs.CPP ++ "/" ++ name ++ "_photon", [], [], "--"⟩, false, photon⟩]

/-- `_SLEEP_ENGINES`, `_PING_PONG_ENGINES` and `_WORKER_POOL_ENGINES`. -/
def benchmarks (dirs : Directories) : List (Benchmark × List Row) :=
  [(sleep, rows dirs "sleep" (stdio sleep) (native sleep) (tokio sleep) (asio sleep (some 1))
      (go sleep parseInt) (photon sleep (some 2))),
    (queuePingPong, rows dirs "queue_ping_pong" (stdio queuePingPong) queuePingPongNative
      queuePingPongTokio (asio queuePingPong none) (go queuePingPong uint64)
      (photon queuePingPong none)),
    (workerPool, rows dirs "worker_pool" (stdio workerPool) (native workerPool) (tokio workerPool)
      (asio workerPool (some 1)) (go workerPool uint64) (photon workerPool (some 1)))]

/-- The values of a column, over the defaults. -/
def Benchmark.column (b : Benchmark) (params : List (String × Nat)) : Text → Int :=
  params.foldl (fun value p => Function.update value p.1.toList p.2) b.values

/-! ## One parameter -/

/-- A key that can stand between dashes and `=`. -/
def Plain (key : Text) : Prop := '=' ∉ key ∧ key ≠ [] ∧ key.head? ≠ some '-'

instance (key : Text) : Decidable (Plain key) := inferInstanceAs (Decidable (_ ∧ _ ∧ _))

/-- The argument that sets `key`. -/
def option (dash key : Text) (n : Nat) : Text := dash ++ key ++ '=' :: Nat.toDigits 10 n

variable {flags : List Flag} {keys : List Text} {key text dash : Text} {n : Nat} {arg : Text}
  {read : Text → Except Status Int} {readGo : Text → Option Int} {unknown : Option Status}
  {v : Parsed} {rest : List Text}

theorem keyOf_append (h : '=' ∉ key) : keyOf (key ++ '=' :: text) = key := by
  have hkey : ∀ c ∈ key, decide (c ≠ '=') = true := fun c hc =>
    decide_eq_true fun heq => h (heq ▸ hc)
  rw [keyOf, List.takeWhile_append_of_pos hkey]
  simp

theorem valueOf_append (h : '=' ∉ key) : valueOf (key ++ '=' :: text) = '=' :: text := by
  have hkey : ∀ c ∈ key, decide (c ≠ '=') = true := fun c hc =>
    decide_eq_true fun heq => h (heq ▸ hc)
  rw [valueOf, List.dropWhile_append_of_pos hkey]
  simp

/-- The first `=` splits an argument. -/
theorem keyOf_append_valueOf (arg : Text) : keyOf arg ++ valueOf arg = arg :=
  List.takeWhile_append_dropWhile

theorem valueOf_cons {c : Char} (h : valueOf arg = c :: text) : c = '=' := by
  have hne : arg.dropWhile (· ≠ '=') ≠ [] := by
    rw [show arg.dropWhile (· ≠ '=') = valueOf arg from rfl, h]
    exact List.cons_ne_nil c text
  have hhead := List.head_dropWhile_not (p := (· ≠ '=')) (l := arg) hne
  simp only [show arg.dropWhile (· ≠ '=') = c :: text from h, List.head_cons] at hhead
  simpa using hhead

/-- The only key that an argument can have is found. -/
theorem find_key {p : Text → Bool} (hmem : key ∈ keys) (hp : ∀ k ∈ keys, p k = true ↔ k = key) :
    keys.find? p = some key := by
  have hsome : (keys.find? p).isSome := List.find?_isSome.2 ⟨key, hmem, (hp key hmem).2 rfl⟩
  obtain ⟨k, hk⟩ := Option.isSome_iff_exists.1 hsome
  rw [hk, (hp k (List.mem_of_find?_eq_some hk)).1 (List.find?_some hk)]

theorem findKey_dashes (hmem : key ∈ keys) : findKey keys (dashes ++ key) = some key :=
  find_key hmem fun k _ => by simp

/-- An argument with a `=` is no flag. -/
theorem findFlag_option (hflags : ∀ f ∈ flags, '=' ∉ f.text) (harg : '=' ∈ arg) :
    findFlag flags arg = none := by
  refine List.find?_eq_none.2 fun f hf => ?_
  simp only [decide_eq_true_eq]
  rintro rfl
  exact hflags f hf harg

/-- `--key=` at the start of an argument is its key and its first `=`. -/
theorem isPrefixOf_iff (h : '=' ∉ key) :
    (dashes ++ key ++ ['=']).isPrefixOf arg = true ↔
      keyOf arg = dashes ++ key ∧ valueOf arg ≠ [] := by
  have hkey : '=' ∉ dashes ++ key := by
    simp only [List.mem_append, not_or]
    exact ⟨by decide, h⟩
  rw [List.isPrefixOf_iff_prefix]
  constructor
  · rintro ⟨t, rfl⟩
    rw [List.append_assoc, List.singleton_append, keyOf_append hkey, valueOf_append hkey]
    exact ⟨rfl, List.cons_ne_nil _ _⟩
  · rintro ⟨hk, hv⟩
    obtain ⟨c, t, hct⟩ := List.exists_cons_of_ne_nil hv
    obtain rfl := valueOf_cons hct
    exact ⟨t, by rw [← keyOf_append_valueOf arg, hk, hct]; simp⟩

theorem eq_mem_option : '=' ∈ option dash key n := by
  simp [option]

theorem dashes_plain (h : '=' ∉ key) : '=' ∉ dashes ++ key := by
  simp only [List.mem_append, not_or]
  exact ⟨by decide, h⟩

theorem readZig_numeral (hn : n < 2 ^ 64) : readZig (Nat.toDigits 10 n) = .ok (n : Int) := by
  rw [readZig, parseUnsigned_numeral hn]

theorem readRust_numeral (hn : n < 2 ^ 64) : readRust (Nat.toDigits 10 n) = .ok (n : Int) := by
  rw [readRust, fromStr_numeral hn]

theorem readC_numeral (hn : n < 2 ^ 64) : readC (Nat.toDigits 10 n) = .ok (n : Int) := by
  rw [readC, strtoull_numeral hn]

theorem uint64_numeral (hn : n < 2 ^ 64) : uint64 (Nat.toDigits 10 n) = some (n : Int) := by
  rw [uint64, parseUint_numeral hn]
  rfl

theorem readC_of_readRust {i : Int} (h : readRust text = .ok i) : readC text = .ok i := by
  rw [readRust] at h
  cases hn : fromStr text with
  | none =>
      rw [hn] at h
      cases h
  | some n =>
      rw [hn] at h
      rw [readC, strtoull_of_fromStr hn]
      exact h

/-- Both ways to look for a key find the same one, and the same text behind it. -/
theorem find_prefix (hkeys : ∀ k ∈ keys, Plain k) (hkey : findKey keys (keyOf arg) = some key)
    (hvalue : valueOf arg = '=' :: text) :
    keys.find? (fun k => (dashes ++ k ++ ['=']).isPrefixOf arg) = some key ∧
      arg.drop (dashes ++ key ++ ['=']).length = text := by
  have hsame : dashes ++ key = keyOf arg := by simpa using List.find?_some hkey
  constructor
  · refine find_key (List.mem_of_find?_eq_some hkey) fun k hk => ?_
    rw [isPrefixOf_iff (hkeys k hk).1, hvalue, ← hsame]
    constructor
    · rintro ⟨h, -⟩
      exact (List.append_cancel_left h).symm
    · rintro rfl
      exact ⟨rfl, List.cons_ne_nil _ _⟩
  · have harg : arg = (dashes ++ key ++ ['=']) ++ text := by
      rw [← keyOf_append_valueOf arg, hvalue, ← hsame]
      simp
    rw [harg, List.drop_left]

/-- Where the loop that knows all its arguments gets through, the loop that looks for prefixes gets
through with the same values. -/
theorem prefixArgs_of_rustArgs (hkeys : ∀ k ∈ keys, Plain k) {args : List Text} {w : Parsed}
    (h : rustArgs flags keys v args = .ok w) :
    prefixArgs flags keys readRust unknown v args = .ok w := by
  induction args generalizing v with
  | nil => exact h
  | cons arg rest ih =>
      simp only [rustArgs] at h
      simp only [prefixArgs]
      cases hflag : findFlag flags arg with
      | some f =>
          simp only [hflag] at h ⊢
          exact ih h
      | none =>
          simp only [hflag] at h ⊢
          cases hvalue : valueOf arg with
          | nil =>
              simp only [hvalue] at h
              cases h
          | cons c text =>
              obtain rfl := valueOf_cons hvalue
              simp only [hvalue] at h
              cases hkey : findKey keys (keyOf arg) with
              | none =>
                  simp only [hkey] at h
                  cases h
              | some key =>
                  obtain ⟨hfind, hdrop⟩ := find_prefix hkeys hkey hvalue
                  simp only [hkey] at h
                  simp only [hfind, hdrop]
                  cases hread : readRust text with
                  | error e =>
                      simp only [hread] at h
                      cases h
                  | ok n =>
                      simp only [hread] at h ⊢
                      exact ih h

/-- A loop that reads more numbers gets through where the other does. -/
theorem prefixArgs_mono {read' : Text → Except Status Int}
    (hread : ∀ {s i}, read s = .ok i → read' s = .ok i) {args : List Text} {w : Parsed}
    (h : prefixArgs flags keys read unknown v args = .ok w) :
    prefixArgs flags keys read' unknown v args = .ok w := by
  induction args generalizing v with
  | nil => exact h
  | cons arg rest ih =>
      simp only [prefixArgs] at h ⊢
      cases hflag : findFlag flags arg with
      | some f =>
          simp only [hflag] at h ⊢
          exact ih h
      | none =>
          simp only [hflag] at h ⊢
          cases hkey : keys.find? fun k => (dashes ++ k ++ ['=']).isPrefixOf arg with
          | none =>
              cases unknown with
              | some e =>
                  simp only [hkey] at h
                  cases h
              | none =>
                  simp only [hkey] at h ⊢
                  exact ih h
          | some key =>
              simp only [hkey] at h ⊢
              cases hnumber : read (arg.drop (dashes ++ key ++ ['=']).length) with
              | error e =>
                  simp only [hnumber] at h
                  cases h
              | ok n =>
                  simp only [hnumber] at h
                  simp only [hread hnumber]
                  exact ih h

section Steps

variable (hflags : ∀ f ∈ flags, '=' ∉ f.text) (hkeys : ∀ k ∈ keys, Plain k) (hmem : key ∈ keys)

include hkeys hmem

theorem goArgs_option (hread : readGo (Nat.toDigits 10 n) = some (n : Int)) :
    goArgs keys readGo v (option ['-'] key n :: rest) = goArgs keys readGo (v.set key n) rest := by
  obtain ⟨heq, hne, hdash⟩ := hkeys key hmem
  obtain ⟨c, k, rfl⟩ := List.exists_cons_of_ne_nil hne
  have hc : c ≠ '-' := fun h => hdash (by rw [h]; rfl)
  have hc' : c ≠ '=' := fun h => heq (h ▸ List.mem_cons_self)
  have hfind : keys.find? (fun j => j = c :: k) = some (c :: k) :=
    find_key hmem fun j _ => by simp
  have hkey : keyOf (c :: (k ++ '=' :: Nat.toDigits 10 n)) = c :: k := keyOf_append heq
  have hvalue : valueOf (c :: (k ++ '=' :: Nat.toDigits 10 n)) = '=' :: Nat.toDigits 10 n :=
    valueOf_append heq
  rw [goArgs]
  simp [option, dashes, hc, hc', hkey, hvalue, hfind, hread]

include hflags

theorem zigArgs_option (hn : n < 2 ^ 64) :
    zigArgs flags keys v (option dashes key n :: rest) =
      zigArgs flags keys (v.set key n) rest := by
  have hkey := dashes_plain (hkeys key hmem).1
  rw [zigArgs, findFlag_option hflags eq_mem_option]
  simp only [option, keyOf_append hkey, valueOf_append hkey, findKey_dashes hmem,
    readZig_numeral hn]

theorem rustArgs_option (hn : n < 2 ^ 64) :
    rustArgs flags keys v (option dashes key n :: rest) =
      rustArgs flags keys (v.set key n) rest := by
  have hkey := dashes_plain (hkeys key hmem).1
  rw [rustArgs, findFlag_option hflags eq_mem_option]
  simp only [option, keyOf_append hkey, valueOf_append hkey, findKey_dashes hmem,
    readRust_numeral hn]

theorem prefixArgs_option (hread : read (Nat.toDigits 10 n) = .ok (n : Int)) :
    prefixArgs flags keys read unknown v (option dashes key n :: rest) =
      prefixArgs flags keys read unknown (v.set key n) rest := by
  have hkey := dashes_plain (hkeys key hmem).1
  have hfind : keys.find? (fun k => (dashes ++ k ++ ['=']).isPrefixOf (option dashes key n)) =
      some key := by
    refine find_key hmem fun k hk => ?_
    rw [isPrefixOf_iff (hkeys k hk).1, option, keyOf_append hkey, valueOf_append hkey]
    constructor
    · rintro ⟨h, -⟩
      exact (List.append_cancel_left h).symm
    · rintro rfl
      exact ⟨rfl, List.cons_ne_nil _ _⟩
  have hdrop : (option dashes key n).drop (dashes ++ key ++ ['=']).length = Nat.toDigits 10 n := by
    rw [option, show dashes ++ key ++ '=' :: Nat.toDigits 10 n =
      (dashes ++ key ++ ['=']) ++ Nat.toDigits 10 n by simp, List.drop_left]
  simp only [prefixArgs, findFlag_option hflags eq_mem_option, hfind, hdrop, hread]

end Steps

/-! ## All parameters -/

/-- The arguments of a column. -/
def options (dash : Text) (params : List (String × Nat)) : List Text :=
  params.map fun p => option dash p.1.toList p.2

/-- A loop that handles each of the arguments handles all of them. -/
theorem loop_options {loop : Parsed → List Text → Except Status Parsed}
    {params : List (String × Nat)} (hnil : ∀ v, loop v [] = .ok v)
    (hstep : ∀ p ∈ params, ∀ v rest, loop v (option dash p.1.toList p.2 :: rest) =
      loop (v.set p.1.toList p.2) rest) (v : Parsed) :
    loop v (options dash params) = .ok { v with
      value := params.foldl (fun value p => Function.update value p.1.toList p.2) v.value } := by
  induction params generalizing v with
  | nil => exact hnil v
  | cons p params ih =>
      rw [options, List.map_cons, hstep p List.mem_cons_self]
      exact ih (fun q hq => hstep q (List.mem_cons_of_mem p hq)) _

/-- With these leading arguments `main` runs with every column that it is asked for, and in the mode
`mt` if it has a choice. -/
def Reads (b : Benchmark) (main : Main) (dash : Text) (args : List Text) (mt : Bool) : Prop :=
  ∀ params : List (String × Nat), (∀ p ∈ params, p.1.toList ∈ b.keys ∧ p.2 < 2 ^ 63) →
    b.valid (b.column params) = true →
    ∃ m, main (args ++ options dash params) = .ok ⟨b.adjust (b.column params), m⟩ ∧
      (m = none ∨ m = some mt)

section Mains

variable {b : Benchmark}

theorem stdio_eq {mt : Bool} {args : List Text}
    (hargs : zigArgs ioFlags b.keys (b.start false) args = .ok v) (hvalid : b.valid v.value = true)
    (hbackend : ioBackend args = some mt) : stdio b args = .ok ⟨b.adjust v.value, some mt⟩ := by
  simp only [stdio, hargs, hbackend, bind, Except.bind, Benchmark.check, hvalid, if_true]

theorem runNative_eq {value : Text → Int} {mt : Bool} (hvalid : b.valid value = true) :
    runNative b ⟨value, true, mt⟩ = .ok ⟨b.adjust value, some mt⟩ := by
  simp only [runNative, bind, Except.bind, Benchmark.check, hvalid, if_true]

variable (hkeys : ∀ k ∈ b.keys, Plain k)

/-- No option is one of the flags of `IoBackend`. -/
theorem ioBackend_options (args : List Text) (params : List (String × Nat)) :
    ioBackend (args ++ options dash params) = ioBackend args := by
  unfold ioBackend
  rw [List.foldl_append]
  generalize args.foldl _ none = backend
  induction params generalizing backend with
  | nil => rfl
  | cons p params ih =>
      have hne : ∀ f : Text, '=' ∉ f → option dash p.1.toList p.2 ≠ f := by
        rintro f hf rfl
        exact hf eq_mem_option
      rw [options, List.map_cons, List.foldl_cons, if_neg (hne _ (by decide)),
        if_neg (hne _ (by decide)), if_neg (hne _ (by decide))]
      exact ih backend

include hkeys

theorem stdio_reads :
    Reads b (stdio b) dashes ["--zio".toList] false ∧
      Reads b (stdio b) dashes ["--zio-mt".toList] true := by
  have hloop : ∀ params : List (String × Nat), (∀ p ∈ params, p.1.toList ∈ b.keys ∧ p.2 < 2 ^ 63) →
      zigArgs ioFlags b.keys (b.start false) (options dashes params) =
        .ok ⟨b.column params, false, false⟩ := by
    intro params hparams
    refine loop_options (fun _ => rfl) (fun p hp v rest => ?_) _
    exact zigArgs_option (by decide) hkeys (hparams p hp).1 (by have := (hparams p hp).2; omega)
  constructor
  · intro params hparams hvalid
    have hargs : zigArgs ioFlags b.keys (b.start false)
        (["--zio".toList] ++ options dashes params) = .ok ⟨b.column params, false, false⟩ :=
      hloop params hparams
    exact ⟨some false, stdio_eq hargs hvalid (ioBackend_options _ _), .inr rfl⟩
  · intro params hparams hvalid
    have hargs : zigArgs ioFlags b.keys (b.start false)
        (["--zio-mt".toList] ++ options dashes params) = .ok ⟨b.column params, false, false⟩ :=
      hloop params hparams
    exact ⟨some true, stdio_eq hargs hvalid (ioBackend_options _ _), .inr rfl⟩

theorem native_reads :
    Reads b (native b) dashes ["--zio".toList] false ∧
      Reads b (native b) dashes ["--zio-mt".toList] true := by
  have hloop : ∀ params : List (String × Nat), (∀ p ∈ params, p.1.toList ∈ b.keys ∧ p.2 < 2 ^ 63) →
      ∀ mt, zigArgs nativeFlags b.keys ⟨b.values, true, mt⟩ (options dashes params) =
        .ok ⟨b.column params, true, mt⟩ := by
    intro params hparams mt
    refine loop_options (fun _ => rfl) (fun p hp v rest => ?_) _
    exact zigArgs_option (by decide) hkeys (hparams p hp).1 (by have := (hparams p hp).2; omega)
  constructor
  · intro params hparams hvalid
    have hargs : zigArgs nativeFlags b.keys (b.start false)
        (["--zio".toList] ++ options dashes params) = .ok ⟨b.column params, true, false⟩ :=
      hloop params hparams false
    refine ⟨some false, ?_, .inr rfl⟩
    rw [native, hargs]
    exact runNative_eq hvalid
  · intro params hparams hvalid
    have hargs : zigArgs nativeFlags b.keys (b.start false)
        (["--zio-mt".toList] ++ options dashes params) = .ok ⟨b.column params, true, true⟩ :=
      hloop params hparams true
    refine ⟨some true, ?_, .inr rfl⟩
    rw [native, hargs]
    exact runNative_eq hvalid

theorem tokio_reads :
    Reads b (tokio b) dashes ["--st".toList] false ∧ Reads b (tokio b) dashes [] true := by
  have hloop : ∀ params : List (String × Nat), (∀ p ∈ params, p.1.toList ∈ b.keys ∧ p.2 < 2 ^ 63) →
      ∀ mt, rustArgs stFlags b.keys (b.start mt) (options dashes params) =
        .ok ⟨b.column params, false, mt⟩ := by
    intro params hparams mt
    refine loop_options (fun _ => rfl) (fun p hp v rest => ?_) _
    exact rustArgs_option (by decide) hkeys (hparams p hp).1 (by have := (hparams p hp).2; omega)
  constructor
  · intro params hparams _
    have hargs : rustArgs stFlags b.keys (b.start true) (["--st".toList] ++ options dashes params) =
        .ok ⟨b.column params, false, false⟩ := hloop params hparams false
    exact ⟨some false, by rw [tokio, hargs]; rfl, .inr rfl⟩
  · intro params hparams _
    exact ⟨some true, by rw [tokio, List.nil_append, hloop params hparams true]; rfl, .inr rfl⟩

/-- The loops that look for a prefix. -/
theorem prefixArgs_options (unknown : Option Status) (hflags : ∀ f ∈ flags, '=' ∉ f.text)
    (hread : ∀ n, n < 2 ^ 64 → read (Nat.toDigits 10 n) = .ok (n : Int))
    {params : List (String × Nat)} (hparams : ∀ p ∈ params, p.1.toList ∈ b.keys ∧ p.2 < 2 ^ 63)
    (backend mt : Bool) :
    prefixArgs flags b.keys read unknown ⟨b.values, backend, mt⟩ (options dashes params) =
      .ok ⟨b.column params, backend, mt⟩ := by
  refine loop_options (fun _ => rfl) (fun p hp v rest => ?_) _
  exact prefixArgs_option hflags hkeys (hparams p hp).1
    (hread _ (by have := (hparams p hp).2; omega))

theorem asio_reads (unknown : Option Status) :
    Reads b (asio b unknown) dashes ["--st".toList] false ∧
      Reads b (asio b unknown) dashes [] true := by
  have hflags : ∀ f ∈ stFlags, '=' ∉ f.text := by decide
  constructor
  · intro params hparams _
    have hargs : prefixArgs stFlags b.keys readC unknown (b.start true)
        (["--st".toList] ++ options dashes params) = .ok ⟨b.column params, false, false⟩ :=
      prefixArgs_options hkeys unknown hflags (fun _ => readC_numeral) hparams false false
    exact ⟨some false, by rw [asio, hargs]; rfl, .inr rfl⟩
  · intro params hparams _
    have hargs := prefixArgs_options hkeys unknown hflags (fun _ => readC_numeral) hparams false
      true
    exact ⟨some true, by rw [asio, List.nil_append, Benchmark.start, hargs]; rfl, .inr rfl⟩

theorem photon_reads (unknown : Option Status) (mt : Bool) :
    Reads b (photon b unknown) dashes [] mt := by
  intro params hparams _
  have hargs := prefixArgs_options hkeys unknown
    (show ∀ f ∈ ([] : List Flag), '=' ∉ f.text by decide) (fun _ => readC_numeral) hparams false
    false
  exact ⟨none, by rw [photon, List.nil_append, Benchmark.start, hargs]; rfl, .inl rfl⟩

theorem go_reads (hread : ∀ n, n < 2 ^ 63 → readGo (Nat.toDigits 10 n) = some (n : Int))
    (mt : Bool) : Reads b (go b readGo) ['-'] [] mt := by
  intro params hparams _
  have hargs : goArgs b.keys readGo (b.start false) (options ['-'] params) =
      .ok ⟨b.column params, false, false⟩ := by
    refine loop_options (fun _ => rfl) (fun p hp v rest => ?_) _
    exact goArgs_option hkeys (hparams p hp).1 (hread _ (hparams p hp).2)
  exact ⟨none, by rw [go, List.nil_append, hargs]; rfl, .inl rfl⟩

theorem asio_of_tokio {args : List Text} {settings : Settings}
    (h : tokio b args = .ok settings) (u : Status) : asio b (some u) args = .ok settings := by
  rw [tokio] at h
  cases hargs : rustArgs stFlags b.keys (b.start true) args with
  | error e =>
      rw [hargs] at h
      cases h
  | ok v =>
      rw [hargs] at h
      rw [asio, prefixArgs_mono readC_of_readRust (prefixArgs_of_rustArgs hkeys hargs)]
      exact h

omit hkeys in
theorem asio_of_tokio_lenient {args : List Text} {settings : Settings}
    (h : queuePingPongTokio args = .ok settings) : asio queuePingPong none args = .ok settings := by
  rw [queuePingPongTokio] at h
  cases hargs : prefixArgs stFlags queuePingPong.keys readRust none (queuePingPong.start true)
      args with
  | error e =>
      rw [hargs] at h
      cases h
  | ok v =>
      rw [hargs] at h
      rw [asio, prefixArgs_mono readC_of_readRust hargs]
      exact h

end Mains

/-! ### The ping-pong programs that pass over what they do not know -/

theorem queuePingPong_plain : ∀ k ∈ queuePingPong.keys, Plain k := by decide

theorem queuePingPongNative_reads :
    Reads queuePingPong queuePingPongNative dashes ["--zio".toList] false ∧
      Reads queuePingPong queuePingPongNative dashes ["--zio-mt".toList] true := by
  have hflags : ∀ f ∈ nativeFlags, '=' ∉ f.text := by decide
  constructor
  · intro params hparams hvalid
    have hargs : prefixArgs nativeFlags queuePingPong.keys readZig none (queuePingPong.start false)
        (["--zio".toList] ++ options dashes params) =
        .ok ⟨queuePingPong.column params, true, false⟩ :=
      prefixArgs_options queuePingPong_plain none hflags (fun _ => readZig_numeral) hparams true
        false
    refine ⟨some false, ?_, .inr rfl⟩
    rw [queuePingPongNative, hargs]
    exact runNative_eq hvalid
  · intro params hparams hvalid
    have hargs : prefixArgs nativeFlags queuePingPong.keys readZig none (queuePingPong.start false)
        (["--zio-mt".toList] ++ options dashes params) =
        .ok ⟨queuePingPong.column params, true, true⟩ :=
      prefixArgs_options queuePingPong_plain none hflags (fun _ => readZig_numeral) hparams true
        true
    refine ⟨some true, ?_, .inr rfl⟩
    rw [queuePingPongNative, hargs]
    exact runNative_eq hvalid

theorem queuePingPongTokio_reads :
    Reads queuePingPong queuePingPongTokio dashes ["--st".toList] false ∧
      Reads queuePingPong queuePingPongTokio dashes [] true := by
  have hflags : ∀ f ∈ stFlags, '=' ∉ f.text := by decide
  constructor
  · intro params hparams _
    have hargs : prefixArgs stFlags queuePingPong.keys readRust none (queuePingPong.start true)
        (["--st".toList] ++ options dashes params) =
        .ok ⟨queuePingPong.column params, false, false⟩ :=
      prefixArgs_options queuePingPong_plain none hflags (fun _ => readRust_numeral) hparams false
        false
    exact ⟨some false, by rw [queuePingPongTokio, hargs]; rfl, .inr rfl⟩
  · intro params hparams _
    have hargs := prefixArgs_options queuePingPong_plain none hflags (fun _ => readRust_numeral)
      hparams false true
    exact ⟨some true, by
      rw [queuePingPongTokio, List.nil_append, Benchmark.start, hargs]; rfl, .inr rfl⟩

/-! ## The engines -/

/-- The command of an engine, as its program sees it. -/
theorem command_toList (e : Engine) (params : List (String × Nat)) :
    (e.command params).map String.toList =
      e.args.map String.toList ++ options e.dash.toList params := by
  rw [Engine.command, List.map_append, List.map_map]
  congr 1
  refine List.map_congr_left fun p _ => ?_
  have hn : (toString p.2).toList = Nat.toDigits 10 p.2 := Nat.toList_repr
  simp only [Function.comp_apply, String.toList_append, hn, option]
  simp

theorem rows_read {b : Benchmark} {dirs : Directories} {name : String}
    {stdio native tokio asio go photon : Main} {row : Row}
    (hstdio : Reads b stdio dashes ["--zio".toList] false ∧
      Reads b stdio dashes ["--zio-mt".toList] true)
    (hnative : Reads b native dashes ["--zio".toList] false ∧
      Reads b native dashes ["--zio-mt".toList] true)
    (htokio : Reads b tokio dashes ["--st".toList] false ∧ Reads b tokio dashes [] true)
    (hasio : Reads b asio dashes ["--st".toList] false ∧ Reads b asio dashes [] true)
    (hgo : ∀ mt, Reads b go ['-'] [] mt) (hphoton : ∀ mt, Reads b photon dashes [] mt)
    (hrow : row ∈ rows dirs name stdio native tokio asio go photon) :
    Reads b row.main row.engine.dash.toList (row.engine.args.map String.toList) row.mt := by
  have hdashes : "--".toList = dashes := rfl
  have hdash : "-".toList = ['-'] := rfl
  simp only [rows, List.mem_cons, List.not_mem_nil, or_false] at hrow
  rcases hrow with rfl | rfl | rfl | rfl | rfl | rfl | rfl | rfl | rfl | rfl | rfl
  all_goals simp only [List.map_cons, List.map_nil, hdashes, hdash]
  · exact hstdio.1
  · exact hstdio.2
  · exact hnative.1
  · exact hnative.2
  · exact htokio.1
  · exact htokio.2
  · exact hasio.1
  · exact hasio.2
  · exact hgo false
  · exact hgo true
  · exact hphoton false

/-- All programs of a benchmark make the same of a column. Whatever values `bench.py` gives to the
keys of a benchmark, below `2 ^ 63` and with producers and consumers, the program behind each of the
eleven engines reads the command of the engine, with its own loop and its own numbers, as exactly
these values over the defaults, the last one of a key, and if its flags choose between one thread
and many, they choose what the table of the engine says. -/
theorem command_read {dirs : Directories} {b : Benchmark} {rs : List Row} {row : Row}
    (hb : (b, rs) ∈ benchmarks dirs) (hrow : row ∈ rs) {params : List (String × Nat)}
    (hparams : ∀ p ∈ params, p.1.toList ∈ b.keys ∧ p.2 < 2 ^ 63)
    (hvalid : b.valid (b.column params) = true) :
    ∃ mt, row.main ((row.engine.command params).map String.toList) =
      .ok ⟨b.adjust (b.column params), mt⟩ ∧ (mt = none ∨ mt = some row.mt) := by
  rw [command_toList]
  refine (show Reads b row.main _ _ row.mt from ?_) params hparams hvalid
  have huint : ∀ n, n < 2 ^ 63 → uint64 (Nat.toDigits 10 n) = some (n : Int) := fun n hn =>
    uint64_numeral (by omega)
  simp only [benchmarks, List.mem_cons, Prod.mk.injEq, List.not_mem_nil, or_false] at hb
  rcases hb with ⟨rfl, rfl⟩ | ⟨rfl, rfl⟩ | ⟨rfl, rfl⟩
  · have hkeys : ∀ k ∈ sleep.keys, Plain k := by decide
    exact rows_read (stdio_reads hkeys) (native_reads hkeys) (tokio_reads hkeys)
      (asio_reads hkeys _) (go_reads hkeys fun _ => parseInt_numeral) (photon_reads hkeys _) hrow
  · have hkeys := queuePingPong_plain
    exact rows_read (stdio_reads hkeys) queuePingPongNative_reads queuePingPongTokio_reads
      (asio_reads hkeys _) (go_reads hkeys huint) (photon_reads hkeys _) hrow
  · have hkeys : ∀ k ∈ workerPool.keys, Plain k := by decide
    exact rows_read (stdio_reads hkeys) (native_reads hkeys) (tokio_reads hkeys)
      (asio_reads hkeys _) (go_reads hkeys huint) (photon_reads hkeys _) hrow

/-- The first engine of `sleep`. -/
def zioSt : Row :=
  ⟨⟨"zio-st-stdio", "zig-out/bin" ++ "/" ++ "sleep", ["--zio"], [], "--"⟩, false, stdio sleep⟩

/-- The column `sleep (10ms)`. -/
def tenMs : List (String × Nat) := [("tasks", 10000), ("sleep-ms", 10)]

theorem command_read_zioSt :
    ∃ mt, zioSt.main ((zioSt.engine.command tenMs).map String.toList) =
      .ok ⟨sleep.column tenMs, mt⟩ ∧ (mt = none ∨ mt = some zioSt.mt) :=
  @command_read ⟨"zig-out/bin", "rust/target/release", "cpp"⟩ sleep _ zioSt (.head _) (.head _)
    tenMs (by decide) rfl

/-- The asio programs follow the tokio ones. A command line that a tokio program gets through, with
whatever arguments, configures the asio program of the same benchmark in the same way, although the
latter compares prefixes, reads numbers without checking them, and in `queue_ping_pong` both pass
over what they do not know. -/
theorem asio_follows_tokio (args : List Text) (settings : Settings) :
    (tokio sleep args = .ok settings → asio sleep (some 1) args = .ok settings) ∧
    (queuePingPongTokio args = .ok settings → asio queuePingPong none args = .ok settings) ∧
    (tokio workerPool args = .ok settings → asio workerPool (some 1) args = .ok settings) :=
  ⟨fun h => asio_of_tokio (by decide) h 1, asio_of_tokio_lenient,
    fun h => asio_of_tokio (by decide) h 1⟩

/-- A plus sign. -/
theorem asio_follows_tokio_plus :
    ∃ settings, asio sleep (some 1) ["--st".toList, "--tasks=+7".toList] = .ok settings :=
  ⟨_, (asio_follows_tokio _ _).1 rfl⟩

end ZioBenchmarks.Arguments
