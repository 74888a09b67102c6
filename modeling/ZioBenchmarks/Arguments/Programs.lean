import Mathlib.Logic.Function.Basic
import ZioBenchmarks.Arguments.Numbers

/-!
# The command lines of the benchmark programs

Each of the benchmarks `sleep`, `queue_ping_pong` and `worker_pool` is a program in six versions,
and each version has its own loop over its arguments: on the `std.Io` and the native runtime in Zig,
on tokio, on asio, in Go with the `flag` package, and on photon. A program that does not get through
its arguments ends with a status.
-/

set_option autoImplicit false

namespace ZioBenchmarks.Arguments

abbrev Status := Nat

def dashes : Text := ['-', '-']

/-- The variables that the loops set. -/
structure Parsed where
  value : Text → Int
  haveBackend : Bool
  mt : Bool

def Parsed.set (v : Parsed) (key : Text) (n : Int) : Parsed :=
  { v with value := Function.update v.value key n }

/-- An argument that takes no value. -/
structure Flag where
  text : Text
  effect : Parsed → Parsed

def findFlag (flags : List Flag) (arg : Text) : Option Flag := flags.find? fun f => f.text = arg

/-- `key == "--tasks"`, and so on. -/
def findKey (keys : List Text) (key : Text) : Option Text :=
  keys.find? fun k => dashes ++ k = key

/-- What stands before the first `=`. -/
def keyOf (arg : Text) : Text := arg.takeWhile (· ≠ '=')

/-- The first `=` and what follows, or nothing. -/
def valueOf (arg : Text) : Text := arg.dropWhile (· ≠ '=')

/-! ## The numbers of each language -/

/-- `try std.fmt.parseUnsigned(u64, s, 10)`. -/
def readZig (s : Text) : Except Status Int :=
  match parseUnsigned s with
  | some n => .ok n
  | none => .error 1

/-- `s.parse().expect("invalid number")`. -/
def readRust (s : Text) : Except Status Int :=
  match fromStr s with
  | some n => .ok n
  | none => .error 101

def readC (s : Text) : Except Status Int := .ok (strtoull s)

/-- A `u64` flag of Go. -/
def uint64 (s : Text) : Option Int := (parseUint s).map Int.ofNat

/-! ## The loops -/

section Loops

variable (flags : List Flag) (keys : List Text)

/-- The loop of the Zig programs: `--key=value`, or `--key` and the value as the next argument. -/
def zigArgs : Parsed → List Text → Except Status Parsed
  | v, [] => .ok v
  | v, arg :: rest =>
      match findFlag flags arg with
      | some f => zigArgs (f.effect v) rest
      | none =>
          match findKey keys (keyOf arg) with
          | none => .error 1
          | some key =>
              match valueOf arg with
              | _ :: text =>
                  match readZig text with
                  | .ok n => zigArgs (v.set key n) rest
                  | .error e => .error e
              | [] =>
                  match rest with
                  | [] => .error 2
                  | text :: rest =>
                      match readZig text with
                      | .ok n => zigArgs (v.set key n) rest
                      | .error e => .error e

/-- The loop of the Rust programs that know all their arguments: `arg.split_once('=')`. -/
def rustArgs : Parsed → List Text → Except Status Parsed
  | v, [] => .ok v
  | v, arg :: rest =>
      match findFlag flags arg with
      | some f => rustArgs (f.effect v) rest
      | none =>
          match valueOf arg with
          | [] => .error 1
          | _ :: text =>
              match findKey keys (keyOf arg) with
              | none => .error 1
              | some key =>
                  match readRust text with
                  | .ok n => rustArgs (v.set key n) rest
                  | .error e => .error e

/-- The loops that look for `--key=` at the start of an argument. `unknown` is the status for an
argument with none of the keys; without it such an argument is passed over. -/
def prefixArgs (read : Text → Except Status Int) (unknown : Option Status) :
    Parsed → List Text → Except Status Parsed
  | v, [] => .ok v
  | v, arg :: rest =>
      match findFlag flags arg with
      | some f => prefixArgs read unknown (f.effect v) rest
      | none =>
          match keys.find? fun k => (dashes ++ k ++ ['=']).isPrefixOf arg with
          | some key =>
              match read (arg.drop (dashes ++ key ++ ['=']).length) with
              | .ok n => prefixArgs read unknown (v.set key n) rest
              | .error e => .error e
          | none =>
              match unknown with
              | some e => .error e
              | none => prefixArgs read unknown v rest

/-- `flag.Parse()`: one or two dashes, a value behind `=` or as the next argument, and an end at the
first argument that is no flag or behind `--`. -/
def goArgs (read : Text → Option Int) : Parsed → List Text → Except Status Parsed
  | v, [] => .ok v
  | v, arg :: rest =>
      if arg.length < 2 ∨ arg.head? ≠ some '-' ∨ arg = dashes then .ok v
      else
        let name := if arg[1]? = some '-' then arg.drop 2 else arg.drop 1
        if name.head? = some '-' ∨ name.head? = some '=' then .error 2
        else
          match keys.find? fun k => k = keyOf name with
          | none =>
              if keyOf name = "help".toList ∨ keyOf name = "h".toList then .error 0 else .error 2
          | some key =>
              match valueOf name with
              | _ :: text =>
                  match read text with
                  | some n => goArgs read (v.set key n) rest
                  | none => .error 2
              | [] =>
                  match rest with
                  | [] => .error 2
                  | text :: rest =>
                      match read text with
                      | some n => goArgs read (v.set key n) rest
                      | none => .error 2

end Loops

/-! ## The programs -/

/-- What a program runs with. `mt` is the choice of its flags between one thread and many, if it has
any. -/
structure Settings where
  value : Text → Int
  mt : Option Bool

/-- The arguments behind the name of the program. -/
abbrev Main := List Text → Except Status Settings

/-- `IoBackend.init` looks for the last of its flags. -/
def ioBackend (args : List Text) : Option Bool :=
  args.foldl (fun b arg =>
    if arg = "--zio".toList then some false
    else if arg = "--zio-mt".toList then some true
    else if arg = "--threaded".toList then some true
    else b) none

/-- The flags that the loop of a `std.Io` program leaves to `IoBackend`. -/
def ioFlags : List Flag :=
  [⟨"--zio".toList, id⟩, ⟨"--zio-mt".toList, id⟩, ⟨"--threaded".toList, id⟩]

def nativeFlags : List Flag :=
  [⟨"--zio".toList, fun v => { v with haveBackend := true }⟩,
    ⟨"--zio-mt".toList, fun v => { v with haveBackend := true, mt := true }⟩]

/-- `st = true`. -/
def stFlags : List Flag := [⟨"--st".toList, fun v => { v with mt := false }⟩]

/-- A benchmark: the keys of its arguments, its defaults, what a program makes of the values, and
the values that `worker_pool` in Zig asks for. -/
structure Benchmark where
  keys : List Text
  defaults : List (Text × Int)
  adjust : (Text → Int) → Text → Int
  valid : (Text → Int) → Bool

variable (b : Benchmark)

def Benchmark.values : Text → Int := fun key => (b.defaults.lookup key).getD 0

def Benchmark.start (mt : Bool) : Parsed := ⟨b.values, false, mt⟩

/-- `if (num_producers == 0 or num_consumers == 0)`: exit with status 2. -/
def Benchmark.check (value : Text → Int) : Except Status Unit :=
  if b.valid value then .ok () else .error 2

/-- `main` on `std.Io`. -/
def stdio : Main := fun args => do
  let v ← zigArgs ioFlags b.keys (b.start false) args
  b.check v.value
  match ioBackend args with
  | some mt => .ok ⟨b.adjust v.value, some mt⟩
  | none => .error 1

/-- `main` on the native runtime, behind its loop. -/
def runNative (v : Parsed) : Except Status Settings := do
  if v.haveBackend then
    b.check v.value
    .ok ⟨b.adjust v.value, some v.mt⟩
  else .error 1

def native : Main := fun args => zigArgs nativeFlags b.keys (b.start false) args >>= runNative b

def tokio : Main := fun args => do
  let v ← rustArgs stFlags b.keys (b.start true) args
  .ok ⟨b.adjust v.value, some v.mt⟩

def asio (unknown : Option Status) : Main := fun args => do
  let v ← prefixArgs stFlags b.keys readC unknown (b.start true) args
  .ok ⟨b.adjust v.value, some v.mt⟩

def photon (unknown : Option Status) : Main := fun args => do
  let v ← prefixArgs [] b.keys readC unknown (b.start false) args
  .ok ⟨b.adjust v.value, none⟩

def go (read : Text → Option Int) : Main := fun args => do
  let v ← goArgs b.keys read (b.start false) args
  .ok ⟨b.adjust v.value, none⟩

/-! ### `sleep` -/

def sleep : Benchmark where
  keys := ["tasks".toList, "sleep-ms".toList]
  defaults := [("tasks".toList, 10000), ("sleep-ms".toList, 1)]
  adjust := id
  valid _ := true

/-! ### `queue_ping_pong`

The native and the tokio version pass over arguments that they do not know, as asio and photon
do. -/

def queuePingPong : Benchmark where
  keys := ["pairs".toList]
  defaults := [("pairs".toList, 1)]
  adjust value := if value "pairs".toList = 0 then Function.update value "pairs".toList 1 else value
  valid _ := true

def queuePingPongNative : Main := fun args =>
  prefixArgs nativeFlags queuePingPong.keys readZig none (queuePingPong.start false) args >>=
    runNative queuePingPong

def queuePingPongTokio : Main := fun args => do
  let v ← prefixArgs stFlags queuePingPong.keys readRust none (queuePingPong.start true) args
  .ok ⟨queuePingPong.adjust v.value, some v.mt⟩

/-! ### `worker_pool` -/

def workerPool : Benchmark where
  keys := ["num-items".toList, "num-producers".toList, "num-consumers".toList, "work".toList]
  defaults := [("num-items".toList, 100000), ("num-producers".toList, 1),
    ("num-consumers".toList, 1000), ("work".toList, 64)]
  adjust := id
  valid value := value "num-producers".toList ≠ 0 ∧ value "num-consumers".toList ≠ 0

end ZioBenchmarks.Arguments
