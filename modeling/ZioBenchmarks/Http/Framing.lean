import Mathlib.Data.List.GetD
import ZioBenchmarks.Search.Occurrences

/-!
# HTTP framing

The `http` handlers of the four TCP servers. Three of them keep a buffer of `buf_size` bytes of
which `buf[0..end]` was read and not answered; they write a response for every `"\r\n\r\n"` they
find there, shift the bytes behind it to the front, and read more. `Runtime` holds what differs
between the three: how they search, how they shift, and which outcomes of a read make them return.
The fourth uses the buffer of a `std.Io.Reader`.
-/

set_option autoImplicit false

namespace ZioBenchmarks.Http

open ZioBenchmarks.Search

/-- `buf_size`, `bufSize`, `BUF_SIZE`. -/
def bufSize : Nat := 64 * 1024

/-- `"\r\n\r\n"`. -/
def crlf : List UInt8 := [13, 10, 13, 10]

theorem crlf_ne_nil : crlf ≠ [] := by decide

/-- How many request terminators a stream has. -/
def requests (xs : List UInt8) : Nat := count crlf crlf_ne_nil xs

/-- What a stream has behind its last request terminator. -/
def unfinished (xs : List UInt8) : List UInt8 := rest crlf crlf_ne_nil xs

/-! ## Shifting -/

/-- A move of `buf[consumed..end]` to the front: all bytes are read before the first is written. -/
def memmove (buf : List UInt8) (consumed last : Nat) : List UInt8 :=
  (buf.take last).drop consumed ++ buf.drop (last - consumed)

/-- `std.mem.copyForwards(u8, buf[0 .. n], buf[consumed..])`: one byte after the other, from the
left. -/
def copyForwards (buf : List UInt8) (consumed : Nat) : Nat → List UInt8
  | 0 => buf
  | n + 1 =>
      (copyForwards buf consumed n).set n ((copyForwards buf consumed n).getD (consumed + n) 0)

theorem copyForwards_length (buf : List UInt8) (consumed n : Nat) :
    (copyForwards buf consumed n).length = buf.length := by
  induction n with
  | zero => rfl
  | succ n ih => rw [copyForwards, List.length_set, ih]

/-- The source of a byte is ahead of all destinations before it, so it still has its old value. -/
theorem copyForwards_getD {buf : List UInt8} {consumed : Nat} (hpos : 0 < consumed) (n : Nat)
    (hn : consumed + n ≤ buf.length) (j : Nat) :
    (copyForwards buf consumed n).getD j 0 =
      if j < n then buf.getD (consumed + j) 0 else buf.getD j 0 := by
  induction n generalizing j with
  | zero => rfl
  | succ n ih =>
      have hlen := copyForwards_length buf consumed n
      have hsrc := ih (by omega) (consumed + n)
      rw [if_neg (by omega)] at hsrc
      rw [copyForwards, hsrc]
      by_cases hj : j = n
      · subst hj
        rw [if_pos (Nat.lt_succ_self j), List.getD_eq_getElem?_getD,
          List.getElem?_set_self (by omega)]
        rfl
      · rw [List.getD_eq_getElem?_getD, List.getElem?_set_ne (Ne.symm hj),
          ← List.getD_eq_getElem?_getD, ih (by omega)]
        by_cases hlt : j < n
        · rw [if_pos hlt, if_pos (by omega)]
        · rw [if_neg hlt, if_neg (by omega)]

theorem memmove_length {buf : List UInt8} {consumed last : Nat} (hc : consumed ≤ last)
    (hl : last ≤ buf.length) : (memmove buf consumed last).length = buf.length := by
  simp only [memmove, List.length_append, List.length_drop, List.length_take]
  omega

/-- What is in front after a move. -/
theorem memmove_take {buf : List UInt8} {consumed last : Nat} (hl : last ≤ buf.length) :
    (memmove buf consumed last).take (last - consumed) = (buf.take last).drop consumed := by
  have hlen : ((buf.take last).drop consumed).length = last - consumed := by
    simp only [List.length_drop, List.length_take]
    omega
  rw [memmove, ← hlen, List.take_left]

/-- Copying forwards is a move, since the destination is in front of the source. -/
theorem copyForwards_eq_memmove {buf : List UInt8} {consumed last : Nat} (hpos : 0 < consumed)
    (hc : consumed ≤ last) (hl : last ≤ buf.length) :
    copyForwards buf consumed (last - consumed) = memmove buf consumed last := by
  apply List.ext_getElem
  · rw [copyForwards_length, memmove_length hc hl]
  · intro j hj hj'
    rw [copyForwards_length] at hj
    have h := @copyForwards_getD buf consumed hpos (last - consumed) (by omega) j
    rw [List.getD_eq_getElem _ _ (by rwa [copyForwards_length])] at h
    rw [h]
    simp only [memmove]
    by_cases hlt : j < last - consumed
    · rw [if_pos hlt, List.getElem_append_left (by
        simp only [List.length_drop, List.length_take]
        omega), List.getElem_drop, List.getElem_take, List.getD_eq_getElem _ _ (by omega)]
    · rw [if_neg hlt, List.getElem_append_right (by
        simp only [List.length_drop, List.length_take]
        omega), List.getElem_drop, List.getD_eq_getElem _ _ hj]
      congr 1
      simp only [List.length_drop, List.length_take]
      omega

/-! ## The handlers -/

/-- How a read ends: with bytes, at the end of the stream, or with an error. -/
inductive ReadOutcome where
  | data (bytes : List UInt8)
  | eof
  | failed
  deriving DecidableEq, Repr

namespace ReadOutcome

/-- The bytes a read put into the buffer. -/
def bytes : ReadOutcome → List UInt8
  | data bs => bs
  | eof | failed => []

/-- The number the read returns. -/
def n (o : ReadOutcome) : Nat := o.bytes.length

end ReadOutcome

/-- What the three hand-written loops do differently, with the behaviour they have in common. -/
structure Runtime where
  index : List UInt8 → Option Nat
  shift : List UInt8 → Nat → Nat → List UInt8
  returns : ReadOutcome → Bool
  index_eq : ∀ xs, index xs = indexOf crlf xs
  shift_eq : ∀ buf consumed last, 0 < consumed → consumed ≤ last → last ≤ buf.length →
    shift buf consumed last = memmove buf consumed last

/-- `tcp_server_native.zig`: `std.mem.indexOf`, `copyForwards`, `catch return` and
`if (n == 0) return`. -/
def tcpServerNative : Runtime where
  index := indexOf crlf
  shift buf consumed last := copyForwards buf consumed (last - consumed)
  returns o := o = .failed || o.n = 0
  index_eq _ := rfl
  shift_eq _ _ _ := copyForwards_eq_memmove

/-- `go/tcp_server/main.go`: `bytes.Index`, `copy`, and `if err != nil`, where the end of the stream
is the error `io.EOF`. -/
def tcpServerGo : Runtime where
  index := indexOf crlf
  shift := memmove
  returns o := o = .eof || o = .failed
  index_eq _ := rfl
  shift_eq _ _ _ _ _ _ := rfl

/-- `tcp_server.rs`: `windows(4).position`, `copy_within`, and `Ok(0) | Err(_) => return`. -/
def tcpServerTokio : Runtime where
  index xs := (windows 4 xs).findIdx? (· == crlf)
  shift := memmove
  returns
    | .failed => true
    | o => o.n = 0
  index_eq xs := findIdx?_windows crlf_ne_nil xs
  shift_eq _ _ _ _ _ _ := rfl

/-- The three hand-written loops. -/
def runtimes : List Runtime := [tcpServerNative, tcpServerGo, tcpServerTokio]

/-- The peer and the connection: the bytes it sends, how many of them are there at each read (at
least one, except at the end), whether the stream ends with an error, and which writes succeed. -/
structure Conn where
  stream : List UInt8
  arrives : Nat → Nat
  reset : Bool
  writes : Nat → Bool

/-- A read into `room` bytes. An empty slice is filled with no bytes at once. -/
def Conn.read (c : Conn) (taken reads room : Nat) : ReadOutcome :=
  if room = 0 then .data []
  else if c.stream.length ≤ taken then if c.reset then .failed else .eof
  else .data ((c.stream.drop taken).take (min room (c.arrives reads + 1)))

/-- A handler is in its outer loop, or has returned after some responses. -/
inductive Status (σ : Type) where
  | running (s : σ)
  | returned (responses : Nat)
  deriving DecidableEq, Repr

namespace Status

variable {σ τ : Type}

/-- The state while running. -/
def map (f : σ → τ) : Status σ → Status τ
  | running s => running (f s)
  | returned n => returned n

/-- Continue while running. -/
def bind (x : Status σ) (f : σ → Status τ) : Status τ :=
  match x with
  | running s => f s
  | returned n => returned n

theorem bind_eq_running {x : Status σ} {f : σ → Status τ} {b : τ} :
    x.bind f = running b ↔ ∃ a, x = running a ∧ f a = running b := by
  cases x <;> simp [bind]

theorem map_bind {υ : Type} (x : Status σ) (f : σ → Status τ) (g : τ → υ) :
    (x.bind f).map g = x.bind fun s => (f s).map g := by
  cases x <;> rfl

theorem bind_map {υ : Type} (x : Status σ) (f : σ → τ) (g : τ → Status υ) :
    (x.map f).bind g = x.bind fun s => g (f s) := by
  cases x <;> rfl

end Status

/-- `k` rounds of an outer loop. -/
def rounds {σ : Type} (round : σ → Status σ) (s : σ) : Nat → Status σ
  | 0 => .running s
  | k + 1 => (rounds round s k).bind round

/-- An invariant of the rounds of a loop. -/
theorem rounds_invariant {σ : Type} {round : σ → Status σ} {s b : σ} {I : σ → Prop} (hinit : I s)
    (hround : ∀ a b, I a → round a = .running b → I b) {k : Nat}
    (h : rounds round s k = .running b) : I b := by
  induction k generalizing b with
  | zero =>
      cases h
      exact hinit
  | succ k ih =>
      obtain ⟨a, ha, hb⟩ := Status.bind_eq_running.1 h
      exact hround a b (ih ha) hb

/-- The locals of a hand-written loop, with the responses written, the bytes taken from the
connection, and the reads made. -/
structure Loop where
  buf : List UInt8
  last : Nat
  responses : Nat
  taken : Nat
  reads : Nat

/-- The inner loop. -/
def drain (rt : Runtime) (c : Conn) (s : Loop) : Status Loop :=
  match _ : rt.index (s.buf.take s.last) with
  | none => .running s
  | some i =>
      if c.writes s.responses then
        drain rt c { s with
          buf := rt.shift s.buf (i + 4) s.last
          last := s.last - (i + 4)
          responses := s.responses + 1 }
      else .returned s.responses
termination_by s.last
decreasing_by
  have hindex := ‹rt.index (s.buf.take s.last) = some i›
  rw [rt.index_eq] at hindex
  have hle := indexOf_add_length_le hindex
  have hlen : (s.buf.take s.last).length ≤ s.last := List.length_take_le _ _
  have hcrlf : crlf.length = 4 := rfl
  omega

/-- The code behind a read: return, or `end += n`. -/
def receive (rt : Runtime) (s : Loop) (o : ReadOutcome) : Status Loop :=
  if rt.returns o then .returned s.responses
  else .running { s with
    buf := s.buf.take s.last ++ o.bytes ++ s.buf.drop (s.last + o.n)
    last := s.last + o.n
    taken := s.taken + o.n
    reads := s.reads + 1 }

/-- The read behind the inner loop, into `buf[end..]`. -/
def refill (rt : Runtime) (c : Conn) (s : Loop) : Status Loop :=
  receive rt s (c.read s.taken s.reads (bufSize - s.last))

/-- The handler is about to enter its inner loop for the `k`-th time; `buf` starts with anything. -/
def loopHead (rt : Runtime) (c : Conn) (buf : List UInt8) : Nat → Status Loop :=
  rounds (fun s => (drain rt c s).bind (refill rt c)) ⟨buf, 0, 0, 0, 0⟩

/-- The handler has left its inner loop for the `k`-th time. -/
def drained (rt : Runtime) (c : Conn) (buf : List UInt8) (k : Nat) : Status Loop :=
  (loopHead rt c buf k).bind (drain rt c)

end ZioBenchmarks.Http
