import Mathlib.Data.Int.Basic
import Mathlib.Tactic.Ring

/-!
# The work of a connection

`work` of `tcp_driver.go`: one goroutine per connection runs it, call by call. What a call returns is
up to the network: a read or a write can move fewer bytes than it was given and report an error,
also together with the last bytes, and a read can return nothing and no error.
-/

set_option autoImplicit false

namespace ZioBenchmarks.Driver

/-- The value of an `int64` expression. -/
@[irreducible] def int64 (x : Int) : Int := x.bmod (2 ^ 64)

/-- `--mode`, where any other text is `other`. -/
inductive Mode where
  | echo
  | send
  | recv
  | other
  deriving DecidableEq, Repr

/-- The flags, as far as `main` has checked them. -/
structure Config where
  mode : Mode
  conns : Nat
  msgs : Nat
  size : Nat
  pipeline : Nat
  mb : Nat
  conns_pos : 1 ≤ conns
  size_pos : 1 ≤ size
  pipeline_pos : 1 ≤ pipeline

/-- The errors a connection can end with. -/
inductive Err where
  | connectFailed
  | io
  | shortRecv
  | unknownMode
  deriving DecidableEq, Repr

/-- Where a goroutine is. -/
inductive Pc where
  /-- `net.Dial`, after some attempts that failed. -/
  | dial (attempt : Nat)
  /-- Not connected: `results[i] = err`. -/
  | connectFailed
  /-- Not connected: `connected.Done()`. -/
  | failedDone
  /-- Connected: `connected.Done()`. -/
  | ready
  /-- `<-start`. -/
  | awaitStart
  /-- echo: `c.Write(buf)` before the loop. -/
  | fill
  /-- echo: `io.ReadFull(c, buf)`, with some bytes read. -/
  | readFull (off : Nat)
  /-- echo: `c.Write(buf)` in the loop. -/
  | write
  /-- send: `c.Write(buf[:n])`. -/
  | send
  /-- recv: `c.Read(buf[:n])`. -/
  | recv
  /-- `results[i] =` what `work` returned. -/
  | assign (r : Option Err)
  /-- The deferred `done.Done()`. -/
  | exitDone
  | gone
  deriving DecidableEq, Repr

/-- The locals of a goroutine, and the bytes it has written and read. -/
structure Conn where
  pc : Pc
  sent : Nat
  got : Nat
  left : Int
  wrote : Nat
  read : Nat
  deriving DecidableEq, Repr

namespace Config

/-- `mb * 1024 * 1024 / conns`. -/
def perConn (cfg : Config) : Int :=
  (int64 (int64 ((cfg.mb : Int) * 1024) * 1024)).tdiv cfg.conns

/-- `inflight := pipeline; if inflight > msgs { inflight = msgs }`. -/
def inflight (cfg : Config) : Nat :=
  if cfg.msgs < cfg.pipeline then cfg.msgs else cfg.pipeline

/-- echo: `for got < msgs`. -/
def echoLoop (cfg : Config) (g : Conn) : Conn :=
  { g with pc := if g.got < cfg.msgs then .readFull 0 else .assign none }

/-- echo: `for ; sent < inflight; sent++`, and the loop behind it. -/
def fillLoop (cfg : Config) (g : Conn) : Conn :=
  if g.sent < cfg.inflight then { g with pc := .fill } else cfg.echoLoop g

/-- send: `for left > 0`. -/
def sendLoop (g : Conn) : Conn :=
  { g with pc := if 0 < g.left then .send else .assign none }

/-- recv: the test behind the loop. -/
def recvResult (left : Int) : Option Err :=
  if 0 < left then some .shortRecv else none

/-- recv: `for left > 0`, and the test behind the loop. -/
def recvLoop (g : Conn) : Conn :=
  { g with pc := if 0 < g.left then .recv else .assign (recvResult g.left) }

/-- `n := int64(size); if left < n { n = left }`. -/
def chunk (cfg : Config) (left : Int) : Int :=
  if left < cfg.size then left else cfg.size

/-- The call of `work`, up to its first read or write. -/
def enter (cfg : Config) (g : Conn) : Conn :=
  match cfg.mode with
  | .echo => cfg.fillLoop g
  | .send => sendLoop { g with left := cfg.perConn }
  | .recv => recvLoop { g with left := cfg.perConn }
  | .other => { g with pc := .assign (some .unknownMode) }

/-- A read or write returned `n` and an error or `nil`. A write without an error is complete. -/
def io (cfg : Config) (g : Conn) (n : Nat) (err : Bool) : Option Conn :=
  match g.pc with
  | .fill =>
      if n ≤ cfg.size ∧ (err = false → n = cfg.size) then
        if err then some { g with wrote := g.wrote + n, pc := .assign (some .io) }
        else some (cfg.fillLoop { g with wrote := g.wrote + n, sent := g.sent + 1 })
      else none
  | .readFull off =>
      if off + n ≤ cfg.size then
        -- `ReadFull` drops an error that comes with the last bytes
        if off + n = cfg.size then
          if g.sent < cfg.msgs then
            some { g with read := g.read + n, got := g.got + 1, pc := .write }
          else some (cfg.echoLoop { g with read := g.read + n, got := g.got + 1 })
        else if err then some { g with read := g.read + n, pc := .assign (some .io) }
        else some { g with read := g.read + n, pc := .readFull (off + n) }
      else none
  | .write =>
      if n ≤ cfg.size ∧ (err = false → n = cfg.size) then
        if err then some { g with wrote := g.wrote + n, pc := .assign (some .io) }
        else some (cfg.echoLoop { g with wrote := g.wrote + n, sent := g.sent + 1 })
      else none
  | .send =>
      if (n : Int) ≤ cfg.chunk g.left ∧ (err = false → (n : Int) = cfg.chunk g.left) then
        if err then some { g with wrote := g.wrote + n, pc := .assign (some .io) }
        else some (sendLoop { g with wrote := g.wrote + n, left := g.left - cfg.chunk g.left })
      else none
  | .recv =>
      if (n : Int) ≤ cfg.chunk g.left then
        -- the `break` leaves the loop, so that only the bytes decide
        if err then
          some { g with
            read := g.read + n
            left := g.left - n
            pc := .assign (recvResult (g.left - n)) }
        else some (recvLoop { g with read := g.read + n, left := g.left - n })
      else none
  | _ => none

/-- The sizes `main` multiplies fit in an `int64`. -/
structure Fits (cfg : Config) : Prop where
  bytes : cfg.mb * 1024 * 1024 < 2 ^ 63
  total : cfg.msgs * cfg.conns < 2 ^ 63

/-- The connection has done its share: it read back all messages, or moved all bytes. -/
def Complete (cfg : Config) (g : Conn) : Prop :=
  match cfg.mode with
  | .echo => g.got = cfg.msgs ∧ g.read = cfg.msgs * cfg.size
  | .send => (g.wrote : Int) = cfg.perConn
  | .recv => (g.read : Int) = cfg.perConn
  | .other => False

/-- What a goroutine has done where it is; `r` is its place in `results`. -/
def Good (cfg : Config) (g : Conn) (r : Option Err) : Prop :=
  match g.pc with
  | .dial _ | .ready | .awaitStart => g.sent = 0 ∧ g.got = 0 ∧ g.wrote = 0 ∧ g.read = 0
  | .connectFailed => True
  | .failedDone => r ≠ none
  | .fill => cfg.mode = .echo ∧ g.got = 0 ∧ g.sent < cfg.inflight ∧ g.read = 0
  | .readFull off =>
      cfg.mode = .echo ∧ off < cfg.size ∧ g.got < cfg.msgs ∧ g.read = g.got * cfg.size + off
  | .write =>
      cfg.mode = .echo ∧ g.sent < cfg.msgs ∧ g.got ≤ cfg.msgs ∧ g.read = g.got * cfg.size
  | .send => cfg.mode = .send ∧ 0 < g.left ∧ (g.wrote : Int) + g.left = cfg.perConn
  | .recv => cfg.mode = .recv ∧ 0 < g.left ∧ (g.read : Int) + g.left = cfg.perConn
  | .assign r' => r' = none → cfg.Complete g
  | .exitDone | .gone => r = none → cfg.Complete g

end Config

variable {cfg : Config} {g g' : Conn} {r : Option Err}

/-- A number that fits is its own `int64`. -/
theorem int64_eq {x : Nat} (h : x < 2 ^ 63) : int64 (x : Int) = x := by
  unfold int64
  apply Int.bmod_eq_of_le <;> omega

/-- The share of a connection, rounded down. -/
theorem perConn_eq (hf : cfg.Fits) : cfg.perConn = ((cfg.mb * 2 ^ 20 / cfg.conns : Nat) : Int) := by
  have hbytes := hf.bytes
  have hlt : cfg.mb * 1024 < 2 ^ 63 :=
    (Nat.le_mul_of_pos_right _ (Nat.succ_pos _)).trans_lt hbytes
  have h₁ : int64 ((cfg.mb : Int) * 1024) = ((cfg.mb * 1024 : Nat) : Int) := by
    rw [← int64_eq hlt]
    push_cast
    rfl
  have h₂ : int64 (((cfg.mb * 1024 : Nat) : Int) * 1024) = ((cfg.mb * 1024 * 1024 : Nat) : Int) := by
    rw [← int64_eq hbytes]
    push_cast
    rfl
  have h₃ : cfg.mb * 1024 * 1024 = cfg.mb * 2 ^ 20 := by ring
  rw [Config.perConn, h₁, h₂, Int.ofNat_tdiv, h₃]

theorem perConn_nonneg (hf : cfg.Fits) : 0 ≤ cfg.perConn := by
  rw [perConn_eq hf]
  exact Int.natCast_nonneg _

theorem echoLoop_good (hm : cfg.mode = .echo) (hgot : g.got ≤ cfg.msgs)
    (hread : g.read = g.got * cfg.size) : cfg.Good (cfg.echoLoop g) r := by
  unfold Config.echoLoop
  by_cases hlt : g.got < cfg.msgs
  · rw [if_pos hlt]
    exact ⟨hm, cfg.size_pos, hlt, hread⟩
  · rw [if_neg hlt]
    have heq : g.got = cfg.msgs := by omega
    intro _
    rw [Config.Complete, hm]
    exact ⟨heq, by rw [← heq, ← hread]⟩

theorem fillLoop_good (hm : cfg.mode = .echo) (hgot : g.got = 0) (hread : g.read = 0) :
    cfg.Good (cfg.fillLoop g) r := by
  unfold Config.fillLoop
  split
  case isTrue hlt => exact ⟨hm, hgot, hlt, hread⟩
  case isFalse => exact echoLoop_good hm (by omega) (by rw [hread, hgot, Nat.zero_mul])

theorem sendLoop_good (hm : cfg.mode = .send) (hleft : 0 ≤ g.left)
    (hwrote : (g.wrote : Int) + g.left = cfg.perConn) : cfg.Good (Config.sendLoop g) r := by
  unfold Config.sendLoop
  by_cases hlt : 0 < g.left
  · rw [if_pos hlt]
    exact ⟨hm, hlt, hwrote⟩
  · rw [if_neg hlt]
    intro _
    rw [Config.Complete, hm]
    change (g.wrote : Int) = cfg.perConn
    omega

/-- The test behind the loop succeeds only if all bytes were read. -/
theorem recvResult_complete (hm : cfg.mode = .recv) (hleft : 0 ≤ g.left)
    (hread : (g.read : Int) + g.left = cfg.perConn) (h : Config.recvResult g.left = none) :
    cfg.Complete g := by
  unfold Config.recvResult at h
  split at h
  case isTrue => simp at h
  case isFalse hge =>
    rw [Config.Complete, hm]
    change (g.read : Int) = cfg.perConn
    omega

theorem recvLoop_good (hm : cfg.mode = .recv) (hleft : 0 ≤ g.left)
    (hread : (g.read : Int) + g.left = cfg.perConn) : cfg.Good (Config.recvLoop g) r := by
  unfold Config.recvLoop
  by_cases hlt : 0 < g.left
  · rw [if_pos hlt]
    exact ⟨hm, hlt, hread⟩
  · rw [if_neg hlt]
    intro h
    exact recvResult_complete (g := g) hm hleft hread h

/-- A goroutine enters `work` with nothing done. -/
theorem enter_good (hf : cfg.Fits) (h : cfg.Good g r) (hp : g.pc = .awaitStart) :
    cfg.Good (cfg.enter g) r := by
  rw [Config.Good, hp] at h
  obtain ⟨-, hgot, hwrote, hread⟩ := h
  have hnonneg := perConn_nonneg hf
  unfold Config.enter
  split
  case h_1 hm => exact fillLoop_good hm hgot hread
  case h_2 hm =>
    refine sendLoop_good hm hnonneg ?_
    change (g.wrote : Int) + cfg.perConn = cfg.perConn
    omega
  case h_3 hm =>
    refine recvLoop_good hm hnonneg ?_
    change (g.read : Int) + cfg.perConn = cfg.perConn
    omega
  case h_4 => intro h; simp at h

theorem chunk_le (cfg : Config) (left : Int) : cfg.chunk left ≤ left := by
  unfold Config.chunk
  split <;> omega

/-- What a read or a write of `n` bytes leads to, with an error or `nil`. -/
inductive Config.Returned (cfg : Config) (g : Conn) (n : Nat) : Bool → Conn → Prop
  | writeError (hp : g.pc = .fill ∨ g.pc = .write ∨ g.pc = .send) :
      Returned cfg g n true { g with wrote := g.wrote + n, pc := .assign (some .io) }
  | fill (hp : g.pc = .fill) :
      Returned cfg g n false (cfg.fillLoop { g with wrote := g.wrote + n, sent := g.sent + 1 })
  | write (hp : g.pc = .write) :
      Returned cfg g n false (cfg.echoLoop { g with wrote := g.wrote + n, sent := g.sent + 1 })
  | readError (off : Nat) (hp : g.pc = .readFull off) (hlt : off + n < cfg.size) :
      Returned cfg g n true { g with read := g.read + n, pc := .assign (some .io) }
  | part (off : Nat) (hp : g.pc = .readFull off) (hlt : off + n < cfg.size) :
      Returned cfg g n false { g with read := g.read + n, pc := .readFull (off + n) }
  | message (err : Bool) (off : Nat) (hp : g.pc = .readFull off) (heq : off + n = cfg.size)
      (hsent : g.sent < cfg.msgs) :
      Returned cfg g n err { g with read := g.read + n, got := g.got + 1, pc := .write }
  | lastMessages (err : Bool) (off : Nat) (hp : g.pc = .readFull off) (heq : off + n = cfg.size)
      (hsent : cfg.msgs ≤ g.sent) :
      Returned cfg g n err (cfg.echoLoop { g with read := g.read + n, got := g.got + 1 })
  | send (hp : g.pc = .send) (hall : (n : Int) = cfg.chunk g.left) :
      Returned cfg g n false
        (Config.sendLoop { g with wrote := g.wrote + n, left := g.left - cfg.chunk g.left })
  | recvError (hp : g.pc = .recv) (hle : (n : Int) ≤ cfg.chunk g.left) :
      Returned cfg g n true { g with
        read := g.read + n
        left := g.left - n
        pc := .assign (Config.recvResult (g.left - n)) }
  | recv (hp : g.pc = .recv) (hle : (n : Int) ≤ cfg.chunk g.left) :
      Returned cfg g n false
        (Config.recvLoop { g with read := g.read + n, left := g.left - n })

theorem io_cases {n : Nat} {err : Bool} (h : cfg.io g n err = some g') :
    cfg.Returned g n err g' := by
  unfold Config.io at h
  cases hp : g.pc with
  | fill =>
      simp only [hp] at h
      split at h
      case isFalse => cases h
      case isTrue hn =>
        cases err with
        | true => cases h; exact .writeError (.inl hp)
        | false => cases h; exact .fill hp
  | readFull off =>
      simp only [hp] at h
      split at h
      case isFalse => cases h
      case isTrue hn =>
        split at h
        case isTrue heq =>
          split at h
          case isTrue hsent => cases h; exact .message err off hp heq hsent
          case isFalse hsent => cases h; exact .lastMessages err off hp heq (Nat.le_of_not_lt hsent)
        case isFalse hne =>
          have hlt : off + n < cfg.size := by omega
          cases err with
          | true => cases h; exact .readError off hp hlt
          | false => cases h; exact .part off hp hlt
  | write =>
      simp only [hp] at h
      split at h
      case isFalse => cases h
      case isTrue hn =>
        cases err with
        | true => cases h; exact .writeError (.inr (.inl hp))
        | false => cases h; exact .write hp
  | send =>
      simp only [hp] at h
      split at h
      case isFalse => cases h
      case isTrue hn =>
        cases err with
        | true => cases h; exact .writeError (.inr (.inr hp))
        | false => cases h; exact .send hp (hn.2 rfl)
  | recv =>
      simp only [hp] at h
      split at h
      case isFalse => cases h
      case isTrue hn =>
        cases err with
        | true => cases h; exact .recvError hp hn
        | false => cases h; exact .recv hp hn
  | dial _ | connectFailed | failedDone | ready | awaitStart | assign _ | exitDone | gone =>
      simp [hp] at h

/-- A message more has been read. -/
theorem read_message {got off n size read : Nat} (heq : off + n = size)
    (hread : read = got * size + off) : read + n = (got + 1) * size := by
  rw [Nat.succ_mul]
  omega

/-- No outcome of a read or a write makes a goroutine claim work that was not done. -/
theorem io_good (h : cfg.Good g r) {n : Nat} {err : Bool} (hio : cfg.io g n err = some g') :
    cfg.Good g' r := by
  have hchunk := chunk_le cfg g.left
  rw [Config.Good] at h
  cases io_cases hio with
  | writeError _ | readError _ _ _ =>
      intro h
      cases h
  | fill hp =>
      simp only [hp] at h
      obtain ⟨hm, hgot, -, hread⟩ := h
      exact fillLoop_good hm hgot hread
  | write hp =>
      simp only [hp] at h
      obtain ⟨hm, -, hgot, hread⟩ := h
      exact echoLoop_good hm hgot hread
  | part off hp hlt =>
      simp only [hp] at h
      obtain ⟨hm, -, hgot, hread⟩ := h
      refine ⟨hm, hlt, hgot, ?_⟩
      change g.read + n = g.got * cfg.size + (off + n)
      omega
  | message _ off hp heq hsent =>
      simp only [hp] at h
      obtain ⟨hm, -, hgot, hread⟩ := h
      exact ⟨hm, hsent, hgot, read_message heq hread⟩
  | lastMessages _ off hp heq hsent =>
      simp only [hp] at h
      obtain ⟨hm, -, hgot, hread⟩ := h
      exact echoLoop_good hm hgot (read_message heq hread)
  | send hp hall =>
      simp only [hp] at h
      obtain ⟨hm, hleft, hwrote⟩ := h
      refine sendLoop_good hm ?_ ?_
      · change 0 ≤ g.left - cfg.chunk g.left
        omega
      · change ((g.wrote + n : Nat) : Int) + (g.left - cfg.chunk g.left) = cfg.perConn
        omega
  | recvError hp hle =>
      simp only [hp] at h
      obtain ⟨hm, hleft, hread⟩ := h
      have hleft' : 0 ≤ g.left - (n : Int) := by omega
      have hread' : ((g.read + n : Nat) : Int) + (g.left - n) = cfg.perConn := by omega
      exact fun h => recvResult_complete hm hleft' hread' h
  | recv hp hle =>
      simp only [hp] at h
      obtain ⟨hm, hleft, hread⟩ := h
      have hleft' : 0 ≤ g.left - (n : Int) := by omega
      have hread' : ((g.read + n : Nat) : Int) + (g.left - n) = cfg.perConn := by omega
      exact recvLoop_good hm hleft' hread'

end ZioBenchmarks.Driver
