import ZioBenchmarks.Driver.Work
import ZioBenchmarks.Transition.Runs

/-!
# Bulk transfers

`work` of `tcp_driver.go` in the modes `send` and `recv`, against the `sink` and `source` handlers of
the TCP servers, over one connection that moves some of the bytes that are there into some of the
room that is there. All bytes are zeros, so that the pipe is a number. The driver closes the
connection when `work` returns; a sink then reads the rest and sees the end, a source fails to write.
-/

set_option autoImplicit false

namespace ZioBenchmarks.Tcp

open ZioBenchmarks.Transition ZioBenchmarks.Driver

/-- `BUF_SIZE`. -/
def bufSize : Nat := 64 * 1024

/-- The flags of the driver, and the capacity of the pipe between it and the server. -/
structure Link extends Driver.Config where
  cap : Nat
  fits : toConfig.Fits
  cap_pos : 1 ≤ cap

/-- A connection: the locals of the goroutine, the bytes of its `Write` that have left, whether it
has closed the connection, the bytes in the pipe, and the server: whether its handler has returned,
how far it is in its buffer, and how many bytes it has read or written. -/
structure State where
  conn : Conn
  off : Nat
  closed : Bool
  pipe : Nat
  returned : Bool
  pos : Nat
  served : Nat
  deriving DecidableEq, Repr

/-- A goroutine before it calls `work`. -/
def idle : Conn := ⟨.awaitStart, 0, 0, 0, 0, 0⟩

/-- `work` has been called, and the handler started. -/
def initial (link : Link) : State := ⟨link.enter idle, 0, false, 0, false, 0, 0⟩

/-- What can happen next: a transfer of `k` bytes, the deferred `c.Close()`, or the end of the
handler. -/
inductive Act where
  | driver (k : Nat)
  | close
  | server (k : Nat)
  | serverEnd
  deriving DecidableEq, Repr

/-- `c.Close()` follows the assignment of the result. -/
def closeConn (s : State) : Option State :=
  match s.conn.pc with
  | .assign _ => if s.closed then none else some { s with closed := true }
  | _ => none

/-- `send` against a handler in mode `sink`. -/
def sendSink (link : Link) (s : State) : Act → Option State
  | .driver k =>
      if s.conn.pc = .send ∧ 1 ≤ k ∧ ((s.off + k : Nat) : Int) ≤ link.chunk s.conn.left ∧
          s.pipe + k ≤ link.cap then
        if ((s.off + k : Nat) : Int) = link.chunk s.conn.left then
          -- the write is complete
          (link.io s.conn (s.off + k) false).map fun g =>
            { s with conn := g, off := 0, pipe := s.pipe + k }
        else some { s with off := s.off + k, pipe := s.pipe + k }
      else none
  | .close => closeConn s
  | .server k =>
      if s.returned = false ∧ 1 ≤ k ∧ k ≤ bufSize ∧ k ≤ s.pipe then
        some { s with pipe := s.pipe - k, served := s.served + k }
      else none
  -- the read returns 0, or an error
  | .serverEnd =>
      if s.returned = false ∧ s.closed = true ∧ s.pipe = 0 then some { s with returned := true }
      else none

/-- `recv` against a handler in mode `source`. -/
def recvSource (link : Link) (s : State) : Act → Option State
  | .driver k =>
      if s.conn.pc = .recv ∧ 1 ≤ k ∧ (k : Int) ≤ link.chunk s.conn.left ∧ k ≤ s.pipe then
        (link.io s.conn k false).map fun g => { s with conn := g, pipe := s.pipe - k }
      else none
  | .close => closeConn s
  | .server k =>
      if s.returned = false ∧ s.closed = false ∧ 1 ≤ k ∧ s.pos + k ≤ bufSize ∧
          s.pipe + k ≤ link.cap then
        some { s with
          pipe := s.pipe + k
          served := s.served + k
          pos := if s.pos + k = bufSize then 0 else s.pos + k }
      else none
  -- the write reports an error
  | .serverEnd =>
      if s.returned = false ∧ s.closed = true then some { s with returned := true } else none

/-- A sink under the driver. -/
def sink (link : Link) : System State Act where
  init s := s = initial link
  step s a s' := sendSink link s a = some s'

/-- A source under the driver. -/
def source (link : Link) : System State Act where
  init s := s = initial link
  step s a s' := recvSource link s a = some s'

variable {link : Link} {s s' : State} {a : Act}

/-- `floor(mb * 2^20 / conns)`. -/
def share (link : Link) : Nat := link.mb * 2 ^ 20 / link.conns

theorem perConn_share (link : Link) : link.perConn = (share link : Int) := perConn_eq link.fits

theorem chunk_pos {left : Int} (h : 0 < left) : 0 < link.chunk left := by
  have hsize := link.size_pos
  unfold Config.chunk
  split <;> omega

/-- Both ends are done. -/
def State.Finished (s : State) : Prop := s.closed = true ∧ s.returned = true

/-- The ends that are not done. -/
def State.ends (s : State) : Nat := (if s.closed then 0 else 1) + (if s.returned then 0 else 1)

theorem closeConn_cases (h : closeConn s = some s') :
    s.closed = false ∧ (∃ r, s.conn.pc = .assign r) ∧ s' = { s with closed := true } := by
  unfold closeConn at h
  split at h
  case h_1 r hr =>
    split at h
    case isTrue => cases h
    case isFalse hopen => exact ⟨Bool.eq_false_iff.2 hopen, ⟨r, hr⟩, (Option.some.inj h).symm⟩
  case h_2 => cases h

/-! ## `send` to a sink -/

/-- What has been written is in the pipe, or was read by the sink. -/
structure SendInv (link : Link) (s : State) : Prop where
  driver : (s.conn.pc = .send ∧ 0 < s.conn.left ∧ (s.conn.wrote : Int) + s.conn.left = share link ∧
      (s.off : Int) < link.chunk s.conn.left ∧ s.closed = false) ∨
    (s.conn.pc = .assign none ∧ s.conn.wrote = share link ∧ s.off = 0)
  bytes : s.conn.wrote + s.off = s.served + s.pipe
  pipe : s.pipe ≤ link.cap
  returned : s.returned = true → s.closed = true ∧ s.pipe = 0

/-- The loop goes on, or `work` returns `nil`. -/
theorem sendLoop_driver {g : Conn} (hleft : 0 ≤ g.left)
    (hwrote : (g.wrote : Int) + g.left = share link) :
    ((Config.sendLoop g).pc = .send ∧ 0 < (Config.sendLoop g).left ∧
        ((Config.sendLoop g).wrote : Int) + (Config.sendLoop g).left = share link ∧
        0 < link.chunk (Config.sendLoop g).left) ∨
      ((Config.sendLoop g).pc = .assign none ∧ (Config.sendLoop g).wrote = share link) := by
  unfold Config.sendLoop
  by_cases hlt : 0 < g.left
  · rw [if_pos hlt]
    exact .inl ⟨rfl, hlt, hwrote, chunk_pos hlt⟩
  · rw [if_neg hlt]
    exact .inr ⟨rfl, by simp only; omega⟩

theorem initial_sendInv (hm : link.mode = .send) : SendInv link (initial link) := by
  have henter : link.enter idle = Config.sendLoop { idle with left := link.perConn } := by
    rw [Config.enter, hm]
  have hshare := perConn_share link
  have hloop := @sendLoop_driver link { idle with left := link.perConn }
    (by simp only; omega) (by simp only [idle]; omega)
  refine ⟨?_, ?_, Nat.zero_le _, by simp [initial]⟩
  · rw [initial, henter]
    rcases hloop with ⟨hpc, hleft, hwrote, hchunk⟩ | ⟨hpc, hwrote⟩
    · exact .inl ⟨hpc, hleft, hwrote, hchunk, rfl⟩
    · exact .inr ⟨hpc, hwrote, rfl⟩
  · rw [initial, henter]
    rfl

/-- A write that is complete. -/
theorem io_send {g : Conn} (hpc : g.pc = .send) {n : Nat} (hn : (n : Int) = link.chunk g.left) :
    link.io g n false =
      some (Config.sendLoop
        { g with wrote := g.wrote + n, left := g.left - link.chunk g.left }) := by
  simp [Config.io, hpc, hn]

/-- What a step of `send` and `sink` is. -/
theorem sendSink_cases (h : sendSink link s a = some s') :
    (∃ k, s.conn.pc = .send ∧ 1 ≤ k ∧ ((s.off + k : Nat) : Int) < link.chunk s.conn.left ∧
      s.pipe + k ≤ link.cap ∧ s' = { s with off := s.off + k, pipe := s.pipe + k }) ∨
    (∃ k, s.conn.pc = .send ∧ 1 ≤ k ∧ ((s.off + k : Nat) : Int) = link.chunk s.conn.left ∧
      s.pipe + k ≤ link.cap ∧ s' = { s with
        conn := Config.sendLoop { s.conn with
          wrote := s.conn.wrote + (s.off + k), left := s.conn.left - link.chunk s.conn.left }
        off := 0
        pipe := s.pipe + k }) ∨
    (s.closed = false ∧ (∃ r, s.conn.pc = .assign r) ∧ s' = { s with closed := true }) ∨
    (∃ k, s.returned = false ∧ 1 ≤ k ∧ k ≤ s.pipe ∧
      s' = { s with pipe := s.pipe - k, served := s.served + k }) ∨
    (s.returned = false ∧ s.closed = true ∧ s.pipe = 0 ∧ s' = { s with returned := true }) := by
  cases a with
  | driver k =>
      simp only [sendSink] at h
      split at h
      case isFalse => cases h
      case isTrue hc =>
        obtain ⟨hpc, hk, hle, hroom⟩ := hc
        split at h
        case isTrue heq =>
          rw [io_send hpc heq] at h
          exact .inr (.inl ⟨k, hpc, hk, heq, hroom, (Option.some.inj h).symm⟩)
        case isFalse hne =>
          exact .inl ⟨k, hpc, hk, by omega, hroom, (Option.some.inj h).symm⟩
  | close => exact .inr (.inr (.inl (closeConn_cases h)))
  | server k =>
      simp only [sendSink] at h
      split at h
      case isFalse => cases h
      case isTrue hc =>
        exact .inr (.inr (.inr (.inl ⟨k, hc.1, hc.2.1, hc.2.2.2, (Option.some.inj h).symm⟩)))
  | serverEnd =>
      simp only [sendSink] at h
      split at h
      case isFalse => cases h
      case isTrue hc =>
        exact .inr (.inr (.inr (.inr ⟨hc.1, hc.2.1, hc.2.2, (Option.some.inj h).symm⟩)))

theorem sendSink_inv (hi : SendInv link s) (h : sendSink link s a = some s') :
    SendInv link s' := by
  obtain ⟨hdriver, hbytes, hpipe, hreturned⟩ := hi
  rcases sendSink_cases h with ⟨k, hpc, hk, hlt, hroom, rfl⟩ | ⟨k, hpc, hk, heq, hroom, rfl⟩ |
    ⟨hopen, ⟨r, hr⟩, rfl⟩ | ⟨k, hret, hk, hle, rfl⟩ | ⟨hret, hclosed, hempty, rfl⟩
  · rcases hdriver with ⟨-, hleft, hwrote, -, hopen⟩ | ⟨hpc', -⟩
    · refine ⟨.inl ⟨hpc, hleft, hwrote, hlt, hopen⟩, ?_, hroom, fun hr => ?_⟩
      · simp only
        omega
      · rw [hopen] at hreturned
        exact absurd (hreturned hr).1 (by decide)
    · rw [hpc] at hpc'
      cases hpc'
  · rcases hdriver with ⟨-, hleft, hwrote, -, hopen⟩ | ⟨hpc', -⟩
    · have hchunk := chunk_le link.toConfig s.conn.left
      have hloop := @sendLoop_driver link { s.conn with
          wrote := s.conn.wrote + (s.off + k), left := s.conn.left - link.chunk s.conn.left }
        (by simp only; omega) (by simp only; omega)
      refine ⟨?_, ?_, hroom, fun hr => ?_⟩
      · rcases hloop with ⟨h₁, h₂, h₃, h₄⟩ | ⟨h₁, h₂⟩
        · exact .inl ⟨h₁, h₂, h₃, h₄, hopen⟩
        · exact .inr ⟨h₁, h₂, rfl⟩
      · simp only [Config.sendLoop]
        omega
      · rw [hopen] at hreturned
        exact absurd (hreturned hr).1 (by decide)
    · rw [hpc] at hpc'
      cases hpc'
  · rcases hdriver with ⟨hpc, -⟩ | hdone
    · rw [hpc] at hr
      cases hr
    · exact ⟨.inr hdone, hbytes, hpipe, fun hret => ⟨rfl, (hreturned hret).2⟩⟩
  · refine ⟨hdriver, ?_, ?_, fun hr => ?_⟩
    · simp only
      omega
    · simp only
      omega
    · rw [hret] at hr
      cases hr
  · exact ⟨hdriver, hbytes, hpipe, fun _ => ⟨hclosed, hempty⟩⟩

theorem sink_inv (hm : link.mode = .send) (h : (sink link).Reachable s) : SendInv link s := by
  refine System.Reachable.invariant ?_ ?_ h
  · rintro _ rfl
    exact initial_sendInv hm
  · intro s a s' hi hstep
    exact sendSink_inv hi hstep

/-- The transfers and ends that are left. -/
def sendRank (link : Link) (s : State) : Nat :=
  2 * (share link - (s.conn.wrote + s.off)) + s.pipe + s.ends

/-- Every transfer brings the end nearer. -/
theorem sendSink_rank (hi : SendInv link s) (h : sendSink link s a = some s') :
    sendRank link s' < sendRank link s := by
  obtain ⟨hdriver, hbytes, hpipe, hreturned⟩ := hi
  have hle : s.conn.pc = .send → s.conn.wrote + (link.chunk s.conn.left).toNat ≤ share link := by
    intro hpc
    have hchunk := chunk_le link.toConfig s.conn.left
    rcases hdriver with ⟨-, hleft, hwrote, -⟩ | ⟨hpc', -⟩
    · omega
    · rw [hpc] at hpc'
      cases hpc'
  unfold sendRank
  rcases sendSink_cases h with ⟨k, hpc, hk, hlt, hroom, rfl⟩ | ⟨k, hpc, hk, heq, hroom, rfl⟩ |
    ⟨hopen, -, rfl⟩ | ⟨k, hret, hk, hle', rfl⟩ | ⟨hret, hclosed, hempty, rfl⟩
  · have hle := hle hpc
    simp only [State.ends]
    omega
  · have hle := hle hpc
    simp only [State.ends, Config.sendLoop]
    omega
  · simp only [State.ends, hopen]
    simp
  · simp only [State.ends]
    omega
  · simp only [State.ends, hret]
    simp

/-- While one of the two ends is not done, one of them can go on. -/
theorem SendInv.progress (hi : SendInv link s) (hrun : ¬ s.Finished) :
    ∃ a s', (sink link).step s a s' := by
  obtain ⟨hdriver, hbytes, hpipe, hreturned⟩ := hi
  have hsome : ∀ {a}, (sendSink link s a).isSome → ∃ a s', (sink link).step s a s' := by
    intro a ha
    obtain ⟨s', hs'⟩ := Option.isSome_iff_exists.1 ha
    exact ⟨a, s', hs'⟩
  have hcap := link.cap_pos
  have hread : s.returned = false → 0 < s.pipe → ∃ a s', (sink link).step s a s' := by
    intro hret hpos
    apply hsome (a := .server 1)
    have hguard : s.returned = false ∧ 1 ≤ 1 ∧ 1 ≤ bufSize ∧ 1 ≤ s.pipe :=
      ⟨hret, Nat.le_refl 1, by decide, hpos⟩
    rw [sendSink, if_pos hguard]
    rfl
  rcases hdriver with ⟨hpc, hleft, hwrote, hoff, hopen⟩ | ⟨hpc, hwrote, hoff⟩
  · have hret : s.returned = false := by
      rw [Bool.eq_false_iff]
      intro hr
      rw [hopen] at hreturned
      exact absurd (hreturned hr).1 (by decide)
    by_cases hroom : s.pipe < link.cap
    · apply hsome (a := .driver 1)
      have hguard : s.conn.pc = .send ∧ 1 ≤ 1 ∧ ((s.off + 1 : Nat) : Int) ≤ link.chunk s.conn.left ∧
          s.pipe + 1 ≤ link.cap := ⟨hpc, Nat.le_refl 1, by omega, hroom⟩
      simp only [sendSink, if_pos hguard]
      split
      case isTrue heq =>
        rw [io_send hpc heq]
        rfl
      case isFalse => rfl
    · exact hread hret (by omega)
  · cases hclosed : s.closed with
    | false => exact hsome (a := .close) (by simp [sendSink, closeConn, hpc, hclosed])
    | true =>
        have hret : s.returned = false := by
          rw [Bool.eq_false_iff]
          exact fun hr => hrun ⟨hclosed, hr⟩
        by_cases hempty : s.pipe = 0
        · exact hsome (a := .serverEnd) (by simp [sendSink, hret, hclosed, hempty])
        · exact hread hret (Nat.pos_of_ne_zero hempty)

variable {tr : List Act}

/-- A sink reads what the driver sends. Until both are done one of them can go on, for no more than
two steps for each byte and one for each end; the handler returns only after it has read everything
that was written and the driver has closed the connection; and then `work` has returned `nil` and
the sink has read the share of the connection, and nothing is in the pipe. -/
theorem sink_reads_share (hm : link.mode = .send) (h : (sink link).Run tr s) :
    (¬ s.Finished → ∃ a s', (sink link).step s a s') ∧
    tr.length ≤ 2 * share link + 2 ∧
    s.served ≤ share link ∧
    (s.returned = true →
      s.closed = true ∧ s.conn.pc = .assign none ∧ s.served = share link ∧ s.pipe = 0) := by
  have hi := sink_inv hm h.reachable
  have hchunk := chunk_le link.toConfig s.conn.left
  refine ⟨hi.progress, ?_, ?_, fun hr => ?_⟩
  · obtain ⟨a, rfl, hp⟩ := h
    have hlength := hp.length_le (μ := sendRank link)
      (fun _ _ _ hr hstep => sendSink_rank (sink_inv hm hr) hstep) (System.Run.nil rfl).reachable
    have hinit : sendRank link (initial link) ≤ 2 * share link + 2 := by
      simp only [sendRank, initial, State.ends]
      simp
    omega
  · have hbytes := hi.bytes
    rcases hi.driver with ⟨-, hleft, hwrote, hoff, -⟩ | ⟨-, hwrote, hoff⟩ <;> omega
  · obtain ⟨hclosed, hempty⟩ := hi.returned hr
    have hbytes := hi.bytes
    rcases hi.driver with ⟨-, -, -, -, hopen⟩ | ⟨hpc, hwrote, hoff⟩
    · rw [hclosed] at hopen
      cases hopen
    · exact ⟨hclosed, hpc, by omega, hempty⟩

/-- One of 349525 connections that share a megabyte, two bytes a call. -/
def manyConns (mode : Mode) : Driver.Config where
  mode := mode
  conns := 349525
  msgs := 0
  size := 2
  pipeline := 16
  mb := 1
  conns_pos := by decide
  size_pos := Nat.two_pos
  pipeline_pos := by decide

theorem manyConns_fits (mode : Mode) : (manyConns mode).Fits := by
  constructor <;> simp [manyConns]

/-- The share is three bytes. -/
def threeBytes (mode : Mode) (cap : Nat) (hcap : 1 ≤ cap) : Link :=
  { manyConns mode with cap := cap, fits := manyConns_fits mode, cap_pos := hcap }

/-- Three bytes go to a sink through a pipe that holds one. -/
def threeSent : List Act × State :=
  (System.replay (System.labelled (sendSink (threeBytes .send 1 Nat.one_pos)) fun _ a _ => a)
    (initial (threeBytes .send 1 Nat.one_pos))
    [.driver 1, .server 1, .driver 1, .server 1, .driver 1, .close, .server 1, .serverEnd]).get
    (by decide +kernel)

/-- The sink has read them all when it returns, and the connection is closed. -/
theorem sink_reads_share_threeBytes :
    ∃ s, (sink (threeBytes .send 1 Nat.one_pos)).Run
        [.driver 1, .server 1, .driver 1, .server 1, .driver 1, .close, .server 1, .serverEnd] s ∧
      s.returned = true ∧ s.closed = true ∧ s.conn.pc = .assign none ∧
      s.served = share (threeBytes .send 1 Nat.one_pos) ∧ s.pipe = 0 ∧ s.served = 3 := by
  have h : (sink (threeBytes .send 1 Nat.one_pos)).Run threeSent.1 threeSent.2 :=
    System.Run.of_labelled (T := sink _) (by intro _ _ _ ha; exact ha) rfl
      (Option.some_get _).symm
  have hlabels : threeSent.1 = [.driver 1, .server 1, .driver 1, .server 1, .driver 1, .close,
      .server 1, .serverEnd] := by decide +kernel
  have hreturned : threeSent.2.returned = true := by decide +kernel
  obtain ⟨hclosed, hpc, hserved, hempty⟩ := (sink_reads_share rfl h).2.2.2 hreturned
  exact ⟨_, hlabels ▸ h, hreturned, hclosed, hpc, hserved, hempty, by decide +kernel⟩

/-! ## `recv` from a source -/

/-- What was read and what is in the pipe is what the source has written. -/
structure RecvInv (link : Link) (s : State) : Prop where
  driver : (s.conn.pc = .recv ∧ 0 < s.conn.left ∧ (s.conn.read : Int) + s.conn.left = share link ∧
      s.closed = false) ∨
    (s.conn.pc = .assign none ∧ s.conn.read = share link)
  bytes : s.served = s.conn.read + s.pipe
  pipe : s.pipe ≤ link.cap
  pos : s.pos < bufSize
  returned : s.returned = true → s.closed = true

/-- The loop goes on, or all bytes were read and `work` returns `nil`. -/
theorem recvLoop_driver {g : Conn} (hleft : 0 ≤ g.left)
    (hread : (g.read : Int) + g.left = share link) :
    ((Config.recvLoop g).pc = .recv ∧ 0 < (Config.recvLoop g).left ∧
        ((Config.recvLoop g).read : Int) + (Config.recvLoop g).left = share link) ∨
      ((Config.recvLoop g).pc = .assign none ∧ (Config.recvLoop g).read = share link) := by
  unfold Config.recvLoop
  by_cases hlt : 0 < g.left
  · rw [if_pos hlt]
    exact .inl ⟨rfl, hlt, hread⟩
  · rw [if_neg hlt, Config.recvResult, if_neg hlt]
    exact .inr ⟨rfl, by simp only; omega⟩

theorem initial_recvInv (hm : link.mode = .recv) : RecvInv link (initial link) := by
  have henter : link.enter idle = Config.recvLoop { idle with left := link.perConn } := by
    rw [Config.enter, hm]
  have hshare := perConn_share link
  have hloop := @recvLoop_driver link { idle with left := link.perConn }
    (by simp only; omega) (by simp only [idle]; omega)
  refine ⟨?_, ?_, Nat.zero_le _, by simp [initial, bufSize], by simp [initial]⟩
  · rw [initial, henter]
    rcases hloop with ⟨hpc, hleft, hread⟩ | hdone
    · exact .inl ⟨hpc, hleft, hread, rfl⟩
    · exact .inr hdone
  · rw [initial, henter]
    rfl

/-- What a step of `recv` and `source` is. -/
theorem recvSource_cases (h : recvSource link s a = some s') :
    (∃ k : Nat, s.conn.pc = .recv ∧ 1 ≤ k ∧ (k : Int) ≤ link.chunk s.conn.left ∧ k ≤ s.pipe ∧
      s' = { s with
        conn := Config.recvLoop { s.conn with
          read := s.conn.read + k, left := s.conn.left - k }
        pipe := s.pipe - k }) ∨
    (s.closed = false ∧ (∃ r, s.conn.pc = .assign r) ∧ s' = { s with closed := true }) ∨
    (∃ k, s.returned = false ∧ s.closed = false ∧ 1 ≤ k ∧ s.pos + k ≤ bufSize ∧
      s.pipe + k ≤ link.cap ∧ s' = { s with
        pipe := s.pipe + k
        served := s.served + k
        pos := if s.pos + k = bufSize then 0 else s.pos + k }) ∨
    (s.returned = false ∧ s.closed = true ∧ s' = { s with returned := true }) := by
  cases a with
  | driver k =>
      simp only [recvSource] at h
      split at h
      case isFalse => cases h
      case isTrue hc =>
        obtain ⟨hpc, hk, hle, havail⟩ := hc
        have hio : link.io s.conn k false = some (Config.recvLoop { s.conn with
            read := s.conn.read + k, left := s.conn.left - k }) := by
          simp [Config.io, hpc, hle]
        rw [hio] at h
        exact .inl ⟨k, hpc, hk, hle, havail, (Option.some.inj h).symm⟩
  | close => exact .inr (.inl (closeConn_cases h))
  | server k =>
      simp only [recvSource] at h
      split at h
      case isFalse => cases h
      case isTrue hc =>
        exact .inr (.inr (.inl ⟨k, hc.1, hc.2.1, hc.2.2.1, hc.2.2.2.1, hc.2.2.2.2,
          (Option.some.inj h).symm⟩))
  | serverEnd =>
      simp only [recvSource] at h
      split at h
      case isFalse => cases h
      case isTrue hc =>
        exact .inr (.inr (.inr ⟨hc.1, hc.2, (Option.some.inj h).symm⟩))

theorem recvSource_inv (hi : RecvInv link s) (h : recvSource link s a = some s') :
    RecvInv link s' := by
  obtain ⟨hdriver, hbytes, hpipe, hpos, hreturned⟩ := hi
  rcases recvSource_cases h with ⟨k, hpc, hk, hle, havail, rfl⟩ | ⟨hopen, ⟨r, hr⟩, rfl⟩ |
    ⟨k, hret, hopen, hk, hbuf, hroom, rfl⟩ | ⟨hret, hclosed, rfl⟩
  · rcases hdriver with ⟨-, hleft, hread, hopen⟩ | ⟨hpc', -⟩
    · have hchunk := chunk_le link.toConfig s.conn.left
      have hloop := @recvLoop_driver link { s.conn with
          read := s.conn.read + k, left := s.conn.left - k }
        (by simp only; omega) (by simp only; omega)
      refine ⟨?_, ?_, ?_, hpos, hreturned⟩
      · rcases hloop with ⟨h₁, h₂, h₃⟩ | hdone
        · exact .inl ⟨h₁, h₂, h₃, hopen⟩
        · exact .inr hdone
      · simp only [Config.recvLoop]
        omega
      · simp only
        omega
    · rw [hpc] at hpc'
      cases hpc'
  · rcases hdriver with ⟨hpc, -⟩ | hdone
    · rw [hpc] at hr
      cases hr
    · exact ⟨.inr hdone, hbytes, hpipe, hpos, fun _ => rfl⟩
  · refine ⟨hdriver, ?_, hroom, ?_, hreturned⟩
    · simp only
      omega
    · simp only
      split <;> omega
  · exact ⟨hdriver, hbytes, hpipe, hpos, fun _ => hclosed⟩

theorem source_inv (hm : link.mode = .recv) (h : (source link).Reachable s) : RecvInv link s := by
  refine System.Reachable.invariant ?_ ?_ h
  · rintro _ rfl
    exact initial_recvInv hm
  · intro s a s' hi hstep
    exact recvSource_inv hi hstep

/-- The bytes to read, the bytes the source can still write, and the ends that are left. -/
def recvRank (link : Link) (s : State) : Nat :=
  (share link - s.conn.read) + (share link + link.cap - s.served) + s.ends

/-- A source never writes more than the share and what fits into the pipe. -/
theorem RecvInv.served_le (hi : RecvInv link s) : s.served ≤ share link + link.cap := by
  have hbytes := hi.bytes
  have hpipe := hi.pipe
  rcases hi.driver with ⟨-, hleft, hread, -⟩ | ⟨-, hread⟩ <;> omega

theorem recvSource_rank (hi : RecvInv link s) (h : recvSource link s a = some s') :
    recvRank link s' < recvRank link s := by
  have hserved := (recvSource_inv hi h).served_le
  have hchunk := chunk_le link.toConfig s.conn.left
  unfold recvRank
  rcases recvSource_cases h with ⟨k, hpc, hk, hle, havail, rfl⟩ | ⟨hopen, -, rfl⟩ |
    ⟨k, hret, hopen, hk, hbuf, hroom, rfl⟩ | ⟨hret, hclosed, rfl⟩
  · rcases hi.driver with ⟨-, hleft, hread, -⟩ | ⟨hpc', -⟩
    · simp only [State.ends, Config.recvLoop]
      omega
    · rw [hpc] at hpc'
      cases hpc'
  · simp only [State.ends, hopen]
    simp
  · simp only [State.ends] at hserved ⊢
    omega
  · simp only [State.ends, hret]
    simp

theorem RecvInv.progress (hi : RecvInv link s) (hrun : ¬ s.Finished) :
    ∃ a s', (source link).step s a s' := by
  obtain ⟨hdriver, hbytes, hpipe, hpos, hreturned⟩ := hi
  have hsome : ∀ {a}, (recvSource link s a).isSome → ∃ a s', (source link).step s a s' := by
    intro a ha
    obtain ⟨s', hs'⟩ := Option.isSome_iff_exists.1 ha
    exact ⟨a, s', hs'⟩
  have hcap := link.cap_pos
  rcases hdriver with ⟨hpc, hleft, hread, hopen⟩ | ⟨hpc, hread⟩
  · have hchunk : 0 < link.chunk s.conn.left := chunk_pos hleft
    by_cases havail : 0 < s.pipe
    · apply hsome (a := .driver 1)
      have hone : ((1 : Nat) : Int) ≤ link.chunk s.conn.left := by omega
      have hguard : s.conn.pc = .recv ∧ 1 ≤ 1 ∧ ((1 : Nat) : Int) ≤ link.chunk s.conn.left ∧
          1 ≤ s.pipe := ⟨hpc, Nat.le_refl 1, hone, havail⟩
      rw [recvSource, if_pos hguard]
      simp [Config.io, hpc]
      omega
    · -- the driver waits for a byte, and the pipe has room for it
      have hret : s.returned = false := by
        rw [Bool.eq_false_iff]
        intro hr
        rw [hreturned hr] at hopen
        cases hopen
      apply hsome (a := .server 1)
      have hguard : s.returned = false ∧ s.closed = false ∧ 1 ≤ 1 ∧ s.pos + 1 ≤ bufSize ∧
          s.pipe + 1 ≤ link.cap := ⟨hret, hopen, Nat.le_refl 1, hpos, by omega⟩
      rw [recvSource, if_pos hguard]
      rfl
  · cases hclosed : s.closed with
    | false => exact hsome (a := .close) (by simp [recvSource, closeConn, hpc, hclosed])
    | true =>
        have hret : s.returned = false := by
          rw [Bool.eq_false_iff]
          exact fun hr => hrun ⟨hclosed, hr⟩
        exact hsome (a := .serverEnd) (by simp [recvSource, hret, hclosed])

/-- The driver reads its share from a source. Until both are done one of them can go on, for a
bounded number of steps; the source never runs ahead by more than the pipe holds; a driver that has
returned has read the share of the connection to the byte and reports no error; and the handler
returns only when the driver has closed the connection. -/
theorem source_fills_share (hm : link.mode = .recv) (h : (source link).Run tr s) :
    (¬ s.Finished → ∃ a s', (source link).step s a s') ∧
    tr.length ≤ 2 * share link + link.cap + 2 ∧
    s.served ≤ s.conn.read + link.cap ∧ s.conn.read ≤ share link ∧
    (∀ r, s.conn.pc = .assign r → r = none ∧ s.conn.read = share link) ∧
    (s.returned = true → s.closed = true ∧ s.conn.pc = .assign none) := by
  have hi := source_inv hm h.reachable
  have hbytes := hi.bytes
  have hpipe := hi.pipe
  refine ⟨hi.progress, ?_, by omega, ?_, fun r hr => ?_, fun hr => ?_⟩
  · obtain ⟨a, rfl, hp⟩ := h
    have hlength := hp.length_le (μ := recvRank link)
      (fun _ _ _ hr hstep => recvSource_rank (source_inv hm hr) hstep)
      (System.Run.nil rfl).reachable
    have hinit : recvRank link (initial link) ≤ 2 * share link + link.cap + 2 := by
      simp only [recvRank, initial, State.ends]
      simp
      omega
    omega
  · rcases hi.driver with ⟨-, hleft, hread, -⟩ | ⟨-, hread⟩ <;> omega
  · rcases hi.driver with ⟨hpc, -⟩ | ⟨hpc, hread⟩
    · rw [hpc] at hr
      cases hr
    · rw [hpc] at hr
      cases hr
      exact ⟨rfl, hread⟩
  · have hclosed := hi.returned hr
    rcases hi.driver with ⟨-, -, -, hopen⟩ | ⟨hpc, -⟩
    · rw [hclosed] at hopen
      cases hopen
    · exact ⟨hclosed, hpc⟩

/-- A source fills a pipe of four bytes, and is a byte ahead when the driver has its share. -/
def threeRead : List Act × State :=
  (System.replay (System.labelled (recvSource (threeBytes .recv 4 (by decide))) fun _ a _ => a)
    (initial (threeBytes .recv 4 (by decide)))
    [.server 3, .driver 1, .server 1, .driver 2, .close, .serverEnd]).get (by decide +kernel)

/-- The driver has read its share, reports no error, and has closed the connection. -/
theorem source_fills_share_threeBytes :
    ∃ s, (source (threeBytes .recv 4 (by decide))).Run
        [.server 3, .driver 1, .server 1, .driver 2, .close, .serverEnd] s ∧
      s.returned = true ∧ s.closed = true ∧ s.conn.pc = .assign none ∧
      s.conn.read = share (threeBytes .recv 4 (by decide)) ∧ s.conn.read = 3 ∧ s.served = 4 := by
  have h : (source (threeBytes .recv 4 (by decide))).Run threeRead.1 threeRead.2 :=
    System.Run.of_labelled (T := source _) (by intro _ _ _ ha; exact ha) rfl
      (Option.some_get _).symm
  have hlabels : threeRead.1 = [.server 3, .driver 1, .server 1, .driver 2, .close,
      .serverEnd] := by decide +kernel
  have hreturned : threeRead.2.returned = true := by decide +kernel
  obtain ⟨-, -, -, -, hassign, hclosed⟩ := source_fills_share rfl h
  obtain ⟨hclosed, hpc⟩ := hclosed hreturned
  exact ⟨_, hlabels ▸ h, hreturned, hclosed, hpc, (hassign none hpc).2, by decide +kernel,
    by decide +kernel⟩

end ZioBenchmarks.Tcp
