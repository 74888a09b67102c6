import ZioBenchmarks.Transition.Runs

/-!
# The pipelined echo

`work` of `tcp_driver.go` in echo mode against the echo handlers of the TCP servers, over one
connection: two lossless pipes of bytes with finite capacities. Every transfer moves some of the
bytes that are there into some of the room that is there. The driver fills a window of
`min pipeline msgs` messages before it reads anything, and keeps it full afterwards.
-/

set_option autoImplicit false

namespace ZioBenchmarks.Echo

open ZioBenchmarks.Transition

/-- The buffer of the server, in bytes. -/
def bufSize : Nat := 64 * 1024

/-- The arguments of the driver, which `main` checks, and the capacities of the two pipes. The bytes
of a full window fit into the pipes. -/
structure Config where
  msgs : Nat
  size : Nat
  pipeline : Nat
  toServerCap : Nat
  toDriverCap : Nat
  size_pos : 1 ≤ size
  pipeline_pos : 1 ≤ pipeline
  toServerCap_pos : 1 ≤ toServerCap
  toDriverCap_pos : 1 ≤ toDriverCap
  window_fits : min pipeline msgs * size ≤ toServerCap + toDriverCap

/-- `inflight := pipeline; if inflight > msgs { inflight = msgs }`. -/
def Config.inflight (cfg : Config) : Nat :=
  if cfg.msgs < cfg.pipeline then cfg.msgs else cfg.pipeline

/-- The call the driver is in, with the bytes of its message it has transferred. -/
inductive Pc where
  /-- `c.Write(buf)` before the loop. -/
  | fill (off : Nat)
  /-- `io.ReadFull(c, buf)`. -/
  | readFull (off : Nat)
  /-- `c.Write(buf)` in the loop. -/
  | write (off : Nat)
  | returned
  deriving DecidableEq, Repr

/-- The locals of the driver, the two pipes, and what the server has read and not written back. -/
structure State where
  pc : Pc
  sent : Nat
  got : Nat
  buf : List UInt8
  toServer : List UInt8
  pending : List UInt8
  toDriver : List UInt8

/-- `for got < msgs`. -/
def Config.loop (cfg : Config) (got : Nat) : Pc :=
  if got < cfg.msgs then .readFull 0 else .returned

/-- `for ; sent < inflight; sent++`, and the loop behind it. -/
def Config.start (cfg : Config) (sent : Nat) : Pc :=
  if sent < cfg.inflight then .fill 0 else cfg.loop 0

/-- The bytes a transfer moved. -/
inductive Label where
  | wrote (bs : List UInt8)
  | read (bs : List UInt8)
  | serverRead (bs : List UInt8)
  | serverWrote (bs : List UInt8)
  deriving DecidableEq, Repr

/-- What can happen next: a transfer of `k` bytes. -/
inductive Act where
  | driver (k : Nat)
  | serverRead (k : Nat)
  | serverWrite (k : Nat)
  deriving DecidableEq, Repr

/-- `k` more bytes of a message are written, and with the last of them `sent++`. -/
def State.write (s : State) (size off k : Nat) (more done : Pc) : State :=
  { s with
    toServer := s.toServer ++ (s.buf.drop off).take k
    sent := if off + k < size then s.sent else s.sent + 1
    pc := if off + k < size then more else done }

/-- `k` more bytes of a message are read, and with the last of them `got++`. -/
def State.read (s : State) (size off k : Nat) (more done : Pc) : State :=
  { s with
    buf := s.buf.take off ++ s.toDriver.take k ++ s.buf.drop (off + k)
    toDriver := s.toDriver.drop k
    got := if off + k < size then s.got else s.got + 1
    pc := if off + k < size then more else done }

/-- Effect of a transfer, if there are `k` bytes to move and room for them. -/
def act (cfg : Config) (s : State) : Act → Option (Label × State)
  | .driver k =>
      match s.pc with
      | .fill off =>
          if 1 ≤ k ∧ off + k ≤ cfg.size ∧ s.toServer.length + k ≤ cfg.toServerCap then
            some (.wrote ((s.buf.drop off).take k),
              s.write cfg.size off k (.fill (off + k)) (cfg.start (s.sent + 1)))
          else none
      | .readFull off =>
          if 1 ≤ k ∧ off + k ≤ cfg.size ∧ k ≤ s.toDriver.length then
            some (.read (s.toDriver.take k),
              s.read cfg.size off k (.readFull (off + k))
                (if s.sent < cfg.msgs then .write 0 else cfg.loop (s.got + 1)))
          else none
      | .write off =>
          if 1 ≤ k ∧ off + k ≤ cfg.size ∧ s.toServer.length + k ≤ cfg.toServerCap then
            some (.wrote ((s.buf.drop off).take k),
              s.write cfg.size off k (.write (off + k)) (cfg.loop s.got))
          else none
      | .returned => none
  -- the server reads only once everything it has read is written back
  | .serverRead k =>
      if s.pending = [] ∧ 1 ≤ k ∧ k ≤ bufSize ∧ k ≤ s.toServer.length then
        some (.serverRead (s.toServer.take k),
          { s with pending := s.toServer.take k, toServer := s.toServer.drop k })
      else none
  | .serverWrite k =>
      if 1 ≤ k ∧ k ≤ s.pending.length ∧ s.toDriver.length + k ≤ cfg.toDriverCap then
        some (.serverWrote (s.pending.take k),
          { s with pending := s.pending.drop k, toDriver := s.toDriver ++ s.pending.take k })
      else none

/-- The driver starts with a buffer of zeros, and both pipes are empty. -/
def initial (cfg : Config) : State :=
  ⟨cfg.start 0, 0, 0, List.replicate cfg.size 0, [], [], []⟩

/-- The driver, the server and the pipes between them. -/
def system (cfg : Config) : System State Label where
  init s := s = initial cfg
  step s l s' := ∃ a, act cfg s a = some (l, s')

/-- The bytes the driver has written. -/
def written (tr : List Label) : List UInt8 :=
  tr.flatMap fun
    | .wrote bs => bs
    | _ => []

/-- The bytes the driver has read. -/
def received (tr : List Label) : List UInt8 :=
  tr.flatMap fun
    | .read bs => bs
    | _ => []

variable {cfg : Config} {tr : List Label} {s s' : State} {l : Label}

theorem written_snoc : written (tr ++ [l]) = written tr ++ written [l] := List.flatMap_append ..

theorem received_snoc : received (tr ++ [l]) = received tr ++ received [l] := List.flatMap_append ..

@[simp] theorem written_wrote (bs : List UInt8) : written [.wrote bs] = bs := List.append_nil bs

@[simp] theorem written_read (bs : List UInt8) : written [.read bs] = [] := rfl

@[simp] theorem written_serverRead (bs : List UInt8) : written [.serverRead bs] = [] := rfl

@[simp] theorem written_serverWrote (bs : List UInt8) : written [.serverWrote bs] = [] := rfl

@[simp] theorem received_wrote (bs : List UInt8) : received [.wrote bs] = [] := rfl

@[simp] theorem received_read (bs : List UInt8) : received [.read bs] = bs := List.append_nil bs

@[simp] theorem received_serverRead (bs : List UInt8) : received [.serverRead bs] = [] := rfl

@[simp] theorem received_serverWrote (bs : List UInt8) : received [.serverWrote bs] = [] := rfl

theorem inflight_eq (cfg : Config) : cfg.inflight = min cfg.pipeline cfg.msgs := by
  unfold Config.inflight
  split <;> omega

/-- What the driver has done where it is: `w` bytes written and `r` bytes read. -/
def At (cfg : Config) (s : State) (w r : Nat) : Pc → Prop
  | .fill off =>
      off < cfg.size ∧ s.got = 0 ∧ s.sent < cfg.inflight ∧ w = s.sent * cfg.size + off ∧ r = 0
  | .readFull off =>
      off < cfg.size ∧ s.got < cfg.msgs ∧ s.sent = min (s.got + cfg.inflight) cfg.msgs ∧
        w = s.sent * cfg.size ∧ r = s.got * cfg.size + off
  | .write off =>
      off < cfg.size ∧ s.sent < cfg.msgs ∧ s.sent + 1 = s.got + cfg.inflight ∧
        w = s.sent * cfg.size + off ∧ r = s.got * cfg.size
  | .returned =>
      s.sent = cfg.msgs ∧ s.got = cfg.msgs ∧ w = cfg.msgs * cfg.size ∧ r = cfg.msgs * cfg.size

/-- The bytes written and not read are in the pipes and in the server, in order. -/
structure Inv (cfg : Config) (tr : List Label) (s : State) : Prop where
  stream : written tr = received tr ++ s.toDriver ++ s.pending ++ s.toServer
  buf : s.buf.length = cfg.size
  toServer : s.toServer.length ≤ cfg.toServerCap
  toDriver : s.toDriver.length ≤ cfg.toDriverCap
  driver : At cfg s (written tr).length (received tr).length s.pc

/-- The loop is entered, or entered again. -/
theorem at_loop (hgot : s.got ≤ cfg.msgs) (hsent : s.sent = min (s.got + cfg.inflight) cfg.msgs) :
    At cfg s (s.sent * cfg.size) (s.got * cfg.size) (cfg.loop s.got) := by
  unfold Config.loop
  split
  case isTrue hlt => exact ⟨cfg.size_pos, hlt, hsent, rfl, rfl⟩
  case isFalse hge =>
    have hg : s.got = cfg.msgs := by omega
    have hs : s.sent = cfg.msgs := by omega
    exact ⟨hs, hg, by rw [hs], by rw [hg]⟩

/-- The window is filled, or filled further. -/
theorem at_start (hgot : s.got = 0) (hsent : s.sent ≤ cfg.inflight) :
    At cfg s (s.sent * cfg.size) 0 (cfg.start s.sent) := by
  unfold Config.start
  split
  case isTrue hlt => exact ⟨cfg.size_pos, hgot, hlt, rfl, rfl⟩
  case isFalse hge =>
    have hmin := inflight_eq cfg
    have h := @at_loop cfg s (by omega) (by omega)
    rwa [hgot, Nat.zero_mul] at h

theorem initial_inv (cfg : Config) : Inv cfg [] (initial cfg) where
  stream := rfl
  buf := List.length_replicate ..
  toServer := Nat.zero_le _
  toDriver := Nat.zero_le _
  driver := by
    have h := @at_start cfg (initial cfg) rfl (Nat.zero_le _)
    rwa [show (initial cfg).sent = 0 from rfl, Nat.zero_mul] at h

/-- A write keeps the account of the bytes, whatever the driver does next. -/
theorem Inv.write (hi : Inv cfg tr s) {off k : Nat} {more done : Pc} (hk : off + k ≤ cfg.size)
    (hroom : s.toServer.length + k ≤ cfg.toServerCap)
    (hmore : off + k < cfg.size → At cfg (s.write cfg.size off k more done)
      ((written tr).length + k) (received tr).length more)
    (hdone : off + k = cfg.size → At cfg (s.write cfg.size off k more done)
      ((written tr).length + k) (received tr).length done) :
    Inv cfg (tr ++ [.wrote ((s.buf.drop off).take k)]) (s.write cfg.size off k more done) where
  stream := by
    have hstream := hi.stream
    rw [written_snoc, received_snoc, hstream]
    simp [State.write]
  buf := hi.buf
  toServer := by
    simp only [State.write, List.length_append, List.length_take, List.length_drop]
    omega
  toDriver := hi.toDriver
  driver := by
    have hlen : ((s.buf.drop off).take k).length = k := by
      rw [List.length_take, List.length_drop, hi.buf]
      omega
    rw [written_snoc, received_snoc, List.length_append, List.length_append, written_wrote,
      received_wrote, hlen]
    -- a partial write stays in the message, a complete one goes to the next control point
    by_cases hlt : off + k < cfg.size
    · have hpc : (s.write cfg.size off k more done).pc = more := if_pos hlt
      rw [hpc]
      exact hmore hlt
    · have hpc : (s.write cfg.size off k more done).pc = done := if_neg hlt
      rw [hpc]
      exact hdone (by omega)

/-- So does a read. -/
theorem Inv.read (hi : Inv cfg tr s) {off k : Nat} {more done : Pc} (hk : off + k ≤ cfg.size)
    (havail : k ≤ s.toDriver.length)
    (hmore : off + k < cfg.size → At cfg (s.read cfg.size off k more done)
      (written tr).length ((received tr).length + k) more)
    (hdone : off + k = cfg.size → At cfg (s.read cfg.size off k more done)
      (written tr).length ((received tr).length + k) done) :
    Inv cfg (tr ++ [.read (s.toDriver.take k)]) (s.read cfg.size off k more done) where
  stream := by
    have hstream := hi.stream
    rw [written_snoc, received_snoc, hstream]
    simp only [State.read, written_read, received_read, List.append_nil, List.append_assoc]
    -- what was read and what is left of the pipe are the old pipe
    rw [← List.append_assoc (s.toDriver.take k), List.take_append_drop]
  buf := by
    have hbuf := hi.buf
    simp only [State.read, List.length_append, List.length_take, List.length_drop]
    omega
  toServer := hi.toServer
  toDriver := by
    have hcap := hi.toDriver
    simp only [State.read, List.length_drop]
    omega
  driver := by
    have hlen : (s.toDriver.take k).length = k := by
      rw [List.length_take]
      omega
    rw [written_snoc, received_snoc, List.length_append, List.length_append, written_read,
      received_read, hlen]
    by_cases hlt : off + k < cfg.size
    · have hpc : (s.read cfg.size off k more done).pc = more := if_pos hlt
      rw [hpc]
      exact hmore hlt
    · have hpc : (s.read cfg.size off k more done).pc = done := if_neg hlt
      rw [hpc]
      exact hdone (by omega)

/-- Bytes that move inside of the server keep it, too. -/
theorem Inv.server (hi : Inv cfg tr s) (hwritten : written [l] = []) (hreceived : received [l] = [])
    (hpc : s'.pc = s.pc) (hsent : s'.sent = s.sent) (hgot : s'.got = s.got) (hbuf : s'.buf = s.buf)
    (hbytes : s'.toDriver ++ s'.pending ++ s'.toServer = s.toDriver ++ s.pending ++ s.toServer)
    (hserver : s'.toServer.length ≤ cfg.toServerCap)
    (hdriver : s'.toDriver.length ≤ cfg.toDriverCap) : Inv cfg (tr ++ [l]) s' where
  stream := by
    have hstream := hi.stream
    simp only [List.append_assoc] at hbytes hstream ⊢
    rw [written_snoc, received_snoc, hwritten, hreceived, List.append_nil, List.append_nil, hbytes,
      hstream]
  buf := by rw [hbuf, hi.buf]
  toServer := hserver
  toDriver := hdriver
  driver := by
    have hat := hi.driver
    rw [written_snoc, received_snoc, hwritten, hreceived, List.append_nil, List.append_nil, hpc]
    cases hp : s.pc <;> simpa [At, hp, hsent, hgot] using hat

section Messages

variable {off k w r : Nat} {more done : Pc}

theorem write_sent_more (hlt : off + k < cfg.size) :
    (s.write cfg.size off k more done).sent = s.sent := if_pos hlt

theorem write_sent_done (heq : off + k = cfg.size) :
    (s.write cfg.size off k more done).sent = s.sent + 1 := if_neg (by omega)

theorem read_got_more (hlt : off + k < cfg.size) :
    (s.read cfg.size off k more done).got = s.got := if_pos hlt

theorem read_got_done (heq : off + k = cfg.size) :
    (s.read cfg.size off k more done).got = s.got + 1 := if_neg (by omega)

/-- A write before the loop. -/
theorem at_fill (h : At cfg s w r (.fill off)) :
    (off + k < cfg.size → At cfg (s.write cfg.size off k more done) (w + k) r (.fill (off + k))) ∧
    (off + k = cfg.size → At cfg (s.write cfg.size off k more done) (w + k) r
      (cfg.start (s.sent + 1))) := by
  obtain ⟨hoff, hgot, hsent, rfl, rfl⟩ := h
  refine ⟨fun hlt => ?_, fun heq => ?_⟩
  · have hs := @write_sent_more cfg s off k more done hlt
    exact ⟨hlt, hgot, by rwa [hs], by rw [hs, Nat.add_assoc], rfl⟩
  · have hs := @write_sent_done cfg s off k more done heq
    have hnext := @at_start cfg (s.write cfg.size off k more done) hgot (by omega)
    rw [hs, Nat.succ_mul] at hnext
    rwa [Nat.add_assoc, heq]

/-- A write in the loop. -/
theorem at_write (h : At cfg s w r (.write off)) :
    (off + k < cfg.size → At cfg (s.write cfg.size off k more done) (w + k) r (.write (off + k))) ∧
    (off + k = cfg.size → At cfg (s.write cfg.size off k more done) (w + k) r
      (cfg.loop s.got)) := by
  obtain ⟨hoff, hsent, hwindow, rfl, rfl⟩ := h
  have hmin := inflight_eq cfg
  refine ⟨fun hlt => ?_, fun heq => ?_⟩
  · have hs := @write_sent_more cfg s off k more done hlt
    exact ⟨hlt, by rwa [hs], by rwa [hs], by rw [hs, Nat.add_assoc], rfl⟩
  · have hs := @write_sent_done cfg s off k more done heq
    have hgot : (s.write cfg.size off k more done).got = s.got := rfl
    have hnext := @at_loop cfg (s.write cfg.size off k more done) (by omega) (by omega)
    rw [hs, Nat.succ_mul] at hnext
    rwa [Nat.add_assoc, heq]

/-- A read in the loop. -/
theorem at_readFull (h : At cfg s w r (.readFull off)) :
    (off + k < cfg.size → At cfg (s.read cfg.size off k more done) w (r + k)
      (.readFull (off + k))) ∧
    (off + k = cfg.size → At cfg (s.read cfg.size off k more done) w (r + k)
      (if s.sent < cfg.msgs then .write 0 else cfg.loop (s.got + 1))) := by
  obtain ⟨hoff, hgot, hsent, rfl, rfl⟩ := h
  refine ⟨fun hlt => ?_, fun heq => ?_⟩
  · have hg := @read_got_more cfg s off k more done hlt
    exact ⟨hlt, by rwa [hg], by rwa [hg], rfl, by rw [hg, Nat.add_assoc]⟩
  · have hg := @read_got_done cfg s off k more done heq
    have hs : (s.read cfg.size off k more done).sent = s.sent := rfl
    rw [Nat.add_assoc, heq]
    split
    case isTrue hlt =>
      refine ⟨cfg.size_pos, hlt, ?_, rfl, ?_⟩
      · omega
      · rw [hg, Nat.succ_mul]
    case isFalse hge =>
      have hnext := @at_loop cfg (s.read cfg.size off k more done) (by omega) (by omega)
      rwa [hg, Nat.succ_mul] at hnext

end Messages

theorem act_inv (hi : Inv cfg tr s) {a : Act} (h : act cfg s a = some (l, s')) :
    Inv cfg (tr ++ [l]) s' := by
  have hat := hi.driver
  cases a with
  | driver k =>
      cases hp : s.pc with
      | fill off =>
          simp only [act, hp] at h
          rw [hp] at hat
          split at h
          case isFalse => simp at h
          case isTrue hc =>
            simp only [Option.some.injEq, Prod.mk.injEq] at h
            obtain ⟨rfl, rfl⟩ := h
            exact hi.write hc.2.1 hc.2.2 (at_fill hat).1 (at_fill hat).2
      | readFull off =>
          simp only [act, hp] at h
          rw [hp] at hat
          split at h
          case isFalse => simp at h
          case isTrue hc =>
            simp only [Option.some.injEq, Prod.mk.injEq] at h
            obtain ⟨rfl, rfl⟩ := h
            exact hi.read hc.2.1 hc.2.2 (at_readFull hat).1 (at_readFull hat).2
      | write off =>
          simp only [act, hp] at h
          rw [hp] at hat
          split at h
          case isFalse => simp at h
          case isTrue hc =>
            simp only [Option.some.injEq, Prod.mk.injEq] at h
            obtain ⟨rfl, rfl⟩ := h
            exact hi.write hc.2.1 hc.2.2 (at_write hat).1 (at_write hat).2
      | returned => simp [act, hp] at h
  | serverRead k =>
      simp only [act] at h
      split at h
      case isFalse => simp at h
      case isTrue hc =>
        simp only [Option.some.injEq, Prod.mk.injEq] at h
        obtain ⟨rfl, rfl⟩ := h
        have hcap := hi.toServer
        -- the bytes only move from the pipe into the buffer of the server
        refine hi.server rfl rfl rfl rfl rfl rfl ?_ ?_ hi.toDriver
        · simp [hc.1]
        · rw [List.length_drop]
          omega
  | serverWrite k =>
      simp only [act] at h
      split at h
      case isFalse => simp at h
      case isTrue hc =>
        simp only [Option.some.injEq, Prod.mk.injEq] at h
        obtain ⟨rfl, rfl⟩ := h
        -- the bytes only move from the buffer of the server into the pipe
        refine hi.server rfl rfl rfl rfl rfl rfl ?_ hi.toServer ?_
        · simp only [List.append_assoc]
          rw [← List.append_assoc (s.pending.take k), List.take_append_drop]
        · simp only [List.length_append, List.length_take]
          omega

theorem run_inv (h : (system cfg).Run tr s) : Inv cfg tr s := by
  refine System.Run.invariant (I := Inv cfg) ?_ ?_ h
  · rintro _ rfl
    exact initial_inv cfg
  · rintro tr s l s' - hi ⟨a, ha⟩
    exact act_inv hi ha

/-- The bytes written and not read. -/
theorem Inv.in_flight (hi : Inv cfg tr s) :
    (written tr).length =
      (received tr).length + s.toDriver.length + s.pending.length + s.toServer.length := by
  rw [hi.stream]
  simp only [List.length_append]

/-- A driver in a write has a full window minus one message out at most. -/
theorem At.window {w r off : Nat} (h : At cfg s w r (.fill off) ∨ At cfg s w r (.write off)) :
    w < r + (cfg.toServerCap + cfg.toDriverCap) := by
  have hfits := cfg.window_fits
  rw [← inflight_eq] at hfits
  have hstep : ∀ n, n < cfg.inflight → n * cfg.size + cfg.size ≤ cfg.inflight * cfg.size := by
    intro n hn
    rw [← Nat.succ_mul]
    exact Nat.mul_le_mul_right _ hn
  rcases h with ⟨hoff, -, hsent, rfl, rfl⟩ | ⟨hoff, -, hwindow, rfl, rfl⟩
  · have hle := hstep s.sent hsent
    omega
  · have heq : s.sent * cfg.size + cfg.size = s.got * cfg.size + cfg.inflight * cfg.size := by
      rw [← Nat.add_mul, ← hwindow, Nat.add_mul, Nat.one_mul]
    omega

/-- A driver in a read waits for bytes that are out. -/
theorem At.expects {w r off : Nat} (h : At cfg s w r (.readFull off)) : r < w := by
  obtain ⟨hoff, hgot, hsent, rfl, rfl⟩ := h
  have hmin := inflight_eq cfg
  have hpos := cfg.pipeline_pos
  have hle : (s.got + 1) * cfg.size ≤ s.sent * cfg.size := Nat.mul_le_mul_right _ (by omega)
  rw [Nat.succ_mul] at hle
  omega

/-- Until the driver has returned, some transfer can happen: a driver that cannot write has filled
its pipe, and the server can go on, since the window is not larger than both pipes; a driver that
cannot read has an empty pipe, and the bytes it waits for are in the server or in front of it. -/
theorem Inv.progress (hi : Inv cfg tr s) (hret : s.pc ≠ .returned) :
    ∃ l s', (system cfg).step s l s' := by
  have hat := hi.driver
  have hflight := hi.in_flight
  have hcap₁ := hi.toServer
  have hcap₂ := hi.toDriver
  have hpos₁ := cfg.toServerCap_pos
  have hpos₂ := cfg.toDriverCap_pos
  -- the server can go on with one byte
  have hserver : (s.pending = [] ∧ 0 < s.toServer.length) ∨
      (0 < s.pending.length ∧ s.toDriver.length < cfg.toDriverCap) →
        ∃ l s', (system cfg).step s l s' := by
    rintro (⟨hidle, havail⟩ | ⟨hbusy, hroom⟩)
    · exact ⟨_, _, .serverRead 1, if_pos ⟨hidle, Nat.le_refl 1, by decide, havail⟩⟩
    · exact ⟨_, _, .serverWrite 1, if_pos ⟨Nat.le_refl 1, hbusy, hroom⟩⟩
  have hblocked : s.toServer.length = cfg.toServerCap →
      (written tr).length < (received tr).length + (cfg.toServerCap + cfg.toDriverCap) →
        ∃ l s', (system cfg).step s l s' := by
    intro hfull hlt
    apply hserver
    by_cases hidle : s.pending = []
    · exact .inl ⟨hidle, by omega⟩
    · have hbusy := List.length_pos_iff.2 hidle
      exact .inr ⟨hbusy, by omega⟩
  cases hp : s.pc with
  | fill off =>
      rw [hp] at hat
      by_cases hroom : s.toServer.length < cfg.toServerCap
      · exact ⟨_, _, .driver 1, by
          simp only [act, hp]
          exact if_pos ⟨Nat.le_refl 1, hat.1, hroom⟩⟩
      · exact hblocked (by omega) (At.window (.inl hat))
  | write off =>
      rw [hp] at hat
      by_cases hroom : s.toServer.length < cfg.toServerCap
      · exact ⟨_, _, .driver 1, by
          simp only [act, hp]
          exact if_pos ⟨Nat.le_refl 1, hat.1, hroom⟩⟩
      · exact hblocked (by omega) (At.window (.inr hat))
  | readFull off =>
      rw [hp] at hat
      by_cases havail : 0 < s.toDriver.length
      · exact ⟨_, _, .driver 1, by
          simp only [act, hp]
          exact if_pos ⟨Nat.le_refl 1, hat.1, havail⟩⟩
      · have hlt := At.expects hat
        apply hserver
        by_cases hidle : s.pending = []
        · have hnone : s.pending.length = 0 := by rw [hidle]; rfl
          exact .inl ⟨hidle, by omega⟩
        · exact .inr ⟨List.length_pos_iff.2 hidle, by omega⟩
  | returned => exact absurd hp hret

/-- The window: what the driver has out is between nothing and `min pipeline msgs` messages. -/
theorem Inv.window (hi : Inv cfg tr s) :
    s.got ≤ s.sent ∧ s.sent ≤ s.got + min cfg.pipeline cfg.msgs ∧ s.sent ≤ cfg.msgs := by
  have hat := hi.driver
  have hmin := inflight_eq cfg
  have hpos := cfg.pipeline_pos
  cases hp : s.pc with
  | fill off =>
      rw [hp] at hat
      obtain ⟨-, hgot, hsent, -⟩ := hat
      omega
  | readFull off =>
      rw [hp] at hat
      obtain ⟨-, hgot, hsent, -⟩ := hat
      omega
  | write off =>
      rw [hp] at hat
      obtain ⟨-, hsent, hwindow, -⟩ := hat
      omega
  | returned =>
      rw [hp] at hat
      obtain ⟨hsent, hgot, -⟩ := hat
      omega

/-! ## How long a run is -/

/-- The bytes the driver has written, where it is. -/
def State.out (size : Nat) (s : State) : Nat :=
  match s.pc with
  | .fill off | .write off => s.sent * size + off
  | .readFull _ | .returned => s.sent * size

/-- The bytes the driver has read, where it is. -/
def State.back (size : Nat) (s : State) : Nat :=
  match s.pc with
  | .readFull off => s.got * size + off
  | .fill _ | .write _ | .returned => s.got * size

/-- The transfers that are left: a byte moves into the pipe to the server, into the server, into the
pipe to the driver, and to the driver. -/
def State.rank (cfg : Config) (s : State) : Nat :=
  4 * (cfg.msgs * cfg.size) -
    (s.out cfg.size + 3 * s.back cfg.size + 2 * s.toDriver.length + s.pending.length)

theorem Inv.counts (hi : Inv cfg tr s) :
    s.out cfg.size = (written tr).length ∧ s.back cfg.size = (received tr).length := by
  have hat := hi.driver
  unfold State.out State.back
  cases hp : s.pc with
  | fill off =>
      rw [hp] at hat
      obtain ⟨-, hgot, -, hw, hr⟩ := hat
      exact ⟨hw.symm, by rw [hgot, hr, Nat.zero_mul]⟩
  | readFull off =>
      rw [hp] at hat
      obtain ⟨-, -, -, hw, hr⟩ := hat
      exact ⟨hw.symm, hr.symm⟩
  | write off =>
      rw [hp] at hat
      obtain ⟨-, -, -, hw, hr⟩ := hat
      exact ⟨hw.symm, hr.symm⟩
  | returned =>
      rw [hp] at hat
      obtain ⟨hsent, hgot, hw, hr⟩ := hat
      exact ⟨by rw [hsent, hw], by rw [hgot, hr]⟩

/-- The driver writes no more than the requested bytes. -/
theorem Inv.written_le (hi : Inv cfg tr s) : (written tr).length ≤ cfg.msgs * cfg.size := by
  have hat := hi.driver
  have hmin := inflight_eq cfg
  have hstep : ∀ n off, n < cfg.msgs → off < cfg.size → n * cfg.size + off ≤ cfg.msgs * cfg.size := by
    intro n off hn hoff
    have hle : (n + 1) * cfg.size ≤ cfg.msgs * cfg.size := Nat.mul_le_mul_right _ hn
    rw [Nat.succ_mul] at hle
    omega
  cases hp : s.pc with
  | fill off =>
      rw [hp] at hat
      obtain ⟨hoff, -, hsent, hw, -⟩ := hat
      rw [hw]
      exact hstep _ _ (by omega) hoff
  | readFull off =>
      rw [hp] at hat
      obtain ⟨-, -, hsent, hw, -⟩ := hat
      rw [hw]
      exact Nat.mul_le_mul_right _ (by omega)
  | write off =>
      rw [hp] at hat
      obtain ⟨hoff, hsent, -, hw, -⟩ := hat
      rw [hw]
      exact hstep _ _ hsent hoff
  | returned =>
      rw [hp] at hat
      exact Nat.le_of_eq hat.2.2.1

/-- A transfer moves a byte at least. -/
theorem act_moves (hi : Inv cfg tr s) {a : Act} (h : act cfg s a = some (l, s')) :
    2 * s.toDriver.length + s.pending.length + 1 ≤
      (written [l]).length + 3 * (received [l]).length + 2 * s'.toDriver.length +
        s'.pending.length := by
  have hwrote : ∀ {off k : Nat}, 1 ≤ k → off + k ≤ cfg.size →
      1 ≤ (written [.wrote ((s.buf.drop off).take k)]).length := by
    intro off k hpos hk
    rw [written_wrote, List.length_take, List.length_drop, hi.buf]
    omega
  have hread : ∀ {k : Nat}, 1 ≤ k → k ≤ s.toDriver.length → 2 * s.toDriver.length + 1 ≤
      3 * (received [.read (s.toDriver.take k)]).length + 2 * (s.toDriver.drop k).length := by
    intro k hpos hk
    rw [received_read, List.length_take, List.length_drop]
    omega
  cases a with
  | driver k =>
      cases hp : s.pc with
      | fill off =>
          simp only [act, hp] at h
          split at h
          case isFalse => cases h
          case isTrue hc =>
            have hmoved := hwrote hc.1 hc.2.1
            cases h
            simp only [State.write]
            omega
      | readFull off =>
          simp only [act, hp] at h
          split at h
          case isFalse => cases h
          case isTrue hc =>
            have hmoved := hread hc.1 hc.2.2
            cases h
            simp only [State.read]
            omega
      | write off =>
          simp only [act, hp] at h
          split at h
          case isFalse => cases h
          case isTrue hc =>
            have hmoved := hwrote hc.1 hc.2.1
            cases h
            simp only [State.write]
            omega
      | returned => simp [act, hp] at h
  | serverRead k =>
      simp only [act] at h
      split at h
      case isFalse => cases h
      case isTrue hc =>
        obtain ⟨hidle, hpos, -, hk⟩ := hc
        cases h
        simp only [hidle, List.length_nil, List.length_take]
        omega
  | serverWrite k =>
      simp only [act] at h
      split at h
      case isFalse => cases h
      case isTrue hc =>
        obtain ⟨hpos, hk, -⟩ := hc
        cases h
        simp only [List.length_append, List.length_take, List.length_drop]
        omega

/-- Every transfer brings the end nearer. -/
theorem step_rank (h : (system cfg).Reachable s) (hstep : (system cfg).step s l s') :
    s'.rank cfg < s.rank cfg := by
  obtain ⟨tr, hr⟩ := h
  have hi := run_inv hr
  have hi' := run_inv (hr.snoc hstep)
  obtain ⟨a, ha⟩ := hstep
  have hmoves := act_moves hi ha
  have hle := hi'.written_le
  have hflight := hi'.in_flight
  rw [State.rank, State.rank, hi.counts.1, hi.counts.2, hi'.counts.1, hi'.counts.2]
  rw [written_snoc, received_snoc, List.length_append, List.length_append] at *
  omega

/-- Each of the bytes takes four transfers at most. -/
theorem run_length (h : (system cfg).Run tr s) : tr.length ≤ 4 * (cfg.msgs * cfg.size) := by
  obtain ⟨a, rfl, hp⟩ := h
  have hlength := hp.length_le (μ := State.rank cfg) (fun _ _ _ hr hs => step_rank hr hs)
    (System.Run.nil rfl).reachable
  have hrank : (initial cfg).rank cfg ≤ 4 * (cfg.msgs * cfg.size) := Nat.sub_le _ _
  omega

/-- From every state of a run the exchange can go on until the driver returns. -/
theorem exists_returned (h : (system cfg).Run tr s) :
    ∃ us s', (system cfg).Path s us s' ∧ s'.pc = .returned := by
  refine System.Reachable.exists_final (μ := State.rank cfg) (fun _ _ _ hr hs => step_rank hr hs) ?_
    h.reachable
  rintro t ⟨us, ht⟩ hret
  exact (run_inv ht).progress hret

/-- The echo does not deadlock and exchanges the requested bytes. No state is stuck before the
driver returns; no run has more than four transfers for a byte, and from each of its states the
driver can still return; never more than a window is out; and when the driver returns it has read the
bytes it wrote, `msgs * size` of them, with nothing left in a pipe or in the server. -/
theorem echo_exchanges (h : (system cfg).Run tr s) :
    (s.pc ≠ .returned → ∃ l s', (system cfg).step s l s') ∧
    tr.length ≤ 4 * (cfg.msgs * cfg.size) ∧
    (∃ us s', (system cfg).Path s us s' ∧ s'.pc = .returned) ∧
    (s.got ≤ s.sent ∧ s.sent ≤ s.got + min cfg.pipeline cfg.msgs ∧ s.sent ≤ cfg.msgs) ∧
    (s.pc = .returned →
      (written tr).length = cfg.msgs * cfg.size ∧ (received tr).length = cfg.msgs * cfg.size ∧
        received tr = written tr ∧ s.toServer = [] ∧ s.toDriver = [] ∧ s.pending = []) := by
  have hi := run_inv h
  refine ⟨hi.progress, run_length h, exists_returned h, hi.window, fun hret => ?_⟩
  have hat := hi.driver
  have hflight := hi.in_flight
  rw [hret] at hat
  obtain ⟨-, -, hw, hr⟩ := hat
  have htoServer : s.toServer = [] := List.length_eq_zero_iff.1 (by omega)
  have htoDriver : s.toDriver = [] := List.length_eq_zero_iff.1 (by omega)
  have hpending : s.pending = [] := List.length_eq_zero_iff.1 (by omega)
  refine ⟨hw, hr, ?_, htoServer, htoDriver, hpending⟩
  rw [hi.stream, htoServer, htoDriver, hpending]
  simp

/-- A message of two bytes, and pipes that hold one byte each. -/
def tightPipes : Config :=
  ⟨1, 2, 1, 1, 1, Nat.two_pos, Nat.one_pos, Nat.one_pos, Nat.one_pos, by decide⟩

/-- The driver writes its second byte when the first one is on its way back. -/
def tightPipesRun : List Label × State :=
  (System.replay (act tightPipes) (initial tightPipes)
    [.driver 1, .serverRead 1, .serverWrite 1, .driver 1, .driver 1, .serverRead 1, .serverWrite 1,
      .driver 1]).get rfl

/-- Both bytes go to the server and back, in the four transfers each that they need. -/
theorem echo_exchanges_tightPipes :
    ∃ s, (system tightPipes).Run
        [.wrote [0], .serverRead [0], .serverWrote [0], .wrote [0], .read [0], .serverRead [0],
          .serverWrote [0], .read [0]] s ∧
      s.pc = .returned ∧ s.toServer = [] ∧ s.toDriver = [] ∧ s.pending = [] := by
  have h : (system tightPipes).Run tightPipesRun.1 tightPipesRun.2 :=
    System.Run.of_replay (T := system tightPipes) (fun _ a _ _ ha => ⟨a, ha⟩) rfl
      (Option.some_get _).symm
  exact ⟨_, h, rfl, ((echo_exchanges h).2.2.2.2 rfl).2.2.2⟩

end ZioBenchmarks.Echo
