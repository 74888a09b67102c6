import ZioBenchmarks.Driver.Work
import ZioBenchmarks.Fold.Update
import ZioBenchmarks.Transition.Runs

/-!
# The load driver

`main` of `tcp_driver.go`. It starts one goroutine per connection, waits until all of them have
connected or failed to, closes `start`, waits until all are done, and looks at `results`. A goroutine
that could not connect and one whose work failed take different paths to the two wait groups, and
both leave an error behind.
-/

set_option autoImplicit false

namespace ZioBenchmarks.Driver

open ZioBenchmarks.Transition ZioBenchmarks.Fold

/-- The line `main` prints: the messages, or the bytes that are divided by the time. -/
inductive Line where
  | echo (total : Int)
  | bytes (n : Int)
  deriving DecidableEq, Repr

/-- Where `main` is. -/
inductive MainPc where
  /-- `connected.Wait()`. -/
  | waitConnected
  /-- `close(start)`. -/
  | closeStart
  /-- `done.Wait()`. -/
  | waitDone
  /-- The loop over `results` and the output. -/
  | report
  /-- The exit status, and the throughput line if one was printed. -/
  | exited (status : Nat) (line : Option Line)
  deriving DecidableEq, Repr

/-- `main`, the two wait groups, the channel `start`, `results`, and the goroutines. -/
structure State (conns : Nat) where
  main : MainPc
  connected : Nat
  done : Nat
  started : Bool
  results : Fin conns → Option Err
  conn : Fin conns → Conn

/-- The line for the mode: `int64(*msgs) * int64(*conns)` or `perConn * int64(*conns)`. -/
def Config.line (cfg : Config) : Line :=
  if cfg.mode = .echo then .echo (int64 ((cfg.msgs : Int) * cfg.conns))
  else .bytes (int64 (cfg.perConn * cfg.conns))

/-- `for _, e := range results { if e != nil { failed++ } }`. -/
def failed {conns : Nat} (results : Fin conns → Option Err) : Nat :=
  (List.finRange conns).countP fun i => (results i).isSome

/-- What `main` does behind `done.Wait()`. -/
def Config.exit (cfg : Config) (results : Fin cfg.conns → Option Err) : MainPc :=
  if 0 < failed results then .exited 1 none else .exited 0 (some cfg.line)

/-- The goroutine `i` becomes `g`. -/
def State.setConn {conns : Nat} (s : State conns) (i : Fin conns) (g : Conn) : State conns :=
  { s with conn := Function.update s.conn i g }

/-- What can happen next: a statement of `main`, the end of an attempt to connect, the end of a read
or a write, or another statement of a goroutine. -/
inductive Act (conns : Nat) where
  | main
  | dial (i : Fin conns) (ok : Bool)
  | io (i : Fin conns) (n : Nat) (err : Bool)
  | run (i : Fin conns)

/-- One statement of `main`. -/
def mainStep (cfg : Config) (s : State cfg.conns) : Option (State cfg.conns) :=
  match s.main with
  | .waitConnected => if s.connected = 0 then some { s with main := .closeStart } else none
  | .closeStart => some { s with main := .waitDone, started := true }
  | .waitDone => if s.done = 0 then some { s with main := .report } else none
  | .report => some { s with main := cfg.exit s.results }
  | .exited _ _ => none

/-- One statement of the goroutine `i` that does not wait for the network. -/
def runStep (cfg : Config) (s : State cfg.conns) (i : Fin cfg.conns) : Option (State cfg.conns) :=
  let g := s.conn i
  match g.pc with
  | .connectFailed =>
      some ({ s with results := Function.update s.results i (some .connectFailed) }.setConn i
        { g with pc := .failedDone })
  | .failedDone =>
      some ({ s with connected := s.connected - 1 }.setConn i { g with pc := .exitDone })
  | .ready => some ({ s with connected := s.connected - 1 }.setConn i { g with pc := .awaitStart })
  | .awaitStart => if s.started then some (s.setConn i (cfg.enter g)) else none
  | .assign r =>
      some ({ s with results := Function.update s.results i r }.setConn i
        { g with pc := .exitDone })
  | .exitDone => some ({ s with done := s.done - 1 }.setConn i { g with pc := .gone })
  | _ => none

/-- Effect of an action, if it can happen. A connection is tried 200 times. -/
def act (cfg : Config) (s : State cfg.conns) : Act cfg.conns → Option (State cfg.conns)
  | .main => mainStep cfg s
  | .dial i ok =>
      match (s.conn i).pc with
      | .dial attempt =>
          if ok then some (s.setConn i { s.conn i with pc := .ready })
          else if attempt + 1 < 200 then
            some (s.setConn i { s.conn i with pc := .dial (attempt + 1) })
          else some (s.setConn i { s.conn i with pc := .connectFailed })
      | _ => none
  | .io i n err => (cfg.io (s.conn i) n err).map (s.setConn i)
  | .run i => runStep cfg s i

/-- The goroutines have just been started. -/
def initial (cfg : Config) : State cfg.conns where
  main := .waitConnected
  connected := cfg.conns
  done := cfg.conns
  started := false
  results _ := none
  conn _ := ⟨.dial 0, 0, 0, 0, 0, 0⟩

/-- What a run shows of a step: an attempt to connect that succeeded or failed, a write of `n` bytes
or a read of `n` of the `want` bytes it was for, each with an error or `nil`, or no call at all. -/
inductive Label (conns : Nat) where
  | main
  | dialed (i : Fin conns) (ok : Bool)
  | wrote (i : Fin conns) (n : Nat) (err : Bool)
  | read (i : Fin conns) (want n : Nat) (err : Bool)
  | run (i : Fin conns)
  deriving DecidableEq, Repr

/-- The outcome of a read or a write of the goroutine `i`. -/
def Config.ioLabel (cfg : Config) (i : Fin cfg.conns) (g : Conn) (n : Nat) (err : Bool) :
    Label cfg.conns :=
  match g.pc with
  | .readFull off => .read i (cfg.size - off) n err
  | .recv => .read i (cfg.chunk g.left).toNat n err
  | _ => .wrote i n err

/-- The outcome of an action. -/
def Act.label (cfg : Config) (s : State cfg.conns) : Act cfg.conns → Label cfg.conns
  | .main => .main
  | .dial i ok => .dialed i ok
  | .io i n err => cfg.ioLabel i (s.conn i) n err
  | .run i => .run i

/-- The driver, with any outcome of every call. -/
def system (cfg : Config) : System (State cfg.conns) (Label cfg.conns) where
  init s := s = initial cfg
  step s l s' := ∃ a, act cfg s a = some s' ∧ a.label cfg s = l

/-- The goroutine has not called `connected.Done()`. -/
def Pc.unconnected : Pc → Nat
  | .dial _ | .connectFailed | .failedDone | .ready => 1
  | .awaitStart | .fill | .readFull _ | .write | .send | .recv | .assign _ | .exitDone | .gone => 0

/-- The goroutine has not called `done.Done()`. -/
def Pc.alive : Pc → Nat
  | .gone => 0
  | .dial _ | .connectFailed | .failedDone | .ready | .awaitStart | .fill | .readFull _ | .write
  | .send | .recv | .assign _ | .exitDone => 1

/-- What `main` has waited for where it is. -/
def MainAt (cfg : Config) (s : State cfg.conns) : MainPc → Prop
  | .waitConnected | .closeStart => s.started = false
  | .waitDone => s.started = true
  | .report => s.started = true ∧ s.done = 0
  | .exited status line =>
      s.done = 0 ∧ MainPc.exited status line = cfg.exit s.results

/-- The wait groups count the goroutines that have not reported, and `results` has `nil` only for
connections that did their share. -/
structure Inv (cfg : Config) (s : State cfg.conns) : Prop where
  connected : s.connected = ∑ i, (s.conn i).pc.unconnected
  done : s.done = ∑ i, (s.conn i).pc.alive
  main : MainAt cfg s s.main
  good : ∀ i, cfg.Good (s.conn i) (s.results i)

variable {cfg : Config} {s s' : State cfg.conns} {i : Fin cfg.conns}

theorem initial_inv (cfg : Config) : Inv cfg (initial cfg) where
  connected := by simp [initial, Pc.unconnected]
  done := by simp [initial, Pc.alive]
  main := rfl
  good _ := ⟨rfl, rfl, rfl, rfl⟩

/-- A goroutine that is gone stays where it is. -/
theorem gone_of_done (hi : Inv cfg s) (h : s.done = 0) (i : Fin cfg.conns) :
    (s.conn i).pc = .gone := by
  have hle := le_sum (fun g : Conn => g.pc.alive) s.conn i
  rw [← hi.done, h] at hle
  cases hp : (s.conn i).pc
  case gone => rfl
  all_goals
    simp only [hp, Pc.alive] at hle
    omega

/-- A step of a goroutine that is not gone keeps what `main` relies on. -/
theorem MainAt.conn (h : MainAt cfg s s.main) (hdone : s.done ≠ 0) (hmain : s'.main = s.main)
    (hstarted : s'.started = s.started) : MainAt cfg s' s'.main := by
  rw [hmain]
  cases hp : s.main with
  | waitConnected | closeStart | waitDone =>
      rw [hp] at h
      exact hstarted.trans h
  | report =>
      rw [hp] at h
      exact absurd h.2 hdone
  | exited status line =>
      rw [hp] at h
      exact absurd h.1 hdone

/-- A goroutine moves, and its wait groups and its result with it. -/
theorem Inv.move (hi : Inv cfg s) {g : Conn} {connected done : Nat} {r : Option Err}
    (halive : (s.conn i).pc.alive = 1)
    (hconnected : connected + (s.conn i).pc.unconnected = s.connected + g.pc.unconnected)
    (hdone : done + 1 = s.done + g.pc.alive) (hgood : cfg.Good g r) :
    Inv cfg ({ s with
      connected := connected
      done := done
      results := Function.update s.results i r }.setConn i g) where
  connected := by
    have hsum := sum_update (fun g : Conn => g.pc.unconnected) s.conn i g
    have hold := hi.connected
    simp only [State.setConn]
    omega
  done := by
    have hsum := sum_update (fun g : Conn => g.pc.alive) s.conn i g
    have hold := hi.done
    simp only [State.setConn]
    omega
  main := by
    -- the goroutine that moves is alive, so `done` is not zero and `main` has not reported
    have hle := le_sum (fun g : Conn => g.pc.alive) s.conn i
    have hold := hi.done
    exact hi.main.conn (by omega) rfl rfl
  good j := by
    by_cases hj : j = i
    · subst hj
      simpa [State.setConn] using hgood
    · simpa [State.setConn, hj] using hi.good j

/-- A goroutine moves, and nothing else does. -/
theorem Inv.setConn (hi : Inv cfg s) {g : Conn} (halive : (s.conn i).pc.alive = 1)
    (hconnected : (s.conn i).pc.unconnected = g.pc.unconnected) (hdone : g.pc.alive = 1)
    (hgood : cfg.Good g (s.results i)) : Inv cfg (s.setConn i g) := by
  have h := @Inv.move cfg s i hi g s.connected s.done _ halive (by omega) (by omega) hgood
  rwa [Function.update_eq_self] at h

/-- The wait groups count this goroutine. -/
theorem Inv.counted (hi : Inv cfg s) (i : Fin cfg.conns) :
    (s.conn i).pc.unconnected ≤ s.connected ∧ (s.conn i).pc.alive ≤ s.done := by
  rw [hi.connected, hi.done]
  exact ⟨le_sum (fun g : Conn => g.pc.unconnected) s.conn i,
    le_sum (fun g : Conn => g.pc.alive) s.conn i⟩

theorem mainStep_inv (hi : Inv cfg s) (h : mainStep cfg s = some s') : Inv cfg s' := by
  have hm := hi.main
  unfold mainStep at h
  cases hp : s.main with
  | waitConnected =>
      rw [hp] at hm
      simp only [hp] at h
      split at h
      case isTrue =>
        cases h
        exact ⟨hi.connected, hi.done, hm, hi.good⟩
      case isFalse => simp at h
  | closeStart =>
      simp only [hp] at h
      cases h
      exact ⟨hi.connected, hi.done, rfl, hi.good⟩
  | waitDone =>
      rw [hp] at hm
      simp only [hp] at h
      split at h
      case isTrue hd =>
        cases h
        exact ⟨hi.connected, hi.done, ⟨hm, hd⟩, hi.good⟩
      case isFalse => simp at h
  | report =>
      rw [hp] at hm
      simp only [hp] at h
      cases h
      refine ⟨hi.connected, hi.done, ?_, hi.good⟩
      -- `os.Exit` and the lines printed are decided by `results`, which nobody writes any more
      have hexit : ∀ p, cfg.exit s.results = p → MainAt cfg { s with main := p } p := by
        intro p hpe
        unfold Config.exit at hpe
        split at hpe
        all_goals
          subst hpe
          refine ⟨hm.2, ?_⟩
          simp [Config.exit, *]
      exact hexit _ rfl
  | exited status line => simp [hp] at h

/-- Where the end of an attempt to connect leads. -/
def Pc.dialed (attempt : Nat) (ok : Bool) : Pc :=
  if ok then .ready else if attempt + 1 < 200 then .dial (attempt + 1) else .connectFailed

theorem dial_cases {ok : Bool} (h : act cfg s (.dial i ok) = some s') :
    ∃ attempt, (s.conn i).pc = .dial attempt ∧
      s.setConn i { s.conn i with pc := Pc.dialed attempt ok } = s' := by
  simp only [act] at h
  split at h
  case h_2 => cases h
  case h_1 attempt hp =>
    refine ⟨attempt, hp, ?_⟩
    unfold Pc.dialed
    split at h
    case isTrue hok =>
      cases h
      rw [if_pos hok]
    case isFalse hok =>
      rw [if_neg hok]
      split at h
      case isTrue hlt =>
        cases h
        rw [if_pos hlt]
      case isFalse hlt =>
        cases h
        rw [if_neg hlt]

theorem dial_inv (hi : Inv cfg s) {ok : Bool} (h : act cfg s (.dial i ok) = some s') :
    Inv cfg s' := by
  have hgood := hi.good i
  obtain ⟨attempt, hp, rfl⟩ := dial_cases h
  rw [Config.Good, hp] at hgood
  have halive : (s.conn i).pc.alive = 1 := by rw [hp]; rfl
  have hunconnected : (s.conn i).pc.unconnected = 1 := by rw [hp]; rfl
  unfold Pc.dialed
  split
  · exact hi.setConn halive hunconnected rfl hgood
  · split
    · exact hi.setConn halive hunconnected rfl hgood
    · exact hi.setConn halive hunconnected rfl trivial

/-- Where a goroutine can be while it is in `work`, and behind it. -/
def Pc.working : Pc → Bool
  | .fill | .readFull _ | .write | .send | .recv | .assign _ => true
  | .dial _ | .connectFailed | .failedDone | .ready | .awaitStart | .exitDone | .gone => false

theorem working_counts {p : Pc} (h : p.working = true) : p.alive = 1 ∧ p.unconnected = 0 := by
  cases p <;> simp_all [Pc.working, Pc.alive, Pc.unconnected]

theorem echoLoop_working (cfg : Config) (g : Conn) : (cfg.echoLoop g).pc.working = true := by
  unfold Config.echoLoop
  by_cases h : g.got < cfg.msgs <;> simp [h, Pc.working]

theorem fillLoop_working (cfg : Config) (g : Conn) : (cfg.fillLoop g).pc.working = true := by
  unfold Config.fillLoop
  split
  · rfl
  · exact echoLoop_working cfg g

theorem sendLoop_working (g : Conn) : (Config.sendLoop g).pc.working = true := by
  unfold Config.sendLoop
  by_cases h : 0 < g.left <;> simp [h, Pc.working]

theorem recvLoop_working (g : Conn) : (Config.recvLoop g).pc.working = true := by
  unfold Config.recvLoop
  by_cases h : 0 < g.left <;> simp [h, Pc.working]

theorem enter_working (cfg : Config) (g : Conn) : (cfg.enter g).pc.working = true := by
  unfold Config.enter
  split
  · exact fillLoop_working cfg g
  · exact sendLoop_working _
  · exact recvLoop_working _
  · rfl

/-- A read or a write is made in `work`, and its goroutine stays there. -/
theorem io_working {g g' : Conn} {n : Nat} {err : Bool} (h : cfg.io g n err = some g') :
    g.pc.working = true ∧ g'.pc.working = true := by
  cases io_cases h with
  | writeError hp =>
      rcases hp with hp | hp | hp
      all_goals
        rw [hp]
        exact ⟨rfl, rfl⟩
  | fill hp =>
      rw [hp]
      exact ⟨rfl, fillLoop_working _ _⟩
  | write hp | lastMessages _ _ hp _ _ =>
      rw [hp]
      exact ⟨rfl, echoLoop_working _ _⟩
  | readError _ hp _ | part _ hp _ | message _ _ hp _ _ | recvError hp _ =>
      rw [hp]
      exact ⟨rfl, rfl⟩
  | send hp _ =>
      rw [hp]
      exact ⟨rfl, sendLoop_working _⟩
  | recv hp _ =>
      rw [hp]
      exact ⟨rfl, recvLoop_working _⟩

theorem io_inv (hi : Inv cfg s) {n : Nat} {err : Bool}
    (h : act cfg s (.io i n err) = some s') : Inv cfg s' := by
  obtain ⟨g, hg, rfl⟩ := Option.map_eq_some_iff.1 h
  obtain ⟨hw, hw'⟩ := io_working hg
  obtain ⟨halive, hunconnected⟩ := working_counts hw
  obtain ⟨halive', hunconnected'⟩ := working_counts hw'
  exact hi.setConn halive (hunconnected.trans hunconnected'.symm) halive' (io_good (hi.good i) hg)

theorem runStep_inv (hf : cfg.Fits) (hi : Inv cfg s) (h : runStep cfg s i = some s') :
    Inv cfg s' := by
  have hgood := hi.good i
  obtain ⟨hle, hle'⟩ := hi.counted i
  unfold runStep at h
  cases hp : (s.conn i).pc with
  | connectFailed =>
      simp only [hp, Option.some.injEq] at h
      subst h
      exact hi.move (by rw [hp]; rfl) (by rw [hp]; rfl) rfl (by simp [Config.Good])
  | failedDone =>
      simp only [hp, Option.some.injEq] at h
      subst h
      simp only [Config.Good, hp] at hgood
      -- its own count is one of those in `connected`, so the wait group does not go below zero
      have hpos : 1 ≤ s.connected := by rwa [hp] at hle
      have hm := @Inv.move cfg s i hi { s.conn i with pc := .exitDone } (s.connected - 1) s.done
        (s.results i) (by rw [hp]; rfl)
        (by rw [hp]; exact Nat.sub_add_cancel hpos) rfl (fun h => absurd h hgood)
      rwa [Function.update_eq_self] at hm
  | ready =>
      simp only [hp, Option.some.injEq] at h
      subst h
      simp only [Config.Good, hp] at hgood
      have hpos : 1 ≤ s.connected := by rwa [hp] at hle
      have hm := @Inv.move cfg s i hi { s.conn i with pc := .awaitStart } (s.connected - 1) s.done
        (s.results i) (by rw [hp]; rfl)
        (by rw [hp]; exact Nat.sub_add_cancel hpos) rfl hgood
      rwa [Function.update_eq_self] at hm
  | awaitStart =>
      simp only [hp] at h
      split at h
      case isFalse => simp at h
      case isTrue =>
        cases h
        -- `start` is closed: the goroutine enters the loop of its mode
        obtain ⟨halive, hunconnected⟩ := working_counts (enter_working cfg (s.conn i))
        exact hi.setConn (by rw [hp]; rfl) (by rw [hp, hunconnected]; rfl) halive
          (enter_good hf hgood hp)
  | assign r =>
      simp only [hp, Option.some.injEq] at h
      subst h
      simp only [Config.Good, hp] at hgood
      exact hi.move (by rw [hp]; rfl) (by rw [hp]; rfl) rfl hgood
  | exitDone =>
      simp only [hp, Option.some.injEq] at h
      subst h
      simp only [Config.Good, hp] at hgood
      have hpos : 1 ≤ s.done := by rwa [hp] at hle'
      have hm := @Inv.move cfg s i hi { s.conn i with pc := .gone } s.connected (s.done - 1)
        (s.results i) (by rw [hp]; rfl)
        (by rw [hp]; rfl) (Nat.sub_add_cancel hpos) hgood
      rwa [Function.update_eq_self] at hm
  | dial _ | fill | readFull _ | write | send | recv | gone => simp [hp] at h

theorem act_inv (hf : cfg.Fits) (hi : Inv cfg s) {a : Act cfg.conns} (h : act cfg s a = some s') :
    Inv cfg s' := by
  cases a with
  | main => exact mainStep_inv hi h
  | dial i ok => exact dial_inv hi h
  | io i n err => exact io_inv hi h
  | run i => exact runStep_inv hf hi h

theorem reachable_inv (hf : cfg.Fits) (h : (system cfg).Reachable s) : Inv cfg s := by
  refine System.Reachable.invariant (I := Inv cfg) ?_ ?_ h
  · rintro _ rfl
    exact initial_inv cfg
  · rintro s _ s' hi ⟨a, ha, -⟩
    exact act_inv hf hi ha

end ZioBenchmarks.Driver
