import ZioBenchmarks.Driver.Main

/-!
# The load driver exits

Until `main` has exited something can happen. Each step but a read that returned nothing and no
error brings the driver closer to its exit, and once the goroutines have finished their reads and
writes, that is bounded by the number of connections alone.
-/

set_option autoImplicit false

namespace ZioBenchmarks.Driver

open ZioBenchmarks.Transition ZioBenchmarks.Fold

variable {cfg : Config} {s s' : State cfg.conns} {i : Fin cfg.conns}

/-- A read that returned no byte and no error. -/
def Label.idle {conns : Nat} : Label conns → Bool
  | .read _ _ n err => n == 0 && !err
  | .main | .dialed _ _ | .wrote _ _ _ | .run _ => false

theorem chunk_pos {left : Int} (h : 0 < left) : 0 < cfg.chunk left := by
  have hsize := cfg.size_pos
  unfold Config.chunk
  split <;> omega

/-- A read or a write can always end with an error. -/
theorem io_returns {g : Conn} {r : Option Err} (hg : cfg.Good g r)
    (hw : g.pc = .fill ∨ (∃ off, g.pc = .readFull off) ∨ g.pc = .write ∨ g.pc = .send ∨
      g.pc = .recv) : ∃ g', cfg.io g 0 true = some g' := by
  rw [Config.Good] at hg
  unfold Config.io
  rcases hw with hp | ⟨off, hp⟩ | hp | hp | hp
  · simp [hp]
  · simp only [hp] at hg ⊢
    have hoff := hg.2.1
    rw [if_pos (by omega), if_neg (by omega), if_pos trivial]
    exact ⟨_, rfl⟩
  · simp [hp]
  · simp only [hp] at hg ⊢
    have hchunk := @chunk_pos cfg _ hg.2.1
    simp [hchunk.le]
  · simp only [hp] at hg ⊢
    have hchunk := @chunk_pos cfg _ hg.2.1
    simp [hchunk.le]

/-- A goroutine that is not gone can go on, unless it waits for `start`. -/
theorem Inv.conn_progress (hi : Inv cfg s) (halive : (s.conn i).pc ≠ .gone)
    (hstart : (s.conn i).pc = .awaitStart → s.started = true) :
    ∃ a s', act cfg s a = some s' ∧ (a.label cfg s).idle = false := by
  have hg := hi.good i
  cases hp : (s.conn i).pc with
  | dial attempt => exact ⟨.dial i true, _, by simp only [act, hp]; rfl, rfl⟩
  | connectFailed | failedDone | ready | assign _ | exitDone =>
      exact ⟨.run i, _, by simp only [act, runStep, hp]; rfl, rfl⟩
  | awaitStart =>
      refine ⟨.run i, s.setConn i (cfg.enter (s.conn i)), ?_, rfl⟩
      simp only [act, runStep, hp]
      exact if_pos (hstart hp)
  | fill | readFull _ | write | send | recv =>
      obtain ⟨g', hg'⟩ := io_returns hg (by simp [hp])
      refine ⟨.io i 0 true, s.setConn i g', by simp only [act, hg', Option.map_some], ?_⟩
      simp only [Act.label, Config.ioLabel, hp]
      rfl
  | gone => exact absurd hp halive

/-- A count that is not zero counts some goroutine. -/
theorem exists_counted {f : Conn → Nat} (h : ∑ i, f (s.conn i) ≠ 0) : ∃ i, f (s.conn i) ≠ 0 := by
  by_contra hno
  apply h
  apply Finset.sum_eq_zero
  intro i _
  by_contra hi
  exact hno ⟨i, hi⟩

/-- Until `main` has exited, something can happen. -/
theorem Inv.progress (hi : Inv cfg s) (hrun : ∀ status line, s.main ≠ .exited status line) :
    ∃ a s', act cfg s a = some s' ∧ (a.label cfg s).idle = false := by
  have hm := hi.main
  cases hp : s.main with
  | waitConnected =>
      by_cases hzero : s.connected = 0
      · refine ⟨.main, { s with main := .closeStart }, ?_, rfl⟩
        simp only [act, mainStep, hp]
        exact if_pos hzero
      · rw [hi.connected] at hzero
        -- somebody has not reported a connection yet, and a dial can always end
        obtain ⟨i, hc⟩ := exists_counted (f := fun g => g.pc.unconnected) hzero
        apply hi.conn_progress (i := i)
        · intro hgone
          simp [hgone, Pc.unconnected] at hc
        · intro hawait
          simp [hawait, Pc.unconnected] at hc
  | closeStart => exact ⟨.main, _, by simp only [act, mainStep, hp]; rfl, rfl⟩
  | waitDone =>
      by_cases hzero : s.done = 0
      · refine ⟨.main, { s with main := .report }, ?_, rfl⟩
        simp only [act, mainStep, hp]
        exact if_pos hzero
      · rw [hi.done] at hzero
        rw [hp] at hm
        -- somebody is alive; `start` is closed, so a goroutine behind it does not wait
        obtain ⟨i, hc⟩ := exists_counted (f := fun g => g.pc.alive) hzero
        apply hi.conn_progress (i := i)
        · intro hgone
          simp [hgone, Pc.alive] at hc
        · exact fun _ => hm
  | report => exact ⟨.main, _, by simp only [act, mainStep, hp]; rfl, rfl⟩
  | exited status line => exact absurd hp (hrun status line)

/-- The goroutine has finished its reads and writes, or never connected. -/
def Pc.settled : Pc → Bool
  | .connectFailed | .failedDone | .assign _ | .exitDone | .gone => true
  | .dial _ | .ready | .awaitStart | .fill | .readFull _ | .write | .send | .recv => false

/-- Statements a goroutine has left, but for its reads and writes. -/
def Pc.phase : Pc → Nat
  | .dial attempt => 6 + (200 - attempt)
  | .ready => 5
  | .awaitStart => 4
  | .connectFailed | .fill | .readFull _ | .write | .send | .recv => 3
  | .failedDone | .assign _ => 2
  | .exitDone => 1
  | .gone => 0

/-- Statements `main` has left. -/
def MainPc.left : MainPc → Nat
  | .waitConnected => 4
  | .closeStart => 3
  | .waitDone => 2
  | .report => 1
  | .exited _ _ => 0

/-- Statements left when every goroutine is settled. -/
def State.left (s : State cfg.conns) : Nat := s.main.left + ∑ i, (s.conn i).pc.phase

theorem exit_left (cfg : Config) (results : Fin cfg.conns → Option Err) :
    (cfg.exit results).left = 0 := by
  unfold Config.exit
  split <;> rfl

/-- A goroutine that moves from one settled statement to the next. -/
theorem settled_move {g : Conn} (hs : ∀ j, (s.conn j).pc.settled = true)
    (hmain : s'.main = s.main) (hconn : s'.conn = Function.update s.conn i g)
    (hsettled : g.pc.settled = true) (hleft : g.pc.phase + 1 = (s.conn i).pc.phase) :
    (∀ j, (s'.conn j).pc.settled = true) ∧ s'.left + 1 = s.left := by
  refine ⟨fun j => ?_, ?_⟩
  · rw [hconn]
    by_cases hj : j = i
    · subst hj
      rw [Function.update_self]
      exact hsettled
    · rw [Function.update_of_ne hj]
      exact hs j
  · have hsum := sum_update (fun g : Conn => g.pc.phase) s.conn i g
    simp only [State.left, hmain, hconn]
    omega

/-- A statement of `main` is one it had left, and touches no goroutine. -/
theorem mainStep_left (h : mainStep cfg s = some s') :
    s'.conn = s.conn ∧ s'.results = s.results ∧ s'.main.left + 1 = s.main.left := by
  unfold mainStep at h
  split at h
  case h_5 => simp at h
  case h_1 hp | h_3 hp =>
    split at h
    case isFalse => simp at h
    case isTrue =>
      cases h
      exact ⟨rfl, rfl, by rw [hp]; rfl⟩
  case h_2 hp =>
    cases h
    exact ⟨rfl, rfl, by rw [hp]; rfl⟩
  case h_4 hp =>
    cases h
    exact ⟨rfl, rfl, by rw [exit_left, hp]; rfl⟩

/-- Once all goroutines are settled, each step leaves one statement less. -/
theorem settled_step (hs : ∀ i, (s.conn i).pc.settled = true) {a : Act cfg.conns}
    (h : act cfg s a = some s') :
    (∀ i, (s'.conn i).pc.settled = true) ∧ s'.left + 1 = s.left := by
  cases a with
  | main =>
      obtain ⟨hconn, -, hleft⟩ := mainStep_left h
      rw [State.left, State.left, hconn]
      exact ⟨hs, by omega⟩
  | dial i ok =>
      have hsi := hs i
      -- no settled goroutine is at a call, so neither a dial nor a read or write can end
      cases hp : (s.conn i).pc <;> simp_all [act, Pc.settled]
  | io i n err =>
      have hsi := hs i
      obtain ⟨g, hg, rfl⟩ := Option.map_eq_some_iff.1 h
      cases hp : (s.conn i).pc <;> simp_all [Config.io, Pc.settled]
  | run i =>
      have hsi := hs i
      simp only [act, runStep] at h
      cases hp : (s.conn i).pc with
      | connectFailed | failedDone | assign _ | exitDone =>
          simp only [hp, Option.some.injEq] at h
          subst h
          exact settled_move hs rfl rfl rfl (by rw [hp]; rfl)
      | gone => simp [hp] at h
      | dial _ | ready | awaitStart | fill | readFull _ | write | send | recv =>
          rw [hp] at hsi
          cases hsi

/-- So `main` exits within a bounded number of steps. -/
theorem settled_path (h : (system cfg).Reachable s) (hs : ∀ i, (s.conn i).pc.settled = true)
    {tr : List (Label cfg.conns)} (hp : (system cfg).Path s tr s') :
    tr.length ≤ 3 * cfg.conns + 4 := by
  obtain ⟨pre, hpre⟩ := h
  have hall := System.Path.invariant
    (I := fun tr s' => (∀ i, (s'.conn i).pc.settled = true) ∧ tr.length + s'.left = s.left) hpre
    ⟨hs, Nat.zero_add _⟩ (by
      rintro tr s l s' - ⟨hs, hleft⟩ ⟨a, ha, -⟩
      obtain ⟨hs', hleft'⟩ := settled_step hs ha
      refine ⟨hs', ?_⟩
      rw [List.length_append, List.length_singleton]
      omega) hp
  -- a settled goroutine has three statements at most, and `main` has four
  have hconns : ∑ i, (s.conn i).pc.phase ≤ ∑ _i : Fin cfg.conns, 3 := by
    apply Finset.sum_le_sum
    intro i _
    have hsettled := hs i
    cases hpc : (s.conn i).pc <;> simp_all [Pc.phase, Pc.settled]
  rw [Finset.sum_const, Finset.card_univ, Fintype.card_fin, Nat.nsmul_eq_mul] at hconns
  have hmain : s.main.left ≤ 4 := by cases s.main <;> simp [MainPc.left]
  have hle : s.left ≤ 4 + cfg.conns * 3 := Nat.add_le_add hmain hconns
  omega

/-! ## The bound on a run -/

/-- Messages and bytes a goroutine has left to move. -/
def Config.todo (cfg : Config) (g : Conn) : Nat :=
  match cfg.mode with
  | .echo => (cfg.msgs - g.sent) + (cfg.msgs * cfg.size - g.read)
  | .send => (cfg.perConn - g.wrote).toNat
  | .recv => (cfg.perConn - g.read).toNat
  | .other => 0

/-- What a goroutine has left. -/
def Config.rank (cfg : Config) (g : Conn) : Nat := g.pc.phase + cfg.todo g

/-- What is left to do. -/
def State.rank (s : State cfg.conns) : Nat := s.main.left + ∑ i, cfg.rank (s.conn i)

section Todo

variable {g g' : Conn} {r : Option Err} {n : Nat} {err : Bool}

/-- What has been moved only grows. -/
theorem todo_anti (hsent : g.sent ≤ g'.sent) (hwrote : g.wrote ≤ g'.wrote)
    (hread : g.read ≤ g'.read) : cfg.todo g' ≤ cfg.todo g := by
  unfold Config.todo
  split <;> omega

theorem todo_congr (h : g'.sent = g.sent ∧ g'.wrote = g.wrote ∧ g'.read = g.read) :
    cfg.todo g' = cfg.todo g := by
  obtain ⟨hsent, hwrote, hread⟩ := h
  unfold Config.todo
  rw [hsent, hwrote, hread]

/-- The tests of the loops move nothing. -/
theorem fillLoop_moved (cfg : Config) (g : Conn) : (cfg.fillLoop g).sent = g.sent ∧
    (cfg.fillLoop g).wrote = g.wrote ∧ (cfg.fillLoop g).read = g.read := by
  unfold Config.fillLoop
  split <;> exact ⟨rfl, rfl, rfl⟩

theorem sendLoop_moved (g : Conn) : (Config.sendLoop g).sent = g.sent ∧
    (Config.sendLoop g).wrote = g.wrote ∧ (Config.sendLoop g).read = g.read := ⟨rfl, rfl, rfl⟩

theorem recvLoop_moved (g : Conn) : (Config.recvLoop g).sent = g.sent ∧
    (Config.recvLoop g).wrote = g.wrote ∧ (Config.recvLoop g).read = g.read := ⟨rfl, rfl, rfl⟩

theorem enter_moved (cfg : Config) (g : Conn) : (cfg.enter g).sent = g.sent ∧
    (cfg.enter g).wrote = g.wrote ∧ (cfg.enter g).read = g.read := by
  unfold Config.enter
  split
  case h_1 => exact fillLoop_moved cfg g
  case h_2 => exact sendLoop_moved _
  case h_3 => exact recvLoop_moved _
  case h_4 => exact ⟨rfl, rfl, rfl⟩

theorem working_phase {p : Pc} (h : p.working = true) : p.phase ≤ 3 := by
  cases p <;> simp_all [Pc.working, Pc.phase]

theorem inflight_le (cfg : Config) : cfg.inflight ≤ cfg.msgs := by
  unfold Config.inflight
  split <;> omega

/-- A message in progress is one of those to be read. -/
theorem read_le {got off msgs size : Nat} (hgot : got < msgs) (hoff : off ≤ size) :
    got * size + off ≤ msgs * size := by
  have hmul : (got + 1) * size ≤ msgs * size := Nat.mul_le_mul_right _ hgot
  rw [Nat.succ_mul] at hmul
  omega

/-- A message that is sent, and bytes that are read or written, are so many less to move. -/
theorem todo_sent (hm : cfg.mode = .echo) (hsent : g.sent < cfg.msgs) (hs : g'.sent = g.sent + 1)
    (hr : g'.read = g.read) : cfg.todo g' < cfg.todo g := by
  simp only [Config.todo, hm, hs, hr]
  omega

theorem todo_read (hm : cfg.mode = .echo) {off : Nat} (hgot : g.got < cfg.msgs)
    (hread : g.read = g.got * cfg.size + off) (hoff : off + n ≤ cfg.size) (hn : 0 < n)
    (hs : g'.sent = g.sent) (hr : g'.read = g.read + n) : cfg.todo g' < cfg.todo g := by
  have hle := read_le hgot hoff
  simp only [Config.todo, hm, hs, hr]
  omega

theorem todo_wrote (hm : cfg.mode = .send) (hle : (g.wrote + n : Int) ≤ cfg.perConn) (hn : 0 < n)
    (hw : g'.wrote = g.wrote + n) : cfg.todo g' < cfg.todo g := by
  simp only [Config.todo, hm, hw]
  omega

theorem todo_received (hm : cfg.mode = .recv) (hle : (g.read + n : Int) ≤ cfg.perConn) (hn : 0 < n)
    (hr : g'.read = g.read + n) : cfg.todo g' < cfg.todo g := by
  simp only [Config.todo, hm, hr]
  omega

/-- A read or a write is made in `work`, ahead of the statements behind it. -/
theorem io_phase (hio : cfg.io g n err = some g') : g.pc.phase = 3 := by
  unfold Config.io at hio
  cases hp : g.pc <;> simp_all [Pc.phase]

/-- No read or write takes back what has been moved. -/
theorem io_todo (hio : cfg.io g n err = some g') : cfg.todo g' ≤ cfg.todo g := by
  cases io_cases hio with
  | fill _ =>
      rw [todo_congr (fillLoop_moved cfg _)]
      exact todo_anti (Nat.le_succ _) (Nat.le_add_right _ _) le_rfl
  | write _ => exact todo_anti (Nat.le_succ _) (Nat.le_add_right _ _) le_rfl
  | writeError _ | send _ _ => exact todo_anti le_rfl (Nat.le_add_right _ _) le_rfl
  | readError _ _ _ | part _ _ _ | message _ _ _ _ _ | lastMessages _ _ _ _ _ | recvError _ _
  | recv _ _ => exact todo_anti le_rfl le_rfl (Nat.le_add_right _ _)

/-- A read or a write brings a goroutine further, unless it is a read that returned nothing. -/
theorem io_rank (h : cfg.Good g r) (hio : cfg.io g n err = some g')
    (hn : 0 < n ∨ err = true ∨ g.pc = .fill ∨ g.pc = .write ∨ g.pc = .send) :
    cfg.rank g' < cfg.rank g := by
  have hphase := io_phase hio
  have hphase' := working_phase (io_working hio).2
  have hchunk := chunk_le cfg g.left
  have hle := io_todo hio
  -- the goroutine ends its work, or stays in it and has less to move
  have hend : g'.pc.phase < 3 → cfg.rank g' < cfg.rank g := by
    intro hlt
    unfold Config.rank
    omega
  have hmove : cfg.todo g' < cfg.todo g → cfg.rank g' < cfg.rank g := by
    intro hlt
    unfold Config.rank
    omega
  rw [Config.Good] at h
  cases io_cases hio with
  | writeError _ | readError _ _ _ | recvError _ _ => exact hend (by simp [Pc.phase])
  | fill hp =>
      simp only [hp] at h
      apply hmove
      rw [todo_congr (fillLoop_moved cfg _)]
      exact todo_sent h.1 (h.2.2.1.trans_le (inflight_le cfg)) rfl rfl
  | write hp =>
      simp only [hp] at h
      exact hmove (todo_sent h.1 h.2.1 rfl rfl)
  | part off hp hlt =>
      simp only [hp] at h
      have hpos : 0 < n := by simpa [hp] using hn
      exact hmove (todo_read h.1 h.2.2.1 h.2.2.2 hlt.le hpos rfl rfl)
  | message _ off hp heq _ | lastMessages _ off hp heq _ =>
      simp only [hp] at h
      have hpos : 0 < n := by omega
      exact hmove (todo_read h.1 h.2.2.1 h.2.2.2 heq.le hpos rfl rfl)
  | send hp hall =>
      simp only [hp] at h
      have hpos := @chunk_pos cfg _ h.2.1
      exact hmove (todo_wrote h.1 (by omega) (by omega) rfl)
  | recv hp hle =>
      simp only [hp] at h
      have hpos : 0 < n := by simpa [hp] using hn
      exact hmove (todo_received h.1 (by omega) hpos rfl)

end Todo

/-- A goroutine moves, and nothing else does. -/
theorem move_rank {g : Conn} (hmain : s'.main = s.main)
    (hconn : s'.conn = Function.update s.conn i g) :
    s'.rank + cfg.rank (s.conn i) = s.rank + cfg.rank g := by
  have hsum := sum_update (fun g : Conn => cfg.rank g) s.conn i g
  simp only [State.rank, hmain, hconn]
  omega

/-- A goroutine that has less left leaves less to do. -/
theorem move_rank_lt {g : Conn} (hmain : s'.main = s.main)
    (hconn : s'.conn = Function.update s.conn i g) (hlt : cfg.rank g < cfg.rank (s.conn i)) :
    s'.rank < s.rank := by
  have hmove := move_rank hmain hconn
  omega

/-- A goroutine goes to another statement, and nothing else. -/
theorem goto_rank {g : Conn} {p : Pc} (hlt : p.phase < g.pc.phase) :
    cfg.rank { g with pc := p } < cfg.rank g := by
  have hcongr : cfg.todo { g with pc := p } = cfg.todo g := todo_congr ⟨rfl, rfl, rfl⟩
  rw [Config.rank, Config.rank, hcongr]
  exact Nat.add_lt_add_right hlt _

theorem dial_rank {ok : Bool} (h : act cfg s (.dial i ok) = some s') : s'.rank < s.rank := by
  obtain ⟨attempt, hp, rfl⟩ := dial_cases h
  refine move_rank_lt rfl rfl (goto_rank ?_)
  rw [hp]
  unfold Pc.dialed
  split
  · simp only [Pc.phase]
    omega
  · split
    all_goals
      simp only [Pc.phase]
      omega

theorem runStep_rank (h : runStep cfg s i = some s') : s'.rank < s.rank := by
  unfold runStep at h
  cases hp : (s.conn i).pc with
  | connectFailed | failedDone | ready | assign _ | exitDone =>
      simp only [hp, Option.some.injEq] at h
      subst h
      exact move_rank_lt rfl rfl (goto_rank (by simp [hp, Pc.phase]))
  | awaitStart =>
      simp only [hp] at h
      split at h
      case isFalse => simp at h
      case isTrue =>
        cases h
        refine move_rank_lt rfl rfl ?_
        -- behind `start` a goroutine has its whole share to move, and had before
        have hphase := working_phase (enter_working cfg (s.conn i))
        have hawait : Pc.awaitStart.phase = 4 := rfl
        rw [Config.rank, Config.rank, todo_congr (enter_moved cfg _), hp]
        omega
  | dial _ | fill | readFull _ | write | send | recv | gone => simp [hp] at h

/-- Each step that is not an idle read leaves less to do. -/
theorem step_rank (hi : Inv cfg s) {a : Act cfg.conns} (h : act cfg s a = some s')
    (hidle : (a.label cfg s).idle = false) : s'.rank < s.rank := by
  cases a with
  | main =>
      obtain ⟨hconn, -, hleft⟩ := mainStep_left h
      rw [State.rank, State.rank, hconn]
      omega
  | dial i ok => exact dial_rank h
  | run i => exact runStep_rank h
  | io i n err =>
      obtain ⟨g, hg, rfl⟩ := Option.map_eq_some_iff.1 h
      refine move_rank_lt rfl rfl (io_rank (hi.good i) hg ?_)
      have hphase := io_phase hg
      rw [Act.label, Config.ioLabel] at hidle
      cases hp : (s.conn i).pc with
      | fill | write | send => simp
      | readFull _ | recv =>
          simp only [hp, Label.idle, Bool.and_eq_false_iff, beq_eq_false_iff_ne] at hidle
          rcases hidle with hn | herr
          · exact .inl (Nat.pos_of_ne_zero hn)
          · exact .inr (.inl (by simpa using herr))
      | dial _ | connectFailed | failedDone | ready | awaitStart | assign _ | exitDone | gone =>
          simp only [hp, Config.io, reduceCtorEq] at hg

/-- An idle read leaves no more to do than there was. -/
theorem idle_rank {a : Act cfg.conns} (h : act cfg s a = some s')
    (hidle : (a.label cfg s).idle = true) : s'.rank ≤ s.rank := by
  cases a with
  | main | dial _ _ | run _ => cases hidle
  | io i n err =>
      obtain ⟨g, hg, rfl⟩ := Option.map_eq_some_iff.1 h
      have hmove := @move_rank cfg s (s.setConn i g) i g rfl rfl
      have hphase := io_phase hg
      have hphase' := working_phase (io_working hg).2
      have htodo := io_todo hg
      simp only [Config.rank] at hmove
      omega

/-- What there is to do at the start. -/
theorem initial_rank (hf : cfg.Fits) : (initial cfg).rank ≤
    cfg.conns * (206 + cfg.msgs * (cfg.size + 1)) + cfg.mb * 2 ^ 20 + 4 := by
  have hshare : cfg.conns * (cfg.mb * 2 ^ 20 / cfg.conns) ≤ cfg.mb * 2 ^ 20 := Nat.mul_div_le _ _
  have htodo : cfg.todo ⟨.dial 0, 0, 0, 0, 0, 0⟩ ≤
      cfg.msgs * (cfg.size + 1) + cfg.mb * 2 ^ 20 / cfg.conns := by
    rw [Nat.mul_succ]
    simp only [Config.todo, perConn_eq hf, Nat.cast_zero, Int.sub_zero, Int.toNat_natCast,
      Nat.sub_zero]
    split
    · rw [Nat.add_comm cfg.msgs]
      exact Nat.le_add_right _ _
    · exact Nat.le_add_left _ _
    · exact Nat.le_add_left _ _
    · exact Nat.zero_le _
  have hsum : (initial cfg).rank = 4 + cfg.conns * (206 + cfg.todo ⟨.dial 0, 0, 0, 0, 0, 0⟩) := by
    simp [State.rank, initial, MainPc.left, Config.rank, Pc.phase]
  have hle : cfg.conns * (206 + cfg.todo ⟨.dial 0, 0, 0, 0, 0, 0⟩) ≤
      cfg.conns * (206 + cfg.msgs * (cfg.size + 1) + cfg.mb * 2 ^ 20 / cfg.conns) :=
    Nat.mul_le_mul_left _ (by omega)
  rw [Nat.mul_add cfg.conns (206 + _)] at hle
  omega

/-- A run is as long as its idle reads make it. -/
theorem run_length (hf : cfg.Fits) {tr : List (Label cfg.conns)} (h : (system cfg).Run tr s) :
    tr.countP (fun l => !l.idle) ≤
      cfg.conns * (206 + cfg.msgs * (cfg.size + 1)) + cfg.mb * 2 ^ 20 + 4 := by
  obtain ⟨_, rfl, hp⟩ := h
  have hle := hp.countP_le (fun l => !l.idle) (μ := State.rank) (c := 0)
    (by
      rintro s _ s' hr ⟨a, ha, rfl⟩ hl
      exact step_rank (reachable_inv hf hr) ha (by simpa using hl))
    (by
      rintro s _ s' - ⟨a, ha, rfl⟩ hl
      exact idle_rank ha (by simpa using hl)) (System.Run.nil rfl).reachable
  have hinit := initial_rank hf
  omega

/-- `main` exits, if the network lets it. -/
theorem exists_exit (hf : cfg.Fits) (h : (system cfg).Reachable s) :
    ∃ us s', (system cfg).Path s us s' ∧ (∀ l ∈ us, (!l.idle) = true) ∧
      ∃ status line, s'.main = .exited status line := by
  refine h.exists_final_own (fun l => !l.idle) (μ := State.rank) ?_ ?_
  · rintro s _ s' hr ⟨a, ha, rfl⟩ hl
    exact step_rank (reachable_inv hf hr) ha (by simpa using hl)
  · intro s hr hrun
    obtain ⟨a, s', ha, hl⟩ := (reachable_inv hf hr).progress
      fun status line he => hrun ⟨status, line, he⟩
    exact ⟨_, s', ⟨a, ha, rfl⟩, by rw [hl]; rfl⟩

end ZioBenchmarks.Driver
