import ZioBenchmarks.Driver.Progress

/-!
# What the load driver reports

A connection fails if its last attempt to connect fails, if a write ends with an error, or if a read
ends with an error before a message (`echo`) or the share (`recv`) is complete, and in an unknown
mode every connection fails. That is said of the outcomes of the calls alone, so that the report can
be compared with it: `main` prints a throughput exactly if no connection failed, and then the bytes
the calls moved are the ones it reports.
-/

set_option autoImplicit false

namespace ZioBenchmarks.Driver

open ZioBenchmarks.Transition ZioBenchmarks.Fold

/-! ## The outcomes of a connection -/

section Outcomes

variable {conns : Nat}

/-- The bytes of a read of the connection `i`. -/
def Label.readBytes (i : Fin conns) : Label conns → Nat
  | .read j _ n _ => if j = i then n else 0
  | .main | .dialed _ _ | .wrote _ _ _ | .run _ => 0

/-- The bytes of a write of the connection `i`. -/
def Label.wroteBytes (i : Fin conns) : Label conns → Nat
  | .wrote j n _ => if j = i then n else 0
  | .main | .dialed _ _ | .read _ _ _ _ | .run _ => 0

/-- The bytes the connection `i` has read. -/
def received (i : Fin conns) (tr : List (Label conns)) : Nat := (tr.map (Label.readBytes i)).sum

/-- The bytes the connection `i` has written. -/
def written (i : Fin conns) (tr : List (Label conns)) : Nat := (tr.map (Label.wroteBytes i)).sum

/-- A call of the goroutine `i` has ended. -/
def Label.calls (i : Fin conns) : Label conns → Bool
  | .dialed j _ | .wrote j _ _ | .read j _ _ _ => j == i
  | .main | .run _ => false

end Outcomes

namespace Config

variable (cfg : Config) (i : Fin cfg.conns) (tr : List (Label cfg.conns))

/-- The outcome `l` behind `tr` makes the connection `i` fail: the last of 200 attempts to connect, a
write that ended with an error, or a read that ended with one before its message, or its share, was
complete. -/
def Fails : Label cfg.conns → Prop
  | .dialed j ok => j = i ∧ ok = false ∧ tr.count (.dialed i false) = 199
  | .wrote j _ err => j = i ∧ err = true
  | .read j want n err =>
      j = i ∧ err = true ∧
        -- `ReadFull` drops an error that comes with its last bytes, and the test behind the loop of
        -- `recv` looks at the bytes alone
        if cfg.mode = .echo then n < want
        else received i tr + n < cfg.mb * 2 ^ 20 / cfg.conns
  | .main | .run _ => False

/-- Some outcome made the connection `i` fail. -/
def Broken : Prop := ∃ us l, us ++ [l] <+: tr ∧ cfg.Fails i us l

/-- The connection `i` failed. -/
def Failed : Prop := cfg.mode = .other ∨ cfg.Broken i tr

/-- What the outcomes so far say about a goroutine at a statement; `r` is its place in `results`. -/
def Tells (r : Option Err) : Pc → Prop
  | .dial attempt => attempt < 200 ∧ tr.count (.dialed i false) = attempt ∧ ¬ cfg.Broken i tr
  | .connectFailed => cfg.Broken i tr
  | .failedDone => r ≠ none ∧ cfg.Broken i tr
  | .ready | .awaitStart | .fill | .readFull _ | .write | .send | .recv => ¬ cfg.Broken i tr
  | .assign r' => r' = none ↔ ¬ cfg.Failed i tr
  | .exitDone | .gone => r = none ↔ ¬ cfg.Failed i tr

/-- A goroutine is where its outcomes have led it, and has moved the bytes they moved. -/
structure Told (g : Conn) (r : Option Err) : Prop where
  wrote : g.wrote = written i tr
  read : g.read = received i tr
  tells : cfg.Tells i tr r g.pc

end Config

variable {cfg : Config} {s s' : State cfg.conns} {i : Fin cfg.conns} {tr : List (Label cfg.conns)}
  {l : Label cfg.conns} {g g' : Conn} {r r' : Option Err} {n : Nat} {err : Bool}

@[simp] theorem received_snoc : received i (tr ++ [l]) = received i tr + l.readBytes i := by
  simp [received]

@[simp] theorem written_snoc : written i (tr ++ [l]) = written i tr + l.wroteBytes i := by
  simp [written]

theorem not_broken_nil : ¬ cfg.Broken i [] := by
  rintro ⟨us, l, hpre, -⟩
  simp at hpre

/-- A connection fails with an outcome, or failed before it. -/
theorem broken_snoc : cfg.Broken i (tr ++ [l]) ↔ cfg.Broken i tr ∨ cfg.Fails i tr l := by
  constructor
  · rintro ⟨us, m, hpre, hfails⟩
    rcases List.prefix_concat_iff.1 hpre with heq | hpre
    · obtain ⟨rfl, hm⟩ := List.append_inj' heq rfl
      cases hm
      exact .inr hfails
    · exact .inl ⟨us, m, hpre, hfails⟩
  · rintro (⟨us, m, hpre, hfails⟩ | hfails)
    · exact ⟨us, m, hpre.trans (List.prefix_append _ _), hfails⟩
    · exact ⟨tr, l, List.prefix_refl _, hfails⟩

/-- What is not a call of the connection says nothing about it. -/
theorem Config.Told.quiet (h : cfg.Told i tr g r) (hl : l.calls i = false) :
    cfg.Told i (tr ++ [l]) g r := by
  have hread : l.readBytes i = 0 := by
    cases l <;> simp_all [Label.calls, Label.readBytes]
  have hwrote : l.wroteBytes i = 0 := by
    cases l <;> simp_all [Label.calls, Label.wroteBytes]
  have hcount : (tr ++ [l]).count (.dialed i false) = tr.count (.dialed i false) := by
    rw [List.count_append, List.count_singleton]
    cases l <;> simp_all [Label.calls]
  have hfails : ¬ cfg.Fails i tr l := by
    cases l <;> simp_all [Label.calls, Config.Fails]
  have hbroken : cfg.Broken i (tr ++ [l]) ↔ cfg.Broken i tr := by
    rw [broken_snoc]
    exact or_iff_left hfails
  refine ⟨by rw [written_snoc, hwrote]; exact h.wrote, by rw [received_snoc, hread]; exact h.read, ?_⟩
  -- so the same is known at every statement
  have htells := h.tells
  cases hp : g.pc
  all_goals
    rw [hp] at htells
    simpa only [Config.Tells, Config.Failed, hcount, hbroken] using htells

/-! ## The calls -/

theorem dial_told (h : cfg.Told i tr g r) {attempt : Nat} (hp : g.pc = .dial attempt) {ok : Bool} :
    cfg.Told i (tr ++ [.dialed i ok]) { g with pc := Pc.dialed attempt ok } r := by
  have htells := h.tells
  rw [hp] at htells
  obtain ⟨hlt, hcount, hbroken⟩ := htells
  refine ⟨by simpa [Label.wroteBytes] using h.wrote, by simpa [Label.readBytes] using h.read, ?_⟩
  unfold Pc.dialed
  cases ok with
  | true =>
      change ¬ cfg.Broken i _
      rw [broken_snoc]
      simp [hbroken, Config.Fails]
  | false =>
      -- the attempts that failed are counted in the labels, and the last one of them breaks it
      have hsnoc : (tr ++ [Label.dialed i false]).count (.dialed i false) = attempt + 1 := by
        rw [List.count_append, hcount, List.count_singleton_self]
      simp only [Bool.false_eq_true, if_false]
      by_cases hmore : attempt + 1 < 200
      · rw [if_pos hmore]
        refine ⟨hmore, hsnoc, ?_⟩
        rw [broken_snoc]
        simp only [hbroken, Config.Fails, hcount, false_or]
        omega
      · rw [if_neg hmore]
        change cfg.Broken i _
        rw [broken_snoc]
        exact .inr ⟨rfl, rfl, by omega⟩

/-- Where the loops of `work` leave a goroutine that has not failed. -/
theorem echoLoop_tells (hm : cfg.mode ≠ .other) (hb : ¬ cfg.Broken i tr) :
    cfg.Tells i tr r (cfg.echoLoop g).pc := by
  unfold Config.echoLoop
  by_cases hlt : g.got < cfg.msgs
  · rw [if_pos hlt]
    exact hb
  · rw [if_neg hlt]
    simp [Config.Tells, Config.Failed, hm, hb]

theorem fillLoop_tells (hm : cfg.mode ≠ .other) (hb : ¬ cfg.Broken i tr) :
    cfg.Tells i tr r (cfg.fillLoop g).pc := by
  unfold Config.fillLoop
  split
  · exact hb
  · exact echoLoop_tells hm hb

theorem sendLoop_tells (hm : cfg.mode ≠ .other) (hb : ¬ cfg.Broken i tr) :
    cfg.Tells i tr r (Config.sendLoop g).pc := by
  unfold Config.sendLoop
  by_cases hlt : 0 < g.left
  · rw [if_pos hlt]
    exact hb
  · rw [if_neg hlt]
    simp [Config.Tells, Config.Failed, hm, hb]

theorem recvLoop_tells (hm : cfg.mode ≠ .other) (hb : ¬ cfg.Broken i tr) :
    cfg.Tells i tr r (Config.recvLoop g).pc := by
  unfold Config.recvLoop
  by_cases hlt : 0 < g.left
  · rw [if_pos hlt]
    exact hb
  · rw [if_neg hlt]
    simp [Config.Tells, Config.Failed, Config.recvResult, hlt, hm, hb]

/-- A goroutine enters `work`, or finds that there is none. -/
theorem enter_tells (hb : ¬ cfg.Broken i tr) : cfg.Tells i tr r (cfg.enter g).pc := by
  unfold Config.enter
  split
  case h_1 hm => exact fillLoop_tells (by simp [hm]) hb
  case h_2 hm => exact sendLoop_tells (by simp [hm]) hb
  case h_3 hm => exact recvLoop_tells (by simp [hm]) hb
  case h_4 hm => simp [Config.Tells, Config.Failed, hm]

/-- A write counts its bytes. -/
theorem Config.Told.of_write (h : cfg.Told i tr g r) (hwrote : g'.wrote = g.wrote + n)
    (hread : g'.read = g.read) (htells : cfg.Tells i (tr ++ [.wrote i n err]) r g'.pc) :
    cfg.Told i (tr ++ [.wrote i n err]) g' r where
  wrote := by rw [hwrote, h.wrote, written_snoc, Label.wroteBytes, if_pos rfl]
  read := by rw [hread, h.read, received_snoc, Label.readBytes, Nat.add_zero]
  tells := htells

/-- A read counts its bytes. -/
theorem Config.Told.of_read (h : cfg.Told i tr g r) {want : Nat} (hwrote : g'.wrote = g.wrote)
    (hread : g'.read = g.read + n) (htells : cfg.Tells i (tr ++ [.read i want n err]) r g'.pc) :
    cfg.Told i (tr ++ [.read i want n err]) g' r where
  wrote := by rw [hwrote, h.wrote, written_snoc, Label.wroteBytes, Nat.add_zero]
  read := by rw [hread, h.read, received_snoc, Label.readBytes, if_pos rfl]
  tells := htells

/-- A goroutine that reads or writes has not failed. -/
theorem Config.Told.not_broken (h : cfg.Told i tr g r) (hio : cfg.io g n err = some g') :
    ¬ cfg.Broken i tr := by
  have htells := h.tells
  unfold Config.io at hio
  cases hp : g.pc with
  | fill | readFull _ | write | send | recv =>
      rw [hp] at htells
      exact htells
  | dial _ | connectFailed | failedDone | ready | awaitStart | assign _ | exitDone | gone =>
      simp [hp] at hio

/-- A write without an error is no failure. -/
theorem write_not_broken (hb : ¬ cfg.Broken i tr) : ¬ cfg.Broken i (tr ++ [.wrote i n false]) := by
  rw [broken_snoc]
  simp [hb, Config.Fails]

/-- Neither is a read without one. -/
theorem read_not_broken {want : Nat} (hb : ¬ cfg.Broken i tr) :
    ¬ cfg.Broken i (tr ++ [.read i want n false]) := by
  rw [broken_snoc]
  simp [hb, Config.Fails]

/-- Nor is a read that completes its message: an error that comes with the last bytes is dropped. -/
theorem message_not_broken (hm : cfg.mode = .echo) (hb : ¬ cfg.Broken i tr) {off : Nat}
    (heq : off + n = cfg.size) : ¬ cfg.Broken i (tr ++ [.read i (cfg.size - off) n err]) := by
  rw [broken_snoc]
  simp only [hb, Config.Fails, hm, if_true, false_or]
  omega

/-- The share is read when the test behind the loop finds nothing left. -/
theorem recvResult_none (hf : cfg.Fits) (hread : (g.read : Int) + g.left = cfg.perConn) :
    Config.recvResult (g.left - n) = none ↔ ¬ g.read + n < cfg.mb * 2 ^ 20 / cfg.conns := by
  rw [perConn_eq hf] at hread
  unfold Config.recvResult
  split
  case isTrue hlt =>
    simp only [reduceCtorEq, false_iff]
    omega
  case isFalse hlt =>
    simp only [true_iff]
    omega

/-- Each read and write leads its goroutine where its outcome says. -/
theorem io_told (hf : cfg.Fits) (hg : cfg.Good g r) (h : cfg.Told i tr g r)
    (hio : cfg.io g n err = some g') : cfg.Told i (tr ++ [cfg.ioLabel i g n err]) g' r := by
  have hb := h.not_broken hio
  rw [Config.Good] at hg
  unfold Config.ioLabel
  -- the mode is known where the call is made, and is not the unknown one
  cases io_cases hio with
  | writeError hp =>
      have hbroken : cfg.Broken i (tr ++ [.wrote i n true]) := broken_snoc.2 (.inr ⟨rfl, rfl⟩)
      have htells : cfg.Tells i (tr ++ [.wrote i n true]) r (.assign (some .io)) := by
        simp [Config.Tells, Config.Failed, hbroken]
      rcases hp with hp | hp | hp
      all_goals
        simp only [hp]
        exact h.of_write rfl rfl htells
  | fill hp =>
      simp only [hp] at hg ⊢
      have hmoved := fillLoop_moved cfg { g with wrote := g.wrote + n, sent := g.sent + 1 }
      exact h.of_write hmoved.2.1 hmoved.2.2 (fillLoop_tells (by simp [hg.1]) (write_not_broken hb))
  | write hp =>
      simp only [hp] at hg ⊢
      exact h.of_write rfl rfl (echoLoop_tells (by simp [hg.1]) (write_not_broken hb))
  | send hp hall =>
      simp only [hp] at hg ⊢
      exact h.of_write rfl rfl (sendLoop_tells (by simp [hg.1]) (write_not_broken hb))
  | readError off hp hlt =>
      simp only [hp] at hg ⊢
      have hbroken : cfg.Broken i (tr ++ [.read i (cfg.size - off) n true]) := by
        rw [broken_snoc]
        refine .inr ⟨rfl, rfl, ?_⟩
        rw [if_pos hg.1]
        omega
      exact h.of_read rfl rfl (by simp [Config.Tells, Config.Failed, hbroken])
  | part off hp hlt =>
      simp only [hp] at hg ⊢
      exact h.of_read rfl rfl (read_not_broken hb)
  | message err off hp heq _ =>
      simp only [hp] at hg ⊢
      exact h.of_read rfl rfl (message_not_broken hg.1 hb heq)
  | lastMessages err off hp heq _ =>
      simp only [hp] at hg ⊢
      exact h.of_read rfl rfl
        (echoLoop_tells (by simp [hg.1]) (message_not_broken hg.1 hb heq))
  | recvError hp hle =>
      simp only [hp] at hg ⊢
      refine h.of_read rfl rfl ?_
      -- only the bytes decide whether the error counts
      have hne : cfg.mode ≠ .other := by simp [hg.1]
      have hecho : cfg.mode ≠ .echo := by simp [hg.1]
      simp only [Config.Tells, Config.Failed, hne, false_or]
      rw [recvResult_none hf hg.2.2, broken_snoc, h.read]
      simp [hb, Config.Fails, hecho]
  | recv hp hle =>
      simp only [hp] at hg ⊢
      exact h.of_read rfl rfl (recvLoop_tells (by simp [hg.1]) (read_not_broken hb))

/-! ## Runs -/

/-- One goroutine moves, or its place in `results` is written. -/
theorem told_update (hother : ∀ j, j ≠ i → cfg.Told j tr (s.conn j) (s.results j))
    (hg : cfg.Told i tr g r) (hconn : s'.conn = Function.update s.conn i g)
    (hresults : s'.results = Function.update s.results i r) (j : Fin cfg.conns) :
    cfg.Told j tr (s'.conn j) (s'.results j) := by
  rw [hconn, hresults]
  by_cases hj : j = i
  · subst hj
    rwa [Function.update_self, Function.update_self]
  · rw [Function.update_of_ne hj, Function.update_of_ne hj]
    exact hother j hj

/-- One goroutine moves, and `results` stays as it is. -/
theorem told_setConn (hother : ∀ j, j ≠ i → cfg.Told j tr (s.conn j) (s.results j))
    (hg : cfg.Told i tr g (s.results i)) (hconn : s'.conn = Function.update s.conn i g)
    (hresults : s'.results = s.results) (j : Fin cfg.conns) :
    cfg.Told j tr (s'.conn j) (s'.results j) :=
  told_update hother hg hconn (hresults.trans (Function.update_eq_self _ _).symm) j

theorem runStep_told (h : ∀ j, cfg.Told j tr (s.conn j) (s.results j))
    (hrun : runStep cfg s i = some s') (j : Fin cfg.conns) :
    cfg.Told j tr (s'.conn j) (s'.results j) := by
  have hi := h i
  have htells := hi.tells
  unfold runStep at hrun
  cases hp : (s.conn i).pc with
  | connectFailed =>
      rw [hp] at htells
      simp only [hp, Option.some.injEq] at hrun
      have hg : cfg.Told i tr { s.conn i with pc := .failedDone } (some .connectFailed) :=
        ⟨hi.wrote, hi.read, Option.some_ne_none _, htells⟩
      exact told_update (fun j _ => h j) hg (by rw [← hrun]; rfl) (by rw [← hrun]; rfl) j
  | failedDone =>
      rw [hp] at htells
      simp only [hp, Option.some.injEq] at hrun
      -- the error is in `results` before `connected.Done()`, and stays there
      have hiff : s.results i = none ↔ ¬ cfg.Failed i tr :=
        iff_of_false htells.1 (not_not_intro (.inr htells.2))
      have hg : cfg.Told i tr { s.conn i with pc := .exitDone } (s.results i) :=
        ⟨hi.wrote, hi.read, hiff⟩
      exact told_setConn (fun j _ => h j) hg (by rw [← hrun]; rfl) (by rw [← hrun]; rfl) j
  | ready =>
      rw [hp] at htells
      simp only [hp, Option.some.injEq] at hrun
      have hg : cfg.Told i tr { s.conn i with pc := .awaitStart } (s.results i) :=
        ⟨hi.wrote, hi.read, htells⟩
      exact told_setConn (fun j _ => h j) hg (by rw [← hrun]; rfl) (by rw [← hrun]; rfl) j
  | awaitStart =>
      rw [hp] at htells
      simp only [hp] at hrun
      split at hrun
      case isFalse => cases hrun
      case isTrue =>
        simp only [Option.some.injEq] at hrun
        obtain ⟨-, hwrote, hread⟩ := enter_moved cfg (s.conn i)
        have hg : cfg.Told i tr (cfg.enter (s.conn i)) (s.results i) :=
          ⟨hwrote.trans hi.wrote, hread.trans hi.read, enter_tells htells⟩
        exact told_setConn (fun j _ => h j) hg (by rw [← hrun]; rfl) (by rw [← hrun]; rfl) j
  | assign r =>
      rw [hp] at htells
      simp only [hp, Option.some.injEq] at hrun
      have hg : cfg.Told i tr { s.conn i with pc := .exitDone } r := ⟨hi.wrote, hi.read, htells⟩
      exact told_update (fun j _ => h j) hg (by rw [← hrun]; rfl) (by rw [← hrun]; rfl) j
  | exitDone =>
      rw [hp] at htells
      simp only [hp, Option.some.injEq] at hrun
      have hg : cfg.Told i tr { s.conn i with pc := .gone } (s.results i) :=
        ⟨hi.wrote, hi.read, htells⟩
      exact told_setConn (fun j _ => h j) hg (by rw [← hrun]; rfl) (by rw [← hrun]; rfl) j
  | dial _ | fill | readFull _ | write | send | recv | gone => simp [hp] at hrun

/-- Every step leaves each goroutine where its outcomes say. -/
theorem act_told (hf : cfg.Fits) (hi : Inv cfg s)
    (h : ∀ j, cfg.Told j tr (s.conn j) (s.results j)) {a : Act cfg.conns}
    (ha : act cfg s a = some s') (j : Fin cfg.conns) :
    cfg.Told j (tr ++ [a.label cfg s]) (s'.conn j) (s'.results j) := by
  cases a with
  | main =>
      obtain ⟨hconn, hresults, -⟩ := mainStep_left ha
      rw [hconn, hresults]
      exact (h j).quiet rfl
  | run i => exact (runStep_told h ha j).quiet rfl
  | dial i ok =>
      obtain ⟨attempt, hp, hs'⟩ := dial_cases ha
      have hother : ∀ j, j ≠ i → cfg.Told j (tr ++ [.dialed i ok]) (s.conn j) (s.results j) :=
        fun j hj => (h j).quiet (by simp [Label.calls, hj.symm])
      exact told_setConn hother (dial_told (h i) hp) (by rw [← hs']; rfl) (by rw [← hs']; rfl) j
  | io i n err =>
      obtain ⟨g, hg, hs'⟩ := Option.map_eq_some_iff.1 ha
      have hcalls : ∀ j, j ≠ i → (cfg.ioLabel i (s.conn i) n err).calls j = false := by
        intro j hj
        unfold Config.ioLabel
        split <;> simp [Label.calls, hj.symm]
      have hother : ∀ j, j ≠ i →
          cfg.Told j (tr ++ [cfg.ioLabel i (s.conn i) n err]) (s.conn j) (s.results j) :=
        fun j hj => (h j).quiet (hcalls j hj)
      exact told_setConn hother (io_told hf (hi.good i) (h i) hg) (by rw [← hs']; rfl)
        (by rw [← hs']; rfl) j

theorem run_told (hf : cfg.Fits) (h : (system cfg).Run tr s) (i : Fin cfg.conns) :
    cfg.Told i tr (s.conn i) (s.results i) := by
  refine System.Run.invariant
    (I := fun tr s => ∀ i, cfg.Told i tr (s.conn i) (s.results i)) ?_ ?_ h i
  · rintro _ rfl i
    exact ⟨rfl, rfl, by decide, rfl, not_broken_nil⟩
  · rintro tr s _ s' hr hi ⟨a, ha, rfl⟩
    exact act_told hf (reachable_inv hf hr.reachable) hi ha

/-! ## The report -/

theorem failed_eq_zero_iff {conns : Nat} (results : Fin conns → Option Err) :
    failed results = 0 ↔ ∀ i, results i = none := by
  simp [failed, List.countP_eq_zero]

/-- `main` reports a throughput, with status `0`, exactly if every place in `results` is `nil`. -/
theorem exit_eq_iff {results : Fin cfg.conns → Option Err} {status : Nat} {line : Option Line}
    (h : MainPc.exited status line = cfg.exit results) :
    (line ≠ none ↔ ∀ i, results i = none) ∧ (status = 0 ↔ line ≠ none) ∧
      (line ≠ none → line = some cfg.line) := by
  rw [← failed_eq_zero_iff]
  unfold Config.exit at h
  split at h
  case isTrue hpos =>
    cases h
    simp
    omega
  case isFalse hzero =>
    cases h
    simp
    omega

/-- What was exited with is decided, and a connection without an error did its share. -/
theorem Inv.complete (hi : Inv cfg s) {status : Nat} {line : Option Line}
    (hexit : s.main = .exited status line) (hr : s.results i = none) :
    cfg.Complete (s.conn i) := by
  have hm := hi.main
  rw [hexit] at hm
  have hg := hi.good i
  rw [Config.Good, gone_of_done hi hm.1 i] at hg
  exact hg hr

/-- The bytes in the report are those of all connections. -/
theorem line_bytes (hf : cfg.Fits) (hm : cfg.mode ≠ .echo) :
    cfg.line = .bytes ((cfg.mb * 2 ^ 20 / cfg.conns * cfg.conns : Nat) : Int) := by
  have hbytes := hf.bytes
  have hmul : cfg.mb * 1024 * 1024 = cfg.mb * 2 ^ 20 := by ring
  have hle : cfg.mb * 2 ^ 20 / cfg.conns * cfg.conns ≤ cfg.mb * 2 ^ 20 := Nat.div_mul_le_self _ _
  rw [Config.line, if_neg hm, perConn_eq hf, ← Nat.cast_mul, int64_eq (by omega)]

theorem line_echo (hf : cfg.Fits) (hm : cfg.mode = .echo) :
    cfg.line = .echo ((cfg.msgs * cfg.conns : Nat) : Int) := by
  rw [Config.line, if_pos hm, ← Nat.cast_mul, int64_eq hf.total]

/-- The driver reports only work that was done. Until `main` exits something can happen, it can
always get to its exit, a run is bounded but for reads that return nothing, and once the goroutines
have finished their reads and writes the rest is bounded by their number. `results` has `nil` exactly
for the connections that did not fail, and `main` prints a throughput, with status `0`, exactly if
none did; then every connection did its share, and the line says how much that was. -/
theorem driver_reports (hf : cfg.Fits) (h : (system cfg).Run tr s) :
    ((∀ status line, s.main ≠ .exited status line) → ∃ l s', (system cfg).step s l s') ∧
    tr.countP (fun l => !l.idle) ≤
      cfg.conns * (206 + cfg.msgs * (cfg.size + 1)) + cfg.mb * 2 ^ 20 + 4 ∧
    (∃ us s' status line, (system cfg).Path s us s' ∧ s'.main = .exited status line) ∧
    ((∀ i, (s.conn i).pc.settled = true) →
      ∀ us s', (system cfg).Path s us s' → us.length ≤ 3 * cfg.conns + 4) ∧
    ∀ status line, s.main = .exited status line →
      (∀ i, s.results i = none ↔ ¬ cfg.Failed i tr) ∧
      (line ≠ none ↔ ∀ i, ¬ cfg.Failed i tr) ∧ (status = 0 ↔ line ≠ none) ∧
      (line ≠ none → cfg.mode ≠ .other ∧
        (cfg.mode = .echo → line = some (.echo ((cfg.msgs * cfg.conns : Nat) : Int)) ∧
          ∀ i, (s.conn i).got = cfg.msgs ∧ received i tr = cfg.msgs * cfg.size) ∧
        (cfg.mode ≠ .echo →
          line = some (.bytes ((cfg.mb * 2 ^ 20 / cfg.conns * cfg.conns : Nat) : Int))) ∧
        (cfg.mode = .send → ∀ i, written i tr = cfg.mb * 2 ^ 20 / cfg.conns) ∧
        (cfg.mode = .recv → ∀ i, received i tr = cfg.mb * 2 ^ 20 / cfg.conns)) := by
  have hi := reachable_inv hf h.reachable
  have htold := run_told hf h
  refine ⟨fun hrun => ?_, run_length hf h, ?_, fun hs us s' hp => settled_path h.reachable hs hp,
    fun status line hexit => ?_⟩
  · obtain ⟨a, s', ha, -⟩ := hi.progress hrun
    exact ⟨_, s', a, ha, rfl⟩
  · obtain ⟨us, s', hp, -, status, line, hexit⟩ := exists_exit hf h.reachable
    exact ⟨us, s', status, line, hp, hexit⟩
  · have hm := hi.main
    rw [hexit] at hm
    have hresults : ∀ i, s.results i = none ↔ ¬ cfg.Failed i tr := by
      intro i
      have htells := (htold i).tells
      rwa [gone_of_done hi hm.1 i] at htells
    obtain ⟨hline, hstatus, hsome⟩ := exit_eq_iff hm.2
    refine ⟨hresults, hline.trans (forall_congr' hresults), hstatus, fun hprinted => ?_⟩
    -- the line is printed only if no result is an error, and then every connection is complete
    have hall : ∀ i, cfg.Complete (s.conn i) := fun i =>
      hi.complete hexit (hline.1 hprinted i)
    have hperConn := perConn_eq hf
    refine ⟨?_, ?_, ?_, ?_, ?_⟩
    · intro hmode
      have hc := hall ⟨0, cfg.conns_pos⟩
      rw [Config.Complete, hmode] at hc
      exact hc
    · intro hmode
      refine ⟨by rw [hsome hprinted, line_echo hf hmode], fun i => ?_⟩
      have hc := hall i
      rw [Config.Complete, hmode] at hc
      exact ⟨hc.1, (htold i).read.symm.trans hc.2⟩
    · intro hmode
      rw [hsome hprinted, line_bytes hf hmode]
    · intro hmode i
      have hc := hall i
      rw [Config.Complete, hmode] at hc
      exact (htold i).wrote.symm.trans (Int.ofNat_inj.1 (hc.trans hperConn))
    · intro hmode i
      have hc := hall i
      rw [Config.Complete, hmode] at hc
      exact (htold i).read.symm.trans (Int.ofNat_inj.1 (hc.trans hperConn))

/-- Two connections that read back two messages of two bytes each. -/
def twoMessages : Config := ⟨.echo, 2, 2, 2, 1, 0, Nat.two_pos, Nat.two_pos, Nat.one_pos⟩

/-- Two connections that read half a megabyte each. -/
def halfMegabytes : Config := ⟨.recv, 2, 0, 2 ^ 20, 1, 1, Nat.two_pos, by decide, Nat.one_pos⟩

def first : Fin 2 := ⟨0, Nat.two_pos⟩

def second : Fin 2 := ⟨1, Nat.one_lt_two⟩

/-- Run a list of actions from the start. -/
def replay (cfg : Config) (as : List (Act cfg.conns)) :
    Option (List (Label cfg.conns) × State cfg.conns) :=
  System.replay (System.labelled (act cfg) fun s a _ => a.label cfg s) (initial cfg) as

theorem run_of_replay {as : List (Act cfg.conns)} {x : List (Label cfg.conns) × State cfg.conns}
    (h : replay cfg as = some x) : (system cfg).Run x.1 x.2 :=
  System.Run.of_labelled (T := system cfg) (fun _ a _ ha => ⟨a, ha, rfl⟩) rfl h

/-- The first connection is refused once, its first message comes in two parts, and an error comes
with the last byte of each message. -/
def twoMessagesActs : List (Act 2) :=
  [.dial first false, .dial first true, .run first, .dial second true, .run second, .main, .main,
    .run first, .run second, .io first 2 false, .io second 2 false, .io first 1 false,
    .io first 0 false, .io first 1 true, .io first 2 false, .io second 2 false, .io second 2 false,
    .io first 2 true, .io second 2 false, .run first, .run second, .run first, .run second,
    .main, .main]

/-- The first connection ends with its last byte, the second before it. -/
def halfMegabytesActs : List (Act 2) :=
  [.dial first true, .dial second true, .run first, .run second, .main, .main, .run first,
    .run second, .io first 500000 false, .io second 500000 false, .io second 0 true,
    .io first 24288 true, .run first, .run second, .run second, .run first, .main, .main]

def twoMessagesRun : List (Label 2) × State 2 :=
  (replay twoMessages twoMessagesActs).get (by decide +kernel)

def halfMegabytesRun : List (Label 2) × State 2 :=
  (replay halfMegabytes halfMegabytesActs).get (by decide +kernel)

/-- Four messages are reported, and of the two streams the one that ended early is a failure. -/
theorem driver_reports_twoMessages :
    ((system twoMessages).Run twoMessagesRun.1 twoMessagesRun.2 ∧
      twoMessagesRun.2.main = .exited 0 (some (.echo 4)) ∧
      ∀ i, received i twoMessagesRun.1 = 4) ∧
    (system halfMegabytes).Run halfMegabytesRun.1 halfMegabytesRun.2 ∧
      halfMegabytesRun.2.main = .exited 1 none ∧
      ¬ halfMegabytes.Failed first halfMegabytesRun.1 ∧
      halfMegabytes.Failed second halfMegabytesRun.1 := by
  have h : (system twoMessages).Run twoMessagesRun.1 twoMessagesRun.2 :=
    run_of_replay (Option.some_get _).symm
  have h' : (system halfMegabytes).Run halfMegabytesRun.1 halfMegabytesRun.2 :=
    run_of_replay (Option.some_get _).symm
  have hexit : twoMessagesRun.2.main = .exited 0 (some (.echo 4)) := by decide +kernel
  have hexit' : halfMegabytesRun.2.main = .exited 1 none := by decide +kernel
  have hreport := (driver_reports ⟨by decide, by decide⟩ h).2.2.2.2 _ _ hexit
  have hreport' := (driver_reports ⟨by decide, by decide⟩ h').2.2.2.2 _ _ hexit'
  refine ⟨⟨h, hexit, ?_⟩, h', hexit', ?_, ?_⟩
  · exact fun i => ((hreport.2.2.2 (Option.some_ne_none _)).2.1 rfl).2 i |>.2
  · exact (hreport'.1 first).1 (by decide +kernel)
  · by_contra hne
    have hnone := (hreport'.1 second).2 hne
    revert hnone
    decide +kernel

end ZioBenchmarks.Driver
