import Mathlib.Data.List.Destutter
import Mathlib.Data.List.Flatten
import ZioBenchmarks.Bench.Throughput
import ZioBenchmarks.Imperative.Loops

/-!
# The matrix of runs

`run_matrix`, `tcp_run_matrix` and `http_run_matrix` of `bench.py` run every engine in every column,
once in a round, and collect what they read from the outputs in a dictionary of samples. The latter
two start a server process for a group of columns and stop it in a `finally`. What a run prints may
depend on everything that has happened before, and reading it may raise.
-/

set_option autoImplicit false

namespace ZioBenchmarks.Bench

open ZioBenchmarks.Imperative ZioBenchmarks.Regex

universe u v

/-- An `Engine`: `argv` is `bin` and `args`, and `dash` the prefix of a flag. -/
structure Engine where
  label : String
  bin : String
  args : List String
  env : List (String × String)
  dash : String
  deriving DecidableEq, Repr

/-- `Engine.command`: the arguments behind the binary. -/
def Engine.command (e : Engine) (params : List (String × Nat)) : List String :=
  e.args ++ params.map fun p => e.dash ++ p.1 ++ "=" ++ toString p.2

/-- What happens: a server process is started in a mode, an engine is run in a column and prints
something, the server is stopped. -/
inductive Event (κ μ : Type) where
  | start (e : Engine) (m : μ)
  | run (e : Engine) (c : κ) (text : List Char)
  | stop

/-- What has happened, and `samples`. -/
structure Samples (κ μ : Type) (F : Type u) where
  log : List (Event κ μ)
  samples : String × String → List F

/-- A benchmark: its columns, the mode of the server a column needs, how an output is read, and what
the runs print. -/
structure Suite (κ μ : Type) (F : Type u) where
  column : κ → String
  needs : κ → Option μ
  parse : List Char → Except Error (Option F)
  prints : List (Event κ μ) → Engine → κ → List Char

section Sweep

variable {κ μ : Type} {F : Type u} (suite : Suite κ μ F)

/-- `samples[(e.label, c)].append(v)`, if there is a value. -/
def Samples.append (st : Samples κ μ F) (key : String × String) (v : Option F) :
    Samples κ μ F :=
  { st with samples := Function.update st.samples key (st.samples key ++ v.toList) }

/-- One run, and what is read from its output. -/
def runCase (e : Engine) (c : κ) : Prog (Samples κ μ F) Error := fun st =>
  let text := suite.prints st.log e c
  let st := { st with log := st.log ++ [.run e c text] }
  match suite.parse text with
  | .ok v => (.ok (), st.append (e.label, suite.column c) v)
  | .error err => (.error err, st)

/-- The runs of a group of columns: `proc = subprocess.Popen(...)`, `try`, and `finally`. -/
def runGroup (e : Engine) (g : Option μ × List κ) : Prog (Samples κ μ F) Error := fun st =>
  match g.1 with
  | none => forEach g.2 (runCase suite e) st
  | some m =>
      tryFinally (forEach g.2 (runCase suite e)) (fun st => { st with log := st.log ++ [.stop] })
        { st with log := st.log ++ [.start e m] }

/-- `for r in range(1, rounds + 1)`, and in each round every engine that is built. -/
def sweep (rounds : Nat) (engines : List Engine) (groups : List (Option μ × List κ)) :
    Prog (Samples κ μ F) Error :=
  forEach (List.range rounds) fun _ => forEach engines fun e => forEach groups (runGroup suite e)

/-- Nothing has happened, all lists are empty. -/
def start : Samples κ μ F := ⟨[], fun _ => []⟩

/-! ## What a log says -/

/-- The server process that is up behind an event, if the event is in order: there is one server at
a time, and a run finds the server it needs. -/
def serve [DecidableEq μ] : Option (Engine × μ) → Event κ μ → Option (Option (Engine × μ))
  | none, .start e m => some (some (e, m))
  | up, .run e c _ => if up = (suite.needs c).map fun m => (e, m) then some up else none
  | some _, .stop => some none
  | _, _ => none

/-- The server process that is up behind a log, if all of its events are in order. -/
def served [DecidableEq μ] (log : List (Event κ μ)) : Option (Option (Engine × μ)) :=
  log.foldlM (serve suite) none

/-- The runs of a log. -/
def runs (log : List (Event κ μ)) : List (Engine × κ) :=
  log.filterMap fun
    | .run e c _ => some (e, c)
    | _ => none

/-- The server starts of a log. -/
def starts (log : List (Event κ μ)) : List (Engine × μ) :=
  log.filterMap fun
    | .start e m => some (e, m)
    | _ => none

/-- The server starts and the runs of a log. -/
def marks (log : List (Event κ μ)) : List (Engine × (μ ⊕ κ)) :=
  log.filterMap fun
    | .start e m => some (e, .inl m)
    | .run e c _ => some (e, .inr c)
    | .stop => none

/-- What an event adds to a cell. -/
def sampleOf (key : String × String) : Event κ μ → List F
  | .run e c text =>
      if (e.label, suite.column c) = key then
        match suite.parse text with
        | .ok v => v.toList
        | .error _ => []
      else []
  | _ => []

/-- Every cell has what was read from the runs of its engine in its column, in order. -/
def Collected (st : Samples κ μ F) : Prop :=
  ∀ key, st.samples key = st.log.flatMap (sampleOf suite key)

variable [DecidableEq μ]

/-- The invariant of the loops: which server is up, and which starts and runs there have been. -/
structure Swept (up : Option (Engine × μ)) (done : List (Engine × (μ ⊕ κ))) (st : Samples κ μ F) :
    Prop where
  served : served suite st.log = some up
  marks : marks st.log = done
  collected : Collected suite st

/-- What holds when a run has raised; `all` is what there was to be done. -/
structure Raised (up : Option (Engine × μ)) (all : List (Engine × (μ ⊕ κ))) (st : Samples κ μ F) :
    Prop where
  served : served suite st.log = some up
  marks : marks st.log <+: all
  collected : Collected suite st

variable {suite}

theorem served_snoc (log : List (Event κ μ)) (x : Event κ μ) :
    served suite (log ++ [x]) = (served suite log).bind fun up => serve suite up x := by
  simp only [served, List.foldlM_append, List.foldlM_cons, List.foldlM_nil]
  cases log.foldlM (serve suite) none with
  | none => rfl
  | some up => exact bind_pure (m := Option) (serve suite up x)

omit [DecidableEq μ] in
theorem marks_snoc (log : List (Event κ μ)) (x : Event κ μ) : marks (log ++ [x]) =
    marks log ++ marks [x] := by
  simp [marks]

omit [DecidableEq μ] in
theorem runs_eq (log : List (Event κ μ)) :
    runs log = (marks log).filterMap fun p => p.2.getRight?.map fun c => (p.1, c) := by
  rw [marks, List.filterMap_filterMap, runs]
  congr 1
  funext x
  cases x <;> rfl

omit [DecidableEq μ] in
theorem starts_eq (log : List (Event κ μ)) :
    starts log = (marks log).filterMap fun p => p.2.getLeft?.map fun m => (p.1, m) := by
  rw [marks, List.filterMap_filterMap, starts]
  congr 1
  funext x
  cases x <;> rfl

omit [DecidableEq μ] in
theorem collected_snoc {st : Samples κ μ F} (h : Collected suite st) {x : Event κ μ}
    (hx : ∀ key, sampleOf suite key x = []) :
    Collected suite { st with log := st.log ++ [x] } := by
  intro key
  simp only [List.flatMap_append, List.flatMap_singleton, hx, List.append_nil]
  exact h key

variable {e : Engine} {c : κ} {done all : List (Engine × (μ ⊕ κ))}

/-- A run keeps the invariant, whether it can be read or not. -/
theorem runCase_triple {up : Option (Engine × μ)}
    (hneeds : (suite.needs c).map (fun m => (e, m)) = up) (hall : done ++ [(e, .inr c)] <+: all) :
    Triple (Swept suite up done) (runCase suite e c) (Swept suite up (done ++ [(e, .inr c)]))
      (Raised suite up all) := by
  rintro st ⟨hserved, hmarks, hcollected⟩
  obtain ⟨text, htext⟩ : ∃ text, suite.prints st.log e c = text := ⟨_, rfl⟩
  have hserved' : served suite (st.log ++ [.run e c text]) = some up := by
    rw [served_snoc, hserved, Option.bind_some]
    cases up <;> simp [serve, hneeds]
  have hmarks' : marks (st.log ++ [.run e c text]) = done ++ [(e, .inr c)] := by
    rw [marks_snoc, hmarks]
    rfl
  unfold runCase
  simp only [htext]
  cases hparse : suite.parse text with
  | ok v =>
      refine ⟨hserved', hmarks', fun key => ?_⟩
      simp only [Samples.append, List.flatMap_append, List.flatMap_singleton, sampleOf, hparse]
      by_cases hkey : key = (e.label, suite.column c)
      · subst hkey
        rw [Function.update_self, if_pos rfl, hcollected]
      · rw [Function.update_of_ne hkey, if_neg (Ne.symm hkey), List.append_nil, hcollected]
  | error err =>
      refine ⟨hserved', by rw [hmarks']; exact hall, collected_snoc hcollected fun key => ?_⟩
      simp [sampleOf, hparse]

/-- The runs of a group. -/
theorem runCases_triple {up : Option (Engine × μ)} {cs : List κ}
    (hneeds : ∀ c ∈ cs, (suite.needs c).map (fun m => (e, m)) = up)
    (hall : done ++ cs.map (fun c => (e, .inr c)) <+: all) :
    Triple (Swept suite up done) (forEach cs (runCase suite e))
      (Swept suite up (done ++ cs.map fun c => (e, .inr c))) (Raised suite up all) := by
  have hstep : ∀ before c rest, cs = before ++ c :: rest →
      Triple (Swept suite up (done ++ before.map fun c => (e, .inr c))) (runCase suite e c)
        (Swept suite up (done ++ (before ++ [c]).map fun c => (e, .inr c)))
        (Raised suite up all) := by
    rintro before c rest rfl
    have hc : c ∈ before ++ c :: rest := by simp
    have hpre : done ++ before.map (fun c => (e, .inr c)) ++ [(e, .inr c)] <+: all := by
      refine List.IsPrefix.trans ?_ hall
      simp
    simpa [List.append_assoc] using runCase_triple (hneeds c hc) hpre
  simpa using Triple.forEach hstep

/-- What there is to be done for a group: its server is started, and then its columns are run. -/
def groupPlan (e : Engine) (g : Option μ × List κ) : List (Engine × (μ ⊕ κ)) :=
  g.1.toList.map (fun m => (e, .inl m)) ++ g.2.map fun c => (e, .inr c)

/-- A group starts and ends without a server. -/
theorem runGroup_triple {g : Option μ × List κ} (hg : ∀ c ∈ g.2, suite.needs c = g.1)
    (hall : done ++ groupPlan e g <+: all) :
    Triple (Swept suite none done) (runGroup suite e g)
      (Swept suite none (done ++ groupPlan e g)) (Raised suite none all) := by
  obtain ⟨mode, cs⟩ := g
  cases mode with
  | none =>
      exact runCases_triple (fun c hc => by rw [hg c hc, Option.map_none]) hall
  | some m =>
      have hup : ∀ c ∈ cs, (suite.needs c).map (fun m => (e, m)) = some (e, m) :=
        fun c hc => by rw [hg c hc, Option.map_some]
      have hplan : done ++ groupPlan e (some m, cs) =
          done ++ [(e, .inl m)] ++ cs.map fun c => (e, .inr c) := by
        simp [groupPlan]
      rw [hplan] at hall ⊢
      have hruns : Triple (Swept suite (some (e, m)) (done ++ [(e, .inl m)]))
          (forEach cs (runCase suite e))
          (fun st => Swept suite none (done ++ [(e, .inl m)] ++ cs.map fun c => (e, .inr c))
            { st with log := st.log ++ [.stop] })
          (fun st => Raised suite none all { st with log := st.log ++ [.stop] }) := by
        -- the server goes down behind the runs, and also if one of them raises
        refine (runCases_triple hup hall).consequence ?_ ?_
        · rintro st ⟨hserved, hmarks, hcollected⟩
          refine ⟨?_, ?_, collected_snoc hcollected fun _ => rfl⟩
          · rw [served_snoc, hserved]
            rfl
          · rw [marks_snoc, hmarks]
            exact List.append_nil _
        · rintro st ⟨hserved, hmarks, hcollected⟩
          refine ⟨?_, ?_, collected_snoc hcollected fun _ => rfl⟩
          · rw [served_snoc, hserved]
            rfl
          · rw [marks_snoc]
            exact (List.append_nil _).symm ▸ hmarks
      rintro st ⟨hserved, hdone, hcollected⟩
      refine Triple.tryFinally hruns _ ⟨?_, ?_, collected_snoc hcollected fun _ => rfl⟩
      · rw [served_snoc, hserved]
        rfl
      · rw [marks_snoc, hdone]
        rfl

/-- What there is to be done in a round. -/
def block (engines : List Engine) (groups : List (Option μ × List κ)) :
    List (Engine × (μ ⊕ κ)) :=
  engines.flatMap fun e => groups.flatMap (groupPlan e)

/-- A list of which the first elements have been seen to begins with them and the next one. -/
theorem prefix_flatMap {α β : Type} {f : α → List β} {l before rest : List α} {x : α}
    (hl : l = before ++ x :: rest) : before.flatMap f ++ f x <+: l.flatMap f := by
  subst hl
  simp

/-- The groups of an engine. -/
theorem runGroups_triple {groups : List (Option μ × List κ)}
    (hgroups : ∀ g ∈ groups, ∀ c ∈ g.2, suite.needs c = g.1)
    (hall : done ++ groups.flatMap (groupPlan e) <+: all) :
    Triple (Swept suite none done) (forEach groups (runGroup suite e))
      (Swept suite none (done ++ groups.flatMap (groupPlan e))) (Raised suite none all) := by
  have hstep : ∀ before g rest, groups = before ++ g :: rest →
      Triple (Swept suite none (done ++ before.flatMap (groupPlan e))) (runGroup suite e g)
        (Swept suite none (done ++ (before ++ [g]).flatMap (groupPlan e)))
        (Raised suite none all) := by
    intro before g rest hl
    have hg : g ∈ groups := by simp [hl]
    have hpre : done ++ before.flatMap (groupPlan e) ++ groupPlan e g <+: all := by
      rw [List.append_assoc]
      exact ((List.prefix_append_right_inj _).2 (prefix_flatMap hl)).trans hall
    simpa [List.append_assoc] using runGroup_triple (hgroups g hg) hpre
  simpa using Triple.forEach hstep

/-- The engines of a round. -/
theorem runEngines_triple {groups : List (Option μ × List κ)} {engines : List Engine}
    (hgroups : ∀ g ∈ groups, ∀ c ∈ g.2, suite.needs c = g.1)
    (hall : done ++ block engines groups <+: all) :
    Triple (Swept suite none done) (forEach engines fun e => forEach groups (runGroup suite e))
      (Swept suite none (done ++ block engines groups)) (Raised suite none all) := by
  have hstep : ∀ before e rest, engines = before ++ e :: rest →
      Triple (Swept suite none (done ++ block before groups)) (forEach groups (runGroup suite e))
        (Swept suite none (done ++ block (before ++ [e]) groups)) (Raised suite none all) := by
    intro before e rest hl
    have hpre : done ++ block before groups ++ groups.flatMap (groupPlan e) <+: all := by
      rw [List.append_assoc]
      exact ((List.prefix_append_right_inj _).2
        (prefix_flatMap (f := fun e => groups.flatMap (groupPlan e)) hl)).trans hall
    simpa [block, List.append_assoc] using runGroups_triple hgroups hpre
  simpa [block] using Triple.forEach hstep

/-- What there is to be done in all rounds. -/
def plan (rounds : Nat) (engines : List Engine) (groups : List (Option μ × List κ)) :
    List (Engine × (μ ⊕ κ)) :=
  (List.range rounds).flatMap fun _ => block engines groups

/-- Each round is one block. -/
theorem sweep_triple {groups : List (Option μ × List κ)} (rounds : Nat) (engines : List Engine)
    (hgroups : ∀ g ∈ groups, ∀ c ∈ g.2, suite.needs c = g.1) :
    Triple (Swept suite none []) (sweep suite rounds engines groups)
      (Swept suite none (plan rounds engines groups))
      (Raised suite none (plan rounds engines groups)) := by
  have hstep : ∀ before r rest, List.range rounds = before ++ r :: rest →
      Triple (Swept suite none (before.flatMap fun _ => block engines groups))
        (forEach engines fun e => forEach groups (runGroup suite e))
        (Swept suite none ((before ++ [r]).flatMap fun _ => block engines groups))
        (Raised suite none (plan rounds engines groups)) := by
    intro before r rest hl
    have hpre : (before.flatMap fun _ => block engines groups) ++ block engines groups <+:
        plan rounds engines groups :=
      prefix_flatMap (f := fun _ => block engines groups) hl
    simpa using runEngines_triple hgroups hpre
  exact Triple.forEach hstep

omit [DecidableEq μ] in
/-- The runs that are planned. -/
theorem plan_runs (rounds : Nat) (engines : List Engine) (groups : List (Option μ × List κ)) :
    (plan rounds engines groups).filterMap (fun p => p.2.getRight?.map fun c => (p.1, c)) =
      (List.range rounds).flatMap fun _ => engines ×ˢ groups.flatMap Prod.snd := by
  have hgroup : ∀ e, ∀ g : Option μ × List κ,
      (groupPlan e g).filterMap (fun p => p.2.getRight?.map fun c => (p.1, c)) =
        g.2.map fun c => (e, c) := by
    rintro e ⟨m, cs⟩
    simp [groupPlan, List.filterMap_map, Function.comp_def]
  simp only [plan, block, List.filterMap_flatMap, hgroup, ← List.map_flatMap]
  rfl

omit [DecidableEq μ] in
/-- The server starts that are planned. -/
theorem plan_starts (rounds : Nat) (engines : List Engine) (groups : List (Option μ × List κ)) :
    (plan rounds engines groups).filterMap (fun p => p.2.getLeft?.map fun m => (p.1, m)) =
      (List.range rounds).flatMap fun _ => engines ×ˢ groups.filterMap Prod.fst := by
  have hgroup : ∀ e, ∀ g : Option μ × List κ,
      (groupPlan e g).filterMap (fun p => p.2.getLeft?.map fun m => (p.1, m)) =
        g.1.toList.map fun m => (e, m) := by
    rintro e ⟨m, cs⟩
    simp [groupPlan, List.filterMap_map, Function.comp_def]
  have hmodes : groups.filterMap Prod.fst = groups.flatMap fun g => g.1.toList :=
    List.filterMap_eq_flatMap_toList _ _
  simp only [plan, block, List.filterMap_flatMap, hgroup, ← List.map_flatMap, ← hmodes]
  rfl

theorem start_swept : Swept suite none [] (start : Samples κ μ F) := ⟨rfl, rfl, fun _ => rfl⟩

/-- What an event adds to the cell of one engine and one column. -/
def ownSample [DecidableEq κ] (suite : Suite κ μ F) (e : Engine) (c : κ) : Event κ μ → List F
  | .run e' c' text =>
      if e' = e ∧ c' = c then
        match suite.parse text with
        | .ok v => v.toList
        | .error _ => []
      else []
  | _ => []

omit [DecidableEq μ] in
/-- A cell is shared by nothing else, if no two engines and no two columns have one name. -/
theorem sampleOf_eq_ownSample [DecidableEq κ] {engines : List Engine} {columns : List κ}
    (hengines : (engines.map Engine.label).Nodup) (hcolumns : (columns.map suite.column).Nodup)
    (he : e ∈ engines) (hc : c ∈ columns) {x : Event κ μ}
    (hx : ∀ y ∈ runs [x], y.1 ∈ engines ∧ y.2 ∈ columns) :
    sampleOf suite (e.label, suite.column c) x = ownSample suite e c x := by
  cases x with
  | start e' m => rfl
  | stop => rfl
  | run e' c' text =>
      obtain ⟨he', hc'⟩ := hx (e', c') (List.mem_singleton_self _)
      have hkey : (e'.label, suite.column c') = (e.label, suite.column c) ↔ e' = e ∧ c' = c := by
        rw [Prod.mk.injEq]
        constructor
        · rintro ⟨hlabel, hcolumn⟩
          exact ⟨List.inj_on_of_nodup_map hengines he' he hlabel,
            List.inj_on_of_nodup_map hcolumns hc' hc hcolumn⟩
        · rintro ⟨rfl, rfl⟩
          exact ⟨rfl, rfl⟩
      simp only [sampleOf, ownSample, hkey]

/-- The loops of a matrix: the servers are in order and started as planned, whatever raises; if
nothing does, every cell was run once in each round, and has what was read from its own runs. -/
theorem sweep_sound [DecidableEq κ] {groups : List (Option μ × List κ)} {rounds : Nat}
    {engines : List Engine} {columns : List κ} {r : Except Error Unit} {st : Samples κ μ F}
    (hgroups : ∀ g ∈ groups, ∀ c ∈ g.2, suite.needs c = g.1)
    (hflat : groups.flatMap Prod.snd = columns)
    (hengines : (engines.map Engine.label).Nodup) (hcolumns : (columns.map suite.column).Nodup)
    (h : sweep suite rounds engines groups start = (r, st)) :
    served suite st.log = some none ∧
    starts st.log <+: (List.range rounds).flatMap (fun _ => engines ×ˢ groups.filterMap Prod.fst) ∧
    (r = .ok () →
      starts st.log =
        (List.range rounds).flatMap (fun _ => engines ×ˢ groups.filterMap Prod.fst) ∧
      runs st.log = (List.range rounds).flatMap (fun _ => engines ×ˢ columns) ∧
      ∀ e ∈ engines, ∀ c ∈ columns, (runs st.log).count (e, c) = rounds ∧
        st.samples (e.label, suite.column c) = st.log.flatMap (ownSample suite e c)) := by
  have htriple := sweep_triple (F := F) rounds engines hgroups start start_swept
  rw [h] at htriple
  rw [← plan_starts, starts_eq]
  cases r with
  | error err =>
      have hmarks := htriple.marks
      exact ⟨htriple.served, hmarks.filterMap _, nofun⟩
  | ok u =>
      have hmarks := htriple.marks
      have hruns : runs st.log = (List.range rounds).flatMap fun _ => engines ×ˢ columns := by
        rw [runs_eq, hmarks, plan_runs, hflat]
      have hnodup : (engines ×ˢ columns).Nodup :=
        hengines.of_map.product hcolumns.of_map
      rw [hmarks]
      refine ⟨htriple.served, List.prefix_refl _, fun _ => ⟨rfl, hruns, fun e he c hc => ⟨?_, ?_⟩⟩⟩
      · have hone : (engines ×ˢ columns).count (e, c) = 1 :=
          List.count_eq_one_of_mem hnodup (List.mem_product.2 ⟨he, hc⟩)
        rw [hruns, List.count_flatMap]
        simp [Function.comp_def, hone]
      · rw [htriple.collected]
        apply List.flatMap_congr
        intro x hx
        apply sampleOf_eq_ownSample hengines hcolumns he hc
        intro y hy
        have hmem : y ∈ runs st.log := by
          rw [runs, List.mem_filterMap] at hy ⊢
          obtain ⟨z, hz, hy⟩ := hy
          rw [List.mem_singleton] at hz
          exact ⟨x, hx, hz ▸ hy⟩
        rw [hruns, List.mem_flatMap] at hmem
        obtain ⟨_, -, hy'⟩ := hmem
        exact List.mem_product.1 hy'

end Sweep

variable {F : Type u} {engines : List Engine} {rounds : Nat}

/-- `built`, by label: the last one counts. -/
def built (onDisk : String → Bool) (engines : List Engine) (label : String) : Bool :=
  match engines.reverse.find? fun e => e.label = label with
  | some e => onDisk e.bin
  | none => false

/-- The engines that are not skipped. -/
def available (onDisk : String → Bool) (engines : List Engine) : List Engine :=
  engines.filter fun e => built onDisk engines e.label

/-- `statistics.median` and `statistics.stdev`. -/
structure Statistics (F : Type u) where
  median : List F → F
  stdev : List F → F
  zero : F

/-- `med_dev`: `None` if there are no samples. -/
def medDev (stat : Statistics F) (vals : List F) : Option (F × F) :=
  if vals.isEmpty then none
  else some (stat.median vals, if 1 < vals.length then stat.stdev vals else stat.zero)

/-- The dictionary that is returned: `None` for an engine that is not built. -/
def medians {κ μ : Type} (stat : Statistics F) (onDisk : String → Bool) (engines : List Engine)
    (st : Samples κ μ F) (label : String) : Option (String → Option (F × F)) :=
  if built onDisk engines label then some fun column => medDev stat (st.samples (label, column))
  else none

/-- With distinct labels an engine is run exactly if its binary exists. -/
theorem built_eq {onDisk : String → Bool} {e : Engine} (h : (engines.map Engine.label).Nodup)
    (he : e ∈ engines) : built onDisk engines e.label = onDisk e.bin := by
  unfold built
  cases hfind : engines.reverse.find? fun x => x.label = e.label with
  | none =>
      have hnone := List.find?_eq_none.1 hfind e (List.mem_reverse.2 he)
      simp at hnone
  | some x =>
      have hx := List.mem_reverse.1 (List.mem_of_find?_eq_some hfind)
      have hlabel : x.label = e.label := by simpa using List.find?_some hfind
      rw [List.inj_on_of_nodup_map h hx he hlabel]

/-! ## `run_matrix` -/

/-- A column of a benchmark: `{**params}` under its label. -/
structure Case where
  label : String
  params : List (String × Nat)
  deriving DecidableEq, Repr

/-- `run_one`: what the binary prints depends on its arguments and its environment. -/
def runOne (unicode : Unicode) (A : Arithmetic F)
    (prints : List (Event Case Unit) → String → List String → List (String × String) → List Char) :
    Suite Case Unit F where
  column c := c.label
  needs _ := none
  parse := parseMs unicode A
  prints log e c := prints log e.bin (e.command c.params) e.env

/-- `run_matrix`. -/
def runMatrix (suite : Suite Case Unit F) (onDisk : String → Bool) (rounds : Nat)
    (engines : List Engine) (cases : List Case) : Prog (Samples Case Unit F) Error :=
  sweep suite rounds (available onDisk engines) [(none, cases)]

/-! ## `tcp_run_matrix` -/

/-- A scenario: its label, the mode of the server, and the arguments of the driver. -/
structure Scenario where
  label : String
  mode : String
  args : List String
  deriving DecidableEq, Repr

/-- A turn of the loop that makes `by_mode`. -/
def addScenario (groups : List (String × List Scenario)) (sc : Scenario) :
    List (String × List Scenario) :=
  match groups.getLast? with
  | some (m, scs) =>
      if m ≠ sc.mode then groups ++ [(sc.mode, [sc])]
      else groups.dropLast ++ [(m, scs ++ [sc])]
  | none => [(sc.mode, [sc])]

/-- `by_mode`. -/
def byMode (scenarios : List Scenario) : List (String × List Scenario) :=
  scenarios.foldl addScenario []

/-- A run of the driver against a server that is up. -/
def tcpSuite (A : Arithmetic F)
    (prints : List (Event Scenario String) → Engine → Scenario → List Char) :
    Suite Scenario String F where
  column sc := sc.label
  needs sc := some sc.mode
  parse := parseThroughput A
  prints := prints

/-- `tcp_run_matrix`. -/
def tcpRunMatrix (suite : Suite Scenario String F) (onDisk : String → Bool) (rounds : Nat)
    (servers : List Engine) (scenarios : List Scenario) : Prog (Samples Scenario String F) Error :=
  sweep suite rounds (available onDisk servers)
    ((byMode scenarios).map fun g => (some g.1, g.2))

/-- The groups have the scenarios in order, each in a group of its mode, and no two neighbours have
one mode: a server is started again only where the mode changes. -/
structure Grouped (scenarios : List Scenario) (groups : List (String × List Scenario)) : Prop where
  flat : groups.flatMap Prod.snd = scenarios
  nonempty : ∀ g ∈ groups, g.2 ≠ []
  mode : ∀ g ∈ groups, ∀ sc ∈ g.2, sc.mode = g.1
  neighbours : (groups.map Prod.fst).IsChain (· ≠ ·)

theorem Grouped.add {scenarios : List Scenario} {groups : List (String × List Scenario)}
    (h : Grouped scenarios groups) (sc : Scenario) :
    Grouped (scenarios ++ [sc]) (addScenario groups sc) := by
  obtain ⟨rfl, hnonempty, hmode, hneighbours⟩ := h
  rcases List.eq_nil_or_concat' groups with rfl | ⟨before, ⟨m, scs⟩, rfl⟩
  · refine ⟨rfl, ?_, ?_, by simp [addScenario]⟩
    · simp [addScenario]
    · simp [addScenario]
  · by_cases hm : m = sc.mode
    · have hadd : addScenario (before ++ [(m, scs)]) sc = before ++ [(m, scs ++ [sc])] := by
        simp [addScenario, hm]
      rw [hadd]
      refine ⟨by simp [List.append_assoc], ?_, ?_, by simpa using hneighbours⟩
      · intro g hg
        rcases List.mem_append.1 hg with hg | hg
        · exact hnonempty g (List.mem_append_left _ hg)
        · obtain rfl := List.mem_singleton.1 hg
          exact List.append_ne_nil_of_right_ne_nil _ (List.cons_ne_nil _ _)
      · intro g hg x hx
        rcases List.mem_append.1 hg with hg | hg
        · exact hmode g (List.mem_append_left _ hg) x hx
        · obtain rfl := List.mem_singleton.1 hg
          rcases List.mem_append.1 hx with hx | hx
          · exact hmode (m, scs) (by simp) x hx
          · obtain rfl := List.mem_singleton.1 hx
            exact hm.symm
    · have hadd : addScenario (before ++ [(m, scs)]) sc =
          before ++ [(m, scs)] ++ [(sc.mode, [sc])] := by
        simp [addScenario, hm]
      rw [hadd]
      refine ⟨by simp [List.append_assoc], ?_, ?_, ?_⟩
      · intro g hg
        rcases List.mem_append.1 hg with hg | hg
        · exact hnonempty g hg
        · obtain rfl := List.mem_singleton.1 hg
          exact List.cons_ne_nil _ _
      · intro g hg x hx
        rcases List.mem_append.1 hg with hg | hg
        · exact hmode g hg x hx
        · obtain rfl := List.mem_singleton.1 hg
          obtain rfl := List.mem_singleton.1 hx
          rfl
      · rw [List.map_append, List.isChain_append]
        refine ⟨hneighbours, by simp, ?_⟩
        simp [hm]

theorem byMode_grouped (scenarios : List Scenario) : Grouped scenarios (byMode scenarios) := by
  unfold byMode
  induction scenarios using List.reverseRecOn with
  | nil => exact ⟨rfl, by simp, by simp, by simp⟩
  | append_singleton scenarios sc ih =>
      rw [List.foldl_append]
      exact ih.add sc

/-- A run of one mode is one mode. -/
theorem destutter'_same {m : String} {ms : List String} (h : ∀ x ∈ ms, x = m) (l : List String) :
    (ms ++ l).destutter' (· ≠ ·) m = l.destutter' (· ≠ ·) m := by
  induction ms with
  | nil => rfl
  | cons x ms ih =>
      obtain rfl : x = m := h x List.mem_cons_self
      rw [List.cons_append, List.destutter'_cons_neg _ (not_not_intro rfl)]
      exact ih fun y hy => h y (List.mem_cons_of_mem _ hy)

/-- The modes of a group are its mode, as often as it has scenarios. -/
theorem group_modes {g : String × List Scenario} (hnonempty : g.2 ≠ [])
    (hmode : ∀ sc ∈ g.2, sc.mode = g.1) :
    ∃ ms, g.2.map Scenario.mode = g.1 :: ms ∧ ∀ x ∈ ms, x = g.1 := by
  obtain ⟨m, scs⟩ := g
  cases scs with
  | nil => exact absurd rfl hnonempty
  | cons sc scs =>
      refine ⟨scs.map Scenario.mode, ?_, fun x hx => ?_⟩
      · rw [List.map_cons, hmode sc List.mem_cons_self]
      · obtain ⟨y, hy, rfl⟩ := List.mem_map.1 hx
        exact hmode y (List.mem_cons_of_mem _ hy)

/-- The modes behind a group are those of the groups that follow. -/
theorem destutter'_groups (groups : List (String × List Scenario)) {m : String}
    (hnonempty : ∀ g ∈ groups, g.2 ≠ []) (hmode : ∀ g ∈ groups, ∀ sc ∈ g.2, sc.mode = g.1)
    (hneighbours : (m :: groups.map Prod.fst).IsChain (· ≠ ·)) :
    ((groups.flatMap Prod.snd).map Scenario.mode).destutter' (· ≠ ·) m =
      m :: groups.map Prod.fst := by
  induction groups generalizing m with
  | nil => rfl
  | cons g groups ih =>
      obtain ⟨ms, hms, hsame⟩ :=
        group_modes (hnonempty g List.mem_cons_self) (hmode g List.mem_cons_self)
      rw [List.map_cons, List.isChain_cons_cons] at hneighbours
      rw [List.flatMap_cons, List.map_append, hms, List.cons_append,
        List.destutter'_cons_pos _ hneighbours.1, destutter'_same hsame,
        ih (fun g hg => hnonempty g (List.mem_cons_of_mem _ hg))
          (fun g hg => hmode g (List.mem_cons_of_mem _ hg)) hneighbours.2]
      rfl

/-- The modes of the groups are the modes of the scenarios, each time they change. -/
theorem Grouped.modes {scenarios : List Scenario} {groups : List (String × List Scenario)}
    (h : Grouped scenarios groups) :
    groups.map Prod.fst = (scenarios.map Scenario.mode).destutter (· ≠ ·) := by
  obtain ⟨rfl, hnonempty, hmode, hneighbours⟩ := h
  cases groups with
  | nil => rfl
  | cons g groups =>
      obtain ⟨ms, hms, hsame⟩ :=
        group_modes (hnonempty g List.mem_cons_self) (hmode g List.mem_cons_self)
      rw [List.flatMap_cons, List.map_append, hms, List.cons_append, List.destutter_cons',
        destutter'_same hsame, destutter'_groups groups
          (fun g hg => hnonempty g (List.mem_cons_of_mem _ hg))
          (fun g hg => hmode g (List.mem_cons_of_mem _ hg)) hneighbours]
      rfl

/-! ## `http_run_matrix` -/

/-- A number of connections under its label. -/
structure Connections where
  label : String
  conns : Nat
  deriving DecidableEq, Repr

/-- `_WRK_RPS`: `Requests/sec:\s*([0-9.]+)`. -/
def wrkRps : Pattern :=
  .seq (lit "Requests/sec:".toList) (.seq (.many isSpace) (.group (plus isNumeral)))

/-- `parse_rps`. -/
def parseRps (A : Arithmetic F) (text : List Char) : Except Error (Option F) :=
  match search wrkRps [] (erase ansi 0 [] text) with
  | some (number :: _) => do
      let x ← float A number
      return some x
  | _ => .ok none

/-- A run of `wrk`. The servers are given their mode in `argv`. -/
def httpSuite (A : Arithmetic F)
    (prints : List (Event Connections Unit) → Engine → Connections → List Char) :
    Suite Connections Unit F where
  column c := c.label
  needs _ := some ()
  parse := parseRps A
  prints := prints

/-- `http_run_matrix`. -/
def httpRunMatrix (suite : Suite Connections Unit F) (onDisk : String → Bool) (rounds : Nat)
    (servers : List Engine) (scenarios : List Connections) :
    Prog (Samples Connections Unit F) Error :=
  sweep suite rounds (available onDisk servers) [(some (), scenarios)]

/-! ## The matrices are sound -/

theorem nodup_available {onDisk : String → Bool} (h : (engines.map Engine.label).Nodup) :
    ((available onDisk engines).map Engine.label).Nodup :=
  h.sublist (List.filter_sublist.map _)

/-- A cell of the result. -/
theorem medians_eq {κ μ : Type} {stat : Statistics F} {onDisk : String → Bool}
    {st : Samples κ μ F} {e : Engine} (h : (engines.map Engine.label).Nodup) (he : e ∈ engines) :
    medians stat onDisk engines st e.label =
      if onDisk e.bin then some fun column => medDev stat (st.samples (e.label, column))
      else none := by
  rw [medians, built_eq h he]

/-- What the result of a matrix says, if nothing has raised: each engine that is built was run once
in each round in every column, and its cells are computed from the outputs of these runs and from
nothing else; the others have no cells. -/
def Sound {κ μ : Type} [DecidableEq κ] (suite : Suite κ μ F) (stat : Statistics F)
    (onDisk : String → Bool) (rounds : Nat) (engines : List Engine) (columns : List κ)
    (st : Samples κ μ F) : Prop :=
  ∀ e ∈ engines,
    if onDisk e.bin then
      ∃ cells, medians stat onDisk engines st e.label = some cells ∧
        ∀ c ∈ columns, (runs st.log).count (e, c) = rounds ∧
          cells (suite.column c) = medDev stat (st.log.flatMap (ownSample suite e c))
    else medians stat onDisk engines st e.label = none

theorem sweep_medians {κ μ : Type} [DecidableEq κ] [DecidableEq μ] {suite : Suite κ μ F}
    {onDisk : String → Bool} {groups : List (Option μ × List κ)} {columns : List κ}
    {r : Except Error Unit} {st : Samples κ μ F} (stat : Statistics F)
    (hgroups : ∀ g ∈ groups, ∀ c ∈ g.2, suite.needs c = g.1)
    (hflat : groups.flatMap Prod.snd = columns)
    (hengines : (engines.map Engine.label).Nodup) (hcolumns : (columns.map suite.column).Nodup)
    (h : sweep suite rounds (available onDisk engines) groups start = (r, st)) :
    served suite st.log = some none ∧
      (r = .ok () → Sound suite stat onDisk rounds engines columns st) := by
  have hsound := sweep_sound hgroups hflat (nodup_available hengines) hcolumns h
  refine ⟨hsound.1, fun hr e he => ?_⟩
  rw [medians_eq hengines he]
  split
  case isTrue hdisk =>
    refine ⟨_, rfl, fun c hc => ?_⟩
    have hmem : e ∈ available onDisk engines :=
      List.mem_filter.2 ⟨he, by rw [built_eq hengines he]; exact hdisk⟩
    obtain ⟨hcount, hcell⟩ := (hsound.2.2 hr).2.2 e hmem c hc
    exact ⟨hcount, congrArg (medDev stat) hcell⟩
  case isFalse => rfl

section Results

variable {A : Arithmetic F} (stat : Statistics F) {onDisk : String → Bool} {r : Except Error Unit}

/-- The rounds of `run_matrix` are interleaved, and still every cell has its own samples. -/
theorem run_matrix_sound {unicode : Unicode} {cases : List Case} {st : Samples Case Unit F}
    {prints : List (Event Case Unit) → String → List String → List (String × String) → List Char}
    (hengines : (engines.map Engine.label).Nodup) (hcases : (cases.map Case.label).Nodup)
    (h : runMatrix (runOne unicode A prints) onDisk rounds engines cases start = (.ok (), st)) :
    runs st.log = (List.range rounds).flatMap (fun _ => available onDisk engines ×ˢ cases) ∧
      Sound (runOne unicode A prints) stat onDisk rounds engines cases st := by
  have hneeds : ∀ g ∈ [((none : Option Unit), cases)], ∀ c ∈ g.2,
      (runOne unicode A prints).needs c = g.1 := by
    intro g hg c _
    rw [List.mem_singleton.1 hg]
    rfl
  have hflat : [((none : Option Unit), cases)].flatMap Prod.snd = cases := by simp
  exact ⟨((sweep_sound hneeds hflat (nodup_available hengines) hcases h).2.2 rfl).2.1,
    (sweep_medians stat hneeds hflat hengines hcases h).2 rfl⟩

/-- Statistics of samples that are all equal. -/
def equals : Statistics ℚ := ⟨fun vals => vals.headD 0, fun _ => 0, 0⟩

/-- `go-mt` of the sleep benchmark. -/
def goMt : Engine := ⟨"go-mt", "zig-out/bin/sleep_go", [], [], "-"⟩

/-- The columns of the sleep benchmark. -/
def sleepCases : List Case :=
  [⟨"spawn (0ms)", [("tasks", 10000), ("sleep-ms", 0)]⟩,
    ⟨"sleep (10ms)", [("tasks", 10000), ("sleep-ms", 10)]⟩]

/-- A binary that takes 8 ms, and 13 ms if its tasks sleep. -/
def sleepSuite : Suite Case Unit ℚ :=
  runOne asciiTable exact fun _ _ args _ =>
    if "-sleep-ms=0" ∈ args then "Duration: 8ms".toList else "Duration: 13ms".toList

def goMtRun : Except Error Unit × Samples Case Unit ℚ :=
  runMatrix sleepSuite (fun _ => true) 2 [goMt] sleepCases start

/-- Two rounds, and a sample of each run in its own cell. -/
theorem run_matrix_sound_goMt :
    goMtRun = (.ok (), goMtRun.2) ∧
    runs goMtRun.2.log = [(goMt, sleepCases[0]), (goMt, sleepCases[1]), (goMt, sleepCases[0]),
      (goMt, sleepCases[1])] ∧
    ∃ cells, medians equals (fun _ => true) [goMt] goMtRun.2 "go-mt" = some cells ∧
      cells "spawn (0ms)" = some (8, 0) ∧ cells "sleep (10ms)" = some (13, 0) := by
  have hengines : ([goMt].map Engine.label).Nodup := List.nodup_singleton _
  have hcases : (sleepCases.map Case.label).Nodup := by decide
  have h : goMtRun = (.ok (), goMtRun.2) := Prod.ext (by decide +kernel) rfl
  obtain ⟨hruns, hsound⟩ := run_matrix_sound equals hengines hcases h
  obtain ⟨cells, hcells, hown⟩ := hsound goMt (List.mem_singleton_self _)
  refine ⟨h, hruns.trans (by decide +kernel), cells, hcells, ?_, ?_⟩
  · exact (hown sleepCases[0] (by decide)).2.trans (by decide +kernel)
  · exact (hown sleepCases[1] (by decide)).2.trans (by decide +kernel)

/-- `tcp_run_matrix` starts one server at a time and stops it whatever raises, and a scenario is
only run while its own server is up in its own mode. In a round each server that is built is started
for the modes of the scenarios, once for each time they change, and the starts end where reading an
output raises. If nothing does, every scenario has been run in order once in each round against each
of these servers, and a cell is computed from the outputs of these runs and from nothing else. -/
theorem tcp_run_matrix_sound {servers : List Engine} {scenarios : List Scenario}
    {prints : List (Event Scenario String) → Engine → Scenario → List Char}
    {st : Samples Scenario String F}
    (hservers : (servers.map Engine.label).Nodup)
    (hscenarios : (scenarios.map Scenario.label).Nodup)
    (h : tcpRunMatrix (tcpSuite A prints) onDisk rounds servers scenarios start = (r, st)) :
    served (tcpSuite A prints) st.log = some none ∧
    starts st.log <+: (List.range rounds).flatMap (fun _ =>
      available onDisk servers ×ˢ (scenarios.map Scenario.mode).destutter (· ≠ ·)) ∧
    (r = .ok () →
      starts st.log = (List.range rounds).flatMap (fun _ =>
        available onDisk servers ×ˢ (scenarios.map Scenario.mode).destutter (· ≠ ·)) ∧
      runs st.log = (List.range rounds).flatMap (fun _ => available onDisk servers ×ˢ scenarios) ∧
      Sound (tcpSuite A prints) stat onDisk rounds servers scenarios st) := by
  have hgrouped := byMode_grouped scenarios
  have hneeds : ∀ g ∈ (byMode scenarios).map (fun g => (some g.1, g.2)), ∀ sc ∈ g.2,
      (tcpSuite A prints).needs sc = g.1 := by
    intro g hg sc hsc
    obtain ⟨g', hg', rfl⟩ := List.mem_map.1 hg
    exact congrArg some (hgrouped.mode g' hg' sc hsc)
  have hflat : ((byMode scenarios).map fun g => (some g.1, g.2)).flatMap Prod.snd = scenarios := by
    rw [List.flatMap_map]
    exact hgrouped.flat
  have hmodes : ((byMode scenarios).map fun g => (some g.1, g.2)).filterMap Prod.fst =
      (scenarios.map Scenario.mode).destutter (· ≠ ·) := by
    rw [← hgrouped.modes, List.filterMap_map]
    exact congrFun List.filterMap_eq_map _
  obtain ⟨hserved, hprefix, hok⟩ :=
    sweep_sound hneeds hflat (nodup_available hservers) hscenarios h
  rw [hmodes] at hprefix hok
  exact ⟨hserved, hprefix, fun hr => ⟨(hok hr).1, (hok hr).2.1,
    (sweep_medians stat hneeds hflat hservers hscenarios h).2 hr⟩⟩

/-- `_TCP_SCENARIOS`. -/
def tcpScenarios : List Scenario :=
  [⟨"lat", "echo", ["--mode=echo", "--conns=1", "--msgs=100000", "--size=4096"]⟩,
    ⟨"many", "echo", ["--mode=echo", "--conns=1000", "--msgs=100", "--size=64"]⟩,
    ⟨"pipe", "echo",
      ["--mode=echo", "--conns=64", "--msgs=10000", "--size=64", "--pipeline=16"]⟩,
    ⟨"send1", "sink", ["--mode=send", "--mb=8192", "--size=65536", "--conns=1"]⟩,
    ⟨"send8", "sink", ["--mode=send", "--mb=8192", "--size=65536", "--conns=8"]⟩,
    ⟨"recv1", "source", ["--mode=recv", "--mb=8192", "--size=65536", "--conns=1"]⟩,
    ⟨"recv8", "source", ["--mode=recv", "--mb=8192", "--size=65536", "--conns=8"]⟩]

/-- `go` of `_TCP_SERVERS`. -/
def goServer : Engine := ⟨"go", "zig-out/bin/tcp_server_go", [], [], "--"⟩

/-- A driver that prints one rate for messages and one for bytes. -/
def tcpRates : Suite Scenario String ℚ :=
  tcpSuite exact fun _ _ sc =>
    if sc.mode = "echo" then "250000 msgs/s".toList else "1.25 GB/s".toList

/-- A driver that prints what is no number. -/
def tcpGarbage : Suite Scenario String ℚ := tcpSuite exact fun _ _ _ => "1.2.3 GB/s".toList

def goServerRun (suite : Suite Scenario String ℚ) :
    Except Error Unit × Samples Scenario String ℚ :=
  tcpRunMatrix suite (fun _ => true) 2 [goServer] tcpScenarios start

/-- Two rounds of seven scenarios take six servers. Where the first output raises, there was one, and
it is down again. -/
theorem tcp_run_matrix_sound_goServer :
    (goServerRun tcpRates = (.ok (), (goServerRun tcpRates).2) ∧
      starts (goServerRun tcpRates).2.log =
        [(goServer, "echo"), (goServer, "sink"), (goServer, "source"),
          (goServer, "echo"), (goServer, "sink"), (goServer, "source")] ∧
      ∃ cells, medians equals (fun _ => true) [goServer] (goServerRun tcpRates).2 "go" =
          some cells ∧
        cells "lat" = some (250000, 0) ∧ cells "recv8" = some (5 / 4, 0)) ∧
    goServerRun tcpGarbage = (.error .valueError, (goServerRun tcpGarbage).2) ∧
      starts (goServerRun tcpGarbage).2.log = [(goServer, "echo")] ∧
      served tcpGarbage (goServerRun tcpGarbage).2.log = some none := by
  have hservers : ([goServer].map Engine.label).Nodup := List.nodup_singleton _
  have hscenarios : (tcpScenarios.map Scenario.label).Nodup := by decide
  have h : goServerRun tcpRates = (.ok (), (goServerRun tcpRates).2) :=
    Prod.ext (by decide +kernel) rfl
  have h' : goServerRun tcpGarbage = (.error .valueError, (goServerRun tcpGarbage).2) :=
    Prod.ext (by decide +kernel) rfl
  obtain ⟨-, -, hok⟩ := tcp_run_matrix_sound equals hservers hscenarios h
  obtain ⟨hstarts, -, hsound⟩ := hok rfl
  obtain ⟨cells, hcells, hown⟩ := hsound goServer (List.mem_singleton_self _)
  refine ⟨⟨h, hstarts.trans (by decide +kernel), cells, hcells, ?_, ?_⟩, h', by decide +kernel,
    (tcp_run_matrix_sound equals hservers hscenarios h').1⟩
  · exact (hown tcpScenarios[0] (by decide)).2.trans (by decide +kernel)
  · exact (hown tcpScenarios[6] (by decide)).2.trans (by decide +kernel)

/-- `http_run_matrix` has one server for all of its columns. -/
theorem http_run_matrix_sound {servers : List Engine} {scenarios : List Connections}
    {prints : List (Event Connections Unit) → Engine → Connections → List Char}
    {st : Samples Connections Unit F}
    (hservers : (servers.map Engine.label).Nodup)
    (hscenarios : (scenarios.map Connections.label).Nodup)
    (h : httpRunMatrix (httpSuite A prints) onDisk rounds servers scenarios start = (r, st)) :
    served (httpSuite A prints) st.log = some none ∧
      (r = .ok () → Sound (httpSuite A prints) stat onDisk rounds servers scenarios st) := by
  have hneeds : ∀ g ∈ [(some (), scenarios)], ∀ c ∈ g.2,
      (httpSuite A prints).needs c = g.1 := by
    intro g hg c _
    rw [List.mem_singleton.1 hg]
    rfl
  have hflat : [(some (), scenarios)].flatMap Prod.snd = scenarios := by simp
  exact sweep_medians stat hneeds hflat hservers hscenarios h

end Results

end ZioBenchmarks.Bench
