import ClosedWorld.Proofs.Analysis.Sweeps

/-!
# A quiet sweep is a fixpoint

Whatever changes a store also notes that it does, so a sweep after which no change is remembered has
left the store as it was all the time. And an analysis reads nothing but its store, so whatever the
sweep did it does again when it is begun in the same store, with other notes.

## Main definitions

* `StoreDiscipline.quiet`, `AnalysisDiscipline.quiet`: the discipline by which a store without a
  change is the one it was.
* `Analyzer.replay`: calls that are analysed again.

## Main statements

* `Analyzer.sweep_quiet`: a quiet sweep leaves the store as it was, and so does every analysis of
  its calls after that.
* `Analyzer.run_ne_reportingChanged`: the pass that only reports changes nothing.
-/

namespace ClosedWorld

namespace StoreDiscipline

/-- A change that is noted stays noted until somebody takes it, and a store in which none is noted
is `base`. -/
def quietTerms (base : Store) : StoreTerms where
  Inv s := s.change = none → s = base
  Leads s t := t.change = none → s.change = none
  Allowed fault := ∀ change, fault ≠ .reportingChanged change
  Good _ _ := True
  GoodCall _ _ := True
  GoodEnv _ _ := True
  Called _ _ _ := True
  Ready _ _ := True
  Known _ := True
  GoodArity _ := True
  leads_refl _ h := h
  leads_trans h h' := fun none => h (h' none)
  good_mono _ _ := trivial
  goodCall_mono _ _ := trivial
  goodEnv_mono _ _ := trivial
  called_mono _ _ := trivial

/-- A store in which a change is noted keeps to the discipline, whatever has changed. -/
theorem quietTerms_kept_noting (base s t : Store) (change : Change) :
    (quietTerms base).Kept s (t.noting change) where
  inv h := absurd h (Store.change_noting_ne_none t change)
  leads h := absurd h (Store.change_noting_ne_none t change)

/-- Every elementary change notes itself. -/
def quiet (view : View) (base : Store) : StoreDiscipline view where
  toStoreTerms := quietTerms base
  good_join _ _ := trivial
  good_atom _ _ := trivial
  good_of_atoms_eq_nil _ _ := trivial
  good_of_boxed _ := trivial
  good_of_tagged _ := trivial
  good_boxed _ _ _ := trivial
  good_tagged _ _ _ := trivial
  good_undefined _ := trivial
  good_unit _ := trivial
  good_bool _ _ := trivial
  good_any _ _ := trivial
  good_constant _ _ _ := trivial
  good_count _ _ _ _ _ _ := trivial
  known_reference _ _ := trivial
  known_layout _ _ _ := trivial
  known_mentioned _ _ := trivial
  goodArity _ := trivial
  goodArity_zero := trivial
  allowed_noResultField _ _ _ _ _ := by rintro _ ⟨⟩
  allowed_missingInstruction _ _ := by rintro _ ⟨⟩
  nests_or_allowed := .inr fun _ => by rintro _ ⟨⟩
  good_object _ _ := trivial
  good_array _ _ := trivial
  goodEnv_of_key _ _ := trivial
  goodCall_of_key _ _ := trivial
  called_of_key _ _ := trivial
  ready _ := trivial
  goodContext_none _ _ := trivial
  goodContext_of_key _ _ _ _ := trivial
  known_field _ _ _ := trivial
  good_field _ _ _ := trivial
  loose_elements _ _ := .inr trivial
  good_binding _ _ := trivial
  goodEnv_outer _ _ _ := trivial
  good_default _ _ := trivial
  goodKey _ _ :=
    ⟨trivial, trivial, fun _ _ => trivial, trivial, fun _ _ => trivial,
      fun _ => .inr (by rintro _ ⟨⟩)⟩
  good_frame _ _ := trivial
  allowed_of_isPlain plain := by
    rintro _ rfl
    cases plain
  allowed_unknownInstance _ _ _ := by rintro _ ⟨⟩
  allowed_unknownArray _ _ _ := by rintro _ ⟨⟩
  allowed_unknownEnv _ _ _ := by rintro _ ⟨⟩
  allowed_unknownCall _ _ _ := by rintro _ ⟨⟩
  -- As soon as anything changes, a change is noted, and nothing is claimed of the store any more.
  kept_addInstance _ _ _ _ := quietTerms_kept_noting ..
  kept_putField _ _ _ _ _ _ := quietTerms_kept_noting ..
  kept_addArray _ _ _ := quietTerms_kept_noting ..
  kept_putElements _ _ _ _ _ := quietTerms_kept_noting ..
  kept_addBinding _ _ _ _ _ := quietTerms_kept_noting ..
  kept_putBinding _ _ _ _ := quietTerms_kept_noting ..
  kept_putDefault _ _ _ _ := quietTerms_kept_noting ..
  kept_addCall _ _ _ _ _ := quietTerms_kept_noting ..
  kept_putReturns _ _ _ _ _ _ _ := quietTerms_kept_noting ..

/-- Calls may be made with any key: nothing is asked of them. -/
theorem goodKey_quiet (view : View) (base s : Store) (key : CallKey) :
    (quiet view base).GoodKey view s key where
  known := trivial
  target := trivial
  args _ _ := trivial
  arity := trivial
  env _ _ := trivial
  checked _ := .inr (by rintro _ ⟨⟩)

/-- Instances may be made in any context: nothing is asked of it. -/
theorem goodContext_quiet (z : Analyzer) (base : Store) {creator : ClazzId}
    (known : (quiet z.view base).Known creator) :
    (quiet z.view base).GoodContext (z.contextOf creator) :=
  Setting.known_contextOf known

end StoreDiscipline

/-- A store in which no change is noted is the given one, throughout an analysis. -/
abbrev AnalysisDiscipline.quiet (z : Analyzer) (s : Store) : AnalysisDiscipline z :=
  .ofStore (StoreDiscipline.quiet z.view s) z.config.reportIntrinsics

/-- Every activation is good, as nothing is asked of calls. -/
theorem AnalysisDiscipline.goodActivation_quiet (z : Analyzer) (s t : Store) (act : Activation) :
    (quiet z s).GoodActivation z.view t act :=
  ⟨trivial, trivial, StoreDiscipline.goodKey_quiet .., trivial⟩

/-- Every mode is good, as nothing is asked of values. -/
theorem AnalysisDiscipline.goodMode_quiet (z : Analyzer) (s t : Store) (mode : AccessMode) :
    (quiet z s).GoodMode t mode := by
  cases mode with
  | assign values => exact ⟨fun _ _ => trivial, fun _ _ => by rintro _ ⟨⟩⟩
  | call args => exact ⟨fun _ _ => trivial, trivial⟩

/-- Every clazz may be entered, as nothing is asked of preconditions. -/
theorem AnalysisDiscipline.readyMode_quiet (z : Analyzer) (s t : Store) (act : Activation)
    (target : Value) (clazz : ClazzId) (mode : AccessMode) :
    (quiet z s).ReadyMode t act target clazz mode :=
  readyMode_of_opens (fun _ _ _ => trivial) t target mode

/-- Every pair is good, as nothing is asked of accesses. -/
theorem AnalysisDiscipline.goodPair_quiet (z : Analyzer) (s t : Store) (act : Activation)
    (mode : AccessMode) (p : (ClazzId × ClazzId) × Value) : (quiet z s).GoodPair t act mode p :=
  ⟨trivial, trivial, fun _ => readyMode_quiet ..⟩

namespace Analyzer

/-- Analyses calls in the given order, each with findings recorded or not. -/
def replay (z : Analyzer) : List (Bool × CallId) → Analyzing Unit
  | [] => return ()
  | (reporting, id) :: rest => do
    modify fun a => { a with reporting }
    z.analyze id
    z.replay rest

variable {z : Analyzer} (hz : z.intrinsics = .standard) {s : Store}

include hz

/-- The discipline of quiet stores, for analyses under way. -/
theorem safe_analyze_quiet (s : Store) (id : CallId) {a b : Analysis} (ha : a.store = s)
    (hb : b.store = s) :
    (StoreDiscipline.quiet z.view s).runs.Safe (fun _ _ => True) (z.analyze id) (z.analyze id)
      a b := by
  have alike : (StoreDiscipline.quiet z.view s).runs.Alike a b :=
    ⟨hb.trans ha.symm, fun _ => ha⟩
  exact (AnalysisDiscipline.quiet z s).safe_analyze hz alike trivial

/-- The analysis of a call that has left the store as it was does so again. -/
theorem analyze_again {id : CallId} {a a' : Analysis}
    (run : (z.analyze id).outcome a = (.ok (), a')) (ha : a.store = s) (ha' : a'.store = s)
    {b : Analysis} (hb : b.store = s) :
    ∃ b', (z.analyze id).outcome b = (.ok (), b') ∧ b'.store = s := by
  obtain ⟨b', run', alike, -, -⟩ := (safe_analyze_quiet hz s id ha hb).of_ok run
  exact ⟨b', run', alike.1.trans ha'⟩

/-- If the analysis of calls has not noted a change, the first of them has left the store as it was.
-/
theorem analyzeAll_cons_quiet {id : CallId} {ids : List CallId} {a a' : Analysis}
    (run : (z.analyzeAll (id :: ids)).outcome a = (.ok (), a')) (ha : a.store = s)
    (unchanged : a'.store.change = none) :
    ∃ b, (z.analyze id).outcome a = (.ok (), b) ∧ b.store = s ∧
      (z.analyzeAll ids).outcome b = (.ok (), a') := by
  unfold analyzeAll at run
  obtain ⟨_, b, first, later⟩ := Attempt.outcome_bind_eq_ok run
  obtain ⟨_, -, alike, -, -⟩ := (safe_analyze_quiet hz s id ha ha).of_ok first
  have rests := (AnalysisDiscipline.quiet z s).safe_analyzeAll hz ⟨rfl, alike.2⟩
    fun id (_ : id ∈ ids) => trivial
  obtain ⟨_, -, -, leads, -⟩ := rests.of_ok later
  exact ⟨b, first, alike.2 (leads.1 unchanged), later⟩

/-- Calls whose analysis has not noted a change have left the store as it was, each of them. -/
theorem analyzeAll_quiet {ids : List CallId} {a a' : Analysis}
    (run : (z.analyzeAll ids).outcome a = (.ok (), a')) (ha : a.store = s)
    (unchanged : a'.store.change = none) :
    a'.store = s ∧ ∀ id ∈ ids, ∃ b b', (z.analyze id).outcome b = (.ok (), b') ∧
      b.store = s ∧ b'.store = s := by
  induction ids generalizing a with
  | nil =>
    cases run
    exact ⟨ha, List.forall_mem_nil _⟩
  | cons id rest ih =>
    obtain ⟨b, first, hb, later⟩ := analyzeAll_cons_quiet hz run ha unchanged
    obtain ⟨kept, rests⟩ := ih later hb
    exact ⟨kept, List.forall_mem_cons.2 ⟨⟨a, b, first, ha, hb⟩, rests⟩⟩

/-- Calls whose analysis leaves the store as it is do so in any order, any number of times. -/
theorem replay_quiet {rounds : List (Bool × CallId)}
    (known : ∀ round ∈ rounds, ∃ b b', (z.analyze round.2).outcome b = (.ok (), b') ∧
      b.store = s ∧ b'.store = s) {a : Analysis} (ha : a.store = s) :
    ∃ a', (z.replay rounds).outcome a = (.ok (), a') ∧ a'.store = s := by
  induction rounds generalizing a with
  | nil => exact ⟨a, rfl, ha⟩
  | cons round rest ih =>
    obtain ⟨reporting, id⟩ := round
    obtain ⟨⟨c, c', run, hc, hc'⟩, knownRest⟩ := List.forall_mem_cons.1 known
    obtain ⟨b, again, hb⟩ := analyze_again hz run hc hc' (b := { a with reporting }) ha
    obtain ⟨b', rests, hb'⟩ := ih knownRest hb
    refine ⟨b', ?_, hb'⟩
    unfold replay
    rw [Attempt.outcome_bind, Attempt.outcome_modify]
    dsimp only
    rw [Attempt.outcome_bind, again]
    exact rests

omit hz in
/-- As long as no change is noted, a sweep that begins has left the store as it was. -/
theorem begun_quiet (z : Analyzer) (a : Analysis) :
    (z.begun a).store.change = none → (z.begun a).store = a.store :=
  (AnalysisDiscipline.safe_begun (StoreDiscipline.quiet z.view a.store) (a := a) (fun _ => rfl)
    (StoreDiscipline.goodKey_quiet ..)).1

/-- The analyses of a sweep keep to the discipline of the store in which the sweep begins. -/
theorem safe_swept_quiet (a : Analysis) :
    (StoreDiscipline.quiet z.view a.store).runs.Safe (fun _ _ => True)
      (z.analyzeAll (z.begun a).store.calls.ids)
      ((z.beside z.config.reportIntrinsics).analyzeAll (z.begun a).store.calls.ids) (z.begun a)
      (z.begun a) :=
  AnalysisDiscipline.safe_swept hz _ z.config.reportIntrinsics ⟨rfl, begun_quiet z a⟩

/-- A quiet sweep succeeds with calls that leave the store as it was when the sweep began. -/
theorem analyzeAll_of_sweep_quiet {a a' : Analysis} (quiet : z.sweep.outcome a = (.ok none, a')) :
    (z.begun a).store = a.store ∧ a'.store.change = none ∧
      (z.analyzeAll a.store.calls.ids).outcome (z.begun a) = (.ok (), a') := by
  rw [sweep_outcome] at quiet
  cases run : (z.analyzeAll (z.begun a).store.calls.ids).outcome (z.begun a) with
  | mk result c =>
    rw [run] at quiet
    cases result with
    | error fault => cases quiet
    | ok _ =>
      obtain ⟨unchanged, same⟩ := Prod.mk.inj quiet
      have unchanged : c.store.change = none := Except.ok.inj unchanged
      have same : c = a' := by
        rw [← same, Store.unnoted_of_change_eq_none unchanged]
      obtain ⟨_, -, -, leads, -⟩ := (safe_swept_quiet hz a).of_ok run
      have kept := begun_quiet z a (leads.1 unchanged)
      rw [kept] at run
      rw [← same]
      exact ⟨kept, unchanged, run⟩

/-- A quiet sweep leads to its visits, and they lead to its end. -/
theorem seen_of_sweep_quiet {a a' : Analysis} (quiet : z.sweep.outcome a = (.ok none, a'))
    {t : Activation × Visit Analysis Value} (visited : t ∈ z.visitsOfSweep a) :
    (AnalysisDiscipline.quiet z a.store).callSight.Ahead (z.begun a) t ∧
      (AnalysisDiscipline.quiet z a.store).callSight.Done t a' := by
  obtain ⟨begun, -, run⟩ := analyzeAll_of_sweep_quiet hz quiet
  unfold visitsOfSweep at visited
  rw [begun] at visited
  have seen := (AnalysisDiscipline.quiet z a.store).seen_visitsOfCalls hz (a := z.begun a)
    (b := z.begun a) ⟨rfl, fun _ => begun⟩ (fun id (_ : id ∈ a.store.calls.ids) => trivial)
  exact ⟨seen.ahead t visited, seen.done t visited () a' run⟩

/-- The state after a quiet sweep knows the call to start with. -/
theorem main_of_sweep_quiet {a a' : Analysis} (quiet : z.sweep.outcome a = (.ok none, a')) :
    ∃ main, a'.main = some main := by
  obtain ⟨begun, unchanged, run⟩ := analyzeAll_of_sweep_quiet hz quiet
  have swept := safe_swept_quiet hz a
  rw [begun] at swept
  obtain ⟨_, -, -, leads, -⟩ := swept.of_ok run
  obtain ⟨main, known⟩ := z.exists_main_begun a
  exact ⟨main, leads.2.main.trans known⟩

/-- After a quiet sweep, another one is quiet, whatever the notes are. -/
theorem sweep_again {a a' : Analysis} (quiet : z.sweep.outcome a = (.ok none, a'))
    {b : Analysis} (hb : b.store = a'.store) {main : CallId} (known : b.main = some main) :
    ∃ b', z.sweep.outcome b = (.ok none, b') ∧ b'.store = a'.store := by
  obtain ⟨begun, unchanged, run⟩ := analyzeAll_of_sweep_quiet hz quiet
  have kept := (analyzeAll_quiet hz run begun unchanged).1
  have begunAgain : (z.begun b).store = a.store := by
    unfold Analyzer.begun
    obtain ⟨_, -, seeded⟩ | ⟨unknown, -⟩ := z.seed_cases b
    · rw [seeded]
      exact hb.trans kept
    · rw [unknown] at known
      cases known
  -- Both sweeps analyse the same calls in the same store, and only what they note besides may
  -- differ.
  have swept := AnalysisDiscipline.safe_swept hz (StoreDiscipline.quiet z.view a.store)
    z.config.reportIntrinsics (a := z.begun a) (b := z.begun b)
    ⟨begunAgain.trans begun.symm, fun _ => begun⟩
  rw [begun] at swept
  obtain ⟨b', again, alike, -, -⟩ := swept.of_ok run
  have again : (z.analyzeAll a.store.calls.ids).outcome (z.begun b) = (.ok (), b') := again
  have unchanged' : b'.store.change = none := by
    rw [alike.1]
    exact unchanged
  refine ⟨b', ?_, alike.1⟩
  rw [sweep_outcome, begunAgain, again]
  dsimp only
  rw [Store.unnoted_of_change_eq_none unchanged', unchanged']

/-- A sweep does not fail with what only the pass that reports can fail with. -/
theorem sweep_ne_reportingChanged {a a' : Analysis} {fault : Fault}
    (failed : z.sweep.outcome a = (.error fault, a')) (change : Change) :
    fault ≠ .reportingChanged change := by
  rw [sweep_outcome] at failed
  cases run : (z.analyzeAll (z.begun a).store.calls.ids).outcome (z.begun a) with
  | mk result c =>
    rw [run] at failed
    cases result with
    | ok _ => cases failed
    | error fault' =>
      cases failed
      obtain ⟨_, -, -, -, allowed⟩ := (safe_swept_quiet hz a).of_error run
      exact allowed change

/-- The sweeps until an analysis settles fail with the fault of one of them, or end with patience,
or with a quiet sweep. -/
theorem settle_cases (patience : Nat) (a : Analysis) :
    (∃ fault a', (z.settle patience).outcome a = (.error fault, a') ∧
        ∀ change, fault ≠ .reportingChanged change) ∨
      (∃ a', (z.settle patience).outcome a = (.ok false, a')) ∨
      ∃ b a', (z.settle patience).outcome a = (.ok true, a') ∧ z.sweep.outcome b = (.ok none, a') := by
  induction patience generalizing a with
  | zero => exact .inr (.inl ⟨a, rfl⟩)
  | succ patience ih =>
    unfold settle
    rw [Attempt.outcome_bind, Attempt.outcome_get]
    dsimp only
    cases z.config.maxIterations.filter (· ≤ a.iterations) with
    | some limit => exact .inl ⟨_, a, rfl, by rintro _ ⟨⟩⟩
    | none =>
      dsimp only
      rw [Attempt.outcome_bind]
      cases swept : z.sweep.outcome a with
      | mk result a' =>
        cases result with
        | error fault => exact .inl ⟨fault, a', rfl, sweep_ne_reportingChanged hz swept⟩
        | ok change =>
          cases change with
          | none => exact .inr (.inr ⟨a, a', rfl, swept⟩)
          | some _ => exact ih a'

/-- The pass that only reports succeeds after a quiet sweep. -/
theorem report_of_sweep_quiet {a a' : Analysis} (quiet : z.sweep.outcome a = (.ok none, a')) :
    ∃ reported, z.report.outcome a' = (.ok (), reported) := by
  obtain ⟨main, known⟩ := main_of_sweep_quiet hz quiet
  obtain ⟨b, again, -⟩ := sweep_again hz quiet (b := { a' with reporting := true }) rfl known
  unfold report
  rw [Attempt.outcome_bind, Attempt.outcome_get]
  dsimp only
  rw [Attempt.outcome_bind, Attempt.outcome_modify]
  dsimp only
  rw [Attempt.outcome_bind, again]
  exact ⟨_, rfl⟩

/-- A quiet sweep is a fixpoint: the store is the one it was, and analysing the known calls again
succeeds and leaves it so, in any order and any number of times, with findings recorded or not. -/
theorem sweep_quiet {a a' : Analysis} (quiet : z.sweep.outcome a = (.ok none, a')) :
    a'.store = a.store ∧ a'.store.change = none ∧
      ∀ rounds : List (Bool × CallId), (∀ round ∈ rounds, round.2 ∈ a'.store.calls.ids) →
        ∀ b : Analysis, b.store = a'.store →
          ∃ b', (z.replay rounds).outcome b = (.ok (), b') ∧ b'.store = a'.store := by
  obtain ⟨begun, unchanged, run⟩ := analyzeAll_of_sweep_quiet hz quiet
  obtain ⟨kept, known⟩ := analyzeAll_quiet hz run begun unchanged
  refine ⟨kept, unchanged, fun rounds hr b hb => ?_⟩
  rw [kept] at hr hb ⊢
  exact replay_quiet hz (fun round hround => known round.2 (hr round hround)) hb

/-- The pass that only reports never finds that it has changed something. -/
theorem run_ne_reportingChanged (patience : Nat) (a : Analysis) (change : Change) :
    z.run patience a ≠ some (.error (.reportingChanged change)) := by
  unfold run
  obtain ⟨fault, a', settled, other⟩ | ⟨a', settled⟩ | ⟨b, a', settled, quiet⟩ :=
    settle_cases hz (z.config.maxIterations.elim patience (· + 1)) a
  · rw [settled]
    rintro ⟨⟩
    exact other change rfl
  · rw [settled]
    rintro ⟨⟩
  · obtain ⟨reported, succeeds⟩ := report_of_sweep_quiet hz quiet
    rw [settled]
    dsimp only
    rw [succeeds]
    rintro ⟨⟩

/-- A quiet sweep is a fixpoint: the store is the one it was before, and analysing the known calls
again succeeds and leaves it so, in any order and any number of times, with findings recorded or
not. So the pass that only reports never finds that it has changed something. -/
theorem sweep_quiet_isFixpoint :
    (∀ a a' : Analysis, z.sweep.outcome a = (.ok none, a') →
      a'.store = a.store ∧ a'.store.change = none ∧
        ∀ rounds : List (Bool × CallId), (∀ round ∈ rounds, round.2 ∈ a'.store.calls.ids) →
          ∀ b : Analysis, b.store = a'.store →
            ∃ b', (z.replay rounds).outcome b = (.ok (), b') ∧ b'.store = a'.store) ∧
      ∀ (patience : Nat) (a : Analysis) (change : Change),
        z.run patience a ≠ some (.error (.reportingChanged change)) :=
  ⟨fun _ _ quiet => sweep_quiet hz quiet, run_ne_reportingChanged hz⟩

omit hz

/-- An analysis of a program with one routine, which looks at its frame and returns. -/
def idle : Analyzer where
  view := Program.view
    { clazzes := [("main", { kind := .routine, code := some ⟨0⟩ })]
      blocks := [[.current, .pop]]
      main := ⟨0⟩
      constString := none }

/-- The second sweep is quiet there, and the one call may be analysed again, with and without
findings. -/
theorem sweep_quiet_isFixpoint_idle :
    let once := (idle.sweep.outcome {}).2
    let twice := (idle.sweep.outcome once).2
    twice.store.calls.ids = [⟨0⟩] ∧ twice.store = once.store ∧
      ∃ b, (idle.replay [(true, ⟨0⟩), (false, ⟨0⟩)]).outcome { store := twice.store } = (.ok (), b) ∧
        b.store = twice.store := by
  intro once twice
  have table : idle.intrinsics = .standard := by simp only [idle]
  have quiet : idle.sweep.outcome once = (.ok none, twice) := rfl
  have known : twice.store.calls.ids = [⟨0⟩] := rfl
  obtain ⟨kept, -, again⟩ := (sweep_quiet_isFixpoint table).1 once twice quiet
  refine ⟨known, kept, again [(true, ⟨0⟩), (false, ⟨0⟩)] ?_ { store := twice.store } rfl⟩
  rw [known]
  decide

end Analyzer

end ClosedWorld
