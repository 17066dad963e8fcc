import ClosedWorld.Proofs.Analysis.Findings

/-!
# What is reported does not influence what is analysed

Two analyses of one program may differ in whether findings are recorded, or in whether calls of
intrinsics without a meaning are among them. They take the same steps side by side, as an analysis
never looks at what it has found.

## Main definitions

* `Analysis.withoutFindings`, `Analysis.supported`: an analysis without its findings, or without
  those about intrinsics that have no meaning.
* `OverlooksUnsupported`: relations of findings for which these do not count.
* `Analysis.Parallel`: analyses that are apart in their findings at most.
* `AnalysisDiscipline.parallel`: the discipline of such analyses.

## Main statements

* `Analyzer.parallel_sweep`, `Analyzer.parallel_settle`: sweeps of such analyses end alike.
* `Analyzer.findings_aside`: neither choice of reports makes a difference.
-/

namespace ClosedWorld

/-- The finding is that an intrinsic has no meaning. -/
def Diagnostic.isUnsupported : Diagnostic → Bool
  | unsupportedIntrinsic .. => true
  | _ => false

/-- The analysis without its findings, and without the choice whether to record them. -/
def Analysis.withoutFindings (a : Analysis) : Analysis :=
  { a with reporting := false, diagnostics := [] }

/-- The analysis without the findings about intrinsics that have no meaning. -/
def Analysis.supported (a : Analysis) : Analysis :=
  { a with diagnostics := a.diagnostics.filter (!·.isUnsupported) }

/-! ### Relations of findings -/

/-- The relation is about findings only, and it stays when something is found in both analyses, or
when one of them finds that an intrinsic has no meaning. -/
structure OverlooksUnsupported (Rel : Analysis → Analysis → Prop) : Prop
    extends ComparesFindings Rel where
  left : ∀ name id {a b}, Rel a b →
    Rel ((ClosedWorld.diagnose (.unsupportedIntrinsic name id)).outcome a).2 b
  right : ∀ name id {a b}, Rel a b →
    Rel a ((ClosedWorld.diagnose (.unsupportedIntrinsic name id)).outcome b).2

/-- Nothing is said of the findings. -/
theorem overlooksUnsupported_true : OverlooksUnsupported fun _ _ => True where
  same _ _ _ _ _ := trivial
  diagnose _ _ _ _ := trivial
  left _ _ _ _ _ := trivial
  right _ _ _ _ _ := trivial

/-- Both analyses record findings or neither does, and they are the same but for those about
intrinsics that have no meaning. -/
structure Analysis.FoundAlike (a b : Analysis) : Prop where
  reporting : b.reporting = a.reporting
  diagnostics : b.supported.diagnostics = a.supported.diagnostics

/-- Findings are recorded as if the ones about intrinsics without a meaning were not there. -/
theorem diagnostics_supported_diagnose (d : Diagnostic) (a : Analysis) :
    ((diagnose d).outcome a).2.supported.diagnostics =
      if a.reporting = true ∧ d.isUnsupported = false ∧ d ∉ a.supported.diagnostics then
        a.supported.diagnostics ++ [d]
      else a.supported.diagnostics := by
  have listed : d ∈ a.supported.diagnostics ↔ d ∈ a.diagnostics ∧ d.isUnsupported = false := by
    simp [Analysis.supported]
  show ((diagnose d).outcome a).2.diagnostics.filter (!·.isUnsupported) = _
  rw [diagnostics_diagnose]
  by_cases new : a.reporting = true ∧ d ∉ a.diagnostics
  · cases unsupported : d.isUnsupported <;> simp [new, unsupported, Analysis.supported]
  · rw [if_neg new, if_neg]
    · rfl
    · rintro ⟨reporting, supported, fresh⟩
      exact new ⟨reporting, fun found => fresh (listed.2 ⟨found, supported⟩)⟩

/-- A finding about an intrinsic without a meaning is none of the others. -/
theorem diagnostics_supported_of_isUnsupported {d : Diagnostic} (h : d.isUnsupported = true)
    (a : Analysis) :
    ((diagnose d).outcome a).2.supported.diagnostics = a.supported.diagnostics := by
  rw [diagnostics_supported_diagnose, if_neg]
  simp [h]

/-- Having found alike, apart from intrinsics without a meaning, is a relation that those findings
do not count for. -/
theorem overlooksUnsupported_foundAlike : OverlooksUnsupported Analysis.FoundAlike where
  same {a a' b b'} h reporting diagnostics reporting' diagnostics' := by
    refine ⟨reporting'.trans (h.reporting.trans reporting.symm), ?_⟩
    have found := h.diagnostics
    unfold Analysis.supported at found ⊢
    rw [diagnostics, diagnostics']
    exact found
  diagnose d {a b} h := by
    refine ⟨?_, ?_⟩
    · rw [reporting_diagnose, reporting_diagnose, h.reporting]
    · rw [diagnostics_supported_diagnose, diagnostics_supported_diagnose, h.reporting,
        h.diagnostics]
  left name id {a b} h := by
    refine ⟨?_, ?_⟩
    · rw [reporting_diagnose, h.reporting]
    · rw [diagnostics_supported_of_isUnsupported rfl, h.diagnostics]
  right name id {a b} h := by
    refine ⟨?_, ?_⟩
    · rw [reporting_diagnose, h.reporting]
    · rw [diagnostics_supported_of_isUnsupported rfl, h.diagnostics]

/-! ### Analyses that are apart in their findings -/

/-- The analyses have the same store and have learned the same, and their findings are related. -/
structure Analysis.Parallel (Rel : Analysis → Analysis → Prop) (a b : Analysis) : Prop where
  store : b.store = a.store
  main : b.main = a.main
  iterations : b.iterations = a.iterations
  dispatch : b.dispatch = a.dispatch
  edges : b.edges = a.edges
  findings : Rel a b

/-- The analysis as it is after something is found. -/
theorem Analysis.eq_diagnose (d : Diagnostic) (a : Analysis) :
    ((diagnose d).outcome a).2 =
      { a with diagnostics := ((diagnose d).outcome a).2.diagnostics } := by
  unfold diagnose
  rw [Attempt.outcome_modify]
  dsimp only
  split <;> rfl

namespace Analysis.Parallel

variable {Rel : Analysis → Analysis → Prop} {a b : Analysis} (h : a.Parallel Rel b)

include h

/-- A finding on both sides keeps two analyses apart in their findings at most. -/
theorem diagnose (compares : ComparesFindings Rel) (d : Diagnostic) :
    ((diagnose d).outcome a).2.Parallel Rel ((ClosedWorld.diagnose d).outcome b).2 := by
  have related := compares.diagnose d h.findings
  rw [eq_diagnose d a, eq_diagnose d b] at related ⊢
  exact ⟨h.store, h.main, h.iterations, h.dispatch, h.edges, related⟩

/-- A finding about an intrinsic without a meaning may be made on the left only. -/
theorem diagnose_left (overlooks : OverlooksUnsupported Rel) (name : String) (id : CallId) :
    ((ClosedWorld.diagnose (.unsupportedIntrinsic name id)).outcome a).2.Parallel Rel b := by
  have related := overlooks.left name id h.findings
  rw [eq_diagnose _ a] at related ⊢
  exact ⟨h.store, h.main, h.iterations, h.dispatch, h.edges, related⟩

/-- A finding about an intrinsic without a meaning may be made on the right only. -/
theorem diagnose_right (overlooks : OverlooksUnsupported Rel) (name : String) (id : CallId) :
    a.Parallel Rel ((ClosedWorld.diagnose (.unsupportedIntrinsic name id)).outcome b).2 := by
  have related := overlooks.right name id h.findings
  rw [eq_diagnose _ b] at related ⊢
  exact ⟨h.store, h.main, h.iterations, h.dispatch, h.edges, related⟩

/-- An operation on both stores keeps two analyses apart in their findings at most. -/
theorem onStore (compares : ComparesFindings Rel) {α : Type} (step : Updating α) :
    ((onStore step).outcome a).2.Parallel Rel ((ClosedWorld.onStore step).outcome b).2 := by
  unfold ClosedWorld.onStore
  rw [Attempt.outcome_within, Attempt.outcome_within, h.store]
  exact ⟨rfl, h.main, h.iterations, h.dispatch, h.edges, compares.same h.findings rfl rfl rfl rfl⟩

/-- Recording a dispatch on both sides keeps two analyses apart in their findings at most. -/
theorem recordDispatch (compares : ComparesFindings Rel) (site : Site) (clazz : ClazzId) :
    ((recordDispatch site clazz).outcome a).2.Parallel Rel
      ((ClosedWorld.recordDispatch site clazz).outcome b).2 := by
  unfold ClosedWorld.recordDispatch
  rw [Attempt.outcome_modify, Attempt.outcome_modify, h.dispatch]
  exact ⟨h.store, h.main, h.iterations, rfl, h.edges, compares.same h.findings rfl rfl rfl rfl⟩

/-- Making a call on both sides keeps two analyses apart in their findings at most. -/
theorem newCall (compares : ComparesFindings Rel) (g : Setting) (key : CallKey) (origin : CallId) :
    ((g.newCall key origin).outcome a).2.Parallel Rel ((g.newCall key origin).outcome b).2 := by
  rw [Setting.outcome_newCall, Setting.outcome_newCall, h.store]
  cases a.store.callKey origin with
  | error fault => exact h
  | ok creator =>
    unfold Analysis.discovering
    rw [h.edges]
    exact ⟨rfl, h.main, h.iterations, h.dispatch, rfl, compares.same h.findings rfl rfl rfl rfl⟩

end Analysis.Parallel

namespace AnalysisDiscipline

variable {Rel : Analysis → Analysis → Prop} {a b : Analysis}

/-- Noting an intrinsic without a meaning keeps two analyses apart in their findings at most,
whatever the second one reports. -/
theorem parallel_noteUnsupported (z : Analyzer) (reports : Bool)
    (overlooks : OverlooksUnsupported Rel) (name : String) (id : CallId) (h : a.Parallel Rel b) :
    ((z.noteUnsupported name id).outcome a).2.Parallel Rel
      (((z.beside reports).noteUnsupported name id).outcome b).2 := by
  show ((if z.config.reportIntrinsics then _ else _ : Analyzing Unit).outcome a).2.Parallel Rel
    ((if reports then _ else _ : Analyzing Unit).outcome b).2
  cases z.config.reportIntrinsics <;> cases reports
  · exact h
  · exact h.diagnose_right overlooks name id
  · exact h.diagnose_left overlooks name id
  · exact h.diagnose overlooks.toComparesFindings _

/-- The discipline of analyses that are apart in their findings at most, from a store on. The second
one reports the intrinsics without a meaning or not. -/
def parallel (z : Analyzer) (s : Store) (reports : Bool) (overlooks : OverlooksUnsupported Rel) :
    AnalysisDiscipline z :=
  let D := ofStore (StoreDiscipline.quiet z.view s) reports (StoreDiscipline.goodContext_quiet z s)
  have compares := overlooks.toComparesFindings
  { D with
    runs := D.runs.relating (Analysis.Parallel Rel)
    store_eq := fun h => D.store_eq h.1
    inv := fun h => D.inv h.1
    leads_store := D.leads_store
    allowed := D.allowed
    safe_onStore := fun {_ _ step _ _} h hs => (D.safe_onStore h.1 hs).relating
      fun _ _ _ run run' _ => by simpa only [run, run'] using h.2.onStore compares step
    safe_diagnose := fun d h => (D.safe_diagnose d h.1).relating
      fun _ _ _ run run' _ => by simpa only [run, run'] using h.2.diagnose compares d
    safe_noteUnsupported := fun name id h => (D.safe_noteUnsupported name id h.1).relating
      fun _ _ _ run run' _ => by
        have parallel := parallel_noteUnsupported z reports overlooks name id h.2
        change ((z.beside reports).noteUnsupported name id).outcome _ = _ at run'
        rwa [run, run'] at parallel
    safe_recordDispatch := fun site clazz h => (D.safe_recordDispatch site clazz h.1).relating
      fun _ _ _ run run' _ => by simpa only [run, run'] using h.2.recordDispatch compares site clazz
    safe_newCall := fun {_ _ key origin} h hk ho discovers =>
      (D.safe_newCall h.1 hk ho discovers).relating
        fun _ _ _ run run' _ => by
          simpa only [run, run'] using h.2.newCall compares z.toSetting key origin }

end AnalysisDiscipline

/-! ### Sweeps side by side -/

namespace Analyzer

variable {z : Analyzer} {Rel : Analysis → Analysis → Prop} {a b : Analysis}

/-- Sweeps of analyses that are apart in their findings begin so. -/
theorem parallel_begun (compares : ComparesFindings Rel) (h : a.Parallel Rel b) :
    (z.begun a).Parallel Rel (z.begun b) := by
  have found : Rel (z.begun a) (z.begun b) := compares.same h.findings (notes_begun z a).1
    (notes_begun z a).2 (notes_begun z b).1 (notes_begun z b).2
  revert found
  unfold begun
  obtain ⟨main, known, seeded⟩ | ⟨unknown, seeded⟩ := z.seed_cases a
  · have seeded' : z.seed.outcome b = (.ok main, b) := by
      obtain ⟨main', known', seeded'⟩ | ⟨unknown', -⟩ := z.seed_cases b
      · cases (h.main.trans known).symm.trans known'
        exact seeded'
      · cases (h.main.trans known).symm.trans unknown'
    rw [seeded, seeded']
    exact fun found => ⟨h.store, h.main, congrArg (· + 1) h.iterations, h.dispatch, h.edges, found⟩
  · obtain ⟨main', known', -⟩ | ⟨-, seeded'⟩ := z.seed_cases b
    · cases (h.main.trans unknown).symm.trans known'
    · rw [seeded, seeded', h.store]
      exact fun found => ⟨rfl, rfl, congrArg (· + 1) h.iterations, h.dispatch, h.edges, found⟩

variable (hz : z.intrinsics = .standard) (overlooks : OverlooksUnsupported Rel) (reports : Bool)

include hz overlooks

/-- Sweeps of analyses that are apart in their findings at most end alike, and are still apart in
their findings at most. -/
theorem parallel_sweep (h : a.Parallel Rel b) :
    ((z.beside reports).sweep.outcome b).1 = (z.sweep.outcome a).1 ∧
      (z.sweep.outcome a).2.Parallel Rel ((z.beside reports).sweep.outcome b).2 := by
  have compares := overlooks.toComparesFindings
  have begun : (z.begun a).Parallel Rel (z.begun b) := parallel_begun compares h
  have same : (z.beside reports).begun b = z.begun b := rfl
  let D := AnalysisDiscipline.parallel z a.store reports overlooks
  have swept : D.runs.Safe (fun _ _ => True) (z.analyzeAll (z.begun a).store.calls.ids)
      ((z.beside reports).analyzeAll (z.begun a).store.calls.ids) (z.begun a) (z.begun b) :=
    D.safe_analyzeAll hz ⟨⟨begun.store, begun_quiet z a⟩, begun⟩ fun _ _ => trivial
  rw [sweep_outcome, sweep_outcome, same, begun.store]
  cases swept with
  | ok run run' alike =>
    rw [run, run']
    obtain ⟨-, store, main, iterations, dispatch, edges, findings⟩ := alike
    dsimp only
    rw [store]
    exact ⟨rfl, rfl, main, iterations, dispatch, edges, compares.same findings rfl rfl rfl rfl⟩
  | error run run' alike =>
    rw [run, run']
    exact ⟨rfl, alike.2⟩

/-- The sweeps until such analyses settle end alike as well. -/
theorem parallel_settle (h : a.Parallel Rel b) (patience : Nat) :
    (((z.beside reports).settle patience).outcome b).1 = ((z.settle patience).outcome a).1 ∧
      ((z.settle patience).outcome a).2.Parallel Rel
        (((z.beside reports).settle patience).outcome b).2 := by
  induction patience generalizing a b with
  | zero => exact ⟨rfl, h⟩
  | succ patience ih =>
    unfold settle
    rw [Attempt.outcome_bind, Attempt.outcome_get, Attempt.outcome_bind, Attempt.outcome_get]
    dsimp only
    have limit : (z.beside reports).config.maxIterations = z.config.maxIterations := rfl
    rw [h.iterations, limit]
    cases z.config.maxIterations.filter (· ≤ a.iterations) with
    | some count => exact ⟨rfl, h⟩
    | none =>
      dsimp only
      rw [Attempt.outcome_bind, Attempt.outcome_bind]
      obtain ⟨result, next⟩ := parallel_sweep hz overlooks reports h
      revert result next
      obtain ⟨result, a'⟩ := z.sweep.outcome a
      obtain ⟨result', b'⟩ := (z.beside reports).sweep.outcome b
      rintro rfl next
      obtain _ | _ | _ := result'
      · exact ⟨rfl, next⟩
      · exact ⟨rfl, next⟩
      · exact ih next

omit overlooks

/-- Reports of analyses that are apart in their findings about intrinsics without a meaning. -/
theorem parallel_report (h : a.Parallel Analysis.FoundAlike b) :
    ((z.beside reports).report.outcome b).1 = (z.report.outcome a).1 ∧
      (z.report.outcome a).2.Parallel Analysis.FoundAlike
        ((z.beside reports).report.outcome b).2 := by
  unfold report
  rw [Attempt.outcome_bind, Attempt.outcome_get, Attempt.outcome_bind, Attempt.outcome_get]
  dsimp only
  rw [Attempt.outcome_bind, Attempt.outcome_modify, Attempt.outcome_bind, Attempt.outcome_modify]
  dsimp only
  rw [Attempt.outcome_bind, Attempt.outcome_bind]
  have recording : { a with reporting := true }.Parallel Analysis.FoundAlike
      { b with reporting := true } :=
    ⟨h.store, h.main, h.iterations, h.dispatch, h.edges, rfl, h.findings.diagnostics⟩
  obtain ⟨result, next⟩ := parallel_sweep hz overlooksUnsupported_foundAlike reports recording
  revert result next
  obtain ⟨result, a'⟩ := z.sweep.outcome { a with reporting := true }
  obtain ⟨result', b'⟩ := (z.beside reports).sweep.outcome { b with reporting := true }
  rintro rfl next
  obtain _ | _ | _ := result'
  · exact ⟨rfl, next⟩
  · exact ⟨rfl, next.store, next.main, h.iterations, next.dispatch, next.edges,
      next.findings.reporting, next.findings.diagnostics⟩
  · exact ⟨rfl, next⟩

omit hz in
/-- Analyses that have found alike are the same without those findings. -/
theorem supported_eq_of_parallel (h : a.Parallel Analysis.FoundAlike b) :
    b.supported = a.supported := by
  obtain ⟨store, main, iterations, dispatch, edges, reporting, diagnostics⟩ := h
  unfold Analysis.supported at diagnostics ⊢
  dsimp only at diagnostics
  rw [store, main, iterations, dispatch, edges, reporting, diagnostics]

/-- Whether intrinsics without a meaning are reported makes no difference but to those findings. -/
theorem run_beside (patience : Nat) (a : Analysis) :
    ((z.beside reports).run patience a).map (Except.map Analysis.supported) =
      (z.run patience a).map (Except.map Analysis.supported) := by
  have limit : (z.beside reports).config.maxIterations = z.config.maxIterations := rfl
  have same : a.Parallel Analysis.FoundAlike a := ⟨rfl, rfl, rfl, rfl, rfl, rfl, rfl⟩
  unfold run
  rw [limit]
  obtain ⟨result, settled⟩ := parallel_settle hz overlooksUnsupported_foundAlike reports same
    (z.config.maxIterations.elim patience (· + 1))
  revert result settled
  obtain ⟨result, a'⟩ := (z.settle _).outcome a
  obtain ⟨result', b'⟩ := ((z.beside reports).settle _).outcome a
  rintro rfl settled
  match result' with
  | .error fault => rfl
  | .ok false => rfl
  | .ok true =>
    obtain ⟨result, reported⟩ := parallel_report hz reports settled
    dsimp only at result reported ⊢
    revert result reported
    obtain ⟨result, a''⟩ := z.report.outcome a'
    obtain ⟨result', b''⟩ := (z.beside reports).report.outcome b'
    rintro rfl reported
    cases result' with
    | error fault => rfl
    | ok _ => exact congrArg (some ∘ Except.ok) (supported_eq_of_parallel reported)

/-- Neither choice of reports makes a difference to the analysis. Whether intrinsics without a
meaning are reported or not, a run ends in the same way and with the same report but for those
findings. And whether findings are recorded or not, a sweep ends in the same way and with the same
state but for the findings. -/
theorem findings_aside :
    (∀ (reports : Bool) (patience : Nat) (a : Analysis),
      ((z.beside reports).run patience a).map (Except.map Analysis.supported) =
        (z.run patience a).map (Except.map Analysis.supported)) ∧
    ∀ a : Analysis,
      let recorded := z.sweep.outcome { a with reporting := true }
      let unrecorded := z.sweep.outcome { a with reporting := false }
      unrecorded.1 = recorded.1 ∧ unrecorded.2.withoutFindings = recorded.2.withoutFindings := by
  refine ⟨run_beside hz, fun a => ?_⟩
  have apart : { a with reporting := true }.Parallel (fun _ _ => True)
      { a with reporting := false } := ⟨rfl, rfl, rfl, rfl, rfl, trivial⟩
  obtain ⟨result, swept⟩ :=
    parallel_sweep hz overlooksUnsupported_true z.config.reportIntrinsics apart
  refine ⟨result, ?_⟩
  unfold Analysis.withoutFindings
  rw [← swept.store, ← swept.main, ← swept.iterations, ← swept.dispatch, ← swept.edges]
  rfl

omit hz

/-- Where a function is called that needs an intrinsic without a meaning, that is found or not, and
all else is the same. -/
theorem findings_aside_repeating :
    ∃ final final', repeating.run 12 {} = some (.ok final) ∧
      (repeating.beside false).run 12 {} = some (.ok final') ∧
      final.diagnostics = [sleeps] ∧ final'.diagnostics = [] ∧
      final'.supported = final.supported ∧
      (repeating.sweep.outcome { final with reporting := false }).2.withoutFindings =
        (repeating.sweep.outcome { final with reporting := true }).2.withoutFindings := by
  have table : repeating.intrinsics = .standard := by simp only [repeating]
  have agrees : repeating.Agrees .own := agrees_own table (by decide +kernel)
  have table' : (repeating.beside false).intrinsics = .standard := by simp only [beside, repeating]
  have agrees' : (repeating.beside false).Agrees .own := agrees_own table' (by decide +kernel)
  obtain ⟨final, run, found⟩ : ∃ final, repeating.run 12 {} = some (.ok final) ∧
      final.diagnostics = [sleeps] := by
    rw [← agrees.run]
    exact exists_run (by decide +kernel)
  obtain ⟨final', run', found'⟩ : ∃ final, (repeating.beside false).run 12 {} = some (.ok final) ∧
      final.diagnostics = [] := by
    rw [← agrees'.run]
    exact exists_run (by decide +kernel)
  obtain ⟨runs, sweeps⟩ := findings_aside table
  have same := runs false 12 {}
  rw [run, run'] at same
  exact ⟨final, final', run, run', found, found', Except.ok.inj (Option.some.inj same),
    (sweeps final).2⟩

end Analyzer

end ClosedWorld
