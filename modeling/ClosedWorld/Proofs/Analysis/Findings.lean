import ClosedWorld.Proofs.Analysis.Fixpoint
import ClosedWorld.Proofs.Analysis.Meanings

/-!
# Findings describe the state at the end

Findings are recorded in the last sweep only, and that leaves the store as it is. So what it finds
in a call does not depend on the calls before: it is what an analysis of that call alone finds,
begun in the store of the report.

## Main definitions

* `Analyzer.findings`: what the analysis of one call finds.
* `ComparesFindings`: relations of analyses that findings keep to.
* `AnalysisDiscipline.comparing`: the discipline of analyses that are related so.

## Main statements

* `Analyzer.silent_sweep`: nothing is found before the last sweep.
* `Analyzer.diagnostics_analyzeAll`: the findings of calls, one after the other.
* `Analyzer.run_findings`: the findings of a report.
-/

namespace ClosedWorld

/-! ### First occurrences -/

section firstOccurrences

variable {α : Type} [DecidableEq α]

/-- Repetitions are left out of a list that has got one more member by leaving the member out if it
is there already. -/
theorem eraseDups_concat (l : List α) (x : α) :
    (l ++ [x]).eraseDups = if x ∈ l then l.eraseDups else l.eraseDups ++ [x] := by
  rw [List.eraseDups_append]
  by_cases h : x ∈ l <;> simp [List.removeAll, List.eraseDups_cons, h]

/-- Without its repetitions, a list has no member twice. -/
theorem nodup_eraseDups (l : List α) : l.eraseDups.Nodup := by
  induction l using List.reverseRecOn with
  | nil => exact List.nodup_nil
  | append_singleton l x ih =>
    rw [eraseDups_concat]
    split
    · exact ih
    · rename_i new
      refine ih.append (List.nodup_singleton x) (List.disjoint_singleton.2 fun listed => ?_)
      exact new (List.mem_eraseDups.1 listed)

end firstOccurrences

/-- While findings are recorded, `diagnose` adds those that are new, and it does nothing otherwise.
-/
theorem diagnostics_diagnose (d : Diagnostic) (a : Analysis) :
    ((diagnose d).outcome a).2.diagnostics =
      if a.reporting = true ∧ d ∉ a.diagnostics then a.diagnostics ++ [d] else a.diagnostics := by
  unfold diagnose
  rw [Attempt.outcome_modify]
  dsimp only
  by_cases h : a.reporting = true ∧ d ∉ a.diagnostics
  · rw [if_pos h, if_pos (by simpa using h)]
  · rw [if_neg h, if_neg (by simpa using h)]

/-- Whether findings are recorded does not depend on what is found. -/
theorem reporting_diagnose (d : Diagnostic) (a : Analysis) :
    ((diagnose d).outcome a).2.reporting = a.reporting :=
  (Analysis.Noted.diagnose d a).reporting

/-! ### Analyses whose findings are compared -/

/-- The relation is about findings only, and stays when something is found in both analyses. -/
structure ComparesFindings (Rel : Analysis → Analysis → Prop) : Prop where
  same : ∀ {a a' b b'}, Rel a b → a'.reporting = a.reporting → a'.diagnostics = a.diagnostics →
    b'.reporting = b.reporting → b'.diagnostics = b.diagnostics → Rel a' b'
  diagnose : ∀ d {a b}, Rel a b →
    Rel ((diagnose d).outcome a).2 ((diagnose d).outcome b).2

/-- Findings are not recorded, and there are none. -/
def Analysis.IsSilent (a : Analysis) : Prop := a.reporting = false ∧ a.diagnostics = []

/-- Being silent is a relation that findings keep to. -/
theorem comparesFindings_isSilent : ComparesFindings fun a _ => a.IsSilent where
  same silent reporting diagnostics _ _ :=
    ⟨reporting.trans silent.1, diagnostics.trans silent.2⟩
  diagnose d {a _} silent := by
    refine ⟨(reporting_diagnose d a).trans silent.1, ?_⟩
    rw [diagnostics_diagnose, silent.1]
    exact silent.2

/-- Findings are recorded, and the first analysis has found `before` and what the second one has
found after that. -/
structure Analysis.Continued (before : List Diagnostic) (a b : Analysis) : Prop where
  records : a.reporting = true
  records' : b.reporting = true
  found : a.diagnostics = (before ++ b.diagnostics).eraseDups

/-- Having gone on from some findings is a relation that findings keep to. -/
theorem comparesFindings_continued (before : List Diagnostic) :
    ComparesFindings (Analysis.Continued before) where
  same h reporting diagnostics reporting' diagnostics' :=
    ⟨reporting.trans h.records, reporting'.trans h.records', by
      rw [diagnostics, diagnostics']
      exact h.found⟩
  diagnose d {a b} h := by
    refine ⟨(reporting_diagnose d a).trans h.records, (reporting_diagnose d b).trans h.records', ?_⟩
    rw [diagnostics_diagnose, diagnostics_diagnose, h.records, h.records', h.found]
    have listed : d ∈ (before ++ b.diagnostics).eraseDups ↔ d ∈ before ++ b.diagnostics :=
      List.mem_eraseDups
    by_cases known : d ∈ b.diagnostics
    · have known' : d ∈ (before ++ b.diagnostics).eraseDups :=
        listed.2 (List.mem_append_right _ known)
      rw [if_neg fun h => h.2 known', if_neg fun h => h.2 known]
    · rw [if_pos (show true = true ∧ d ∉ b.diagnostics from ⟨rfl, known⟩), ← List.append_assoc,
        eraseDups_concat]
      by_cases before : d ∈ before ++ b.diagnostics
      · rw [if_pos before, if_neg fun h => h.2 (listed.2 before)]
      · rw [if_neg before, if_pos ⟨rfl, fun h => before (listed.1 h)⟩]

namespace AnalysisDiscipline

variable {z : Analyzer} {s : Store} {Rel : Analysis → Analysis → Prop}

/-- A step that finds nothing keeps two analyses related. -/
theorem relating_of_notes (compares : ComparesFindings Rel) {α : Type}
    {post : α → Analysis → Prop} {step step' : Analyzing α} {a b : Analysis} (related : Rel a b)
    (hs : (quiet z s).runs.Safe post step step' a b)
    (notes : ∀ a, (step.outcome a).2.reporting = a.reporting ∧
      (step.outcome a).2.diagnostics = a.diagnostics)
    (notes' : ∀ b, (step'.outcome b).2.reporting = b.reporting ∧
      (step'.outcome b).2.diagnostics = b.diagnostics) :
    ((quiet z s).runs.relating Rel).Safe post step step' a b := by
  refine hs.relating fun result a' b' run run' _ => ?_
  have notes := notes a
  have notes' := notes' b
  rw [run] at notes
  rw [run'] at notes'
  exact compares.same related notes.1 notes.2 notes'.1 notes'.2

/-- A finding on both sides keeps two analyses related. -/
theorem relating_diagnose (compares : ComparesFindings Rel) (d : Diagnostic) {a b : Analysis}
    (h : ((quiet z s).runs.relating Rel).Alike a b) :
    ((quiet z s).runs.relating Rel).Safe (fun _ _ => True) (diagnose d) (diagnose d) a b := by
  refine ((quiet z s).safe_diagnose d h.1).relating fun result a' b' run run' _ => ?_
  have related := compares.diagnose d h.2
  rw [run, run'] at related
  exact related

/-- Making a call finds nothing, and does not change whether findings are recorded. -/
theorem notes_newCall (key : CallKey) (origin : CallId) (a : Analysis) :
    ((z.newCall key origin).outcome a).2.reporting = a.reporting ∧
      ((z.newCall key origin).outcome a).2.diagnostics = a.diagnostics := by
  rw [Setting.outcome_newCall]
  cases a.store.callKey origin <;> exact ⟨rfl, rfl⟩

/-- Analyses in a store that stays as it is, whose findings are related. -/
def comparing (z : Analyzer) (s : Store) (compares : ComparesFindings Rel) : AnalysisDiscipline z :=
  let D := quiet z s
  { D with
    runs := D.runs.relating Rel
    store_eq := fun h => D.store_eq h.1
    inv := fun h => D.inv h.1
    leads_store := D.leads_store
    allowed := D.allowed
    safe_onStore := fun h hs => relating_of_notes compares h.2 (D.safe_onStore h.1 hs)
      (fun _ => ⟨rfl, rfl⟩) fun _ => ⟨rfl, rfl⟩
    safe_diagnose := fun d h => relating_diagnose compares d h
    safe_noteUnsupported := fun name id h => by
      show ((quiet z s).runs.relating Rel).Safe _ (z.noteUnsupported name id)
        (z.noteUnsupported name id) _ _
      unfold Analyzer.noteUnsupported
      split
      · exact relating_diagnose compares _ h
      · exact .pure h trivial
    safe_recordDispatch := fun site clazz h =>
      relating_of_notes compares h.2 (D.safe_recordDispatch site clazz h.1) (fun _ => ⟨rfl, rfl⟩)
        fun _ => ⟨rfl, rfl⟩
    safe_newCall := fun h hk ho discovers =>
      relating_of_notes compares h.2 (D.safe_newCall h.1 hk ho discovers) (notes_newCall _ _)
        (notes_newCall _ _) }

end AnalysisDiscipline

namespace Analyzer

variable {z : Analyzer} (hz : z.intrinsics = .standard) {a a' : Analysis} {s : Store}

/-- What the analysis of one call finds in a store. -/
def findings (z : Analyzer) (s : Store) (id : CallId) : List Diagnostic :=
  ((z.analyze id).outcome { store := s, reporting := true }).2.diagnostics

/-! ### Before the last sweep -/

/-- Seeding a sweep finds nothing, and does not change whether findings are recorded. -/
theorem notes_begun (z : Analyzer) (a : Analysis) :
    (z.begun a).reporting = a.reporting ∧ (z.begun a).diagnostics = a.diagnostics := by
  unfold begun
  obtain ⟨_, -, seeded⟩ | ⟨-, seeded⟩ := z.seed_cases a <;> rw [seeded] <;> exact ⟨rfl, rfl⟩

/-- The regime of silent analyses, when a sweep has its calls before it. -/
theorem alike_begun_silent (silent : a.IsSilent) :
    (AnalysisDiscipline.comparing z a.store comparesFindings_isSilent).runs.Alike (z.begun a)
      (z.begun a) := by
  obtain ⟨reporting, diagnostics⟩ := notes_begun z a
  exact ⟨⟨rfl, begun_quiet z a⟩, reporting.trans silent.1, diagnostics.trans silent.2⟩

include hz

/-- A sweep that does not record findings makes none, neither on its way nor when it fails. -/
theorem silent_sweep (silent : a.IsSilent) :
    (z.sweep.outcome a).2.IsSilent ∧ ∀ t ∈ z.visitsOfSweep a, t.2.before.IsSilent := by
  have seen := (AnalysisDiscipline.comparing z a.store comparesFindings_isSilent).seen_visitsOfCalls
    hz (alike_begun_silent silent) fun id (_ : id ∈ (z.begun a).store.calls.ids) => trivial
  refine ⟨?_, fun t ht => ?_⟩
  · rw [sweep_outcome]
    cases seen.safe with
    | ok run _ alike =>
      rw [run]
      exact alike.2
    | error run _ alike =>
      rw [run]
      exact alike.2
  · obtain ⟨_, alike⟩ := (seen.ahead t ht).1.alike
    exact alike.2

/-- Sweeps that do not record findings make none, however many there are. -/
theorem silent_afterSweeps (silent : a.IsSilent) (count : Nat) : (z.afterSweeps count a).IsSilent := by
  induction count with
  | zero => exact silent
  | succ count ih => exact (silent_sweep hz ih).1

/-- The sweeps until an analysis settles make no findings, if they do not record them. -/
theorem silent_settle (silent : a.IsSilent) (patience : Nat) :
    ((z.settle patience).outcome a).2.IsSilent := by
  induction patience generalizing a with
  | zero => exact silent
  | succ patience ih =>
    unfold settle
    rw [Attempt.outcome_bind, Attempt.outcome_get]
    dsimp only
    cases z.config.maxIterations.filter (· ≤ a.iterations) with
    | some count => exact silent
    | none =>
      dsimp only
      rw [Attempt.outcome_bind]
      have next := (silent_sweep hz silent).1
      cases swept : z.sweep.outcome a with
      | mk result a' =>
        rw [swept] at next
        obtain _ | _ | settled := result
        · exact next
        · exact next
        · exact ih next

/-! ### The last sweep -/

/-- What is found in a call when others have been analysed is what is found in it alone, as far as
it has not been found before. -/
theorem diagnostics_analyze {id : CallId} {before : List Diagnostic}
    (run : (z.analyze id).outcome a = (.ok (), a')) (kept : a.store = s)
    (reporting : a.reporting = true) (found : a.diagnostics = before.eraseDups) :
    a'.reporting = true ∧ a'.diagnostics = (before ++ z.findings s id).eraseDups := by
  have continued : Analysis.Continued before a { store := s, reporting := true } :=
    ⟨reporting, rfl, by rw [List.append_nil]; exact found⟩
  let D := AnalysisDiscipline.comparing z s (comparesFindings_continued before)
  have safe : D.runs.Safe (fun _ _ => True) (z.analyze id) ((z.beside D.reports).analyze id) a
      { store := s, reporting := true } :=
    D.safe_analyze hz ⟨⟨kept.symm, fun _ => kept⟩, continued⟩ trivial
  obtain ⟨b', run', ⟨-, continued'⟩, -⟩ := safe.of_ok run
  have run' : (z.analyze id).outcome { store := s, reporting := true } = (.ok (), b') := run'
  unfold findings
  rw [run']
  exact ⟨continued'.records, continued'.found⟩

/-- What is found in several calls is what is found in each of them alone, one after the other, as
far as it has not been found before. -/
theorem diagnostics_analyzeAll {ids : List CallId} {before : List Diagnostic}
    (run : (z.analyzeAll ids).outcome a = (.ok (), a')) (kept : a.store = s)
    (unchanged : a'.store.change = none) (reporting : a.reporting = true)
    (found : a.diagnostics = before.eraseDups) :
    a'.diagnostics = (before ++ ids.flatMap (z.findings s)).eraseDups := by
  induction ids generalizing a before with
  | nil =>
    cases run
    rw [List.flatMap_nil, List.append_nil]
    exact found
  | cons id rest ih =>
    obtain ⟨b, first, hb, later⟩ := analyzeAll_cons_quiet hz run kept unchanged
    obtain ⟨reporting, found⟩ := diagnostics_analyze hz first kept reporting found
    rw [List.flatMap_cons, ← List.append_assoc]
    exact ih later hb reporting found

/-- Findings are about the state at the end. Nothing is found before the last sweep, wherever the
analysis is. In a report, every call can be analysed once more on its own and leaves the store as it
is, and the findings are what that finds in one call after the other, each at its first occurrence.
-/
theorem run_findings {patience : Nat} {final : Analysis} (silent : a.IsSilent)
    (run : z.run patience a = some (.ok final)) :
    (∀ count, (z.afterSweeps count a).IsSilent ∧
      ∀ t ∈ z.visitsOfSweep (z.afterSweeps count a), t.2.before.IsSilent) ∧
    (∀ count, ((z.settle count).outcome a).2.IsSilent) ∧
    (∀ id ∈ final.store.calls.ids, ∃ b,
      (z.analyze id).outcome { store := final.store, reporting := true } = (.ok (), b) ∧
        b.store = final.store) ∧
    final.diagnostics = (final.store.calls.ids.flatMap (z.findings final.store)).eraseDups ∧
    final.diagnostics.Nodup ∧
    ∀ d ∈ final.diagnostics, ∃ id ∈ final.store.calls.ids, d ∈ z.findings final.store id := by
  have before (count : Nat) : (z.afterSweeps count a).IsSilent := silent_afterSweeps hz silent count
  obtain ⟨settled, settles, reports⟩ := run_eq_ok run
  obtain ⟨swept, sweeps, rfl⟩ := report_eq_ok reports
  have rests := silent_settle hz silent (z.config.maxIterations.elim patience (· + 1))
  rw [settles] at rests
  -- The last sweep changes nothing, so each call is analysed in the store of the report, whatever
  -- has been analysed before it.
  obtain ⟨begun, unchanged, analyzed⟩ := analyzeAll_of_sweep_quiet hz sweeps
  obtain ⟨kept, known⟩ := analyzeAll_quiet hz analyzed begun unchanged
  have notes := notes_begun z { settled with reporting := true }
  have none : (z.begun { settled with reporting := true }).diagnostics =
      ([] : List Diagnostic).eraseDups := notes.2.trans rests.2
  have found : swept.diagnostics =
      (swept.store.calls.ids.flatMap (z.findings swept.store)).eraseDups := by
    rw [kept]
    exact diagnostics_analyzeAll hz analyzed begun unchanged notes.1 none
  refine ⟨fun count => ⟨before count, (silent_sweep hz (before count)).2⟩, silent_settle hz silent,
    fun id listed => ?_, found, ?_, fun d listed => ?_⟩
  · have listed : id ∈ swept.store.calls.ids := listed
    rw [kept] at listed
    obtain ⟨b, b', run, hb, hb'⟩ := known id listed
    exact analyze_again hz run (hb.trans kept.symm) (hb'.trans kept.symm) rfl
  · show swept.diagnostics.Nodup
    rw [found]
    exact nodup_eraseDups _
  · have listed : d ∈ swept.diagnostics := listed
    rw [found, List.mem_eraseDups, List.mem_flatMap] at listed
    exact listed

omit hz

/-- An analysis of a program in which a function that needs an intrinsic without a meaning is called
with two different values. -/
def repeating : Analyzer where
  view := Program.view
    { clazzes :=
        [ ("main", { kind := .routine, code := some ⟨0⟩ })
        , ("bool", { kind := .choice, special := some .bool, needsCode := false })
        , ("wait", { kind := .routine, code := some ⟨1⟩, args := [⟨3⟩] })
        , ("wait.long", { kind := .field, outer := some ⟨2⟩, result := some ⟨1⟩ })
        , ("fuzion.std.nano_sleep", { kind := .intrinsic }) ]
      blocks :=
        [ [ .current, .const ⟨1⟩ [0], .call (.fixed ⟨2⟩), .pop
          , .current, .const ⟨1⟩ [1], .call (.fixed ⟨2⟩) ]
        , [.current, .call (.fixed ⟨4⟩)] ]
      main := ⟨0⟩
      constString := none }

/-- What is found there. -/
def sleeps : Diagnostic := .unsupportedIntrinsic "fuzion.std.nano_sleep" ⟨2⟩

/-- Both calls of the function find the same there, and it is told once. -/
theorem run_findings_repeating :
    ∃ final, repeating.run 12 {} = some (.ok final) ∧
      final.store.calls.ids.flatMap (repeating.findings final.store) = [sleeps, sleeps] ∧
      final.diagnostics = [sleeps] ∧ final.diagnostics.Nodup := by
  have table : repeating.intrinsics = .standard := by simp only [repeating]
  have agrees : repeating.Agrees .own := agrees_own table (by decide +kernel)
  obtain ⟨final, run, found⟩ : ∃ final, repeating.run 12 {} = some (.ok final) ∧
      final.store.calls.ids.flatMap (repeating.findings final.store) = [sleeps, sleeps] := by
    unfold findings
    rw [← agrees.run, ← agrees.analyze]
    exact exists_run (by decide +kernel)
  obtain ⟨-, -, -, listed, distinct, -⟩ := run_findings table ⟨rfl, rfl⟩ run
  rw [found] at listed
  exact ⟨final, run, found, listed.trans (by decide), distinct⟩

end Analyzer

end ClosedWorld
