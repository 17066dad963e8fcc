import ClosedWorld.Proofs.Analysis.Visits

/-!
# Sweeps, step by step

A sweep makes sure that the call to start with is known, analyses the calls that are known then, and
looks whether the store has changed.

## Main definitions

* `Analyzer.mainKey`: the key of the call to start with.
* `Analyzer.begun`: the state in which a sweep has its calls before it.
* `Analyzer.reportVisits`: the visits of the pass that records the findings of a run.
* `Analyzer.afterSweeps`: the state after a number of sweeps.

## Main statements

* `Analyzer.seed_cases`, `Analyzer.sweep_outcome`: the two steps of a sweep.
* `AnalysisDiscipline.sweep_cases`: a sweep keeps to a discipline.
* `AnalysisDiscipline.inv_afterSweeps`, `AnalysisDiscipline.allowed_of_run`,
  `AnalysisDiscipline.inv_run`: so do any number of sweeps, and whole runs.
* `Analyzer.run_eq_ok`, `Analyzer.report_eq_ok`: what a run that succeeds consists of.
-/

namespace ClosedWorld

namespace Analyzer

variable (z : Analyzer)

/-- The key of the call to start with. -/
def mainKey : CallKey :=
  { clazz := z.view.main, pre := false, target := .unit, args := [], env := none }

/-- Seeding finds the call to start with in the analysis, or interns it in the store and notes it
there. -/
theorem seed_cases (a : Analysis) :
    (∃ main, a.main = some main ∧ z.seed.outcome a = (.ok main, a)) ∨
      a.main = none ∧ z.seed.outcome a =
        (.ok ((Store.internCall z.mainKey none none).run a.store).1,
          { a with
            store := ((Store.internCall z.mainKey none none).run a.store).2
            main := some ((Store.internCall z.mainKey none none).run a.store).1 }) := by
  unfold seed
  rw [Attempt.outcome_bind, Attempt.outcome_get]
  dsimp only
  cases known : a.main with
  | some main => exact .inl ⟨main, rfl, rfl⟩
  | none => exact .inr ⟨rfl, rfl⟩

/-- The state in which a sweep has its calls before it. -/
def begun (a : Analysis) : Analysis :=
  { (z.seed.outcome a).2 with iterations := (z.seed.outcome a).2.iterations + 1 }

/-- The call to start with is known where a sweep begins. -/
theorem exists_main_begun (a : Analysis) : ∃ main, (z.begun a).main = some main := by
  unfold begun
  obtain ⟨main, known, seeded⟩ | ⟨-, seeded⟩ := z.seed_cases a
  · rw [seeded]
    exact ⟨main, known⟩
  · rw [seeded]
    exact ⟨_, rfl⟩

/-- A sweep analyses the calls that are known at its start, and forgets the change. -/
theorem sweep_outcome (a : Analysis) :
    z.sweep.outcome a =
      match (z.analyzeAll (z.begun a).store.calls.ids).outcome (z.begun a) with
      | (.ok _, a') => (.ok a'.store.change, { a' with store := a'.store.unnoted })
      | (.error fault, a') => (.error fault, a') := by
  have swept (a : Analysis) :
      (do z.analyzeAll (← currentStore).calls.ids
          onStore Store.takeChange).outcome a =
        match (z.analyzeAll a.store.calls.ids).outcome a with
        | (.ok _, a') => (.ok a'.store.change, { a' with store := a'.store.unnoted })
        | (.error fault, a') => (.error fault, a') := by
    rw [Attempt.outcome_bind]
    show (z.analyzeAll a.store.calls.ids >>= fun _ => onStore Store.takeChange).outcome a = _
    rw [Attempt.outcome_bind]
    obtain ⟨result, a'⟩ := (z.analyzeAll a.store.calls.ids).outcome a
    cases result <;> rfl
  unfold sweep begun
  rw [Attempt.outcome_bind]
  obtain ⟨main, -, seeded⟩ | ⟨-, seeded⟩ := z.seed_cases a
  · rw [seeded]
    exact swept _
  · rw [seeded]
    exact swept _

/-- The visits of a sweep. -/
def visitsOfSweep (a : Analysis) : List (Activation × Visit Analysis Value) :=
  z.visitsOfCalls (z.begun a).store.calls.ids (z.begun a)

/-- The visits of the sweep that records findings, if the analysis comes to rest. -/
def reportVisits (patience : Nat) (a : Analysis) : List (Activation × Visit Analysis Value) :=
  match (z.settle (z.config.maxIterations.elim patience (· + 1))).outcome a with
  | (.ok true, settled) => z.visitsOfSweep { settled with reporting := true }
  | _ => []

/-- The state after a number of sweeps. A sweep that fails leaves what it has done so far, and the
next one begins there. -/
def afterSweeps (z : Analyzer) : (count : Nat) → Analysis → Analysis
  | 0, a => a
  | count + 1, a => (z.sweep.outcome (z.afterSweeps count a)).2

/-! ### Runs that succeed -/

/-- The pass that reports is a sweep that changes nothing, with findings recorded and not counted as
an iteration. -/
theorem report_eq_ok {z : Analyzer} {settled final : Analysis}
    (reports : z.report.outcome settled = (.ok (), final)) :
    ∃ swept, z.sweep.outcome { settled with reporting := true } = (.ok none, swept) ∧
      final = { swept with iterations := settled.iterations } := by
  unfold report at reports
  obtain ⟨_, _, got, reports⟩ := Attempt.outcome_bind_eq_ok reports
  cases got
  obtain ⟨_, _, set, reports⟩ := Attempt.outcome_bind_eq_ok reports
  cases set
  obtain ⟨change, swept, sweeps, reports⟩ := Attempt.outcome_bind_eq_ok reports
  cases change with
  | some change => cases reports
  | none =>
    cases reports
    exact ⟨swept, sweeps, rfl⟩

/-- A run that succeeds consists of sweeps until the analysis has settled and the pass that reports.
-/
theorem run_eq_ok {z : Analyzer} {patience : Nat} {a final : Analysis}
    (run : z.run patience a = some (.ok final)) :
    ∃ settled,
      (z.settle (z.config.maxIterations.elim patience (· + 1))).outcome a = (.ok true, settled) ∧
        z.report.outcome settled = (.ok (), final) := by
  unfold Analyzer.run at run
  cases settles : (z.settle (z.config.maxIterations.elim patience (· + 1))).outcome a with
  | mk result settled =>
    rw [settles] at run
    match result, run with
    | .ok true, run =>
      dsimp only at run
      cases reports : z.report.outcome settled with
      | mk result reported =>
        rw [reports] at run
        cases result with
        | error fault => cases run
        | ok _ =>
          cases run
          exact ⟨settled, rfl, reports⟩

/-- The run succeeds, and its report is as wanted. -/
def reportsAs (z : Analyzer) (patience : Nat) (a : Analysis) (wanted : Analysis → Bool) : Bool :=
  match z.run patience a with
  | some (.ok final) => wanted final
  | _ => false

/-- What a report says can be found out by running the analysis. -/
theorem exists_run {z : Analyzer} {patience : Nat} {a : Analysis} {P : Analysis → Prop}
    [DecidablePred P] (h : z.reportsAs patience a (fun final => decide (P final)) = true) :
    ∃ final, z.run patience a = some (.ok final) ∧ P final := by
  unfold reportsAs at h
  split at h
  · rename_i final run
    exact ⟨final, run, of_decide_eq_true h⟩
  · cases h

end Analyzer

namespace AnalysisDiscipline

variable {z : Analyzer}

/-- A sweep keeps to a discipline of stores up to the point where it forgets the change. -/
theorem safe_begun (D : StoreDiscipline z.view) {a : Analysis} (hi : D.Inv a.store)
    (hk : D.GoodKey z.view a.store z.mainKey) :
    D.Inv (z.begun a).store ∧ D.Leads a.store (z.begun a).store := by
  unfold Analyzer.begun
  obtain ⟨main, -, seeded⟩ | ⟨-, seeded⟩ := z.seed_cases a
  · rw [seeded]
    exact ⟨hi, D.leads_refl a.store⟩
  · rw [seeded]
    have noOrigin : ∀ id, none = some id → D.GoodCall a.store id := by rintro _ ⟨⟩
    have kept := D.kept_internCall hi hk D.goodContext_none noOrigin
    exact ⟨kept.inv, kept.leads⟩

/-- The analyses of a sweep keep to a discipline, whether findings are recorded or not. -/
theorem safe_swept (hz : z.intrinsics = .standard) (D : StoreDiscipline z.view) (reports : Bool)
    {a b : Analysis} (h : D.runs.Alike a b)
    (suits : D.Suits z.toSetting := by exact .of_known) :
    D.runs.Safe (fun _ _ => True) (z.analyzeAll a.store.calls.ids)
      ((z.beside reports).analyzeAll a.store.calls.ids) a b := by
  refine (ofStore D reports suits.goodContext).safe_analyzeAll hz h (fun id hid => ?_)
    fun id _ => suits.walked id
  obtain ⟨key, known⟩ := Interned.mem_ids.1 hid
  exact D.goodCall_of_key h.2 known

/-- The call to start with has the unit value as its target and no arguments. -/
theorem goodKey_mainKey (D : StoreDiscipline z.view) (main : D.Known z.view.main) (s : Store) :
    D.GoodKey z.view s z.mainKey where
  known := main
  target := D.good_unit s
  args := List.forall_mem_nil _
  arity := D.goodArity_zero
  env := by rintro _ ⟨⟩
  checked := by rintro ⟨⟩

/-- A sweep succeeds with the change that is noted at its end, or it fails as the discipline allows.
-/
theorem sweep_cases (hz : z.intrinsics = .standard) (D : StoreDiscipline z.view)
    (main : D.Known z.view.main) {a : Analysis} (hi : D.Inv a.store)
    (suits : D.Suits z.toSetting := by exact .of_known) :
    ∃ a', D.Inv a'.store ∧ D.Leads a.store a'.store ∧
      (z.sweep.outcome a = (.ok a'.store.change, { a' with store := a'.store.unnoted }) ∨
        ∃ fault, z.sweep.outcome a = (.error fault, a') ∧ D.Allowed fault) := by
  obtain ⟨begun, leads⟩ := safe_begun D hi (goodKey_mainKey D main _)
  have swept := safe_swept hz D z.config.reportIntrinsics (a := z.begun a) ⟨rfl, begun⟩ suits
  rw [Analyzer.sweep_outcome]
  cases swept with
  | ok run _ alike leads' _ =>
    rw [run]
    exact ⟨_, alike.2, D.leads_trans leads leads'.1, .inl rfl⟩
  | error run _ alike leads' allowed =>
    rw [run]
    exact ⟨_, alike.2, D.leads_trans leads leads'.1, .inr ⟨_, rfl, allowed⟩⟩

/-! ### Any number of sweeps -/

section runs

variable (hz : z.intrinsics = .standard) (D : StoreDiscipline z.view) (main : D.Known z.view.main)
  (forget : ∀ {s}, D.Inv s → D.Inv s.unnoted) {a : Analysis}

include hz main forget

/-- What holds of every store of a discipline holds after a sweep, whether it succeeds or fails. -/
theorem inv_sweep (hi : D.Inv a.store)
    (suits : D.Suits z.toSetting := by exact .of_known) :
    D.Inv (z.sweep.outcome a).2.store := by
  obtain ⟨a', inv, -, swept | ⟨fault, swept, -⟩⟩ := sweep_cases hz D main hi suits <;> rw [swept]
  · exact forget inv
  · exact inv

/-- What holds of every store of a discipline holds after any number of sweeps. -/
theorem inv_afterSweeps (hi : D.Inv a.store) (count : Nat)
    (suits : D.Suits z.toSetting := by exact .of_known) :
    D.Inv (z.afterSweeps count a).store := by
  induction count with
  | zero => exact hi
  | succ count ih => exact inv_sweep hz D main forget ih suits

omit forget in
/-- A sweep fails only as the discipline allows. -/
theorem allowed_of_sweep (hi : D.Inv a.store) {fault : Fault} {a' : Analysis}
    (failed : z.sweep.outcome a = (.error fault, a'))
    (suits : D.Suits z.toSetting := by exact .of_known) : D.Allowed fault := by
  obtain ⟨_, -, -, swept | ⟨_, swept, allowed⟩⟩ := sweep_cases hz D main hi suits
  · cases failed.symm.trans swept
  · cases failed.symm.trans swept
    exact allowed

/-- Sweeps until nothing changes fail as a sweep may, or by the limit on their number. -/
theorem gives_settle (limit : ∀ count, D.Allowed (.iterationLimit count)) (hi : D.Inv a.store)
    (patience : Nat) (suits : D.Suits z.toSetting := by exact .of_known) :
    Gives D.Allowed (fun _ => D.Inv ((z.settle patience).outcome a).2.store)
      ((z.settle patience).outcome a).1 := by
  induction patience generalizing a with
  | zero => exact .ok hi
  | succ patience ih =>
    unfold Analyzer.settle
    rw [Attempt.outcome_bind, Attempt.outcome_get]
    dsimp only
    cases z.config.maxIterations.filter (· ≤ a.iterations) with
    | some count => exact .error (limit count)
    | none =>
      dsimp only
      rw [Attempt.outcome_bind]
      have inv := inv_sweep hz D main forget hi suits
      cases swept : z.sweep.outcome a with
      | mk result a' =>
        rw [swept] at inv
        cases result with
        | error fault => exact .error (allowed_of_sweep hz D main hi swept suits)
        | ok change =>
          cases change with
          | none => exact .ok inv
          | some _ => exact ih inv

omit forget in
/-- The pass that only reports fails as a sweep may, or because it changes something. -/
theorem allowed_of_report (reporting : ∀ change, D.Allowed (.reportingChanged change))
    (hi : D.Inv a.store) {fault : Fault} {a' : Analysis}
    (failed : z.report.outcome a = (.error fault, a'))
    (suits : D.Suits z.toSetting := by exact .of_known) : D.Allowed fault := by
  unfold Analyzer.report at failed
  rw [Attempt.outcome_bind, Attempt.outcome_get] at failed
  dsimp only at failed
  rw [Attempt.outcome_bind, Attempt.outcome_modify] at failed
  dsimp only at failed
  rw [Attempt.outcome_bind] at failed
  cases swept : z.sweep.outcome { a with reporting := true } with
  | mk result b =>
    rw [swept] at failed
    cases result with
    | error _ =>
      cases failed
      exact allowed_of_sweep hz D main (a := { a with reporting := true }) hi swept suits
    | ok change =>
      cases change with
      | none => cases failed
      | some change =>
        cases failed
        exact reporting change

/-- A run fails as a sweep may, by the limit on the number of sweeps, or because the pass that only
reports changes something. -/
theorem allowed_of_run (limit : ∀ count, D.Allowed (.iterationLimit count))
    (reporting : ∀ change, D.Allowed (.reportingChanged change)) (hi : D.Inv a.store)
    {patience : Nat} {fault : Fault} (failed : z.run patience a = some (.error fault))
    (suits : D.Suits z.toSetting := by exact .of_known) : D.Allowed fault := by
  have settled := gives_settle hz D main forget limit hi
    (z.config.maxIterations.elim patience (· + 1)) suits
  unfold Analyzer.run at failed
  generalize (z.settle (z.config.maxIterations.elim patience (· + 1))).outcome a = outcome at *
  obtain ⟨result, a'⟩ := outcome
  cases settled with
  | error allowed =>
    cases failed
    exact allowed
  | @ok rests inv =>
    cases rests with
    | false => cases failed
    | true =>
      dsimp only at failed inv
      cases reported : z.report.outcome a' with
      | mk result b =>
        rw [reported] at failed
        cases result with
        | ok _ => cases failed
        | error _ =>
          cases failed
          exact allowed_of_report hz D main reporting inv reported suits

/-- What holds of every store of a discipline holds of that of a report. -/
theorem inv_run (limit : ∀ count, D.Allowed (.iterationLimit count)) (hi : D.Inv a.store)
    {patience : Nat} {final : Analysis} (run : z.run patience a = some (.ok final))
    (suits : D.Suits z.toSetting := by exact .of_known) :
    D.Inv final.store := by
  obtain ⟨settled, settles, reports⟩ := Analyzer.run_eq_ok run
  obtain ⟨swept, sweeps, rfl⟩ := Analyzer.report_eq_ok reports
  have inv := gives_settle hz D main forget limit hi
    (z.config.maxIterations.elim patience (· + 1)) suits
  rw [settles] at inv
  cases inv with
  | ok inv =>
    have last := inv_sweep hz D main forget (a := { settled with reporting := true }) inv suits
    rw [sweeps] at last
    exact last

end runs

end AnalysisDiscipline

end ClosedWorld
