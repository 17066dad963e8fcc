import ClosedWorld.Proofs.Analysis.Invariants
import ClosedWorld.Proofs.Analysis.Neat
import ClosedWorld.Proofs.Lockstep.Calls

/-!
# Runs in lockstep

A run that succeeds ends in a store at rest. If that is coarse and all visits of its last sweep are
open, then the store of a run in which an intrinsic has a meaning that it lacks here stays covered
by it, from the first sweep to the last.

## Main statements

* `covered_run`: the store of the other run is covered.
-/

namespace ClosedWorld

/-! ### Stores at rest -/

namespace Analyzer

variable {z : Analyzer} (hz : z.intrinsics = .standard) {patience : Nat} {final : Analysis}

include hz

/-- The store of a run that succeeds is at rest, if it is coarse. -/
theorem rests_of_run (run : z.run patience {} = some (.ok final)) (coarse : final.store.IsCoarse) :
    final.store.Rests z.view := by
  have reached := reaches_run run
  obtain ⟨sound, framed⟩ := store_of_reaches hz (P := Store.Framed) Store.framed_empty
    (fun framed altered => altered.framed framed) (fun framed => framed) reached
  obtain ⟨settled, -, reports⟩ := run_eq_ok run
  obtain ⟨swept, sweeps, rfl⟩ := report_eq_ok reports
  exact ⟨coarse, (analyzeAll_of_sweep_quiet hz sweeps).2.1, sound, framed⟩

/-- The call that a run begins with is in its store. -/
theorem exists_main_of_run (run : z.run patience {} = some (.ok final)) :
    ∃ id, final.store.calls.key? id = some z.mainKey := by
  obtain ⟨-, knows⟩ := (maintains_knowsMain z).of_reaches hz (reaches_run run)
  obtain ⟨settled, -, reports⟩ := run_eq_ok run
  obtain ⟨swept, sweeps, rfl⟩ := report_eq_ok reports
  obtain ⟨main, known⟩ := main_of_sweep_quiet hz sweeps
  exact ⟨main, knows main known⟩

/-- All calls of a report are open if all visits of its last sweep go all ways. -/
theorem allOpen_of_run (run : z.run patience {} = some (.ok final))
    (allWays : ∀ p ∈ z.reportVisits patience {}, p.2.GoesAllWays z.view) :
    z.AllOpen final.store := by
  obtain ⟨sound, -⟩ := (maintains_knowsMain z).of_reaches hz (reaches_run run)
  obtain ⟨settled, settles, reports⟩ := run_eq_ok run
  obtain ⟨swept, sweeps, rfl⟩ := report_eq_ok reports
  obtain ⟨begun, unchanged, sweptAll⟩ := analyzeAll_of_sweep_quiet hz sweeps
  obtain ⟨kept, -⟩ := analyzeAll_quiet hz sweptAll begun unchanged
  intro id key state held code
  have kept : swept.store = settled.store := kept
  dsimp only at held sound ⊢
  rw [kept] at held sound unchanged ⊢
  have listed : id ∈ settled.store.calls.ids := Interned.mem_ids.2 ⟨key, Interned.key?_of_get? held⟩
  obtain ⟨isSettled, b, hb, subset⟩ := exists_visits_of_analyzeAll hz sound.regular unchanged
    sweptAll
    begun (kept ▸ unchanged) listed held code
  refine ⟨isSettled, b, hb, fun visit hv => ?_⟩
  have visited : (⟨id, key, state.frame⟩, visit) ∈
      z.visitsOfSweep { settled with reporting := true } := by
    unfold visitsOfSweep
    rw [begun]
    exact subset (List.mem_map_of_mem hv)
  obtain ⟨handles, -⟩ := handles_of_mem_visitsOfSweep hz (a := { settled with reporting := true })
    sound.clean visited
  refine ⟨allWays (⟨id, key, state.frame⟩, visit) ?_, handles.stack⟩
  unfold reportVisits
  rw [settles]
  exact visited

end Analyzer

/-! ### Sweeps -/

/-- A store stays covered when its note of a change is dropped. -/
theorem Store.covered_unnoted {view : View} {s t : Store} (hs : Store.Covered view t s) :
    Store.Covered view t s.unnoted :=
  have keeps : s.Keeps s.unnoted := { Keeps.refl s with }
  { hs.mono keeps with }

section sweeps

variable {z : Analyzer} {name : String} {truth : Truth} {t : Store} {a a' : Analysis}
  (hz : z.intrinsics = .standard)
  (unsupported : ∀ meaning, IntrinsicTable.standard.find? name ≠ some (.handler meaning))
  (ht : t.Rests z.view) (opens : z.AllOpen t) (main : ∃ id, t.calls.key? id = some z.mainKey)

include main in
/-- The store in which a sweep of the other analysis begins, with the call of main in it, is
covered. -/
theorem covered_begun (hs : Store.Covered z.view t a.store) :
    Store.Covered z.view t ((z.answering name truth).begun a).store := by
  obtain ⟨id', known'⟩ := main
  have mirrors : Store.KeyMirrors z.view a.store t z.mainKey z.mainKey :=
    ⟨rfl, rfl, .of_unit _, .nil, [], .nil, .nil⟩
  unfold Analyzer.begun
  obtain ⟨_, -, seeded⟩ | ⟨-, seeded⟩ := (z.answering name truth).seed_cases a
  · rw [seeded]
    exact hs
  · rw [seeded]
    exact (Store.proceeds_internCall hs mirrors known' none none).covered

include hz unsupported ht opens main

/-- A sweep of the other analysis keeps its store covered. -/
theorem covered_sweep {change : Option Change} (hs : Store.Covered z.view t a.store)
    (sweeps : (z.answering name truth).sweep.outcome a = (.ok change, a')) :
    Store.Covered z.view t a'.store := by
  rw [Analyzer.sweep_outcome] at sweeps
  cases run : ((z.answering name truth).analyzeAll
      ((z.answering name truth).begun a).store.calls.ids).outcome
      ((z.answering name truth).begun a) with
  | mk result swept =>
    rw [run] at sweeps
    cases result with
    | error fault => cases sweeps
    | ok _ =>
      cases sweeps
      exact Store.covered_unnoted
        (proceeds_analyzeAll hz unsupported ht opens (covered_begun main hs) run).covered

/-- The sweeps of the other analysis, until it settles or runs out of patience, keep its store
covered. -/
theorem covered_settle {patience : Nat} {settled : Bool} (hs : Store.Covered z.view t a.store)
    (settles : ((z.answering name truth).settle patience).outcome a = (.ok settled, a')) :
    Store.Covered z.view t a'.store := by
  induction patience generalizing a with
  | zero =>
    cases settles
    exact hs
  | succ patience ih =>
    unfold Analyzer.settle at settles
    obtain ⟨_, _, ⟨⟩, settles⟩ := Attempt.outcome_bind_eq_ok settles
    dsimp only at settles
    cases limit : (z.answering name truth).config.maxIterations.filter (· ≤ a.iterations) with
    | some _ =>
      rw [limit] at settles
      cases settles
    | none =>
      rw [limit] at settles
      obtain ⟨change, b, sweeps, settles⟩ := Attempt.outcome_bind_eq_ok settles
      have covered := covered_sweep hz unsupported ht opens main hs sweeps
      cases change with
      | none =>
        cases settles
        exact covered
      | some _ => exact ih covered settles

/-- The store of the other run is covered, from the first sweep to the last. -/
theorem covered_run {patience : Nat} {final : Analysis}
    (run : (z.answering name truth).run patience {} = some (.ok final)) :
    Store.Covered z.view t final.store := by
  obtain ⟨settled, settles, reports⟩ := Analyzer.run_eq_ok run
  obtain ⟨swept, sweeps, rfl⟩ := Analyzer.report_eq_ok reports
  have covered := covered_settle hz unsupported ht opens main (Store.covered_empty z.view t) settles
  have last := covered_sweep hz unsupported ht opens main (a := { settled with reporting := true })
    covered sweeps
  exact last

end sweeps

end ClosedWorld
