import ClosedWorld.Proofs.Analysis.Fixpoint
import ClosedWorld.Proofs.Analysis.Meanings

/-!
# The limit on the number of sweeps

The limit is looked at before each sweep, and nothing that a sweep does depends on it. So runs with
different limits make the same sweeps, and a limit decides only whether a run is cut off before the
sweep by which it would end. The pass that records findings is not one of the sweeps that count.

## Main definitions

* `Analyzer.limited`: the analysis with another limit.
* `Analyzer.Busy`: a number of sweeps that all succeed and change something.
* `Analyzer.endingAfter`: how a run ends that is not cut off.

## Main statements

* `Analyzer.retains_limited`: a sweep does not depend on the limit.
* `Analyzer.settle_busy`: sweeps that change something are made as long as the limit allows them.
* `Analyzer.run_limited`: how runs end under all limits.
-/

namespace ClosedWorld

/-- The setting with another limit on the number of sweeps. -/
def Setting.limited (g : Setting) (limit : Option Nat) : Setting :=
  { g with config := { g.config with maxIterations := limit } }

/-- No meaning in the table of the standard library depends on the limit. -/
theorem IntrinsicTable.limited_of_standard {name : String} {meaning : Handler}
    (listed : standard.find? name = some (.handler meaning)) (g : Setting) (limit : Option Nat) :
    meaning (g.limited limit) = meaning g := by
  obtain rfl | rfl | own := mem_individual_of_standard listed
  · rfl
  · rfl
  · simp only [individual, List.mem_cons, Prod.mk.injEq, List.not_mem_nil, or_false] at own
    obtain ⟨-, rfl⟩ | ⟨-, rfl⟩ | ⟨-, rfl⟩ | ⟨-, rfl⟩ | ⟨-, rfl⟩ | ⟨-, rfl⟩ | ⟨-, rfl⟩ | ⟨-, rfl⟩ |
      ⟨-, rfl⟩ | ⟨-, rfl⟩ | ⟨-, rfl⟩ := own <;> rfl

namespace Analyzer

/-- The analysis with another limit on the number of sweeps. -/
def limited (z : Analyzer) (limit : Option Nat) : Analyzer :=
  { z with toSetting := z.toSetting.limited limit }

/-- The first sweeps of a new analysis, so many of them, all succeed and change something. -/
def Busy (z : Analyzer) (count : Nat) : Prop :=
  ∀ i < count, ∃ change, (z.sweep.outcome (z.afterSweeps i {})).1 = .ok (some change)

/-- The report that is made after a number of sweeps. -/
def reportAfter (z : Analyzer) (count : Nat) : Analysis :=
  (z.report.outcome (z.afterSweeps count {})).2

/-- How a run ends by the sweep that comes after `before` others, if it ends by that. -/
def endingAfter (z : Analyzer) (before : Nat) : Option (Except Fault Analysis) :=
  match (z.sweep.outcome (z.afterSweeps before {})).1 with
  | .error fault => some (.error fault)
  | .ok none => some (.ok (z.reportAfter (before + 1)))
  | .ok (some _) => none

variable {z : Analyzer} (hz : z.intrinsics = .standard)

include hz

/-! ### What a sweep counts -/

/-- Each sweep is counted once, also one that fails. -/
theorem iterations_sweep (a : Analysis) :
    (z.sweep.outcome a).2.iterations = a.iterations + 1 := by
  have begun : (z.begun a).iterations = a.iterations + 1 := by
    unfold Analyzer.begun
    obtain ⟨_, -, seeded⟩ | ⟨-, seeded⟩ := z.seed_cases a <;> rw [seeded]
  rw [sweep_outcome, ← begun]
  cases safe_swept_quiet hz a with
  | ok run _ _ leads _ =>
    rw [run]
    exact leads.2.iterations
  | error run _ _ leads _ =>
    rw [run]
    exact leads.2.iterations

/-- As many sweeps have been counted as have been made, whether they failed or not. -/
theorem iterations_afterSweeps (count : Nat) : (z.afterSweeps count {}).iterations = count := by
  induction count with
  | zero => rfl
  | succ count ih =>
    unfold afterSweeps
    rw [iterations_sweep hz, ih]

/-! ### Sweeps under a limit -/

variable (limit : Option Nat)

/-- Nothing depends on the limit but the decision to make another sweep. -/
theorem retains_limited : z.Retains z.intrinsics limit := by
  intro name has
  funext id
  have found : (z.replacing z.intrinsics limit).intrinsics.find? name = z.intrinsics.find? name :=
    rfl
  unfold produced
  rw [found, hz]
  cases listed : IntrinsicTable.standard.find? name with
  | none => rfl
  | some intrinsic =>
    cases intrinsic with
    | unsupported => rfl
    | handler meaning =>
      exact congrFun (IntrinsicTable.limited_of_standard listed z.toSetting limit) id

/-- A sweep does not depend on the limit. -/
theorem sweep_limited : (z.limited limit).sweep = z.sweep := (retains_limited hz limit).sweep

/-- The pass that records findings does not depend on the limit. -/
theorem report_limited : (z.limited limit).report = z.report := (retains_limited hz limit).report

/-- The limit is looked at first, and then a sweep is made. -/
theorem settle_limited_succ (patience : Nat) (a : Analysis) :
    ((z.limited limit).settle (patience + 1)).outcome a =
      match limit.filter (· ≤ a.iterations) with
      | some n => (.error (.iterationLimit n), a)
      | none =>
        match z.sweep.outcome a with
        | (.error fault, a') => (.error fault, a')
        | (.ok none, a') => (.ok true, a')
        | (.ok (some _), a') => ((z.limited limit).settle patience).outcome a' := by
  have configured : (z.limited limit).config.maxIterations = limit := rfl
  rw [settle, Attempt.outcome_bind, Attempt.outcome_get]
  dsimp only
  rw [configured]
  cases limit.filter (· ≤ a.iterations) with
  | some n => rfl
  | none =>
    dsimp only
    rw [Attempt.outcome_bind, sweep_limited hz]
    obtain ⟨_ | _ | _, a'⟩ := z.sweep.outcome a <;> rfl

omit hz in
/-- The limit lets as many sweeps pass as it says. -/
theorem filter_limit_eq_none {count : Nat} (allowed : ∀ n ∈ limit, count < n) :
    limit.filter (· ≤ count) = none := by
  refine Option.filter_eq_none_iff.2 fun n hn few => ?_
  exact Nat.not_le_of_lt (allowed n hn) (of_decide_eq_true few)

/-- As long as the limit allows it, sweeps that change something are followed by others. -/
theorem settle_busy {count : Nat} (busy : z.Busy count) (allowed : ∀ n ∈ limit, count ≤ n)
    (patience : Nat) :
    ((z.limited limit).settle (count + patience)).outcome {} =
      ((z.limited limit).settle patience).outcome (z.afterSweeps count {}) := by
  induction count generalizing patience with
  | zero => rw [Nat.zero_add]; rfl
  | succ count ih =>
    obtain ⟨change, swept⟩ := busy count (Nat.lt_succ_self count)
    have earlier := ih (fun i hi => busy i (Nat.lt_succ_of_lt hi))
      (fun n hn => Nat.le_of_succ_le (allowed n hn)) (patience + 1)
    rw [Nat.add_right_comm, Nat.add_assoc, earlier, settle_limited_succ hz,
      iterations_afterSweeps hz, filter_limit_eq_none limit allowed, afterSweeps]
    revert swept
    obtain ⟨result, a'⟩ := z.sweep.outcome (z.afterSweeps count {})
    rintro rfl
    rfl

/-! ### Runs under a limit -/

/-- A run with a limit makes the report of any run. -/
theorem run_limited_eq (patience : Nat) :
    (z.limited limit).run patience {} =
      match ((z.limited limit).settle (limit.elim patience (· + 1))).outcome {} with
      | (.error fault, _) => some (.error fault)
      | (.ok false, _) => none
      | (.ok true, settled) =>
        match z.report.outcome settled with
        | (.error fault, _) => some (.error fault)
        | (.ok (), reported) => some (.ok reported) := by
  unfold run
  rw [report_limited hz]
  rfl

/-- A run is cut off when as many sweeps have changed something as the limit allows. -/
theorem run_of_busy {n : Nat} (busy : z.Busy n) (patience : Nat) :
    (z.limited (some n)).run patience {} = some (.error (.iterationLimit n)) := by
  have reached : Option.filter (· ≤ n) (some n) = some n := by simp
  have cut : ((z.limited (some n)).settle (n + 1)).outcome {} =
      (.error (.iterationLimit n), z.afterSweeps n {}) := by
    rw [settle_busy hz (some n) busy (by rintro _ ⟨⟩; exact Nat.le_refl n), settle_limited_succ hz,
      iterations_afterSweeps hz, reached]
  rw [run_limited_eq hz]
  dsimp only [Option.elim_some]
  rw [cut]

/-- A run without a limit has no end yet when it has had patience for sweeps that change something
only. -/
theorem run_of_busy_unlimited {patience : Nat} (busy : z.Busy patience) :
    (z.limited none).run patience {} = none := by
  have waiting := settle_busy hz none busy (by rintro _ ⟨⟩) 0
  rw [run_limited_eq hz]
  dsimp only [Option.elim_none]
  rw [← Nat.add_zero patience, waiting]
  rfl

/-- A run ends by the first sweep that does not change something, if it is allowed to make it. -/
theorem run_of_endingAfter {before : Nat} (busy : z.Busy before) {result : Except Fault Analysis}
    (ends : z.endingAfter before = some result) (allowed : ∀ n ∈ limit, before < n) {patience : Nat}
    (patient : before < limit.elim patience (· + 1)) :
    (z.limited limit).run patience {} = some result := by
  obtain ⟨more, budget⟩ := Nat.exists_eq_add_of_lt patient
  rw [run_limited_eq hz, budget, Nat.add_assoc,
    settle_busy hz limit busy fun n hn => Nat.le_of_lt (allowed n hn), settle_limited_succ hz,
    iterations_afterSweeps hz, filter_limit_eq_none limit allowed]
  dsimp only
  unfold endingAfter reportAfter at ends
  rw [afterSweeps] at ends
  cases swept : z.sweep.outcome (z.afterSweeps before {}) with
  | mk verdict a' =>
    rw [swept] at ends
    match verdict, ends with
    | .error fault, ends => exact ends
    | .ok none, ends =>
      obtain ⟨reported, succeeds⟩ := report_of_sweep_quiet hz swept
      dsimp only at ends ⊢
      rw [succeeds] at ends ⊢
      exact ends

/-- A run with a limit ends like one without it or is cut off, and it is not cut off if the limit
allows the sweep by which the other one ends. -/
theorem run_of_endingAfter_iff {before : Nat} (busy : z.Busy before)
    {result : Except Fault Analysis} (ends : z.endingAfter before = some result) :
    (∀ patience, (z.limited none).run patience {} =
        if before < patience then some result else none) ∧
      ∀ n patience, (z.limited (some n)).run patience {} =
        some (if before < n then result else .error (.iterationLimit n)) := by
  have busier {count : Nat} (few : ¬before < count) : z.Busy count :=
    fun i hi => busy i (Nat.lt_of_lt_of_le hi (Nat.le_of_not_lt few))
  refine ⟨fun patience => ?_, fun n patience => ?_⟩
  · split
    · rename_i patient
      exact run_of_endingAfter hz none busy ends (by rintro _ ⟨⟩) patient
    · rename_i few
      exact run_of_busy_unlimited hz (busier few)
  · split
    · rename_i allowed
      exact run_of_endingAfter hz (some n) busy ends (by rintro _ ⟨⟩; exact allowed)
        (Nat.lt_succ_of_lt allowed)
    · rename_i few
      exact run_of_busy hz (busier few) patience

/-- The report counts the sweeps that led to it, and not the pass that records findings. -/
theorem iterations_reportAfter {before : Nat}
    (quiet : (z.sweep.outcome (z.afterSweeps before {})).1 = .ok none) :
    (z.reportAfter (before + 1)).iterations = before + 1 := by
  obtain ⟨reported, succeeds⟩ := report_of_sweep_quiet hz (Prod.ext quiet rfl)
  obtain ⟨swept, -, last⟩ := report_eq_ok succeeds
  unfold reportAfter
  rw [afterSweeps, succeeds, last]
  exact iterations_afterSweeps hz (before + 1)

/-- The limit on the number of sweeps decides only whether a run is cut off. Let the first `k`
sweeps all succeed and change something. If the next one changes nothing, a run reports what it has
found, and it counts `k + 1` sweeps, as the pass that records findings is not counted. If the next
one fails, a run fails with that. A run with a limit ends in the same way if the limit is at least
`k + 1`, and otherwise it ends by the limit, as it does where all sweeps that the limit allows
change something. -/
theorem run_limited :
    (∀ k, z.Busy k → (z.sweep.outcome (z.afterSweeps k {})).1 = .ok none →
      (z.reportAfter (k + 1)).iterations = k + 1 ∧
      (∀ patience, (z.limited none).run patience {} =
        if k + 1 ≤ patience then some (.ok (z.reportAfter (k + 1))) else none) ∧
      ∀ n patience, (z.limited (some n)).run patience {} =
        some (if k + 1 ≤ n then .ok (z.reportAfter (k + 1)) else .error (.iterationLimit n))) ∧
    (∀ k fault, z.Busy k → (z.sweep.outcome (z.afterSweeps k {})).1 = .error fault →
      (∀ patience, (z.limited none).run patience {} =
        if k + 1 ≤ patience then some (.error fault) else none) ∧
      ∀ n patience, (z.limited (some n)).run patience {} =
        some (if k + 1 ≤ n then .error fault else .error (.iterationLimit n))) ∧
    ∀ n, z.Busy n → ∀ patience,
      (z.limited (some n)).run patience {} = some (.error (.iterationLimit n)) := by
  refine ⟨fun k busy quiet => ?_, fun k fault busy failed => ?_, fun n => run_of_busy hz⟩
  · have ends : z.endingAfter k = some (.ok (z.reportAfter (k + 1))) := by
      unfold endingAfter
      rw [quiet]
    exact ⟨iterations_reportAfter hz quiet, run_of_endingAfter_iff hz busy ends⟩
  · have ends : z.endingAfter k = some (.error fault) := by
      unfold endingAfter
      rw [failed]
    exact run_of_endingAfter_iff hz busy ends

omit hz

/-- An analysis of a program whose routine calls another one and branches on its own frame after
that. -/
def stumbling : Analyzer where
  view := Program.view
    { clazzes :=
        [("main", { kind := .routine, code := some ⟨0⟩ }),
          ("main.step", { kind := .routine, outer := some ⟨0⟩, code := some ⟨1⟩ })]
      blocks :=
        [[.current, .call (.fixed ⟨1⟩), .pop, .current, .cond ⟨1⟩ ⟨1⟩], []]
      main := ⟨0⟩
      constString := none }

/-- With one sweep that changes something before a quiet one, a limit of two is enough and a limit
of one is not. Where the third sweep is the first to fail, a limit of three lets it fail and a limit
of two comes before that. -/
theorem run_limited_stumbling :
    (idle.limited none).run 2 {} = some (.ok (idle.reportAfter 2)) ∧
      (idle.limited (some 2)).run 0 {} = some (.ok (idle.reportAfter 2)) ∧
      (idle.limited (some 1)).run 0 {} = some (.error (.iterationLimit 1)) ∧
      (stumbling.limited (some 3)).run 0 {} =
        some (.error (.unexpectedValue .bool (.object ⟨0⟩))) ∧
      (stumbling.limited (some 2)).run 0 {} = some (.error (.iterationLimit 2)) ∧
      (stumbling.limited (some 0)).run 0 {} = some (.error (.iterationLimit 0)) := by
  have table : idle.intrinsics = .standard := by simp only [idle]
  have table' : stumbling.intrinsics = .standard := by simp only [stumbling]
  have busy : idle.Busy 1 := by
    intro i few
    obtain rfl := Nat.lt_one_iff.1 few
    exact ⟨.newInstance ⟨0⟩, by decide +kernel⟩
  have busy' : stumbling.Busy 2 := by
    intro i few
    obtain rfl | rfl : i = 0 ∨ i = 1 := by omega
    · exact ⟨.newInstance ⟨0⟩, by decide +kernel⟩
    · exact ⟨.callReturns ⟨1⟩, by decide +kernel⟩
  obtain ⟨-, unlimited, limited⟩ := (run_limited table).1 1 busy (by decide +kernel)
  obtain ⟨-, failing, cut⟩ := run_limited table'
  have fails := (failing 2 (.unexpectedValue .bool (.object ⟨0⟩)) busy' (by decide +kernel)).2
  exact ⟨unlimited 2, limited 2 0, limited 1 0, fails 3 0, fails 2 0,
    cut 0 (fun _ few => absurd few (Nat.not_lt_zero _)) 0⟩

end Analyzer

end ClosedWorld
