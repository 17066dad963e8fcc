import ClosedWorld.Proofs.Analysis.Sweeps
import ClosedWorld.Proofs.Store.Growth

/-!
# An analysis never forgets

A sweep that begins in a store of regular values only adds to it, whether it comes to its end or
fails. The store of an analysis that has not begun is empty, so all sweeps begin in such a store.

## Main statements

* `Analyzer.growsRegularly_sweep`: a sweep adds to a store of regular values.
* `Analyzer.grows_afterSweeps`: later stores hold what earlier ones do, or more.
-/

namespace ClosedWorld

/-- The empty store is regular, for want of values. -/
theorem Store.isRegular_empty (kinds : ClazzId → NumericKind) : Store.IsRegular kinds {} :=
  Store.allValues_empty _

/-- That a change is forgotten is no change of what is held. -/
theorem Store.GrowsRegularly.unnoted {kinds : ClazzId → NumericKind} {s t : Store}
    (h : s.GrowsRegularly kinds t) : s.GrowsRegularly kinds t.unnoted where
  regular := Store.AllValues.unnoted h.regular
  grows := { h.grows with }
  learns _ noted := absurd rfl noted

namespace Analyzer

variable {z : Analyzer} (hz : z.intrinsics = .standard)

include hz

/-- A sweep adds to a store of regular values, also if it fails. -/
theorem growsRegularly_sweep {a : Analysis} (ha : a.store.IsRegular z.view.numericKind) :
    a.store.GrowsRegularly z.view.numericKind (z.sweep.outcome a).2.store := by
  obtain ⟨a', -, leads, swept | ⟨fault, swept, -⟩⟩ :=
    AnalysisDiscipline.sweep_cases hz (StoreDiscipline.growing z.view) trivial ha <;> rw [swept]
  · exact (leads ha).unnoted
  · exact leads ha

/-- The store stays one of regular values. -/
theorem isRegular_afterSweeps {a : Analysis} (ha : a.store.IsRegular z.view.numericKind)
    (count : Nat) : (z.afterSweeps count a).store.IsRegular z.view.numericKind := by
  induction count with
  | zero => exact ha
  | succ count ih => exact (growsRegularly_sweep hz ih).regular

/-- After more sweeps, a store of regular values holds what it did, or more. -/
theorem grows_afterSweeps_add {a : Analysis} (ha : a.store.IsRegular z.view.numericKind)
    (count more : Nat) :
    (z.afterSweeps count a).store.Grows (z.afterSweeps (count + more) a).store := by
  have regular := isRegular_afterSweeps hz ha
  induction more with
  | zero => exact .refl _
  | succ more ih =>
    have last := growsRegularly_sweep hz (regular (count + more))
    exact ih.trans (regular count) (regular (count + more)) last.regular last.grows

/-- An analysis never forgets. However many sweeps it has made from the beginning, and whether they
failed or not, its later stores hold what its earlier ones do, or more. -/
theorem grows_afterSweeps (count more : Nat) :
    (z.afterSweeps count {}).store.Grows (z.afterSweeps (count + more) {}).store :=
  grows_afterSweeps_add hz (Store.isRegular_empty _) count more

omit hz

/-- An analysis of a program with one routine. It sets the field `later` to false, copies it to the
field `earlier`, and then sets it to true. -/
def lagging : Analyzer where
  view := Program.view
    { clazzes :=
        [ ("main", { kind := .routine, code := some ⟨0⟩ })
        , ("bool", { kind := .choice, special := some .bool })
        , ("earlier", { kind := .field, outer := some ⟨0⟩, result := some ⟨1⟩ })
        , ("later", { kind := .field, outer := some ⟨0⟩, result := some ⟨1⟩ }) ]
      blocks :=
        [ [ .current, .const ⟨1⟩ [0], .assign (.fixed ⟨3⟩)
          , .current, .current, .call (.fixed ⟨3⟩), .assign (.fixed ⟨2⟩)
          , .current, .const ⟨1⟩ [1], .assign (.fixed ⟨3⟩) ] ]
      main := ⟨0⟩
      constString := none }

/-- The first sweep copies what was set before the copy, and the second one also what is set after
it. -/
theorem grows_afterSweeps_lagging :
    let once := (lagging.afterSweeps 1 {}).store
    let twice := (lagging.afterSweeps 2 {}).store
    once.Grows twice ∧
      (once.instances.state? ⟨0⟩).bind (·.find? ⟨2⟩) = some (.bool .false) ∧
      (twice.instances.state? ⟨0⟩).bind (·.find? ⟨2⟩) = some (.bool .any) := by
  have table : lagging.intrinsics = .standard := by simp only [lagging]
  exact ⟨grows_afterSweeps table 1 1, by decide +kernel, by decide +kernel⟩

end Analyzer

end ClosedWorld
