import ClosedWorld.Proofs.Analysis.Sweeps
import ClosedWorld.Proofs.Store.Neat

/-!
# An analysis handles neat values

Nothing but neat values is written into a store, and nothing but neat values is put on an operand
stack, in any sweep and in the pass that records findings. What is put on a stack by the last
instruction of a block is not seen by a visit, so it is taken from the outcome of the instruction.

## Main definitions

* `Analyzer.Handles`: a property of all values that are at hand when an instruction is visited.

## Main statements

* `Analyzer.handles_of_discipline`: what a discipline of stores says of the values at hand.
* `Analyzer.neat_afterSweeps`: all values are neat.
-/

namespace ClosedWorld

namespace Analyzer

/-- The property holds of all values that are at hand when an instruction is visited: those in the
store, the operands, and the operands that the instruction leaves, however deep the blocks are
nested that it is ready to walk. -/
structure Handles (P : Value → Prop) (z : Analyzer) (act : Activation)
    (visit : Visit Analysis Value) : Prop where
  store : visit.before.store.AllValues P
  stack : ∀ v ∈ visit.stack, P v
  left : ∀ levels progress a, (walkInstr z.view (z.processor act)
      (walkNested z.view (z.processor act) levels) visit.site visit.instr visit.stack).outcome
        visit.before = (.ok progress, a) →
    ∀ stack, progress.stack = some stack → ∀ v ∈ stack, P v

end Analyzer

namespace AnalysisDiscipline

variable {z : Analyzer} (D : AnalysisDiscipline z) {a b : Analysis} {act : Activation}
  {visit : Visit Analysis Value}

/-- An instruction leaves good operands, also where it is visited. -/
theorem good_left (hz : z.intrinsics = .standard)
    (endless : ∀ code, D.Allowed (.walk (.endlessNesting code)))
    (ahead : D.callSight.Ahead a (act, visit)) {levels : Nat} {progress : Progress Value Unit}
    (run : (walkInstr z.view (z.processor act) (walkNested z.view (z.processor act) levels) visit.site
      visit.instr visit.stack).outcome visit.before = (.ok progress, b)) :
    Progress.IsGood (fun a => D.Good a.store) progress b := by
  obtain ⟨⟨-, ⟨c, alike⟩, good, found, same⟩, active⟩ := ahead
  have active {b c : Analysis} (h : (D.since visit.before).runs.Alike b c) :
      (D.since visit.before).GoodActivation z.view b.store act := active.mono (D.leads_store h.2)
  have respects := (D.since visit.before).respects_processor hz active
  have mono {b c : Analysis} {v : Value} (leads : (D.since visit.before).runs.Leads b c)
      (good : (D.since visit.before).Good b.store v) : (D.since visit.before).Good c.store v :=
    D.good_mono (D.leads_store leads) good
  have nested {b c : Analysis} (code : CodeId) (h : (D.since visit.before).runs.Alike b c) :=
    (seen_visitsOfNested respects mono ((D.since visit.before).respects_visitsInside hz active) levels
      code (.inr fun code => D.allowed (endless code)) h).safe
  obtain ⟨⟨clazz, code, index⟩, instr, stack, before⟩ := visit
  obtain rfl : clazz = act.key.clazz := same
  have walked := safe_walkInstr respects mono
    (fun code _ h => (nested code h).mono fun _ _ _ _ => trivial) found
    ⟨alike, D.runs.leads_refl before⟩ good
  obtain ⟨_, -, -, -, left⟩ := walked.of_ok run
  exact left

end AnalysisDiscipline

namespace Analyzer

variable {z : Analyzer} (hz : z.intrinsics = .standard) {a : Analysis}

include hz

/-- What a discipline of stores says of good values holds of all values at hand in a sweep. -/
theorem handles_of_discipline (D : StoreDiscipline z.view) (main : D.Known z.view.main)
    (endless : ∀ code, D.Allowed (.walk (.endlessNesting code))) {P : Value → Prop}
    (stored : ∀ {s}, D.Inv s → s.AllValues P) (pushed : ∀ {s v}, D.Good s v → P v)
    (inv : D.Inv a.store) {act : Activation} {visit : Visit Analysis Value}
    (visited : (act, visit) ∈ z.visitsOfSweep a)
    (suits : D.Suits z.toSetting := by exact .of_known) :
    z.Handles P act visit ∧ D.Leads a.store visit.before.store := by
  let E := AnalysisDiscipline.ofStore D z.config.reportIntrinsics suits.goodContext
  obtain ⟨begun, leads⟩ := AnalysisDiscipline.safe_begun D inv
    (AnalysisDiscipline.goodKey_mainKey D main _)
  have known : ∀ id ∈ (z.begun a).store.calls.ids, E.GoodCall (z.begun a).store id := by
    intro id listed
    obtain ⟨key, held⟩ := Interned.mem_ids.1 listed
    exact D.goodCall_of_key begun held
  have seen := E.seen_visitsOfCalls hz (a := z.begun a) (b := z.begun a) ⟨rfl, begun⟩ known
    fun id _ => suits.walked id
  have ahead := seen.ahead _ visited
  obtain ⟨_, alike⟩ := ahead.1.alike
  exact ⟨{
      store := stored alike.2
      stack := fun v hv => pushed (ahead.1.stack v hv)
      left := fun levels progress b run stack left v hv =>
        pushed (E.good_left hz endless ahead run stack left v hv) },
    D.leads_trans leads ahead.1.leads.1⟩

/-- All values at hand in a sweep are neat, if those in the store are clean when it begins, and
elements are kept up to there. -/
theorem handles_of_mem_visitsOfSweep (clean : a.store.AllValues (Value.Clean z.view))
    {act : Activation} {visit : Visit Analysis Value} (visited : (act, visit) ∈ z.visitsOfSweep a) :
    z.Handles (Value.Neat z.view) act visit ∧ a.store.KeepsElements visit.before.store :=
  handles_of_discipline hz (StoreDiscipline.neat z.view) trivial (fun _ => trivial)
    (Store.AllValues.mono fun _ => Value.neat_of_clean) Value.neat_of_clean clean visited

/-- However many sweeps have been made, the values in the store are clean. -/
theorem allValues_clean_afterSweeps (count : Nat) :
    (z.afterSweeps count {}).store.AllValues (Value.Clean z.view) := by
  have empty : (StoreDiscipline.neat z.view).Inv ({} : Analysis).store := Store.allValues_empty _
  exact AnalysisDiscipline.inv_afterSweeps hz (StoreDiscipline.neat z.view) trivial
    (fun h => Store.AllValues.unnoted h) empty count

/-- A sweep keeps the elements of arrays, also if it fails. -/
theorem keepsElements_sweep (clean : a.store.AllValues (Value.Clean z.view)) :
    a.store.KeepsElements (z.sweep.outcome a).2.store := by
  obtain ⟨a', -, leads, swept | ⟨fault, swept, -⟩⟩ :=
    AnalysisDiscipline.sweep_cases hz (StoreDiscipline.neat z.view) trivial clean <;> rw [swept]
  · exact leads
  · exact leads

/-- More sweeps keep the elements of arrays, whether they fail or not. -/
theorem keepsElements_afterSweeps (count more : Nat) :
    (z.afterSweeps count {}).store.KeepsElements (z.afterSweeps (count + more) {}).store := by
  induction more with
  | zero => exact Store.keepsElements_refl _
  | succ more ih => exact ih.trans (keepsElements_sweep hz (allValues_clean_afterSweeps hz _))

/-- However many sweeps an analysis has made from the beginning, and whether they failed or not, all
values in its store are neat. So are, in a further sweep, all values in the stores and on the stacks
that the instructions find, and those that they leave on the stacks; whether the sweep records
findings does not matter. An array may be without elements, but only as long as nothing was stored
into it. -/
theorem neat_afterSweeps (count : Nat) :
    (z.afterSweeps count {}).store.AllValues (Value.Neat z.view) ∧
      (∀ a : Analysis, a.store = (z.afterSweeps count {}).store → ∀ t ∈ z.visitsOfSweep a,
        z.Handles (Value.Neat z.view) t.1 t.2 ∧ a.store.KeepsElements t.2.before.store) ∧
      (∀ more, (z.afterSweeps count {}).store.KeepsElements
        (z.afterSweeps (count + more) {}).store) ∧
      ∀ (t t' : Store) (id : ArrayId) (value : Value), value.Neat z.view →
        (Store.arraySet id value).outcome t = (.ok (), t') →
        ∃ v, t'.arrays.state? id = some v ∧ v ≠ .noValue := by
  have clean := allValues_clean_afterSweeps hz count
  refine ⟨clean.mono fun _ => Value.neat_of_clean, ?_, keepsElements_afterSweeps hz count, ?_⟩
  · rintro a same ⟨act, visit⟩ visited
    rw [← same] at clean
    exact handles_of_mem_visitsOfSweep hz clean visited
  · intro t t' id value neat stored
    exact Store.elements_ne_noValue_of_arraySet neat.ne_noValue stored

omit hz

/-- An analysis of a program with one routine, which keeps its own frame and a number in a field,
both tagged, and calls itself with what it keeps as the target. -/
def mixing : Analyzer where
  view := Program.view
    { clazzes :=
        [ ("main", { kind := .routine, code := some ⟨0⟩ })
        , ("option", { kind := .choice, generics := [⟨0⟩, ⟨2⟩] })
        , ("i32", { kind := .routine, special := some (.numeric .i32), needsCode := false })
        , ("main.kept", { kind := .field, outer := some ⟨0⟩, result := some ⟨1⟩ }) ]
      blocks :=
        [ [ .current, .current, .tag ⟨0⟩ ⟨1⟩ 0, .assign (.fixed ⟨3⟩)
          , .current, .const ⟨2⟩ [1, 0, 0, 0], .tag ⟨2⟩ ⟨1⟩ 1, .assign (.fixed ⟨3⟩)
          , .current, .call (.fixed ⟨3⟩), .call (.fixed ⟨0⟩) ] ]
      main := ⟨0⟩
      constString := none }

/-- What is kept is a set of two tagged values. The second sweep finds it on a stack twice, when it
analyses the two calls that the first sweep has found. -/
theorem neat_afterSweeps_mixing :
    let a := mixing.afterSweeps 1 {}
    let kept : Value := .set
      [.tagged (.number ⟨⟨2⟩, .i32, some 1⟩) ⟨1⟩ 1, .tagged (.object ⟨0⟩) ⟨1⟩ 0]
    (a.store.instances.state? ⟨0⟩).bind (·.find? ⟨3⟩) = some kept ∧
      a.store.calls.keys.map CallKey.target = [.unit, kept] ∧
      ((mixing.visitsOfSweep a).filter fun t => t.2.stack = [kept]).length = 2 ∧
      a.store.AllValues (Value.Neat mixing.view) ∧
      ∀ t ∈ mixing.visitsOfSweep a, mixing.Handles (Value.Neat mixing.view) t.1 t.2 := by
  have table : mixing.intrinsics = .standard := by simp only [mixing]
  have neat := neat_afterSweeps table 1
  exact ⟨by decide +kernel, by decide +kernel, by decide +kernel, neat.1,
    fun t ht => (neat.2.1 _ rfl t ht).1⟩

end Analyzer

end ClosedWorld
