import ClosedWorld.Proofs.Analysis.Runaway
import ClosedWorld.Proofs.Analysis.Termination

/-!
# How much a store can hold

The keys of instances are drawn from what the program has, so there are only so many of them. Arrays
and nodes are as few as long as none are allocated or installed, and so are calls as long as nothing
is wrapped up in something else either. Beyond that there is no bound.

## Main statements

* `Analyzer.bounded_afterSweeps`: bounds for the tables of a store.
* `Analyzer.not_bounded_runaway`: each feature by itself is enough for the tables to outgrow all
  bounds.
-/

namespace ClosedWorld

namespace Analyzer

variable {p : Program}

/-- However many sweeps the analysis of an accepted program has made, and whatever the
configuration, there are no more instances than some number. There are no nodes unless effects are
installed for the time of a call, and no more arrays than some number unless raw arrays are
allocated. If the program has none of the features that make values, arrays or nodes out of others,
there is a bound for all entries together. -/
theorem bounded_afterSweeps {d : Draft} (built : d.build = .ok p) :
    (∃ bound, ∀ config count,
      ((p.analyzer config).afterSweeps count {}).store.instances.size ≤ bound) ∧
    (p.has .abortable = false → ∀ config count,
      ((p.analyzer config).afterSweeps count {}).store.envs.size = 0) ∧
    (p.has .alloc = false → ∃ bound, ∀ config count,
      ((p.analyzer config).afterSweeps count {}).store.arrays.size ≤ bound) ∧
    (p.features = [] → ∃ bound, ∀ config count,
      ((p.analyzer config).afterSweeps count {}).store.size ≤ bound) := by
  have hp := Draft.wellFormed_of_build built
  have inv config count := inv_closed_afterSweeps (p := p) hp config count
  have fits config count := (inv config count).2
  have lacks {name : String} (none : p.hasIntrinsic name = false) : ¬p.view.HasIntrinsic name :=
    fun has => Bool.false_ne_true (none.symm.trans (Program.hasIntrinsic_of_hasIntrinsic has))
  have instances config count := Store.size_instances_le (fits config count)
  refine ⟨⟨_, instances⟩,
    fun none config count => Store.size_envs_eq_zero (fits config count) (lacks none),
    fun none => ⟨_, fun config count => Store.size_arrays_le (fits config count) (lacks none)⟩,
    fun plain => ?_⟩
  have firstOrder := Program.firstOrder_of_features plain
  refine ⟨p.view.instanceKeys.ncard + p.view.callKeys.ncard + p.view.stringKeys.ncard,
    fun config count => ?_⟩
  have calls := Store.size_calls_le (inv config count).1 (fits config count)
    (regular_afterSweeps config count) firstOrder
  have envs := Store.size_envs_eq_zero (fits config count) firstOrder.not_abortable
  have arrays := Store.size_arrays_le (fits config count) firstOrder.not_alloc
  have instances := instances config count
  unfold Store.size
  omega

/-- A program whose routine calls itself with its own frame as the target. -/
def recurring : Draft where
  clazzes := [("main", some { kind := .routine, code := some ⟨0⟩ })]
  blocks := [[.current, .call (.fixed ⟨0⟩)]]
  main := some ⟨0⟩

/-- There are two calls after the second sweep, with one frame, and never many more. -/
theorem bounded_afterSweeps_recurring :
    ∃ p, recurring.build = .ok p ∧ p.features = [] ∧
      ((p.analyzer {}).afterSweeps 2 {}).store.size = 3 ∧
      (∀ config count, ((p.analyzer config).afterSweeps count {}).store.envs.size = 0) ∧
      (∃ bound, ∀ config count,
        ((p.analyzer config).afterSweeps count {}).store.arrays.size ≤ bound) ∧
      ∃ bound, ∀ config count, ((p.analyzer config).afterSweeps count {}).store.size ≤ bound := by
  have built : recurring.build = .ok recurring.toProgram := rfl
  have ⟨_, envs, arrays, all⟩ := bounded_afterSweeps built
  exact ⟨_, built, by decide +kernel, by decide +kernel, envs (by decide +kernel),
    arrays (by decide +kernel), all (by decide +kernel)⟩

/-- Not all accepted programs in which no block contains itself have such a bound. For each feature
there is one that has this feature only and that outgrows every bound, whatever the configuration.
-/
theorem not_bounded_runaway :
    (¬∀ (d : Draft) (p : Program), d.build = .ok p → p.Acyclic → ∀ config, ∃ bound, ∀ count,
      (∀ k < count, ∃ change,
        ((p.analyzer config).sweep.outcome ((p.analyzer config).afterSweeps k {})).1 = .ok change) →
      ((p.analyzer config).afterSweeps count {}).store.size ≤ bound) ∧
    ∀ feature : Feature, ∃ p, feature.runaway.build = .ok p ∧ p.features = [feature] ∧ p.Acyclic ∧
      p.Outgrows := by
  have runaway (feature : Feature) : ∃ p, feature.runaway.build = .ok p ∧ p.features = [feature] ∧
      p.Acyclic ∧ p.Outgrows := by
    refine ⟨_, feature.build_runaway, ?_, Program.acyclic_of_descends ?_,
      Program.outgrows_of_feature feature⟩
    · cases feature <;> decide +kernel
    · cases feature <;> decide +kernel
  refine ⟨fun bounded => ?_, runaway⟩
  obtain ⟨p, built, -, acyclic, outgrows⟩ := runaway .tag
  obtain ⟨bound, few⟩ := bounded _ p built acyclic {}
  obtain ⟨count, succeeded, many⟩ := outgrows {} bound
  exact Nat.not_le_of_lt many (few count succeeded)

end Analyzer

end ClosedWorld
