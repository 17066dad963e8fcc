import ClosedWorld.Proofs.Analysis.Invariants
import ClosedWorld.Proofs.Store.Closed

/-!
# The analysis of an accepted program finds what it looks for

An analysis begins with an empty store, which is closed, and all it does keeps the store closed. So
whatever it looks up later is there, in every sweep and in the pass that records findings.

## Main statements

* `Analyzer.closed_afterSweeps`: stores stay closed, and nothing that has to be there is missed.
-/

namespace ClosedWorld

namespace Analyzer

variable {p : Program} (hp : p.WellFormed) (config : Config) {a : Analysis}

include hp

/-- Wherever an analysis is, its store is closed and fits the program. -/
theorem inv_closed_of_reaches {config : Config} (reached : (p.analyzer config).Reaches a) :
    (StoreDiscipline.closed hp).Inv a.store :=
  inv_of_reaches (p.intrinsics_analyzer config) (StoreDiscipline.closed hp) (.inl hp.main)
    (fun h => ⟨h.1.unnoted, h.2.unnoted⟩) ⟨Store.closed_empty, Store.fits_empty _⟩ reached

/-- However many sweeps have been made, the store is closed and fits the program. -/
theorem inv_closed_afterSweeps (count : Nat) :
    (StoreDiscipline.closed hp).Inv ((p.analyzer config).afterSweeps count {}).store :=
  inv_closed_of_reaches hp (reaches_afterSweeps _ count)

omit hp

/-- However many sweeps the analysis of an accepted program has made, and whether they failed or
not, every identifier in its store is that of an entry of the store. A further sweep, or a run from
there on, does not fail because something is missing that has to be there. -/
theorem closed_afterSweeps {d : Draft} (built : d.build = .ok p) (config : Config) (count : Nat) :
    ((p.analyzer config).afterSweeps count {}).store.Closed ∧
      (∀ fault a', (p.analyzer config).sweep.outcome ((p.analyzer config).afterSweeps count {}) =
        (.error fault, a') → fault.isInternal = false) ∧
      ∀ patience fault, (p.analyzer config).run patience ((p.analyzer config).afterSweeps count {}) =
        some (.error fault) → fault.isInternal = false := by
  have hp := Draft.wellFormed_of_build built
  have inv := inv_closed_afterSweeps hp config count
  refine ⟨inv.1, fun fault a' failed => ?_, fun patience fault failed => ?_⟩
  · exact (AnalysisDiscipline.allowed_of_sweep (p.intrinsics_analyzer config)
      (StoreDiscipline.closed hp) (.inl hp.main) inv failed).1
  · exact (AnalysisDiscipline.allowed_of_run (p.intrinsics_analyzer config)
      (StoreDiscipline.closed hp) (.inl hp.main) (fun h => ⟨h.1.unnoted, h.2.unnoted⟩)
      (fun _ => ⟨rfl, fun _ => rfl⟩) (fun _ => ⟨rfl, fun _ => rfl⟩) inv failed).1

/-- A program whose routine keeps its own frame, tagged, and calls itself with what it keeps as the
target. -/
def keeping : Draft where
  clazzes :=
    [ ("main", some { kind := .routine, code := some ⟨0⟩ })
    , ("option", some { kind := .choice, generics := [⟨0⟩] })
    , ("main.kept", some { kind := .field, outer := some ⟨0⟩, result := some ⟨1⟩ }) ]
  blocks :=
    [ [ .current, .current, .tag ⟨0⟩ ⟨1⟩ 0, .assign (.fixed ⟨2⟩)
      , .current, .call (.fixed ⟨2⟩), .call (.fixed ⟨0⟩) ] ]
  main := some ⟨0⟩

/-- The identifiers within tags are those of entries as well. -/
theorem closed_afterSweeps_keeping :
    ∃ p, keeping.build = .ok p ∧
      let s := ((p.analyzer {}).afterSweeps 2 {}).store
      s.calls.keys.map CallKey.target = [.unit, .tagged (.object ⟨0⟩) ⟨1⟩ 0] ∧
        (s.instances.state? ⟨0⟩).bind (·.find? ⟨2⟩) = some (.tagged (.object ⟨0⟩) ⟨1⟩ 0) ∧
        s.Closed :=
  have built : keeping.build = .ok keeping.toProgram := rfl
  ⟨keeping.toProgram, built, by decide +kernel, by decide +kernel,
    (closed_afterSweeps built {} 2).1⟩

end Analyzer

end ClosedWorld
