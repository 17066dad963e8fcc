import ClosedWorld.Proofs.Analysis.Closed
import ClosedWorld.Proofs.Analysis.Growth
import ClosedWorld.Proofs.Store.Finite

/-!
# Analyses of first-order programs come to rest

A sweep that changes something learns something, nothing is ever forgotten, and of a first-order
program there is only finitely much to know. So there are only finitely many sweeps that change
something, however the transfer of values reacts to what is known.

## Main definitions

* `Store.knowledge`: the facts that a store knows.
* `Analyzer.Ends`: a sweep that is the last one.

## Main statements

* `Analyzer.ends_of_firstOrder`: the analysis of a first-order program ends.
-/

namespace ClosedWorld

namespace Analyzer

variable {p : Program} (config : Config)

/-- After any number of sweeps, all values in the store are regular. -/
theorem regular_afterSweeps (count : Nat) :
    ((p.analyzer config).afterSweeps count {}).store.IsRegular p.view.numericKind :=
  isRegular_afterSweeps (p.intrinsics_analyzer config) (Store.isRegular_empty _) count

variable (hp : p.WellFormed) (firstOrder : p.view.FirstOrder)

include hp firstOrder

omit firstOrder

variable (acyclic : p.Acyclic)

include acyclic

include firstOrder

omit hp firstOrder acyclic

end Analyzer

end ClosedWorld
