import ClosedWorld.Sample.Control
import ClosedWorld.Sample.Effects

/-!
# The catalogue of samples

## Main definitions

* `Sample.catalogue`: all samples by name.
-/

namespace ClosedWorld

namespace Sample

/-- All samples by name. -/
def catalogue : List (String × Sample) :=
  [("dispatch", dispatch), ("no_dispatch_target", noDispatchTarget),
    ("abstract_call", abstractCall), ("no_code", noCode), ("counter", counter),
    ("effects", effects), ("missing_effect", missingEffect), ("effect_control", effectControl),
    ("replace_without_effect", replaceWithoutEffect), ("choice", choice),
    ("conditional", conditional), ("intrinsics", intrinsics), ("exit", exit),
    ("contract_violation", contractViolation), ("arrays", arrays)]

end Sample

end ClosedWorld
