import ClosedWorld.Analysis.Intrinsic
import ClosedWorld.Store.Request

/-!
# Scripted intrinsics

A script gives the meaning of an intrinsic by data: the requests that a call makes to the store, and
what it returns.

## Main definitions

* `Script`, `Script.handler`.
-/

namespace ClosedWorld

namespace Script

/-- What a scripted intrinsic returns. -/
inductive Result where
  /-- Nothing: the call does not return. -/
  | never
  /-- The target of the call. -/
  | target
  /-- The join of its arguments. -/
  | args
  | value (v : Value)
  deriving DecidableEq, Repr

end Script

/-- The meaning of an intrinsic as data. -/
structure Script where
  /-- The requests are made only while findings are recorded. -/
  reportingOnly : Bool := false
  requests : List Store.Request := []
  result : Script.Result := .never
  deriving DecidableEq, Repr

namespace Script

/-- Makes the requests in order. -/
def performAll : List Store.Request → Updating Unit
  | [] => return ()
  | request :: rest => do
    let _ ← request.perform
    performAll rest

/-- The meaning that the script gives. -/
def handler (script : Script) : Handler := fun _ id => do
  if (← get).reporting || !script.reportingOnly then onStore (performAll script.requests)
  match script.result with
  | .never => return none
  | .target => return some (← (← currentStore).callKey id).target
  | .args => return some (Value.joinAll (← (← currentStore).callKey id).args)
  | .value v => return some v

end Script

end ClosedWorld
