import ClosedWorld.Program.Clazz

/-!
# Findings

A finding tells the user about the analysed program. Findings are about the state in which nothing
changes any more, so they are only made by a last pass over all calls.

## Main definitions

* `Diagnostic`, with `severity` and `text`.
-/

namespace ClosedWorld

/-- How bad a finding is. -/
inductive Severity where
  | warning
  | error
  deriving DecidableEq, Repr

/-- Something that the user should know about the program. Clazzes and values are given by name and
text, so that a finding can outlive the program. -/
inductive Diagnostic where
  /-- An intrinsic without a meaning is called. -/
  | unsupportedIntrinsic (name : String) (call : CallId)
  /-- The analysis cannot make constants of the clazz. -/
  | unsupportedConstant (site : Site) (clazz : String)
  /-- No part of the target of a dynamic access is of one of the target types. -/
  | noDispatchTarget (site : Site) (accessed target : String)
  /-- A static access is to a clazz without code. -/
  | noCode (site : Site) (clazz : String)
  /-- An abstract feature is called. -/
  | abstractCalled (site : Site) (clazz : String)
  /-- The condition of a contract is false whenever it is checked. -/
  | contractViolation (site : Site) (kind : ContractKind) (clazz : String)
  /-- An effect is read that is neither installed nor has a default. -/
  | missingEffect (site : Site) (effect : String)
  deriving DecidableEq, Repr

namespace Diagnostic

/-- What the analysis does not support is no error of the program. -/
def severity : Diagnostic → Severity
  | unsupportedIntrinsic .. | unsupportedConstant .. => .warning
  | _ => .error

/-- The finding is an error. -/
def isError (d : Diagnostic) : Bool := d.severity = .error

/-- What the finding says. -/
def text : Diagnostic → String
  | unsupportedIntrinsic name call =>
    "intrinsic '" ++ name ++ "' is not supported (" ++ call.text ++ ")"
  | unsupportedConstant site clazz =>
    site.text ++ ": unsupported constant of clazz '" ++ clazz ++ "'"
  | noDispatchTarget site accessed target =>
    site.text ++ ": no target for access to '" ++ accessed ++ "' on " ++ target
  | noCode site clazz => site.text ++ ": no code for static access to '" ++ clazz ++ "'"
  | abstractCalled site clazz => site.text ++ ": call to abstract feature '" ++ clazz ++ "'"
  | contractViolation site kind clazz =>
    site.text ++ ": " ++ kind.text ++ " of '" ++ clazz ++ "' never holds"
  | missingEffect site effect =>
    site.text ++ ": no effect of type '" ++ effect ++ "' installed"

end Diagnostic

end ClosedWorld
