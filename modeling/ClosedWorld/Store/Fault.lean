import ClosedWorld.Store.Key
import ClosedWorld.Value.Text
import ClosedWorld.Walk.Processor

/-!
# Faults

A fault ends an analysis: the store or the program is not in the shape that the analysis relies on.
What an analysis can work around is no fault but a finding, and is reported.

## Main definitions

* `Fault`: the causes, with their `message`.
* `Change.text`: what has changed, for the fault of a store that changes when it should not.
-/

namespace ClosedWorld

/-- What the change is about. -/
def Change.text : Change → String
  | newInstance clazz => "new instance of " ++ clazz.text
  | fieldGrew field id value => field.text ++ " of " ++ id.text ++ " grew to " ++ value.text
  | newArray key => "new array for " ++ key.expanded
  | elementsGrew id value => "elements of " ++ id.text ++ " grew to " ++ value.text
  | newBinding effect => "new environment binding " ++ effect.text
  | effectReplaced effect env => "effect " ++ effect.text ++ " in " ++ env.text ++ " replaced"
  | defaultChanged effect => "default effect " ++ effect.text ++ " changed"
  | newCall clazz => "new call to " ++ clazz.text
  | callReturns id => id.text ++ " returns"

/-- The forms of values that some operations insist on. -/
inductive Form where
  | object
  | array
  | bool
  | tagged
  deriving DecidableEq, Repr

/-- The word for the form. -/
def Form.text : Form → String
  | object => "instance"
  | array => "array"
  | bool => "bool"
  | tagged => "tagged"

/-- What a clazz, or an access of one, can lack. -/
inductive Shortcoming where
  | notNumeric
  | noResultType
  | noType
  | choiceCalled
  | noResultField
  | noEffectType
  | noFunctionType
  | noCallRoutine
  | noEffectArgument
  | noValue
  deriving DecidableEq, Repr

/-- What is said of a clazz that lacks it. -/
def Shortcoming.text : Shortcoming → String
  | notNumeric => "is not numeric"
  | noResultType => "has no result type"
  | noType => "has no type"
  | choiceCalled => "is a choice and cannot be called"
  | noResultField => "has a result but no result field"
  | noEffectType => "has no effect type"
  | noFunctionType => "has no function type"
  | noCallRoutine => "has no call routine"
  | noEffectArgument => "has no effect type argument"
  | noValue => "assigned without a value"

/-- Why an analysis cannot go on. -/
inductive Fault where
  /-- A value does not have the form that an operation insists on. -/
  | unexpectedValue (expected : Form) (found : Value)
  /-- A clazz, by name, lacks something that the analysis needs. -/
  | malformedClazz (name : String) (problem : Shortcoming)
  | unknownInstance (id : InstanceId)
  | unknownCall (id : CallId)
  | unknownEnv (id : EnvId)
  | unknownArray (id : ArrayId)
  /-- A call carries another number of arguments than its clazz, by name, takes. -/
  | arityMismatch (name : String) (expected got : Nat)
  /-- There is neither an installed nor a default effect to replace. -/
  | noEffectToReplace (effect : ClazzId)
  /-- The program has constant strings but no layout for them. -/
  | missingConstString
  /-- The pass that only reports has changed the store. -/
  | reportingChanged (change : Change)
  /-- No quiet sweep came within the limit. -/
  | iterationLimit (limit : Nat)
  /-- The code cannot be walked. -/
  | walk (error : WalkError)
  deriving DecidableEq, Repr

/-- What the fault says. -/
def Fault.message : Fault → String
  | unexpectedValue expected found =>
    "expected " ++ expected.text ++ " value, found " ++ found.text
  | malformedClazz name problem => "clazz '" ++ name ++ "' " ++ problem.text
  | unknownInstance id => "unknown " ++ id.text
  | unknownCall id => "unknown " ++ id.text
  | unknownEnv id => "unknown " ++ id.text
  | unknownArray id => "unknown " ++ id.text
  | arityMismatch name expected got =>
    "call to '" ++ name ++ "' has " ++ Nat.repr got ++ " arguments, expected " ++
      Nat.repr expected
  | noEffectToReplace effect => "no effect of type '" ++ effect.text ++ "' to replace"
  | missingConstString => "constant string used but no constant string clazz is known"
  | reportingChanged change => "reporting pass changed the analysis state: " ++ change.text
  | iterationLimit limit => "no fixpoint after " ++ Nat.repr limit ++ " iterations"
  | walk error => error.message

namespace Value

/-- The instance that the value is. -/
def asObject : Value → Except Fault InstanceId
  | object id => .ok id
  | v => .error (.unexpectedValue .object v)

/-- The array that the value is. -/
def asArray : Value → Except Fault ArrayId
  | array id => .ok id
  | v => .error (.unexpectedValue .array v)

/-- The boolean that the value is. -/
def asBool : Value → Except Fault Truth
  | bool truth => .ok truth
  | v => .error (.unexpectedValue .bool v)

end Value

end ClosedWorld
