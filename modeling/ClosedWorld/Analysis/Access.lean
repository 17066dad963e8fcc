import ClosedWorld.Analysis.Intrinsic

/-!
# Accesses

An access reads, writes or calls a feature of a target. A static access concerns one clazz. A
dynamic one is resolved for each atom of the target by the clazz of that atom, and yields the join
of what the resolved accesses yield. Where an access yields nothing, control does not continue.

## Main definitions

* `Analyzer`: a setting with the meaning of its intrinsics.
* `Activation`: the call whose code is walked.
* `Analyzer.callResult`: what a call produces, as far as is known.
* `Setting.retag`: how values are tagged for fields whose type is a choice.
* `Analyzer.access`, `Analyzer.call`: accesses.
-/

namespace ClosedWorld

/-- A setting with the meaning of its intrinsics. -/
structure Analyzer extends Setting where
  intrinsics : IntrinsicTable := .standard

/-- The call whose code is walked. -/
structure Activation where
  call : CallId
  key : CallKey
  frame : InstanceId
  deriving DecidableEq, Repr

/-- The instance that holds the arguments and locals of the call. -/
def Activation.current (act : Activation) : Value := .object act.frame

/-! ### Results of calls -/

namespace Setting

variable (g : Setting)

/-- The name under which an intrinsic is looked up. -/
def intrinsicName (clazz : ClazzId) : String :=
  (g.view.info clazz).intrinsic.getD (g.view.name clazz)

/-- What a routine that returns leaves in its frame. A routine whose result is itself returns the
frame. -/
def routineResult (s : Store) (clazz : ClazzId) (frame : InstanceId) : Except Fault Value :=
  match (g.view.info clazz).result with
  | none => .ok .unit
  | some result =>
    if g.view.isUnit result then .ok .unit
    else if result = clazz then .ok (.object frame)
    else
      match g.view.resultField? clazz with
      | none => .error (g.malformed clazz .noResultField)
      | some field => s.readField field (.object frame)

end Setting

namespace Analyzer

variable (z : Analyzer)

/-- Runs the meaning of an intrinsic. Without one, the call is reported and produces the undefined
value. -/
def intrinsicResult (id : CallId) (clazz : ClazzId) : Analyzing (Option Value) := do
  let name := z.intrinsicName clazz
  let result ←
    match z.intrinsics.find? name with
    | some (.handler meaning) => meaning z.toSetting id
    | some .unsupported | none => do
      if z.config.reportIntrinsics then diagnose (.unsupportedIntrinsic name id)
      pure (some .undefined)
  if result.isSome then onStore (Store.markReturns id)
  return result

/-- What a call produces as seen by a caller, if it returns as far as is known. -/
def callResult (id : CallId) : Analyzing (Option Value) := do
  let s ← currentStore
  let key ← s.callKey id
  if !key.pre && (z.view.info key.clazz).kind = .intrinsic then z.intrinsicResult id key.clazz
  else
    let state ← s.callState id
    if !state.returns then return none
    else if key.pre then return some .unit
    else return some (← z.routineResult s key.clazz state.frame)

end Analyzer

/-! ### Fields of choice types -/

namespace Setting

variable (g : Setting)

/-- Tags an atom for a choice by its clazz. An atom that is tagged for the choice already stays as
it is, and so does one whose clazz is no alternative. -/
def retagAtom (s : Store) (choice : ClazzId) (atom : Value) : Except Fault Value := do
  match atom with
  | .tagged _ choice' _ => if choice' = choice then return atom
  | _ => pure ()
  match (← g.clazzOf? s atom).bind (g.view.choiceTag? choice) with
  | some tag => return .tagged atom choice tag
  | none => return atom

/-- The join of `sofar` and the tagged atoms. -/
def retagAtoms (s : Store) (choice : ClazzId) (sofar : Value) : List Value → Except Fault Value
  | [] => return sofar
  | atom :: rest => do
    retagAtoms s choice (sofar.join (← g.retagAtom s choice atom)) rest

/-- Tags a value for a field. Only fields whose type is a choice other than the booleans are tagged
for. -/
def retag (s : Store) (field : ClazzId) (value : Value) : Except Fault Value :=
  match (g.view.info field).result with
  | none => return value
  | some choice =>
    if g.view.isChoice choice && !g.view.isBool choice then
      g.retagAtoms s choice .noValue value.atoms
    else return value

end Setting

/-! ### Accesses of one clazz -/

/-- Whether an access writes or calls, and the values for it. A write takes the first of them. -/
inductive AccessMode where
  | assign (values : List Value)
  | call (args : List Value)
  deriving DecidableEq, Repr

namespace Analyzer

variable (z : Analyzer) (act : Activation)

/-- A call of the body or the precondition of a routine or intrinsic. -/
def enter (target : Value) (args : List Value) (clazz : ClazzId) (pre : Bool) :
    Analyzing (Option Value) := do
  if !(z.view.info clazz).needsCode then return none
  let id ← z.newCall { clazz, pre, target, args, env := act.key.env } act.call
  return (← z.callResult id).filter (· ≠ .noValue)

/-- A call of one clazz. Calling a field reads it. -/
def callOne (site : Site) (target : Value) (args : List Value) (clazz : ClazzId) :
    Analyzing (Option Value) := do
  match (z.view.info clazz).kind with
  | .abstract =>
    diagnose (.abstractCalled site (z.view.name clazz))
    return none
  | .routine | .intrinsic => z.enter act target args clazz false
  | .field =>
    let v ← (← currentStore).readField clazz target
    return if v = .noValue then none else some v
  | .choice => throw (z.malformed clazz .choiceCalled)

/-- The value that a write of a field takes. -/
def written (field : ClazzId) : (values : List Value) → Except Fault Value
  | [] => .error (z.malformed field .noValue)
  | value :: _ => .ok value

/-- A write of one field. A field of unit type needs no write, and so no value. -/
def assignOne (target : Value) (values : List Value) (field : ClazzId) :
    Analyzing (Option Value) := do
  if !z.view.resultIsUnit field then
    let value ← z.written field values
    let tagged ← z.retag (← currentStore) field value
    onStore (Store.setField field tagged target)
  return some .unit

/-- An access of one clazz. -/
def accessOne (site : Site) (target : Value) (mode : AccessMode) (clazz : ClazzId) :
    Analyzing (Option Value) :=
  match mode with
  | .assign values => z.assignOne target values clazz
  | .call args => z.callOne act site target args clazz

/-! ### Static and dynamic accesses -/

/-- An atom is a receiver of the type `type`. -/
def receives (s : Store) (type : ClazzId) : (atom : Value) → Except Fault Bool
  | .object id => do return (← s.instanceKey id).clazz = type
  | .boxed _ _ refClazz => return refClazz = type
  | _ => return false

/-- The join of what two paths produce. -/
def joinResults : Option Value → Option Value → Option Value
  | some v, some w => some (v.join w)
  | some v, none => some v
  | none, w => w

/-- Accesses the clazz of each pair of a target and an atom that the target is for. Yields whether
there was any, and the join of the results. -/
def accessEach (site : Site) (mode : AccessMode) :
    List ((ClazzId × ClazzId) × Value) → (found : Bool) → (sofar : Option Value) →
    Analyzing (Bool × Option Value)
  | [], found, sofar => return (found, sofar)
  | ((type, clazz), atom) :: rest, found, sofar => do
    if ← receives (← currentStore) type atom then
      recordDispatch site clazz
      let result ← z.accessOne act site atom mode clazz
      accessEach site mode rest true (joinResults sofar result)
    else accessEach site mode rest found sofar

/-- A static or dynamic access. -/
def access (site : Site) (access : Access) (target : Value) (mode : AccessMode) :
    Analyzing (Option Value) := do
  if access.dynamic then
    let pairs := access.targets.flatMap fun t => target.atoms.map fun atom => (t, atom)
    let (found, result) ← z.accessEach act site mode pairs false none
    if !found then
      diagnose (.noDispatchTarget site (z.view.name access.accessed) target.text)
    return result
  else if (z.view.info access.accessed).needsCode then
    z.accessOne act site target mode access.accessed
  else
    diagnose (.noCode site (z.view.name access.accessed))
    return none

/-- A call with its precondition, which has to return before the body is called. -/
def call (site : Site) (access : Access) (target : Value) (args : List Value) :
    Analyzing (Option Value) := do
  let checked ←
    if z.view.hasPrecondition access.accessed then z.enter act target args access.accessed true
    else pure (some .unit)
  if checked.isSome && !access.preOnly then z.access act site access target (.call args)
  else return checked

end Analyzer

end ClosedWorld
