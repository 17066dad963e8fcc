import ClosedWorld.Analysis.Access
import ClosedWorld.Walk.Block

/-!
# The meaning of instructions

An analysis walks the code of a call with abstract values on the operand stack. Nothing is put out:
what a walk does, it does to the store. Branches are walked if the subject may select them, one
after the other on the same store, and control continues after a branching instruction if it
continues after one of its branches.

## Main definitions

* `Setting.constant?`, `Analyzer.constString`: constants.
* `boxValue`, `Value.unboxed`: values behind references.
* `Match.boundBy`, `takenBranches`: which branches a subject selects.
* `Analyzer.processor`: the processor of a call.
-/

namespace ClosedWorld

/-! ### Constants -/

namespace Setting

variable (g : Setting)

/-- Makes the instances and the array of a constant string, and returns its instance. -/
def constString (creator : ClazzId) (site : Site) (data : List UInt8) : Analyzing Value := do
  match g.view.stringLayout? with
  | none => throw .missingConstString
  | some layout =>
    let context := g.contextOf creator
    let string ← onStore (Store.internInstance layout.clazz context)
    let array ← onStore (Store.internInstance layout.arrayClazz context)
    let bytes ← onStore (Store.internArray (.const site))
    if !data.isEmpty then
      let element ← g.anyNumber layout.element
      onStore (Store.arraySet bytes (.number element))
    match (g.view.info layout.length).result with
    | none => throw (g.malformed layout.length .noType)
    | some lengthType =>
      let length ← g.anyNumber lengthType
      -- The bytes are counted in 64 bits, whatever the kind of the length is.
      let count := Value.number { length with bits := some (UInt64.ofNat data.length) }
      onStore (Store.setField layout.length count (.object array))
      onStore (Store.setField layout.data (.array bytes) (.object array))
      onStore (Store.setField layout.internalArray (.object array) (.object string))
      return .object string

/-- A constant, if the analysis knows how to make one of its clazz. -/
def constant? (creator : ClazzId) (site : Site) (clazz : ClazzId) (data : List UInt8) :
    Analyzing (Option Value) := do
  match (g.view.info clazz).special with
  | some .bool => return some (.ofBool (data.head? = some 1))
  | some (.numeric kind) => return some (.number ⟨clazz, kind, kind.decode data⟩)
  | some .constString => return some (← g.constString creator site data)
  | some .unit => return some .unit
  | some .universal | none =>
    diagnose (.unsupportedConstant site (g.view.name clazz))
    return none

end Setting

/-! ### Boxes -/

/-- Boxes one atom. Instances are copied into an instance of the reference clazz, and absent values
stay what they are. -/
def boxAtom (valueClazz refClazz : ClazzId) : (atom : Value) → Updating Value
  | .object id => do return .object (← Store.boxInstance id refClazz)
  | .noValue => return .noValue
  | .undefined => return .undefined
  | atom => return .boxed atom valueClazz refClazz

/-- Joins the boxed atoms to `sofar`. -/
def boxAtoms (valueClazz refClazz : ClazzId) (sofar : Value) : List Value → Updating Value
  | [] => return sofar
  | atom :: rest => do
    let boxed ← boxAtom valueClazz refClazz atom
    boxAtoms valueClazz refClazz (sofar.join boxed) rest

/-- Boxes a value atom by atom. -/
def boxValue (v : Value) (valueClazz refClazz : ClazzId) : Updating Value :=
  boxAtoms valueClazz refClazz .noValue v.atoms

namespace Value

/-- What is in a box, or the value itself. -/
def unboxedAtom : Value → Value
  | boxed content _ _ => content
  | v => v

/-- Takes each atom out of its box. -/
def unboxed (v : Value) : Value := joinAll (v.atoms.map unboxedAtom)

end Value

/-! ### Branches -/

/-- What an atom is bound to in a case that selects `tag`, if it selects the case. -/
def selectedBy (subjectIsBool : Bool) (tag : Nat) (atom : Value) : Except Fault (Option Value) :=
  match atom with
  | .tagged content _ tag' => .ok (if tag' = tag then some content else none)
  | .noValue | .undefined => .ok none
  | .bool truth =>
    if subjectIsBool then .ok (if truth.admits tag then some (.bool (.ofTag tag)) else none)
    else .error (.unexpectedValue .tagged atom)
  | _ => .error (.unexpectedValue .tagged atom)

/-- Joins to `sofar` what the atoms are bound to under the tags they come with. -/
def boundByEach (subjectIsBool : Bool) (sofar : Option Value) :
    List (Nat × Value) → Except Fault (Option Value)
  | [] => return sofar
  | (tag, atom) :: rest => do
    let bound ← selectedBy subjectIsBool tag atom
    boundByEach subjectIsBool (Analyzer.joinResults sofar bound) rest

/-- What a case binds if the subject selects it: the join of what all atoms are bound to under all
tags of the case. -/
def MatchCase.boundBy (case : MatchCase) (subjectIsBool : Bool) (subject : Value) :
    Except Fault (Option Value) :=
  boundByEach subjectIsBool none
    (case.tags.flatMap fun tag => subject.atoms.map fun atom => (tag, atom))

/-- Whether the atoms admit the branches of a conditional, beyond what is admitted already. -/
def admittedBranches (thenTaken elseTaken : Bool) : List Value → Except Fault (Bool × Bool)
  | [] => return (thenTaken, elseTaken)
  | atom :: rest => do
    let truth ← atom.asBool
    admittedBranches (thenTaken || truth.admits 1) (elseTaken || truth.admits 0) rest

/-- The branches of a conditional that the condition may take. -/
def takenBranches (condition : Value) (thenCode elseCode : CodeId) :
    Except Fault (List CodeId) := do
  let (thenTaken, elseTaken) ← admittedBranches false false (Handler.present condition)
  return (if thenTaken then [thenCode] else []) ++ (if elseTaken then [elseCode] else [])

/-- The walk of a block in an analysis. -/
abbrev CodeWalk := CodeId → Analyzing (Step Value Unit)

/-- Walks the selected cases in order. Yields whether control continues after one of them. -/
def walkCases (walk : CodeWalk) (frame : InstanceId) (subjectIsBool : Bool) (subject : Value) :
    List MatchCase → Analyzing Bool
  | [] => return false
  | case :: rest => do
    let continues ←
      match ← case.boundBy subjectIsBool subject with
      | none => pure false
      | some bound => do
        if let some field := case.field then
          onStore (Store.setField field bound (.object frame))
        pure (← walk case.code).value.isSome
    let laterContinues ← walkCases walk frame subjectIsBool subject rest
    return continues || laterContinues

/-- Walks blocks in order. Yields whether control continues after one of them. -/
def walkAll (walk : CodeWalk) : List CodeId → Analyzing Bool
  | [] => return false
  | code :: rest => do
    let step ← walk code
    let laterContinues ← walkAll walk rest
    return step.value.isSome || laterContinues

/-! ### The processor -/

/-- An answer without output. -/
def answer (value : Option Value) : Step Value Unit := ⟨value, ()⟩

/-- The answer of a branching instruction. -/
def answerIf (continues : Bool) : Step Value Unit := answer (if continues then some .unit else none)

/-- The processor that analyses the code of a call. -/
def Analyzer.processor (z : Analyzer) (act : Activation) :
    Processor Fault Analysis Value Unit where
  malformed := .walk
  sequence _ := return ()
  unitValue := return .unit
  header _ := return ()
  comment _ := return ()
  nop := return ()
  current _ := return answer (some act.current)
  outer _ := return answer (some act.key.target)
  arg clazz index := do return answer (some (← z.argument clazz act.key.args index))
  const site clazz data := do return answer (← z.constant? act.key.clazz site clazz data)
  adrOf v := return answer (some v)
  assign site access target value := do
    let _ ← z.access act site access target (.assign [value])
  call site access target args := do return answer (← z.call act site access target args)
  box v valueClazz refClazz := do
    if (z.view.info valueClazz).isRef then return answer (some v)
    return answer (some (← onStore (boxValue v valueClazz refClazz)))
  unbox v _ _ := return answer (some v.unboxed)
  tag _ v _ choice tag :=
    return answer (some (if z.view.isBool choice then .bool (.ofTag tag) else .tagged v choice tag))
  env site effect := do
    let value ← (← currentStore).lookupEffect act.key.env effect
    if value.isNone then diagnose (.missingEffect site (z.view.name effect))
    return answer value
  select walk site m subject := do
    return answerIf
      (← walkCases (walk site.clazz) act.frame (z.view.isBool m.subject) subject m.cases)
  cond walk site condition thenCode elseCode := do
    return answerIf (← walkAll (walk site.clazz) (← takenBranches condition thenCode elseCode))
  contract site kind condition := do
    if condition = .bool .false then
      diagnose (.contractViolation site kind (z.view.name site.clazz))
      return answerIf false
    return answerIf true

end ClosedWorld
