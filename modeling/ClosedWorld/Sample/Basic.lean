import ClosedWorld.Sample.Prelude

/-!
# Sample programs

A sample is a small program that exercises one feature of an analysis, with labels for the clazzes
and instructions that are of interest in it. In the code of the samples, as everywhere, the target
of a call is pushed before its arguments, and that of an assignment before the value.

## Main definitions

* `Label`, `Sample`, `Sample.ofDraft`.
* Abbreviations for common instructions and clazzes.
-/

namespace ClosedWorld

/-- Something of interest in a sample. -/
inductive Label where
  | clazz (id : ClazzId)
  | code (id : CodeId)
  | site (site : Site)
  deriving DecidableEq, Repr

/-- A small program with labels. -/
structure Sample where
  labels : List (String × Label)
  program : Except Defect Program

namespace Sample

/-- The sample that is put together by a step on the empty draft. -/
def ofDraft (assemble : StateM Draft (List (String × Label))) : Sample :=
  let (labels, draft) := assemble.run {}
  { labels, program := draft.build }

/-- Clazzes with the names of their labels. -/
def clazzLabels (labels : List (String × ClazzId)) : List (String × Label) :=
  labels.map fun (name, c) => (name, .clazz c)

/-! ### Instructions -/

/-- A static call. -/
def callOf (c : ClazzId) : Instr := .call (.fixed c)

/-- A static assignment. -/
def assignTo (field : ClazzId) : Instr := .assign (.fixed field)

/-- Reads a field of the current instance. -/
def readOf (field : ClazzId) : List Instr := [.current, callOf field]

/-! ### Clazzes -/

/-- A routine with nothing but a body. -/
def withCode (name : String) (code : CodeId) : ClazzInfo :=
  { name := some name, kind := .routine, code := some code }

/-- An intrinsic. -/
def intrinsicClazz (name : String) (result : Option ClazzId) (args : List ClazzId) : ClazzInfo :=
  { name := some name, kind := .intrinsic, intrinsic := some name, result, args }

/-- Defines the clazz to start with. -/
def defineMain (main : ClazzId) (body : CodeId) : StateM Draft Unit := do
  Draft.define main (withCode "main" body)
  Draft.setMain main

/-- Defines a constructor of reference objects with an empty body. -/
def defineConstructor (c : ClazzId) (name : String) : StateM Draft Unit := do
  let body ← Draft.addCode []
  Draft.define c
    { name := some name, kind := .routine, result := some c, code := some body, isRef := true }

/-- Adds a constructor of reference objects. -/
def addConstructor (name : String) : StateM Draft ClazzId := do
  let c ← Draft.declare name
  defineConstructor c name
  return c

/-- Adds a type of reference objects that have no code of their own. -/
def addRefType (name : String) : StateM Draft ClazzId :=
  Draft.add { name := some name, kind := .routine, isRef := true, needsCode := false }

/-- Adds an operation on an effect that an intrinsic does. -/
def addEffectOperation (effect : ClazzId) (name intrinsic : String) : StateM Draft ClazzId := do
  let d ← get
  Draft.add
    { name := some (d.name effect ++ "." ++ name), kind := .intrinsic, intrinsic := some intrinsic,
      outer := some effect, effectType := some effect }

/-- Adds a routine of `owner` that returns a constant. -/
def addConstantRoutine (p : Prelude) (owner : ClazzId) (name : String) (value : Int) :
    StateM Draft ClazzId := do
  let d ← get
  let c ← Draft.declare (d.name owner ++ "." ++ name)
  let result ← Draft.addField c "result" p.i32
  let code ← Draft.addCode [.current, p.i32Const value, assignTo result]
  Draft.define c
    { kind := .routine, outer := some owner, result := some p.i32, resultField := some result,
      code := some code }
  return c

end Sample

end ClosedWorld
