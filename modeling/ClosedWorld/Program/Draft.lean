import ClosedWorld.Program.Basic

/-!
# Drafts of programs

A program is put together piece by piece. A clazz may be declared long before it is defined, so
that clazzes which mention each other can be entered in any order. The draft becomes a program if
it has no defect: every declared clazz is defined, every mention is of an entry of the tables, every
routine that produces something has a field to leave it in, and there is a clazz to start with.

## Main definitions

* `Draft`, with `declare`, `define`, `add`, `addField`, `addCode`.
* `Defect`: what is wrong with a draft, with its `message`.
* `Draft.defects`: all defects, in the order in which they are looked for.
* `Draft.build`: the program, or the first defect.
-/

namespace ClosedWorld

/-- A program under construction. -/
structure Draft where
  /-- The declared names, with the descriptions given so far. -/
  clazzes : List (String × Option ClazzInfo) := []
  blocks : List (List Instr) := []
  main : Option ClazzId := none
  constString : Option ConstStringLayout := none
  deriving DecidableEq, Repr

namespace Draft

/-- The name of a clazz, empty if it is not declared. -/
def name (d : Draft) (c : ClazzId) : String := (d.clazzes[c.index]?.map Prod.fst).getD ""

/-- Reserves the next position for a clazz that is defined later. -/
def declare (name : String) : StateM Draft ClazzId := fun d =>
  (⟨d.clazzes.length⟩, { d with clazzes := d.clazzes ++ [(name, none)] })

/-- Defines a declared clazz. A name in the description replaces the declared one. -/
def define (c : ClazzId) (info : ClazzInfo) : StateM Draft Unit := fun d =>
  ((), { d with
    clazzes := d.clazzes.modify c.index fun (name, _) => (info.name.getD name, some info) })

/-- Declares and defines a clazz; without a name it is called by its number. -/
def add (info : ClazzInfo) : StateM Draft ClazzId := do
  let d ← get
  let c ← declare (info.name.getD ("#" ++ Nat.repr d.clazzes.length))
  define c info
  return c

/-- Adds a field of type `type` to `owner`, named after its owner. -/
def addField (owner : ClazzId) (name : String) (type : ClazzId) : StateM Draft ClazzId := do
  let d ← get
  add { name := some (d.name owner ++ "." ++ name), kind := .field, outer := some owner,
        result := some type }

/-- Adds a block. -/
def addCode (instrs : List Instr) : StateM Draft CodeId := fun d =>
  (⟨d.blocks.length⟩, { d with blocks := d.blocks ++ [instrs] })

/-- Chooses the clazz to start with. -/
def setMain (c : ClazzId) : StateM Draft Unit := modify fun d => { d with main := some c }

/-- Chooses the layout of constant strings. -/
def setConstString (layout : ConstStringLayout) : StateM Draft Unit :=
  modify fun d => { d with constString := some layout }

end Draft

/-! ### Defects -/

/-- What keeps a draft from being a program. -/
inductive Defect where
  /-- The clazz was declared but never defined. -/
  | undefinedClazz (clazz : ClazzId) (name : String)
  /-- A clazz outside the table is mentioned. -/
  | unknownClazz (referrer : String) (clazz : ClazzId)
  /-- A block outside the table is mentioned. -/
  | unknownCode (referrer : String) (code : CodeId)
  /-- A routine that produces something has no field to leave it in. -/
  | missingResultField (name : String)
  /-- There is no clazz to start with. -/
  | missingMain
  deriving DecidableEq, Repr

/-- What the defect says. -/
def Defect.message : Defect → String
  | undefinedClazz clazz name =>
    "clazz " ++ clazz.text ++ " ('" ++ name ++ "') was declared but never defined"
  | unknownClazz referrer clazz => referrer ++ " refers to unknown " ++ clazz.text
  | unknownCode referrer code => referrer ++ " refers to unknown " ++ code.text
  | missingResultField name => "routine '" ++ name ++ "' has a result but no result field"
  | missingMain => "no main clazz"

namespace Draft

variable (d : Draft)

/-- The defect in a mention, if its entry is not in the tables. -/
def defectOf (referrer : String) : Reference → Option Defect
  | .clazz c => if c.index < d.clazzes.length then none else some (.unknownClazz referrer c)
  | .code c => if c.index < d.blocks.length then none else some (.unknownCode referrer c)

/-- The clazzes that are declared but not defined. -/
def undefinedClazzes : List Defect :=
  d.clazzes.zipIdx.filterMap fun ((name, info), i) =>
    if info.isNone then some (.undefinedClazz ⟨i⟩ name) else none

/-- The declared clazz is defined as the unit type. -/
def isUnit (c : ClazzId) : Bool :=
  ((d.clazzes[c.index]?.bind Prod.snd).bind ClazzInfo.special) = some .unit

/-- A routine needs a result field if its result is neither unit nor the routine itself, which
returns its own frame. -/
def needsResultField (c : ClazzId) (info : ClazzInfo) : Bool :=
  info.kind = .routine && info.resultField.isNone &&
    info.result.any fun r => r ≠ c && !d.isUnit r

/-- The defects in the description of one clazz. -/
def clazzDefects (c : ClazzId) (name : String) (info : ClazzInfo) : List Defect :=
  info.references.filterMap (d.defectOf name) ++
    if d.needsResultField c info then [.missingResultField name] else []

/-- The defects in one block. -/
def blockDefects (c : CodeId) (instrs : List Instr) : List Defect :=
  instrs.flatMap fun instr => instr.references.filterMap (d.defectOf c.text)

/-- The defects of the clazz to start with. -/
def mainDefects : List Defect :=
  match d.main with
  | none => [.missingMain]
  | some c => (d.defectOf "main" (.clazz c)).toList

/-- All defects: undefined clazzes first, then clazz by clazz, then block by block, then the clazz
to start with. -/
def defects : List Defect :=
  d.undefinedClazzes ++
    (d.clazzes.zipIdx.flatMap fun ((name, info), i) =>
      info.elim [] (d.clazzDefects ⟨i⟩ name)) ++
    (d.blocks.zipIdx.flatMap fun (instrs, i) => d.blockDefects ⟨i⟩ instrs) ++
    d.mainDefects

/-- The program of a draft, with what is left open filled in anyhow. -/
def toProgram : Program where
  clazzes := d.clazzes.map fun (name, info) => (name, info.getD default)
  blocks := d.blocks
  main := d.main.getD ⟨0⟩
  constString := d.constString

/-- The program, or the first defect. -/
def build : Except Defect Program :=
  match d.defects with
  | [] => .ok d.toProgram
  | defect :: _ => .error defect

end Draft

end ClosedWorld
