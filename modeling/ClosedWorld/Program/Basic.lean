import ClosedWorld.Program.Instr

/-!
# Programs

A program is a table of clazzes and a table of instruction blocks, which refer to each other by
position, and the clazz to start with.

## Main definitions

* `Program` and the questions it answers about its clazzes and blocks.
* `View`: a program of which some answers are withheld or replaced.
-/

namespace ClosedWorld

/-- A table of clazzes with their names, and a table of blocks. -/
structure Program where
  clazzes : List (String × ClazzInfo)
  blocks : List (List Instr)
  main : ClazzId
  constString : Option ConstStringLayout
  deriving DecidableEq, Repr

namespace Program

variable (p : Program)

/-- The number of clazzes. -/
def clazzCount : Nat := p.clazzes.length

/-- The clazzes of the table, in order. -/
def clazzIds : List ClazzId := Ident.below .clazz p.clazzCount

/-- The name and the description of a clazz. -/
def entry (c : ClazzId) : String × ClazzInfo := p.clazzes[c.index]?.getD default

/-- The name of a clazz. -/
def name (c : ClazzId) : String := (p.entry c).1

/-- The description of a clazz. -/
def info (c : ClazzId) : ClazzInfo := (p.entry c).2

/-- The first clazz with the given name. -/
def find? (name : String) : Option ClazzId :=
  (p.clazzes.findIdx? fun e => e.1 = name).map Ident.mk

/-- The first clazz with the given special meaning. -/
def specialClazz? (s : Special) : Option ClazzId :=
  (p.clazzes.findIdx? fun e => e.2.special = some s).map Ident.mk

/-- The fields of a clazz, in order. -/
def fields (c : ClazzId) : List ClazzId :=
  p.clazzIds.filter fun f => (p.info f).kind = .field ∧ (p.info f).outer = some c

/-- The contract block number `index` of a clazz. -/
def contract? (c : ClazzId) (kind : ContractKind) (index : Nat) : Option CodeId :=
  ((p.info c).contracts kind)[index]?

/-- The clazz has a precondition. -/
def hasPrecondition (c : ClazzId) : Bool := (p.contract? c .pre 0).isSome

/-- The clazz is the unit type. -/
def isUnit (c : ClazzId) : Bool := (p.info c).special = some .unit

/-- The clazz is a choice. -/
def isChoice (c : ClazzId) : Bool := (p.info c).kind = .choice

/-- The clazz is the type of booleans. -/
def isBool (c : ClazzId) : Bool := (p.info c).special = some .bool

/-- An access to the clazz yields no value worth storing. -/
def resultIsUnit (c : ClazzId) : Bool := (p.info c).result.all p.isUnit

/-- The tag of an alternative of a choice: its first position among the alternatives. The
bound that tags of 32 bits have is left out: a position from `2 ^ 32` on is a tag like any other. -/
def choiceTag? (choice alternative : ClazzId) : Option Nat :=
  (p.info choice).generics.findIdx? (· = alternative)

/-- The instructions of a block; a block that the table lacks has none. -/
def block (c : CodeId) : List Instr := p.blocks[c.index]?.getD []

/-- The instruction at a position of a block. -/
def instr? (c : CodeId) (index : Nat) : Option Instr := (p.block c)[index]?

end Program

/-- A program as an analysis sees it: some of its answers may be withheld or replaced. -/
structure View extends Program where
  /-- Block lengths that are announced instead of the true ones; the last word on a block counts. -/
  lengths : List (CodeId × Nat) := []
  /-- Routines whose result field is not told. -/
  withoutResultField : List ClazzId := []
  /-- The layout of constant strings is not told. -/
  withoutConstString : Bool := false
  deriving DecidableEq, Repr

/-- The program with all its answers. -/
def Program.view (p : Program) : View := { p with }

namespace View

variable (v : View)

/-- The announced length of a block. -/
def codeLength (c : CodeId) : Nat :=
  (v.lengths.reverse.lookup c).getD (v.block c).length

/-- The field in which a routine leaves its result. -/
def resultField? (c : ClazzId) : Option ClazzId :=
  if c ∈ v.withoutResultField then none else (v.info c).resultField

/-- The layout of constant strings. -/
def stringLayout? : Option ConstStringLayout :=
  if v.withoutConstString then none else v.constString

end View

end ClosedWorld
