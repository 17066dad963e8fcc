import ClosedWorld.Ident
import ClosedWorld.Numeric

/-!
# Clazzes

A clazz is a fully resolved concrete type or feature: a routine, a field of another clazz, an
intrinsic, an abstract feature, or a choice between other clazzes. All its type parameters are
known, so every clazz a program can need has an entry of its own in the program's table.

## Main definitions

* `FeatureKind`, `ContractKind`, `Special`: classifications.
* `ClazzInfo`: everything known about one clazz, apart from its fields.
* `Reference`: a mention of a table entry.
-/

namespace ClosedWorld

/-- What kind of feature a clazz is. -/
inductive FeatureKind where
  /-- A routine with a block of code; constructors are routines. -/
  | routine
  /-- A field of an outer clazz; reading it is a call without code. -/
  | field
  /-- A primitive whose meaning lies outside the program. -/
  | intrinsic
  /-- A feature without an implementation, which only dynamic dispatch may reach. -/
  | abstract
  /-- A tagged union over the generics of the clazz. -/
  | choice
  deriving DecidableEq, Repr

/-- The two kinds of contract blocks. -/
inductive ContractKind where
  | pre
  | post
  deriving DecidableEq, Repr

/-- The word for the kind of contract. -/
def ContractKind.text : ContractKind → String
  | .pre => "precondition"
  | .post => "postcondition"

/-- The clazzes that have a meaning of their own for an analysis. -/
inductive Special where
  | unit
  | bool
  | numeric (kind : NumericKind)
  | constString
  /-- The outermost feature, of which all others are inner ones. -/
  | universal
  deriving DecidableEq, Repr

/-- Everything known about one clazz. The fields of a clazz are not listed here: they are the
clazzes of kind `field` whose `outer` it is. -/
structure ClazzInfo where
  /-- Replaces the name that the clazz was declared with. -/
  name : Option String := none
  kind : FeatureKind
  outer : Option ClazzId := none
  /-- Result type of a routine or type of a field; none is unit. -/
  result : Option ClazzId := none
  /-- The field in which a routine leaves its result. -/
  resultField : Option ClazzId := none
  /-- The field that receives the target of a call. -/
  outerRef : Option ClazzId := none
  code : Option CodeId := none
  /-- The name of the intrinsic, where it is not that of the clazz. -/
  intrinsic : Option String := none
  /-- The effect type that an effect intrinsic works on. -/
  effectType : Option ClazzId := none
  special : Option Special := none
  /-- The routine that calling a function clazz runs. -/
  call : Option ClazzId := none
  /-- The fields for the arguments, in the order of the arguments. -/
  args : List ClazzId := []
  preconditions : List CodeId := []
  postconditions : List CodeId := []
  /-- The actual generics; those of a choice are its alternatives in the order of their tags. -/
  generics : List ClazzId := []
  isRef : Bool := false
  needsCode : Bool := true
  deriving DecidableEq, Repr

/-- A mention of a table entry. -/
inductive Reference where
  | clazz (id : ClazzId)
  | code (id : CodeId)
  deriving DecidableEq, Repr

namespace ClazzInfo

/-- What is assumed of a clazz that no table holds. -/
instance : Inhabited ClazzInfo := ⟨{ kind := .abstract }⟩

/-- The contract blocks of one kind. -/
def contracts (info : ClazzInfo) : ContractKind → List CodeId
  | .pre => info.preconditions
  | .post => info.postconditions

/-- All mentions of table entries, clazzes before blocks. -/
def references (info : ClazzInfo) : List Reference :=
  ([info.outer, info.result, info.resultField, info.outerRef, info.effectType, info.call].filterMap
      id ++ info.args ++ info.generics).map .clazz ++
    (info.code.toList ++ info.preconditions ++ info.postconditions).map .code

end ClazzInfo

/-- The clazzes that a constant string is made of: an instance of `clazz` whose field
`internalArray` holds an instance of `arrayClazz`, which has the raw bytes in `data` and their
number in `length`. -/
structure ConstStringLayout where
  clazz : ClazzId
  internalArray : ClazzId
  arrayClazz : ClazzId
  data : ClazzId
  length : ClazzId
  /-- The type of the raw bytes. -/
  element : ClazzId
  deriving DecidableEq, Repr

end ClosedWorld
