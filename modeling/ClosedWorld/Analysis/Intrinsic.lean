import ClosedWorld.Analysis.Basic
import ClosedWorld.Text.Quoted

/-!
# Intrinsics

The meaning of an intrinsic lies outside the program, so an analysis takes it from a table. A
handler says what a call of the intrinsic produces, and may write to the store. An intrinsic can
also be known to have no meaning.

## Main definitions

* `Handler`, `Intrinsic`, `IntrinsicTable`.
* `IntrinsicTable.standard`: the intrinsics of the standard library.
-/

namespace ClosedWorld

/-- What a call of an intrinsic produces; nothing if it does not return. -/
abbrev Handler := Setting → CallId → Analyzing (Option Value)

/-- What is known about an intrinsic. -/
inductive Intrinsic where
  | handler (meaning : Handler)
  /-- Calls produce the undefined value and are reported. -/
  | unsupported

/-- The known intrinsics by name. -/
abbrev IntrinsicTable := OrderedMap String Intrinsic

namespace Handler

/-! ### Plain results -/

/-- Any number of the result type. -/
def anyResult : Handler := fun g id => do
  let key ← (← currentStore).callKey id
  match (g.view.info key.clazz).result with
  | none => throw (g.malformed key.clazz .noResultType)
  | some result => return some (.number (← g.anyNumber result))

/-- Either boolean. -/
def anyBool : Handler := fun _ _ => return some (.bool .any)

/-- Nothing worth storing. -/
def unit : Handler := fun _ _ => return some .unit

/-- The call does not return. -/
def exit : Handler := fun _ _ => return none

/-! ### Arrays -/

/-- A raw array, one for each call. -/
def arrayAlloc : Handler := fun _ id => do
  return some (.array (← onStore (Store.internArray (.alloc id))))

/-- Writes a value into each of the arrays. -/
def writeElements (value : Value) : List Value → Analyzing Unit
  | [] => return ()
  | atom :: rest => do
    let array ← atom.asArray
    onStore (Store.arraySet array value)
    writeElements value rest

/-- Joins to `sofar` what each of the arrays holds. -/
def readElements (s : Store) (sofar : Value) : List Value → Except Fault Value
  | [] => return sofar
  | atom :: rest => do
    let array ← atom.asArray
    readElements s (sofar.join (← s.arrayGet array)) rest

/-- The atoms of a value that are there. -/
def present (v : Value) : List Value := v.atoms.filter fun atom => !atom.isAbsent

/-- Writes the third argument into the array that is the first. -/
def arraySetel : Handler := fun g id => do
  let key ← (← currentStore).callKey id
  let array ← g.argument key.clazz key.args 0
  let value ← g.argument key.clazz key.args 2
  writeElements value (present array)
  return some .unit

/-- Reads the array that is the first argument. -/
def arrayGet : Handler := fun g id => do
  let s ← currentStore
  let key ← s.callKey id
  let array ← g.argument key.clazz key.args 0
  return some (← readElements s .noValue (present array))

/-! ### Effects -/

/-- The effect type that an effect intrinsic works on. -/
def effectType (g : Setting) (clazz : ClazzId) : Except Fault ClazzId :=
  match (g.view.info clazz).effectType with
  | some effect => .ok effect
  | none => .error (g.malformed clazz .noEffectType)

/-- Installs the target as the default of its effect type. -/
def effectDefault : Handler := fun g id => do
  let key ← (← currentStore).callKey id
  let effect ← effectType g key.clazz
  let _ ← onStore (Store.installDefault effect key.target)
  return some .unit

/-- Replaces the visible effect by the target. -/
def effectReplace : Handler := fun g id => do
  let key ← (← currentStore).callKey id
  let effect ← effectType g key.clazz
  onStore (Store.replaceEffect key.env effect key.target)
  return some .unit

/-- Calls the function that is the first argument with the target installed. -/
def effectAbortable : Handler := fun g id => do
  let key ← (← currentStore).callKey id
  let effect ← effectType g key.clazz
  match (g.view.info key.clazz).generics.head? with
  | none => throw (g.malformed key.clazz .noFunctionType)
  | some fn =>
    match (g.view.info fn).call with
    | none => throw (g.malformed fn .noCallRoutine)
    | some call =>
      let target ← g.argument key.clazz key.args 0
      let env ← onStore (Store.extendEnv key.env effect key.target)
      let _ ← g.newCall { clazz := call, pre := false, target, args := [], env := some env } id
      return some .unit

/-- True if an effect of the type is installed. That none is installed now does not prove that none
will be, so the answer is either otherwise. -/
def effectExists : Handler := fun g id => do
  let s ← currentStore
  let key ← s.callKey id
  match (g.view.info key.clazz).generics.head? with
  | none => throw (g.malformed key.clazz .noEffectArgument)
  | some effect =>
    let installed ← s.lookupEffect key.env effect
    return some (.bool (if installed.isSome then .true else .any))

end Handler

namespace IntrinsicTable

/-! ### The standard library -/

/-- The integer types. -/
def integerTypes : List String := ["i8", "i16", "i32", "i64", "u8", "u16", "u32", "u64"]

/-- The floating point types. -/
def floatTypes : List String := ["f32", "f64"]

/-- The operators of integers that yield integers. -/
def integerOperators : List String :=
  ["prefix -°", "infix -°", "infix +°", "infix *°", "div", "mod", "infix <<", "infix >>", "infix &",
    "infix |", "infix ^"]

/-- The operators of floating point numbers that yield such numbers. -/
def floatOperators : List String :=
  ["prefix -", "infix +", "infix -", "infix *", "infix /", "infix %", "infix **"]

/-- The comparisons of numbers. -/
def comparisons : List String :=
  ["infix ==", "infix !=", "infix >", "infix >=", "infix <", "infix <="]

/-- The functions and constants of floating point types. -/
def floatFunctions : List String :=
  ["minExp", "maxExp", "minPositive", "max", "epsilon", "squareRoot", "exp", "log", "sin", "cos",
    "tan", "asin", "acos", "atan", "atan2", "sinh", "cosh", "tanh"]

/-- The conversions between numbers. -/
def conversions : List String :=
  ["i8.as_i32", "i16.as_i32", "i32.as_i64", "i32.as_f64", "i64.as_f64", "u8.as_i32", "u16.as_i32",
    "u32.as_i64", "u32.as_f64", "u64.as_f64", "i8.castTo_u8", "i16.castTo_u16", "i32.castTo_u32",
    "i64.castTo_u64", "u8.castTo_i8", "u16.castTo_i16", "u32.castTo_i32", "u32.castTo_f32",
    "u64.castTo_i64", "u64.castTo_f64", "u16.low8bits", "u32.low8bits", "u64.low8bits",
    "u32.low16bits", "u64.low16bits", "u64.low32bits", "f32.as_f64", "f64.as_f32",
    "f64.as_i64_lax", "f32.castTo_u32", "f64.castTo_u64"]

/-- The intrinsics that are known to have no meaning. -/
def unsupported : List String :=
  ["safety", "debug", "debugLevel", "fuzion.std.args.count", "fuzion.std.args.get",
    "fuzion.std.out.flush", "fuzion.std.err.flush", "fuzion.stdin.nextByte", "f32.asString",
    "f64.asString", "Object.hashCode", "Object.asString", "fuzion.sys.env_vars.has0",
    "fuzion.sys.env_vars.get0", "fuzion.sys.thread.spawn0", "fuzion.std.nano_sleep",
    "fuzion.std.nano_time"]

/-- One meaning for a member of each of the types. -/
def members (types : List String) (dot : String) (names : List String) (meaning : Handler) :
    List (String × Intrinsic) :=
  types.flatMap fun type => names.map fun name => (type ++ dot ++ name, .handler meaning)

/-- The intrinsics that have a meaning of their own. -/
def individual : List (String × Handler) :=
  [("fuzion.std.exit", Handler.exit), ("fuzion.std.out.write", Handler.unit),
    ("fuzion.std.err.write", Handler.unit), ("fuzion.sys.array.alloc", Handler.arrayAlloc),
    ("fuzion.sys.array.setel", Handler.arraySetel), ("fuzion.sys.array.get", Handler.arrayGet),
    ("effect.default", Handler.effectDefault), ("effect.replace", Handler.effectReplace),
    ("effect.abortable", Handler.effectAbortable), ("effect.abort", Handler.exit),
    ("effects.exists", Handler.effectExists)]

/-- All intrinsics of the standard library. -/
def standardEntries : List (String × Intrinsic) :=
  members integerTypes "." integerOperators .anyResult ++
    members integerTypes "." comparisons .anyBool ++
    members floatTypes "." floatOperators .anyResult ++
    members floatTypes "." comparisons .anyBool ++
    members floatTypes "s." floatFunctions .anyResult ++
    members floatTypes "s." ["isNaN"] .anyBool ++
    conversions.map (fun name => (name, .handler .anyResult)) ++
    individual.map (fun (name, meaning) => (name, .handler meaning)) ++
    unsupported.map (fun name => (name, .unsupported))

/-- The table of the standard library. -/
def standard : IntrinsicTable :=
  standardEntries.foldl (fun table (name, intrinsic) => table.insert name intrinsic) .empty

/-- The names of the intrinsics that have a meaning, in order. -/
def supported (table : IntrinsicTable) : List String :=
  table.entries.filterMap fun (name, intrinsic) =>
    match intrinsic with
    | .handler _ => some name
    | .unsupported => none

/-- The names in the table, quoted, as a set. -/
def text (table : IntrinsicTable) : String :=
  "\x7b" ++ String.intercalate ", " (table.keys.map Quoted.encode) ++ "\x7d"

end IntrinsicTable

end ClosedWorld
