import ClosedWorld.Program.Draft

/-!
# The prelude

The clazzes that nearly every program needs: the universe, unit, booleans, some kinds of numbers,
raw arrays and constant strings.

## Main definitions

* `Prelude`, `Prelude.install`.
* `Prelude.i32Const`, `Prelude.boolConst`, `Prelude.stringConst`: constants.
-/

namespace ClosedWorld

/-- The basic clazzes. -/
structure Prelude where
  universal : ClazzId
  unit : ClazzId
  falseClazz : ClazzId
  trueClazz : ClazzId
  bool : ClazzId
  i32 : ClazzId
  i64 : ClazzId
  u8 : ClazzId
  f64 : ClazzId
  /-- Raw arrays. -/
  sysArray : ClazzId
  constString : ClazzId
  /-- The array of bytes in a constant string. -/
  stringArray : ClazzId
  internalArray : ClazzId
  stringData : ClazzId
  stringLength : ClazzId
  deriving DecidableEq, Repr

namespace Prelude

/-- A clazz without code. -/
def codelessClazz (name : String) (special : Option Special) : ClazzInfo :=
  { name := some name, kind := .routine, special, needsCode := false }

/-- A clazz of numbers. -/
def numericClazz (kind : NumericKind) : ClazzInfo := codelessClazz kind.name (some (.numeric kind))

/-- Adds the basic clazzes and the layout of constant strings to a draft. -/
def install : StateM Draft Prelude := do
  let universal ← Draft.add (codelessClazz "universe" (some .universal))
  let unit ← Draft.add (codelessClazz "unit" (some .unit))
  let falseClazz ← Draft.add (codelessClazz "FALSE" none)
  let trueClazz ← Draft.add (codelessClazz "TRUE" none)
  let bool ← Draft.add
    { name := some "bool", kind := .choice, special := some .bool,
      generics := [falseClazz, trueClazz], needsCode := false }
  let i32 ← Draft.add (numericClazz .i32)
  let i64 ← Draft.add (numericClazz .i64)
  let u8 ← Draft.add (numericClazz .u8)
  let f64 ← Draft.add (numericClazz .f64)
  let sysArray ← Draft.add (codelessClazz "fuzion.sys.Pointer" none)
  let stringArray ← Draft.declare "array u8"
  let stringData ← Draft.addField stringArray "data" sysArray
  let stringLength ← Draft.addField stringArray "length" i32
  Draft.define stringArray (codelessClazz "array u8" none)
  let constString ← Draft.declare "const_string"
  let internalArray ← Draft.addField constString "internal_array" stringArray
  Draft.define constString (codelessClazz "const_string" (some .constString))
  Draft.setConstString
    { clazz := constString, internalArray, arrayClazz := stringArray, data := stringData,
      length := stringLength, element := u8 }
  return {
    universal, unit, falseClazz, trueClazz, bool, i32, i64, u8, f64, sysArray, constString,
    stringArray, internalArray, stringData, stringLength }

variable (p : Prelude)

/-- The number `n` as a constant. -/
def i32Const (n : Int) : Instr := .const p.i32 (NumericKind.i32.encode (UInt64.ofInt n))

/-- The boolean `b` as a constant. -/
def boolConst (b : Bool) : Instr := .const p.bool [if b then 1 else 0]

/-- A constant string, which consists of bytes. -/
def stringConst (s : String) : Instr := .const p.constString s.toUTF8.toList

end Prelude

end ClosedWorld
