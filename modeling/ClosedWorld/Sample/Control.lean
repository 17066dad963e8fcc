import ClosedWorld.Sample.Basic

/-!
# Samples about control and data

Choices, conditionals, intrinsics, calls that do not return, contracts and arrays.

## Main definitions

* `Sample.choice`, `Sample.conditional`, `Sample.contractViolation`.
* `Sample.intrinsics`, `Sample.exit`, `Sample.arrays`.
-/

namespace ClosedWorld

namespace Sample

/-- A choice that is tagged in the code, and one that is tagged on assignment.
```text
o Opt := tag 0 7
match o
  v i32 => got := v
  unit  => other := 0
o2 Opt := 3
``` -/
def choice : Sample := ofDraft do
  let p ← Prelude.install
  let opt ← Draft.add
    { name := some "Opt", kind := .choice, generics := [p.i32, p.unit], needsCode := false }
  let main ← Draft.declare "main"
  let o ← Draft.addField main "o" opt
  let o2 ← Draft.addField main "o2" opt
  let v ← Draft.addField main "v" p.i32
  let got ← Draft.addField main "got" p.i32
  let other ← Draft.addField main "other" p.i32
  let someCode ← Draft.addCode (.current :: readOf v ++ [assignTo got])
  let noneCode ← Draft.addCode [.current, p.i32Const 0, assignTo other]
  let body ← Draft.addCode
    ([.current, p.i32Const 7, .tag p.i32 opt 0, assignTo o] ++ readOf o ++
      [.select ⟨opt, [⟨[0], some v, someCode⟩, ⟨[1], none, noneCode⟩]⟩,
        .current, p.i32Const 3, assignTo o2])
  defineMain main body
  return clazzLabels
    [("main", main), ("opt", opt), ("o", o), ("o2", o2), ("got", got), ("other", other)]

/-- A condition that is known and one that is not.
```text
if true then x := 1 else y := 2
if 1 = 2 then p := 3 else q := 4
``` -/
def conditional : Sample := ofDraft do
  let pre ← Prelude.install
  let eq ← Draft.declare "i32.infix =="
  let other ← Draft.addField eq "other" pre.i32
  Draft.define eq
    { kind := .intrinsic, intrinsic := some "i32.infix ==", outer := some pre.i32,
      result := some pre.bool, args := [other] }
  let main ← Draft.declare "main"
  let x ← Draft.addField main "x" pre.i32
  let y ← Draft.addField main "y" pre.i32
  let p ← Draft.addField main "p" pre.i32
  let q ← Draft.addField main "q" pre.i32
  let branch (field : ClazzId) (value : Int) : StateM Draft CodeId :=
    Draft.addCode [.current, pre.i32Const value, assignTo field]
  let thenX ← branch x 1
  let elseY ← branch y 2
  let thenP ← branch p 3
  let elseQ ← branch q 4
  let body ← Draft.addCode
    [pre.boolConst true, .cond thenX elseY,
      pre.i32Const 1, pre.i32Const 2, callOf eq, .cond thenP elseQ]
  defineMain main body
  return clazzLabels [("main", main), ("x", x), ("y", y), ("p", p), ("q", q)]

/-- Intrinsics without a meaning, one of which is called in two contexts.
```text
t1 := nano_time; t2 := nano_time
r := helper 1; r := helper 2    # helper x := mystery.op x
``` -/
def intrinsics : Sample := ofDraft do
  let p ← Prelude.install
  let nanoTime ← Draft.add (intrinsicClazz "fuzion.std.nano_time" (some p.i64) [])
  let mystery ← Draft.declare "mystery.op"
  let mysteryX ← Draft.addField mystery "x" p.i32
  Draft.define mystery (intrinsicClazz "mystery.op" (some p.i32) [mysteryX])
  let helper ← Draft.declare "helper"
  let helperX ← Draft.addField helper "x" p.i32
  let result ← Draft.addField helper "result" p.i32
  let helperBody ← Draft.addCode
    [.current, .current, .arg 0, callOf mystery, assignTo result]
  Draft.define helper
    { name := some "helper", kind := .routine, result := some p.i32, resultField := some result,
      args := [helperX], code := some helperBody }
  let main ← Draft.declare "main"
  let t1 ← Draft.addField main "t1" p.i64
  let t2 ← Draft.addField main "t2" p.i64
  let r ← Draft.addField main "r" p.i32
  let body ← Draft.addCode
    (([t1, t2].flatMap fun t => [.current, .current, callOf nanoTime, assignTo t]) ++
      ([1, 2].flatMap fun x => [.current, .current, p.i32Const x, callOf helper, assignTo r]))
  defineMain main body
  return clazzLabels
    [("main", main), ("nano_time", nanoTime), ("mystery", mystery), ("t1", t1), ("t2", t2),
      ("r", r)]

/-- A call that does not return.
```text
before := 1; exit; after := 2
``` -/
def exit : Sample := ofDraft do
  let p ← Prelude.install
  let exit ← Draft.add (intrinsicClazz "fuzion.std.exit" none [])
  let main ← Draft.declare "main"
  let before ← Draft.addField main "before" p.i32
  let after ← Draft.addField main "after" p.i32
  let body ← Draft.addCode
    [.current, p.i32Const 1, assignTo before, .current, callOf exit, .pop, .current, p.i32Const 2,
      assignTo after]
  defineMain main body
  return clazzLabels [("main", main), ("exit", exit), ("before", before), ("after", after)]

/-- A precondition that never holds.
```text
checked pre false is
checked; reached := 1
``` -/
def contractViolation : Sample := ofDraft do
  let p ← Prelude.install
  let pre ← Draft.addCode [p.boolConst false, .contract .pre]
  let checkedBody ← Draft.addCode []
  let checked ← Draft.add
    { name := some "checked", kind := .routine, code := some checkedBody, preconditions := [pre] }
  let main ← Draft.declare "main"
  let reached ← Draft.addField main "reached" p.i32
  let body ← Draft.addCode
    [.current, callOf checked, .pop, .current, p.i32Const 1, assignTo reached]
  defineMain main body
  return [("main", .clazz main), ("checked", .clazz checked), ("pre", .code pre),
    ("reached", .clazz reached)]

/-- A raw array and a constant string.
```text
arr := alloc 4; arr[0] := 9; x := arr[0]
s := "hi"
``` -/
def arrays : Sample := ofDraft do
  let p ← Prelude.install
  let alloc ← Draft.declare "fuzion.sys.array.alloc"
  let count ← Draft.addField alloc "count" p.i32
  Draft.define alloc (intrinsicClazz "fuzion.sys.array.alloc" (some p.sysArray) [count])
  let setel ← Draft.declare "fuzion.sys.array.setel"
  let setelData ← Draft.addField setel "data" p.sysArray
  let setelIndex ← Draft.addField setel "index" p.i32
  let setelValue ← Draft.addField setel "value" p.i32
  Draft.define setel
    (intrinsicClazz "fuzion.sys.array.setel" none [setelData, setelIndex, setelValue])
  let getel ← Draft.declare "fuzion.sys.array.get"
  let getelData ← Draft.addField getel "data" p.sysArray
  let getelIndex ← Draft.addField getel "index" p.i32
  Draft.define getel (intrinsicClazz "fuzion.sys.array.get" (some p.i32) [getelData, getelIndex])
  let main ← Draft.declare "main"
  let arr ← Draft.addField main "arr" p.sysArray
  let x ← Draft.addField main "x" p.i32
  let s ← Draft.addField main "s" p.constString
  let body ← Draft.addCode
    ([.current, .current, p.i32Const 4, callOf alloc, assignTo arr, .current] ++ readOf arr ++
      [p.i32Const 0, p.i32Const 9, callOf setel, .pop, .current, .current] ++ readOf arr ++
      [p.i32Const 0, callOf getel, assignTo x, .current, p.stringConst "hi", assignTo s])
  defineMain main body
  return clazzLabels [("main", main), ("arr", arr), ("x", x), ("s", s)]

end Sample

end ClosedWorld
