import ClosedWorld.Sample.Dispatch

/-!
# Samples about effects

Effects that are defaults, that are installed around a call, replaced, tested for and missing.

## Main definitions

* `Sample.effects`, `Sample.missingEffect`, `Sample.effectControl`, `Sample.replaceWithoutEffect`.
-/

namespace ClosedWorld

namespace Sample

/-- Adds a function clazz `Fun`, whose routine `Fun.call` is declared already. -/
def defineFunction (fn routine : ClazzId) : StateM Draft Unit := do
  let body ← Draft.addCode []
  Draft.define fn
    { kind := .routine, result := some fn, code := some body, isRef := true, call := some routine }

/-- Defines the routine of a function clazz. -/
def defineFunctionCall (fn routine : ClazzId) (body : CodeId) : StateM Draft Unit :=
  Draft.define routine { kind := .routine, outer := some fn, code := some body }

/-- Adds the operation that calls a function with an effect installed. -/
def addAbortable (effect fn : ClazzId) : StateM Draft ClazzId := do
  let abortable ← Draft.declare "Logger.abortable"
  let f ← Draft.addField abortable "f" fn
  Draft.define abortable
    { kind := .intrinsic, intrinsic := some "effect.abortable", outer := some effect,
      effectType := some effect, generics := [fn], args := [f] }
  return abortable

/-- One logger is the default, another one is installed around a call.
```text
Quiet.default
outside := Logger.env
Loud.abortable Fun    # Fun.call: seen := Logger.env
``` -/
def effects : Sample := ofDraft do
  let _ ← Prelude.install
  let logger ← addRefType "Logger"
  let quiet ← addConstructor "Quiet"
  let loud ← addConstructor "Loud"
  let fn ← Draft.declare "Fun"
  let fnCall ← Draft.declare "Fun.call"
  let inside ← Draft.addField fnCall "seen" logger
  let fnBody ← Draft.addCode [.current, .env logger, assignTo inside]
  defineFunctionCall fn fnCall fnBody
  defineFunction fn fnCall
  let makeDefault ← addEffectOperation logger "default" "effect.default"
  let abortable ← addAbortable logger fn
  let main ← Draft.declare "main"
  let outside ← Draft.addField main "outside" logger
  let body ← Draft.addCode
    [.current, callOf quiet, callOf makeDefault, .pop,
      .current, .env logger, assignTo outside,
      .current, callOf loud, .current, callOf fn, callOf abortable, .pop]
  defineMain main body
  return clazzLabels
    [("main", main), ("logger", logger), ("quiet", quiet), ("loud", loud), ("fun_call", fnCall),
      ("inside", inside), ("outside", outside)]

/-- Reads an effect that nobody has installed. -/
def missingEffect : Sample := ofDraft do
  let _ ← Prelude.install
  let logger ← Draft.add { name := some "Logger", kind := .routine }
  let main ← Draft.declare "main"
  let body ← Draft.addCode [.env logger, .pop]
  defineMain main body
  return failureLabels main body 0

/-- All that can be done with an effect.
```text
before := effects.exists Logger
Quiet.default
after := effects.exists Logger
Loud.replace
seen := Logger.env
Loud.abortable Fun    # Fun.call: found := effects.exists Logger; Logger.abort; unreached := 1
``` -/
def effectControl : Sample := ofDraft do
  let p ← Prelude.install
  let logger ← addRefType "Logger"
  let quiet ← addConstructor "Quiet"
  let loud ← addConstructor "Loud"
  let makeDefault ← addEffectOperation logger "default" "effect.default"
  let replace ← addEffectOperation logger "replace" "effect.replace"
  let abort ← addEffectOperation logger "abort" "effect.abort"
  let tested ← Draft.add
    { name := some "effects.exists", kind := .intrinsic, intrinsic := some "effects.exists",
      result := some p.bool, generics := [logger] }
  let fn ← Draft.declare "Fun"
  let fnCall ← Draft.declare "Fun.call"
  let found ← Draft.addField fnCall "found" p.bool
  let unreached ← Draft.addField fnCall "unreached" p.i32
  let fnBody ← Draft.addCode
    [.current, .current, callOf tested, assignTo found, .current, callOf abort, .pop, .current,
      p.i32Const 1, assignTo unreached]
  defineFunctionCall fn fnCall fnBody
  defineFunction fn fnCall
  let abortable ← addAbortable logger fn
  let main ← Draft.declare "main"
  let before ← Draft.addField main "before" p.bool
  let after ← Draft.addField main "after" p.bool
  let seen ← Draft.addField main "seen" logger
  let body ← Draft.addCode
    [.current, .current, callOf tested, assignTo before,
      .current, callOf quiet, callOf makeDefault, .pop,
      .current, .current, callOf tested, assignTo after,
      .current, callOf loud, callOf replace, .pop,
      .current, .env logger, assignTo seen,
      .current, callOf loud, .current, callOf fn, callOf abortable, .pop]
  defineMain main body
  return clazzLabels
    [("main", main), ("exists", tested), ("replace", replace), ("abort", abort), ("quiet", quiet),
      ("loud", loud), ("fun_call", fnCall), ("before", before), ("after", after), ("seen", seen),
      ("found", found), ("unreached", unreached)]

/-- Replaces an effect that is neither installed nor a default. -/
def replaceWithoutEffect : Sample := ofDraft do
  let _ ← Prelude.install
  let logger ← addRefType "Logger"
  let quiet ← addConstructor "Quiet"
  let replace ← addEffectOperation logger "replace" "effect.replace"
  let main ← Draft.declare "main"
  let body ← Draft.addCode [.current, callOf quiet, callOf replace, .pop]
  defineMain main body
  return failureLabels main body 2

end Sample

end ClosedWorld
