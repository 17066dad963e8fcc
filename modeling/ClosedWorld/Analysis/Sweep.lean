import ClosedWorld.Analysis.Transfer

/-!
# Sweeps

A sweep analyses each call that is known when it starts. Calls that are discovered meanwhile have to
wait for the next sweep. When a sweep leaves the store as it was, one more sweep is made that
records findings.

## Main definitions

* `Analyzer.seed`: the call of the clazz to start with.
* `Analyzer.analyze`: the analysis of one call.
* `Analyzer.sweep`, `Analyzer.history`: single sweeps.
* `Analyzer.settle`, `Analyzer.run`: sweeps until nothing changes, and findings after that.
-/

namespace ClosedWorld

namespace Analyzer

variable (z : Analyzer)

/-- The call of the clazz to start with: without a target, without arguments and without an
environment. -/
def seed : Analyzing CallId := do
  match (← get).main with
  | some main => return main
  | none =>
    let key : CallKey :=
      { clazz := z.view.main, pre := false, target := .unit, args := [], env := none }
    let main ← onStore (Store.internCall key none none)
    modify fun a => { a with main := some main }
    return main

/-- Joins the arguments of a call into the fields for them. -/
def passArguments (frame : Value) : List (ClazzId × Value) → Updating Unit
  | [] => return ()
  | (field, value) :: rest => do
    Store.setField field value frame
    passArguments frame rest

/-- Analyses one call: passes its arguments and its target to its frame and walks its code. Fields
and intrinsics have no code of their own. -/
def analyze (id : CallId) : Analyzing Unit := do
  let key ← (← currentStore).callKey id
  let info := z.view.info key.clazz
  if key.pre || info.kind = .routine then
    if info.args.length ≠ key.args.length then
      throw (.arityMismatch (z.view.name key.clazz) info.args.length key.args.length)
    let state ← (← currentStore).callState id
    let act : Activation := ⟨id, key, state.frame⟩
    onStore (passArguments act.current (info.args.zip key.args))
    if let some outerRef := info.outerRef then
      onStore (Store.setField outerRef key.target act.current)
    let step ← walkClazz z.view (z.processor act) key.clazz key.pre
    if step.value.isSome then onStore (Store.markReturns id)

/-- Analyses calls in order. -/
def analyzeAll : List CallId → Analyzing Unit
  | [] => return ()
  | id :: rest => do
    z.analyze id
    analyzeAll rest

/-- Analyses all calls that are known now, and yields the first change, if there was any. -/
def sweep : Analyzing (Option Change) := do
  let _ ← z.seed
  modify fun a => { a with iterations := a.iterations + 1 }
  z.analyzeAll (← currentStore).calls.ids
  onStore Store.takeChange

/-- At most `count` sweeps, up to the first that fails or changes nothing. Yields for each whether
it changed something, and the state after it. -/
def history : (count : Nat) → Analysis → List (Except Fault Bool × Analysis)
  | 0, _ => []
  | count + 1, a =>
    match z.sweep.outcome a with
    | (.error fault, a') => [(.error fault, a')]
    | (.ok none, a') => [(.ok false, a')]
    | (.ok (some _), a') => (.ok true, a') :: history count a'

/-- At most `patience` sweeps, up to the first that changes nothing. Yields whether there was such
a sweep. -/
def settle : (patience : Nat) → Analyzing Bool
  | 0 => return false
  | patience + 1 => do
    let sweeps := (← get).iterations
    match z.config.maxIterations.filter (· ≤ sweeps) with
    | some limit => throw (.iterationLimit limit)
    | none =>
      match ← z.sweep with
      | none => return true
      | some _ => settle patience

/-- The sweep that records findings. It must not change anything, and it is not counted. -/
def report : Analyzing Unit := do
  let iterations := (← get).iterations
  modify fun a => { a with reporting := true }
  match ← z.sweep with
  | some change => throw (.reportingChanged change)
  | none => modify fun a => { a with iterations }

/-- Sweeps until nothing changes and records findings. Yields nothing if `patience` sweeps, or as
many as the configuration allows, are not enough to tell how the analysis ends. -/
def run (patience : Nat) (a : Analysis) : Option (Except Fault Analysis) :=
  match (z.settle (z.config.maxIterations.elim patience (· + 1))).outcome a with
  | (.error fault, _) => some (.error fault)
  | (.ok false, _) => none
  | (.ok true, settled) =>
    match z.report.outcome settled with
    | (.error fault, _) => some (.error fault)
    | (.ok (), reported) => some (.ok reported)

end Analyzer

end ClosedWorld
