import ClosedWorld.Analysis.Diagnostic
import ClosedWorld.Store.Arrays
import ClosedWorld.Store.Calls
import ClosedWorld.Store.Effects

/-!
# Analyses under way

An analysis is about a program, under a configuration, and has a state: the store, and besides it
what it has learned about the call graph and what it has found. Only the store decides how an
analysis goes on.

## Main definitions

* `Config`, `Setting`: what an analysis is about.
* `Analysis`: its state.
* `Analyzing`: steps of an analysis.
* `Setting.newCall`, `diagnose`, `recordDispatch`: the elementary steps.
-/

namespace ClosedWorld

/-- How abstract instances are told apart. -/
inductive InstanceContext where
  /-- One instance for each clazz. -/
  | clazz
  /-- One instance for each clazz and each clazz whose calls create it. -/
  | creatingClazz
  deriving DecidableEq, Repr

/-- How to analyse. -/
structure Config where
  /-- Give up if nothing comes to rest within so many sweeps. -/
  maxIterations : Option Nat := none
  instanceContext : InstanceContext := .clazz
  /-- Report calls of intrinsics without a meaning. -/
  reportIntrinsics : Bool := true
  deriving DecidableEq, Repr

/-- What an analysis is about. -/
structure Setting where
  view : View
  config : Config := {}
  deriving DecidableEq, Repr

/-- One call discovers another. -/
structure Edge where
  caller : CallId
  callee : CallId
  deriving DecidableEq, Repr

namespace Edge

/-- The numbers by which edges are ordered. -/
def sortKey (e : Edge) : List Nat := [e.caller.index, e.callee.index]

/-- The `sortKey` of an edge tells it apart from all others, so edges of equal rank are equal. -/
theorem eq_of_sortKey_eq (e f : Edge) (h : e.sortKey = f.sortKey) : e = f := by
  obtain ⟨⟨_⟩, ⟨_⟩⟩ := e
  obtain ⟨⟨_⟩, ⟨_⟩⟩ := f
  simp_all [sortKey]

instance : Ord Edge := ⟨compareOn sortKey⟩

instance : Std.TransOrd Edge := inferInstanceAs (Std.TransCmp (compareOn sortKey))

instance : Std.LawfulEqOrd Edge := lawfulEqCmp_compareOn eq_of_sortKey_eq

end Edge

/-- The state of an analysis. -/
structure Analysis where
  store : Store := {}
  /-- Findings are recorded. -/
  reporting : Bool := false
  /-- The findings so far, each once. -/
  diagnostics : List Diagnostic := []
  /-- The clazzes that dynamic accesses have been resolved to. -/
  dispatch : OrderedMap Site (List ClazzId) := {}
  /-- The call graph, in ascending order. -/
  edges : List Edge := []
  /-- The call of the clazz to start with. -/
  main : Option CallId := none
  /-- The number of sweeps. -/
  iterations : Nat := 0
  deriving DecidableEq, Repr

instance : Inhabited Analysis := ⟨{}⟩

/-- A step of an analysis. -/
abbrev Analyzing (α : Type) := Attempt Fault Analysis α

/-- A step on the store as a step of an analysis. -/
def onStore {α : Type} (step : Updating α) : Analyzing α :=
  Attempt.within Analysis.store (fun a store => { a with store }) step

/-- The store as it is now. -/
def currentStore : Analyzing Store := do return (← get).store

/-- Records a finding, if findings are recorded and it is a new one. -/
def diagnose (d : Diagnostic) : Analyzing Unit :=
  modify fun a =>
    if a.reporting && d ∉ a.diagnostics then { a with diagnostics := a.diagnostics ++ [d] } else a

/-- Records that a dynamic access may run a clazz. -/
def recordDispatch (site : Site) (clazz : ClazzId) : Analyzing Unit :=
  modify fun a =>
    let targets := (a.dispatch.find? site).getD []
    { a with dispatch := a.dispatch.insert site (Ascending.insert clazz targets) }

namespace Setting

variable (g : Setting)

/-- The fault of a clazz that lacks something. -/
def malformed (clazz : ClazzId) (problem : Shortcoming) : Fault :=
  .malformedClazz (g.view.name clazz) problem

/-- The context of instances that a call of the clazz creates. -/
def contextOf (creator : ClazzId) : Option ClazzId :=
  match g.config.instanceContext with
  | .clazz => none
  | .creatingClazz => some creator

/-- The call of a key, discovered by another call. -/
def newCall (key : CallKey) (origin : CallId) : Analyzing CallId := do
  let creator ← (← currentStore).callKey origin
  let id ← onStore (Store.internCall key (g.contextOf creator.clazz) (some origin))
  modify fun a => { a with edges := Ascending.insert ⟨origin, id⟩ a.edges }
  return id

/-- Any number of a numeric clazz. -/
def anyNumber (clazz : ClazzId) : Except Fault Number :=
  match (g.view.info clazz).special with
  | some (.numeric kind) => .ok (.any clazz kind)
  | _ => .error (g.malformed clazz .notNumeric)

/-- The clazz of an atom, if it has one. -/
def clazzOf? (s : Store) : (atom : Value) → Except Fault (Option ClazzId)
  | .object id => do return some (← s.instanceKey id).clazz
  | .number n => return some n.clazz
  | .boxed _ _ refClazz => return some refClazz
  | .tagged _ choice _ => return some choice
  | .unit => return g.view.specialClazz? .unit
  | .bool _ => return g.view.specialClazz? .bool
  | _ => return none

/-- The argument number `index` of a call of `clazz`. -/
def argument (clazz : ClazzId) (args : List Value) (index : Nat) : Except Fault Value :=
  match args[index]? with
  | some v => .ok v
  | none => .error (.arityMismatch (g.view.name clazz) (index + 1) args.length)

end Setting

end ClosedWorld
