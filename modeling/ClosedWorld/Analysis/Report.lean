import ClosedWorld.Analysis.Basic

/-!
# Reports

The state in which an analysis comes to rest answers what later phases of a compiler ask: which
clazzes are instantiated, which routines are called with which values, where a dynamic access can
go, and why a call is reachable.

## Main definitions

* `Report` and its queries.
* `Report.text`: the report in full.
-/

namespace ClosedWorld

/-- The outcome of an analysis of a program. -/
structure Report where
  view : View
  analysis : Analysis
  deriving DecidableEq, Repr

namespace Report

variable (r : Report)

/-- What has been discovered. -/
def store : Store := r.analysis.store

/-- The call of the clazz to start with. -/
def main : CallId := r.analysis.main.getD ⟨0⟩

/-! ### Instances -/

/-- The clazzes of which there are instances, in ascending order. -/
def instantiated : List ClazzId :=
  Ascending.ofList (r.store.instances.keys.map InstanceKey.clazz)

/-- The join of what a field holds in all instances of a clazz, if one of them has it set. -/
def fieldOf (clazz field : ClazzId) : Option Value :=
  let held := r.store.instances.entries.filterMap fun (key, fields) =>
    if key.clazz = clazz then fields.find? field else none
  match held with
  | [] => none
  | v :: rest => some (rest.foldl Value.join v)

/-! ### Calls -/

/-- The calls of the body of a clazz. -/
def callContexts (clazz : ClazzId) : List CallId :=
  r.store.calls.toList.filterMap fun (id, key, _) =>
    if key.clazz = clazz ∧ key.pre = false then some id else none

/-- The body of the clazz is called. -/
def isCalled (clazz : ClazzId) : Bool := !(r.callContexts clazz).isEmpty

/-- The clazzes that are called, in ascending order. -/
def reachable : List ClazzId := Ascending.ofList (r.store.calls.keys.map CallKey.clazz)

/-- The clazzes to which the dynamic access at a site was resolved. -/
def resolvedTargets (site : Site) : Option (List ClazzId) := r.analysis.dispatch.find? site

/-- The one clazz to which a dynamic access was resolved, if there is exactly one. -/
def monomorphicTarget (site : Site) : Option ClazzId :=
  match r.resolvedTargets site with
  | some [clazz] => some clazz
  | _ => none

/-- The calls that appear in the call graph, in ascending order. -/
def nodes : List CallId :=
  Ascending.ofList (r.store.calls.ids ++ r.analysis.edges.flatMap fun e => [e.caller, e.callee])

/-- The calls that discovered a call, in ascending order. -/
def callers (call : CallId) : List CallId :=
  r.analysis.edges.filterMap fun e => if e.callee = call then some e.caller else none

/-- Follows the first discoveries from `call` back, as long as they lead to calls that are not in
`chain` yet and to known ones. -/
def discoveries (s : Store) : (steps : Nat) → (call : CallId) → (chain : List CallId) → List CallId
  | 0, _, chain => chain
  | steps + 1, call, chain =>
    match (s.calls.state? call).bind CallState.origin with
    | none => chain
    | some origin =>
      if origin ∈ chain then chain else discoveries s steps origin (origin :: chain)

/-- The chain of calls by which a call was first discovered, from the first one down to the call
itself. Each step but the last looks at another call of the table. -/
def why (call : CallId) : List CallId :=
  discoveries r.store (r.store.calls.size + 1) call [call]

/-! ### Findings -/

/-- The findings that are errors. -/
def errors : List Diagnostic := r.analysis.diagnostics.filter Diagnostic.isError

/-! ### Text -/

/-- The lines about one instance. -/
def instanceLines (id : InstanceId) (key : InstanceKey) (fields : Fields) : List String :=
  ("  " ++ id.text ++ " " ++ r.view.name key.clazz ++
      key.context.elim "" fun c => " in " ++ r.view.name c) ::
    fields.entries.map fun (field, value) => "    " ++ r.view.name field ++ " = " ++ value.text

/-- The line about one call. -/
def callLine (id : CallId) (key : CallKey) (state : CallState) : String :=
  "  " ++ id.text ++ " " ++ r.view.name key.clazz ++ (if key.pre then " pre" else "") ++ "(" ++
    String.intercalate ", " (key.args.map Value.text) ++ ") on " ++ key.target.text ++
    (key.env.elim "" fun env => " in " ++ env.text) ++
    (if state.returns then "" else " never returns")

/-- The lines of the report. -/
def lines : List String :=
  "instances:" ::
    (r.store.instances.toList.flatMap fun (id, key, fields) => r.instanceLines id key fields) ++
    "calls:" ::
    (r.store.calls.toList.map fun (id, key, state) => r.callLine id key state) ++
    r.analysis.diagnostics.map Diagnostic.text

/-- The report in full. -/
def text : String := String.join (r.lines.map (· ++ "\n"))

end Report

end ClosedWorld
