import ClosedWorld.Store.Instances

/-!
# Calls

A call stands for all activations of a clazz with the same target, arguments and environment. Its
frame is an instance of the called clazz, which calls with other arguments share.

## Main definitions

* `Store.internCall`, `Store.callKey`, `Store.callState`, `Store.markReturns`.
-/

namespace ClosedWorld

namespace Store

/-- The call of a key. A new one gets a frame in the given context and remembers the call that
discovered it. -/
def internCall (key : CallKey) (context : Option ClazzId) (origin : Option CallId) :
    Growing CallId := do
  match (← get).calls.idOf? key with
  | some id => return id
  | none =>
    let frame ← internInstance key.clazz context
    let s ← get
    set { s with calls := s.calls.push key ⟨frame, false, origin⟩ }
    noteChange (.newCall key.clazz)
    return s.calls.nextId

/-- The key of a call. -/
def callKey (s : Store) (id : CallId) : Except Fault CallKey :=
  match s.calls.key? id with
  | some key => .ok key
  | none => .error (.unknownCall id)

/-- What is known about a call. -/
def callState (s : Store) (id : CallId) : Except Fault CallState :=
  match s.calls.state? id with
  | some state => .ok state
  | none => .error (.unknownCall id)

/-- Records that a call can return. -/
def markReturns (id : CallId) : Updating Unit := do
  let s ← get
  let state ← s.callState id
  if !state.returns then
    set { s with calls := s.calls.set id { state with returns := true } }
    noteChange (.callReturns id)

end Store

end ClosedWorld
