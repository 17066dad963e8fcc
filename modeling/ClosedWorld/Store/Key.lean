import ClosedWorld.Value.Order

/-!
# Keys of the store

Whatever an analysis discovers is one of four things, and each is known by a key: an instance by its
clazz and where it is created, a call by what is called with which values, a node of the effect
environment by what it binds on top of what, and a raw array by where it comes from. Two
discoveries with equal keys are one.

## Main definitions

* `InstanceKey`, `CallKey`, `EnvKey`, `ArrayKey`: the keys.
* `CallState`: what is known about a call besides its key.
* `Change`: the ways in which a store grows.
-/

namespace ClosedWorld

/-- The identity of an abstract instance. -/
structure InstanceKey where
  clazz : ClazzId
  /-- The clazz that creates it, where instances are told apart by that. -/
  context : Option ClazzId
  deriving DecidableEq, Repr

/-- The identity of an abstract call. -/
structure CallKey where
  clazz : ClazzId
  /-- The precondition is called rather than the body. -/
  pre : Bool
  target : Value
  args : List Value
  env : Option EnvId
  deriving DecidableEq, Repr

/-- What is known about a call. -/
structure CallState where
  /-- The instance that holds the arguments and the locals. -/
  frame : InstanceId
  /-- Some walk of the code reached its end. -/
  returns : Bool
  /-- The call that discovered this one; the entry point has none. -/
  origin : Option CallId
  deriving DecidableEq, Repr

/-- A node of an effect environment: the effect `effect` is bound to `initial` on top of `outer`. -/
structure EnvKey where
  outer : Option EnvId
  effect : ClazzId
  initial : Value
  deriving DecidableEq, Repr

/-- The identity of an abstract raw array. -/
inductive ArrayKey where
  /-- The call allocates it. -/
  | alloc (call : CallId)
  /-- It holds the bytes of the constant string at that position. -/
  | const (site : Site)
  deriving DecidableEq, Repr

/-- The expanded text of the key. -/
def ArrayKey.expanded : ArrayKey → String
  | alloc call => "Alloc(" ++ call.expanded ++ ")"
  | const site => "Constant(" ++ site.expanded ++ ")"

/-- The ways in which a store grows. -/
inductive Change where
  | newInstance (clazz : ClazzId)
  /-- The value was joined into the field of an instance. -/
  | fieldGrew (field : ClazzId) (id : InstanceId) (value : Value)
  | newArray (key : ArrayKey)
  /-- The value was joined into the elements of an array. -/
  | elementsGrew (id : ArrayId) (value : Value)
  | newBinding (effect : ClazzId)
  | effectReplaced (effect : ClazzId) (env : EnvId)
  | defaultChanged (effect : ClazzId)
  | newCall (clazz : ClazzId)
  | callReturns (id : CallId)
  deriving DecidableEq, Repr

end ClosedWorld
