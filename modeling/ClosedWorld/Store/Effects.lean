import ClosedWorld.Store.Basic

/-!
# Effect environments

An effect environment is a chain of nodes, each of which binds one effect on top of another chain.
Nodes are interned, so installing the same value over the same chain twice gives the same node. The
value of a node starts out as what was installed and grows when the effect is replaced. Where no
node of a chain binds an effect, its default counts.

## Main definitions

* `Store.extendEnv`, `Store.findBinding`, `Store.lookupEffect`.
* `Store.replaceEffect`, `Store.installDefault`.
-/

namespace ClosedWorld

namespace Store

/-- The chain that binds `effect` to `value` on top of `outer`. -/
def extendEnv (outer : Option EnvId) (effect : ClazzId) (value : Value) : Growing EnvId := do
  let s ← get
  match s.envs.idOf? ⟨outer, effect, value⟩ with
  | some id => return id
  | none =>
    set { s with envs := s.envs.push ⟨outer, effect, value⟩ value }
    noteChange (.newBinding effect)
    return s.envs.nextId

/-- The key of a node. -/
def envKey (s : Store) (id : EnvId) : Except Fault EnvKey :=
  match s.envs.key? id with
  | some key => .ok key
  | none => .error (.unknownEnv id)

/-- The innermost of the first `steps` nodes of a chain that binds `effect`. -/
def findWithin (s : Store) (effect : ClazzId) :
    (steps : Nat) → Option EnvId → Except Fault (Option EnvId)
  | _, none => .ok none
  -- More steps than nodes: the chain goes round, so what it has not come by is not in it.
  | 0, some _ => .ok none
  | steps + 1, some id => do
    let key ← s.envKey id
    if key.effect = effect then return some id
    findWithin s effect steps key.outer

/-- The innermost node of a chain that binds `effect`. A chain without repetition has no more nodes
than the table. -/
def findBinding (s : Store) (env : Option EnvId) (effect : ClazzId) :
    Except Fault (Option EnvId) :=
  s.findWithin effect (s.envs.size + 1) env

/-- The effect that is visible in an environment: that of the innermost binding, or the default. -/
def lookupEffect (s : Store) (env : Option EnvId) (effect : ClazzId) :
    Except Fault (Option Value) := do
  match ← s.findBinding env effect with
  | some id => return s.envs.state? id
  | none => return s.defaults.find? effect

/-- Joins `value` into the default of an effect. Yields whether the default has grown. -/
def installDefault (effect : ClazzId) (value : Value) : Growing Bool := do
  let s ← get
  let held := s.defaults.find? effect
  let grown := held.elim value (·.join value)
  if held = some grown then return false
  set { s with defaults := s.defaults.insert effect grown, generation := s.generation + 1 }
  noteChange (.defaultChanged effect)
  return true

/-- Joins `value` into the binding that a lookup finds. -/
def replaceEffect (env : Option EnvId) (effect : ClazzId) (value : Value) : Updating Unit := do
  let s ← get
  match ← s.findBinding env effect with
  | none =>
    if (s.defaults.find? effect).isNone then throw (.noEffectToReplace effect)
    let _ ← installDefault effect value
  | some id =>
    match s.envs.state? id with
    | none => throw (.unknownEnv id)
    | some current =>
      let grown := current.join value
      if grown ≠ current then
        set { s with envs := s.envs.set id grown }
        noteChange (.effectReplaced effect id)

end Store

end ClosedWorld
