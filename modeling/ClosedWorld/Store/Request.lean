import ClosedWorld.Store.Arrays
import ClosedWorld.Store.Calls
import ClosedWorld.Store.Effects

/-!
# Requests to a store

All that can be done with a store and asked about it, as data. A list of requests is a history of a
store, and the meaning of an intrinsic can be given by requests.

## Main definitions

* `Store.Request`, `Store.Answer`, `Store.Request.perform`.
-/

namespace ClosedWorld

namespace Store

/-- One thing to do with a store or to ask about it. -/
inductive Request where
  | internInstance (clazz : ClazzId) (context : Option ClazzId)
  | instanceKey (id : InstanceId)
  | instanceClazz (id : InstanceId)
  | fields (id : InstanceId)
  | setField (target : Value) (field : ClazzId) (value : Value)
  | readField (target : Value) (field : ClazzId)
  | boxInstance (id : InstanceId) (refClazz : ClazzId)
  | internArray (key : ArrayKey)
  | arraySet (id : ArrayId) (value : Value)
  | arrayGet (id : ArrayId)
  | extendEnv (outer : Option EnvId) (effect : ClazzId) (value : Value)
  | envKey (id : EnvId)
  | lookupEffect (env : Option EnvId) (effect : ClazzId)
  | replaceEffect (env : Option EnvId) (effect : ClazzId) (value : Value)
  | installDefault (effect : ClazzId) (value : Value)
  | defaultEffect (effect : ClazzId)
  | generation
  | internCall (key : CallKey) (context : Option ClazzId) (origin : Option CallId)
  | callKey (id : CallId)
  | callState (id : CallId)
  | markReturns (id : CallId)
  | counts
  | takeChange
  | snapshot
  deriving DecidableEq, Repr

/-- What a store answers. -/
inductive Answer where
  | done
  | ident {space : Space} (id : Ident space)
  | flag (b : Bool)
  | number (n : Nat)
  | value (v : Value)
  | value? (v : Option Value)
  | fields (fields : Fields)
  | instanceKey (key : InstanceKey)
  | callKey (key : CallKey)
  | callState (state : CallState)
  | envKey (key : EnvKey)
  /-- The sizes of the tables. -/
  | counts (instances calls envs arrays : Nat)
  | change? (change : Option Change)
  | store (s : Store)

/-- Does what is requested and answers. -/
def Request.perform : Request → Updating Answer
  | .internInstance clazz context => do return .ident (← Store.internInstance clazz context)
  | .instanceKey id => do return .instanceKey (← (← get).instanceKey id)
  | .instanceClazz id => do return .ident (← (← get).instanceKey id).clazz
  | .fields id => do return .fields (← (← get).fields id)
  | .setField target field value => do
    Store.setField field value target
    return .done
  | .readField target field => do return .value (← (← get).readField field target)
  | .boxInstance id refClazz => do return .ident (← Store.boxInstance id refClazz)
  | .internArray key => do return .ident (← Store.internArray key)
  | .arraySet id value => do
    Store.arraySet id value
    return .done
  | .arrayGet id => do return .value (← (← get).arrayGet id)
  | .extendEnv outer effect value => do return .ident (← Store.extendEnv outer effect value)
  | .envKey id => do return .envKey (← (← get).envKey id)
  | .lookupEffect env effect => do return .value? (← (← get).lookupEffect env effect)
  | .replaceEffect env effect value => do
    Store.replaceEffect env effect value
    return .done
  | .installDefault effect value => do return .flag (← Store.installDefault effect value)
  | .defaultEffect effect => do return .value? ((← get).defaults.find? effect)
  | .generation => do return .number (← get).generation
  | .internCall key context origin => do return .ident (← Store.internCall key context origin)
  | .callKey id => do return .callKey (← (← get).callKey id)
  | .callState id => do return .callState (← (← get).callState id)
  | .markReturns id => do
    Store.markReturns id
    return .done
  | .counts => do
    let s ← get
    return .counts s.instances.size s.calls.size s.envs.size s.arrays.size
  | .takeChange => do return .change? (← Store.takeChange)
  | .snapshot => do return .store (← get)

end Store

end ClosedWorld
