import ClosedWorld.Store.Arrays
import ClosedWorld.Store.Calls
import ClosedWorld.Store.Effects
import ClosedWorld.Proofs.Tables

/-!
# What an operation can do to a store

A store changes in nine elementary ways: an entry is added to one of the four tables, or a field,
the elements of an array, a binding, a default or the mark of a call is replaced. Each way also
notes that it happened. An operation on a store either leaves it as it is or makes such changes, and
this module says for every operation which, and under which circumstances. Whatever is to be shown
of all operations is shown of the elementary changes.

## Main definitions

* `Store.addInstance`, `Store.putField` and the others: the elementary changes.

## Main statements

* `Store.joinField_cases` and the others: what an operation does, with its result.
-/

namespace ClosedWorld

/-- What is held after a value has been joined to it; what was not held yet is the value. -/
def Value.joinedTo (held : Option Value) (value : Value) : Value := held.elim value (·.join value)

namespace Store

/-! ### Elementary changes -/

/-- The store that remembers the change, unless it remembers an earlier one. -/
def noting (s : Store) (change : Change) : Store := { s with change := s.change.or (some change) }

/-- After `noting` there is a change, since the first one is kept and no later one erases it. -/
theorem change_noting_ne_none (s : Store) (change : Change) : (s.noting change).change ≠ none := by
  cases h : s.change <;> simp [noting, h]

/-- The store in which no change is noted. -/
def unnoted (s : Store) : Store := { s with change := none }

/-- A store that notes no change is its own `unnoted` store. -/
theorem unnoted_of_change_eq_none {s : Store} (h : s.change = none) : s.unnoted = s := by
  unfold unnoted
  rw [← h]

/-- The store with a new instance. -/
def addInstance (s : Store) (key : InstanceKey) : Store :=
  { s with instances := s.instances.push key .empty }.noting (.newInstance key.clazz)

/-- The store in which a field, after `value` was joined to it, holds `grown`. -/
def putField (s : Store) (id : InstanceId) (field : ClazzId) (fields : Fields)
    (grown value : Value) : Store :=
  { s with instances := s.instances.set id (fields.insert field grown) }.noting
    (.fieldGrew field id value)

/-- The store with a new array. -/
def addArray (s : Store) (key : ArrayKey) : Store :=
  { s with arrays := s.arrays.push key .noValue }.noting (.newArray key)

/-- The store in which the elements of an array, after `value` was joined to them, are `grown`. -/
def putElements (s : Store) (id : ArrayId) (grown value : Value) : Store :=
  { s with arrays := s.arrays.set id grown }.noting (.elementsGrew id value)

/-- The store with a new binding. -/
def addBinding (s : Store) (key : EnvKey) : Store :=
  { s with envs := s.envs.push key key.initial }.noting (.newBinding key.effect)

/-- The store in which an effect is bound to `grown`. -/
def putBinding (s : Store) (id : EnvId) (effect : ClazzId) (grown : Value) : Store :=
  { s with envs := s.envs.set id grown }.noting (.effectReplaced effect id)

/-- The store in which the default of an effect is `grown`. -/
def putDefault (s : Store) (effect : ClazzId) (grown : Value) : Store :=
  { s with defaults := s.defaults.insert effect grown, generation := s.generation + 1 }.noting
    (.defaultChanged effect)

/-- The store with a new call. -/
def addCall (s : Store) (key : CallKey) (frame : InstanceId) (origin : Option CallId) : Store :=
  { s with calls := s.calls.push key ⟨frame, false, origin⟩ }.noting (.newCall key.clazz)

/-- The store in which a call is marked as returning. -/
def putReturns (s : Store) (id : CallId) (state : CallState) : Store :=
  { s with calls := s.calls.set id { state with returns := true } }.noting (.callReturns id)

/-! ### Lookups -/

variable (s : Store)

/-- Asking for the key of an instance: there it is, or the fault is `unknownInstance`. -/
theorem instanceKey_cases (id : InstanceId) :
    (∃ key, s.instances.key? id = some key ∧ s.instanceKey id = .ok key) ∨
      s.instances.key? id = none ∧ s.instanceKey id = .error (.unknownInstance id) := by
  unfold instanceKey
  cases s.instances.key? id <;> simp

/-- Asking for the fields of an instance: there they are, or the fault is `unknownInstance`. -/
theorem fields_cases (id : InstanceId) :
    (∃ fields, s.instances.state? id = some fields ∧ s.fields id = .ok fields) ∨
      s.instances.state? id = none ∧ s.fields id = .error (.unknownInstance id) := by
  unfold fields
  cases s.instances.state? id <;> simp

/-- The fields that `fields` answers are those in the table. -/
theorem state?_of_fields {s : Store} {id : InstanceId} {fields : Fields}
    (h : s.fields id = .ok fields) : s.instances.state? id = some fields := by
  obtain ⟨_, held, found⟩ | ⟨-, failed⟩ := s.fields_cases id
  · cases h.symm.trans found
    exact held
  · cases h.symm.trans failed

/-- Asking for the elements of an array: there they are, or the fault is `unknownArray`. -/
theorem elements_cases (id : ArrayId) :
    (∃ elements, s.arrays.state? id = some elements ∧ s.elements id = .ok elements) ∨
      s.arrays.state? id = none ∧ s.elements id = .error (.unknownArray id) := by
  unfold elements
  cases s.arrays.state? id <;> simp

/-- Asking for the key of a node: there it is, or the fault is `unknownEnv`. -/
theorem envKey_cases (id : EnvId) :
    (∃ key, s.envs.key? id = some key ∧ s.envKey id = .ok key) ∨
      s.envs.key? id = none ∧ s.envKey id = .error (.unknownEnv id) := by
  unfold envKey
  cases s.envs.key? id <;> simp

/-- One step of the search for an effect, at a node that the store has. -/
theorem findWithin_succ {s : Store} {id : EnvId} {key : EnvKey} (known : s.envs.key? id = some key)
    (effect : ClazzId) (steps : Nat) :
    s.findWithin effect (steps + 1) (some id) =
      if key.effect = effect then .ok (some id) else s.findWithin effect steps key.outer := by
  obtain ⟨key', known', found⟩ | ⟨unknown, -⟩ := s.envKey_cases id
  · cases known.symm.trans known'
    rw [findWithin, found]
    rfl
  · cases known.symm.trans unknown

/-- Asking for the key of a call: there it is, or the fault is `unknownCall`. -/
theorem callKey_cases (id : CallId) :
    (∃ key, s.calls.key? id = some key ∧ s.callKey id = .ok key) ∨
      s.calls.key? id = none ∧ s.callKey id = .error (.unknownCall id) := by
  unfold callKey
  cases s.calls.key? id <;> simp

/-- The key that `callKey` answers is the one in the table. -/
theorem key?_of_callKey {s : Store} {id : CallId} {key : CallKey} (h : s.callKey id = .ok key) :
    s.calls.key? id = some key := by
  obtain ⟨_, held, found⟩ | ⟨-, failed⟩ := s.callKey_cases id
  · cases h.symm.trans found
    exact held
  · cases h.symm.trans failed

/-- Asking for the state of a call: there it is, or the fault is `unknownCall`. -/
theorem callState_cases (id : CallId) :
    (∃ state, s.calls.state? id = some state ∧ s.callState id = .ok state) ∨
      s.calls.state? id = none ∧ s.callState id = .error (.unknownCall id) := by
  unfold callState
  cases s.calls.state? id <;> simp

/-- The state that `callState` answers is the one in the table. -/
theorem state?_of_callState {s : Store} {id : CallId} {state : CallState}
    (h : s.callState id = .ok state) : s.calls.state? id = some state := by
  obtain ⟨_, held, found⟩ | ⟨-, failed⟩ := s.callState_cases id
  · cases h.symm.trans found
    exact held
  · cases h.symm.trans failed

/-! ### Operations -/

/-- Interning an instance finds it, or makes it with the next identifier. -/
theorem internInstance_cases (clazz : ClazzId) (context : Option ClazzId) :
    (∃ id, s.instances.idOf? ⟨clazz, context⟩ = some id ∧
        (internInstance clazz context).run s = (id, s)) ∨
      s.instances.idOf? ⟨clazz, context⟩ = none ∧
        (internInstance clazz context).run s =
          (s.instances.nextId, s.addInstance ⟨clazz, context⟩) := by
  unfold internInstance
  rw [StateT.run_bind, StateT.run_get, pure_bind]
  dsimp only
  cases s.instances.idOf? ⟨clazz, context⟩ with
  | some id => exact .inl ⟨id, rfl, rfl⟩
  | none => exact .inr ⟨rfl, rfl⟩

/-- After `internInstance` the answer is an instance of the clazz, in the context. -/
theorem key?_internInstance (clazz : ClazzId) (context : Option ClazzId) :
    ((internInstance clazz context).run s).2.instances.key?
      ((internInstance clazz context).run s).1 = some ⟨clazz, context⟩ := by
  obtain ⟨id, known, run⟩ | ⟨-, run⟩ := s.internInstance_cases clazz context
  · rw [run]
    exact Interned.key?_of_idOf? known
  · rw [run]
    exact Interned.key?_push_nextId ..

/-- Interning an instance leaves the calls alone. -/
theorem calls_internInstance (clazz : ClazzId) (context : Option ClazzId) :
    ((internInstance clazz context).run s).2.calls = s.calls := by
  obtain ⟨id, -, run⟩ | ⟨-, run⟩ := s.internInstance_cases clazz context <;> rw [run]
  rfl

/-- Writing a field: the instance is unknown, or it has nothing to gain, or the field is joined with
the value. -/
theorem joinField_cases (id : InstanceId) (field : ClazzId) (value : Value) :
    (s.instances.state? id = none ∧
        (joinField id field value).outcome s = (.error (.unknownInstance id), s)) ∨
      ∃ fields, s.instances.state? id = some fields ∧
        (fields.find? field = some (.joinedTo (fields.find? field) value) ∧
            (joinField id field value).outcome s = (.ok (), s) ∨
          fields.find? field ≠ some (.joinedTo (fields.find? field) value) ∧
            (joinField id field value).outcome s =
              (.ok (), s.putField id field fields (.joinedTo (fields.find? field) value) value)) := by
  unfold joinField Value.joinedTo
  simp only [Attempt.outcome_bind, Attempt.outcome_get]
  obtain ⟨fields, held, found⟩ | ⟨unknown, failed⟩ := s.fields_cases id
  · rw [found]
    simp only [Attempt.outcome_except]
    refine .inr ⟨fields, held, ?_⟩
    by_cases h : fields.find? field = some ((fields.find? field).elim value (·.join value))
    · rw [if_neg (not_not_intro h)]
      exact .inl ⟨h, rfl⟩
    · rw [if_pos h]
      exact .inr ⟨h, rfl⟩
  · rw [failed]
    exact .inl ⟨unknown, rfl⟩

/-- Interning an array finds it, or makes it with the next identifier. -/
theorem internArray_cases (key : ArrayKey) :
    (∃ id, s.arrays.idOf? key = some id ∧ (internArray key).run s = (id, s)) ∨
      s.arrays.idOf? key = none ∧
        (internArray key).run s = (s.arrays.nextId, s.addArray key) := by
  unfold internArray
  rw [StateT.run_bind, StateT.run_get, pure_bind]
  dsimp only
  cases s.arrays.idOf? key with
  | some id => exact .inl ⟨id, rfl, rfl⟩
  | none => exact .inr ⟨rfl, rfl⟩

/-- Writing to an array: it is unknown, or it has nothing to gain, or its elements are joined with
the value. -/
theorem arraySet_cases (id : ArrayId) (value : Value) :
    (s.arrays.state? id = none ∧
        (arraySet id value).outcome s = (.error (.unknownArray id), s)) ∨
      ∃ elements, s.arrays.state? id = some elements ∧
        (elements.join value = elements ∧ (arraySet id value).outcome s = (.ok (), s) ∨
          elements.join value ≠ elements ∧
            (arraySet id value).outcome s =
              (.ok (), s.putElements id (elements.join value) value)) := by
  unfold arraySet
  simp only [Attempt.outcome_bind, Attempt.outcome_get]
  obtain ⟨elements, held, found⟩ | ⟨unknown, failed⟩ := s.elements_cases id
  · rw [found]
    simp only [Attempt.outcome_except]
    refine .inr ⟨elements, held, ?_⟩
    by_cases h : elements.join value = elements
    · rw [if_neg (not_not_intro h)]
      exact .inl ⟨h, rfl⟩
    · rw [if_pos h]
      exact .inr ⟨h, rfl⟩
  · rw [failed]
    exact .inl ⟨unknown, rfl⟩

/-- Extending an environment finds the node, or makes it with the next identifier. -/
theorem extendEnv_cases (outer : Option EnvId) (effect : ClazzId) (value : Value) :
    (∃ id, s.envs.idOf? ⟨outer, effect, value⟩ = some id ∧
        (extendEnv outer effect value).run s = (id, s)) ∨
      s.envs.idOf? ⟨outer, effect, value⟩ = none ∧
        (extendEnv outer effect value).run s =
          (s.envs.nextId, s.addBinding ⟨outer, effect, value⟩) := by
  unfold extendEnv
  rw [StateT.run_bind, StateT.run_get, pure_bind]
  dsimp only
  cases s.envs.idOf? ⟨outer, effect, value⟩ with
  | some id => exact .inl ⟨id, rfl, rfl⟩
  | none => exact .inr ⟨rfl, rfl⟩

/-- Installing a default: it has nothing to gain and `false` is answered, or it is joined with the
value. -/
theorem installDefault_cases (effect : ClazzId) (value : Value) :
    (s.defaults.find? effect = some (.joinedTo (s.defaults.find? effect) value) ∧
        (installDefault effect value).run s = (false, s)) ∨
      s.defaults.find? effect ≠ some (.joinedTo (s.defaults.find? effect) value) ∧
        (installDefault effect value).run s =
          (true, s.putDefault effect (.joinedTo (s.defaults.find? effect) value)) := by
  unfold installDefault Value.joinedTo
  rw [StateT.run_bind, StateT.run_get, pure_bind]
  dsimp only
  by_cases h : s.defaults.find? effect =
      some ((s.defaults.find? effect).elim value (·.join value))
  · rw [if_pos h]
    exact .inl ⟨h, rfl⟩
  · rw [if_neg h]
    exact .inr ⟨h, rfl⟩

/-- Installing a default leaves the calls alone. -/
theorem calls_installDefault (effect : ClazzId) (value : Value) :
    ((installDefault effect value).run s).2.calls = s.calls := by
  obtain ⟨-, run⟩ | ⟨-, run⟩ := s.installDefault_cases effect value <;> rw [run]
  rfl

/-- Replacing an effect: the search for its node fails; or there is no node, and the default is
missing or joined with the value; or the node is unknown; or it has nothing to gain; or it is joined
with the value. -/
theorem replaceEffect_cases (env : Option EnvId) (effect : ClazzId) (value : Value) :
    (∃ e, s.findBinding env effect = .error e ∧
        (replaceEffect env effect value).outcome s = (.error e, s)) ∨
      (s.findBinding env effect = .ok none ∧ s.defaults.find? effect = none ∧
        (replaceEffect env effect value).outcome s = (.error (.noEffectToReplace effect), s)) ∨
      (s.findBinding env effect = .ok none ∧ (s.defaults.find? effect).isSome ∧
        (replaceEffect env effect value).outcome s =
          (.ok (), ((installDefault effect value).run s).2)) ∨
      (∃ id, s.findBinding env effect = .ok (some id) ∧ s.envs.state? id = none ∧
        (replaceEffect env effect value).outcome s = (.error (.unknownEnv id), s)) ∨
      ∃ id current, s.findBinding env effect = .ok (some id) ∧ s.envs.state? id = some current ∧
        (current.join value = current ∧ (replaceEffect env effect value).outcome s = (.ok (), s) ∨
          current.join value ≠ current ∧ (replaceEffect env effect value).outcome s =
            (.ok (), s.putBinding id effect (current.join value))) := by
  unfold replaceEffect
  simp only [Attempt.outcome_bind, Attempt.outcome_get]
  cases bound : s.findBinding env effect with
  | error e => exact .inl ⟨e, rfl, rfl⟩
  | ok found =>
    simp only [Attempt.outcome_except]
    refine .inr ?_
    cases found with
    | none =>
      cases default : s.defaults.find? effect with
      | none => exact .inl ⟨rfl, rfl, rfl⟩
      | some held => exact .inr (.inl ⟨rfl, rfl, rfl⟩)
    | some id =>
      refine .inr (.inr ?_)
      dsimp only
      cases held : s.envs.state? id with
      | none => exact .inl ⟨id, rfl, held, rfl⟩
      | some current =>
        refine .inr ⟨id, current, rfl, held, ?_⟩
        dsimp only
        by_cases h : current.join value = current
        · rw [if_neg (not_not_intro h)]
          exact .inl ⟨h, rfl⟩
        · rw [if_pos h]
          exact .inr ⟨h, rfl⟩

/-- Interning a call finds it, or makes it with the next identifier, in a frame that is interned
before. -/
theorem internCall_cases (key : CallKey) (context : Option ClazzId) (origin : Option CallId) :
    (∃ id, s.calls.idOf? key = some id ∧ (internCall key context origin).run s = (id, s)) ∨
      s.calls.idOf? key = none ∧
        (internCall key context origin).run s =
          (s.calls.nextId,
            ((internInstance key.clazz context).run s).2.addCall key
              ((internInstance key.clazz context).run s).1 origin) := by
  unfold internCall
  rw [StateT.run_bind, StateT.run_get, pure_bind]
  dsimp only
  cases s.calls.idOf? key with
  | some id => exact .inl ⟨id, rfl, rfl⟩
  | none =>
    refine .inr ⟨rfl, ?_⟩
    dsimp only
    rw [StateT.run_bind]
    obtain ⟨id, -, run⟩ | ⟨-, run⟩ := s.internInstance_cases key.clazz context
    · rw [run]
      rfl
    · rw [run]
      rfl

/-- A call that is made gets the next identifier, and the other calls stay. -/
theorem calls_internCall_cases (key : CallKey) (context : Option ClazzId)
    (origin : Option CallId) :
    (∃ id, s.calls.idOf? key = some id ∧ (internCall key context origin).run s = (id, s)) ∨
      s.calls.idOf? key = none ∧
        ((internCall key context origin).run s).1 = s.calls.nextId ∧
        ∃ frame, ((internCall key context origin).run s).2.calls =
          s.calls.push key ⟨frame, false, origin⟩ := by
  obtain known | ⟨new, run⟩ := s.internCall_cases key context origin
  · exact .inl known
  · have calls := s.calls_internInstance key.clazz context
    refine .inr ⟨new, by rw [run], ((internInstance key.clazz context).run s).1, ?_⟩
    rw [run, ← calls]
    rfl

/-- After `internCall` the answer is a call with the key. -/
theorem key?_internCall (key : CallKey) (context : Option ClazzId) (origin : Option CallId) :
    ((internCall key context origin).run s).2.calls.key?
      ((internCall key context origin).run s).1 = some key := by
  obtain ⟨id, known, run⟩ | ⟨-, made, frame, calls⟩ := s.calls_internCall_cases key context origin
  · rw [run]
    exact Interned.key?_of_idOf? known
  · rw [made, calls]
    exact Interned.key?_push_nextId ..

/-- A call that is there after `internCall` was there before, or has the key that was asked for. -/
theorem key?_of_internCall {key : CallKey} {context : Option ClazzId} {origin : Option CallId}
    {id : CallId} {key' : CallKey}
    (known : ((internCall key context origin).run s).2.calls.key? id = some key') :
    s.calls.key? id = some key' ∨ key' = key := by
  obtain ⟨_, -, run⟩ | ⟨-, -, frame, calls⟩ := s.calls_internCall_cases key context origin
  · rw [run] at known
    exact .inl known
  · rw [calls, Interned.key?_push] at known
    split at known
    · exact .inr (Option.some.inj known).symm
    · exact .inl known

/-- Interning a call leaves the environments alone. -/
theorem envs_internCall (key : CallKey) (context : Option ClazzId) (origin : Option CallId) :
    ((internCall key context origin).run s).2.envs = s.envs := by
  obtain ⟨id, -, run⟩ | ⟨-, run⟩ := s.internCall_cases key context origin
  · rw [run]
  · rw [run]
    obtain ⟨id, -, run⟩ | ⟨-, run⟩ := s.internInstance_cases key.clazz context <;> rw [run] <;> rfl

/-- Marking a call: it is unknown, or it is marked already, or its mark is set. -/
theorem markReturns_cases (id : CallId) :
    (s.calls.state? id = none ∧
        (markReturns id).outcome s = (.error (.unknownCall id), s)) ∨
      ∃ state, s.calls.state? id = some state ∧
        (state.returns = true ∧ (markReturns id).outcome s = (.ok (), s) ∨
          state.returns = false ∧
            (markReturns id).outcome s = (.ok (), s.putReturns id state)) := by
  unfold markReturns
  simp only [Attempt.outcome_bind, Attempt.outcome_get]
  obtain ⟨state, held, found⟩ | ⟨unknown, failed⟩ := s.callState_cases id
  · rw [found]
    simp only [Attempt.outcome_except]
    refine .inr ⟨state, held, ?_⟩
    cases h : state.returns with
    | true => exact .inl ⟨rfl, rfl⟩
    | false => exact .inr ⟨rfl, rfl⟩
  · rw [failed]
    exact .inl ⟨unknown, rfl⟩

/-- If `markReturns` succeeds without a change, then the store is the same, and the call was marked
already. -/
theorem returns_of_markReturns {s t : Store} {id : CallId}
    (run : (markReturns id).outcome s = (.ok (), t)) (unchanged : t.change = none) :
    t = s ∧ ∃ state, s.calls.state? id = some state ∧ state.returns = true := by
  obtain ⟨-, outcome⟩ | ⟨state, held, ⟨marked, outcome⟩ | ⟨-, outcome⟩⟩ := s.markReturns_cases id
  · cases run.symm.trans outcome
  · cases run.symm.trans outcome
    exact ⟨rfl, state, held, marked⟩
  · cases run.symm.trans outcome
    exact absurd unchanged (change_noting_ne_none _ _)

end Store

end ClosedWorld
