import ClosedWorld.Proofs.Store.Changes
import ClosedWorld.Proofs.Value.Semilattice

/-!
# The values in a store

What holds of all values that a store has is kept by every elementary change, as long as it holds of
the values that are written and survives a join.

## Main definitions

* `Store.AllValues`: a property holds of all values in a store.

## Main statements

* `Store.AllValues.putField` and the others: one for each elementary change.
-/

namespace ClosedWorld

namespace Store

/-- The property holds of all values in the store: those that fields hold, the targets and arguments
of calls, the values that effects are and were bound to, the elements of arrays, and the defaults.
An array may be without elements. -/
structure AllValues (P : Value → Prop) (s : Store) : Prop where
  instances : s.instances.All fun _ fields => ∀ e ∈ fields.entries, P e.2
  calls : s.calls.All fun key _ => P key.target ∧ ∀ v ∈ key.args, P v
  envs : s.envs.All fun key v => P key.initial ∧ P v
  arrays : s.arrays.All fun _ v => v = .noValue ∨ P v
  defaults : ∀ e ∈ s.defaults.entries, P e.2

/-- In the empty store there is no value that could fail to have a property. -/
theorem allValues_empty (P : Value → Prop) : AllValues P {} where
  instances _ _ _ held := by cases held
  calls _ _ _ held := by cases held
  envs _ _ _ held := by cases held
  arrays _ _ _ held := by cases held
  defaults := List.forall_mem_nil _

/-- Nothing is asked of the values of a store by the property that holds of everything. -/
theorem allValues_true (s : Store) : s.AllValues fun _ => True where
  instances _ _ _ _ _ _ := trivial
  calls _ _ _ _ := ⟨trivial, fun _ _ => trivial⟩
  envs _ _ _ _ := ⟨trivial, trivial⟩
  arrays _ _ _ _ := .inr trivial
  defaults _ _ := trivial

variable {P Q : Value → Prop} {s : Store}

namespace AllValues

/-- What follows from a property holds of all values if the property does. -/
theorem mono (hPQ : ∀ v, P v → Q v) (hs : s.AllValues P) : s.AllValues Q where
  instances i k fields held := fun e he => hPQ _ (hs.instances i k fields held e he)
  calls i k state held := (hs.calls i k state held).imp (hPQ _) fun h v hv => hPQ v (h v hv)
  envs i k v held := (hs.envs i k v held).imp (hPQ _) (hPQ _)
  arrays i k v held := (hs.arrays i k v held).imp_right (hPQ _)
  defaults e he := hPQ _ (hs.defaults e he)

/-- Two properties of all values hold of all values together. -/
theorem and (hs : s.AllValues P) (hs' : s.AllValues Q) : s.AllValues fun v => P v ∧ Q v where
  instances i k fields held e he :=
    ⟨hs.instances i k fields held e he, hs'.instances i k fields held e he⟩
  calls i k state held :=
    have ⟨target, args⟩ := hs.calls i k state held
    have ⟨target', args'⟩ := hs'.calls i k state held
    ⟨⟨target, target'⟩, fun v hv => ⟨args v hv, args' v hv⟩⟩
  envs i k v held :=
    have ⟨initial, bound⟩ := hs.envs i k v held
    have ⟨initial', bound'⟩ := hs'.envs i k v held
    ⟨⟨initial, initial'⟩, bound, bound'⟩
  arrays i k v held := or_and_left.2 ⟨hs.arrays i k v held, hs'.arrays i k v held⟩
  defaults e he := ⟨hs.defaults e he, hs'.defaults e he⟩

/-! ### Lookups -/

/-- A property of all values holds of what a field of an instance holds. -/
theorem field (hs : s.AllValues P) {id : InstanceId} {fields : Fields}
    (held : s.instances.state? id = some fields) {e : ClazzId × Value} (he : e ∈ fields.entries) :
    P e.2 := by
  obtain ⟨key, entry⟩ := Interned.exists_get?_of_state? held
  exact hs.instances id key fields entry e he

/-- A property of all values holds of the target and the arguments of a call. -/
theorem call (hs : s.AllValues P) {id : CallId} {key : CallKey}
    (held : s.calls.key? id = some key) : P key.target ∧ ∀ v ∈ key.args, P v := by
  obtain ⟨state, entry⟩ := Interned.exists_get?_of_key? held
  exact hs.calls id key state entry

/-- A property of all values holds of what a node holds. -/
theorem binding (hs : s.AllValues P) {id : EnvId} {v : Value}
    (held : s.envs.state? id = some v) : P v := by
  obtain ⟨key, entry⟩ := Interned.exists_get?_of_state? held
  exact (hs.envs id key v entry).2

/-- A property of all values holds of the elements of an array, unless it has none. -/
theorem elements (hs : s.AllValues P) {id : ArrayId} {v : Value}
    (held : s.arrays.state? id = some v) : v = .noValue ∨ P v := by
  obtain ⟨key, entry⟩ := Interned.exists_get?_of_state? held
  exact hs.arrays id key v entry

/-- A property of all values holds of a default. -/
theorem default (hs : s.AllValues P) {effect : ClazzId} {v : Value}
    (held : s.defaults.find? effect = some v) : P v :=
  hs.defaults _ (OrderedMap.mem_entries_of_find? held)

/-! ### The elementary changes -/

/-- Adding an instance brings in no value. -/
theorem addInstance (hs : s.AllValues P) (key : InstanceKey) : (s.addInstance key).AllValues P :=
  { hs with instances := Interned.all_push hs.instances (List.forall_mem_nil _) }

/-- Adding an array brings in no value but `noValue`, which stands for no elements. -/
theorem addArray (hs : s.AllValues P) (key : ArrayKey) : (s.addArray key).AllValues P :=
  { hs with arrays := Interned.all_push hs.arrays (.inl rfl) }

/-- Adding a node brings in the value that is installed. -/
theorem addBinding (hs : s.AllValues P) {key : EnvKey} (hk : P key.initial) :
    (s.addBinding key).AllValues P :=
  { hs with envs := Interned.all_push hs.envs ⟨hk, hk⟩ }

/-- Adding a call brings in its target and its arguments. -/
theorem addCall (hs : s.AllValues P) {key : CallKey} (ht : P key.target)
    (ha : ∀ v ∈ key.args, P v) (frame : InstanceId) (origin : Option CallId) :
    (s.addCall key frame origin).AllValues P :=
  { hs with calls := Interned.all_push hs.calls ⟨ht, ha⟩ }

/-- Marking a call brings in no value. -/
theorem putReturns (hs : s.AllValues P) (id : CallId) (state : CallState) :
    (s.putReturns id state).AllValues P :=
  { hs with calls := Interned.all_set hs.calls fun key old held => hs.calls id key old held }

/-- Dropping the note of a change brings in no value. -/
theorem unnoted (hs : s.AllValues P) : s.unnoted.AllValues P := { hs with }

variable (join : ∀ {v w}, P v → P w → P (v.join w))

include join

omit s in
/-- What survives a join holds of what is `joinedTo` something held, or held for the first time. -/
theorem joinedTo {held : Option Value} (hh : ∀ v, held = some v → P v) {v : Value} (hv : P v) :
    P (.joinedTo held v) := by
  cases held with
  | none => exact hv
  | some w => exact join (hh w rfl) hv

/-- Writing a field keeps a property of all values if it holds of the `value` and survives a join.
-/
theorem putField (hs : s.AllValues P) {id : InstanceId} {fields : Fields}
    (held : s.instances.state? id = some fields) (field : ClazzId) {value : Value}
    (hv : P value) :
    (s.putField id field fields (.joinedTo (fields.find? field) value) value).AllValues P := by
  refine { hs with instances := Interned.all_set hs.instances fun _ _ _ e he => ?_ }
  rcases OrderedMap.mem_entries_insert he with rfl | he
  · exact joinedTo join
      (fun v written => hs.field held (OrderedMap.mem_entries_of_find? written)) hv
  · exact hs.field held he

/-- Writing to an array keeps a property of all values if it holds of the `value` and survives a
join. -/
theorem putElements (hs : s.AllValues P) {id : ArrayId} {elements : Value}
    (held : s.arrays.state? id = some elements) {value : Value} (hv : P value) :
    (s.putElements id (elements.join value) value).AllValues P := by
  refine { hs with arrays := Interned.all_set hs.arrays fun _ _ _ => .inr ?_ }
  rcases hs.elements held with rfl | he
  · rwa [Value.noValue_join]
  · exact join he hv

/-- Writing to a node keeps a property of all values if it holds of the `value` and survives a join.
-/
theorem putBinding (hs : s.AllValues P) {id : EnvId} (effect : ClazzId) {current : Value}
    (held : s.envs.state? id = some current) {value : Value} (hv : P value) :
    (s.putBinding id effect (current.join value)).AllValues P :=
  { hs with
    envs := Interned.all_set hs.envs fun key old entry =>
      ⟨(hs.envs id key old entry).1, join (hs.binding held) hv⟩ }

/-- Installing a default keeps a property of all values if it holds of the `value` and survives a
join. -/
theorem putDefault (hs : s.AllValues P) (effect : ClazzId) {value : Value} (hv : P value) :
    (s.putDefault effect (.joinedTo (s.defaults.find? effect) value)).AllValues P := by
  refine { hs with defaults := fun e he => ?_ }
  rcases OrderedMap.mem_entries_insert he with rfl | he
  · exact joinedTo join (fun v held => hs.default held) hv
  · exact hs.defaults e he

end AllValues

end Store

end ClosedWorld
