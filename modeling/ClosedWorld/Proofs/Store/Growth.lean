import ClosedWorld.Proofs.Store.Discipline
import ClosedWorld.Proofs.Store.Values
import ClosedWorld.Proofs.Value.Information

/-!
# Stores only grow

No elementary change takes anything back: keys stay, and whatever is held is joined to. That joining
adds to a value, and that what was added stays when more is joined, are laws of regular values, so
the values in a store have to be regular, and they are if the values that are written are. And no
change is noted without reason: after it the store knows something that it did not know.

## Main definitions

* `Store.Grows`: what the first store holds, the second one holds as well, or more.
* `Store.IsRegular`: all values in a store are regular.
* `Fact`, `Store.Knows`: single pieces of what a store holds.
* `StoreDiscipline.growing`: the discipline of stores of regular values, which only grow.

## Main statements

* `Store.Grows.trans`: growth of regular stores is transitive.
* `Store.knows_mono`: a store that has grown knows what it knew.
-/

namespace ClosedWorld

/-- The written fields are still written, and what they held they hold, or more. -/
def Fields.Below (fields fields' : Fields) : Prop := fields.Extends Value.Below fields'

/-- The call is the same, and it still returns if it did. -/
structure CallState.Below (state state' : CallState) : Prop where
  frame : state'.frame = state.frame
  origin : state'.origin = state.origin
  returns : state.returns = true → state'.returns = true

/-- Fields are below themselves. -/
theorem Fields.below_refl (fields : Fields) : fields.Below fields :=
  OrderedMap.extends_refl Value.below_refl fields

/-- The state of a call is below itself. -/
theorem CallState.below_refl (state : CallState) : state.Below state := ⟨rfl, rfl, fun h => h⟩

/-- Calls that keep their frame, their origin and their mark twice in a row keep them. -/
theorem CallState.Below.trans {state state' state'' : CallState} (h : state.Below state')
    (h' : state'.Below state'') : state.Below state'' where
  frame := h'.frame.trans h.frame
  origin := h'.origin.trans h.origin
  returns marked := h'.returns (h.returns marked)

namespace Store

/-- Interning a call takes no call away and changes none that is there. -/
theorem extendsCalls_internCall (s : Store) (key : CallKey) (context : Option ClazzId)
    (origin : Option CallId) :
    s.calls.Extends CallState.Below ((internCall key context origin).run s).2.calls := by
  obtain ⟨id, -, run⟩ | ⟨-, -, frame, calls⟩ := s.calls_internCall_cases key context origin
  · rw [run]
    exact Interned.extends_refl CallState.below_refl _
  · rw [calls]
    exact Interned.extends_push CallState.below_refl _ _ _

/-- All values in the store are regular. -/
def IsRegular (kinds : ClazzId → NumericKind) (s : Store) : Prop := s.AllValues (Value.Regular kinds)

/-- Every instance, call, node and array keeps its identifier and its key. Fields, elements,
bindings and defaults stay set and hold what they held, or more. Calls keep their frame and their
origin, and return if they did. The generation of the defaults does not decrease. -/
structure Grows (s t : Store) : Prop where
  instances : s.instances.Extends Fields.Below t.instances
  calls : s.calls.Extends CallState.Below t.calls
  envs : s.envs.Extends Value.Below t.envs
  arrays : s.arrays.Extends Value.Below t.arrays
  defaults : s.defaults.Extends Value.Below t.defaults
  generation : s.generation ≤ t.generation

variable {kinds : ClazzId → NumericKind} {s t u : Store}

/-- A store grows to itself. -/
theorem Grows.refl (s : Store) : s.Grows s where
  instances := Interned.extends_refl Fields.below_refl _
  calls := Interned.extends_refl CallState.below_refl _
  envs := Interned.extends_refl Value.below_refl _
  arrays := Interned.extends_refl Value.below_refl _
  defaults := OrderedMap.extends_refl Value.below_refl _
  generation := Nat.le_refl _

/-- Tables of regular values that grow twice in a row grow: it is for regular values that
`Value.Below` is transitive. -/
theorem extends_trans_regular {m m' m'' : OrderedMap ClazzId Value}
    (hm : ∀ e ∈ m.entries, e.2.Regular kinds) (hm' : ∀ e ∈ m'.entries, e.2.Regular kinds)
    (hm'' : ∀ e ∈ m''.entries, e.2.Regular kinds) (h : m.Extends Value.Below m')
    (h' : m'.Extends Value.Below m'') : m.Extends Value.Below m'' := by
  intro k v held
  obtain ⟨v', held', below⟩ := h k v held
  obtain ⟨v'', held'', below'⟩ := h' k v' held'
  have regular := hm _ (OrderedMap.mem_entries_of_find? held)
  have regular' := hm' _ (OrderedMap.mem_entries_of_find? held')
  have regular'' := hm'' _ (OrderedMap.mem_entries_of_find? held'')
  exact ⟨v'', held'', Value.below_trans regular regular' regular'' below below'⟩

/-- The elements of an array in a regular store are regular, and also `noValue` is, for an array
without elements. -/
theorem IsRegular.elements (hs : s.IsRegular kinds) {id : ArrayId} {v : Value}
    (held : s.arrays.state? id = some v) : v.Regular kinds := by
  obtain rfl | regular := AllValues.elements hs held
  · exact ⟨trivial, trivial⟩
  · exact regular

/-- Regular stores that grow twice in a row grow. -/
theorem Grows.trans (hs : s.IsRegular kinds) (ht : t.IsRegular kinds) (hu : u.IsRegular kinds)
    (h : s.Grows t) (h' : t.Grows u) : s.Grows u where
  instances := h.instances.trans h'.instances fun i k a a' a'' held held' held'' below below' =>
    extends_trans_regular (hs.instances i k a held) (ht.instances i k a' held')
      (hu.instances i k a'' held'') below below'
  calls := h.calls.trans h'.calls fun _ _ _ _ _ _ _ _ below below' => below.trans below'
  envs := h.envs.trans h'.envs fun i k a a' a'' held held' held'' below below' =>
    Value.below_trans (hs.envs i k a held).2 (ht.envs i k a' held').2 (hu.envs i k a'' held'').2
      below below'
  arrays := h.arrays.trans h'.arrays fun _ _ _ _ _ held held' held'' below below' =>
    Value.below_trans (hs.elements (Interned.state?_of_get? held))
      (ht.elements (Interned.state?_of_get? held')) (hu.elements (Interned.state?_of_get? held''))
      below below'
  defaults := extends_trans_regular hs.defaults ht.defaults hu.defaults h.defaults h'.defaults
  generation := Nat.le_trans h.generation h'.generation

end Store

/-! ### Facts -/

/-- What a store may know. Of a value, it may know that it is held, or more. -/
inductive Fact where
  | object (key : InstanceKey)
  | field (id : InstanceId) (field : ClazzId) (value : Value)
  | call (key : CallKey)
  | returns (id : CallId)
  | node (key : EnvKey)
  | binding (id : EnvId) (value : Value)
  | array (key : ArrayKey)
  | elements (id : ArrayId) (value : Value)
  | default (effect : ClazzId) (value : Value)

/-- The value is regular, and what is held is not less. -/
def Value.Under (kinds : ClazzId → NumericKind) (v : Value) (held : Option Value) : Prop :=
  v.Regular kinds ∧ ∃ w, held = some w ∧ v.Below w

/-- A regular value that is held is `Under` what is held. -/
theorem Value.under_self {kinds : ClazzId → NumericKind} {v : Value} (hv : v.Regular kinds)
    {held : Option Value} (h : held = some v) : v.Under kinds held :=
  ⟨hv, v, h, below_refl v⟩

/-- A value that grows by joining `w` was not held before, nor more than it: otherwise `w` would
have added nothing. -/
theorem Value.not_under_of_grown {kinds : ClazzId → NumericKind} {v w : Value} {held : Option Value}
    (h : held = some v) (hv : v.Regular kinds) (hw : w.Regular kinds) (grown : v.join w ≠ v) :
    ¬(v.join w).Under kinds held := by
  rw [h]
  rintro ⟨-, _, ⟨⟩, below⟩
  exact grown (below_antisymm (regular_join hv hw) hv below (below_join hv hw))

/-- The case of `Value.not_under_of_grown` in which there may be nothing held yet. -/
theorem Value.not_under_joinedTo {kinds : ClazzId → NumericKind} {held : Option Value} {w : Value}
    (hh : ∀ v, held = some v → v.Regular kinds) (hw : w.Regular kinds)
    (grown : held ≠ some (.joinedTo held w)) : ¬(joinedTo held w).Under kinds held := by
  cases held with
  | none =>
    rintro ⟨-, _, ⟨⟩, -⟩
  | some v => exact not_under_of_grown rfl (hh v rfl) hw fun same => grown (congrArg some same.symm)

namespace Store

variable {kinds : ClazzId → NumericKind} {s t : Store}

/-- The store knows the fact. -/
def Knows (kinds : ClazzId → NumericKind) (s : Store) : Fact → Prop
  | .object key => key ∈ s.instances.keys
  | .field id field value => ∃ fields, s.instances.state? id = some fields ∧
      value.Under kinds (fields.find? field)
  | .call key => key ∈ s.calls.keys
  | .returns id => ∃ state, s.calls.state? id = some state ∧ state.returns = true
  | .node key => key ∈ s.envs.keys
  | .binding id value => value.Under kinds (s.envs.state? id)
  | .array key => key ∈ s.arrays.keys
  | .elements id value => value.Under kinds (s.arrays.state? id)
  | .default effect value => value.Under kinds (s.defaults.find? effect)

/-- A store that has grown knows what it knew. -/
theorem knows_mono (hs : s.IsRegular kinds) (ht : t.IsRegular kinds) (h : s.Grows t) {fact : Fact}
    (known : s.Knows kinds fact) : t.Knows kinds fact := by
  cases fact with
  | object key => exact h.instances.keys_subset known
  | call key => exact h.calls.keys_subset known
  | node key => exact h.envs.keys_subset known
  | array key => exact h.arrays.keys_subset known
  | returns id =>
    obtain ⟨state, held, returns⟩ := known
    obtain ⟨state', held', below⟩ := h.calls.state? held
    exact ⟨state', held', below.returns returns⟩
  | field id field value =>
    obtain ⟨fields, held, regular, v, written, below⟩ := known
    obtain ⟨fields', held', extended⟩ := h.instances.state? held
    obtain ⟨v', written', below'⟩ := extended field v written
    have hv := AllValues.field hs held (OrderedMap.mem_entries_of_find? written)
    have hv' := AllValues.field ht held' (OrderedMap.mem_entries_of_find? written')
    exact ⟨fields', held', regular, v', written', Value.below_trans regular hv hv' below below'⟩
  | binding id value =>
    obtain ⟨regular, v, held, below⟩ := known
    obtain ⟨v', held', below'⟩ := h.envs.state? held
    exact ⟨regular, v', held', Value.below_trans regular (AllValues.binding hs held)
      (AllValues.binding ht held') below below'⟩
  | elements id value =>
    obtain ⟨regular, v, held, below⟩ := known
    obtain ⟨v', held', below'⟩ := h.arrays.state? held
    exact ⟨regular, v', held', Value.below_trans regular (hs.elements held) (ht.elements held') below
      below'⟩
  | default effect value =>
    obtain ⟨regular, v, held, below⟩ := known
    obtain ⟨v', held', below'⟩ := h.defaults effect v held
    exact ⟨regular, v', held', Value.below_trans regular (AllValues.default hs held)
      (AllValues.default ht held') below below'⟩

/-- The second store knows something that the first one does not know. -/
def Learns (kinds : ClazzId → NumericKind) (s t : Store) : Prop :=
  ∃ fact, t.Knows kinds fact ∧ ¬s.Knows kinds fact

/-! ### The elementary changes -/

/-- The second store holds regular values, and it has grown out of the first one. If it notes a
change where there was none, it has learned something. -/
structure GrowsRegularly (kinds : ClazzId → NumericKind) (s t : Store) : Prop where
  regular : t.IsRegular kinds
  grows : s.Grows t
  learns : s.change = none → t.change ≠ none → s.Learns kinds t

/-- A regular store grows regularly to itself, with nothing to learn. -/
theorem GrowsRegularly.refl (hs : s.IsRegular kinds) : s.GrowsRegularly kinds s where
  regular := hs
  grows := .refl s
  learns := absurd

/-- Stores that grow regularly twice in a row do so, and have learned something if one of the two
has. -/
theorem GrowsRegularly.trans {u : Store} (hs : s.IsRegular kinds) (h : s.GrowsRegularly kinds t)
    (h' : t.GrowsRegularly kinds u) : s.GrowsRegularly kinds u where
  regular := h'.regular
  grows := h.grows.trans hs h.regular h'.regular h'.grows
  learns before after := by
    by_cases between : t.change = none
    · obtain ⟨fact, known, new⟩ := h'.learns between after
      exact ⟨fact, known, fun old => new (knows_mono hs h.regular h.grows old)⟩
    · obtain ⟨fact, known, new⟩ := h.learns before between
      exact ⟨fact, knows_mono h.regular h'.regular h'.grows known, new⟩

/-- Adding an instance with a new key lets a regular store grow, which learns that key. -/
theorem growsRegularly_addInstance (hs : s.IsRegular kinds) {key : InstanceKey}
    (new : s.instances.idOf? key = none) : s.GrowsRegularly kinds (s.addInstance key) where
  regular := AllValues.addInstance hs key
  grows :=
    { Grows.refl s with instances := Interned.extends_push Fields.below_refl _ key .empty }
  learns _ _ := ⟨.object key, Interned.mem_keys_push .., Interned.idOf?_eq_none_iff.1 new⟩

/-- Writing a field that is not as it will be lets a regular store grow, which learns what the field
holds. -/
theorem growsRegularly_putField (hs : s.IsRegular kinds) {id : InstanceId} {fields : Fields}
    (held : s.instances.state? id = some fields) {field : ClazzId} {value : Value}
    (grown : fields.find? field ≠ some (.joinedTo (fields.find? field) value))
    (hv : value.Regular kinds) :
    s.GrowsRegularly kinds
      (s.putField id field fields (.joinedTo (fields.find? field) value) value) := by
  obtain ⟨key, entry⟩ := Interned.exists_get?_of_state? held
  have written {v : Value} (h : fields.find? field = some v) : v.Regular kinds :=
    AllValues.field hs held (OrderedMap.mem_entries_of_find? h)
  have joined := AllValues.joinedTo Value.regular_join (fun v h => written h) hv
  refine ⟨AllValues.putField Value.regular_join hs held field hv,
    { Grows.refl s with instances := Interned.extends_set Fields.below_refl ?_ }, fun _ _ => ?_⟩
  · intro key' fields' entry'
    rw [entry] at entry'
    cases entry'
    exact OrderedMap.extends_insert Value.below_refl fun v h => h ▸ Value.below_join (written h) hv
  · refine ⟨.field id field _, ⟨_, Interned.state?_set held _, Value.under_self joined ?_⟩, ?_⟩
    · rw [OrderedMap.find?_insert, if_pos rfl]
    · rintro ⟨fields', held', under⟩
      cases held.symm.trans held'
      exact Value.not_under_joinedTo (fun v h => written h) hv grown under

/-- Adding an array with a new key lets a regular store grow, which learns that key. -/
theorem growsRegularly_addArray (hs : s.IsRegular kinds) {key : ArrayKey}
    (new : s.arrays.idOf? key = none) : s.GrowsRegularly kinds (s.addArray key) where
  regular := AllValues.addArray hs key
  grows := { Grows.refl s with arrays := Interned.extends_push Value.below_refl _ key .noValue }
  learns _ _ := ⟨.array key, Interned.mem_keys_push .., Interned.idOf?_eq_none_iff.1 new⟩

/-- Writing to an array that gains something lets a regular store grow, which learns its elements.
-/
theorem growsRegularly_putElements (hs : s.IsRegular kinds) {id : ArrayId} {elements : Value}
    (held : s.arrays.state? id = some elements) {value : Value}
    (grown : elements.join value ≠ elements) (hv : value.Regular kinds) :
    s.GrowsRegularly kinds (s.putElements id (elements.join value) value) := by
  obtain ⟨key, entry⟩ := Interned.exists_get?_of_state? held
  have joined := Value.regular_join (hs.elements held) hv
  refine ⟨AllValues.putElements Value.regular_join hs held hv,
    { Grows.refl s with arrays := Interned.extends_set Value.below_refl ?_ }, fun _ _ => ?_⟩
  · intro key' elements' entry'
    rw [entry] at entry'
    cases entry'
    exact Value.below_join (hs.elements held) hv
  · exact ⟨.elements id _, Value.under_self joined (Interned.state?_set held _),
      Value.not_under_of_grown held (hs.elements held) hv grown⟩

/-- Adding a node with a new key lets a regular store grow, which learns that key. -/
theorem growsRegularly_addBinding (hs : s.IsRegular kinds) {key : EnvKey}
    (new : s.envs.idOf? key = none) (hk : key.initial.Regular kinds) :
    s.GrowsRegularly kinds (s.addBinding key) where
  regular := AllValues.addBinding hs hk
  grows := { Grows.refl s with envs := Interned.extends_push Value.below_refl _ key key.initial }
  learns _ _ := ⟨.node key, Interned.mem_keys_push .., Interned.idOf?_eq_none_iff.1 new⟩

/-- Writing to a node that gains something lets a regular store grow, which learns what the node
holds. -/
theorem growsRegularly_putBinding (hs : s.IsRegular kinds) {id : EnvId} (effect : ClazzId)
    {current : Value} (held : s.envs.state? id = some current) {value : Value}
    (grown : current.join value ≠ current) (hv : value.Regular kinds) :
    s.GrowsRegularly kinds (s.putBinding id effect (current.join value)) := by
  obtain ⟨key, entry⟩ := Interned.exists_get?_of_state? held
  have bound := AllValues.binding hs held
  have joined := Value.regular_join bound hv
  refine ⟨AllValues.putBinding Value.regular_join hs effect held hv,
    { Grows.refl s with envs := Interned.extends_set Value.below_refl ?_ }, fun _ _ => ?_⟩
  · intro key' current' entry'
    rw [entry] at entry'
    cases entry'
    exact Value.below_join bound hv
  · exact ⟨.binding id _, Value.under_self joined (Interned.state?_set held _),
      Value.not_under_of_grown held bound hv grown⟩

/-- The store with a default that has grown knows the new one, and the store before does not. -/
theorem knows_putDefault (hs : s.IsRegular kinds) {effect : ClazzId} {value : Value}
    (grown : s.defaults.find? effect ≠ some (.joinedTo (s.defaults.find? effect) value))
    (hv : value.Regular kinds) :
    (s.putDefault effect (.joinedTo (s.defaults.find? effect) value)).Knows kinds
        (.default effect (.joinedTo (s.defaults.find? effect) value)) ∧
      ¬s.Knows kinds (.default effect (.joinedTo (s.defaults.find? effect) value)) := by
  have known : ∀ v, s.defaults.find? effect = some v → v.Regular kinds :=
    fun _ held => AllValues.default hs held
  have joined := AllValues.joinedTo Value.regular_join known hv
  refine ⟨Value.under_self joined ?_, Value.not_under_joinedTo known hv grown⟩
  exact (OrderedMap.find?_insert ..).trans (if_pos rfl)

/-- Installing a default that gains something lets a regular store grow, and raises its generation.
-/
theorem growsRegularly_putDefault (hs : s.IsRegular kinds) {effect : ClazzId} {value : Value}
    (grown : s.defaults.find? effect ≠ some (.joinedTo (s.defaults.find? effect) value))
    (hv : value.Regular kinds) :
    s.GrowsRegularly kinds
      (s.putDefault effect (.joinedTo (s.defaults.find? effect) value)) where
  regular := AllValues.putDefault Value.regular_join hs effect hv
  grows := { Grows.refl s with
    defaults := OrderedMap.extends_insert Value.below_refl fun _ held =>
      held ▸ Value.below_join (AllValues.default hs held) hv
    generation := Nat.le_succ _ }
  learns _ _ := ⟨_, knows_putDefault hs grown hv⟩

/-- Adding a call with a new key lets a regular store grow, which learns that key. -/
theorem growsRegularly_addCall (hs : s.IsRegular kinds) {key : CallKey}
    (new : s.calls.idOf? key = none) (ht : key.target.Regular kinds)
    (ha : ∀ v ∈ key.args, v.Regular kinds) (frame : InstanceId)
    (origin : Option CallId) : s.GrowsRegularly kinds (s.addCall key frame origin) where
  regular := AllValues.addCall hs ht ha frame origin
  grows := { Grows.refl s with calls := Interned.extends_push CallState.below_refl _ key _ }
  learns _ _ := ⟨.call key, Interned.mem_keys_push .., Interned.idOf?_eq_none_iff.1 new⟩

/-- Marking a call that is not marked lets a regular store grow, which learns that it returns. -/
theorem growsRegularly_putReturns (hs : s.IsRegular kinds) {id : CallId} {state : CallState}
    (held : s.calls.state? id = some state) (unmarked : state.returns = false) :
    s.GrowsRegularly kinds (s.putReturns id state) := by
  obtain ⟨key, entry⟩ := Interned.exists_get?_of_state? held
  refine ⟨AllValues.putReturns hs id state,
    { Grows.refl s with calls := Interned.extends_set CallState.below_refl ?_ }, fun _ _ => ?_⟩
  · intro key' state' entry'
    rw [entry] at entry'
    cases entry'
    exact ⟨rfl, rfl, fun _ => rfl⟩
  · refine ⟨.returns id, ⟨_, Interned.state?_set held _, rfl⟩, ?_⟩
    rintro ⟨state', held', returns⟩
    cases held.symm.trans held'
    cases unmarked.symm.trans returns

end Store

/-! ### The discipline -/

/-- The kind of the numbers of a clazz; any kind will do for a clazz without numbers. -/
def View.numericKind (view : View) (clazz : ClazzId) : NumericKind :=
  match (view.info clazz).special with
  | some (.numeric kind) => kind
  | _ => .i32

/-- The kind that `numericKind` gives a clazz of numbers is the one that the program gives it. -/
theorem View.numericKind_of_special {view : View} {clazz : ClazzId} {kind : NumericKind}
    (h : (view.info clazz).special = some (.numeric kind)) : view.numericKind clazz = kind := by
  unfold numericKind
  rw [h]

/-- A number is regular if it has the kind of its clazz. -/
theorem Value.regular_number {view : View} {clazz : ClazzId} {kind : NumericKind}
    (h : (view.info clazz).special = some (.numeric kind)) (bits : Option UInt64) :
    (number ⟨clazz, kind, bits⟩).Regular view.numericKind :=
  ⟨trivial, (View.numericKind_of_special h).symm⟩

namespace StoreDiscipline

/-- Values are regular, and stores of regular values grow. -/
def growingTerms (kinds : ClazzId → NumericKind) : StoreTerms where
  Inv := Store.IsRegular kinds
  Leads s t := s.IsRegular kinds → s.GrowsRegularly kinds t
  Allowed _ := True
  Good _ v := v.Regular kinds
  GoodCall _ _ := True
  GoodEnv _ _ := True
  Called _ _ _ := True
  Ready _ _ := True
  Known _ := True
  GoodArity _ := True
  leads_refl _ hs := .refl hs
  leads_trans h h' := fun hs => (h hs).trans hs (h' (h hs).regular)
  good_mono _ hv := hv
  goodCall_mono _ _ := trivial
  goodEnv_mono _ _ := trivial
  called_mono _ _ := trivial

/-- A store that has grown regularly is `Kept`, in the terms of this discipline. -/
theorem growingTerms_kept {kinds : ClazzId → NumericKind} {s t : Store}
    (h : s.GrowsRegularly kinds t) : (growingTerms kinds).Kept s t := ⟨h.regular, fun _ => h⟩

/-- Every elementary change of a store of regular values lets it grow. -/
def growing (view : View) : StoreDiscipline view where
  toStoreTerms := growingTerms view.numericKind
  good_join hv hw := Value.regular_join hv hw
  good_atom hv ha := hv.of_mem_atoms ha
  good_of_atoms_eq_nil _ _ := ⟨trivial, trivial⟩
  good_of_boxed hv := ⟨hv.canonical, hv.coherent⟩
  good_of_tagged hv := ⟨hv.canonical, hv.coherent⟩
  good_boxed hv _ _ := ⟨hv.canonical, hv.coherent⟩
  good_tagged hv _ _ := ⟨hv.canonical, hv.coherent⟩
  good_undefined _ := ⟨trivial, trivial⟩
  good_unit _ := ⟨trivial, trivial⟩
  good_bool _ _ := ⟨trivial, trivial⟩
  good_any special _ := Value.regular_number special none
  good_constant special _ _ := Value.regular_number special _
  good_count _ _ special _ _ _ := Value.regular_number special _
  known_reference _ _ := trivial
  known_layout _ _ _ := trivial
  known_mentioned _ _ := trivial
  goodArity _ := trivial
  goodArity_zero := trivial
  allowed_noResultField _ _ _ _ _ := trivial
  allowed_missingInstruction _ _ := trivial
  nests_or_allowed := .inr fun _ => trivial
  good_object _ _ := ⟨trivial, trivial⟩
  good_array _ _ := ⟨trivial, trivial⟩
  goodEnv_of_key _ _ := trivial
  goodCall_of_key _ _ := trivial
  called_of_key _ _ := trivial
  ready _ := trivial
  goodContext_none _ _ := trivial
  goodContext_of_key _ _ _ _ := trivial
  known_field _ _ _ := trivial
  good_field hs held he := Store.AllValues.field hs held he
  loose_elements hs held := .inr (hs.elements held)
  good_binding hs held := Store.AllValues.binding hs held
  goodEnv_outer _ _ _ := trivial
  good_default hs held := Store.AllValues.default hs held
  goodKey hs held :=
    have regular := Store.AllValues.call hs held
    ⟨trivial, regular.1, regular.2, trivial, fun _ _ => trivial, fun _ => .inr trivial⟩
  good_frame _ _ := ⟨trivial, trivial⟩
  allowed_of_isPlain _ := trivial
  allowed_unknownInstance _ _ _ := trivial
  allowed_unknownArray _ _ _ := trivial
  allowed_unknownEnv _ _ _ := trivial
  allowed_unknownCall _ _ _ := trivial
  kept_addInstance hs new _ _ := growingTerms_kept (Store.growsRegularly_addInstance hs new)
  kept_putField hs held grown _ _ hv :=
    growingTerms_kept (Store.growsRegularly_putField hs held grown hv)
  kept_addArray hs new _ := growingTerms_kept (Store.growsRegularly_addArray hs new)
  kept_putElements hs held grown _ hv :=
    growingTerms_kept (Store.growsRegularly_putElements hs held grown hv)
  kept_addBinding hs new _ _ hv := growingTerms_kept (Store.growsRegularly_addBinding hs new hv)
  kept_putBinding hs held grown hv :=
    growingTerms_kept (Store.growsRegularly_putBinding hs _ held grown hv)
  kept_putDefault hs grown _ hv := growingTerms_kept (Store.growsRegularly_putDefault hs grown hv)
  kept_addCall hs new hk _ _ :=
    growingTerms_kept (Store.growsRegularly_addCall hs new hk.target hk.args _ _)
  kept_putReturns hs held unmarked _ _ _ _ :=
    growingTerms_kept (Store.growsRegularly_putReturns hs held unmarked)

end StoreDiscipline

end ClosedWorld
