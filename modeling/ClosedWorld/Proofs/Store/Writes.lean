import ClosedWorld.Analysis.Script
import ClosedWorld.Proofs.Store.Histories
import ClosedWorld.Proofs.Value.Atomwise

/-!
# Writes commute

What a store holds, it holds in cells, and a write joins one value to what some of them hold. Which
cells these are depends on the keys in the store, and no write adds a key. So in the end each cell
holds the join of what it held before and of all values that were written to it, and such a join
depends neither on the order of its values nor on repetitions.

## Main definitions

* `Store.Cell`, `Store.held`: the cells of a store, and what they hold.
* `Store.setFieldOfLeaves`: a write to a field, leaf by leaf.
* `Store.Request.Writes`, `Store.Request.entries`: requests that write to what is there already, and
  to which cells they write what.
* `Store.Receives`: values have been joined to cells.
* `Store.SameContent`: two stores hold the same.

## Main statements

* `Value.joinedAll_eq_of_mem_iff`: what is held after the same values have been joined to it.
* `Store.setField_eq_leaves`: a target is written leaf by leaf.
* `Store.receives_perform`, `Store.receives_performAll`: what one write and several do to the cells.
* `Store.performAll_sameContent`: writes commute, and they are idempotent.
-/

namespace ClosedWorld

/-! ### Joins of several values -/

namespace Value

variable {kinds : ClazzId → NumericKind} {u v w h : Value} {vs ws : List Value}
  {held : Option Value}

/-- What is held after several values have been joined to it, one after the other. -/
def joinedAll (held : Option Value) (values : List Value) : Option Value :=
  values.foldl (fun held value => some (joinedTo held value)) held

/-- Joining two lists of values to what is held is joining one after the other. -/
theorem joinedAll_append (held : Option Value) (vs ws : List Value) :
    joinedAll held (vs ++ ws) = joinedAll (joinedAll held vs) ws :=
  List.foldl_append

/-- Joining values to something that is held is folding them into it. -/
theorem joinedAll_some (h : Value) (vs : List Value) :
    joinedAll (some h) vs = some (vs.foldl join h) := by
  induction vs generalizing h with
  | nil => rfl
  | cons v vs ih => exact ih (h.join v)

/-- Where nothing is held, the values are joined with each other. -/
theorem joinedAll_none (some_value : vs ≠ []) : joinedAll none vs = some (joinAll vs) := by
  cases vs with
  | nil => exact absurd rfl some_value
  | cons v vs =>
    unfold joinAll
    rw [List.foldl_cons, noValue_join]
    exact joinedAll_some v vs

/-- A value that is joined again and again is joined once. -/
theorem joinedAll_of_forall_eq (settled : (joinedTo held v).join v = joinedTo held v)
    (some_value : vs ≠ []) (same : ∀ w ∈ vs, w = v) :
    joinedAll held vs = some (joinedTo held v) := by
  obtain ⟨w, rest, rfl⟩ := List.exists_cons_of_ne_nil some_value
  rw [List.forall_mem_cons] at same
  obtain ⟨rfl, same⟩ := same
  show joinedAll (some (joinedTo held w)) rest = _
  rw [joinedAll_some]
  clear some_value
  induction rest with
  | nil => rfl
  | cons u rest ih =>
    rw [List.forall_mem_cons] at same
    rw [List.foldl_cons, same.1, settled]
    exact ih same.2

/-- A value that has been joined to what is held adds nothing when it is joined once more. -/
theorem joinedTo_join_self (hh : ∀ h, held = some h → h.Canonical) (hv : v.Canonical) :
    (joinedTo held v).join v = joinedTo held v := by
  cases held with
  | none => exact join_self v
  | some h =>
    show (h.join v).join v = h.join v
    rw [(hh h rfl).join_assoc hv hv, join_self]

/-- Nothing is held at first and in the end just if no value is joined. -/
theorem joinedAll_none_eq_none_iff : joinedAll none vs = none ↔ vs = [] := by
  by_cases empty : vs = []
  · simp [empty, joinedAll]
  · simp [empty, joinedAll_none empty]

/-- Where nothing was held, the value that is held in the end is the join of those that were joined.
-/
theorem eq_joinAll_of_joinedAll_none (held : joinedAll none vs = some v) : v = joinAll vs := by
  have some_value : vs ≠ [] := by
    rintro rfl
    cases held
  rw [joinedAll_none some_value] at held
  exact (Option.some.inj held).symm

/-- Joining several values to what is held is joining their join to it. -/
theorem foldl_join_eq (hh : h.Canonical) (hvs : ∀ v ∈ vs, v.Regular kinds) :
    vs.foldl join h = h.join (joinAll vs) := by
  induction vs using List.reverseRecOn with
  | nil => exact (join_noValue h).symm
  | append_singleton vs v ih =>
    rw [List.forall_mem_append, List.forall_mem_singleton] at hvs
    calc (vs ++ [v]).foldl join h = (vs.foldl join h).join v := List.foldl_concat ..
      _ = (h.join (joinAll vs)).join v := by rw [ih hvs.1]
      _ = h.join ((joinAll vs).join v) :=
        hh.join_assoc (regular_joinAll hvs.1).canonical hvs.2.canonical
      _ = h.join (joinAll (vs ++ [v])) := by rw [joinAll_append_singleton]

/-- What is held in the end is determined by which regular values are joined to it. What was held
before need not agree with them on the kinds of numbers. -/
theorem joinedAll_eq_of_mem_iff (hh : ∀ h, held = some h → h.Canonical)
    (hvs : ∀ v ∈ vs, v.Regular kinds) (same : ∀ v, v ∈ vs ↔ v ∈ ws) :
    joinedAll held vs = joinedAll held ws := by
  have joined : joinAll vs = joinAll ws := joinAll_eq_of_mem_iff hvs same
  cases held with
  | some h =>
    rw [joinedAll_some, joinedAll_some, foldl_join_eq (hh h rfl) hvs,
      foldl_join_eq (hh h rfl) fun v hv => hvs v ((same v).2 hv), joined]
  | none =>
    by_cases empty : vs = []
    · have empty' : ws = [] := by
        rw [List.eq_nil_iff_forall_not_mem]
        intro v hv
        rw [← same, empty] at hv
        cases hv
      rw [empty, empty']
    · have some_value : ws ≠ [] := by
        obtain ⟨v, hv⟩ := List.exists_mem_of_ne_nil vs empty
        exact List.ne_nil_of_mem ((same v).1 hv)
      rw [joinedAll_none empty, joinedAll_none some_value, joined]

end Value

namespace Store

variable {s t u : Store}

/-! ### Cells -/

/-- A place in a store that holds a value. -/
inductive Cell where
  | field (id : InstanceId) (field : ClazzId)
  | elements (id : ArrayId)
  | binding (id : EnvId)
  | default (effect : ClazzId)
  /-- Whether a call is marked as returning. -/
  | returns (id : CallId)
  deriving DecidableEq

/-- What the store holds in a cell. The mark of a call that returns is the unit value. -/
def held (s : Store) : Cell → Option Value
  | .field id field => (s.instances.state? id).bind (·.find? field)
  | .elements id => s.arrays.state? id
  | .binding id => s.envs.state? id
  | .default effect => s.defaults.find? effect
  | .returns id => (s.calls.state? id).bind fun state => if state.returns then some .unit else none

/-- What is held by a cell of a store of canonical values is canonical. -/
theorem AllValues.held (hs : s.AllValues Value.Canonical) {cell : Cell} {v : Value}
    (h : s.held cell = some v) : v.Canonical := by
  cases cell with
  | field id field =>
    obtain ⟨fields, known, written⟩ := Option.bind_eq_some_iff.1 h
    exact hs.field known (OrderedMap.mem_entries_of_find? written)
  | elements id =>
    obtain rfl | canonical := hs.elements h
    · trivial
    · exact canonical
  | binding id => exact hs.binding h
  | default effect => exact hs.default h
  | returns id =>
    obtain ⟨state, -, marked⟩ := Option.bind_eq_some_iff.1 h
    cases hm : state.returns <;> rw [hm] at marked
    · cases marked
    · cases marked
      trivial

/-! ### Stores with the same keys -/

/-- What is known about a call, without its mark. -/
def unmarked (state : CallState) : CallState := { state with returns := false }

/-- The second store has the keys of the first one, and calls differ at most in their marks. -/
structure SameKeys (s t : Store) : Prop where
  instances : t.instances.keys = s.instances.keys
  calls : t.calls.keys = s.calls.keys
  envs : t.envs.keys = s.envs.keys
  arrays : t.arrays.keys = s.arrays.keys
  unmarked : ∀ id, (t.calls.state? id).map unmarked = (s.calls.state? id).map unmarked

/-- A store has the same keys as itself. -/
theorem SameKeys.refl (s : Store) : s.SameKeys s := ⟨rfl, rfl, rfl, rfl, fun _ => rfl⟩

/-- The relation `SameKeys` is transitive. -/
theorem SameKeys.trans (h : s.SameKeys t) (h' : t.SameKeys u) : s.SameKeys u where
  instances := h'.instances.trans h.instances
  calls := h'.calls.trans h.calls
  envs := h'.envs.trans h.envs
  arrays := h'.arrays.trans h.arrays
  unmarked id := (h'.unmarked id).trans (h.unmarked id)

/-- A search through the nodes depends on their keys only. -/
theorem SameKeys.findWithin (h : s.SameKeys t) (effect : ClazzId) (steps : Nat) :
    ∀ env, t.findWithin effect steps env = s.findWithin effect steps env := by
  have key (id : EnvId) : t.envKey id = s.envKey id := by
    unfold envKey
    rw [Interned.key?_eq_getElem?, h.envs, ← Interned.key?_eq_getElem?]
  induction steps with
  | zero =>
    intro env
    cases env <;> rfl
  | succ steps ih =>
    intro env
    cases env with
    | none => rfl
    | some id =>
      unfold Store.findWithin
      rw [key]
      simp only [ih]

/-- Where an effect is bound is read off the keys. -/
theorem SameKeys.findBinding (h : s.SameKeys t) (env : Option EnvId) (effect : ClazzId) :
    t.findBinding env effect = s.findBinding env effect := by
  unfold Store.findBinding
  rw [h.findWithin, Interned.size_eq_length_keys, h.envs, ← Interned.size_eq_length_keys]

/-! ### Elementary changes, cell by cell -/

section changes

variable (s)

/-- Writing a field changes what the cell of that field holds, and no other cell. -/
theorem held_putField {id : InstanceId} {fields : Fields}
    (known : s.instances.state? id = some fields) (field : ClazzId) (grown value : Value)
    (cell : Cell) :
    (s.putField id field fields grown value).held cell =
      if cell = .field id field then some grown else s.held cell := by
  cases cell with
  | field id' field' =>
    unfold held putField noting
    dsimp only
    rw [Interned.state?_set_eq]
    by_cases same : id' = id
    · rw [if_pos same, same, known]
      simp [OrderedMap.find?_insert]
    · simp [same]
  | _ => rfl

/-- Writing to an array changes what the cell of its elements holds, and no other cell. -/
theorem held_putElements {id : ArrayId} {elements : Value}
    (known : s.arrays.state? id = some elements) (grown value : Value) (cell : Cell) :
    (s.putElements id grown value).held cell =
      if cell = .elements id then some grown else s.held cell := by
  cases cell with
  | elements id' =>
    unfold held putElements noting
    dsimp only
    rw [Interned.state?_set_eq]
    by_cases same : id' = id
    · simp [same, known]
    · simp [same]
  | _ => rfl

/-- Writing to a node changes what the cell of its binding holds, and no other cell. -/
theorem held_putBinding {id : EnvId} {current : Value} (known : s.envs.state? id = some current)
    (effect : ClazzId) (grown : Value) (cell : Cell) :
    (s.putBinding id effect grown).held cell =
      if cell = .binding id then some grown else s.held cell := by
  cases cell with
  | binding id' =>
    unfold held putBinding noting
    dsimp only
    rw [Interned.state?_set_eq]
    by_cases same : id' = id
    · simp [same, known]
    · simp [same]
  | _ => rfl

/-- Installing a default changes what its cell holds, and no other cell. -/
theorem held_putDefault (effect : ClazzId) (grown : Value) (cell : Cell) :
    (s.putDefault effect grown).held cell =
      if cell = .default effect then some grown else s.held cell := by
  cases cell with
  | default effect' =>
    unfold held putDefault noting
    dsimp only
    rw [OrderedMap.find?_insert]
    simp
  | _ => rfl

/-- Marking a call changes what the cell of its mark holds, and no other cell. -/
theorem held_putReturns {id : CallId} {state : CallState}
    (known : s.calls.state? id = some state) (cell : Cell) :
    (s.putReturns id state).held cell =
      if cell = .returns id then some .unit else s.held cell := by
  cases cell with
  | returns id' =>
    unfold held putReturns noting
    dsimp only
    rw [Interned.state?_set_eq]
    by_cases same : id' = id
    · simp [same, known]
    · simp [same]
  | _ => rfl

/-- Marking a call keeps all keys, and the frame and the origin of the call. -/
theorem sameKeys_putReturns {id : CallId} {state : CallState}
    (known : s.calls.state? id = some state) : s.SameKeys (s.putReturns id state) where
  __ := SameKeys.refl s
  calls := Interned.keys_set _ _ _
  unmarked other := by
    unfold putReturns noting
    dsimp only
    rw [Interned.state?_set_eq]
    split
    · rename_i same
      rw [same, known]
      rfl
    · rfl

end changes

/-! ### Single writes -/

/-- The values that a list of writes brings to a cell, in order. -/
def valuesAt (cell : Cell) (writes : List (Cell × Value)) : List Value :=
  (writes.filter fun e => e.1 = cell).map Prod.snd

/-- The second store holds what the first one held, with the values that are written joined to it.
Nothing else has changed. -/
structure Receives (s t : Store) (writes : List (Cell × Value)) : Prop where
  keys : s.SameKeys t
  held : ∀ cell, t.held cell = Value.joinedAll (s.held cell) (valuesAt cell writes)

/-- No cell of a store has received anything yet. -/
theorem Receives.refl (s : Store) : s.Receives s [] := ⟨.refl s, fun _ => rfl⟩

/-- What cells have received twice in a row they have received in that order. -/
theorem Receives.trans {writes writes' : List (Cell × Value)} (h : s.Receives t writes)
    (h' : t.Receives u writes') : s.Receives u (writes ++ writes') where
  keys := h.keys.trans h'.keys
  held cell := by
    have values : valuesAt cell (writes ++ writes') =
        valuesAt cell writes ++ valuesAt cell writes' := by
      unfold valuesAt
      rw [List.filter_append, List.map_append]
    rw [h'.held, h.held, values, Value.joinedAll_append]

/-- One cell has received a value if the value has been joined to what it held, and the others hold
what they held. -/
theorem receives_single {cell : Cell} {value : Value} (keys : s.SameKeys t)
    (held : ∀ other, t.held other =
      if other = cell then some (.joinedTo (s.held cell) value) else s.held other) :
    s.Receives t [(cell, value)] where
  keys := keys
  held other := by
    rw [held]
    by_cases same : other = cell
    · simp [valuesAt, Value.joinedAll, same]
    · simp [valuesAt, Value.joinedAll, same, Ne.symm same]

/-- A cell has received a value that adds nothing to what it holds. -/
theorem receives_self {cell : Cell} {value : Value}
    (same : s.held cell = some (.joinedTo (s.held cell) value)) : s.Receives s [(cell, value)] := by
  refine receives_single (.refl s) fun other => ?_
  split
  · rename_i here
    rw [here]
    exact same
  · rfl

/-- Writing to an instance of the store succeeds, and the cell of the field receives the value. -/
theorem receives_joinField (field : ClazzId) (value : Value) {id : InstanceId} {fields : Fields}
    (known : s.instances.state? id = some fields) :
    ∃ t, (joinField id field value).outcome s = (.ok (), t) ∧
      s.Receives t [(.field id field, value)] := by
  have held : s.held (.field id field) = fields.find? field := by simp [Store.held, known]
  obtain ⟨unknown, -⟩ | ⟨fields', known', step⟩ := s.joinField_cases id field value
  · cases known.symm.trans unknown
  cases known.symm.trans known'
  obtain ⟨same, run⟩ | ⟨-, run⟩ := step
  · refine ⟨s, run, receives_self ?_⟩
    rw [held]
    exact same
  · refine ⟨_, run, receives_single ?_ fun cell => ?_⟩
    · exact { SameKeys.refl s with instances := Interned.keys_set _ _ _ }
    · rw [held]
      exact s.held_putField known field _ value cell

/-- Writing to an array of the store succeeds, and the cell of its elements receives the value. -/
theorem receives_arraySet (value : Value) {id : ArrayId} {elements : Value}
    (known : s.arrays.state? id = some elements) :
    ∃ t, (arraySet id value).outcome s = (.ok (), t) ∧ s.Receives t [(.elements id, value)] := by
  have held : s.held (.elements id) = some elements := known
  obtain ⟨unknown, -⟩ | ⟨elements', known', step⟩ := s.arraySet_cases id value
  · cases known.symm.trans unknown
  cases known.symm.trans known'
  obtain ⟨same, run⟩ | ⟨-, run⟩ := step
  · refine ⟨s, run, receives_self ?_⟩
    rw [held]
    exact congrArg some same.symm
  · refine ⟨_, run, receives_single ?_ fun cell => ?_⟩
    · exact { SameKeys.refl s with arrays := Interned.keys_set _ _ _ }
    · rw [held]
      exact s.held_putElements known _ value cell

/-- Installing a default makes its cell receive the value. -/
theorem receives_installDefault (effect : ClazzId) (value : Value) :
    s.Receives ((installDefault effect value).run s).2 [(.default effect, value)] := by
  obtain ⟨same, run⟩ | ⟨-, run⟩ := s.installDefault_cases effect value
  · rw [run]
    exact receives_self same
  · rw [run]
    refine receives_single ?_ fun cell => s.held_putDefault effect _ cell
    exact { SameKeys.refl s with }

/-- Replacing an effect that is bound by a node succeeds, and the cell of that binding receives the
value. -/
theorem receives_replaceEffect {env : Option EnvId} {effect : ClazzId} (value : Value) {id : EnvId}
    (found : s.findBinding env effect = .ok (some id)) {current : Value}
    (known : s.envs.state? id = some current) :
    ∃ t, (replaceEffect env effect value).outcome s = (.ok (), t) ∧
      s.Receives t [(.binding id, value)] := by
  have held : s.held (.binding id) = some current := known
  obtain ⟨e, found', -⟩ | ⟨found', -⟩ | ⟨found', -⟩ | ⟨id', found', unknown, -⟩ |
      ⟨id', current', found', known', step⟩ := s.replaceEffect_cases env effect value
  · cases found.symm.trans found'
  · cases found.symm.trans found'
  · cases found.symm.trans found'
  · cases found.symm.trans found'
    cases known.symm.trans unknown
  cases found.symm.trans found'
  cases known.symm.trans known'
  obtain ⟨same, run⟩ | ⟨-, run⟩ := step
  · refine ⟨s, run, receives_self ?_⟩
    rw [held]
    exact congrArg some same.symm
  · refine ⟨_, run, receives_single ?_ fun cell => ?_⟩
    · exact { SameKeys.refl s with envs := Interned.keys_set _ _ _ }
    · rw [held]
      exact s.held_putBinding known effect _ cell

/-- Marking a call of the store succeeds, and the cell of its mark receives `unit`. -/
theorem receives_markReturns {id : CallId} {state : CallState}
    (known : s.calls.state? id = some state) :
    ∃ t, (markReturns id).outcome s = (.ok (), t) ∧ s.Receives t [(.returns id, .unit)] := by
  have held : s.held (.returns id) = if state.returns then some .unit else none := by
    simp [Store.held, known]
  obtain ⟨unknown, -⟩ | ⟨state', known', step⟩ := s.markReturns_cases id
  · cases known.symm.trans unknown
  cases known.symm.trans known'
  obtain ⟨marked, run⟩ | ⟨unmarked, run⟩ := step
  · refine ⟨s, run, receives_self ?_⟩
    rw [held, if_pos marked]
    exact congrArg some (Value.join_self .unit).symm
  · refine ⟨_, run, receives_single (s.sameKeys_putReturns known) fun cell => ?_⟩
    rw [held, unmarked]
    exact s.held_putReturns known cell

/-! ### Writes to a field of all that a target may be -/

/-- Joins `value` into a field of every instance among the leaves of a target, in order. -/
def setFieldOfLeaves (field : ClazzId) (value : Value) : (leaves : List Value) → Updating Unit
  | [] => return ()
  | .object id :: rest => do
    joinField id field value
    setFieldOfLeaves field value rest
  | leaf :: _ => throw (.unexpectedValue .object leaf)

/-- Writing to some leaves and to others after them is writing to all of them. -/
theorem setFieldOfLeaves_append (field : ClazzId) (value : Value) (xs ys : List Value) :
    setFieldOfLeaves field value (xs ++ ys) = (do
      setFieldOfLeaves field value xs
      setFieldOfLeaves field value ys) := by
  induction xs with
  | nil => rfl
  | cons x xs ih =>
    cases x with
    | object id => simp only [List.cons_append, setFieldOfLeaves, ih, bind_assoc]
    | _ => rfl

/-- Writing to one leaf that is an instance is writing a field of that instance. -/
theorem setFieldOfLeaves_singleton (field : ClazzId) (value : Value) (id : InstanceId) :
    setFieldOfLeaves field value [.object id] = joinField id field value := by
  unfold setFieldOfLeaves setFieldOfLeaves
  exact bind_pure _

mutual

/-- A target is written leaf by leaf, however deep its instances are boxed. -/
theorem setField_eq_leaves (field : ClazzId) (value : Value) : (target : Value) →
    setField field value target = setFieldOfLeaves field value target.leaves
  | .set atoms => by
    unfold setField Value.leaves
    exact setFieldOfAtoms_eq_leaves field value atoms
  | .object id => (setFieldOfLeaves_singleton field value id).symm
  | .boxed content _ _ => by
    unfold setField Value.leaves
    exact setField_eq_leaves field value content
  | .noValue | .undefined | .unit | .bool _ | .number _ | .tagged .. | .array _ => rfl

/-- The part of `setField_eq_leaves` for the atoms of a target. -/
theorem setFieldOfAtoms_eq_leaves (field : ClazzId) (value : Value) : (atoms : List Value) →
    setFieldOfAtoms field value atoms = setFieldOfLeaves field value (Value.leavesOfAtoms atoms)
  | [] => rfl
  | atom :: rest => by
    cases atom with
    | set members => rfl
    | _ =>
      unfold setFieldOfAtoms Value.leavesOfAtoms
      rw [setFieldOfLeaves_append, setField_eq_leaves field value,
        setFieldOfAtoms_eq_leaves field value rest]

end

/-- The writes to a field that a list of leaves asks for. -/
def fieldEntries (field : ClazzId) (value : Value) (leaves : List Value) : List (Cell × Value) :=
  leaves.filterMap fun
    | .object id => some (.field id field, value)
    | _ => none

/-- Stores with the same keys have the same identifiers of instances. -/
theorem SameKeys.instance_ids (h : s.SameKeys t) : t.instances.ids = s.instances.ids :=
  Interned.ids_eq_of_keys_eq h.instances

/-- An identifier of a table has an entry. -/
theorem exists_state?_of_mem_ids {space : Space} {κ α : Type} {table : Interned space κ α}
    {id : Ident space} (known : id ∈ table.ids) : ∃ a, table.state? id = some a := by
  obtain ⟨key, known⟩ := Interned.mem_ids.1 known
  exact Interned.exists_state?_of_key? known

/-- A write to existing instances succeeds. -/
theorem receives_setFieldOfLeaves (field : ClazzId) (value : Value) {leaves : List Value}
    (known : ∀ leaf ∈ leaves, ∃ id ∈ s.instances.ids, leaf = .object id) :
    ∃ t, (setFieldOfLeaves field value leaves).outcome s = (.ok (), t) ∧
      s.Receives t (fieldEntries field value leaves) := by
  induction leaves generalizing s with
  | nil => exact ⟨s, rfl, .refl s⟩
  | cons leaf rest ih =>
    obtain ⟨⟨id, here, rfl⟩, later⟩ := List.forall_mem_cons.1 known
    obtain ⟨fields, held⟩ := exists_state?_of_mem_ids here
    obtain ⟨t, run, first⟩ := receives_joinField field value held
    rw [← first.keys.instance_ids] at later
    obtain ⟨u, run', last⟩ := ih later
    refine ⟨u, ?_, first.trans last⟩
    unfold setFieldOfLeaves
    rw [Attempt.outcome_bind, run]
    exact run'

/-- A write that succeeds was one to existing instances. -/
theorem known_of_setFieldOfLeaves {field : ClazzId} {value : Value} {leaves : List Value}
    (succeeds : ((setFieldOfLeaves field value leaves).outcome s).1 = .ok ()) :
    ∀ leaf ∈ leaves, ∃ id ∈ s.instances.ids, leaf = .object id := by
  induction leaves generalizing s with
  | nil => exact List.forall_mem_nil _
  | cons leaf rest ih =>
    cases leaf with
    | object id =>
      unfold setFieldOfLeaves at succeeds
      rw [Attempt.outcome_bind] at succeeds
      cases held : s.instances.state? id with
      | none =>
        obtain ⟨-, run⟩ | ⟨_, held', -⟩ := s.joinField_cases id field value
        · rw [run] at succeeds
          cases succeeds
        · cases held.symm.trans held'
      | some fields =>
        obtain ⟨t, run, first⟩ := receives_joinField field value held
        rw [run] at succeeds
        have known : id ∈ s.instances.ids :=
          Interned.mem_ids_iff_lt.2 (Interned.index_lt_size_of_state? held)
        refine List.forall_mem_cons.2 ⟨⟨id, known, rfl⟩, ?_⟩
        rw [← first.keys.instance_ids]
        exact ih succeeds
    | _ => cases succeeds

/-! ### Requests that write -/

/-- The request writes to what there is in the store: to fields of existing instances, to an array,
to a binding, to a default or to the mark of a call. -/
inductive Request.Writes (s : Store) : Request → Prop where
  | setField {target : Value} {field : ClazzId} {value : Value}
    (succeeds : ((Store.setField field value target).outcome s).1 = .ok ()) :
    Writes s (.setField target field value)
  | arraySet {id : ArrayId} {value : Value} (known : id ∈ s.arrays.ids) :
    Writes s (.arraySet id value)
  | replaceEffect {env : Option EnvId} {effect : ClazzId} {value : Value} {id : EnvId}
    (resolves : s.findBinding env effect = .ok (some id)) :
    Writes s (.replaceEffect env effect value)
  | installDefault {effect : ClazzId} {value : Value} : Writes s (.installDefault effect value)
  | markReturns {id : CallId} (known : id ∈ s.calls.ids) : Writes s (.markReturns id)

/-- The write to a binding that was found. -/
def bindingEntries (value : Value) : Except Fault (Option EnvId) → List (Cell × Value)
  | .ok (some id) => [(.binding id, value)]
  | _ => []

/-- To which cells the request writes what. -/
def Request.entries (s : Store) : Request → List (Cell × Value)
  | .setField target field value => fieldEntries field value target.leaves
  | .arraySet id value => [(.elements id, value)]
  | .replaceEffect env effect value => bindingEntries value (s.findBinding env effect)
  | .installDefault effect value => [(.default effect, value)]
  | .markReturns id => [(.returns id, .unit)]
  | _ => []

/-- A node that a search finds has a key. -/
theorem key?_of_findWithin {effect : ClazzId} {steps : Nat} {env : Option EnvId} {id : EnvId}
    (found : s.findWithin effect steps env = .ok (some id)) :
    ∃ key, s.envs.key? id = some key := by
  induction steps generalizing env with
  | zero => cases env <;> cases found
  | succ steps ih =>
    cases env with
    | none => cases found
    | some outer =>
      unfold findWithin at found
      obtain ⟨key, known, lookup⟩ | ⟨-, lookup⟩ := s.envKey_cases outer
      · rw [lookup] at found
        change (if key.effect = effect then Except.ok (some outer)
          else s.findWithin effect steps key.outer) = _ at found
        split at found
        · cases found
          exact ⟨key, known⟩
        · exact ih found
      · rw [lookup] at found
        cases found

/-- What a request writes is decided by the keys in the store. -/
theorem Request.entries_of_sameKeys (h : s.SameKeys t) (request : Request) :
    request.entries t = request.entries s := by
  cases request with
  | replaceEffect env effect value =>
    exact congrArg (bindingEntries value) (h.findBinding env effect)
  | _ => rfl

/-- Whether a request writes to what is there depends on the keys in the store. -/
theorem Request.Writes.of_sameKeys (h : s.SameKeys t) {request : Request}
    (writes : request.Writes s) : request.Writes t := by
  cases writes with
  | setField succeeds =>
    rw [setField_eq_leaves] at succeeds
    have known := known_of_setFieldOfLeaves succeeds
    rw [← h.instance_ids] at known
    obtain ⟨u, run, -⟩ := receives_setFieldOfLeaves _ _ known
    refine .setField ?_
    rw [setField_eq_leaves, run]
  | arraySet known =>
    refine .arraySet ?_
    rw [Interned.mem_ids_iff_lt] at known ⊢
    rwa [Interned.size_eq_length_keys, h.arrays, ← Interned.size_eq_length_keys]
  | replaceEffect resolves => exact .replaceEffect ((h.findBinding _ _).trans resolves)
  | installDefault => exact .installDefault
  | markReturns known =>
    refine .markReturns ?_
    rw [Interned.mem_ids_iff_lt] at known ⊢
    rwa [Interned.size_eq_length_keys, h.calls, ← Interned.size_eq_length_keys]

/-- What a step gives is wrapped into an `Answer` without any effect on the store. -/
theorem outcome_answer {α : Type} {step : Updating α} {a : α} (run : step.outcome s = (.ok a, t))
    (answer : α → Answer) :
    (do return answer (← step) : Updating Answer).outcome s = (.ok (answer a), t) := by
  rw [Attempt.outcome_bind, run]
  rfl

/-- A write succeeds, and the cells that it names receive what it writes. -/
theorem receives_perform {request : Request} (writes : request.Writes s) :
    ∃ answer t, request.perform.outcome s = (.ok answer, t) ∧ s.Receives t (request.entries s) := by
  cases writes with
  | setField succeeds =>
    rw [setField_eq_leaves] at succeeds
    obtain ⟨t, run, receives⟩ :=
      receives_setFieldOfLeaves _ _ (known_of_setFieldOfLeaves succeeds)
    rw [← setField_eq_leaves] at run
    exact ⟨_, t, outcome_answer run fun _ => .done, receives⟩
  | @arraySet id value known =>
    obtain ⟨elements, held⟩ := exists_state?_of_mem_ids known
    obtain ⟨t, run, receives⟩ := receives_arraySet value held
    exact ⟨_, t, outcome_answer run fun _ => .done, receives⟩
  | @replaceEffect env effect value id resolves =>
    obtain ⟨key, known⟩ := key?_of_findWithin resolves
    obtain ⟨current, held⟩ := Interned.exists_state?_of_key? known
    obtain ⟨t, run, receives⟩ := receives_replaceEffect value resolves held
    refine ⟨_, t, outcome_answer run fun _ => .done, ?_⟩
    show s.Receives t (bindingEntries value (s.findBinding env effect))
    rw [resolves]
    exact receives
  | @installDefault effect value =>
    exact ⟨_, _, outcome_answer (Attempt.outcome_growing ..) .flag,
      receives_installDefault effect value⟩
  | @markReturns id known =>
    obtain ⟨state, held⟩ := exists_state?_of_mem_ids known
    obtain ⟨t, run, receives⟩ := receives_markReturns held
    exact ⟨_, t, outcome_answer run fun _ => .done, receives⟩

/-- Several writes succeed, one after the other, and the cells receive what they write. -/
theorem receives_performAll {writes : List Request} (exist : ∀ w ∈ writes, w.Writes s) :
    ∃ t, (Script.performAll writes).outcome s = (.ok (), t) ∧
      s.Receives t (writes.flatMap (·.entries s)) := by
  induction writes generalizing s with
  | nil => exact ⟨s, rfl, .refl s⟩
  | cons write rest ih =>
    obtain ⟨here, exist⟩ := List.forall_mem_cons.1 exist
    obtain ⟨answer, t, run, first⟩ := receives_perform here
    obtain ⟨u, run', last⟩ := ih fun w hw => (exist w hw).of_sameKeys first.keys
    refine ⟨u, ?_, ?_⟩
    · unfold Script.performAll
      rw [Attempt.outcome_bind, run]
      exact run'
    · rw [List.flatMap_cons]
      simp only [Request.entries_of_sameKeys first.keys] at last
      exact first.trans last

/-! ### Order and repetition -/

variable {kinds : ClazzId → NumericKind}

/-- What a request that carries regular values brings to cells is regular. -/
theorem regular_entries {request : Request} (carries : request.Carries (Value.Regular kinds)) :
    ∀ e ∈ request.entries s, e.2.Regular kinds := by
  cases request with
  | setField target field value =>
    intro e he
    obtain ⟨leaf, -, written⟩ := List.mem_filterMap.1 he
    cases leaf with
    | object id =>
      cases written
      exact carries
    | _ => cases written
  | replaceEffect env effect value =>
    show ∀ e ∈ bindingEntries value (s.findBinding env effect), e.2.Regular kinds
    unfold bindingEntries
    split
    · exact List.forall_mem_singleton.2 carries
    · exact List.forall_mem_nil _
  | arraySet id value => exact List.forall_mem_singleton.2 carries
  | installDefault effect value => exact List.forall_mem_singleton.2 carries
  | markReturns id => exact List.forall_mem_singleton.2 ⟨trivial, trivial⟩
  | _ => exact List.forall_mem_nil _

/-- The values that some writes bring to a cell are those that are written to it. -/
theorem mem_valuesAt {cell : Cell} {writes : List (Cell × Value)} {v : Value} :
    v ∈ valuesAt cell writes ↔ (cell, v) ∈ writes := by
  unfold valuesAt
  simp

/-- The two stores have the same keys and call states, and fields, arrays, bindings and defaults
hold the same. -/
structure SameContent (s t : Store) : Prop where
  instances : s.instances.keys = t.instances.keys
  fields : ∀ id field, (s.instances.state? id).bind (·.find? field) =
    (t.instances.state? id).bind (·.find? field)
  calls : s.calls = t.calls
  envs : s.envs = t.envs
  arrays : s.arrays = t.arrays
  defaults : ∀ effect, s.defaults.find? effect = t.defaults.find? effect

/-- The state of a call is determined by its mark and by what it is apart from that. -/
theorem callState_eq_of_unmarked {state state' : Option CallState}
    (start : state.map unmarked = state'.map unmarked)
    (mark : (state.bind fun state => if state.returns then some Value.unit else none) =
      state'.bind fun state => if state.returns then some Value.unit else none) :
    state = state' := by
  cases state with
  | none => exact (Option.map_eq_none_iff.1 start.symm).symm
  | some state =>
    obtain ⟨state', rfl, same⟩ := Option.map_eq_some_iff.1 start.symm
    obtain ⟨frame, returns, origin⟩ := state
    obtain ⟨frame', returns', origin'⟩ := state'
    cases same
    cases returns <;> cases returns' <;> first | rfl | cases mark

/-- Stores with the same keys are the same if their cells are. -/
theorem sameContent_of_held (h : s.SameKeys t) (h' : s.SameKeys u)
    (held : ∀ cell, t.held cell = u.held cell) : t.SameContent u where
  instances := h.instances.trans h'.instances.symm
  fields id field := held (.field id field)
  calls := by
    refine Interned.eq_of_keys_of_state? (h.calls.trans h'.calls.symm) fun id => ?_
    exact callState_eq_of_unmarked ((h.unmarked id).trans (h'.unmarked id).symm)
      (held (.returns id))
  envs := Interned.eq_of_keys_of_state? (h.envs.trans h'.envs.symm) fun id => held (.binding id)
  arrays := Interned.eq_of_keys_of_state? (h.arrays.trans h'.arrays.symm)
    fun id => held (.elements id)
  defaults effect := held (.default effect)

/-- Writes commute, and they are idempotent. Let a store hold canonical values, and let regular
values be written to what there is. Then the writes succeed, and so do the same writes in any other
order and with any repetitions, and in the end the store holds the same. -/
theorem performAll_sameContent (hs : s.AllValues Value.Canonical) {writes writes' : List Request}
    (exist : ∀ w ∈ writes, w.Writes s)
    (regular : ∀ w ∈ writes, w.Carries (Value.Regular kinds))
    (same : ∀ w, w ∈ writes ↔ w ∈ writes') :
    ∃ t t', (Script.performAll writes).outcome s = (.ok (), t) ∧
      (Script.performAll writes').outcome s = (.ok (), t') ∧ t.SameContent t' := by
  obtain ⟨t, run, receives⟩ := receives_performAll exist
  obtain ⟨t', run', receives'⟩ := receives_performAll fun w hw => exist w ((same w).2 hw)
  refine ⟨t, t', run, run', sameContent_of_held receives.keys receives'.keys fun cell => ?_⟩
  rw [receives.held, receives'.held]
  apply Value.joinedAll_eq_of_mem_iff fun h held => hs.held held
  · intro v hv
    obtain ⟨w, hw, written⟩ := List.mem_flatMap.1 (mem_valuesAt.1 hv)
    exact regular_entries (regular w hw) _ written
  · intro v
    simp only [mem_valuesAt, List.mem_flatMap, same]

/-- Several writes reach one field, one array, one binding and one default, the latter with a number
of another kind than the one that it holds. The same writes come once in order, and once backwards
and then again in order. -/
theorem performAll_sameContent_overlapping :
    let s := after {} [.internInstance ⟨0⟩ none, .internInstance ⟨1⟩ none,
      .internArray (.alloc ⟨0⟩), .extendEnv none ⟨3⟩ (.bool .true),
      .installDefault ⟨4⟩ (.number ⟨⟨5⟩, .u8, some 1⟩),
      .internCall ⟨⟨0⟩, false, .unit, [], none⟩ none none]
    let writes : List Request := [
      .setField (.set [.object ⟨0⟩, .boxed (.object ⟨1⟩) ⟨8⟩ ⟨9⟩]) ⟨2⟩
        (.number ⟨⟨5⟩, .i32, some 1⟩),
      .setField (.object ⟨1⟩) ⟨2⟩ (.bool .true), .arraySet ⟨0⟩ .unit, .arraySet ⟨0⟩ (.object ⟨0⟩),
      .replaceEffect (some ⟨0⟩) ⟨3⟩ (.bool .false), .replaceEffect (some ⟨0⟩) ⟨3⟩ .unit,
      .installDefault ⟨4⟩ (.number ⟨⟨5⟩, .i32, some 2⟩), .installDefault ⟨4⟩ .unit,
      .markReturns ⟨0⟩]
    (∀ w ∈ writes, w.Writes s) ∧
      ∃ t t', (Script.performAll writes).outcome s = (.ok (), t) ∧
        (Script.performAll (writes.reverse ++ writes)).outcome s = (.ok (), t') ∧
        t.SameContent t' ∧ t.held (.default ⟨4⟩) = some (.set [.unit, .number (.any ⟨5⟩ .u8)]) := by
  intro s writes
  have held : s.IsRegular fun _ => .u8 := by
    refine isRegular_after (allValues_empty _) ?_
    simp only [List.forall_mem_cons, List.not_mem_nil, IsEmpty.forall_iff, implies_true, and_true]
    exact ⟨trivial, trivial, trivial, ⟨trivial, trivial⟩, ⟨trivial, rfl⟩, ⟨trivial, trivial⟩,
      List.forall_mem_nil _⟩
  have exist : ∀ w ∈ writes, w.Writes s := by
    simp only [writes, List.forall_mem_cons, List.not_mem_nil, IsEmpty.forall_iff, implies_true,
      and_true]
    have bound : s.findBinding (some ⟨0⟩) ⟨3⟩ = .ok (some ⟨0⟩) := by decide +kernel
    exact ⟨.setField rfl, .setField rfl, .arraySet (by decide), .arraySet (by decide),
      .replaceEffect bound, .replaceEffect bound, .installDefault, .installDefault,
      .markReturns (by decide)⟩
  have regular : ∀ w ∈ writes, w.Carries (Value.Regular fun _ => .i32) := by
    simp only [writes, List.forall_mem_cons, List.not_mem_nil, IsEmpty.forall_iff, implies_true,
      and_true]
    exact ⟨⟨trivial, rfl⟩, ⟨trivial, trivial⟩, ⟨trivial, trivial⟩, ⟨trivial, trivial⟩,
      ⟨trivial, trivial⟩, ⟨trivial, trivial⟩, ⟨trivial, rfl⟩, ⟨trivial, trivial⟩, trivial⟩
  have same : ∀ w, w ∈ writes ↔ w ∈ writes.reverse ++ writes := by simp
  obtain ⟨t, t', run, run', alike⟩ :=
    performAll_sameContent (held.mono fun _ h => h.canonical) exist regular same
  refine ⟨exist, t, t', run, run', alike, ?_⟩
  have final : t = ((Script.performAll writes).outcome s).2 := by rw [run]
  rw [final]
  decide +kernel

end Store

end ClosedWorld
