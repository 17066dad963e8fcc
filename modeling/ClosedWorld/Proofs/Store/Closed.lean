import ClosedWorld.Proofs.Store.Discipline
import ClosedWorld.Proofs.Store.Fitting
import ClosedWorld.Proofs.Store.Values
import ClosedWorld.Proofs.Value.Parts

/-!
# Closed stores

A store is closed if every identifier in it is that of an entry of its tables, however deep in a
value the identifier is. Nothing is ever looked up in a closed store in vain.

## Main definitions

* `Store.PointsInto`, `Store.Closed`: where the identifiers in a store lead.
* `Fault.isInternal`: faults that say that something which has to be there is not.
* `StoreDiscipline.closed`: the discipline of closed stores that fit a well-formed program.

## Main statements

* `Store.PointsInto.addCall` and the others: one for each elementary change.
-/

namespace ClosedWorld

/-- The table has an entry for the identifier. -/
def Interned.Has {space : Space} {κ α : Type} (t : Interned space κ α) (i : Ident space) : Prop :=
  i.index < t.size

namespace Store

/-- If the value is an instance or an array, the store has it. -/
def Holds (s : Store) : Value → Prop
  | .object id => s.instances.Has id
  | .array id => s.arrays.Has id
  | _ => True

/-- Every identifier in the first store is that of an entry of the second one: those in values, at
every depth, the environments and the origins of calls, their frames, and what nodes and arrays
belong to. -/
structure PointsInto (s t : Store) : Prop where
  values : s.AllValues fun v => v.Everywhere t.Holds
  calls : s.calls.All fun key state => (∀ id, key.env = some id → t.envs.Has id) ∧
    t.instances.Has state.frame ∧ ∀ id, state.origin = some id → t.calls.Has id
  envs : s.envs.All fun key _ => ∀ id, key.outer = some id → t.envs.Has id
  arrays : s.arrays.All fun key _ => ∀ id, key = .alloc id → t.calls.Has id

/-- Every identifier in the store is that of an entry of its own tables. -/
def Closed (s : Store) : Prop := s.PointsInto s

/-- The tables of the second store have as many entries as those of the first one, or more. -/
structure Within (s t : Store) : Prop where
  instances : s.instances.size ≤ t.instances.size
  calls : s.calls.size ≤ t.calls.size
  envs : s.envs.size ≤ t.envs.size
  arrays : s.arrays.size ≤ t.arrays.size

/-- The empty store is `Closed`, for want of identifiers. -/
theorem closed_empty : Closed {} where
  values := allValues_empty _
  calls _ _ _ held := by cases held
  envs _ _ _ held := by cases held
  arrays _ _ _ held := by cases held

variable {s t u : Store}

/-- A store has as many entries as itself. -/
theorem Within.refl (s : Store) : s.Within s :=
  ⟨Nat.le_refl _, Nat.le_refl _, Nat.le_refl _, Nat.le_refl _⟩

/-- The relation `Within` is transitive, table by table. -/
theorem Within.trans (h : s.Within t) (h' : t.Within u) : s.Within u where
  instances := Nat.le_trans h.instances h'.instances
  calls := Nat.le_trans h.calls h'.calls
  envs := Nat.le_trans h.envs h'.envs
  arrays := Nat.le_trans h.arrays h'.arrays

/-- What a store holds, a store with as many entries holds as well. -/
theorem Holds.mono (h : s.Within t) (v : Value) (hv : s.Holds v) : t.Holds v := by
  cases v with
  | object id => exact Nat.lt_of_lt_of_le hv h.instances
  | array id => exact Nat.lt_of_lt_of_le hv h.arrays
  | _ => trivial

/-- What a store holds survives the merging of atoms, which makes up no identifier. -/
theorem joinStable_holds (s : Store) : Value.JoinStable s.Holds where
  set _ := trivial
  bool := trivial
  number _ _ := trivial
  boxed _ _ := trivial
  tagged _ _ := trivial

namespace PointsInto

/-- Dropping the note of a change keeps all identifiers leading where they led. -/
theorem unnoted (hs : s.PointsInto t) : s.unnoted.PointsInto t :=
  { hs with values := hs.values.unnoted }

/-- Identifiers that lead into a store lead into every store with as many entries. -/
theorem mono (h : t.Within u) (hs : s.PointsInto t) : s.PointsInto u where
  values := hs.values.mono fun _ hv => hv.mono (Holds.mono h)
  calls i k state held :=
    have ⟨env, frame, origin⟩ := hs.calls i k state held
    ⟨fun id he => Nat.lt_of_lt_of_le (env id he) h.envs, Nat.lt_of_lt_of_le frame h.instances,
      fun id ho => Nat.lt_of_lt_of_le (origin id ho) h.calls⟩
  envs i k v held id ho := Nat.lt_of_lt_of_le (hs.envs i k v held id ho) h.envs
  arrays i k v held id ho := Nat.lt_of_lt_of_le (hs.arrays i k v held id ho) h.calls

/-! ### The elementary changes -/

/-- Adding an instance brings in no identifier, as it has no fields yet. -/
theorem addInstance (hs : s.PointsInto t) (key : InstanceKey) :
    (s.addInstance key).PointsInto t :=
  { hs with values := hs.values.addInstance key }

/-- Writing a field keeps identifiers leading into `t` if those in the `value` do. -/
theorem putField (hs : s.PointsInto t) {id : InstanceId} {fields : Fields}
    (held : s.instances.state? id = some fields) (field : ClazzId) {value : Value}
    (hv : value.Everywhere t.Holds) :
    (s.putField id field fields (.joinedTo (fields.find? field) value) value).PointsInto t :=
  { hs with values := hs.values.putField t.joinStable_holds.everywhere_join held field hv }

/-- Adding an array brings in the call that allocated it, if there is one, so this has to be in `t`.
-/
theorem addArray (hs : s.PointsInto t) {key : ArrayKey}
    (hk : ∀ id, key = .alloc id → t.calls.Has id) : (s.addArray key).PointsInto t :=
  { hs with
    values := hs.values.addArray key
    arrays := Interned.all_push hs.arrays hk }

/-- Writing to an array keeps identifiers leading into `t` if those in the `value` do. -/
theorem putElements (hs : s.PointsInto t) {id : ArrayId} {elements : Value}
    (held : s.arrays.state? id = some elements) {value : Value} (hv : value.Everywhere t.Holds) :
    (s.putElements id (elements.join value) value).PointsInto t :=
  { hs with
    values := hs.values.putElements t.joinStable_holds.everywhere_join held hv
    arrays := Interned.all_set hs.arrays fun key old entry => hs.arrays id key old entry }

/-- Adding a node brings in the environment around it and the identifiers in its first value. -/
theorem addBinding (hs : s.PointsInto t) {key : EnvKey}
    (ho : ∀ id, key.outer = some id → t.envs.Has id) (hk : key.initial.Everywhere t.Holds) :
    (s.addBinding key).PointsInto t :=
  { hs with
    values := hs.values.addBinding hk
    envs := Interned.all_push hs.envs ho }

/-- Writing to a node keeps identifiers leading into `t` if those in the `value` do. -/
theorem putBinding (hs : s.PointsInto t) {id : EnvId} (effect : ClazzId) {current : Value}
    (held : s.envs.state? id = some current) {value : Value} (hv : value.Everywhere t.Holds) :
    (s.putBinding id effect (current.join value)).PointsInto t :=
  { hs with
    values := hs.values.putBinding t.joinStable_holds.everywhere_join effect held hv
    envs := Interned.all_set hs.envs fun key old entry => hs.envs id key old entry }

/-- Installing a default keeps identifiers leading into `t` if those in the `value` do. -/
theorem putDefault (hs : s.PointsInto t) (effect : ClazzId) {value : Value}
    (hv : value.Everywhere t.Holds) :
    (s.putDefault effect (.joinedTo (s.defaults.find? effect) value)).PointsInto t :=
  { hs with values := hs.values.putDefault t.joinStable_holds.everywhere_join effect hv }

/-- Adding a call brings in identifiers in every part of it: target, arguments, environment, frame
and origin. -/
theorem addCall (hs : s.PointsInto t) {key : CallKey} (ht : key.target.Everywhere t.Holds)
    (ha : ∀ v ∈ key.args, v.Everywhere t.Holds) (he : ∀ id, key.env = some id → t.envs.Has id)
    {frame : InstanceId} (hf : t.instances.Has frame) {origin : Option CallId}
    (ho : ∀ id, origin = some id → t.calls.Has id) : (s.addCall key frame origin).PointsInto t :=
  { hs with
    values := hs.values.addCall ht ha frame origin
    calls := Interned.all_push hs.calls ⟨he, hf, ho⟩ }

/-- Marking a call brings in no identifier. -/
theorem putReturns (hs : s.PointsInto t) {id : CallId} {state : CallState}
    (held : s.calls.state? id = some state) : (s.putReturns id state).PointsInto t := by
  obtain ⟨key, entry⟩ := Interned.exists_get?_of_state? held
  refine { hs with
    values := hs.values.putReturns id state
    calls := Interned.all_set hs.calls fun key' state' entry' => ?_ }
  rw [entry] at entry'
  cases entry'
  exact hs.calls id key state entry

end PointsInto

/-- Dropping the note of a change keeps a store `Closed`. -/
theorem Closed.unnoted (hs : s.Closed) : s.unnoted.Closed :=
  { PointsInto.unnoted hs with }

end Store

/-! ### The discipline -/

/-- The fault says that something is missing which has to be there: an entry of a table, an
instruction, a precondition that was found before, the field for a result that was checked before,
or the value of an assignment. -/
def Fault.isInternal : Fault → Bool
  | unknownInstance _ | unknownCall _ | unknownEnv _ | unknownArray _ => true
  | walk (.missingInstruction ..) | walk (.missingPrecondition _) => true
  | malformedClazz _ problem => problem = .noResultField || problem = .noValue
  | _ => false

/-- A plain fault is not one that says that something is missing. -/
theorem Fault.isInternal_of_isPlain {fault : Fault} (h : fault.isPlain = true) :
    fault.isInternal = false := by
  cases fault with
  | malformedClazz name problem => cases problem <;> first | rfl | cases h
  | walk error => cases error <;> first | rfl | cases h
  | _ => first | rfl | cases h

/-- Blocks were found to be nested deeper than a walk is ready to go. -/
def Fault.isEndless : Fault → Bool
  | walk (.endlessNesting _) => true
  | _ => false

/-- A plain fault is not about blocks that are nested too deep. -/
theorem Fault.isEndless_of_isPlain {fault : Fault} (h : fault.isPlain = true) :
    fault.isEndless = false := by
  cases fault with
  | walk error => cases error <;> first | rfl | cases h
  | _ => rfl

namespace StoreDiscipline

/-- Stores are closed and fit the program. Blocks are found to be nested too deep only if they are.
-/
def closedTerms (view : View) : StoreTerms where
  Inv s := s.Closed ∧ s.Fits view
  Leads := Store.Within
  Allowed fault := fault.isInternal = false ∧
    ((∀ code, view.NestsWithin view.nestingLimit code) → fault.isEndless = false)
  Good s v := v.Everywhere s.Holds ∧ v.Everywhere view.Makes
  GoodCall s id := s.calls.Has id
  GoodEnv s id := s.envs.Has id
  Called _ _ _ := True
  Ready _ _ := True
  Known := view.Occurs
  GoodArity n := n ≤ view.maxArity
  leads_refl := .refl
  leads_trans := .trans
  good_mono h hv := ⟨hv.1.mono (Store.Holds.mono h), hv.2⟩
  goodCall_mono h hc := Nat.lt_of_lt_of_le hc h.calls
  goodEnv_mono h he := Nat.lt_of_lt_of_le he h.envs
  called_mono _ _ := trivial

/-- A closed store that fits the program and has grown is `Kept`, in the terms of this discipline.
-/
theorem closedTerms_kept {view : View} {s t : Store} (leads : s.Within t) (closed : t.Closed)
    (fits : t.Fits view) : (closedTerms view).Kept s t :=
  ⟨⟨closed, fits⟩, leads⟩

/-- An identifier whose entry is not found is not one that the table has. -/
theorem not_has_of_get?_eq_none {space : Space} {κ α : Type} {t : Interned space κ α}
    {i : Ident space} (unknown : t.get? i = none) : ¬t.Has i :=
  Nat.not_lt_of_le (Interned.get?_eq_none_iff.1 unknown)

variable {p : Program}

open Value in
/-- Elementary changes keep a store closed. What a well-formed program mentions it has. -/
def closed (hp : p.WellFormed) : StoreDiscipline p.view where
  toStoreTerms := closedTerms p.view
  good_join {s _ _} hv hw := ⟨s.joinStable_holds.everywhere_join hv.1 hw.1,
    p.view.joinStable_makes.everywhere_join hv.2 hw.2⟩
  good_atom hv ha := ⟨hv.1.of_mem_atoms ha, hv.2.of_mem_atoms ha⟩
  good_of_atoms_eq_nil _ _ := ⟨everywhere_noValue.2 trivial, everywhere_noValue.2 trivial⟩
  good_of_boxed hv := ⟨(everywhere_boxed.1 hv.1).2, (everywhere_boxed.1 hv.2).2⟩
  good_of_tagged hv := ⟨(everywhere_tagged.1 hv.1).2, (everywhere_tagged.1 hv.2).2⟩
  good_boxed hv _ boxes :=
    ⟨everywhere_boxed.2 ⟨trivial, hv.1⟩, everywhere_boxed.2 ⟨boxes, hv.2⟩⟩
  good_tagged hv tags _ :=
    ⟨everywhere_tagged.2 ⟨trivial, hv.1⟩, everywhere_tagged.2 ⟨tags, hv.2⟩⟩
  good_undefined _ := ⟨everywhere_undefined.2 trivial, everywhere_undefined.2 trivial⟩
  good_unit _ := ⟨everywhere_unit.2 trivial, everywhere_unit.2 trivial⟩
  good_bool _ _ := ⟨everywhere_bool.2 trivial, everywhere_bool.2 trivial⟩
  good_any special _ := ⟨everywhere_number.2 trivial, everywhere_number.2 special⟩
  good_constant special _ _ := ⟨everywhere_number.2 trivial, everywhere_number.2 special⟩
  good_count _ _ special _ _ _ := ⟨everywhere_number.2 trivial, everywhere_number.2 special⟩
  known_reference found mentioned := .inl (hp.instr_reference found mentioned)
  known_layout told c listed := .inr ⟨_, told, listed⟩
  known_mentioned _ mentioned := .inl (hp.clazz_reference mentioned)
  goodArity := p.view.arity_le_maxArity
  goodArity_zero := Nat.zero_le _
  allowed_noResultField routine produces notUnit other lacking :=
    absurd lacking (hp.resultField routine produces notUnit other)
  allowed_missingInstruction missing announced :=
    absurd announced (Nat.not_lt_of_le (List.getElem?_eq_none_iff.1 missing))
  nests_or_allowed := by
    -- Where blocks nest too deeply, walks that never end are allowed, and there is nothing to show.
    by_cases nests : ∀ code, p.NestsWithin p.view.nestingLimit code
    · exact .inl nests
    · exact .inr fun _ => ⟨rfl, fun nests' => absurd nests' nests⟩
  good_object hs held :=
    ⟨everywhere_object.2 (Interned.index_lt_size_of_key? held), everywhere_object.2 trivial⟩
  good_array hs held :=
    ⟨everywhere_array.2 (Interned.index_lt_size_of_key? held), everywhere_array.2 trivial⟩
  goodEnv_of_key _ held := Interned.index_lt_size_of_key? held
  goodCall_of_key _ held := Interned.index_lt_size_of_key? held
  called_of_key _ _ := trivial
  ready _ := trivial
  goodContext_none _ h := nomatch h
  goodContext_of_key hs held := by
    obtain ⟨fields, entry⟩ := Interned.exists_get?_of_key? held
    exact (hs.2.instances _ _ fields entry).2.1
  known_field hs held he := hs.2.field held he
  good_field hs held he := ⟨hs.1.values.field held he, hs.2.values.field held he⟩
  loose_elements hs held :=
    or_and_left.2 ⟨hs.1.values.elements held, hs.2.values.elements held⟩
  good_binding hs held := ⟨hs.1.values.binding held, hs.2.values.binding held⟩
  goodEnv_outer hs held ho := by
    obtain ⟨v, entry⟩ := Interned.exists_get?_of_key? held
    exact hs.1.envs _ _ v entry _ ho
  good_default hs held := ⟨hs.1.values.default held, hs.2.values.default held⟩
  goodKey hs held := by
    obtain ⟨state, entry⟩ := Interned.exists_get?_of_key? held
    obtain ⟨target, args⟩ := hs.1.values.call held
    obtain ⟨target', args'⟩ := hs.2.values.call held
    obtain ⟨known, arity, checked⟩ := hs.2.calls _ _ state entry
    exact ⟨known, ⟨target, target'⟩, fun v hv => ⟨args v hv, args' v hv⟩, arity,
      (hs.1.calls _ _ state entry).1, fun pre => .inl (checked pre)⟩
  good_frame hs held := by
    obtain ⟨key, entry⟩ := Interned.exists_get?_of_state? held
    exact ⟨everywhere_object.2 (hs.1.calls _ key _ entry).2.1, everywhere_object.2 trivial⟩
  allowed_of_isPlain plain :=
    ⟨Fault.isInternal_of_isPlain plain, fun _ => Fault.isEndless_of_isPlain plain⟩
  allowed_unknownInstance _ hv unknown :=
    absurd (everywhere_object.1 hv.1) (not_has_of_get?_eq_none unknown)
  allowed_unknownArray _ hv unknown :=
    absurd (everywhere_array.1 hv.1) (not_has_of_get?_eq_none unknown)
  allowed_unknownEnv _ he unknown := absurd he (not_has_of_get?_eq_none unknown)
  allowed_unknownCall _ hc unknown := absurd hc (not_has_of_get?_eq_none unknown)
  -- A change leaves the tables at least as large, so all that values hold is still there.
  kept_addInstance {s key} hs new known context :=
    have leads : s.Within (s.addInstance key) :=
      { Store.Within.refl s with instances := Interned.size_le_push .. }
    closedTerms_kept leads ((hs.1.mono leads).addInstance key) (hs.2.addInstance new known context)
  kept_putField {s id field fields value} hs held _ _ known hv :=
    have leads : s.Within
        (s.putField id field fields (.joinedTo (fields.find? field) value) value) :=
      { Store.Within.refl s with instances := Interned.size_le_set .. }
    closedTerms_kept leads
      ((hs.1.mono leads).putField held field (hv.1.mono (Store.Holds.mono leads)))
      (hs.2.putField held known hv.2)
  kept_addArray {s key} hs new hk := by
    have leads : s.Within (s.addArray key) :=
      { Store.Within.refl s with arrays := Interned.size_le_push .. }
    refine closedTerms_kept leads ((hs.1.mono leads).addArray ?_) (hs.2.addArray new ?_)
    · rintro id rfl
      exact hk.1
    · cases key with
      | alloc id => exact hk.2
      | const site => exact hk
  kept_putElements {s id elements value} hs held _ _ hv :=
    have leads : s.Within (s.putElements id (elements.join value) value) :=
      { Store.Within.refl s with arrays := Interned.size_le_set .. }
    closedTerms_kept leads
      ((hs.1.mono leads).putElements held (hv.1.mono (Store.Holds.mono leads)))
      (hs.2.putElements held hv.2)
  kept_addBinding {s key} hs new installs ho hv :=
    have leads : s.Within (s.addBinding key) :=
      { Store.Within.refl s with envs := Interned.size_le_push .. }
    closedTerms_kept leads
      ((hs.1.mono leads).addBinding (fun id h => Nat.lt_of_lt_of_le (ho id h) leads.envs)
        (hv.1.mono (Store.Holds.mono leads))) (hs.2.addBinding new installs hv.2)
  kept_putBinding {s id effect current value} hs held _ hv :=
    have leads : s.Within (s.putBinding id effect (current.join value)) :=
      { Store.Within.refl s with envs := Interned.size_le_set .. }
    closedTerms_kept leads
      ((hs.1.mono leads).putBinding effect held (hv.1.mono (Store.Holds.mono leads)))
      (hs.2.putBinding effect held hv.2)
  kept_putDefault {s effect value} hs _ known hv :=
    have leads : s.Within (s.putDefault effect (.joinedTo (s.defaults.find? effect) value)) :=
      { Store.Within.refl s with }
    closedTerms_kept leads
      ((hs.1.mono leads).putDefault effect (hv.1.mono (Store.Holds.mono leads)))
      (hs.2.putDefault known hv.2)
  kept_addCall {s key frame context origin} hs new hk framed ho := by
    have leads : s.Within (s.addCall key frame origin) :=
      { Store.Within.refl s with calls := Interned.size_le_push .. }
    have hk' := hk.mono (D := closedTerms p.view) leads
    have hf : (s.addCall key frame origin).instances.Has frame :=
      Interned.index_lt_size_of_key? framed
    exact closedTerms_kept leads
      ((hs.1.mono leads).addCall hk'.target.1 (fun v hv => (hk'.args v hv).1) hk'.env hf
        fun id h => Nat.lt_of_lt_of_le (ho id h) leads.calls)
      (hs.2.addCall new hk.known hk.arity
        (fun pre => (hk.checked pre).resolve_right (by rintro ⟨⟨⟩, -⟩))
        hk.target.2 (fun v hv => (hk.args v hv).2) frame origin)
  kept_putReturns {s id state _} hs held _ _ _ _ _ :=
    have leads : s.Within (s.putReturns id state) :=
      { Store.Within.refl s with calls := Interned.size_le_set .. }
    closedTerms_kept leads ((hs.1.mono leads).putReturns held) (hs.2.putReturns id state)

end StoreDiscipline

end ClosedWorld
