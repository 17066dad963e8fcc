import ClosedWorld.Proofs.Store.Coverage

/-!
# Operations on a store and on one that covers it

An operation on a covered store leaves it covered if the same operation, with values that mirror its
own, finds nothing to change in the other store. What the two yield is mirrored again.

## Main definitions

* `Wrapping.isBox`: boxes, which reads and writes look into.
* `Store.Absorbs`: a write that changes nothing.

## Main statements

* `Store.proceeds_setField`, `Store.mirrors_readField` and the others: one for each operation.
-/

namespace ClosedWorld

/-- Boxes are looked into where fields are read and written, and tags are not. -/
def Wrapping.isBox : Wrapping → Bool
  | .boxed .. => true
  | .tagged .. => false

namespace Store

variable {view : View} {s t t' : Store} {v w value value' target target' : Value}
  {path : List Wrapping} {item : Item} {field : ClazzId} {place : Place}

/-- The store holds at the place what the value shows. -/
def Absorbs (t : Store) (place : Place) (value : Value) : Prop :=
  ∃ w, t.At place w ∧ ∀ path item, value.Shows path item → w.Shows path item

/-- A place `Absorbs` a value that adds nothing to what is held there. -/
theorem absorbs_of_join_eq (held : t.At place w) (same : w.join value = w) :
    t.Absorbs place value :=
  ⟨w, held, fun _ _ shown => same ▸ Value.shows_join.2 (.inr shown)⟩

/-- The case of `absorbs_of_join_eq` in which there may be nothing held yet. -/
theorem absorbs_of_joinedTo {held : Option Value} (same : held = some (.joinedTo held value))
    (at_held : ∀ w, held = some w → t.At place w) : t.Absorbs place value := by
  cases held with
  | none => cases same
  | some w => exact absorbs_of_join_eq (at_held w rfl) (Option.some.inj same).symm

/-- A value is `Mirrored` at a place that `Absorbs` what mirrors it. -/
theorem Mirrors.mirrored (hv : Mirrors view s t value value') (absorbs : t.Absorbs place value') :
    Mirrored view t s place value := by
  obtain ⟨w, held, more⟩ := absorbs
  exact ⟨w, held, hv.in_shows more⟩

/-! ### Writing fields -/

/-- Below boxes, the target has the instance. -/
def Reaches (target : Value) (id : InstanceId) : Prop :=
  ∃ path, (∀ wrapping ∈ path, wrapping.isBox = true) ∧ target.Shows path (.object id)

/-- An instance reaches nothing but itself. -/
theorem Reaches.of_object {id id' : InstanceId} (h : Reaches (.object id) id') : id' = id := by
  obtain ⟨path, -, shown⟩ := h
  obtain ⟨-, ⟨⟩⟩ := shown.of_value (.object id)
  rfl

/-- What a box reaches, its content reaches. -/
theorem Reaches.of_boxed {content : Value} {valueClazz refClazz : ClazzId} {id : InstanceId}
    (h : Reaches (.boxed content valueClazz refClazz) id) : Reaches content id := by
  obtain ⟨path, boxes, shown⟩ := h
  obtain ⟨rest, rfl, inside⟩ := shown.of_around (.boxed valueClazz refClazz)
  exact ⟨rest, (List.forall_mem_cons.1 boxes).2, inside⟩

/-- What a set reaches, one of its members reaches. -/
theorem Reaches.of_set {atoms : List Value} {id : InstanceId} (h : Reaches (.set atoms) id) :
    ∃ a ∈ atoms, Reaches a id := by
  obtain ⟨path, boxes, shown⟩ := h
  obtain ⟨a, ha, -, shown⟩ := shown.exists_atom
  exact ⟨a, ha, path, boxes, shown⟩

/-- An absent target reaches no instance. -/
theorem not_reaches_of_isAbsent {id : InstanceId} (absent : target.isAbsent = true) :
    ¬Reaches target id :=
  fun ⟨_, _, shown⟩ => Value.not_shows_of_isAbsent absent shown

/-- An instance reaches itself. -/
theorem reaches_object (id : InstanceId) : Reaches (.object id) id :=
  ⟨[], List.forall_mem_nil _, Value.shows_value (.object id)⟩

/-- What the content of a box reaches, the box reaches. -/
theorem Reaches.boxed {content : Value} {valueClazz refClazz : ClazzId} {id : InstanceId}
    (h : Reaches content id) : Reaches (.boxed content valueClazz refClazz) id := by
  obtain ⟨path, boxes, shown⟩ := h
  exact ⟨_ :: path, List.forall_mem_cons.2 ⟨rfl, boxes⟩,
    shown.around (.boxed valueClazz refClazz)⟩

/-- What a member of a set reaches, the set reaches, unless the member is a set itself. -/
theorem Reaches.member {atoms : List Value} {a : Value} {id : InstanceId} (ha : a ∈ atoms)
    (single : ∀ members, a ≠ .set members) (h : Reaches a id) : Reaches (.set atoms) id := by
  obtain ⟨path, boxes, shown⟩ := h
  have atom : a.isAtom = true := by
    cases a with
    | noValue | undefined => exact absurd shown (Value.not_shows_of_isAbsent rfl)
    | set members => exact absurd rfl (single members)
    | _ => rfl
  exact ⟨path, boxes, shown.of_mem_atoms atom ha⟩

/-- To each instance that a target reaches there is one of the same clazz that what mirrors it
reaches. -/
theorem Mirrors.reaches (hv : Mirrors view s t target target') {id : InstanceId}
    (reached : Reaches target id) : ∃ id' key', Reaches target' id' ∧
      t.instances.key? id' = some key' ∧
      s.provenance? (.object id) = some (.created key'.clazz) := by
  obtain ⟨path, boxes, shown⟩ := reached
  obtain ⟨item', p, shown', known, known'⟩ := hv.items shown
  obtain ⟨key, keyed, rfl⟩ := Option.map_eq_some_iff.1 known
  obtain ⟨id', key', rfl, keyed', same⟩ := exists_of_created known'
  exact ⟨id', key', ⟨path, boxes, shown'⟩, keyed', same ▸ known⟩

/-- A write to an instance without a change has left the store alone, and the field `Absorbs` the
value. -/
theorem rests_joinField {id : InstanceId}
    (run : (joinField id field value).outcome t = (.ok (), t')) (quiet : t'.change = none) :
    t' = t ∧ ∃ key, t.instances.key? id = some key ∧ t.Absorbs (.field key.clazz field) value := by
  obtain ⟨-, failed⟩ | ⟨fields, held, ⟨same, kept⟩ | ⟨-, grown⟩⟩ := t.joinField_cases id field value
  · cases failed.symm.trans run
  · cases kept.symm.trans run
    obtain ⟨key, entry⟩ := Interned.exists_get?_of_state? held
    exact ⟨rfl, key, Interned.key?_of_get? entry,
      absorbs_of_joinedTo same fun w written => ⟨id, key, fields, entry, rfl, written⟩⟩
  · cases grown.symm.trans run
    exact absurd quiet (change_noting_ne_none _ _)

/-- The store in between two steps of which the second one ends without a change is the store at the
end. -/
theorem eq_between {u : Store} (evolves : u.Evolves (fun _ => True) (fun _ => True) t')
    (quiet : t'.change = none) : u = t' ∧ u.change = none := by
  have same := evolves.eq_of_quiet quiet
  exact ⟨same.symm, same ▸ quiet⟩

mutual

/-- A write without a change has left the store alone, and the field `Absorbs` the value in every
instance that the target reaches. -/
theorem rests_setField (field : ClazzId) : (target : Value) → ∀ {t' : Store},
    (setField field value target).outcome t = (.ok (), t') → t'.change = none →
    t' = t ∧ ∀ id, Reaches target id →
      ∃ key, t.instances.key? id = some key ∧ t.Absorbs (.field key.clazz field) value
  | .set atoms, _, run, quiet => by
    unfold setField at run
    obtain ⟨same, absorbs⟩ := rests_setFieldOfAtoms field atoms run quiet
    refine ⟨same, fun id reached => ?_⟩
    obtain ⟨a, ha, reached⟩ := reached.of_set
    exact absorbs a ha id reached
  | .object id, _, run, quiet => by
    unfold setField at run
    obtain ⟨same, absorbs⟩ := rests_joinField run quiet
    refine ⟨same, fun id' reached => ?_⟩
    cases reached.of_object
    exact absorbs
  | .boxed content _ _, _, run, quiet => by
    unfold setField at run
    obtain ⟨same, absorbs⟩ := rests_setField field content run quiet
    exact ⟨same, fun id reached => absorbs id reached.of_boxed⟩
  | .noValue, _, run, _ | .undefined, _, run, _ => by
    cases run
    exact ⟨rfl, fun _ reached => absurd reached (not_reaches_of_isAbsent rfl)⟩
  | .unit, _, run, _ | .bool _, _, run, _ | .number _, _, run, _ | .tagged .., _, run, _
  | .array _, _, run, _ => by cases run

/-- The part of `rests_setField` for the atoms of a target. -/
theorem rests_setFieldOfAtoms (field : ClazzId) : (atoms : List Value) → ∀ {t' : Store},
    (setFieldOfAtoms field value atoms).outcome t = (.ok (), t') → t'.change = none →
    t' = t ∧ ∀ a ∈ atoms, ∀ id, Reaches a id →
      ∃ key, t.instances.key? id = some key ∧ t.Absorbs (.field key.clazz field) value
  | [], _, run, _ => by
    cases run
    exact ⟨rfl, List.forall_mem_nil _⟩
  | atom :: rest, t', run, quiet => by
    unfold setFieldOfAtoms at run
    split at run
    · rename_i h
      cases h
    · cases run
    · rename_i h
      cases h
      obtain ⟨_, u, first, later⟩ := Attempt.outcome_bind_eq_ok run
      have evolves : u.Evolves (fun _ => True) (fun _ => True)
          ((setFieldOfAtoms field value rest).outcome u).2 :=
        evolves_setFieldOfAtoms field trivial rest u
      rw [later] at evolves
      obtain ⟨between, unnoted⟩ := eq_between evolves quiet
      obtain ⟨same, absorbs⟩ := rests_setField field atom first unnoted
      rw [same] at later
      obtain ⟨same', absorbsRest⟩ := rests_setFieldOfAtoms field rest later quiet
      exact ⟨same', List.forall_mem_cons.2 ⟨absorbs, absorbsRest⟩⟩

end

/-- Writing a field of an instance keeps a store covered if the value is `Mirrored` at the field. -/
theorem proceeds_joinField (ht : t.IsCoarse) (hs : Covered view t s) {id : InstanceId}
    {clazz : ClazzId}
    (known : s.provenance? (.object id) = some (.created clazz))
    (hv : Mirrored view t s (.field clazz field) value) :
    Proceeds view t s ((joinField id field value).outcome s).2 := by
  obtain ⟨-, run⟩ | ⟨fields, held, ⟨-, run⟩ | ⟨-, run⟩⟩ := s.joinField_cases id field value
  · rw [run]
    exact .refl hs
  · rw [run]
    exact .refl hs
  · rw [run]
    obtain ⟨key, entry⟩ := Interned.exists_get?_of_state? held
    rw [provenance?_object (Interned.key?_of_get? entry)] at known
    cases known
    exact proceeds_putField ht hs entry hv

/-- Two steps, one after the other, keep a store covered if the first one does, and the second one
does from every store that the first one may leave. -/
theorem proceeds_bind {α β : Type} {step : Updating α} {next : α → Updating β}
    (first : Proceeds view t s (step.outcome s).2)
    (rest : ∀ x s', step.outcome s = (.ok x, s') → Proceeds view t s s' →
      Proceeds view t s' ((next x).outcome s').2) :
    Proceeds view t s ((step >>= next).outcome s).2 := by
  rw [Attempt.outcome_bind]
  cases run : step.outcome s with
  | mk result s' =>
    rw [run] at first
    cases result with
    | ok x => exact first.trans (rest x s' run first)
    | error e => exact first

mutual

/-- Writing a field keeps a store covered if the value is `Mirrored` at the field of every instance
that the target reaches. -/
theorem proceeds_setField_of_reaches (ht : t.IsCoarse) (field : ClazzId) : (target : Value) →
    ∀ {s : Store}, Covered view t s → (∀ id, Reaches target id → ∃ clazz,
      s.provenance? (.object id) = some (.created clazz) ∧
        Mirrored view t s (.field clazz field) value) →
    Proceeds view t s ((setField field value target).outcome s).2
  | .set atoms, s, hs, hv => by
    unfold setField
    exact proceeds_setFieldOfAtoms_of_reaches ht field atoms hs fun a ha single id reached =>
      hv id (reached.member ha single)
  | .object id, s, hs, hv => by
    unfold setField
    obtain ⟨clazz, known, mirrored⟩ := hv id (reaches_object id)
    exact proceeds_joinField ht hs known mirrored
  | .boxed content _ _, s, hs, hv => by
    unfold setField
    exact proceeds_setField_of_reaches ht field content hs fun id reached =>
      hv id reached.boxed
  | .noValue, _, hs, _ | .undefined, _, hs, _ | .unit, _, hs, _ | .bool _, _, hs, _
  | .number _, _, hs, _ | .tagged .., _, hs, _ | .array _, _, hs, _ => .refl hs

/-- The part of `proceeds_setField_of_reaches` for the atoms of a target. -/
theorem proceeds_setFieldOfAtoms_of_reaches (ht : t.IsCoarse) (field : ClazzId) :
    (atoms : List Value) → ∀ {s : Store}, Covered view t s →
    (∀ a ∈ atoms, (∀ members, a ≠ .set members) → ∀ id, Reaches a id → ∃ clazz,
      s.provenance? (.object id) = some (.created clazz) ∧
        Mirrored view t s (.field clazz field) value) →
    Proceeds view t s ((setFieldOfAtoms field value atoms).outcome s).2
  | [], _, hs, _ => .refl hs
  | atom :: rest, s, hs, hv => by
    unfold setFieldOfAtoms
    split
    · exact .refl hs
    · exact .refl hs
    · rename_i single h
      cases h
      obtain ⟨here, there⟩ := List.forall_mem_cons.1 hv
      have first := proceeds_setField_of_reaches ht field atom hs
        (here fun members same => single members same)
      refine proceeds_bind first fun _ s' _ proceeds => ?_
      refine proceeds_setFieldOfAtoms_of_reaches ht field rest proceeds.covered ?_
      intro a ha single id reached
      obtain ⟨clazz, known, mirrored⟩ := there a ha single id reached
      exact ⟨clazz, proceeds.keeps.provenance? known, mirrored.mono proceeds.keeps⟩

end

/-- Writing a field keeps a store covered if the same in the other store, with what mirrors target
and value, changes nothing. -/
theorem proceeds_setField (ht : t.IsCoarse) (hs : Covered view t s)
    (hv : Mirrors view s t value value') (target_mirrors : Mirrors view s t target target')
    (rests : (setField field value' target').outcome t = (.ok (), t'))
    (quiet : t'.change = none) : Proceeds view t s ((setField field value target).outcome s).2 := by
  obtain ⟨-, absorbs⟩ := rests_setField field target' rests quiet
  refine proceeds_setField_of_reaches ht field target hs fun id reached => ?_
  obtain ⟨id', key', reached', keyed', known⟩ := target_mirrors.reaches reached
  obtain ⟨_, keyed, absorbs⟩ := absorbs id' reached'
  cases keyed'.symm.trans keyed
  exact ⟨key'.clazz, known, hv.mirrored absorbs⟩

/-! ### Reading fields -/

mutual

/-- What is read is held by an instance that the target reaches. -/
theorem shown_of_readField (field : ClazzId) : (target : Value) → ∀ {v : Value},
    s.readField field target = .ok v → v.Shows path item →
    ∃ id fields held, Reaches target id ∧ s.instances.state? id = some fields ∧
      fields.find? field = some held ∧ held.Shows path item
  | .set atoms, _, read, shown => by
    unfold readField at read
    obtain shown | ⟨a, ha, single, id, fields, held, reached, there⟩ :=
      shown_of_readFieldOfAtoms field atoms read shown
    · exact absurd shown (Value.not_shows_of_isAbsent rfl)
    · exact ⟨id, fields, held, reached.member ha single, there⟩
  | .object id, _, read, shown => by
    unfold readField at read
    obtain ⟨fields, found, read⟩ := exists_of_bind_eq_ok read
    cases read
    cases written : fields.find? field with
    | none =>
      rw [written] at shown
      exact absurd shown (Value.not_shows_of_isAbsent rfl)
    | some held =>
      rw [written] at shown
      exact ⟨id, fields, held, reaches_object id, state?_of_fields found, written, shown⟩
  | .boxed content _ _, _, read, shown => by
    unfold readField at read
    obtain ⟨id, fields, held, reached, there⟩ := shown_of_readField field content read shown
    exact ⟨id, fields, held, reached.boxed, there⟩
  | .noValue, _, read, shown | .undefined, _, read, shown => by
    cases read
    exact absurd shown (Value.not_shows_of_isAbsent rfl)
  | .unit, _, read, _ | .bool _, _, read, _ | .number _, _, read, _ | .tagged .., _, read, _
  | .array _, _, read, _ => by cases read

/-- The part of `shown_of_readField` for the atoms of a target, where `sofar` is what has been read
of the atoms before. -/
theorem shown_of_readFieldOfAtoms (field : ClazzId) : (atoms : List Value) → ∀ {sofar v : Value},
    s.readFieldOfAtoms field sofar atoms = .ok v → v.Shows path item →
    sofar.Shows path item ∨ ∃ a ∈ atoms, (∀ members, a ≠ .set members) ∧ ∃ id fields held,
      Reaches a id ∧ s.instances.state? id = some fields ∧ fields.find? field = some held ∧
      held.Shows path item
  | [], _, _, read, shown => by
    cases read
    exact .inl shown
  | atom :: rest, sofar, v, read, shown => by
    unfold readFieldOfAtoms at read
    split at read
    · rename_i h
      cases h
    · cases read
    · rename_i single h
      cases h
      obtain ⟨w, first, read⟩ := exists_of_bind_eq_ok read
      obtain joined | ⟨a, ha, there⟩ := shown_of_readFieldOfAtoms field rest read shown
      · rcases Value.shows_join.1 joined with shown | shown
        · exact .inl shown
        · exact .inr ⟨atom, List.mem_cons_self,
            fun members same => single members same,
            shown_of_readField field atom first shown⟩
      · exact .inr ⟨a, List.mem_cons_of_mem _ ha, there⟩

end

mutual

/-- What an instance holds is shown by what is read of every target that reaches it. -/
theorem shows_readField {id : InstanceId} {fields : Fields} {held : Value}
    (entry : s.instances.state? id = some fields) (written : fields.find? field = some held)
    (shown : held.Shows path item) : (target : Value) → ∀ {v : Value},
    s.readField field target = .ok v → Reaches target id → v.Shows path item
  | .set atoms, _, read, reached => by
    unfold readField at read
    obtain ⟨a, ha, reached⟩ := reached.of_set
    exact shows_readFieldOfAtoms entry written shown atoms read (.inr ⟨a, ha, reached⟩)
  | .object id', _, read, reached => by
    unfold readField at read
    obtain ⟨fields', found, read⟩ := exists_of_bind_eq_ok read
    cases reached.of_object
    cases entry.symm.trans (state?_of_fields found)
    cases read
    rwa [written]
  | .boxed content _ _, _, read, reached => by
    unfold readField at read
    exact shows_readField entry written shown content read reached.of_boxed
  | .noValue, _, _, reached | .undefined, _, _, reached =>
    absurd reached (not_reaches_of_isAbsent rfl)
  | .unit, _, read, _ | .bool _, _, read, _ | .number _, _, read, _ | .tagged .., _, read, _
  | .array _, _, read, _ => by cases read

/-- The part of `shows_readField` for the atoms of a target, where `sofar` is what has been read of
the atoms before. -/
theorem shows_readFieldOfAtoms {id : InstanceId} {fields : Fields} {held : Value}
    (entry : s.instances.state? id = some fields) (written : fields.find? field = some held)
    (shown : held.Shows path item) : (atoms : List Value) → ∀ {sofar v : Value},
    s.readFieldOfAtoms field sofar atoms = .ok v →
    sofar.Shows path item ∨ (∃ a ∈ atoms, Reaches a id) → v.Shows path item
  | [], _, _, read, reached => by
    cases read
    obtain shown | ⟨_, ⟨⟩, -⟩ := reached
    exact shown
  | atom :: rest, sofar, v, read, reached => by
    unfold readFieldOfAtoms at read
    split at read
    · rename_i h
      cases h
    · cases read
    · rename_i h
      cases h
      obtain ⟨w, first, read⟩ := exists_of_bind_eq_ok read
      have here (reached : Reaches atom id) : w.Shows path item :=
        shows_readField entry written shown atom first reached
      refine shows_readFieldOfAtoms entry written shown rest read ?_
      obtain shown | ⟨a, ha, reached⟩ := reached
      · exact .inl (Value.shows_join.2 (.inl shown))
      · rcases List.mem_cons.1 ha with rfl | ha
        · exact .inl (Value.shows_join.2 (.inr (here reached)))
        · exact .inr ⟨a, ha, reached⟩

end

/-- What is read of a store of values that a program makes is such a value. -/
theorem made_readField (hs : s.AllValues (Value.Made view)) (made : target.Made view)
    (read : s.readField field target = .ok v) : v.Made view := by
  have read' := (StoreDiscipline.made view).gives_readField hs field target made
  rw [read] at read'
  obtain ⟨rfl | made⟩ := read'
  · exact .noValue
  · exact made

/-- What is read of a target is mirrored by what is read of a target that mirrors it. -/
theorem mirrors_readField (ht : t.IsCoarse) (hs : Covered view t s)
    (target_mirrors : Mirrors view s t target target') (read : s.readField field target = .ok v)
    (read' : t.readField field target' = .ok w) : Mirrors view s t v w where
  made := made_readField hs.made target_mirrors.made read
  items shown := by
    obtain ⟨id, fields, held, reached, entry, written, shown⟩ :=
      shown_of_readField field target read shown
    obtain ⟨key, entry⟩ := Interned.exists_get?_of_state? entry
    obtain ⟨id', key', reached', keyed', known⟩ := target_mirrors.reaches reached
    rw [provenance?_object (Interned.key?_of_get? entry)] at known
    obtain ⟨w₀, ⟨id'', key'', fields'', entry'', same, written''⟩, mirrors⟩ :=
      hs.instances id key fields entry _ (OrderedMap.mem_entries_of_find? written)
    have clazz : key.clazz = key'.clazz := Provenance.created.inj (Option.some.inj known)
    obtain rfl := Interned.eq_of_nodup_map ht.instances keyed' (Interned.key?_of_get? entry'')
      (clazz.symm.trans same.symm)
    obtain ⟨item', p, shown', known⟩ := mirrors.items shown
    exact ⟨item', p, shows_readField (Interned.state?_of_get? entry'') written'' shown' target' read'
      reached', known⟩

/-! ### Boxed instances -/

/-- Interning an instance without a change has left the store alone. -/
theorem rests_internInstance {clazz : ClazzId} {context : Option ClazzId}
    (quiet : ((internInstance clazz context).run t).2.change = none) :
    ((internInstance clazz context).run t).2 = t := by
  obtain ⟨id, -, run⟩ | ⟨-, run⟩ := t.internInstance_cases clazz context
  · rw [run]
  · rw [run] at quiet
    exact absurd quiet (change_noting_ne_none _ _)

/-- Interning an instance keeps a store covered. -/
theorem proceeds_internInstance (hs : Covered view t s) (clazz : ClazzId)
    (context : Option ClazzId) : Proceeds view t s ((internInstance clazz context).run s).2 := by
  obtain ⟨id, -, run⟩ | ⟨-, run⟩ := s.internInstance_cases clazz context
  · rw [run]
    exact .refl hs
  · rw [run]
    exact proceeds_addInstance hs _

/-- What `internInstance` answers comes from the clazz. -/
theorem provenance?_internInstance (s : Store) (clazz : ClazzId) (context : Option ClazzId) :
    ((internInstance clazz context).run s).2.provenance?
      (.object ((internInstance clazz context).run s).1) = some (.created clazz) :=
  provenance?_object (s.key?_internInstance clazz context)

/-- Copying entries without a change has left the store alone, and each field `Absorbs` its value.
-/
theorem rests_joinFields {id : InstanceId} {fields : List (ClazzId × Value)}
    (run : (joinFields id fields).outcome t = (.ok (), t')) (quiet : t'.change = none) :
    t' = t ∧ ∀ e ∈ fields, ∃ key, t.instances.key? id = some key ∧
      t.Absorbs (.field key.clazz e.1) e.2 := by
  induction fields with
  | nil =>
    cases run
    exact ⟨rfl, List.forall_mem_nil _⟩
  | cons e rest ih =>
    unfold joinFields at run
    obtain ⟨_, u, first, later⟩ := Attempt.outcome_bind_eq_ok run
    have evolves : u.Evolves (fun _ => True) (fun _ => True) ((joinFields id rest).outcome u).2 :=
      evolves_joinFields u id fun _ _ => trivial
    rw [later] at evolves
    obtain ⟨-, unnoted⟩ := eq_between evolves quiet
    obtain ⟨rfl, absorbs⟩ := rests_joinField first unnoted
    obtain ⟨same, absorbsRest⟩ := ih later
    exact ⟨same, List.forall_mem_cons.2 ⟨absorbs, absorbsRest⟩⟩

/-- Copying entries into an instance keeps a store covered if each value is `Mirrored` at its field.
-/
theorem proceeds_joinFields (ht : t.IsCoarse) (hs : Covered view t s) {id : InstanceId}
    {clazz : ClazzId} (known : s.provenance? (.object id) = some (.created clazz))
    {fields : List (ClazzId × Value)}
    (hf : ∀ e ∈ fields, Mirrored view t s (.field clazz e.1) e.2) :
    Proceeds view t s ((joinFields id fields).outcome s).2 := by
  induction fields generalizing s with
  | nil => exact .refl hs
  | cons e rest ih =>
    obtain ⟨here, there⟩ := List.forall_mem_cons.1 hf
    unfold joinFields
    refine proceeds_bind (proceeds_joinField ht hs known here) fun _ s' _ proceeds => ?_
    exact ih proceeds.covered (proceeds.keeps.provenance? known)
      fun e he => (there e he).mono proceeds.keeps

/-- The steps of boxing an instance, if it succeeds. -/
theorem boxInstance_eq_ok {id boxed : InstanceId} {refClazz : ClazzId}
    (run : (boxInstance id refClazz).outcome s = (.ok boxed, s')) :
    ∃ (key : InstanceKey) (fields : Fields),
      boxed = ((internInstance refClazz key.context).run s).1 ∧
      ((internInstance refClazz key.context).run s).2.instances.state? id = some fields ∧
      (joinFields boxed fields.entries).outcome ((internInstance refClazz key.context).run s).2 =
        (.ok (), s') := by
  unfold boxInstance at run
  obtain ⟨_, _, ⟨⟩, run⟩ := Attempt.outcome_bind_eq_ok run
  obtain ⟨key, -, run⟩ := Attempt.outcome_lift_bind_eq_ok run
  obtain ⟨_, _, made, run⟩ := Attempt.outcome_bind_eq_ok run
  cases made
  obtain ⟨_, _, ⟨⟩, run⟩ := Attempt.outcome_bind_eq_ok run
  obtain ⟨fields, found, run⟩ := Attempt.outcome_lift_bind_eq_ok run
  obtain ⟨_, _, joined, run⟩ := Attempt.outcome_bind_eq_ok run
  cases run
  exact ⟨key, fields, rfl, state?_of_fields found, joined⟩

/-- A boxing that changes nothing has copied the fields already. -/
theorem rests_boxInstance {id boxed : InstanceId} {refClazz : ClazzId}
    (run : (boxInstance id refClazz).outcome t = (.ok boxed, t')) (quiet : t'.change = none) :
    t' = t ∧ t.provenance? (.object boxed) = some (.created refClazz) ∧
      ∃ fields, t.instances.state? id = some fields ∧
        ∀ e ∈ fields.entries, t.Absorbs (.field refClazz e.1) e.2 := by
  obtain ⟨key, fields, rfl, held, joined⟩ := boxInstance_eq_ok run
  have evolves : ((internInstance refClazz key.context).run t).2.Evolves (fun _ => True)
      (fun _ => True) ((joinFields ((internInstance refClazz key.context).run t).1
        fields.entries).outcome ((internInstance refClazz key.context).run t).2).2 :=
    evolves_joinFields _ _ fun _ _ => trivial
  rw [joined] at evolves
  obtain ⟨-, unnoted⟩ := eq_between evolves quiet
  have kept := rests_internInstance unnoted
  have made := t.key?_internInstance refClazz key.context
  have known := t.provenance?_internInstance refClazz key.context
  rw [kept] at held joined made known
  obtain ⟨same, absorbs⟩ := rests_joinFields joined quiet
  refine ⟨same, known, fields, held, fun e he => ?_⟩
  obtain ⟨_, made', absorbs⟩ := absorbs e he
  cases made.symm.trans made'
  exact absorbs

/-- Boxing an instance is followed by boxing one of the same clazz. -/
theorem proceeds_boxInstance (ht : t.IsCoarse) (hs : Covered view t s) {id id' : InstanceId}
    {refClazz : ClazzId} {p : Provenance} (known : s.provenance? (.object id) = some p)
    (known' : t.provenance? (.object id') = some p) {boxed boxed' : InstanceId}
    (run : (boxInstance id refClazz).outcome s = (.ok boxed, s'))
    (rests : (boxInstance id' refClazz).outcome t = (.ok boxed', t'))
    (quiet : t'.change = none) :
    Proceeds view t s s' ∧ Mirrors view s' t (.object boxed) (.object boxed') := by
  obtain ⟨-, boxedKnown', fields', held', absorbs⟩ := rests_boxInstance rests quiet
  obtain ⟨key, fields, rfl, held, joined⟩ := boxInstance_eq_ok run
  have proceeds := proceeds_internInstance hs refClazz key.context
  have boxedKnown := s.provenance?_internInstance refClazz key.context
  generalize (internInstance refClazz key.context).run s = made at *
  obtain ⟨boxed, u⟩ := made
  -- What the instance holds is mirrored where the other instance holds it, and was copied there.
  have copied : ∀ e ∈ fields.entries, Mirrored view t u (.field refClazz e.1) e.2 := by
    intro e he
    obtain ⟨key, entry⟩ := Interned.exists_get?_of_state? held
    obtain ⟨key', entry'⟩ := Interned.exists_get?_of_state? held'
    obtain ⟨w, ⟨id'', key'', fields'', entry'', same, written⟩, mirrors⟩ :=
      proceeds.covered.instances id key fields entry e he
    have known := proceeds.keeps.provenance? known
    rw [provenance?_object (Interned.key?_of_get? entry)] at known
    rw [provenance?_object (Interned.key?_of_get? entry')] at known'
    have clazz : key.clazz = key'.clazz :=
      Provenance.created.inj (Option.some.inj (known.trans known'.symm))
    obtain rfl := Interned.eq_of_nodup_map ht.instances (Interned.key?_of_get? entry')
      (Interned.key?_of_get? entry'') (clazz.symm.trans same.symm)
    cases entry'.symm.trans entry''
    exact mirrors.mirrored (absorbs _ (OrderedMap.mem_entries_of_find? written))
  have later := proceeds_joinFields ht proceeds.covered boxedKnown copied
  dsimp only at joined
  rw [joined] at later
  exact ⟨proceeds.trans later, .of_provenance (.object boxed) (.object boxed')
    (later.keeps.provenance? boxedKnown) boxedKnown'⟩

/-! ### Arrays -/

/-- A write to an array without a change has left the store alone, and the elements of its
provenance absorb the value. -/
theorem rests_arraySet {id : ArrayId} (run : (arraySet id value).outcome t = (.ok (), t'))
    (quiet : t'.change = none) :
    t' = t ∧ ∀ p, t.provenance? (.array id) = some p → t.Absorbs (.elements p) value := by
  obtain ⟨-, failed⟩ | ⟨elements, held, ⟨same, kept⟩ | ⟨-, grown⟩⟩ := t.arraySet_cases id value
  · cases failed.symm.trans run
  · cases kept.symm.trans run
    obtain ⟨key, entry⟩ := Interned.exists_get?_of_state? held
    refine ⟨rfl, fun p known => ?_⟩
    rw [provenance?_array (Interned.key?_of_get? entry)] at known
    exact absorbs_of_join_eq ⟨id, key, entry, known⟩ same
  · cases grown.symm.trans run
    exact absurd quiet (change_noting_ne_none _ _)

/-- Writing to an array keeps a store covered if the value is `Mirrored` among the elements of its
provenance. -/
theorem proceeds_arraySet (ht : t.IsCoarse) (hs : Covered view t s) {id : ArrayId} {p : Provenance}
    (known : s.provenance? (.array id) = some p) (hv : Mirrored view t s (.elements p) value) :
    Proceeds view t s ((arraySet id value).outcome s).2 := by
  obtain ⟨-, run⟩ | ⟨elements, held, ⟨-, run⟩ | ⟨-, run⟩⟩ := s.arraySet_cases id value
  · rw [run]
    exact .refl hs
  · rw [run]
    exact .refl hs
  · rw [run]
    exact proceeds_putElements ht hs held known hv

/-- What is read of an array are its elements, or `undefined` if there are none. -/
theorem arrayGet_eq_ok {id : ArrayId} (read : s.arrayGet id = .ok v) :
    ∃ elements, s.arrays.state? id = some elements ∧
      (v = elements ∨ elements = .noValue ∧ v = .undefined) := by
  unfold arrayGet at read
  obtain ⟨elements, found, read⟩ := exists_of_bind_eq_ok read
  obtain ⟨_, held, found'⟩ | ⟨-, failed⟩ := s.elements_cases id
  · cases found'.symm.trans found
    refine ⟨elements, held, ?_⟩
    split at read <;> cases read
    · exact .inr ⟨rfl, rfl⟩
    · exact .inl rfl
  · cases failed.symm.trans found

/-- What is read of an array is mirrored by what is read of an array of the same provenance. -/
theorem mirrors_arrayGet (ht : t.IsCoarse) (hs : Covered view t s) {id id' : ArrayId}
    {p : Provenance} (known : s.provenance? (.array id) = some p)
    (known' : t.provenance? (.array id') = some p) (read : s.arrayGet id = .ok v)
    (read' : t.arrayGet id' = .ok w) : Mirrors view s t v w := by
  obtain ⟨elements, held, rfl | ⟨-, rfl⟩⟩ := arrayGet_eq_ok read
  · obtain ⟨elements', held', same⟩ := arrayGet_eq_ok read'
    obtain ⟨key, entry⟩ := Interned.exists_get?_of_state? held
    obtain ⟨key', entry'⟩ := Interned.exists_get?_of_state? held'
    rw [provenance?_array (Interned.key?_of_get? entry)] at known
    rw [provenance?_array (Interned.key?_of_get? entry')] at known'
    obtain ⟨_, known'', w', at_w', mirrors⟩ := hs.arrays id key v entry
    cases known.symm.trans known''
    obtain rfl := ht.eq_of_at at_w' ⟨id', key', entry', known'⟩
    obtain rfl | ⟨rfl, rfl⟩ := same
    · exact mirrors
    · exact mirrors.in_shows fun _ _ shown => absurd shown (Value.not_shows_of_isAbsent rfl)
  · exact .of_undefined w

/-- An array of a provenance is made where there is one of the same provenance. -/
theorem proceeds_internArray (hs : Covered view t s) {key : ArrayKey} {p : Provenance}
    (known : s.arrayProvenance? key = some p) {id' : ArrayId}
    (known' : t.provenance? (.array id') = some p) :
    Proceeds view t s ((internArray key).run s).2 ∧
      ((internArray key).run s).2.provenance? (.array ((internArray key).run s).1) = some p := by
  obtain ⟨id, found, run⟩ | ⟨-, run⟩ := s.internArray_cases key
  · rw [run]
    refine ⟨.refl hs, ?_⟩
    rw [provenance?_array (Interned.key?_of_idOf? found)]
    exact known
  · rw [run]
    obtain ⟨key', there, same⟩ := Option.bind_eq_some_iff.1 known'
    obtain ⟨w, entry⟩ := Interned.exists_get?_of_key? there
    refine ⟨proceeds_addArray hs known ⟨id', key', entry, same⟩, ?_⟩
    have made : (s.addArray key).arrays.key? s.arrays.nextId = some key :=
      Interned.key?_push_nextId ..
    rw [provenance?_array made]
    exact (keeps_addArray s key).arrayProvenance? known

/-- Interning an array without a change has left the store alone, and the array comes from what its
key names. -/
theorem rests_internArray {key : ArrayKey} (quiet : ((internArray key).run t).2.change = none) :
    ((internArray key).run t).2 = t ∧
      t.provenance? (.array ((internArray key).run t).1) = t.arrayProvenance? key := by
  obtain ⟨id, found, run⟩ | ⟨-, run⟩ := t.internArray_cases key
  · rw [run]
    exact ⟨rfl, provenance?_array (Interned.key?_of_idOf? found)⟩
  · rw [run] at quiet
    exact absurd quiet (change_noting_ne_none _ _)

end Store

end ClosedWorld
