import ClosedWorld.Proofs.Store.Interning
import ClosedWorld.Proofs.Store.Writes

/-!
# Boxed instances

An instance of a value clazz is boxed by copying its fields into the instance of the reference clazz
that has the same context. Several instances may be boxed into one, and an instance of the reference
clazz itself is boxed into itself, so what is copied into may be copied from as well. Still it is
enough to copy once. A field that has received a value has nothing to gain from that value again,
whatever else it receives, and this is so even where numbers disagree about their kind and a join
depends on the order of its arguments.

## Main definitions

* `Store.Settled`: a field has nothing to gain from a value.
* `Store.BoxedIn`: boxing an instance again would change nothing.
* `Store.Copies`: what boxing instances can do to a store.

## Main statements

* `Store.Evolves.settled`: what is settled once is settled for ever.
* `Store.BoxedIn.outcome_boxInstance`: boxing an instance again.
* `Store.exists_boxInstance`: an instance of the store can be boxed, and is boxed then.
-/

namespace ClosedWorld

namespace Store

variable {M : CallKey → Prop} {s t u : Store} {id boxed : InstanceId} {refClazz : ClazzId}
  {e : ClazzId × Value}

/-! ### Fields that have received a value -/

/-- The entry is one of the instance. -/
def Lists (s : Store) (id : InstanceId) (e : ClazzId × Value) : Prop :=
  ∃ fields, s.instances.state? id = some fields ∧ e ∈ fields.entries

/-- Joining the entry to its field in the instance adds nothing. -/
def Settled (s : Store) (id : InstanceId) (e : ClazzId × Value) : Prop :=
  ∃ held, s.held (.field id e.1) = some held ∧ held.join e.2 = held

/-- What a field holds is one of the entries that its instance lists. -/
theorem lists_of_held {field : ClazzId} {value : Value}
    (held : s.held (.field id field) = some value) : s.Lists id (field, value) := by
  obtain ⟨fields, known, written⟩ := Option.bind_eq_some_iff.1 held
  exact ⟨fields, known, OrderedMap.mem_entries_of_find? written⟩

/-- What a field holds it has nothing to gain from, as the join is idempotent. -/
theorem settled_of_held {field : ClazzId} {value : Value}
    (held : s.held (.field id field) = some value) : s.Settled id (field, value) :=
  ⟨value, held, Value.join_self value⟩

/-- What holds of all values of a store holds of those that its instances list. -/
theorem AllValues.listed {P : Value → Prop} (hs : s.AllValues P) (listed : s.Lists id e) :
    P e.2 := by
  obtain ⟨fields, known, among⟩ := listed
  exact hs.field known among

/-- Whether an instance lists an entry depends on its own fields only. -/
theorem lists_congr (same : t.instances.get? id = s.instances.get? id) :
    t.Lists id e ↔ s.Lists id e := by
  unfold Lists Interned.state?
  rw [same]

/-- Writing an entry to a field that is `Settled` for it leaves the store as it is. -/
theorem Settled.outcome_joinField (settled : s.Settled id e) :
    (joinField id e.1 e.2).outcome s = (.ok (), s) := by
  obtain ⟨held, found, nothing⟩ := settled
  obtain ⟨fields, known, written⟩ := Option.bind_eq_some_iff.1 found
  obtain ⟨unknown, -⟩ | ⟨fields', known', step⟩ := s.joinField_cases id e.1 e.2
  · cases known.symm.trans unknown
  cases known.symm.trans known'
  obtain ⟨-, run⟩ | ⟨grown, -⟩ := step
  · exact run
  · refine absurd ?_ grown
    rw [written]
    exact congrArg some nothing.symm

/-- Copying entries leaves the store as it is if all of them are `Settled`. -/
theorem outcome_joinFields_of_settled {fields : List (ClazzId × Value)}
    (settled : ∀ e ∈ fields, s.Settled id e) :
    (joinFields id fields).outcome s = (.ok (), s) := by
  induction fields with
  | nil => rfl
  | cons e rest ih =>
    obtain ⟨here, later⟩ := List.forall_mem_cons.1 settled
    unfold joinFields
    rw [Attempt.outcome_bind, here.outcome_joinField]
    exact ih later

/-! ### As a store evolves -/

/-- A field still holds its value after an instance has been added. -/
theorem held_addInstance_of_held {key : InstanceKey} {field : ClazzId} {value : Value}
    (held : s.held (.field id field) = some value) :
    (s.addInstance key).held (.field id field) = some value := by
  obtain ⟨fields, known, written⟩ := Option.bind_eq_some_iff.1 held
  obtain ⟨k, entry⟩ := Interned.exists_get?_of_state? known
  have old : id ≠ s.instances.nextId := by
    rintro rfl
    cases (Interned.key?_of_get? entry).symm.trans (Interned.key?_nextId s.instances)
  refine Option.bind_eq_some_iff.2 ⟨fields, Interned.state?_of_get? (k := k) ?_, written⟩
  show (s.instances.push key .empty).get? id = _
  rw [Interned.get?_push, if_neg old, entry]

/-- What a field has nothing to gain from, it has nothing to gain from after an elementary change
either. -/
theorem Alters.settled (hs : s.AllValues Value.Canonical) (he : e.2.Canonical)
    (h : s.Alters Value.Canonical M t) (settled : s.Settled id e) : t.Settled id e := by
  obtain ⟨held, found, nothing⟩ := settled
  cases h with
  | addInstance => exact ⟨held, held_addInstance_of_held found, nothing⟩
  | @putField id' field fields value known _ written =>
    unfold Settled
    rw [s.held_putField known]
    by_cases here : Cell.field id e.1 = .field id' field
    · -- the field itself has grown, and what added nothing to it before still adds nothing
      obtain ⟨rfl, rfl⟩ := Cell.field.inj here
      have before : fields.find? e.1 = some held := by
        rw [← found]
        simp [Store.held, known]
      rw [if_pos rfl, before]
      exact ⟨_, rfl, he.join_eq_of_join_eq (hs.held found) written nothing⟩
    · rw [if_neg here]
      exact ⟨held, found, nothing⟩
  | _ => exact ⟨held, found, nothing⟩

/-- What a field has received once, it has nothing to gain from as the store evolves. -/
theorem Evolves.settled (hs : s.AllValues Value.Canonical) (he : e.2.Canonical)
    (h : s.Evolves Value.Canonical M t) (settled : s.Settled id e) : t.Settled id e := by
  induction h with
  | refl => exact settled
  | tail before last ih =>
    exact last.settled (Evolves.allValues Value.canonical_join hs before) he ih

/-- An entry that is listed after an elementary change was listed before, or is what its field
holds. -/
theorem Alters.lists_or_settled (h : s.Alters Value.Canonical M t) (listed : t.Lists id e) :
    s.Lists id e ∨ t.Settled id e := by
  obtain ⟨fields, known, among⟩ := listed
  cases h with
  | addInstance =>
    obtain ⟨key, entry⟩ := Interned.exists_get?_of_state? known
    rw [Store.addInstance, noting, Interned.get?_push] at entry
    split at entry
    · cases entry
      cases among
    · exact .inl ⟨fields, Interned.state?_of_get? entry, among⟩
  | @putField id' field fields' value known' grown _ =>
    have held := s.held_putField known' field (.joinedTo (fields'.find? field) value) value
    rw [Store.putField, noting, Interned.state?_set_eq] at known
    split at known
    · rename_i same
      rw [same, known', Option.map_some, Option.some.injEq] at known
      subst known
      rcases OrderedMap.mem_entries_insert among with rfl | old
      · refine .inr ⟨_, (held _).trans (if_pos (by rw [same])), Value.join_self _⟩
      · exact .inl ⟨fields', same ▸ known', old⟩
    · exact .inl ⟨fields, known, among⟩
  | _ => exact .inl ⟨fields, known, among⟩

/-- An entry that an instance gets as the store evolves is what its field holds then. -/
theorem Evolves.lists_or_settled (hs : s.AllValues Value.Canonical)
    (h : s.Evolves Value.Canonical M t) (listed : t.Lists id e) :
    s.Lists id e ∨ t.Settled id e := by
  induction h with
  | refl => exact .inl listed
  | tail before last ih =>
    have held := Evolves.allValues Value.canonical_join hs before
    obtain listed | settled := last.lists_or_settled listed
    · exact (ih listed).imp_right (last.settled held (held.listed listed))
    · exact .inr settled

/-! ### Copying fields -/

/-- A field that `joinField` has written to has nothing to gain from the value any more. -/
theorem settled_joinField (hs : s.AllValues Value.Canonical) (he : e.2.Canonical)
    (run : (joinField id e.1 e.2).outcome s = (.ok (), t)) : t.Settled id e := by
  obtain ⟨-, failed⟩ | ⟨fields, known, -⟩ := s.joinField_cases id e.1 e.2
  · cases run.symm.trans failed
  obtain ⟨_, run', receives⟩ := receives_joinField e.1 e.2 known
  cases run.symm.trans run'
  refine ⟨.joinedTo (s.held (.field id e.1)) e.2, ?_,
    Value.joinedTo_join_self (fun _ found => hs.held found) he⟩
  rw [receives.held]
  simp [valuesAt, Value.joinedAll]

/-- After `joinFields` all fields that were copied have arrived. -/
theorem settled_joinFields (hs : s.AllValues Value.Canonical) {fields : List (ClazzId × Value)}
    (hf : ∀ e ∈ fields, e.2.Canonical)
    (run : (joinFields id fields).outcome s = (.ok (), t)) : ∀ e ∈ fields, t.Settled id e := by
  induction fields generalizing s with
  | nil => exact List.forall_mem_nil _
  | cons e rest ih =>
    obtain ⟨he, hf⟩ := List.forall_mem_cons.1 hf
    unfold joinFields at run
    obtain ⟨_, u, first, later⟩ := Attempt.outcome_bind_eq_ok run
    have evolves := s.evolves_joinField (M := fun _ => True) id e.1 he
    rw [first] at evolves
    have hu := evolves.allValues Value.canonical_join hs
    have evolves' := u.evolves_joinFields (M := fun _ => True) id hf
    rw [later] at evolves'
    exact List.forall_mem_cons.2
      ⟨evolves'.settled hu he (settled_joinField hs he first), ih hu hf later⟩

/-- Copying fields into an instance leaves the entries of the others alone. -/
theorem keepsPart_joinFields_of_ne {id' : InstanceId} (other : id' ≠ id)
    (fields : List (ClazzId × Value)) :
    KeepsPart (fun s => s.instances.get? id') (joinFields id fields) := by
  induction fields with
  | nil => exact keepsPart_pure _
  | cons e rest ih =>
    refine KeepsPart.bind (fun s => ?_) fun _ => ih
    obtain ⟨-, run⟩ | ⟨_, -, ⟨-, run⟩ | ⟨-, run⟩⟩ := s.joinField_cases id e.1 e.2 <;> rw [run]
    exact (Interned.get?_set ..).trans (if_neg other)

/-- Copying into an instance of the store succeeds, whatever is copied. -/
theorem exists_outcome_joinFields (known : id ∈ s.instances.ids) (fields : List (ClazzId × Value)) :
    ∃ t, (joinFields id fields).outcome s = (.ok (), t) := by
  induction fields generalizing s with
  | nil => exact ⟨s, rfl⟩
  | cons e rest ih =>
    obtain ⟨held, found⟩ := exists_state?_of_mem_ids known
    obtain ⟨t, run, receives⟩ := receives_joinField e.1 e.2 found
    rw [← receives.keys.instance_ids] at known
    obtain ⟨u, run'⟩ := ih known
    refine ⟨u, ?_⟩
    unfold joinFields
    rw [Attempt.outcome_bind, run]
    exact run'

/-- Fields can be copied into an instance of the store. They have arrived then, and the other
instances are as they were. -/
theorem exists_joinFields (hs : s.AllValues Value.Canonical) (known : id ∈ s.instances.ids)
    {fields : List (ClazzId × Value)} (hf : ∀ e ∈ fields, e.2.Canonical) :
    ∃ t, (joinFields id fields).outcome s = (.ok (), t) ∧
      s.Evolves Value.Canonical M t ∧
      (∀ id' ≠ id, t.instances.get? id' = s.instances.get? id') ∧
      ∀ e ∈ fields, t.Settled id e := by
  obtain ⟨t, run⟩ := exists_outcome_joinFields known fields
  have evolves := s.evolves_joinFields (M := M) id hf
  have others := fun id' (other : id' ≠ id) => keepsPart_joinFields_of_ne other fields s
  rw [run] at evolves others
  exact ⟨t, run, evolves, others, settled_joinFields hs hf run⟩

/-! ### Instances that are boxed -/

/-- After `internInstance` the instance is found by its clazz and its context. -/
theorem idOf?_internInstance (s : Store) (clazz : ClazzId) (context : Option ClazzId) :
    ((internInstance clazz context).run s).2.instances.idOf? ⟨clazz, context⟩ =
      some ((internInstance clazz context).run s).1 := by
  obtain ⟨id, known, run⟩ | ⟨new, run⟩ := s.internInstance_cases clazz context
  · rw [run]
    exact known
  · rw [run]
    exact Interned.idOf?_push_new new _

/-- Only the instance that `internInstance` answers can have other entries afterwards. -/
theorem get?_internInstance_of_ne (s : Store) (id : InstanceId) (clazz : ClazzId)
    (context : Option ClazzId) (other : id ≠ ((internInstance clazz context).run s).1) :
    ((internInstance clazz context).run s).2.instances.get? id = s.instances.get? id := by
  obtain ⟨_, -, run⟩ | ⟨-, run⟩ := s.internInstance_cases clazz context
  · rw [run]
  · rw [run] at other ⊢
    exact (Interned.get?_push ..).trans (if_neg other)

/-- What `boxInstance` does, put together from its parts: the fields are those that the instance has
once the box is there, since the two may be the same. -/
theorem outcome_boxInstance_of_joinFields {key : InstanceKey} {fields : Fields}
    (known : s.instances.key? id = some key)
    (found : ((internInstance refClazz key.context).run s).2.instances.state? id = some fields)
    (joined : (joinFields ((internInstance refClazz key.context).run s).1 fields.entries).outcome
      ((internInstance refClazz key.context).run s).2 = (.ok (), t)) :
    (boxInstance id refClazz).outcome s =
      (.ok ((internInstance refClazz key.context).run s).1, t) := by
  simp only [boxInstance, instanceKey, Store.fields, Attempt.outcome_bind, Attempt.outcome_get,
    Attempt.outcome_except, Attempt.outcome_growing, known, found, joined, Attempt.outcome_pure]

/-- The instance has been boxed into the other one, which has nothing to gain from its fields. -/
structure BoxedIn (s : Store) (id : InstanceId) (refClazz : ClazzId) (boxed : InstanceId) :
    Prop where
  key : ∃ key, s.instances.key? id = some key ∧
    s.instances.idOf? ⟨refClazz, key.context⟩ = some boxed
  settled : ∀ e, s.Lists id e → s.Settled boxed e

/-- The box of an instance has the reference clazz and the context of the instance. -/
theorem BoxedIn.key?_boxed (h : s.BoxedIn id refClazz boxed) {key : InstanceKey}
    (known : s.instances.key? id = some key) :
    s.instances.key? boxed = some ⟨refClazz, key.context⟩ := by
  obtain ⟨key', known', made⟩ := h.key
  cases known.symm.trans known'
  exact Interned.key?_of_idOf? made

/-- What a field of a boxed instance has held at any time, the field has received that it was copied
into. -/
theorem BoxedIn.exists_held (h : t.BoxedIn id refClazz boxed) (hs : s.AllValues Value.Canonical)
    (evolves : s.Evolves Value.Canonical M t) {field : ClazzId} {x : Value}
    (held : s.held (.field id field) = some x) :
    ∃ y, t.held (.field boxed field) = some y ∧ y.join x = y := by
  have ht := evolves.allValues Value.canonical_join hs
  have hx := hs.held held
  obtain ⟨x', held', nothing⟩ := evolves.settled hs hx (settled_of_held held)
  obtain ⟨y, found, nothing'⟩ := h.settled _ (lists_of_held held')
  refine ⟨y, found, ?_⟩
  have hx' := ht.held held'
  calc y.join x = (y.join x').join x := by rw [nothing']
    _ = y.join (x'.join x) := (ht.held found).join_assoc hx' hx
    _ = y.join x' := by rw [nothing]
    _ = y := nothing'

/-- Boxing an instance again answers the same box and changes nothing. -/
theorem BoxedIn.outcome_boxInstance (h : s.BoxedIn id refClazz boxed) :
    (boxInstance id refClazz).outcome s = (.ok boxed, s) := by
  obtain ⟨⟨key, known, made⟩, settled⟩ := h
  obtain ⟨fields, found⟩ := Interned.exists_state?_of_key? known
  have joined := outcome_joinFields_of_settled fun e he => settled e ⟨fields, found, he⟩
  obtain ⟨_, made', intern⟩ | ⟨new, -⟩ := s.internInstance_cases refClazz key.context
  · cases made.symm.trans made'
    rw [outcome_boxInstance_of_joinFields (t := s) known (by rw [intern]; exact found)
      (by rw [intern]; exact joined), intern]
  · cases made.symm.trans new

/-- Fields have been copied into the listed instances, which are of the reference clazz, and nothing
else has happened to the store. -/
structure Copies (refClazz : ClazzId) (s t : Store) (into : List Value) : Prop where
  evolves : s.Evolves Value.Canonical (fun _ => True) t
  outside : t.outside = s.outside
  others : ∀ id, .object id ∉ into → t.instances.get? id = s.instances.get? id
  boxedIn : ∀ {id boxed}, s.BoxedIn id refClazz boxed → t.BoxedIn id refClazz boxed

/-- A store that stays as it is may be said to have had boxes copied `into` it. -/
theorem Copies.refl (refClazz : ClazzId) (s : Store) (into : List Value) :
    Copies refClazz s s into where
  evolves := .refl s
  outside := rfl
  others _ _ := rfl
  boxedIn h := h

/-- One series of copies after the other `Copies` into what either of them does. -/
theorem Copies.trans {into into' : List Value} (h : Copies refClazz s t into)
    (h' : Copies refClazz t u into') : Copies refClazz s u (into ++ into') where
  evolves := h.evolves.trans h'.evolves
  outside := h'.outside.trans h.outside
  others id other := by
    rw [List.mem_append, not_or] at other
    exact (h'.others id other.2).trans (h.others id other.1)
  boxedIn boxed := h'.boxedIn (h.boxedIn boxed)

/-- The instances of a store are still there after copying. -/
theorem Copies.mem_ids {into : List Value} (h : Copies refClazz s t into)
    (known : id ∈ s.instances.ids) : id ∈ t.instances.ids := by
  obtain ⟨key, known⟩ := Interned.mem_ids.1 known
  exact Interned.mem_ids.2 ⟨key, h.evolves.expands.instances.key? known⟩

/-- Where only the instance `into` has changed, an entry is an old one, or it is one of that
instance and is settled. -/
theorem lists_or_into (hs : s.AllValues Value.Canonical) (evolves : s.Evolves Value.Canonical M t)
    {into : InstanceId} (others : ∀ id ≠ into, t.instances.get? id = s.instances.get? id)
    (listed : t.Lists id e) : s.Lists id e ∨ id = into ∧ t.Settled id e := by
  by_cases here : id = into
  · exact (evolves.lists_or_settled hs listed).imp_right fun settled => ⟨here, settled⟩
  · exact .inl ((lists_congr (others id here)).1 listed)

/-- What has been boxed stays boxed when another instance is boxed into the instance `into` of the
same clazz. -/
theorem BoxedIn.mono (hs : s.AllValues Value.Canonical) (evolves : s.Evolves Value.Canonical M t)
    {into : InstanceId} {context : Option ClazzId}
    (made : t.instances.idOf? ⟨refClazz, context⟩ = some into)
    (others : ∀ id ≠ into, t.instances.get? id = s.instances.get? id)
    (h : s.BoxedIn id refClazz boxed) : t.BoxedIn id refClazz boxed := by
  obtain ⟨⟨key, known, boxes⟩, settled⟩ := h
  have known' := evolves.expands.instances.key? known
  have boxes' := evolves.expands.instances.idOf? boxes
  refine ⟨⟨key, known', boxes'⟩, fun e listed => ?_⟩
  obtain old | ⟨rfl, settled'⟩ := lists_or_into hs evolves others listed
  · exact evolves.settled hs (hs.listed old) (settled e old)
  · -- an instance that is copied into is boxed into itself
    cases known'.symm.trans (Interned.key?_of_idOf? made)
    cases boxes'.symm.trans made
    exact settled'

/-- An instance of the store can be boxed, it is `BoxedIn` its box then, and nothing but the box has
changed. -/
theorem exists_boxInstance (hs : s.AllValues Value.Canonical) (known : id ∈ s.instances.ids)
    (refClazz : ClazzId) :
    ∃ boxed t, (boxInstance id refClazz).outcome s = (.ok boxed, t) ∧
      t.BoxedIn id refClazz boxed ∧ Copies refClazz s t [.object boxed] := by
  obtain ⟨key, known⟩ := Interned.mem_ids.1 known
  have interned := s.evolves_internInstance (P := Value.Canonical) (M := fun _ => True) refClazz
    key.context
  have kept := fun id' => s.get?_internInstance_of_ne id' refClazz key.context
  have made := s.idOf?_internInstance refClazz key.context
  set u := ((internInstance refClazz key.context).run s).2
  set boxed := ((internInstance refClazz key.context).run s).1
  have hu := interned.allValues Value.canonical_join hs
  obtain ⟨fields, found⟩ :=
    Interned.exists_state?_of_key? (interned.expands.instances.key? known)
  obtain ⟨t, joined, copied, others, arrived⟩ :=
    exists_joinFields hu (Interned.mem_ids.2 ⟨_, Interned.key?_of_idOf? made⟩)
      fun e he => hu.listed ⟨fields, found, he⟩
  have run := outcome_boxInstance_of_joinFields known found joined
  have evolves := interned.trans copied
  have made' := copied.expands.instances.idOf? made
  have others' := fun id' (other : id' ≠ boxed) => (others id' other).trans (kept id' other)
  refine ⟨boxed, t, run, ⟨⟨key, evolves.expands.instances.key? known, made'⟩, fun e listed => ?_⟩,
    ⟨evolves, ?_, fun id' other => others' id' ?_, fun h => h.mono hs evolves made' others'⟩⟩
  -- What the instance holds now, it held before, and that has arrived in the box. Or the instance
  -- is the box itself, and holds what it was given by itself.
  · obtain ⟨fields', found', among⟩ | ⟨rfl, settled⟩ := lists_or_into hu copied others listed
    · cases found.symm.trans found'
      exact arrived e among
    · exact settled
  · have same := keepsPart_boxInstance isOutside_outside id refClazz s
    rwa [run] at same
  · rintro rfl
    exact other List.mem_cons_self

end Store

end ClosedWorld
