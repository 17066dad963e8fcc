import ClosedWorld.Proofs.Store.Writes

/-!
# Reads see writes

A read joins what a field holds in every instance that a target may be. Where the values in the
store are regular, joins only add, so what a field holds in one of these instances is below what is
read. A write reaches the same instances as the read, and a target that can be written can be read.

## Main definitions

* `Store.Tops`: a value is above what a field holds in several instances.

## Main statements

* `Store.tops_of_readField`: what is read of a target is above what the field holds in its leaves.
* `Store.exists_readField`: when a target can be read.
* `Store.below_of_setField`: what is written is below what is read.
-/

namespace ClosedWorld

/-- Each value that is joined to what is held is below what is held in the end. -/
theorem Value.exists_joinedAll_eq {kinds : ClazzId → NumericKind} {held : Option Value} {v : Value}
    {vs : List Value} (hh : ∀ h, held = some h → h.Regular kinds) (hvs : ∀ v ∈ vs, v.Regular kinds)
    (hv : v ∈ vs) : ∃ h, joinedAll held vs = some h ∧ v.Below h := by
  have joined := regular_joinAll hvs
  have below := below_joinAll hvs hv
  cases held with
  | none => exact ⟨_, joinedAll_none (List.ne_nil_of_mem hv), below⟩
  | some h =>
    have regular := hh h rfl
    refine ⟨_, joinedAll_some h vs, ?_⟩
    rw [foldl_join_eq regular.canonical hvs]
    exact below_trans (hvs v hv) joined (regular_join regular joined) below
      (below_join_right regular joined)

namespace Store

variable {kinds : ClazzId → NumericKind} {s t : Store} {field : ClazzId} {v w : Value}

/-- The value is regular, and above what the field holds in those leaves that are instances. -/
structure Tops (kinds : ClazzId → NumericKind) (s : Store) (field : ClazzId) (leaves : List Value)
    (w : Value) : Prop where
  regular : w.Regular kinds
  above : ∀ id v, .object id ∈ leaves → s.held (.field id field) = some v → v.Below w

/-- Every regular value is above what a field holds in no instances. -/
theorem Tops.nil (hw : w.Regular kinds) : s.Tops kinds field [] w where
  regular := hw
  above _ _ among := absurd among List.not_mem_nil

/-- What a field of a regular store holds is regular. -/
theorem regular_of_held (hs : s.IsRegular kinds) {id : InstanceId}
    (held : s.held (.field id field) = some v) : v.Regular kinds := by
  obtain ⟨fields, known, written⟩ := Option.bind_eq_some_iff.1 held
  exact AllValues.field hs known (OrderedMap.mem_entries_of_find? written)

/-- Above two lists of leaves is what is joined from values above each of them. -/
theorem Tops.join (hs : s.IsRegular kinds) {xs ys : List Value} (hv : s.Tops kinds field xs v)
    (hw : s.Tops kinds field ys w) : s.Tops kinds field (xs ++ ys) (v.join w) where
  regular := Value.regular_join hv.regular hw.regular
  above id u among held := by
    have hu := regular_of_held hs held
    have joined := Value.regular_join hv.regular hw.regular
    rcases List.mem_append.1 among with among | among
    · exact Value.below_trans hu hv.regular joined (hv.above id u among held)
        (Value.below_join hv.regular hw.regular)
    · exact Value.below_trans hu hw.regular joined (hw.above id u among held)
        (Value.below_join_right hv.regular hw.regular)

mutual

/-- What is read of a target is above what the field holds in each instance the target may be. -/
theorem tops_of_readField (hs : s.IsRegular kinds) : (target : Value) → ∀ {w : Value},
    s.readField field target = .ok w → s.Tops kinds field target.leaves w
  | .set atoms, w, read => by
    unfold readField at read
    unfold Value.leaves
    have nothing : s.Tops kinds field [] .noValue := .nil ⟨trivial, trivial⟩
    exact tops_of_readFieldOfAtoms hs atoms nothing read
  | .object id, w, read => by
    unfold readField at read
    obtain ⟨fields, found, read⟩ := exists_of_bind_eq_ok read
    cases read
    have held : s.held (.field id field) = fields.find? field := by
      simp [Store.held, state?_of_fields found]
    refine ⟨?_, fun id' v among held' => ?_⟩
    · cases written : fields.find? field with
      | none => exact ⟨trivial, trivial⟩
      | some v => exact regular_of_held hs (held.trans written)
    · obtain rfl : id' = id := Value.object.inj (List.mem_singleton.1 among)
      rw [← held, held']
      exact Value.below_refl v
  | .boxed content _ _, w, read => by
    unfold readField at read
    unfold Value.leaves
    exact tops_of_readField hs content read
  | .noValue, w, read | .undefined, w, read => by
    cases read
    exact .nil ⟨trivial, trivial⟩
  | .unit, w, read | .bool _, w, read | .number _, w, read | .tagged .., w, read
  | .array _, w, read => by cases read

/-- The part of `tops_of_readField` for the atoms of a target, where `seen` are the leaves that have
been read so far. -/
theorem tops_of_readFieldOfAtoms (hs : s.IsRegular kinds) : (atoms : List Value) →
    ∀ {seen : List Value} {sofar w : Value}, s.Tops kinds field seen sofar →
    s.readFieldOfAtoms field sofar atoms = .ok w →
    s.Tops kinds field (seen ++ Value.leavesOfAtoms atoms) w
  | [], seen, sofar, w, hf, read => by
    cases read
    unfold Value.leavesOfAtoms
    rwa [List.append_nil]
  | atom :: rest, seen, sofar, w, hf, read => by
    unfold readFieldOfAtoms at read
    split at read
    · rename_i h
      cases h
    · cases read
    · rename_i single h
      cases h
      obtain ⟨u, first, read⟩ := exists_of_bind_eq_ok read
      have here := tops_of_readField hs atom first
      have later := tops_of_readFieldOfAtoms hs rest (hf.join hs here) read
      rw [Value.leavesOfAtoms, ← List.append_assoc]
      · exact later
      · exact single

end

mutual

/-- A target can be read if all its leaves are known instances. -/
theorem exists_readField (field : ClazzId) : (target : Value) →
    (∀ leaf ∈ target.leaves, ∃ id ∈ s.instances.ids, leaf = .object id) →
    ∃ w, s.readField field target = .ok w
  | .set atoms, known => by
    unfold readField
    exact exists_readFieldOfAtoms field atoms known
  | .object id, known => by
    obtain ⟨id', here, same⟩ := known _ (List.mem_singleton_self _)
    obtain rfl : id = id' := Value.object.inj same
    obtain ⟨fields, held⟩ := exists_state?_of_mem_ids here
    refine ⟨(fields.find? field).getD .undefined, ?_⟩
    unfold readField Store.fields
    rw [held]
    rfl
  | .boxed content _ _, known => by
    unfold readField
    exact exists_readField field content known
  | .noValue, _ => ⟨_, rfl⟩
  | .undefined, _ => ⟨_, rfl⟩
  | .unit, known | .bool _, known | .number _, known | .tagged .., known | .array _, known => by
    obtain ⟨_, -, ⟨⟩⟩ := known _ (List.mem_singleton_self _)

/-- The part of `exists_readField` for the atoms of a target. -/
theorem exists_readFieldOfAtoms (field : ClazzId) : (atoms : List Value) →
    (∀ leaf ∈ Value.leavesOfAtoms atoms, ∃ id ∈ s.instances.ids, leaf = .object id) →
    ∀ {sofar : Value}, ∃ w, s.readFieldOfAtoms field sofar atoms = .ok w
  | [], _, sofar => ⟨sofar, rfl⟩
  | atom :: rest, known, sofar => by
    unfold readFieldOfAtoms
    split
    · rename_i h
      cases h
    · rename_i h
      cases h
      unfold Value.leavesOfAtoms at known
      obtain ⟨_, -, ⟨⟩⟩ := known _ List.mem_cons_self
    · rename_i single h
      cases h
      rw [Value.leavesOfAtoms, List.forall_mem_append] at known
      · obtain ⟨here, later⟩ := known
        obtain ⟨u, first⟩ := exists_readField field atom here
        rw [first]
        exact exists_readFieldOfAtoms field rest later
      · exact single

end

/-- An instance among some atoms is one of their leaves. -/
theorem mem_leavesOfAtoms {id : InstanceId} {atoms : List Value} (among : .object id ∈ atoms) :
    .object id ∈ Value.leavesOfAtoms atoms := by
  induction atoms with
  | nil => cases among
  | cons atom rest ih =>
    rcases List.mem_cons.1 among with rfl | later
    · exact List.mem_append_left _ (List.mem_singleton_self _)
    · cases atom <;> simp [Value.leavesOfAtoms, ih later]

/-- An instance among the `atoms` of a target is one of its `leaves`. -/
theorem mem_leaves_of_mem_atoms {id : InstanceId} {target : Value}
    (among : .object id ∈ target.atoms) : .object id ∈ target.leaves := by
  cases target with
  | set atoms => exact mem_leavesOfAtoms among
  | object id' =>
    obtain rfl : id = id' := Value.object.inj (List.mem_singleton.1 among)
    exact List.mem_singleton_self _
  | _ => cases List.mem_singleton.1 among

/-- What is written to the leaves of a target is written to each instance among them. -/
theorem mem_valuesAt_fieldEntries {id : InstanceId} {leaves : List Value}
    (among : .object id ∈ leaves) : v ∈ valuesAt (.field id field) (fieldEntries field v leaves) := by
  refine List.mem_map.2 ⟨(.field id field, v), List.mem_filter.2 ⟨?_, by simp⟩, rfl⟩
  exact List.mem_filterMap.2 ⟨_, among, rfl⟩

/-- A write of one value to some leaves brings no other value to any cell. -/
theorem eq_of_mem_valuesAt_fieldEntries {cell : Cell} {leaves : List Value}
    (brought : w ∈ valuesAt cell (fieldEntries field v leaves)) : w = v := by
  obtain ⟨entry, listed, rfl⟩ := List.mem_map.1 brought
  obtain ⟨leaf, -, asked⟩ := List.mem_filterMap.1 (List.mem_filter.1 listed).1
  cases leaf <;> cases asked
  rfl

/-- What has been written to a target is below what is read of it, if the target may be some
instance. Boxed instances are written and read like others. -/
theorem below_of_setField {target : Value} (hs : s.IsRegular kinds) (hv : v.Regular kinds)
    (written : (setField field v target).outcome s = (.ok (), t)) {id : InstanceId}
    (among : .object id ∈ target.leaves) :
    ∃ w, t.readField field target = .ok w ∧ w.Regular kinds ∧ v.Below w := by
  have ht : t.IsRegular kinds := by
    have evolves := evolves_setField (M := fun _ => True) field hv target s
    rw [written] at evolves
    exact (evolves.growsRegularly hs).1
  rw [setField_eq_leaves] at written
  have known := known_of_setFieldOfLeaves (congrArg Prod.fst written)
  obtain ⟨t', run, received⟩ := receives_setFieldOfLeaves field v known
  obtain rfl : t = t' := congrArg Prod.snd (written.symm.trans run)
  rw [← received.keys.instance_ids] at known
  obtain ⟨w, read⟩ := exists_readField field target known
  have tops := tops_of_readField ht target read
  have brought : v ∈ valuesAt (.field id field) (fieldEntries field v target.leaves) :=
    mem_valuesAt_fieldEntries among
  obtain ⟨h, held, below⟩ := Value.exists_joinedAll_eq (fun h held => regular_of_held hs held)
    (fun u among => eq_of_mem_valuesAt_fieldEntries among ▸ hv) brought
  rw [← received.held] at held
  refine ⟨w, read, tops.regular, ?_⟩
  exact Value.below_trans hv (regular_of_held ht held) tops.regular below (tops.above id h among held)

end Store

end ClosedWorld
