import ClosedWorld.Proofs.Store.Prefixes
import ClosedWorld.Proofs.Value.Leaves

/-!
# Reads distribute over joins

A field of a joined target is read as what is read of the two targets, joined. Two boxes in the
targets may have become one by then, but what was in them has been joined as well, so the same
instances are reached; and if one of the two targets cannot be read, what it fails at is still in
the join, or something that fails as well has been made of it.

What a field has not been written yet is undefined, and a join ignores that as long as something
else is there. So reads are also monotone in the store: to write a field for the first time is to
raise it.

The laws of the join which this needs hold for values whose numbers are of the kinds that one map
gives. Where two instances hold numbers of one clazz and different kinds, the kind that is read
depends on the order of the instances.

## Main definitions

* `Store.fieldValue`: what a field of an instance is read as.
* `Store.FieldsHold`, `Store.FieldsBelow`: stores of which fields are read, and their order.

## Main statements

* `Store.readField_eq_ok_iff`: what is read of a filled target, by its leaves.
* `Store.readField_distributes`: joined targets, and raised fields.
* `Store.readField_depends_on_order`: why the kinds have to agree.
-/

namespace ClosedWorld

open Value (joinAll canonical_joinAll regular_joinAll)

namespace Store

variable {kinds kinds' : ClazzId → NumericKind} {s t : Store} {field : ClazzId}
  {target v w r : Value}

/-- What a field of an instance is read as. -/
def fieldValue (s : Store) (id : InstanceId) (field : ClazzId) : Value :=
  (s.held (.field id field)).getD .undefined

/-- What a field is read as in a leaf. -/
def leafValue (s : Store) (field : ClazzId) : (leaf : Value) → Value
  | .object id => s.fieldValue id field
  | _ => .noValue

/-- All values that fields hold have the property, and none of them is nothing. -/
def FieldsHold (P : Value → Prop) (s : Store) : Prop :=
  ∀ id field v, s.held (.field id field) = some v → P v ∧ v ≠ .noValue

/-- The stores have the same instances, and every value that a field holds in the first one is
below what it holds in the second one. -/
structure FieldsBelow (s t : Store) : Prop where
  keys : t.instances.keys = s.instances.keys
  below : ∀ id field v, s.held (.field id field) = some v → v.Below (t.fieldValue id field)

/-- What is said of all values that fields hold, said of the entries of the store. -/
theorem forall_held_field {P : InstanceId → ClazzId → Value → Prop}
    (entries : ∀ id ∈ s.instances.ids, ∀ fields ∈ s.instances.state? id,
      ∀ e ∈ fields.entries, P id e.1 e.2) :
    ∀ id field v, s.held (.field id field) = some v → P id field v := by
  intro id field v held
  obtain ⟨fields, known, written⟩ := Option.bind_eq_some_iff.1 held
  exact entries id (Interned.mem_ids_iff_lt.2 (Interned.index_lt_size_of_state? known)) fields known
    (field, v) (OrderedMap.mem_entries_of_find? written)

/-- After a history that writes regular values, and nothing never, that is what fields hold. -/
theorem fieldsHold_after {requests : List Request}
    (carries : ∀ r ∈ requests, r.Carries fun v => v.Regular kinds ∧ v ≠ .noValue) :
    (after {} requests).FieldsHold (Value.Regular kinds) := by
  have all := allValues_after (s := {}) (fun hv hw =>
    ⟨Value.regular_join hv.1 hw.1, Value.join_ne_noValue hv.2⟩) (allValues_empty _) carries
  exact forall_held_field fun _ _ _ known _ listed => all.field known listed

/-! ### What is read of a leaf -/

/-- Where fields hold regular values, a field is read as a regular value that is not `noValue`, also
if it has not been written. -/
theorem FieldsHold.fieldValue (hs : s.FieldsHold (Value.Regular kinds)) (id : InstanceId)
    (field : ClazzId) :
    (s.fieldValue id field).Regular kinds ∧ s.fieldValue id field ≠ .noValue := by
  unfold Store.fieldValue
  cases held : s.held (.field id field) with
  | none => exact ⟨⟨trivial, trivial⟩, by simp⟩
  | some v => exact hs id field v held

/-- Where fields hold regular values, what a field is read as in a leaf is regular, whatever the
leaf is. -/
theorem FieldsHold.leafValue (hs : s.FieldsHold (Value.Regular kinds)) (field : ClazzId)
    (leaf : Value) : (s.leafValue field leaf).Regular kinds := by
  cases leaf with
  | object id => exact (hs.fieldValue id field).1
  | _ => exact ⟨trivial, trivial⟩

/-- Where fields hold regular values, what a field is read as in some leaves is regular. -/
theorem FieldsHold.regular_leafValues (hs : s.FieldsHold (Value.Regular kinds))
    (field : ClazzId) (leaves : List Value) :
    ∀ v ∈ leaves.map (s.leafValue field), v.Regular kinds := by
  intro v hv
  obtain ⟨leaf, -, rfl⟩ := List.mem_map.1 hv
  exact hs.leafValue field leaf

/-- A field is read as no less in a store that is above in `FieldsBelow`. One that has not been
written is raised by what is written to it. -/
theorem FieldsBelow.fieldValue (h : s.FieldsBelow t) (ht : t.FieldsHold (Value.Regular kinds))
    (id : InstanceId) (field : ClazzId) :
    (s.fieldValue id field).Below (t.fieldValue id field) := by
  cases held : s.held (.field id field) with
  | none =>
    have undefined : s.fieldValue id field = .undefined := by simp [Store.fieldValue, held]
    rw [undefined, Value.undefined_below_iff]
    exact (ht.fieldValue id field).2
  | some v =>
    have written : s.fieldValue id field = v := by simp [Store.fieldValue, held]
    rw [written]
    exact h.below id field v held

/-- The same values are instances in both stores, as these have the same keys. -/
theorem FieldsBelow.isInstance (h : s.FieldsBelow t) : t.isInstance = s.isInstance := by
  funext leaf
  rw [Bool.eq_iff_iff, isInstance_iff, isInstance_iff, Interned.ids_eq_of_keys_eq h.keys]

/-! ### Targets that can be read -/

mutual

/-- A filled target of which all leaves are instances is read leaf by leaf. -/
theorem readField_eq_joinAll (hs : s.FieldsHold (Value.Regular kinds)) : (target : Value) →
    target.IsFilled → (∀ leaf ∈ target.leaves, s.isInstance leaf = true) →
    s.readField field target = .ok (joinAll (target.leaves.map (s.leafValue field)))
  | .set atoms, filled, known => by
    rw [Value.IsFilled] at filled
    rw [Value.leaves] at known ⊢
    rw [readField]
    exact readFieldOfAtoms_eq_joinAll hs atoms filled known []
  | .object id, _, known => by
    obtain ⟨id', here, same⟩ := isInstance_iff.1 (known _ (List.mem_singleton_self _))
    obtain rfl : id = id' := Value.object.inj same
    obtain ⟨fields, held⟩ := exists_state?_of_mem_ids here
    simp [readField, Store.fields, held, Value.leaves, leafValue, fieldValue, Store.held]
  | .boxed content _ _, filled, known => by
    rw [Value.IsFilled] at filled
    rw [Value.leaves] at known ⊢
    rw [readField]
    exact readField_eq_joinAll hs content filled known
  | .noValue, filled, _ | .undefined, filled, _ => by
    rw [Value.IsFilled] at filled
    exact filled.elim
  | .unit, _, known | .bool _, _, known | .number _, _, known | .tagged .., _, known
  | .array _, _, known => by
    obtain ⟨_, -, ⟨⟩⟩ := isInstance_iff.1 (known _ (List.mem_singleton_self _))

/-- The part of `readField_eq_joinAll` for the atoms of a target, where `seen` are the leaves that
have been read so far. -/
theorem readFieldOfAtoms_eq_joinAll (hs : s.FieldsHold (Value.Regular kinds)) :
    (atoms : List Value) → Value.AreFilled atoms →
    (∀ leaf ∈ Value.leavesOfAtoms atoms, s.isInstance leaf = true) → ∀ seen : List Value,
    s.readFieldOfAtoms field (joinAll (seen.map (s.leafValue field))) atoms =
      .ok (joinAll ((seen ++ Value.leavesOfAtoms atoms).map (s.leafValue field)))
  | [], _, _, seen => by
    rw [Value.leavesOfAtoms, List.append_nil]
    rfl
  | atom :: rest, filled, known, seen => by
    rw [Value.AreFilled] at filled
    unfold readFieldOfAtoms
    split
    · rename_i h
      cases h
    · rename_i h
      cases h
      rw [Value.leavesOfAtoms] at known
      obtain ⟨_, -, ⟨⟩⟩ := isInstance_iff.1 (known _ List.mem_cons_self)
    · rename_i single h
      cases h
      rw [Value.leavesOfAtoms, List.forall_mem_append] at known
      · have canonical (leaves : List Value) :
            ∀ v ∈ leaves.map (s.leafValue field), v.Canonical :=
          fun v hv => (hs.regular_leafValues field leaves v hv).canonical
        have here := readField_eq_joinAll hs atom filled.1 known.1
        -- What has been read of the atoms before goes along as the leaves that have been seen.
        have later := readFieldOfAtoms_eq_joinAll hs rest filled.2 known.2 (seen ++ atom.leaves)
        rw [List.map_append, Value.joinAll_append (canonical _) (canonical _)] at later
        rw [Value.leavesOfAtoms, ← List.append_assoc, ← later, here]
        · rfl
        · exact single
      · exact single

end

mutual

/-- All leaves of a target that can be read are instances. -/
theorem isInstance_of_readField : (target : Value) → ∀ {w : Value},
    s.readField field target = .ok w → ∀ leaf ∈ target.leaves, s.isInstance leaf = true
  | .set atoms, w, read => by
    rw [readField] at read
    rw [Value.leaves]
    exact isInstance_of_readFieldOfAtoms atoms read
  | .object id, w, read => by
    rw [readField] at read
    obtain ⟨fields, found, -⟩ := exists_of_bind_eq_ok read
    have here : id ∈ s.instances.ids :=
      Interned.mem_ids_iff_lt.2 (Interned.index_lt_size_of_state? (state?_of_fields found))
    intro leaf listed
    exact isInstance_iff.2 ⟨id, here, List.mem_singleton.1 listed⟩
  | .boxed content _ _, w, read => by
    rw [readField] at read
    rw [Value.leaves]
    exact isInstance_of_readField content read
  | .noValue, _, _ | .undefined, _, _ => List.forall_mem_nil _
  | .unit, _, read | .bool _, _, read | .number _, _, read | .tagged .., _, read
  | .array _, _, read => by cases read

/-- The part of `isInstance_of_readField` for the atoms of a target. -/
theorem isInstance_of_readFieldOfAtoms : (atoms : List Value) → ∀ {sofar w : Value},
    s.readFieldOfAtoms field sofar atoms = .ok w →
    ∀ leaf ∈ Value.leavesOfAtoms atoms, s.isInstance leaf = true
  | [], _, _, _ => List.forall_mem_nil _
  | atom :: rest, sofar, w, read => by
    unfold readFieldOfAtoms at read
    split at read
    · rename_i h
      cases h
    · cases read
    · rename_i single h
      cases h
      obtain ⟨u, first, read⟩ := exists_of_bind_eq_ok read
      rw [Value.leavesOfAtoms, List.forall_mem_append]
      · exact ⟨isInstance_of_readField atom first, isInstance_of_readFieldOfAtoms rest read⟩
      · exact single

end

/-- A filled target can be read if all its leaves are instances, and then what is read joins what
the field holds in each of them. -/
theorem readField_eq_ok_iff (hs : s.FieldsHold (Value.Regular kinds)) (filled : target.IsFilled) :
    s.readField field target = .ok r ↔
      (∀ leaf ∈ target.leaves, s.isInstance leaf = true) ∧
        joinAll (target.leaves.map (s.leafValue field)) = r := by
  constructor
  · intro read
    have known := isInstance_of_readField target read
    rw [readField_eq_joinAll hs target filled known] at read
    exact ⟨known, Except.ok.inj read⟩
  · rintro ⟨known, rfl⟩
    exact readField_eq_joinAll hs target filled known

/-! ### Joined targets -/

/-- All leaves of a join are instances just if those of both values are: a leaf that is none is
kept, or merged into one that is none. -/
theorem forall_isInstance_join (hv : v.Regular kinds) (hw : w.Regular kinds) :
    (∀ leaf ∈ (v.join w).leaves, s.isInstance leaf = true) ↔
      (∀ leaf ∈ v.leaves, s.isInstance leaf = true) ∧
        ∀ leaf ∈ w.leaves, s.isInstance leaf = true := by
  have unknown := Value.exists_mem_leaves_join (Q := fun leaf => ¬s.isInstance leaf = true)
    (fun into => by cases into <;> simp [isInstance]) hv hw
  have := not_congr unknown
  push Not at this
  exact this

/-- An instance is a leaf of a join just if it is one of one of the two values. -/
theorem object_mem_leaves_join (hv : v.Regular kinds) (hw : w.Regular kinds) (id : InstanceId) :
    .object id ∈ (v.join w).leaves ↔ .object id ∈ v.leaves ∨ .object id ∈ w.leaves := by
  have this := Value.exists_mem_leaves_join (Q := fun leaf => leaf = .object id)
    (fun into => by cases into <;> simp) hv hw
  simpa using this

/-- Where all leaves are instances, a join has those of the two values. -/
theorem mem_leaves_join (hv : v.Regular kinds) (hw : w.Regular kinds)
    (known : ∀ leaf ∈ v.leaves, s.isInstance leaf = true)
    (known' : ∀ leaf ∈ w.leaves, s.isInstance leaf = true) (leaf : Value) :
    leaf ∈ (v.join w).leaves ↔ leaf ∈ v.leaves ++ w.leaves := by
  rw [List.mem_append]
  constructor
  · intro listed
    have known := (forall_isInstance_join hv hw).2 ⟨known, known'⟩ leaf listed
    obtain ⟨id, -, rfl⟩ := isInstance_iff.1 known
    exact (object_mem_leaves_join hv hw id).1 listed
  · intro listed
    have known : s.isInstance leaf = true := listed.elim (known leaf) (known' leaf)
    obtain ⟨id, -, rfl⟩ := isInstance_iff.1 known
    exact (object_mem_leaves_join hv hw id).2 listed

/-- What the field holds in the leaves of a join is what it holds in those of the two values. -/
theorem joinAll_leaves_join (hs : s.FieldsHold (Value.Regular kinds)) (hv : v.Regular kinds')
    (hw : w.Regular kinds') (known : ∀ leaf ∈ v.leaves, s.isInstance leaf = true)
    (known' : ∀ leaf ∈ w.leaves, s.isInstance leaf = true) :
    joinAll ((v.join w).leaves.map (s.leafValue field)) =
      (joinAll (v.leaves.map (s.leafValue field))).join
        (joinAll (w.leaves.map (s.leafValue field))) := by
  have regular := hs.regular_leafValues field
  have same := mem_leaves_join hv hw known known'
  calc joinAll ((v.join w).leaves.map (s.leafValue field))
    _ = joinAll ((v.leaves ++ w.leaves).map (s.leafValue field)) :=
      Value.joinAll_eq_of_mem_iff (regular _) fun u => by simp only [List.mem_map, same]
    _ = _ := by
      rw [List.map_append]
      exact Value.joinAll_append (fun u hu => (regular _ u hu).canonical)
        fun u hu => (regular _ u hu).canonical

/-- What is read of a join is what is read of the two targets, joined. -/
theorem readField_join (hs : s.FieldsHold (Value.Regular kinds)) (hv : v.Regular kinds')
    (hw : w.Regular kinds') (fv : v.IsFilled) (fw : w.IsFilled) :
    s.readField field (v.join w) = .ok r ↔
      ∃ x y, s.readField field v = .ok x ∧ s.readField field w = .ok y ∧ x.join y = r := by
  simp only [readField_eq_ok_iff hs (Value.isFilled_join hv hw fv fw), readField_eq_ok_iff hs fv,
    readField_eq_ok_iff hs fw, forall_isInstance_join hv hw]
  constructor
  · rintro ⟨⟨known, known'⟩, rfl⟩
    exact ⟨_, _, ⟨known, rfl⟩, ⟨known', rfl⟩, (joinAll_leaves_join hs hv hw known known').symm⟩
  · rintro ⟨x, y, ⟨known, rfl⟩, ⟨known', rfl⟩, rfl⟩
    exact ⟨⟨known, known'⟩, joinAll_leaves_join hs hv hw known known'⟩

/-! ### Raised fields -/

/-- A target can be read as well where fields hold more, and no less is read. -/
theorem readField_below (hs : s.FieldsHold (Value.Regular kinds))
    (ht : t.FieldsHold (Value.Regular kinds)) (below : s.FieldsBelow t) (filled : target.IsFilled)
    (read : s.readField field target = .ok r) :
    ∃ r', t.readField field target = .ok r' ∧ r.Below r' := by
  obtain ⟨known, rfl⟩ := (readField_eq_ok_iff hs filled).1 read
  rw [← below.isInstance] at known
  have regular := ht.regular_leafValues field target.leaves
  refine ⟨_, (readField_eq_ok_iff ht filled).2 ⟨known, rfl⟩, ?_⟩
  refine Value.joinAll_below (hs.regular_leafValues field _) (regular_joinAll regular) ?_
  intro u hu
  obtain ⟨leaf, listed, rfl⟩ := List.mem_map.1 hu
  have held := List.mem_map_of_mem (f := t.leafValue field) listed
  refine Value.below_trans (hs.leafValue field leaf) (ht.leafValue field leaf)
    (regular_joinAll regular) ?_ (Value.below_joinAll regular held)
  cases leaf with
  | object id => exact below.fieldValue ht id field
  | _ => exact Value.below_refl _

/-! ### Both -/

/-- Of two regular targets in which something is there under every box, the join can be read just if
both can, and then what is read of it is the join of what is read of them. Of such a target no less
is read from a store with the same instances in which every field holds no less, and it can be read
there. In both stores the values in the fields are canonical, none of them is nothing, and their
numbers are of the kinds that one map gives. -/
theorem readField_distributes {kinds kinds' : ClazzId → NumericKind} {s : Store}
    (hs : s.FieldsHold (Value.Regular kinds)) {v w : Value} (hv : v.Regular kinds')
    (hw : w.Regular kinds') (fv : v.IsFilled) (fw : w.IsFilled) (field : ClazzId) :
    (∀ r, s.readField field (v.join w) = .ok r ↔
      ∃ x y, s.readField field v = .ok x ∧ s.readField field w = .ok y ∧ x.join y = r) ∧
    ∀ t : Store, t.FieldsHold (Value.Regular kinds) → s.FieldsBelow t →
      ∀ r, s.readField field v = .ok r → ∃ r', t.readField field v = .ok r' ∧ r.Below r' :=
  ⟨fun _ => readField_join hs hv hw fv fw,
    fun _ ht below _ read => readField_below hs ht below fv read⟩

/-- Two boxes with different contents become one, and one of the two instances in it has not been
written yet. When it is, no less is read. -/
theorem readField_distributes_boxed :
    let requests : List Request := [.internInstance ⟨0⟩ none, .internInstance ⟨1⟩ none,
      .setField (.object ⟨0⟩) ⟨2⟩ (.number ⟨⟨5⟩, .i32, some 1⟩)]
    let later : List Request := [.setField (.object ⟨1⟩) ⟨2⟩ (.number ⟨⟨5⟩, .i32, some 2⟩)]
    let s := after {} requests
    let t := after {} (requests ++ later)
    let v : Value := .boxed (.object ⟨1⟩) ⟨8⟩ ⟨9⟩
    let w : Value := .boxed (.object ⟨0⟩) ⟨8⟩ ⟨9⟩
    (s.FieldsHold (Value.Regular fun _ => .i32) ∧ t.FieldsHold (Value.Regular fun _ => .i32) ∧
        s.FieldsBelow t ∧ v.IsFilled ∧ w.IsFilled) ∧
      v.join w = .boxed (.set [.object ⟨0⟩, .object ⟨1⟩]) ⟨8⟩ ⟨9⟩ ∧
      s.readField ⟨2⟩ v = .ok .undefined ∧
      s.readField ⟨2⟩ (v.join w) = .ok (.number ⟨⟨5⟩, .i32, some 1⟩) ∧
      ∃ r, t.readField ⟨2⟩ v = .ok r ∧ Value.undefined.Below r := by
  intro requests later s t v w
  have carries : ∀ r ∈ requests ++ later,
      r.Carries fun v => v.Regular (fun _ => .i32) ∧ v ≠ .noValue := by
    simp only [requests, later, List.cons_append, List.nil_append, List.forall_mem_cons,
      List.not_mem_nil, IsEmpty.forall_iff, implies_true, and_true]
    exact ⟨trivial, trivial, ⟨⟨trivial, rfl⟩, by simp⟩, ⟨⟨trivial, rfl⟩, by simp⟩⟩
  have hs : s.FieldsHold (Value.Regular fun _ => .i32) :=
    fieldsHold_after (List.forall_mem_append.1 carries).1
  have ht : t.FieldsHold (Value.Regular fun _ => .i32) := fieldsHold_after carries
  have below : s.FieldsBelow t := ⟨by decide +kernel, forall_held_field (by
    unfold Value.Below
    decide +kernel)⟩
  have fv : v.IsFilled := by simp [v, Value.IsFilled]
  have fw : w.IsFilled := by simp [w, Value.IsFilled]
  have regular (id : InstanceId) : (Value.boxed (.object id) ⟨8⟩ ⟨9⟩).Regular fun _ => .i32 :=
    ⟨trivial, trivial⟩
  have unset : s.readField ⟨2⟩ v = .ok .undefined := by decide +kernel
  have set : s.readField ⟨2⟩ w = .ok (.number ⟨⟨5⟩, .i32, some 1⟩) := by decide +kernel
  obtain ⟨joined, raised⟩ := readField_distributes hs (regular ⟨1⟩) (regular ⟨0⟩) fv fw ⟨2⟩
  exact ⟨⟨hs, ht, below, fv, fw⟩, by decide +kernel, unset,
    (joined _).2 ⟨_, _, unset, set, by decide +kernel⟩, raised t ht below _ unset⟩

/-- Numbers of one clazz and of different kinds are why the kinds have to agree. Where two instances
hold such numbers, the kind that is read of both depends on their order, which a join of targets
does not keep; and a field that is raised can hide the number of another instance. -/
theorem readField_depends_on_order :
    (¬∀ (kinds : ClazzId → NumericKind) (s : Store), s.FieldsHold Value.Canonical →
      ∀ v w : Value, v.Regular kinds → w.Regular kinds → v.IsFilled → w.IsFilled →
        ∀ field r, s.readField field (v.join w) = .ok r ↔
          ∃ x y, s.readField field v = .ok x ∧ s.readField field w = .ok y ∧ x.join y = r) ∧
    ¬∀ (kinds : ClazzId → NumericKind) (s t : Store), s.FieldsHold Value.Canonical →
      t.FieldsHold Value.Canonical → s.FieldsBelow t →
        ∀ v : Value, v.Regular kinds → v.IsFilled → ∀ field r r',
          s.readField field v = .ok r → t.readField field v = .ok r' → r.Below r' := by
  have both : (Value.set [.object ⟨0⟩, .object ⟨1⟩]).IsFilled := by
    simp [Value.IsFilled, Value.AreFilled]
  constructor
  · intro distributes
    -- The kind of merged numbers is that of the left one, and these two differ in kind.
    let s := after {} [.internInstance ⟨0⟩ none, .internInstance ⟨1⟩ none,
      .setField (.object ⟨0⟩) ⟨2⟩ (.number ⟨⟨5⟩, .u8, some 1⟩),
      .setField (.object ⟨1⟩) ⟨2⟩ (.number ⟨⟨5⟩, .i32, some 2⟩)]
    have hs : s.FieldsHold Value.Canonical := forall_held_field (by decide +kernel)
    have read := distributes (fun _ => .i32) s hs (.object ⟨1⟩) (.object ⟨0⟩) ⟨trivial, trivial⟩
      ⟨trivial, trivial⟩ trivial trivial ⟨2⟩ (.number (.any ⟨5⟩ .u8))
    obtain ⟨x, y, hx, hy, joined⟩ := read.1 (by decide +kernel)
    have hx' : s.readField ⟨2⟩ (.object ⟨1⟩) = .ok (.number ⟨⟨5⟩, .i32, some 2⟩) := by
      decide +kernel
    have hy' : s.readField ⟨2⟩ (.object ⟨0⟩) = .ok (.number ⟨⟨5⟩, .u8, some 1⟩) := by decide +kernel
    obtain rfl := Except.ok.inj (hx.symm.trans hx')
    obtain rfl := Except.ok.inj (hy.symm.trans hy')
    revert joined
    decide +kernel
  · intro monotone
    let s := after {} [.internInstance ⟨0⟩ none, .internInstance ⟨1⟩ none,
      .setField (.object ⟨0⟩) ⟨2⟩ .unit,
      .setField (.object ⟨1⟩) ⟨2⟩ (.number ⟨⟨5⟩, .i32, some 1⟩)]
    let t := s.after [.setField (.object ⟨0⟩) ⟨2⟩ (.number ⟨⟨5⟩, .u8, some 1⟩)]
    have hs : s.FieldsHold Value.Canonical := forall_held_field (by decide +kernel)
    have ht : t.FieldsHold Value.Canonical := forall_held_field (by decide +kernel)
    have below : s.FieldsBelow t := ⟨by decide +kernel, forall_held_field (by
      unfold Value.Below
      decide +kernel)⟩
    have raised := monotone (fun _ => .i32) s t hs ht below (.set [.object ⟨0⟩, .object ⟨1⟩])
      ⟨by decide, trivial, trivial, trivial⟩ both ⟨2⟩ (.set [.unit, .number ⟨⟨5⟩, .i32, some 1⟩])
      (.set [.unit, .number ⟨⟨5⟩, .u8, some 1⟩]) (by decide +kernel) (by decide +kernel)
    revert raised
    unfold Value.Below
    decide +kernel

end Store

end ClosedWorld
