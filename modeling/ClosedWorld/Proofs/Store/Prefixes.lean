import ClosedWorld.Proofs.Store.Frames
import ClosedWorld.Proofs.Store.Reading

/-!
# Writes that fail halfway

A write to a field goes through the leaves of its target in order. It stops at the first leaf that
is not an instance of the store, and says which one that is. What was written up to there stays
written, and nothing else is: a write that fails is a write to the leaves before the one that it
fails at.

## Main definitions

* `Store.isInstance`: the value is an instance of the store.
* `Value.writeFault`: why a leaf cannot be written to.

## Main statements

* `Store.outcome_setFieldOfLeaves`: a write stops at the first leaf that is not an instance.
* `Store.held_of_receives`: several writes of one value to a field are one write.
* `Store.setField_reached`: what a write changes, whether it fails or not.
-/

namespace ClosedWorld

/-- Why a leaf cannot be written to. -/
def Value.writeFault : Value → Fault
  | .object id => .unknownInstance id
  | leaf => .unexpectedValue .object leaf

namespace Store

variable {s t : Store} {field : ClazzId} {value : Value}

/-- The value is an instance of the store. -/
def isInstance (s : Store) : Value → Bool
  | .object id => id ∈ s.instances.ids
  | _ => false

/-- The values that are instances of a store are the instances with the identifiers of its table. -/
theorem isInstance_iff {v : Value} :
    s.isInstance v = true ↔ ∃ id ∈ s.instances.ids, v = .object id := by
  cases v <;> simp [isInstance]

/-- Stores with the same keys have the same instances. -/
theorem SameKeys.isInstance (h : s.SameKeys t) : t.isInstance = s.isInstance := by
  funext v
  unfold Store.isInstance
  rw [h.instance_ids]

/-- A leaf that is not an instance of the store is where a write stops, with the fault `writeFault`,
and nothing is written. -/
theorem outcome_setFieldOfLeaves_cons {leaf : Value} (unknown : ¬ s.isInstance leaf = true)
    (rest : List Value) :
    (setFieldOfLeaves field value (leaf :: rest)).outcome s = (.error leaf.writeFault, s) := by
  cases leaf with
  | object id =>
    unfold setFieldOfLeaves
    rw [Attempt.outcome_bind]
    obtain ⟨-, run⟩ | ⟨fields, held, -⟩ := s.joinField_cases id field value
    · rw [run]
      rfl
    · have known : id ∈ s.instances.ids :=
        Interned.mem_ids_iff_lt.2 (Interned.index_lt_size_of_state? held)
      exact absurd (isInstance_iff.2 ⟨id, known, rfl⟩) unknown
  | _ => rfl

/-- A write reaches the leaves up to the first one that is not an instance of the store. -/
theorem outcome_setFieldOfLeaves (field : ClazzId) (value : Value) (leaves : List Value) :
    ∃ t, (setFieldOfLeaves field value leaves).outcome s =
        (match leaves.find? (fun leaf => !s.isInstance leaf) with
          | none => .ok ()
          | some leaf => .error leaf.writeFault, t) ∧
      s.Receives t (fieldEntries field value (leaves.takeWhile s.isInstance)) := by
  induction leaves generalizing s with
  | nil => exact ⟨s, rfl, .refl s⟩
  -- A write changes no keys, so the leaves that come later are instances before and after it.
  | cons leaf rest ih =>
    by_cases known : s.isInstance leaf = true
    · obtain ⟨id, here, rfl⟩ := isInstance_iff.1 known
      obtain ⟨fields, held⟩ := exists_state?_of_mem_ids here
      obtain ⟨t, run, first⟩ := receives_joinField field value held
      obtain ⟨u, run', last⟩ := ih (s := t)
      rw [first.keys.isInstance] at run' last
      refine ⟨u, ?_, ?_⟩
      · unfold setFieldOfLeaves
        rw [Attempt.outcome_bind, run, List.find?_cons_of_neg (by simp [known])]
        exact run'
      · rw [List.takeWhile_cons_of_pos known]
        exact first.trans last
    · refine ⟨s, ?_, ?_⟩
      · rw [outcome_setFieldOfLeaves_cons known, List.find?_cons_of_pos (by simp [known])]
      · rw [List.takeWhile_cons_of_neg known]
        exact .refl s

/-- Where one value is written to a field again and again, it is written once. -/
theorem held_of_receives (hs : s.AllValues Value.Canonical) (hv : value.Canonical)
    {leaves : List Value} (receives : s.Receives t (fieldEntries field value leaves))
    (id : InstanceId) (f : ClazzId) :
    t.held (.field id f) =
      if f = field ∧ .object id ∈ leaves then some (.joinedTo (s.held (.field id f)) value)
      else s.held (.field id f) := by
  rw [receives.held]
  split
  · rename_i reached
    obtain ⟨rfl, among⟩ := reached
    apply Value.joinedAll_of_forall_eq
    · exact Value.joinedTo_join_self (fun _ found => hs.held found) hv
    · exact List.ne_nil_of_mem (mem_valuesAt_fieldEntries among)
    · exact fun w brought => eq_of_mem_valuesAt_fieldEntries brought
  · rename_i other
    have nothing : valuesAt (.field id f) (fieldEntries field value leaves) = [] := by
      rw [List.eq_nil_iff_forall_not_mem]
      intro v brought
      obtain ⟨leaf, among, asked⟩ := List.mem_filterMap.1 (mem_valuesAt.1 brought)
      cases leaf with
      | object id' =>
        simp only [Option.some.injEq, Prod.mk.injEq, Cell.field.injEq] at asked
        obtain ⟨⟨rfl, rfl⟩, -⟩ := asked
        exact other ⟨rfl, among⟩
      | _ => cases asked
    rw [nothing]
    rfl

/-- A write to a field succeeds if all leaves of the target are instances of the store. Otherwise it
fails at the first one that is not, and says which one that is. Either way the value has been joined
to the field in every instance among the leaves before, and nothing else has changed. -/
theorem setField_reached {s : Store} (hs : s.AllValues Value.Canonical) (target : Value)
    (field : ClazzId) {value : Value} (hv : value.Canonical) :
    ∃ t, (setField field value target).outcome s =
        (match target.leaves.find? (fun leaf => !s.isInstance leaf) with
          | none => .ok ()
          | some leaf => .error leaf.writeFault, t) ∧
      (∀ id f, (t.instances.state? id).bind (·.find? f) =
        if f = field ∧ .object id ∈ target.leaves.takeWhile s.isInstance then
          some (.joinedTo ((s.instances.state? id).bind (·.find? f)) value)
        else (s.instances.state? id).bind (·.find? f)) ∧
      t.instances.keys = s.instances.keys ∧
      t = { s with instances := t.instances, change := t.change } ∧
      t.AllValues Value.Canonical := by
  have outside := keepsPart_setField isOutside_outside field value target s
  have evolves := evolves_setField (M := fun _ => True) field hv target s
  rw [setField_eq_leaves] at outside evolves ⊢
  obtain ⟨t, run, receives⟩ := outcome_setFieldOfLeaves (s := s) field value target.leaves
  rw [run] at outside evolves
  exact ⟨t, run, held_of_receives hs hv receives, receives.keys.instances,
    eq_of_outside_eq outside, evolves.allValues Value.canonical_join hs⟩

/-- Two instances are reached, one of them twice, before a write fails at one that is not known. The
third one comes after it. -/
theorem setField_reached_before :
    let s := after {} [.internInstance ⟨0⟩ none, .internInstance ⟨1⟩ none, .internInstance ⟨2⟩ none,
      .setField (.object ⟨1⟩) ⟨5⟩ (.bool .true)]
    let target : Value := .set [.object ⟨1⟩, .boxed (.object ⟨1⟩) ⟨8⟩ ⟨9⟩,
      .boxed (.boxed (.object ⟨0⟩) ⟨6⟩ ⟨7⟩) ⟨8⟩ ⟨9⟩,
      .boxed (.set [.object ⟨7⟩, .boxed (.object ⟨2⟩) ⟨6⟩ ⟨7⟩]) ⟨6⟩ ⟨7⟩]
    let value : Value := .bool .false
    (s.AllValues Value.Canonical ∧ value.Canonical) ∧
      ∃ t, (setField ⟨5⟩ value target).outcome s = (.error (.unknownInstance ⟨7⟩), t) ∧
        t.held (.field ⟨0⟩ ⟨5⟩) = some (.bool .false) ∧
        t.held (.field ⟨1⟩ ⟨5⟩) = some (.bool .any) ∧ t.held (.field ⟨2⟩ ⟨5⟩) = none := by
  intro s target value
  have hs : s.AllValues Value.Canonical := by
    have held : s.IsRegular fun _ => .i32 := by
      refine isRegular_after (allValues_empty _) ?_
      simp only [List.forall_mem_cons, List.not_mem_nil, IsEmpty.forall_iff, implies_true, and_true]
      exact ⟨trivial, trivial, trivial, ⟨trivial, trivial⟩⟩
    exact held.mono fun _ h => h.canonical
  have hv : value.Canonical := trivial
  obtain ⟨t, run, fields, -⟩ := setField_reached hs target ⟨5⟩ hv
  refine ⟨⟨hs, hv⟩, t, run, (fields ⟨0⟩ ⟨5⟩).trans ?_, (fields ⟨1⟩ ⟨5⟩).trans ?_,
    (fields ⟨2⟩ ⟨5⟩).trans ?_⟩
  all_goals decide +kernel

end Store

end ClosedWorld
