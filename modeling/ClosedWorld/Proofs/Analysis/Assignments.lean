import ClosedWorld.Proofs.Analysis.Invariants
import ClosedWorld.Proofs.Analysis.Neat
import ClosedWorld.Proofs.Store.Reading
import ClosedWorld.Proofs.Store.Valued

/-!
# Assignments are seen by reads

A value that is assigned to a field is tagged for the type of the field and joined to what the field
holds, in each instance that the target may be. What is read of the same target afterwards is above
it. Fields of unit type are the exception: nothing is written to them, and they are read like other
fields, so what is read of them does not show that a value was assigned.

## Main statements

* `Setting.of_retag`: what tagging keeps.
* `Analyzer.below_of_assignment`: what is assigned is below what is read.
* `Analyzer.not_below_of_assignment_dropping`: nothing is seen of what is assigned to a unit field.
-/

namespace ClosedWorld

/-! ### Tags for a field -/

namespace Setting

variable {g : Setting} {s : Store} {choice field : ClazzId} {P : Value → Prop} {v w : Value}

section

variable (join : ∀ {v w}, P v → P w → P (v.join w))
  (tagged : ∀ {v} choice tag, P v → P (.tagged v choice tag))

include tagged

/-- What tags keep, and what holds of an atom, holds of the atom when it is tagged for a choice. -/
theorem of_retagAtom (hv : P v) (run : g.retagAtom s choice v = .ok w) : P w := by
  obtain ⟨-, rfl⟩ | ⟨-, clazz, -, rfl⟩ := retagAtom_eq_ok run
  · exact hv
  · cases clazz.bind (g.view.choiceTag? choice) with
    | none => exact hv
    | some tag => exact tagged choice tag hv

include join

/-- What joins and tags keep, and what holds of some atoms, holds of them when they are tagged for a
choice and joined. -/
theorem of_retagAtoms {atoms : List Value} (ha : ∀ atom ∈ atoms, P atom) {sofar : Value}
    (hs : P sofar) (run : g.retagAtoms s choice sofar atoms = .ok w) : P w := by
  induction atoms generalizing sofar with
  | nil =>
    cases run
    exact hs
  | cons atom rest ih =>
    obtain ⟨here, later⟩ := List.forall_mem_cons.1 ha
    unfold retagAtoms at run
    obtain ⟨u, first, run⟩ := exists_of_bind_eq_ok run
    exact ih later (join hs (of_retagAtom tagged here first)) run

/-- What joins and tags keep, and what holds of a value and of its atoms, holds of the value when it
is tagged for a field. -/
theorem of_retag (hv : P v) (ha : ∀ atom ∈ v.atoms, P atom) (some_atom : v.atoms ≠ [])
    (run : g.retag s field v = .ok w) : P w := by
  unfold retag at run
  split at run
  · cases run
    exact hv
  · split at run
    · cases atoms : v.atoms with
      | nil => exact absurd atoms some_atom
      | cons atom rest =>
        rw [atoms] at ha run
        obtain ⟨here, later⟩ := List.forall_mem_cons.1 ha
        unfold retagAtoms at run
        obtain ⟨u, first, run⟩ := exists_of_bind_eq_ok run
        rw [Value.noValue_join] at run
        exact of_retagAtoms join tagged later (of_retagAtom tagged here first) run
    · cases run
      exact hv

end

/-- A value that is there is still there when it is tagged, and as regular. -/
theorem regular_retag {kinds : ClazzId → NumericKind} (hv : v.Regular kinds)
    (there : v.isAbsent = false) (run : g.retag s field v = .ok w) :
    w.Regular kinds ∧ w.isAbsent = false := by
  refine of_retag (P := fun v => v.Regular kinds ∧ v.isAbsent = false) ?_ ?_ ⟨hv, there⟩
    (fun atom ha => ⟨hv.of_mem_atoms ha, ?_⟩) hv.canonical.atoms_ne_nil run
  · exact fun hv hw => ⟨Value.regular_join hv.1 hw.1, Value.isAbsent_join hv.2 hw.2⟩
  · exact fun _ _ hv => ⟨⟨hv.1.canonical, hv.1.coherent⟩, rfl⟩
  · exact Value.isAbsent_of_isAtom ((hv.canonical.differentAtoms there).isAtom atom ha)

end Setting

/-! ### Static accesses of a field -/

namespace Analyzer

variable {z : Analyzer} {a a' : Analysis} {act : Activation} {site : Site} {target value : Value}
  {values : List Value} {field : ClazzId}

/-- A static access of a clazz that needs code is the access of this one clazz. -/
theorem access_of_static {access : Access} (static : access.dynamic = false)
    (needsCode : (z.view.info access.accessed).needsCode = true) (mode : AccessMode) :
    z.access act site access target mode = z.accessOne act site target mode access.accessed := by
  unfold Analyzer.access
  rw [static, needsCode]
  rfl

/-- Calling a field reads it, if something can be read. -/
theorem callOne_field (kind : (z.view.info field).kind = .field) {w : Value}
    (read : a.store.readField field target = .ok w) (there : w ≠ .noValue) (args : List Value) :
    (z.callOne act site target args field).outcome a = (.ok (some w), a) := by
  unfold callOne
  rw [kind]
  dsimp only
  rw [Attempt.outcome_bind]
  show (liftM (a.store.readField field target) >>= _ : Analyzing (Option Value)).outcome a = _
  rw [read]
  show (pure (if w = .noValue then none else some w) : Analyzing (Option Value)).outcome a = _
  rw [if_neg there]
  rfl

/-- Assigning to a field of unit type does nothing. -/
theorem assignOne_of_unit (unit : z.view.resultIsUnit field = true) :
    z.assignOne target values field = pure (some .unit) := by
  unfold assignOne
  rw [unit]
  rfl

/-- The value that is assigned is the first one that is given. -/
theorem written_eq_ok (h : z.written field values = .ok value) : values.head? = some value := by
  cases values with
  | nil => cases h
  | cons first rest =>
    cases h
    rfl

/-- A write answers with the unit value. It changes nothing but the field, and a field of unit type
not even that. -/
theorem assignOne_eq_ok {r : Option Value}
    (run : (z.assignOne target values field).outcome a = (.ok r, a')) :
    r = some .unit ∧ ((z.view.resultIsUnit field = true ∧ a' = a) ∨
      (z.view.resultIsUnit field = false ∧ ∃ value tagged t, values.head? = some value ∧
        z.retag a.store field value = .ok tagged ∧
        (Store.setField field tagged target).outcome a.store = (.ok (), t) ∧
        a' = { a with store := t })) := by
  cases unit : z.view.resultIsUnit field with
  | true =>
    rw [assignOne_of_unit unit] at run
    cases run
    exact ⟨rfl, .inl ⟨rfl, rfl⟩⟩
  | false =>
    unfold assignOne at run
    rw [unit] at run
    obtain ⟨value, taken, run⟩ := Attempt.outcome_lift_bind_eq_ok run
    obtain ⟨_, _, got, run⟩ := Attempt.outcome_bind_eq_ok run
    cases got
    obtain ⟨tagged, retagged, run⟩ := Attempt.outcome_lift_bind_eq_ok run
    obtain ⟨_, _, written, run⟩ := Attempt.outcome_bind_eq_ok run
    cases run
    obtain ⟨wrote, rfl⟩ := Prod.mk.inj written
    exact ⟨rfl, .inr ⟨rfl, value, tagged, _, written_eq_ok taken, retagged, Prod.ext wrote rfl, rfl⟩⟩

/-- Where an analysis is, the values in its store are regular. -/
theorem isRegular_of_reaches (hz : z.intrinsics = .standard) {kinds : ClazzId → NumericKind}
    (agrees : z.view.AgreesWith kinds) (reached : z.Reaches a) : a.store.IsRegular kinds :=
  inv_of_reaches hz (StoreDiscipline.valued (z.view.preserves_regular agrees)) trivial
    (fun h => Store.AllValues.unnoted h) (Store.allValues_empty _) reached

/-- A call without a precondition is the access. -/
theorem call_of_unguarded {access : Access} {args : List Value}
    (unguarded : z.view.hasPrecondition access.accessed = false) (body : access.preOnly = false) :
    z.call act site access target args = z.access act site access target (.call args) := by
  unfold Analyzer.call
  rw [unguarded, body]
  rfl

/-- A value that is there is assigned to a field by a static access, and the target may be some
instance. If the field is not of unit type, then a static call of it on the same target, whoever
makes it, produces a value that is above what was assigned, with the tags that the type of the field
asks for. So it is neither nothing nor the undefined value, and the call changes nothing. The same
is true of a call together with the check of its precondition, if there is none to check. A field of
unit type is not written. -/
theorem below_of_assignment (hz : z.intrinsics = .standard) (reached : z.Reaches a)
    {kinds : ClazzId → NumericKind} (agrees : z.view.AgreesWith kinds) {write read : Access}
    (static : write.dynamic = false) (static' : read.dynamic = false)
    (same : read.accessed = write.accessed)
    (kind : (z.view.info write.accessed).kind = .field)
    (needsCode : (z.view.info write.accessed).needsCode = true)
    {id : InstanceId} (receiver : .object id ∈ target.atoms) (canonical : value.Canonical)
    (coherent : value.Coherent kinds) (there : value ≠ .noValue) (defined : value ≠ .undefined)
    {r : Option Value}
    (assigned : (z.access act site write target (.assign [value])).outcome a = (.ok r, a')) :
    (z.view.resultIsUnit write.accessed = true → a' = a) ∧
      (z.view.resultIsUnit write.accessed = false →
        ∃ tagged w, z.retag a.store write.accessed value = .ok tagged ∧ tagged.Below w ∧
          w ≠ .undefined ∧ ∀ act' site' args,
            (z.access act' site' read target (.call args)).outcome a' = (.ok (some w), a') ∧
            (z.view.hasPrecondition read.accessed = false → read.preOnly = false →
              (z.call act' site' read target args).outcome a' = (.ok (some w), a'))) := by
  have regular : value.Regular kinds := ⟨canonical, coherent⟩
  have present : value.isAbsent = false :=
    Bool.eq_false_iff.2 fun absent => (Value.isAbsent_iff.1 absent).elim there defined
  rw [access_of_static static needsCode] at assigned
  obtain ⟨-, ⟨unit, unchanged⟩ | ⟨unit, _, tagged, t, first, retagged, written, after⟩⟩ :=
    assignOne_eq_ok assigned
  · exact ⟨fun _ => unchanged, fun other => absurd unit (by rw [other]; exact Bool.false_ne_true)⟩
  refine ⟨fun other => absurd other (by rw [unit]; exact Bool.false_ne_true), fun _ => ?_⟩
  cases first
  obtain ⟨regular', present'⟩ := Setting.regular_retag regular present retagged
  obtain ⟨w, readsTo, -, below⟩ := Store.below_of_setField (isRegular_of_reaches hz agrees reached)
    regular' written (Store.mem_leaves_of_mem_atoms receiver)
  have nothing : w ≠ .noValue := by
    rintro rfl
    rw [Value.below_noValue_iff.1 below] at present'
    cases present'
  refine ⟨tagged, w, retagged, below, ?_, fun act' site' args => ?_⟩
  · rintro rfl
    obtain rfl | rfl := Value.below_undefined_iff.1 below <;> cases present'
  · have called : (z.access act' site' read target (.call args)).outcome a' = (.ok (some w), a') := by
      rw [access_of_static static' (same ▸ needsCode), same]
      refine callOne_field kind ?_ nothing args
      rw [after]
      exact readsTo
    refine ⟨called, fun unguarded body => ?_⟩
    rw [call_of_unguarded unguarded body]
    exact called

/-- A number is assigned to the field that main keeps tagged values in. The target is a set that has
the instance of main twice, once in a box. -/
theorem below_of_assignment_mixing :
    let a := (mixing.sweep.outcome {}).2
    let act : Activation := ⟨⟨0⟩, mixing.mainKey, ⟨0⟩⟩
    let site : Site := ⟨⟨0⟩, ⟨0⟩, 0⟩
    let target : Value := .set [.object ⟨0⟩, .boxed (.object ⟨0⟩) ⟨0⟩ ⟨1⟩]
    let value : Value := .number ⟨⟨2⟩, .i32, some 3⟩
    let a' := ((mixing.access act site (.fixed ⟨3⟩) target (.assign [value])).outcome a).2
    mixing.retag a.store ⟨3⟩ value = .ok (.tagged value ⟨1⟩ 1) ∧
      ∃ w, (Value.tagged value ⟨1⟩ 1).Below w ∧ w ≠ .undefined ∧
        (mixing.access act site (.fixed ⟨3⟩) target (.call [])).outcome a' = (.ok (some w), a') ∧
        (mixing.call act site (.fixed ⟨3⟩) target []).outcome a' = (.ok (some w), a') := by
  intro a act site target value a'
  have table : mixing.intrinsics = .standard := by simp only [mixing]
  have agrees : mixing.view.AgreesWith mixing.view.numericKind :=
    fun _ _ special => View.numericKind_of_special special
  have answered : ((mixing.access act site (.fixed ⟨3⟩) target (.assign [value])).outcome a).1 =
      .ok (some .unit) := by decide +kernel
  have assigned : (mixing.access act site (.fixed ⟨3⟩) target (.assign [value])).outcome a =
      (.ok (some .unit), a') := Prod.ext answered (by dsimp only)
  have retagged : mixing.retag a.store ⟨3⟩ value = .ok (.tagged value ⟨1⟩ 1) := by decide +kernel
  have receiver : Value.object ⟨0⟩ ∈ target.atoms := List.mem_cons_self
  have static : (Access.fixed ⟨3⟩).dynamic = false := rfl
  have canonical : value.Canonical := by decide
  have coherent : value.Coherent mixing.view.numericKind :=
    (agrees ⟨2⟩ .i32 (by decide +kernel)).symm
  obtain ⟨tagged, w, retagged', below, defined, read⟩ :=
    (below_of_assignment table (.sweep .start) agrees static static rfl (by decide +kernel)
      (by decide +kernel) receiver canonical coherent (by decide) (by decide) assigned).2
      (by decide +kernel)
  cases retagged.symm.trans retagged'
  obtain ⟨called, unguarded⟩ := read act site []
  exact ⟨retagged, w, below, defined, called, unguarded (by decide +kernel) rfl⟩

/-- An analysis of a program that assigns the unit value to a field of unit type, reads it, and
keeps what it reads. -/
def dropping : Analyzer where
  view := Program.view
    { clazzes :=
        [ ("main", { kind := .routine, code := some ⟨0⟩ })
        , ("unit", { kind := .routine, special := some .unit, needsCode := false })
        , ("any", { kind := .routine, needsCode := false })
        , ("dropped", { kind := .field, outer := some ⟨0⟩, result := some ⟨1⟩ })
        , ("kept", { kind := .field, outer := some ⟨0⟩, result := some ⟨2⟩ }) ]
      blocks :=
        [ [ .current, .const ⟨1⟩ [], .assign (.fixed ⟨3⟩)
          , .current, .current, .call (.fixed ⟨3⟩), .assign (.fixed ⟨4⟩) ] ]
      main := ⟨0⟩
      constString := none }

/-- The undefined value is kept. Whoever assigns the unit value to the field and reads it then finds
the undefined value. -/
theorem not_below_of_assignment_dropping :
    ∃ a, dropping.Reaches a ∧ dropping.run 12 {} = some (.ok a) ∧
      (a.store.instances.state? ⟨0⟩).bind (·.find? ⟨4⟩) = some .undefined ∧
      dropping.retag a.store ⟨3⟩ .unit = .ok .unit ∧ ¬Value.unit.Below .undefined ∧
      ∀ act site,
        (dropping.access act site (.fixed ⟨3⟩) (.object ⟨0⟩) (.assign [.unit])).outcome a =
          (.ok (some .unit), a) ∧
        (dropping.access act site (.fixed ⟨3⟩) (.object ⟨0⟩) (.call [])).outcome a =
          (.ok (some .undefined), a) := by
  obtain ⟨final, run, kept, read⟩ : ∃ final, dropping.run 12 {} = some (.ok final) ∧
      (final.store.instances.state? ⟨0⟩).bind (·.find? ⟨4⟩) = some .undefined ∧
      final.store.readField ⟨3⟩ (.object ⟨0⟩) = .ok .undefined :=
    exists_run (by decide +kernel)
  have needsCode : (dropping.view.info ⟨3⟩).needsCode = true := by decide +kernel
  have kind : (dropping.view.info ⟨3⟩).kind = .field := by decide +kernel
  have unit : dropping.view.resultIsUnit ⟨3⟩ = true := by decide +kernel
  have apart : ¬Value.unit.Below .undefined := by simp [Value.below_undefined_iff]
  refine ⟨final, reaches_run run, run, kept, rfl, apart, fun act site => ⟨?_, ?_⟩⟩
  · rw [access_of_static rfl needsCode]
    show (dropping.assignOne (.object ⟨0⟩) [.unit] ⟨3⟩).outcome final = _
    rw [assignOne_of_unit unit]
    rfl
  · rw [access_of_static rfl needsCode]
    show (dropping.callOne act site (.object ⟨0⟩) [] ⟨3⟩).outcome final = _
    exact callOne_field kind read (by decide) []

end Analyzer

end ClosedWorld
