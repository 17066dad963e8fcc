import ClosedWorld.Proofs.Store.Growth
import ClosedWorld.Proofs.Value.Parts

/-!
# Stores of neat values

A canonical value may still contain what means nothing: a box around nothing, the value of a path
that never returns, a number of a clazz that has none. A *neat* value does not. Joins over no values
at all yield such a value of nothing, but what is written into a store was checked to be there.

## Main definitions

* `Value.NeatPart`, `Value.Neat`: what is asked of a value, at every depth.
* `Store.KeepsElements`: what was stored into arrays stays.
* `StoreDiscipline.neat`: the discipline of stores of neat values.

## Main statements

* `Value.neat_of_clean`: regular values of sound parts are neat.
* `Store.elements_ne_noValue_of_arraySet`: only arrays that nothing was stored into have no
  elements.
-/

namespace ClosedWorld

namespace Value

/-! ### Neat values -/

/-- What is asked of a part of a value: a set has two members or more, which are atoms with
different merge keys, boxes are around something, and numbers are of the kind of their clazz. -/
def NeatPart (view : View) : Value → Prop
  | noValue => False
  | set members =>
    2 ≤ members.length ∧ (members.map mergeKey?).Nodup ∧ ∀ v ∈ members, v.isAtom = true
  | boxed content _ _ => content.isAbsent = false
  | number n => (view.info n.clazz).special = some (.numeric n.kind)
  | _ => True

/-- What is asked of a part of a value holds at every depth. -/
def Neat (view : View) (v : Value) : Prop := v.Everywhere (NeatPart view)

/-- What is asked of a part of a canonical value. -/
def SoundPart (view : View) : Value → Prop
  | noValue => False
  | boxed content _ _ => content.isAbsent = false
  | number n => (view.info n.clazz).special = some (.numeric n.kind)
  | _ => True

variable {view : View} {v w : Value}

/-- That the parts of a value are sound survives the merging of atoms. -/
theorem joinStable_soundPart (view : View) : JoinStable (SoundPart view) where
  set _ := trivial
  bool := trivial
  number _ h := h
  boxed hv hw := isAbsent_join hv hw
  tagged _ _ := trivial

mutual

/-- What is inside a canonical value is canonical, at every depth. -/
theorem Canonical.everywhere : (v : Value) → v.Canonical → v.Everywhere Canonical
  | set members, h => everywhere_set.2 ⟨h, CanonicalAll.everywhere members h.2.2.2.2⟩
  | boxed content _ _, h => everywhere_boxed.2 ⟨h, Canonical.everywhere content h⟩
  | tagged content _ _, h => everywhere_tagged.2 ⟨h, Canonical.everywhere content h⟩
  | noValue, _ => everywhere_noValue.2 trivial
  | undefined, _ => everywhere_undefined.2 trivial
  | unit, _ => everywhere_unit.2 trivial
  | bool _, _ => everywhere_bool.2 trivial
  | number _, _ => everywhere_number.2 trivial
  | object _, _ => everywhere_object.2 trivial
  | array _, _ => everywhere_array.2 trivial

/-- The part of `Canonical.everywhere` for the members of a set. -/
theorem CanonicalAll.everywhere :
    (vs : List Value) → CanonicalAll vs → ∀ v ∈ vs, v.Everywhere Canonical
  | [], _ => List.forall_mem_nil _
  | v :: rest, h =>
    List.forall_mem_cons.2 ⟨Canonical.everywhere v h.1, CanonicalAll.everywhere rest h.2⟩

end

/-- A regular value whose parts are sound. -/
structure Clean (view : View) (v : Value) : Prop where
  regular : v.Regular view.numericKind
  sound : v.Everywhere (SoundPart view)

/-- A regular value of sound parts is neat. -/
theorem neat_of_clean (h : v.Clean view) : v.Neat view := by
  intro part inside
  have canonical := Canonical.everywhere v h.regular.canonical part inside
  have sound := h.sound part inside
  cases part with
  | set members => exact ⟨canonical.1, canonical.2.2.1, canonical.2.2.2.1⟩
  | _ => exact sound

/-- The join of two clean values is clean. -/
theorem clean_join (hv : v.Clean view) (hw : w.Clean view) : (v.join w).Clean view :=
  ⟨regular_join hv.regular hw.regular,
    (joinStable_soundPart view).everywhere_join hv.sound hw.sound⟩

/-- A neat value is not `noValue`. -/
theorem Neat.ne_noValue (h : v.Neat view) : v ≠ noValue := by
  rintro rfl
  exact h.self

/-- A number is clean if it has the kind of its clazz. -/
theorem clean_number {clazz : ClazzId} {kind : NumericKind}
    (special : (view.info clazz).special = some (.numeric kind)) (bits : Option UInt64) :
    (number ⟨clazz, kind, bits⟩).Clean view :=
  ⟨regular_number special bits, everywhere_number.2 special⟩

end Value

/-! ### Arrays -/

namespace Store

/-- Arrays that have elements in the first store have elements in the second one. -/
def KeepsElements (s t : Store) : Prop :=
  s.arrays.Extends (fun v w => v ≠ .noValue → w ≠ .noValue) t.arrays

/-- A store keeps its own elements. -/
theorem keepsElements_refl (s : Store) : s.KeepsElements s := Interned.extends_refl (fun _ h => h) _

/-- A store that keeps its elements twice in a row keeps them. -/
theorem KeepsElements.trans {s t u : Store} (h : s.KeepsElements t) (h' : t.KeepsElements u) :
    s.KeepsElements u :=
  Interned.Extends.trans h h' fun _ _ _ _ _ _ _ _ keeps keeps' there => keeps' (keeps there)

/-- Adding an array keeps the elements of the others. -/
theorem keepsElements_addArray (s : Store) (key : ArrayKey) : s.KeepsElements (s.addArray key) := by
  unfold KeepsElements
  exact Interned.extends_push (fun _ h => h) s.arrays key .noValue

/-- Writing to an array keeps elements: what is there is joined to. -/
theorem keepsElements_putElements {s : Store} {id : ArrayId} {elements : Value}
    (held : s.arrays.state? id = some elements) (value : Value) :
    s.KeepsElements (s.putElements id (elements.join value) value) := by
  unfold KeepsElements
  refine Interned.extends_set (fun _ h => h) fun key v entry there => ?_
  cases held.symm.trans (Interned.state?_of_get? entry)
  exact Value.join_ne_noValue there

/-- When something was stored into an array, it has elements. -/
theorem elements_ne_noValue_of_arraySet {s s' : Store} {id : ArrayId} {value : Value}
    (there : value ≠ .noValue) (stored : (arraySet id value).outcome s = (.ok (), s')) :
    ∃ v, s'.arrays.state? id = some v ∧ v ≠ .noValue := by
  obtain ⟨-, outcome⟩ | ⟨elements, held, ⟨same, outcome⟩ | ⟨-, outcome⟩⟩ :=
    s.arraySet_cases id value
  · cases stored.symm.trans outcome
  · cases stored.symm.trans outcome
    refine ⟨elements, held, ?_⟩
    rintro rfl
    exact there ((Value.noValue_join value).symm.trans same)
  · cases stored.symm.trans outcome
    refine ⟨elements.join value, Interned.state?_set held _, ?_⟩
    by_cases empty : elements = .noValue
    · rwa [empty, Value.noValue_join]
    · exact Value.join_ne_noValue empty

end Store

/-! ### The discipline -/

namespace StoreDiscipline

/-- Values are clean, and arrays keep their elements. -/
def neatTerms (view : View) : StoreTerms where
  Inv s := s.AllValues (Value.Clean view)
  Leads := Store.KeepsElements
  Allowed _ := True
  Good _ v := v.Clean view
  GoodCall _ _ := True
  GoodEnv _ _ := True
  Called _ _ _ := True
  Ready _ _ := True
  Known _ := True
  GoodArity _ := True
  leads_refl := Store.keepsElements_refl
  leads_trans := .trans
  good_mono _ hv := hv
  goodCall_mono _ _ := trivial
  goodEnv_mono _ _ := trivial
  called_mono _ _ := trivial

variable {view : View}

/-- A store of clean values that has kept its elements is `Kept`, in the terms of this discipline.
-/
theorem neatTerms_kept {s t : Store} (leads : s.KeepsElements t)
    (clean : t.AllValues (Value.Clean view)) : (neatTerms view).Kept s t := ⟨clean, leads⟩

open Value in
/-- Elementary changes keep to clean values. -/
def neat (view : View) : StoreDiscipline view where
  toStoreTerms := neatTerms view
  good_join hv hw := clean_join hv hw
  good_atom hv ha := ⟨hv.regular.of_mem_atoms ha, hv.sound.of_mem_atoms ha⟩
  good_of_atoms_eq_nil hv empty := absurd empty hv.regular.canonical.atoms_ne_nil
  good_of_boxed hv := ⟨⟨hv.regular.canonical, hv.regular.coherent⟩, (everywhere_boxed.1 hv.sound).2⟩
  good_of_tagged hv :=
    ⟨⟨hv.regular.canonical, hv.regular.coherent⟩, (everywhere_tagged.1 hv.sound).2⟩
  good_boxed hv there _ :=
    ⟨⟨hv.regular.canonical, hv.regular.coherent⟩, everywhere_boxed.2 ⟨there, hv.sound⟩⟩
  good_tagged hv _ _ :=
    ⟨⟨hv.regular.canonical, hv.regular.coherent⟩, everywhere_tagged.2 ⟨trivial, hv.sound⟩⟩
  good_undefined _ := ⟨⟨trivial, trivial⟩, everywhere_undefined.2 trivial⟩
  good_unit _ := ⟨⟨trivial, trivial⟩, everywhere_unit.2 trivial⟩
  good_bool _ _ := ⟨⟨trivial, trivial⟩, everywhere_bool.2 trivial⟩
  good_any special _ := clean_number special none
  good_constant special _ _ := clean_number special _
  good_count _ _ special _ _ _ := clean_number special _
  known_reference _ _ := trivial
  known_layout _ _ _ := trivial
  known_mentioned _ _ := trivial
  goodArity _ := trivial
  goodArity_zero := trivial
  allowed_noResultField _ _ _ _ _ := trivial
  allowed_missingInstruction _ _ := trivial
  nests_or_allowed := .inr fun _ => trivial
  good_object _ _ := ⟨⟨trivial, trivial⟩, everywhere_object.2 trivial⟩
  good_array _ _ := ⟨⟨trivial, trivial⟩, everywhere_array.2 trivial⟩
  goodEnv_of_key _ _ := trivial
  goodCall_of_key _ _ := trivial
  called_of_key _ _ := trivial
  ready _ := trivial
  goodContext_none _ _ := trivial
  goodContext_of_key _ _ _ _ := trivial
  known_field _ _ _ := trivial
  good_field hs held he := Store.AllValues.field hs held he
  loose_elements hs held := Store.AllValues.elements hs held
  good_binding hs held := Store.AllValues.binding hs held
  goodEnv_outer _ _ _ := trivial
  good_default hs held := Store.AllValues.default hs held
  goodKey hs held :=
    have ⟨target, args⟩ := Store.AllValues.call hs held
    ⟨trivial, target, args, trivial, fun _ _ => trivial, fun _ => .inr trivial⟩
  good_frame _ _ := ⟨⟨trivial, trivial⟩, everywhere_object.2 trivial⟩
  allowed_of_isPlain _ := trivial
  allowed_unknownInstance _ _ _ := trivial
  allowed_unknownArray _ _ _ := trivial
  allowed_unknownEnv _ _ _ := trivial
  allowed_unknownCall _ _ _ := trivial
  kept_addInstance {s _} hs _ _ _ :=
    neatTerms_kept s.keepsElements_refl (Store.AllValues.addInstance hs _)
  kept_putField {s _ _ _ _} hs held _ _ _ hv :=
    neatTerms_kept s.keepsElements_refl (Store.AllValues.putField clean_join hs held _ hv)
  kept_addArray {s key} hs _ _ :=
    neatTerms_kept (s.keepsElements_addArray key) (Store.AllValues.addArray hs _)
  kept_putElements hs held _ _ hv :=
    neatTerms_kept (Store.keepsElements_putElements held _)
      (Store.AllValues.putElements clean_join hs held hv)
  kept_addBinding {s _} hs _ _ _ hv :=
    neatTerms_kept s.keepsElements_refl (Store.AllValues.addBinding hs hv)
  kept_putBinding {s _ _ _ _} hs held _ hv :=
    neatTerms_kept s.keepsElements_refl (Store.AllValues.putBinding clean_join hs _ held hv)
  kept_putDefault {s _ _} hs _ _ hv :=
    neatTerms_kept s.keepsElements_refl (Store.AllValues.putDefault clean_join hs _ hv)
  kept_addCall {s _ _ _ _} hs _ hk _ _ :=
    neatTerms_kept s.keepsElements_refl (Store.AllValues.addCall hs hk.target hk.args _ _)
  kept_putReturns {s _ _ _} hs _ _ _ _ _ _ :=
    neatTerms_kept s.keepsElements_refl (Store.AllValues.putReturns hs _ _)

end StoreDiscipline

end ClosedWorld
