import ClosedWorld.Proofs.Store.Fitting
import ClosedWorld.Proofs.Store.Growth

/-!
# Stores of values that a program makes

## Main definitions

* `Value.Made`: regular values in which nothing is wrapped but as the program wraps it.
* `StoreDiscipline.made`: the discipline of stores of such values.
-/

namespace ClosedWorld

namespace Value

/-- A regular value, of parts that the program can make. -/
structure Made (view : View) (v : Value) : Prop where
  regular : v.Regular view.numericKind
  parts : v.Everywhere view.Makes

namespace Made

variable {view : View} {v w a : Value} {choice valueClazz refClazz : ClazzId} {tag : Nat}

/-- The join of values that a program makes is one that it makes. -/
theorem join (hv : v.Made view) (hw : w.Made view) : (v.join w).Made view :=
  ⟨regular_join hv.regular hw.regular, view.joinStable_makes.everywhere_join hv.parts hw.parts⟩

/-- The atoms of a value that a program makes are such values. -/
theorem of_mem_atoms (hv : v.Made view) (ha : a ∈ v.atoms) : a.Made view :=
  ⟨hv.regular.of_mem_atoms ha, hv.parts.of_mem_atoms ha⟩

/-- What is in a box that a program makes is a value that it makes. -/
theorem of_boxed (hv : (boxed v valueClazz refClazz).Made view) : v.Made view :=
  ⟨⟨hv.regular.canonical, hv.regular.coherent⟩, (everywhere_boxed.1 hv.parts).2⟩

/-- What is under a tag that a program makes is a value that it makes. -/
theorem of_tagged (hv : (tagged v choice tag).Made view) : v.Made view :=
  ⟨⟨hv.regular.canonical, hv.regular.coherent⟩, (everywhere_tagged.1 hv.parts).2⟩

/-- A program that boxes like this makes the box of a value that it makes. -/
theorem boxed (hv : v.Made view) (boxes : view.Boxes valueClazz refClazz) :
    (boxed v valueClazz refClazz).Made view :=
  ⟨⟨hv.regular.canonical, hv.regular.coherent⟩, everywhere_boxed.2 ⟨boxes, hv.parts⟩⟩

/-- A program that tags like this makes the tagged value of one that it makes. -/
theorem tagged (hv : v.Made view) (tags : view.Tags choice) (tag : Nat) :
    (tagged v choice tag).Made view :=
  ⟨⟨hv.regular.canonical, hv.regular.coherent⟩, everywhere_tagged.2 ⟨tags, hv.parts⟩⟩

/-- Every program makes `noValue`. -/
theorem noValue : noValue.Made view := ⟨⟨trivial, trivial⟩, everywhere_noValue.2 trivial⟩

/-- Every program makes `undefined`. -/
theorem undefined : undefined.Made view := ⟨⟨trivial, trivial⟩, everywhere_undefined.2 trivial⟩

/-- Every program makes `unit`. -/
theorem unit : unit.Made view := ⟨⟨trivial, trivial⟩, everywhere_unit.2 trivial⟩

/-- Every program makes the booleans. -/
theorem bool (truth : Truth) : (bool truth).Made view :=
  ⟨⟨trivial, trivial⟩, everywhere_bool.2 trivial⟩

/-- Every program makes values that are instances: that there are such instances is not said here.
-/
theorem object (id : InstanceId) : (object id).Made view :=
  ⟨⟨trivial, trivial⟩, everywhere_object.2 trivial⟩

/-- Every program makes values that are arrays: that there are such arrays is not said here. -/
theorem array (id : ArrayId) : (array id).Made view :=
  ⟨⟨trivial, trivial⟩, everywhere_array.2 trivial⟩

/-- A program makes the numbers that are of the kind of their clazz. -/
theorem number {clazz : ClazzId} {kind : NumericKind}
    (special : (view.info clazz).special = some (.numeric kind)) (bits : Option UInt64) :
    (number ⟨clazz, kind, bits⟩).Made view :=
  ⟨regular_number special bits, everywhere_number.2 special⟩

end Made

end Value

namespace StoreDiscipline

/-- All values that a store has are made by the program. -/
def madeTerms (view : View) : StoreTerms where
  Inv s := s.AllValues (Value.Made view)
  Leads _ _ := True
  Allowed _ := True
  Good _ v := v.Made view
  GoodCall _ _ := True
  GoodEnv _ _ := True
  Called _ _ _ := True
  Ready _ _ := True
  Known _ := True
  GoodArity _ := True
  leads_refl _ := trivial
  leads_trans _ _ := trivial
  good_mono _ hv := hv
  goodCall_mono _ _ := trivial
  goodEnv_mono _ _ := trivial
  called_mono _ _ := trivial

variable {view : View}

/-- A store of values that a program makes is `Kept`, in the terms of this discipline. -/
theorem madeTerms_kept {s t : Store} (made : t.AllValues (Value.Made view)) :
    (madeTerms view).Kept s t := ⟨made, trivial⟩

open Value in
/-- Elementary changes write what the program makes. -/
def made (view : View) : StoreDiscipline view where
  toStoreTerms := madeTerms view
  good_join hv hw := Made.join hv hw
  good_atom hv ha := Made.of_mem_atoms hv ha
  good_of_atoms_eq_nil _ _ := Made.noValue
  good_of_boxed hv := Made.of_boxed hv
  good_of_tagged hv := Made.of_tagged hv
  good_boxed hv _ boxes := Made.boxed hv boxes
  good_tagged hv tags tag := Made.tagged hv tags tag
  good_undefined _ := Made.undefined
  good_unit _ := Made.unit
  good_bool _ truth := Made.bool truth
  good_any special _ := Made.number special none
  good_constant special _ _ := Made.number special _
  good_count _ _ special _ _ _ := Made.number special _
  known_reference _ _ := trivial
  known_layout _ _ _ := trivial
  known_mentioned _ _ := trivial
  goodArity _ := trivial
  goodArity_zero := trivial
  allowed_noResultField _ _ _ _ _ := trivial
  allowed_missingInstruction _ _ := trivial
  nests_or_allowed := .inr fun _ => trivial
  good_object _ _ := Made.object _
  good_array _ _ := Made.array _
  goodEnv_of_key _ _ := trivial
  goodCall_of_key _ _ := trivial
  called_of_key _ _ := trivial
  ready _ := trivial
  goodContext_none _ _ := trivial
  goodContext_of_key _ _ _ _ := trivial
  known_field _ _ _ := trivial
  good_field hs held he := Store.AllValues.field hs held he
  loose_elements hs held := Store.AllValues.elements hs held
  good_binding hs held := Store.AllValues.binding hs held
  goodEnv_outer _ _ _ := trivial
  good_default hs held := Store.AllValues.default hs held
  goodKey hs held :=
    have ⟨target, args⟩ := Store.AllValues.call hs held
    ⟨trivial, target, args, trivial, fun _ _ => trivial, fun _ => .inr trivial⟩
  good_frame _ _ := Made.object _
  allowed_of_isPlain _ := trivial
  allowed_unknownInstance _ _ _ := trivial
  allowed_unknownArray _ _ _ := trivial
  allowed_unknownEnv _ _ _ := trivial
  allowed_unknownCall _ _ _ := trivial
  kept_addInstance hs _ _ _ := madeTerms_kept (Store.AllValues.addInstance hs _)
  kept_putField hs held _ _ _ hv := madeTerms_kept (Store.AllValues.putField Made.join hs held _ hv)
  kept_addArray hs _ _ := madeTerms_kept (Store.AllValues.addArray hs _)
  kept_putElements hs held _ _ hv :=
    madeTerms_kept (Store.AllValues.putElements Made.join hs held hv)
  kept_addBinding hs _ _ _ hv := madeTerms_kept (Store.AllValues.addBinding hs hv)
  kept_putBinding hs held _ hv :=
    madeTerms_kept (Store.AllValues.putBinding Made.join hs _ held hv)
  kept_putDefault hs _ _ hv := madeTerms_kept (Store.AllValues.putDefault Made.join hs _ hv)
  kept_addCall hs _ hk _ _ := madeTerms_kept (Store.AllValues.addCall hs hk.target hk.args _ _)
  kept_putReturns hs _ _ _ _ _ _ := madeTerms_kept (Store.AllValues.putReturns hs _ _)

end StoreDiscipline

end ClosedWorld
