import ClosedWorld.Proofs.Store.Evolution

/-!
# Stores of values with a property

Where a property of values is kept by everything that an analysis does to them, all values in its
store have the property. All that has to be shown is what happens to values: that they are joined,
taken apart, boxed and tagged, and where they come from.

## Main definitions

* `View.Preserves`: the property is kept by everything that an analysis does to values.
* `View.AgreesWith`: a map gives numbers the kinds that the program gives to them.
* `StoreDiscipline.valued`: the discipline of stores of values with the property, which evolve.

## Main statements

* `View.preserves_regular`: values stay regular.
-/

namespace ClosedWorld

/-- Whatever an analysis makes of values that have the property has it as well, and so have the
values that it does not make of others. -/
structure View.Preserves (view : View) (P : Value → Prop) : Prop where
  join : ∀ {v w}, P v → P w → P (v.join w)
  atom : ∀ {v a}, P v → a ∈ v.atoms → P a
  of_boxed : ∀ {v valueClazz refClazz}, P (.boxed v valueClazz refClazz) → P v
  of_tagged : ∀ {v choice tag}, P (.tagged v choice tag) → P v
  boxed : ∀ {v}, P v → ∀ valueClazz refClazz, P (.boxed v valueClazz refClazz)
  tagged : ∀ {v}, P v → ∀ choice tag, P (.tagged v choice tag)
  noValue : P .noValue
  undefined : P .undefined
  unit : P .unit
  bool : ∀ truth, P (.bool truth)
  object : ∀ id, P (.object id)
  array : ∀ id, P (.array id)
  any : ∀ {clazz kind}, (view.info clazz).special = some (.numeric kind) →
    P (.number (.any clazz kind))
  constant : ∀ {clazz kind}, (view.info clazz).special = some (.numeric kind) →
    ∀ data, P (.number ⟨clazz, kind, kind.decode data⟩)
  count : ∀ {layout : ConstStringLayout} {lengthType kind code index clazz data},
    view.stringLayout? = some layout → (view.info layout.length).result = some lengthType →
    (view.info lengthType).special = some (.numeric kind) →
    view.instr? code index = some (.const clazz data) →
    (view.info clazz).special = some .constString →
    P (.number ⟨lengthType, kind, some (UInt64.ofNat data.length)⟩)

/-- The map gives each clazz of numbers the kind that the program gives to it. What it gives to
other clazzes does not matter. -/
def View.AgreesWith (view : View) (kinds : ClazzId → NumericKind) : Prop :=
  ∀ clazz kind, (view.info clazz).special = some (.numeric kind) → kinds clazz = kind

/-- Values stay regular if `kinds` gives numbers the kinds that the program gives to them. -/
theorem View.preserves_regular {view : View} {kinds : ClazzId → NumericKind}
    (agrees : view.AgreesWith kinds) : view.Preserves (Value.Regular kinds) where
  join := Value.regular_join
  atom hv ha := hv.of_mem_atoms ha
  of_boxed hv := ⟨hv.canonical, hv.coherent⟩
  of_tagged hv := ⟨hv.canonical, hv.coherent⟩
  boxed hv _ _ := ⟨hv.canonical, hv.coherent⟩
  tagged hv _ _ := ⟨hv.canonical, hv.coherent⟩
  noValue := ⟨trivial, trivial⟩
  undefined := ⟨trivial, trivial⟩
  unit := ⟨trivial, trivial⟩
  bool _ := ⟨trivial, trivial⟩
  object _ := ⟨trivial, trivial⟩
  array _ := ⟨trivial, trivial⟩
  any special := ⟨trivial, (agrees _ _ special).symm⟩
  constant special _ := ⟨trivial, (agrees _ _ special).symm⟩
  count _ _ special _ _ := ⟨trivial, (agrees _ _ special).symm⟩

/-- That nothing is asked of values is kept. -/
theorem View.preserves_true (view : View) : view.Preserves fun _ => True := by
  constructor <;> intros <;> trivial

namespace StoreDiscipline

variable {view : View} {P : Value → Prop}

/-- Values have the property, and stores evolve. -/
def valuedTerms (view : View) (P : Value → Prop) : StoreTerms where
  Inv s := s.AllValues P
  Leads := Store.Evolves P view.MayReturn
  Allowed _ := True
  Good _ v := P v
  GoodCall _ _ := True
  GoodEnv _ _ := True
  Called s id key := s.calls.key? id = some key
  Ready _ _ := True
  Known _ := True
  GoodArity _ := True
  leads_refl := .refl
  leads_trans := .trans
  good_mono _ hv := hv
  goodCall_mono _ _ := trivial
  goodEnv_mono _ _ := trivial
  called_mono h called := h.keepsCalls _ _ called

/-- A store of values with a property that is preserved is `Kept` by an elementary change that
writes such values. -/
theorem valuedTerms_kept (preserves : view.Preserves P) {s t : Store} (hs : s.AllValues P)
    (h : s.Alters P view.MayReturn t) : (valuedTerms view P).Kept s t :=
  ⟨h.allValues preserves.join hs, h.evolves⟩

/-- Elementary changes write values that have the property. -/
def valued (preserves : view.Preserves P) : StoreDiscipline view where
  toStoreTerms := valuedTerms view P
  good_join hv hw := preserves.join hv hw
  good_atom hv ha := preserves.atom hv ha
  good_of_atoms_eq_nil _ _ := preserves.noValue
  good_of_boxed hv := preserves.of_boxed hv
  good_of_tagged hv := preserves.of_tagged hv
  good_boxed hv _ _ := preserves.boxed hv _ _
  good_tagged hv _ tag := preserves.tagged hv _ tag
  good_undefined _ := preserves.undefined
  good_unit _ := preserves.unit
  good_bool _ truth := preserves.bool truth
  good_any special _ := preserves.any special
  good_constant special data _ := preserves.constant special data
  good_count told typed numeric found string _ := preserves.count told typed numeric found string
  known_reference _ _ := trivial
  known_layout _ _ _ := trivial
  known_mentioned _ _ := trivial
  goodArity _ := trivial
  goodArity_zero := trivial
  ready _ := trivial
  allowed_noResultField _ _ _ _ _ := trivial
  allowed_missingInstruction _ _ := trivial
  nests_or_allowed := .inr fun _ => trivial
  good_object _ _ := preserves.object _
  good_array _ _ := preserves.array _
  goodEnv_of_key _ _ := trivial
  goodCall_of_key _ _ := trivial
  called_of_key _ called := called
  goodContext_none _ _ := trivial
  goodContext_of_key _ _ _ _ := trivial
  known_field _ _ _ := trivial
  good_field hs held he := Store.AllValues.field hs held he
  loose_elements hs held := Store.AllValues.elements hs held
  good_binding hs held := Store.AllValues.binding hs held
  goodEnv_outer _ _ _ := trivial
  good_default hs held := Store.AllValues.default hs held
  goodKey hs held :=
    have ⟨target, args⟩ := Store.AllValues.call hs held
    ⟨trivial, target, args, trivial, fun _ _ => trivial, fun _ => .inr trivial⟩
  good_frame _ _ := preserves.object _
  allowed_of_isPlain _ := trivial
  allowed_unknownInstance _ _ _ := trivial
  allowed_unknownArray _ _ _ := trivial
  allowed_unknownEnv _ _ _ := trivial
  allowed_unknownCall _ _ _ := trivial
  kept_addInstance hs new _ _ := valuedTerms_kept preserves hs (.addInstance new)
  kept_putField hs held grown _ _ hv := valuedTerms_kept preserves hs (.putField held grown hv)
  kept_addArray hs new _ := valuedTerms_kept preserves hs (.addArray new)
  kept_putElements hs held grown _ hv := valuedTerms_kept preserves hs (.putElements held grown hv)
  kept_addBinding hs new _ _ hv := valuedTerms_kept preserves hs (.addBinding new hv)
  kept_putBinding hs held grown hv := valuedTerms_kept preserves hs (.putBinding held grown hv)
  kept_putDefault hs grown _ hv := valuedTerms_kept preserves hs (.putDefault grown hv)
  kept_addCall hs new hk framed _ :=
    valuedTerms_kept preserves hs (.addCall new hk.target hk.args framed)
  kept_putReturns hs held unmarked _ called marks _ :=
    have entry := Interned.get?_of_key?_of_state? called held
    valuedTerms_kept preserves hs (.putReturns entry unmarked marks)

end StoreDiscipline

end ClosedWorld
