import ClosedWorld.Proofs.Store.Discipline

/-!
# The contexts of instances

An instance is told apart from others of its clazz by the context that it was made in. A box gets
the context of what is boxed, so no operation brings in a context of its own: where those that are
asked for are admitted, all of them are.

## Main definitions

* `Store.ContextsIn`: all instances are in contexts of a certain kind.
* `StoreDiscipline.contexts`: the discipline of such stores.
-/

namespace ClosedWorld

/-- All instances are in admitted contexts. -/
def Store.ContextsIn (admitted : Option ClazzId → Prop) (s : Store) : Prop :=
  s.instances.All fun key _ => admitted key.context

namespace Store.ContextsIn

variable {admitted : Option ClazzId → Prop} {s : Store}

/-- In the empty store no instance is in a context that is not `admitted`. -/
theorem empty : ContextsIn admitted {} := by
  intro _ _ _ held
  cases held

/-- The context of every instance of such a store is `admitted`. -/
theorem context (hs : s.ContextsIn admitted) {id : InstanceId} {key : InstanceKey}
    (held : s.instances.key? id = some key) : admitted key.context := by
  obtain ⟨fields, entry⟩ := Interned.exists_get?_of_key? held
  exact hs id key fields entry

/-- Adding an instance in a context that is `admitted` keeps all of them so. -/
theorem addInstance (hs : s.ContextsIn admitted) {key : InstanceKey} (hk : admitted key.context) :
    (s.addInstance key).ContextsIn admitted :=
  Interned.all_push hs hk

/-- Writing a field leaves the contexts alone. -/
theorem putField (hs : s.ContextsIn admitted) (id : InstanceId) (field : ClazzId) (fields : Fields)
    (written value : Value) : (s.putField id field fields written value).ContextsIn admitted :=
  Interned.all_set hs fun key old entry => hs id key old entry

end Store.ContextsIn

namespace StoreDiscipline

variable (view : View) (admitted : Option ClazzId → Prop)

/-- Nothing is asked for but the contexts of instances. -/
def contextTerms : StoreTerms where
  Inv := Store.ContextsIn admitted
  Leads _ _ := True
  Allowed _ := True
  Good _ _ := True
  GoodCall _ _ := True
  GoodEnv _ _ := True
  Called _ _ _ := True
  Ready _ _ := True
  Known _ := True
  GoodArity _ := True
  GoodContext := admitted
  leads_refl _ := trivial
  leads_trans _ _ := trivial
  good_mono _ _ := trivial
  goodCall_mono _ _ := trivial
  goodEnv_mono _ _ := trivial
  called_mono _ _ := trivial

variable {admitted} in
/-- A store with nothing but contexts that are `admitted` is `Kept`, whatever it was before. -/
theorem contextTerms_kept {s t : Store} (hs : t.ContextsIn admitted) :
    (contextTerms admitted).Kept s t :=
  ⟨hs, trivial⟩

/-- Elementary changes make instances in admitted contexts only, and keep those that there are. -/
def contexts (none_admitted : admitted none) : StoreDiscipline view where
  toStoreTerms := contextTerms admitted
  good_join _ _ := trivial
  good_atom _ _ := trivial
  good_of_atoms_eq_nil _ _ := trivial
  good_of_boxed _ := trivial
  good_of_tagged _ := trivial
  good_boxed _ _ _ := trivial
  good_tagged _ _ _ := trivial
  good_undefined _ := trivial
  good_unit _ := trivial
  good_bool _ _ := trivial
  good_any _ _ := trivial
  good_constant _ _ _ := trivial
  good_count _ _ _ _ _ _ := trivial
  known_reference _ _ := trivial
  known_layout _ _ _ := trivial
  known_mentioned _ _ := trivial
  goodArity _ := trivial
  goodArity_zero := trivial
  ready _ := trivial
  allowed_noResultField _ _ _ _ _ := trivial
  allowed_missingInstruction _ _ := trivial
  nests_or_allowed := .inr fun _ => trivial
  good_object _ _ := trivial
  good_array _ _ := trivial
  goodEnv_of_key _ _ := trivial
  goodCall_of_key _ _ := trivial
  called_of_key _ _ := trivial
  goodContext_none := none_admitted
  goodContext_of_key hs held := hs.context held
  known_field _ _ _ := trivial
  good_field _ _ _ := trivial
  loose_elements _ _ := .inr trivial
  good_binding _ _ := trivial
  goodEnv_outer _ _ _ := trivial
  good_default _ _ := trivial
  goodKey _ _ :=
    ⟨trivial, trivial, fun _ _ => trivial, trivial, fun _ _ => trivial, fun _ => .inr trivial⟩
  good_frame _ _ := trivial
  allowed_of_isPlain _ := trivial
  allowed_unknownInstance _ _ _ := trivial
  allowed_unknownArray _ _ _ := trivial
  allowed_unknownEnv _ _ _ := trivial
  allowed_unknownCall _ _ _ := trivial
  kept_addInstance hs _ _ context := contextTerms_kept (hs.addInstance context)
  kept_putField hs _ _ _ _ _ := contextTerms_kept (hs.putField _ _ _ _ _)
  kept_addArray hs _ _ := contextTerms_kept hs
  kept_putElements hs _ _ _ _ := contextTerms_kept hs
  kept_addBinding hs _ _ _ _ := contextTerms_kept hs
  kept_putBinding hs _ _ _ := contextTerms_kept hs
  kept_putDefault hs _ _ _ := contextTerms_kept hs
  kept_addCall hs _ _ _ _ := contextTerms_kept hs
  kept_putReturns hs _ _ _ _ _ _ := contextTerms_kept hs

end StoreDiscipline

end ClosedWorld
