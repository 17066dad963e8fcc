import ClosedWorld.Proofs.Store.Evolution
import ClosedWorld.Proofs.Store.Neat

/-!
# Sound stores

The store of an analysis evolves, and so it keeps to what every elementary change keeps to: its
values are clean, its nodes hold what was installed, or more, and it marks no call as returning that
cannot return.

## Main definitions

* `Store.Sound`: what holds of the store of every analysis.
* `StoreDiscipline.evolving`: the discipline of sound stores, which evolve.

## Main statements

* `Store.Alters.sound`: every elementary change keeps a store sound.
-/

namespace ClosedWorld

namespace Store

variable {view : View} {s t : Store}

/-- What holds of the store of every analysis. -/
structure Sound (view : View) (s : Store) : Prop where
  clean : s.AllValues (Value.Clean view)
  binds : s.BindsAbove
  marks : s.MarksOnly view.MayReturn

/-- The empty store is sound for every program. -/
theorem sound_empty (view : View) : Sound view {} where
  clean := allValues_empty _
  binds := bindsAbove_empty
  marks := marksOnly_empty _

/-- Dropping the note of a change keeps a store sound. -/
theorem Sound.unnoted (hs : s.Sound view) : s.unnoted.Sound view where
  clean := hs.clean.unnoted
  binds := hs.binds
  marks := hs.marks

/-- The values of a sound store are regular, with the kinds that the program gives. -/
theorem Sound.regular (hs : s.Sound view) : s.IsRegular view.numericKind :=
  hs.clean.mono fun _ clean => clean.regular

/-- Every elementary change that writes clean values, and marks what may return, keeps a store
sound. -/
theorem Alters.sound (hs : s.Sound view) (h : s.Alters (Value.Clean view) view.MayReturn t) :
    t.Sound view where
  clean := h.allValues Value.clean_join hs.clean
  binds := (h.mono fun _ clean => clean.regular).bindsAbove hs.regular hs.binds
  marks := h.marksOnly hs.marks

end Store

namespace StoreDiscipline

/-- Stores are sound, and they evolve. -/
def evolvingTerms (view : View) : StoreTerms where
  Inv := Store.Sound view
  Leads := Store.Evolves (Value.Clean view) view.MayReturn
  Allowed _ := True
  Good _ v := v.Clean view
  GoodCall _ _ := True
  GoodEnv _ _ := True
  Called s id key := s.calls.key? id = some key
  Ready := Store.MayEnter view
  Known _ := True
  GoodArity _ := True
  leads_refl := .refl
  leads_trans := .trans
  good_mono _ hv := hv
  goodCall_mono _ _ := trivial
  goodEnv_mono _ _ := trivial
  called_mono h called := h.keepsCalls _ _ called

variable {view : View}

/-- A sound store is `Kept` by an elementary change, in the terms of this discipline. -/
theorem evolvingTerms_kept {s t : Store} (hs : s.Sound view)
    (h : s.Alters (Value.Clean view) view.MayReturn t) : (evolvingTerms view).Kept s t :=
  ⟨h.sound hs, h.evolves⟩

/-- Elementary changes are those by which a store evolves. -/
def evolving (view : View) : StoreDiscipline view :=
  { neat view with
    toStoreTerms := evolvingTerms view
    goodEnv_of_key := fun _ _ => trivial
    goodCall_of_key := fun _ _ => trivial
    called_of_key := fun _ called => called
    ready := fun enters => enters
    good_object := fun hs => (neat view).good_object hs.clean
    good_array := fun hs => (neat view).good_array hs.clean
    goodContext_of_key := fun _ _ _ _ => trivial
    known_field := fun _ _ _ => trivial
    good_field := fun hs => (neat view).good_field hs.clean
    loose_elements := fun hs => (neat view).loose_elements hs.clean
    good_binding := fun hs => (neat view).good_binding hs.clean
    goodEnv_outer := fun _ _ _ => trivial
    good_default := fun hs => (neat view).good_default hs.clean
    goodKey := fun hs held =>
      have ⟨target, args⟩ := hs.clean.call held
      ⟨trivial, target, args, trivial, fun _ _ => trivial, fun _ => .inr trivial⟩
    good_frame := fun hs => (neat view).good_frame hs.clean
    allowed_unknownInstance := fun _ _ _ => trivial
    allowed_unknownArray := fun _ _ _ => trivial
    allowed_unknownEnv := fun _ _ _ => trivial
    allowed_unknownCall := fun _ _ _ => trivial
    kept_addInstance := fun hs new _ _ => evolvingTerms_kept hs (.addInstance new)
    kept_putField := fun hs held grown _ _ hv => evolvingTerms_kept hs (.putField held grown hv)
    kept_addArray := fun hs new _ => evolvingTerms_kept hs (.addArray new)
    kept_putElements := fun hs held grown _ hv => evolvingTerms_kept hs (.putElements held grown hv)
    kept_addBinding := fun hs new _ _ hv => evolvingTerms_kept hs (.addBinding new hv)
    kept_putBinding := fun hs held grown hv => evolvingTerms_kept hs (.putBinding held grown hv)
    kept_putDefault := fun hs grown _ hv => evolvingTerms_kept hs (.putDefault grown hv)
    kept_addCall := fun hs new hk framed _ =>
      evolvingTerms_kept hs (.addCall new hk.target hk.args framed)
    kept_putReturns := fun hs held unmarked _ called marks _ =>
      have entry := Interned.get?_of_key?_of_state? called held
      evolvingTerms_kept hs (.putReturns entry unmarked marks) }

end StoreDiscipline

end ClosedWorld
