import ClosedWorld.Proofs.Store.Contexts
import ClosedWorld.Proofs.Store.Scopes

/-!
# The environments of calls

A call keeps the environment that it is made in, and a node is only ever added around an environment
of a call. So nodes stay older than what is inside of them, and looking up an effect on behalf of a
call comes to an end.

## Main definitions

* `Store.Chained`: nodes are older than what is inside of them, and calls are made in nodes.
* `StoreDiscipline.chains`: the discipline of such stores.

## Main statements

* `Store.Chained.exists_scope`: the environment of a call has finitely many nodes.
-/

namespace ClosedWorld

namespace Store

/-- Nodes are older than what is inside of them, and the environments of calls are nodes. -/
structure Chained (s : Store) : Prop where
  older : s.OuterOlder
  calls : s.calls.All fun key _ => s.HasEnv key.env

variable {s t : Store}

/-- The empty store is `Chained`: there are no nodes and no calls. -/
theorem chained_empty : Chained {} where
  older _ _ held := by cases held
  calls _ _ _ held := by cases held

/-- An environment of a store is one of every store with as many nodes. -/
theorem HasEnv.mono {env : Option EnvId} (within : s.envs.size ≤ t.envs.size) (h : s.HasEnv env) :
    t.HasEnv env :=
  fun id hid => Interned.mem_ids_iff_lt.2
    (Nat.lt_of_lt_of_le (Interned.mem_ids_iff_lt.1 (h id hid)) within)

namespace Chained

/-- The environment of a call is one that the store has. -/
theorem env (hs : s.Chained) {id : CallId} {key : CallKey} (held : s.calls.key? id = some key) :
    s.HasEnv key.env := by
  obtain ⟨state, entry⟩ := Interned.exists_get?_of_key? held
  exact hs.calls id key state entry

/-- The environment of a call has finitely many nodes, no more than the store has. -/
theorem exists_scope (hs : s.Chained) {id : CallId} {key : CallKey}
    (held : s.calls.key? id = some key) :
    ∃ ids, s.Scope key.env ids ∧ ids.length ≤ s.envs.size := by
  obtain ⟨ids, scope⟩ := hs.older.exists_scope (hs.env held)
  refine ⟨ids, scope, scope.length_le hs.older fun id hid => ?_⟩
  exact Interned.mem_ids_iff_lt.1 (hs.env held id hid)

/-- Adding a node around an environment of the store keeps it `Chained`: the new node is the
youngest. -/
theorem addBinding (hs : s.Chained) {key : EnvKey} (has : s.HasEnv key.outer) :
    (s.addBinding key).Chained where
  older := hs.older.addBinding has
  calls id key state held := (hs.calls id key state held).mono (Interned.size_le_push ..)

/-- Writing to a node moves no node, so the store stays `Chained`. -/
theorem putBinding (hs : s.Chained) (id : EnvId) (effect : ClazzId) (value : Value) :
    (s.putBinding id effect value).Chained where
  older := hs.older.of_keys (Interned.keys_set ..)
  calls id key state held := (hs.calls id key state held).mono (Interned.size_le_set ..)

/-- Adding a call in an environment of the store keeps the store `Chained`. -/
theorem addCall (hs : s.Chained) {key : CallKey} (has : s.HasEnv key.env) (frame : InstanceId)
    (origin : Option CallId) : (s.addCall key frame origin).Chained where
  older := hs.older
  calls := Interned.all_push hs.calls has

/-- Marking a call keeps the store `Chained`. -/
theorem putReturns (hs : s.Chained) (id : CallId) (state : CallState) :
    (s.putReturns id state).Chained where
  older := hs.older
  calls := Interned.all_set hs.calls fun key old entry => hs.calls id key old entry

end Chained

end Store

namespace StoreDiscipline

/-- Calls are made in environments that there are. -/
def chainTerms : StoreTerms where
  Inv := Store.Chained
  Leads s t := s.envs.size ≤ t.envs.size
  Allowed _ := True
  Good _ _ := True
  GoodCall _ _ := True
  GoodEnv s id := id ∈ s.envs.ids
  Called _ _ _ := True
  Ready _ _ := True
  Known _ := True
  GoodArity _ := True
  leads_refl _ := Nat.le_refl _
  leads_trans := Nat.le_trans
  good_mono _ _ := trivial
  goodCall_mono _ _ := trivial
  goodEnv_mono within h := Store.HasEnv.mono within (fun _ hid => Option.mem_some.1 hid ▸ h) _ rfl
  called_mono _ _ := trivial

/-- Elementary changes add nodes that are older than all that come later. -/
def chains (view : View) : StoreDiscipline view :=
  { contexts view (fun _ => True) trivial with
    toStoreTerms := chainTerms
    good_object := fun _ _ => trivial
    good_array := fun _ _ => trivial
    goodEnv_of_key := fun _ held => Interned.mem_ids.2 ⟨_, held⟩
    goodCall_of_key := fun _ _ => trivial
    called_of_key := fun _ _ => trivial
    goodContext_none := fun _ _ => trivial
    goodContext_of_key := fun _ _ _ _ => trivial
    known_field := fun _ _ _ => trivial
    good_field := fun _ _ _ => trivial
    loose_elements := fun _ _ => .inr trivial
    good_binding := fun _ _ => trivial
    goodEnv_outer := fun hs held ho => Store.HasEnv.of_outer hs.older held _ ho
    good_default := fun _ _ => trivial
    goodKey := fun hs held =>
      ⟨trivial, trivial, fun _ _ => trivial, trivial, hs.env held, fun _ => .inr trivial⟩
    good_frame := fun _ _ => trivial
    allowed_unknownInstance := fun _ _ _ => trivial
    allowed_unknownArray := fun _ _ _ => trivial
    allowed_unknownEnv := fun _ _ _ => trivial
    allowed_unknownCall := fun _ _ _ => trivial
    kept_addInstance := fun hs _ _ _ => ⟨⟨hs.older, hs.calls⟩, Nat.le_refl _⟩
    kept_putField := fun hs _ _ _ _ _ => ⟨⟨hs.older, hs.calls⟩, Nat.le_refl _⟩
    kept_addArray := fun hs _ _ => ⟨⟨hs.older, hs.calls⟩, Nat.le_refl _⟩
    kept_putElements := fun hs _ _ _ _ => ⟨⟨hs.older, hs.calls⟩, Nat.le_refl _⟩
    kept_addBinding := fun hs _ _ has _ => ⟨hs.addBinding has, Interned.size_le_push ..⟩
    kept_putBinding := fun hs _ _ _ => ⟨hs.putBinding _ _ _, Interned.size_le_set ..⟩
    kept_putDefault := fun hs _ _ _ => ⟨⟨hs.older, hs.calls⟩, Nat.le_refl _⟩
    kept_addCall := fun hs _ hk _ _ => ⟨hs.addCall hk.env _ _, Nat.le_refl _⟩
    kept_putReturns := fun hs _ _ _ _ _ _ => ⟨hs.putReturns _ _, Nat.le_refl _⟩ }

end StoreDiscipline

end ClosedWorld
