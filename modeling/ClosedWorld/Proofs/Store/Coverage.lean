import ClosedWorld.Proofs.Store.Evolution
import ClosedWorld.Proofs.Store.Mirroring

/-!
# Stores that are covered by another

A coarse store covers another one if whatever that holds is mirrored at the same place, and each of
its calls is mirrored by a call that returns if it does. A store that evolves stays covered as long
as what is written to it is mirrored where it is written.

## Main definitions

* `Store.Mirrored`: a value that the other store mirrors at a place.
* `Store.Covers`: what a store holds is mirrored by another one.
* `Store.Proceeds`: a store keeps its keys and is covered.
* `Store.Framed`: the frames of calls are instances of their clazzes.

## Main statements

* `Store.Covers.putField` and the others: one for each elementary change.
* `Store.proceeds_setField` and the others: operations on a store that is covered.
-/

namespace ClosedWorld

namespace Store

variable {view : View} {r s s' s'' t : Store} {v value : Value} {place : Place}

/-- At the place, the other store holds what mirrors the value. -/
def Mirrored (view : View) (t s : Store) (place : Place) (v : Value) : Prop :=
  ∃ w, t.At place w ∧ Mirrors view s t v w

/-- The call has a frame, and there is a call that mirrors it. If it has code and returns, then all
calls that mirror it do. -/
structure CallCovered (view : View) (t s : Store) (key : CallKey) (state : CallState) : Prop where
  frame : s.provenance? (.object state.frame) = some (.created key.clazz)
  mirrored : ∃ id' key', t.calls.key? id' = some key' ∧ KeyMirrors view s t key key'
  returns : state.returns = true → (key.pre = true ∨ (view.info key.clazz).kind = .routine) →
    ∀ {id' key' state'}, t.calls.get? id' = some (key', state') → KeyMirrors view s t key key' →
      state'.returns = true

/-- What the third store holds is mirrored at the same place by the first one, where the second one
tells what comes from where. -/
structure Covers (view : View) (t r s : Store) : Prop where
  instances : s.instances.All fun key fields => ∀ e ∈ fields.entries,
    Mirrored view t r (.field key.clazz e.1) e.2
  calls : s.calls.All (CallCovered view t r)
  envs : s.envs.All fun key v => key.initial.Made view ∧
    Mirrored view t r (.binding key.effect) v
  arrays : s.arrays.All fun key v => ∃ p, r.arrayProvenance? key = some p ∧
    Mirrored view t r (.elements p) v
  defaults : ∀ e ∈ s.defaults.entries, Mirrored view t r (.default e.1) e.2

/-- The store is covered by `t`. -/
abbrev Covered (view : View) (t s : Store) : Prop := Covers view t s s

/-- The empty store is covered by every store. -/
theorem covered_empty (view : View) (t : Store) : Covered view t {} where
  instances _ _ _ held := by cases held
  calls _ _ _ held := by cases held
  envs _ _ _ held := by cases held
  arrays _ _ _ held := by cases held
  defaults := List.forall_mem_nil _

/-- What is `Mirrored` at a place stays so when the keys are kept: the mirrors of items are found by
their keys. -/
theorem Mirrored.mono (h : s.Keeps s') (hv : Mirrored view t s place v) :
    Mirrored view t s' place v :=
  hv.imp fun _ ⟨held, mirrors⟩ => ⟨held, mirrors.mono h⟩

/-- A value that is `Mirrored` is made by the program. -/
theorem Mirrored.made (hv : Mirrored view t s place v) : v.Made view := by
  obtain ⟨_, -, mirrors⟩ := hv
  exact mirrors.made

/-- What a coarse store mirrors at a place it mirrors when joined, since it holds one value there
and this mirrors both. -/
theorem Mirrored.join (ht : t.IsCoarse) (hv : Mirrored view t s place v)
    (hv' : Mirrored view t s place value) : Mirrored view t s place (v.join value) := by
  obtain ⟨w, held, mirrors⟩ := hv
  obtain ⟨w', held', mirrors'⟩ := hv'
  cases ht.eq_of_at held held'
  exact ⟨w, held, mirrors.join_of mirrors'⟩

/-- The case of `Mirrored.join` in which there may be nothing held yet. -/
theorem Mirrored.joinedTo (ht : t.IsCoarse) {held : Option Value}
    (hh : ∀ v, held = some v → Mirrored view t s place v) (hv : Mirrored view t s place value) :
    Mirrored view t s place (.joinedTo held value) := by
  cases held with
  | none => exact hv
  | some v => exact (hh v rfl).join ht hv

/-- A call that is covered stays so when the keys are kept. -/
theorem CallCovered.mono {key : CallKey} {state : CallState} (h : s.Keeps s')
    (hc : CallCovered view t s key state) : CallCovered view t s' key state where
  frame := h.provenance? hc.frame
  mirrored := hc.mirrored.imp fun _ ⟨key', known, mirrors⟩ => ⟨key', known, mirrors.mono h⟩
  returns marked code _ _ _ entry mirrors :=
    have ⟨_, _, _, known⟩ := hc.mirrored
    hc.returns marked code entry (known.before h mirrors)

/-- What is covered stays so when the keys are kept. -/
theorem Covers.mono (h : r.Keeps s') (hs : Covers view t r s) : Covers view t s' s where
  instances id key fields held e he := (hs.instances id key fields held e he).mono h
  calls id key state held := (hs.calls id key state held).mono h
  envs id key v held := (hs.envs id key v held).imp_right (.mono h)
  arrays id key v held :=
    (hs.arrays id key v held).imp fun _ ⟨known, mirrored⟩ =>
      ⟨h.arrayProvenance? known, mirrored.mono h⟩
  defaults e he := (hs.defaults e he).mono h

/-- The values of a store that is covered are made by the program. -/
theorem Covers.made (hs : Covers view t r s) : s.AllValues (Value.Made view) where
  instances id key fields held e he := (hs.instances id key fields held e he).made
  calls id key state held := by
    obtain ⟨_, _, -, mirrors⟩ := (hs.calls id key state held).mirrored
    refine ⟨mirrors.target.made, fun v hv => ?_⟩
    obtain ⟨i, hi, rfl⟩ := List.mem_iff_getElem.1 hv
    obtain ⟨length, there⟩ := List.forall₂_iff_get.1 mirrors.args
    exact (there i hi (length ▸ hi)).made
  envs id key v held := (hs.envs id key v held).imp_right Mirrored.made
  arrays id key v held :=
    have ⟨_, _, mirrored⟩ := hs.arrays id key v held
    .inr mirrored.made
  defaults e he := (hs.defaults e he).made

/-! ### Elementary changes -/

section changes

/-- Adding an instance keeps all keys. -/
theorem keeps_addInstance (s : Store) (key : InstanceKey) : s.Keeps (s.addInstance key) :=
  { Keeps.refl s with instances := Interned.keepsKeys_push _ _ _ }

/-- Writing a field keeps all keys. -/
theorem keeps_putField (s : Store) (id : InstanceId) (field : ClazzId) (fields : Fields)
    (grown value : Value) : s.Keeps (s.putField id field fields grown value) :=
  { Keeps.refl s with instances := Interned.keepsKeys_set _ _ _ }

/-- Adding an array keeps all keys. -/
theorem keeps_addArray (s : Store) (key : ArrayKey) : s.Keeps (s.addArray key) :=
  { Keeps.refl s with arrays := Interned.keepsKeys_push _ _ _ }

/-- Writing to an array keeps all keys. -/
theorem keeps_putElements (s : Store) (id : ArrayId) (grown value : Value) :
    s.Keeps (s.putElements id grown value) :=
  { Keeps.refl s with arrays := Interned.keepsKeys_set _ _ _ }

/-- Adding a node keeps all keys. -/
theorem keeps_addBinding (s : Store) (key : EnvKey) : s.Keeps (s.addBinding key) :=
  { Keeps.refl s with envs := Interned.keepsKeys_push _ _ _ }

/-- Writing to a node keeps all keys. -/
theorem keeps_putBinding (s : Store) (id : EnvId) (effect : ClazzId) (grown : Value) :
    s.Keeps (s.putBinding id effect grown) :=
  { Keeps.refl s with envs := Interned.keepsKeys_set _ _ _ }

/-- Installing a default keeps all keys. -/
theorem keeps_putDefault (s : Store) (effect : ClazzId) (grown : Value) :
    s.Keeps (s.putDefault effect grown) := { Keeps.refl s with }

/-- Adding a call keeps all keys. -/
theorem keeps_addCall (s : Store) (key : CallKey) (frame : InstanceId) (origin : Option CallId) :
    s.Keeps (s.addCall key frame origin) :=
  { Keeps.refl s with calls := Interned.keepsKeys_push _ _ _ }

/-- Marking a call keeps all keys. -/
theorem keeps_putReturns (s : Store) (id : CallId) (state : CallState) :
    s.Keeps (s.putReturns id state) :=
  { Keeps.refl s with calls := Interned.keepsKeys_set _ _ _ }

variable {P : Value → Prop} {M : CallKey → Prop}

/-- Every elementary change keeps the keys. -/
theorem Alters.keeps (h : s.Alters P M s') : s.Keeps s' := by
  cases h with
  | addInstance => exact keeps_addInstance ..
  | putField => exact keeps_putField ..
  | addArray => exact keeps_addArray ..
  | putElements => exact keeps_putElements ..
  | addBinding => exact keeps_addBinding ..
  | putBinding => exact keeps_putBinding ..
  | putDefault => exact keeps_putDefault ..
  | addCall => exact keeps_addCall ..
  | putReturns => exact keeps_putReturns ..

/-- The frame of each call is an instance of its clazz. -/
def Framed (s : Store) : Prop :=
  s.calls.All fun key state => s.provenance? (.object state.frame) = some (.created key.clazz)

/-- The empty store is `Framed`, as it has no calls. -/
theorem framed_empty : Framed {} := by
  rintro _ _ _ ⟨⟩

/-- Every elementary change keeps the frames of calls the instances of their clazzes. -/
theorem Alters.framed (hs : s.Framed) (h : s.Alters P M s') : s'.Framed := by
  have kept : s.calls.All fun key state =>
      s'.provenance? (.object state.frame) = some (.created key.clazz) :=
    fun id key state held => h.keeps.provenance? (hs id key state held)
  cases h with
  | addCall new target args made => exact Interned.all_push kept (provenance?_object made)
  | putReturns held unmarked marks =>
    refine Interned.all_set kept fun key' state' held' => ?_
    cases held.symm.trans held'
    have framed := kept _ _ _ held
    exact framed
  | _ => exact kept

/-- The store keeps its keys and is covered. -/
structure Proceeds (view : View) (t s s' : Store) : Prop where
  keeps : s.Keeps s'
  covered : Covered view t s'

/-- A store that is covered `Proceeds` to itself. -/
theorem Proceeds.refl (hs : Covered view t s) : Proceeds view t s s := ⟨.refl s, hs⟩

/-- The relation `Proceeds` is transitive. -/
theorem Proceeds.trans (h : Proceeds view t s s') (h' : Proceeds view t s' s'') :
    Proceeds view t s s'' :=
  ⟨h.keeps.trans h'.keeps, h'.covered⟩

variable (ht : t.IsCoarse) (hs : Covered view t s)

include hs

/-- Adding an instance keeps a store covered, since it has no fields yet. -/
theorem proceeds_addInstance (key : InstanceKey) : Proceeds view t s (s.addInstance key) where
  keeps := keeps_addInstance s key
  covered :=
    have covers := hs.mono (keeps_addInstance s key)
    { covers with instances := Interned.all_push covers.instances (List.forall_mem_nil _) }

include ht in
/-- Writing a field keeps a store covered if the value is `Mirrored` at the field. -/
theorem proceeds_putField {id : InstanceId} {key : InstanceKey} {fields : Fields} {field : ClazzId}
    (entry : s.instances.get? id = some (key, fields))
    (hv : Mirrored view t s (.field key.clazz field) value) :
    Proceeds view t s
      (s.putField id field fields (.joinedTo (fields.find? field) value) value) := by
  have keeps := keeps_putField s id field fields (.joinedTo (fields.find? field) value) value
  have covers := hs.mono keeps
  refine ⟨keeps, { covers with instances := Interned.all_set covers.instances ?_ }⟩
  intro key' fields' entry' e he
  cases entry.symm.trans entry'
  rcases OrderedMap.mem_entries_insert he with rfl | he
  · exact .joinedTo ht (fun v held =>
      covers.instances id key fields entry _ (OrderedMap.mem_entries_of_find? held)) (hv.mono keeps)
  · exact covers.instances id key fields entry e he

/-- Adding an array keeps a store covered if the other store has elements for arrays of its
`Provenance`. -/
theorem proceeds_addArray {key : ArrayKey} {p : Provenance}
    (known : s.arrayProvenance? key = some p)
    {w : Value} (held : t.At (.elements p) w) : Proceeds view t s (s.addArray key) where
  keeps := keeps_addArray s key
  covered :=
    have covers := hs.mono (keeps_addArray s key)
    { covers with
      arrays := Interned.all_push covers.arrays
        ⟨p, (keeps_addArray s key).arrayProvenance? known, w, held, .of_noValue w⟩ }

include ht in
/-- Writing to an array keeps a store covered if the value is `Mirrored` among the elements of its
`Provenance`. -/
theorem proceeds_putElements {id : ArrayId} {elements : Value} {p : Provenance}
    (held : s.arrays.state? id = some elements) (known : s.provenance? (.array id) = some p)
    (hv : Mirrored view t s (.elements p) value) :
    Proceeds view t s (s.putElements id (elements.join value) value) := by
  have keeps := keeps_putElements s id (elements.join value) value
  have covers := hs.mono keeps
  refine ⟨keeps, { covers with arrays := Interned.all_set covers.arrays ?_ }⟩
  intro key elements' entry
  cases held.symm.trans (Interned.state?_of_get? entry)
  rw [provenance?_array (Interned.key?_of_get? entry)] at known
  obtain ⟨q, known', mirrored⟩ := covers.arrays id key elements entry
  cases known'.symm.trans (keeps.arrayProvenance? known)
  exact ⟨p, known', mirrored.join ht (hv.mono keeps)⟩

/-- Adding a node keeps a store covered if its first value is `Mirrored` at the binding of its
effect. -/
theorem proceeds_addBinding {key : EnvKey}
    (hv : Mirrored view t s (.binding key.effect) key.initial) :
    Proceeds view t s (s.addBinding key) where
  keeps := keeps_addBinding s key
  covered :=
    have covers := hs.mono (keeps_addBinding s key)
    { covers with
      envs := Interned.all_push covers.envs ⟨hv.made, hv.mono (keeps_addBinding s key)⟩ }

include ht in
/-- Writing to a node keeps a store covered if the value is `Mirrored` at the binding of its effect.
-/
theorem proceeds_putBinding {id : EnvId} {key : EnvKey} {current : Value} (effect : ClazzId)
    (entry : s.envs.get? id = some (key, current))
    (hv : Mirrored view t s (.binding key.effect) value) :
    Proceeds view t s (s.putBinding id effect (current.join value)) := by
  have keeps := keeps_putBinding s id effect (current.join value)
  have covers := hs.mono keeps
  refine ⟨keeps, { covers with envs := Interned.all_set covers.envs ?_ }⟩
  intro key' current' entry'
  cases entry.symm.trans entry'
  obtain ⟨initial, mirrored⟩ := covers.envs id key current entry
  exact ⟨initial, mirrored.join ht (hv.mono keeps)⟩

include ht in
/-- Installing a default keeps a store covered if the value is `Mirrored` at the default. -/
theorem proceeds_putDefault {effect : ClazzId} (hv : Mirrored view t s (.default effect) value) :
    Proceeds view t s (s.putDefault effect (.joinedTo (s.defaults.find? effect) value)) := by
  have keeps := keeps_putDefault s effect (.joinedTo (s.defaults.find? effect) value)
  have covers := hs.mono keeps
  refine ⟨keeps, { covers with defaults := fun e he => ?_ }⟩
  rcases OrderedMap.mem_entries_insert he with rfl | he
  · exact .joinedTo ht (fun v held => covers.defaults _ (OrderedMap.mem_entries_of_find? held))
      (hv.mono keeps)
  · exact covers.defaults e he

/-- Adding a call keeps a store covered if there is a call in the other store that mirrors its key.
-/
theorem proceeds_addCall {key key' : CallKey} {frame : InstanceId} {id' : CallId}
    (framed : s.provenance? (.object frame) = some (.created key.clazz))
    (known : t.calls.key? id' = some key') (mirrors : KeyMirrors view s t key key')
    (origin : Option CallId) : Proceeds view t s (s.addCall key frame origin) where
  keeps := keeps_addCall s key frame origin
  covered :=
    have covers := hs.mono (keeps_addCall s key frame origin)
    have call : CallCovered view t s key ⟨frame, false, origin⟩ :=
      { frame := framed
        mirrored := ⟨id', key', known, mirrors⟩
        returns := by rintro ⟨⟩ }
    { covers with
      calls := Interned.all_push covers.calls (call.mono (keeps_addCall s key frame origin)) }

/-- Marking a call keeps a store covered if all calls that mirror it are marked as well. -/
theorem proceeds_putReturns {id : CallId} {key : CallKey} {state : CallState}
    (entry : s.calls.get? id = some (key, state))
    (returns : (key.pre = true ∨ (view.info key.clazz).kind = .routine) →
      ∀ {id' key' state'}, t.calls.get? id' = some (key', state') → KeyMirrors view s t key key' →
        state'.returns = true) : Proceeds view t s (s.putReturns id state) := by
  have keeps := keeps_putReturns s id state
  have covers := hs.mono keeps
  refine ⟨keeps, { covers with calls := Interned.all_set covers.calls ?_ }⟩
  intro key' state' entry'
  cases entry.symm.trans entry'
  have call := hs.calls id key state entry
  have marked : CallCovered view t s key { state with returns := true } :=
    { call with returns := fun _ code _ _ _ => returns code }
  exact marked.mono keeps

end changes

end Store

end ClosedWorld
