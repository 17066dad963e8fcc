import ClosedWorld.Proofs.Program
import ClosedWorld.Proofs.Store.Values
import ClosedWorld.Proofs.Value.Parts

/-!
# Stores that fit a program

Only clazzes that occur in a program turn up in the keys of its stores, only its fields are written,
and no call has more arguments than some clazz takes. No key is in a table twice. Boxes, tags, nodes
and allocated arrays are there only if something in the program makes them.

## Main definitions

* `View.Makes`: what a program can make a value of.
* `Store.Fits`: the keys and the values in the store are such keys and values.

## Main statements

* `Store.Fits.addInstance` and the others: one for each elementary change.
-/

namespace ClosedWorld

/-- The program can make such a value of something: it has what boxes or tags like that, or the
number is of the kind of its clazz. -/
def View.Makes (view : View) : Value → Prop
  | .boxed _ valueClazz refClazz => view.Boxes valueClazz refClazz
  | .tagged _ choice _ => view.Tags choice
  | .number n => (view.info n.clazz).special = some (.numeric n.kind)
  | _ => True

/-- What a program can make a value of survives the merging of atoms, which keeps boxes, tags and
kinds. -/
theorem View.joinStable_makes (view : View) : Value.JoinStable view.Makes where
  set _ := trivial
  bool := trivial
  number _ h := h
  boxed h _ := h
  tagged h _ := h

/-- The program can make arrays with the key. -/
def View.MakesArray (view : View) : ArrayKey → Prop
  | .alloc _ => view.HasIntrinsic "fuzion.sys.array.alloc"
  | .const site => view.Occurs site.clazz ∧ (view.instr? site.code site.index).isSome

namespace Store

/-- Keys are made of what the program has, and so are values, at every depth, and the fields and the
effects that are set. No key is in its table twice. -/
structure Fits (view : View) (s : Store) : Prop where
  values : s.AllValues fun v => v.Everywhere view.Makes
  instances : s.instances.All fun key fields => view.Occurs key.clazz ∧
    (∀ c, key.context = some c → view.Occurs c) ∧ ∀ e ∈ fields.entries, view.Occurs e.1
  calls : s.calls.All fun key _ => view.Occurs key.clazz ∧ key.args.length ≤ view.maxArity ∧
    (key.pre = true → view.hasPrecondition key.clazz = true)
  envs : s.envs.All fun _ _ => view.HasIntrinsic "effect.abortable"
  arrays : s.arrays.All fun key _ => view.MakesArray key
  defaults : ∀ e ∈ s.defaults.entries, view.Occurs e.1
  instances_nodup : s.instances.keys.Nodup
  calls_nodup : s.calls.keys.Nodup
  envs_nodup : s.envs.keys.Nodup
  arrays_nodup : s.arrays.keys.Nodup

/-- The empty store fits every program. -/
theorem fits_empty (view : View) : Fits view {} where
  values := allValues_empty _
  instances _ _ _ held := by cases held
  calls _ _ _ held := by cases held
  envs _ _ _ held := by cases held
  arrays _ _ _ held := by cases held
  defaults := List.forall_mem_nil _
  instances_nodup := List.nodup_nil
  calls_nodup := List.nodup_nil
  envs_nodup := List.nodup_nil
  arrays_nodup := List.nodup_nil

variable {view : View} {s : Store}

namespace Fits

/-- A field in which an instance holds something occurs in the program. -/
theorem field (hs : s.Fits view) {id : InstanceId} {fields : Fields}
    (held : s.instances.state? id = some fields) {e : ClazzId × Value} (he : e ∈ fields.entries) :
    view.Occurs e.1 := by
  obtain ⟨key, entry⟩ := Interned.exists_get?_of_state? held
  exact (hs.instances id key fields entry).2.2 e he

/-- Dropping the note of a change keeps a store fitting. -/
theorem unnoted (hs : s.Fits view) : s.unnoted.Fits view := { hs with values := hs.values.unnoted }

/-! ### The elementary changes -/

/-- Adding an instance keeps a store fitting if its clazz and its context occur in the program. -/
theorem addInstance (hs : s.Fits view) {key : InstanceKey} (new : s.instances.idOf? key = none)
    (hk : view.Occurs key.clazz) (hc : ∀ c, key.context = some c → view.Occurs c) :
    (s.addInstance key).Fits view :=
  { hs with
    values := hs.values.addInstance key
    instances := Interned.all_push hs.instances ⟨hk, hc, List.forall_mem_nil _⟩
    instances_nodup := Interned.nodup_push hs.instances_nodup new _ }

/-- Writing a field keeps a store fitting if the field occurs in the program, which can make the
`value`. -/
theorem putField (hs : s.Fits view) {id : InstanceId} {fields : Fields}
    (held : s.instances.state? id = some fields) {field : ClazzId} (hf : view.Occurs field)
    {value : Value} (hv : value.Everywhere view.Makes) :
    (s.putField id field fields (.joinedTo (fields.find? field) value) value).Fits view := by
  refine { hs with
    values := hs.values.putField view.joinStable_makes.everywhere_join held field hv
    instances := Interned.all_set hs.instances fun key old entry => ?_
    instances_nodup := Interned.nodup_set hs.instances_nodup _ _ }
  refine ⟨(hs.instances id key old entry).1, (hs.instances id key old entry).2.1, fun e he => ?_⟩
  rcases OrderedMap.mem_entries_insert he with rfl | he
  · exact hf
  · exact hs.field held he

/-- Adding an array keeps a store fitting if the program can make arrays with the `key`. -/
theorem addArray (hs : s.Fits view) {key : ArrayKey} (new : s.arrays.idOf? key = none)
    (hk : view.MakesArray key) : (s.addArray key).Fits view :=
  { hs with
    values := hs.values.addArray key
    arrays := Interned.all_push hs.arrays hk
    arrays_nodup := Interned.nodup_push hs.arrays_nodup new _ }

/-- Writing to an array keeps a store fitting if the program can make the `value`. -/
theorem putElements (hs : s.Fits view) {id : ArrayId} {elements : Value}
    (held : s.arrays.state? id = some elements) {value : Value} (hv : value.Everywhere view.Makes) :
    (s.putElements id (elements.join value) value).Fits view :=
  { hs with
    values := hs.values.putElements view.joinStable_makes.everywhere_join held hv
    arrays := Interned.all_set hs.arrays fun key old held => hs.arrays id key old held
    arrays_nodup := Interned.nodup_set hs.arrays_nodup _ _ }

/-- Adding a node keeps a store fitting if the program has the intrinsic that installs effects. -/
theorem addBinding (hs : s.Fits view) {key : EnvKey} (new : s.envs.idOf? key = none)
    (installs : view.HasIntrinsic "effect.abortable") (hk : key.initial.Everywhere view.Makes) :
    (s.addBinding key).Fits view :=
  { hs with
    values := hs.values.addBinding hk
    envs := Interned.all_push hs.envs installs
    envs_nodup := Interned.nodup_push hs.envs_nodup new _ }

/-- Writing to a node keeps a store fitting if the program can make the `value`. -/
theorem putBinding (hs : s.Fits view) {id : EnvId} (effect : ClazzId) {current : Value}
    (held : s.envs.state? id = some current) {value : Value} (hv : value.Everywhere view.Makes) :
    (s.putBinding id effect (current.join value)).Fits view :=
  { hs with
    values := hs.values.putBinding view.joinStable_makes.everywhere_join effect held hv
    envs := Interned.all_set hs.envs fun key old held => hs.envs id key old held
    envs_nodup := Interned.nodup_set hs.envs_nodup _ _ }

/-- Installing a default keeps a store fitting if the effect occurs in the program, which can make
the `value`. -/
theorem putDefault (hs : s.Fits view) {effect : ClazzId} (he : view.Occurs effect)
    {value : Value} (hv : value.Everywhere view.Makes) :
    (s.putDefault effect (.joinedTo (s.defaults.find? effect) value)).Fits view := by
  refine { hs with
    values := hs.values.putDefault view.joinStable_makes.everywhere_join effect hv
    defaults := fun e held => ?_ }
  rcases OrderedMap.mem_entries_insert held with rfl | held
  · exact he
  · exact hs.defaults e held

/-- Adding a call keeps a store fitting if its clazz occurs, some clazz takes as many arguments, and
it is one of a precondition only where there is one. -/
theorem addCall (hs : s.Fits view) {key : CallKey} (new : s.calls.idOf? key = none)
    (hk : view.Occurs key.clazz) (arity : key.args.length ≤ view.maxArity)
    (checked : key.pre = true → view.hasPrecondition key.clazz = true)
    (ht : key.target.Everywhere view.Makes) (ha : ∀ v ∈ key.args, v.Everywhere view.Makes)
    (frame : InstanceId) (origin : Option CallId) : (s.addCall key frame origin).Fits view :=
  { hs with
    values := hs.values.addCall ht ha frame origin
    calls := Interned.all_push hs.calls ⟨hk, arity, checked⟩
    calls_nodup := Interned.nodup_push hs.calls_nodup new _ }

/-- Marking a call keeps a store fitting. -/
theorem putReturns (hs : s.Fits view) (id : CallId) (state : CallState) :
    (s.putReturns id state).Fits view :=
  { hs with
    values := hs.values.putReturns id state
    calls := Interned.all_set hs.calls fun key old held => hs.calls id key old held
    calls_nodup := Interned.nodup_set hs.calls_nodup _ _ }

end Fits

end Store

end ClosedWorld
