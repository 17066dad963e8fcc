import ClosedWorld.Value.Join.Lemmas
import Mathlib.Data.List.Nodup

/-!
# Canonical values

A value can be written down in more than one way: a set with one member is that member, and two
members with one merge key should have been merged. A *canonical* value avoids all that, at every
depth. What a canonical value describes can be read off its atoms by merge key, and a canonical
value that is there at all is determined by what this reading gives.

## Main definitions

* `Value.Canonical`: sets have at least two members, all of them atoms with different merge keys.
* `Value.Coherent kinds`: every number is of the kind that `kinds` gives for its clazz.
* `Value.Regular kinds`: both.
* `Value.atomOf?`: the atom with a given merge key in a list.

## Main statements

* `Value.eq_of_atomOf?_eq`: a canonical value is determined by its atoms.
* `Value.canonical_ofAtoms`, `Value.atomOf?_atoms_ofAtoms`: different atoms make a canonical value,
  which has exactly these atoms.
-/

namespace ClosedWorld

/-! ### Ascending lists -/

namespace Ascending

variable {α : Type} [Ord α] [Std.LawfulEqOrd α]

/-- A strictly ascending list has no member twice. -/
theorem nodup {xs : List α} (h : Ascending xs) : xs.Nodup := by
  refine h.imp fun {a b} hab he => ?_
  rw [he, Std.ReflOrd.compare_self] at hab
  cases hab

variable [Std.TransOrd α]

/-- A strictly ascending list is determined by its members. -/
theorem eq_of_mem_iff {xs ys : List α} (hx : Ascending xs) (hy : Ascending ys)
    (h : ∀ a, a ∈ xs ↔ a ∈ ys) : xs = ys := by
  have hperm : xs.Perm ys := (List.perm_ext_iff_of_nodup hx.nodup hy.nodup).2 h
  refine hperm.eq_of_pairwise (fun a b _ _ hab hba => ?_) hx hy
  rw [Std.OrientedOrd.eq_swap, hba] at hab
  cases hab

/-- Sorting a list without repetition by `ofList` rearranges its members and drops none. -/
theorem perm_ofList {xs : List α} (h : xs.Nodup) : (ofList xs).Perm xs :=
  (List.perm_ext_iff_of_nodup (ofList_ascending xs).nodup h).2 fun _ => mem_ofList

end Ascending

namespace Value

/-! ### Canonical and coherent values -/

/-- The value is neither absent nor a set. -/
def isAtom : Value → Bool
  | noValue | undefined | set _ => false
  | _ => true

mutual

/-- Every set in the value, also one inside a box or a tag, has at least two members, which are
listed in ascending order, are atoms and have different merge keys. -/
def Canonical : Value → Prop
  | set members =>
    2 ≤ members.length ∧ Ascending members ∧ (members.map mergeKey?).Nodup ∧
      (∀ v ∈ members, v.isAtom) ∧ CanonicalAll members
  | boxed content _ _ => Canonical content
  | tagged content _ _ => Canonical content
  | _ => True

/-- All values of the list are canonical. -/
def CanonicalAll : List Value → Prop
  | [] => True
  | v :: rest => Canonical v ∧ CanonicalAll rest

end

mutual

/-- Every number in the value is of the kind that `kinds` gives for its clazz. -/
def Coherent (kinds : ClazzId → NumericKind) : Value → Prop
  | number n => n.kind = kinds n.clazz
  | set members => CoherentAll kinds members
  | boxed content _ _ => Coherent kinds content
  | tagged content _ _ => Coherent kinds content
  | _ => True

/-- All values of the list are coherent. -/
def CoherentAll (kinds : ClazzId → NumericKind) : List Value → Prop
  | [] => True
  | v :: rest => Coherent kinds v ∧ CoherentAll kinds rest

end

/-- A canonical value whose numbers are of the kinds that `kinds` gives. -/
structure Regular (kinds : ClazzId → NumericKind) (v : Value) : Prop where
  canonical : v.Canonical
  coherent : v.Coherent kinds

mutual

/-- Whether a value is canonical can be decided. -/
def decideCanonical : (v : Value) → Decidable v.Canonical
  | set members =>
    have : Decidable (CanonicalAll members) := decideCanonicalAll members
    have : Decidable (Ascending members) :=
      inferInstanceAs (Decidable (members.Pairwise fun a b => compare a b = .lt))
    inferInstanceAs (Decidable (2 ≤ members.length ∧ Ascending members ∧
      (members.map mergeKey?).Nodup ∧ (∀ v ∈ members, v.isAtom) ∧ CanonicalAll members))
  | boxed content _ _ => decideCanonical content
  | tagged content _ _ => decideCanonical content
  | noValue | undefined | unit | bool _ | number _ | object _ | array _ => .isTrue trivial

/-- Whether all values of a list are canonical can be decided. -/
def decideCanonicalAll : (vs : List Value) → Decidable (CanonicalAll vs)
  | [] => .isTrue trivial
  | v :: rest =>
    have : Decidable v.Canonical := decideCanonical v
    have : Decidable (CanonicalAll rest) := decideCanonicalAll rest
    inferInstanceAs (Decidable (v.Canonical ∧ CanonicalAll rest))

end

instance (v : Value) : Decidable v.Canonical := decideCanonical v

variable {kinds : ClazzId → NumericKind}

/-- The predicate `CanonicalAll` on a list says that all members are canonical. -/
theorem canonicalAll_iff {vs : List Value} : CanonicalAll vs ↔ ∀ v ∈ vs, v.Canonical := by
  induction vs with
  | nil => simp [CanonicalAll]
  | cons v vs ih => simp [CanonicalAll, ih]

/-- The predicate `CoherentAll` on a list says that all members are coherent. -/
theorem coherentAll_iff {vs : List Value} : CoherentAll kinds vs ↔ ∀ v ∈ vs, v.Coherent kinds := by
  induction vs with
  | nil => simp [CoherentAll]
  | cons v vs ih => simp [CoherentAll, ih]

/-- The values with a merge key are the atoms: sets and absent values have none. -/
theorem isAtom_iff {v : Value} : v.isAtom ↔ v.mergeKey?.isSome := by
  cases v <;> simp [isAtom, mergeKey?]

/-- An atom is not absent. -/
theorem isAbsent_of_isAtom {v : Value} (h : v.isAtom) : v.isAbsent = false := by
  cases v <;> simp_all [isAtom, isAbsent]

/-- An atom has only itself as an atom. -/
theorem atoms_of_isAtom {v : Value} (h : v.isAtom) : v.atoms = [v] := by
  cases v <;> simp_all [isAtom, atoms]

/-! ### Lists of different atoms -/

/-- The values are atoms with different merge keys. -/
structure DifferentAtoms (vs : List Value) : Prop where
  keys_nodup : (vs.map mergeKey?).Nodup
  isAtom : ∀ v ∈ vs, v.isAtom

/-- The first atom with the merge key `k`. -/
def atomOf? (k : MergeKey) (vs : List Value) : Option Value :=
  vs.find? fun v => v.mergeKey? = some k

namespace DifferentAtoms

variable {vs ws : List Value}

/-- Values with different merge keys are different. -/
theorem nodup (h : DifferentAtoms vs) : vs.Nodup := List.Nodup.of_map _ h.keys_nodup

/-- A list of different atoms stays one if it is rearranged. -/
theorem perm (h : DifferentAtoms vs) (hp : ws.Perm vs) : DifferentAtoms ws where
  keys_nodup := (hp.map mergeKey?).nodup_iff.2 h.keys_nodup
  isAtom v hv := h.isAtom v (hp.mem_iff.1 hv)

/-- In a list of different atoms, `atomOf? k` finds the one value with the merge key `k`. -/
theorem atomOf?_eq_some_iff (h : DifferentAtoms vs) {k : MergeKey} {v : Value} :
    atomOf? k vs = some v ↔ v ∈ vs ∧ v.mergeKey? = some k := by
  unfold atomOf?
  constructor
  · intro hf
    exact ⟨List.mem_of_find?_eq_some hf, by simpa using List.find?_some hf⟩
  · rintro ⟨hv, hk⟩
    cases hf : vs.find? fun v => v.mergeKey? = some k with
    | none =>
      have hno := List.find?_eq_none.1 hf v hv
      simp [hk] at hno
    | some w =>
      have hw : w ∈ vs := List.mem_of_find?_eq_some hf
      have hwk : w.mergeKey? = some k := by simpa using List.find?_some hf
      rw [List.inj_on_of_nodup_map h.keys_nodup hw hv (hwk.trans hk.symm)]

/-- What `atomOf?` finds in a list of different atoms does not depend on their order. -/
theorem atomOf?_perm (h : DifferentAtoms vs) (hp : ws.Perm vs) (k : MergeKey) :
    atomOf? k ws = atomOf? k vs := by
  ext v
  rw [(h.perm hp).atomOf?_eq_some_iff, h.atomOf?_eq_some_iff, hp.mem_iff]

/-- The members of a list of different atoms are those that `atomOf?` finds under some key. -/
theorem mem_iff_atomOf? (h : DifferentAtoms vs) {v : Value} :
    v ∈ vs ↔ ∃ k, atomOf? k vs = some v := by
  constructor
  · intro hv
    obtain ⟨k, hk⟩ := Option.isSome_iff_exists.1 (isAtom_iff.1 (h.isAtom v hv))
    exact ⟨k, h.atomOf?_eq_some_iff.2 ⟨hv, hk⟩⟩
  · rintro ⟨k, hk⟩
    exact (h.atomOf?_eq_some_iff.1 hk).1

end DifferentAtoms

/-! ### The atoms of a canonical value -/

/-- The atoms of a canonical value that is there are different atoms. -/
theorem Canonical.differentAtoms {v : Value} (hc : v.Canonical) (hv : v.isAbsent = false) :
    DifferentAtoms v.atoms := by
  have single (ha : v.isAtom) : DifferentAtoms v.atoms := by
    rw [atoms_of_isAtom ha]
    exact ⟨List.nodup_singleton _, fun w hw => List.mem_singleton.1 hw ▸ ha⟩
  cases v with
  | set members =>
    obtain ⟨-, -, hkeys, hatoms, -⟩ := hc
    exact ⟨hkeys, hatoms⟩
  | noValue => cases hv
  | undefined => cases hv
  | _ => exact single rfl

/-- The `atoms` of a canonical value are listed in ascending order. -/
theorem Canonical.ascending_atoms {v : Value} (hc : v.Canonical) : Ascending v.atoms := by
  cases v with
  | set members => exact hc.2.1
  | _ => exact List.pairwise_singleton ..

/-- A canonical value has at least one atom. A set without members would have none. -/
theorem Canonical.atoms_ne_nil {v : Value} (hc : v.Canonical) : v.atoms ≠ [] := by
  cases v with
  | set members =>
    intro h
    rw [show members = [] from h] at hc
    exact absurd hc.1 (by decide)
  | _ => exact List.cons_ne_nil _ _

/-- The atoms of a canonical value are canonical. -/
theorem Canonical.of_mem_atoms {v a : Value} (hc : v.Canonical) (ha : a ∈ v.atoms) :
    a.Canonical := by
  cases v with
  | set members => exact canonicalAll_iff.1 hc.2.2.2.2 a ha
  | _ => exact List.mem_singleton.1 ha ▸ hc

/-- The atoms of a coherent value are coherent with the same `kinds`. -/
theorem Coherent.of_mem_atoms {v a : Value} (hc : v.Coherent kinds) (ha : a ∈ v.atoms) :
    a.Coherent kinds := by
  cases v with
  | set members => exact coherentAll_iff.1 hc a ha
  | _ => exact List.mem_singleton.1 ha ▸ hc

/-- The atoms of a regular value are regular. -/
theorem Regular.of_mem_atoms {v a : Value} (h : v.Regular kinds) (ha : a ∈ v.atoms) :
    a.Regular kinds :=
  ⟨h.canonical.of_mem_atoms ha, h.coherent.of_mem_atoms ha⟩

/-- Canonical values with the same `atoms` are the same: a set has at least two of them, so it is
not taken for its only member. -/
theorem Canonical.eq_of_atoms_eq {v w : Value} (hv : v.Canonical) (hw : w.Canonical)
    (h : v.atoms = w.atoms) : v = w := by
  have not_single {members : List Value} {u : Value} (hs : (set members).Canonical) :
      members ≠ [u] := by
    rintro rfl
    exact absurd hs.1 (by simp)
  cases v <;> cases w <;>
    first
    | exact congrArg set h
    | exact absurd h (not_single hv)
    | exact absurd h.symm (not_single hw)
    | exact List.singleton_inj.1 h

/-- A canonical value that is there is determined by its atoms of each merge key, as `atomOf?` gives
them. -/
theorem eq_of_atomOf?_eq {v w : Value} (hv : v.Canonical) (hw : w.Canonical)
    (hv' : v.isAbsent = false) (hw' : w.isAbsent = false)
    (h : ∀ k, atomOf? k v.atoms = atomOf? k w.atoms) : v = w := by
  refine hv.eq_of_atoms_eq hw (hv.ascending_atoms.eq_of_mem_iff hw.ascending_atoms fun a => ?_)
  rw [(hv.differentAtoms hv').mem_iff_atomOf?, (hw.differentAtoms hw').mem_iff_atomOf?]
  simp only [h]

/-! ### Values made of atoms -/

section ofAtoms

variable {vs : List Value}

/-- The value `ofAtoms vs` of different atoms has these as its atoms, in some order. -/
theorem atoms_ofAtoms_perm (h : DifferentAtoms vs) : (ofAtoms vs).atoms.Perm vs := by
  unfold ofAtoms
  split
  · rw [atoms_of_isAtom (h.isAtom _ (List.mem_singleton_self _))]
  · exact Ascending.perm_ofList h.nodup

/-- In the value `ofAtoms vs` of different atoms, each merge key has the atom that it has in `vs`.
-/
theorem atomOf?_atoms_ofAtoms (h : DifferentAtoms vs) (k : MergeKey) :
    atomOf? k (ofAtoms vs).atoms = atomOf? k vs :=
  h.atomOf?_perm (atoms_ofAtoms_perm h) k

/-- The value `ofAtoms vs` of different atoms is not absent. -/
theorem isAbsent_ofAtoms (h : DifferentAtoms vs) : (ofAtoms vs).isAbsent = false := by
  unfold ofAtoms
  split
  · exact isAbsent_of_isAtom (h.isAtom _ (List.mem_singleton_self _))
  · rfl

/-- Different canonical atoms, at least one of them, make a canonical value by `ofAtoms`. -/
theorem canonical_ofAtoms (h : DifferentAtoms vs) (hne : vs ≠ []) (hc : ∀ v ∈ vs, v.Canonical) :
    (ofAtoms vs).Canonical := by
  unfold ofAtoms
  split
  · exact hc _ (List.mem_singleton_self _)
  · rename_i hsingle
    have hperm : (Ascending.ofList vs).Perm vs := Ascending.perm_ofList h.nodup
    have htwo : 2 ≤ vs.length := by
      match vs, hne, hsingle with
      | [v], _, hsingle => exact absurd rfl (hsingle v)
      | v :: w :: rest, _, _ => simp
    have hdiff : DifferentAtoms (Ascending.ofList vs) := h.perm hperm
    refine ⟨hperm.length_eq ▸ htwo, Ascending.ofList_ascending vs, hdiff.keys_nodup, hdiff.isAtom,
      canonicalAll_iff.2 fun v hv => hc v (hperm.mem_iff.1 hv)⟩

/-- Coherent atoms make a coherent value by `ofAtoms`. -/
theorem coherent_ofAtoms (h : ∀ v ∈ vs, v.Coherent kinds) : (ofAtoms vs).Coherent kinds := by
  unfold ofAtoms
  split
  · exact h _ (List.mem_singleton_self _)
  · exact coherentAll_iff.2 fun v hv => h v (Ascending.mem_ofList.1 hv)

end ofAtoms

end Value

end ClosedWorld
