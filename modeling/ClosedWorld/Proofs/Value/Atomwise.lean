import ClosedWorld.Proofs.Value.Information
import Mathlib.Data.List.Induction

/-!
# Values atom by atom

Most of what is done with a value is done to each of its atoms: an atom is tagged, selected or taken
out of its box, and what comes out of all atoms is joined. A join of two values may have atoms that
neither of them has, so it is not obvious that something of this kind can be done before a join as
well as after it. It can be if it is right for two atoms that are merged, and if an undefined value
does not make a difference where there is anything else.

## Main definitions

* `Value.gather`: the join of what comes out of the atoms of a value.
* `Value.Distributive`: the condition on single atoms.

## Main statements

* `Value.joinAll_eq_of_mem_iff`: a join of several values depends on which values they are only.
* `Value.exists_atom_of_below`: what becomes of an atom in a larger value.
* `Value.exists_mem_atoms_join`, `Value.forall_mem_atoms_join`: predicates on the atoms of a join.
* `Value.Distributive.gather_join`, `Value.Distributive.gather_below`: what is done atom by atom
  distributes over joins, and is monotone.
-/

namespace ClosedWorld

namespace Value

variable {kinds : ClazzId → NumericKind} {v w x y z : Value} {vs ws : List Value}

/-! ### Joins of several values -/

/-- The join `joinAll` goes from left to right, so the last value is joined last. Inductions run
over the list in reverse, along this. -/
theorem joinAll_append_singleton (vs : List Value) (v : Value) :
    joinAll (vs ++ [v]) = (joinAll vs).join v := by
  unfold joinAll
  rw [List.foldl_append]
  rfl

/-- A property that joins keep and that `noValue` has is kept by `joinAll`. -/
theorem JoinClosed.joinAll {P : Value → Prop} (hP : JoinClosed P) (nothing : P noValue)
    (hvs : ∀ v ∈ vs, P v) : P (joinAll vs) := by
  induction vs using List.reverseRecOn with
  | nil => exact nothing
  | append_singleton vs v ih =>
    rw [joinAll_append_singleton]
    rw [List.forall_mem_append, List.forall_mem_singleton] at hvs
    exact hP.join (ih hvs.1) hvs.2

/-- The join of canonical values is canonical. -/
theorem canonical_joinAll (hvs : ∀ v ∈ vs, v.Canonical) : (joinAll vs).Canonical :=
  joinClosed_canonical.joinAll trivial hvs

/-- The join of regular values is regular. -/
theorem regular_joinAll (hvs : ∀ v ∈ vs, v.Regular kinds) : (joinAll vs).Regular kinds :=
  (joinClosed_regular kinds).joinAll ⟨trivial, trivial⟩ hvs

/-- Each of the values that are joined is below `joinAll` of them. -/
theorem below_joinAll (hvs : ∀ v ∈ vs, v.Regular kinds) (hv : v ∈ vs) : v.Below (joinAll vs) := by
  induction vs using List.reverseRecOn with
  | nil => cases hv
  | append_singleton vs w ih =>
    rw [joinAll_append_singleton]
    rw [List.forall_mem_append, List.forall_mem_singleton] at hvs
    obtain ⟨hvs, hw⟩ := hvs
    have before := regular_joinAll hvs
    rcases List.mem_append.1 hv with hv | hv
    · exact below_trans (hvs v hv) before (regular_join before hw) (ih hvs hv)
        (below_join before hw)
    · cases List.mem_singleton.1 hv
      exact below_join_right before hw

/-- The value `joinAll vs` is below everything that all of `vs` are below, so it is their least
upper bound. -/
theorem joinAll_below (hvs : ∀ v ∈ vs, v.Regular kinds) (hw : w.Regular kinds)
    (below : ∀ v ∈ vs, v.Below w) : (joinAll vs).Below w := by
  induction vs using List.reverseRecOn with
  | nil => exact below_iff.2 (noValue_join w)
  | append_singleton vs v ih =>
    rw [joinAll_append_singleton]
    rw [List.forall_mem_append, List.forall_mem_singleton] at hvs below
    exact join_below (regular_joinAll hvs.1) hvs.2 hw (ih hvs.1 below.1) below.2

/-- A join of regular values is determined by which values are joined, not by their order or by how
often they occur. -/
theorem joinAll_eq_of_mem_iff (hvs : ∀ v ∈ vs, v.Regular kinds) (same : ∀ v, v ∈ vs ↔ v ∈ ws) :
    joinAll vs = joinAll ws := by
  have hws : ∀ v ∈ ws, v.Regular kinds := fun v hv => hvs v ((same v).2 hv)
  have left := regular_joinAll hvs
  have right := regular_joinAll hws
  apply below_antisymm left right
  · exact joinAll_below hvs right fun v hv => below_joinAll hws ((same v).1 hv)
  · exact joinAll_below hws left fun v hv => below_joinAll hvs ((same v).2 hv)

/-- The join of no values is `noValue`. -/
@[simp] theorem joinAll_nil : joinAll [] = noValue := rfl

/-- The join of one value is that value. -/
@[simp] theorem joinAll_singleton (v : Value) : joinAll [v] = v := noValue_join v

/-- The join of two values in a list is their `join`. -/
@[simp] theorem joinAll_pair (v w : Value) : joinAll [v, w] = v.join w :=
  congrArg (join · w) (noValue_join v)

/-- The join of canonical values in two lists is the join of the joins of both. -/
theorem joinAll_append (hvs : ∀ v ∈ vs, v.Canonical) (hws : ∀ w ∈ ws, w.Canonical) :
    joinAll (vs ++ ws) = (joinAll vs).join (joinAll ws) := by
  have left := canonical_joinAll hvs
  induction ws using List.reverseRecOn with
  | nil => rw [List.append_nil, joinAll_nil, join_noValue]
  | append_singleton ws w ih =>
    rw [List.forall_mem_append, List.forall_mem_singleton] at hws
    rw [← List.append_assoc, joinAll_append_singleton, joinAll_append_singleton, ih hws.1]
    exact left.join_assoc (canonical_joinAll hws.1) hws.2

/-- Different atoms are joined to the value that has them as its atoms, `ofAtoms`. -/
theorem joinAll_eq_ofAtoms (different : DifferentAtoms vs) (some_atom : vs ≠ [])
    (hvs : ∀ v ∈ vs, v.Canonical) : joinAll vs = ofAtoms vs := by
  induction vs using List.reverseRecOn with
  | nil => exact absurd rfl some_atom
  | append_singleton vs v ih =>
    rw [joinAll_append_singleton]
    by_cases first : vs = []
    · rw [first, joinAll_nil, noValue_join, List.nil_append, ofAtoms]
    have before : DifferentAtoms vs :=
      ⟨(List.map_append ▸ different.keys_nodup).of_append_left,
        fun w hw => different.isAtom w (List.mem_append_left _ hw)⟩
    have hv : v.isAtom := different.isAtom v (by simp)
    rw [List.forall_mem_append, List.forall_mem_singleton] at hvs
    rw [ih before first hvs.1]
    have hc := canonical_ofAtoms before first hvs.1
    have present := isAbsent_ofAtoms before
    apply eq_of_atomOf?_eq (canonical_join hc hvs.2)
      (canonical_ofAtoms different some_atom (by simpa [or_imp, forall_and] using hvs))
      (isAbsent_join present (isAbsent_of_isAtom hv)) (isAbsent_ofAtoms different)
    intro k
    rw [atomOf?_join hc hvs.2 present (isAbsent_of_isAtom hv), atomOf?_atoms_ofAtoms before,
      atomOf?_atoms_ofAtoms different, atoms_of_isAtom hv]
    unfold atomOf?
    rw [List.find?_append]
    cases found : vs.find? fun w => w.mergeKey? = some k with
    | none => simp
    | some w =>
      have hw := mem_of_atomOf?_eq found
      -- the keys are different, so the last atom has another one
      have other : v.mergeKey? ≠ some k := by
        intro hk
        have nodup := different.keys_nodup
        rw [List.map_append, List.nodup_append] at nodup
        exact nodup.2.2 _ (List.mem_map_of_mem hw.1) _ (by simp) (hw.2.trans hk.symm)
      simp [other]

/-- A canonical value is the join of its atoms. -/
theorem Canonical.joinAll_atoms (hv : v.Canonical) : joinAll v.atoms = v := by
  by_cases hv' : v.isAbsent = false
  · have different := hv.differentAtoms hv'
    have atoms : ∀ a ∈ v.atoms, a.Canonical := fun a ha => hv.of_mem_atoms ha
    rw [joinAll_eq_ofAtoms different hv.atoms_ne_nil atoms]
    apply eq_of_atomOf?_eq (canonical_ofAtoms different hv.atoms_ne_nil atoms) hv
      (isAbsent_ofAtoms different) hv'
    exact atomOf?_atoms_ofAtoms different
  · obtain rfl | rfl := isAbsent_iff.1 (Bool.not_eq_false _ ▸ hv')
    all_goals exact joinAll_singleton _

/-! ### Atoms of atoms -/

/-- Each of the `atoms` of a canonical value has only itself as an atom. -/
theorem Canonical.atoms_of_mem_atoms (hv : v.Canonical) (hx : x ∈ v.atoms) : x.atoms = [x] := by
  cases v with
  | set members => exact atoms_of_isAtom (hv.2.2.2.1 x hx)
  | _ => exact List.mem_singleton.1 hx ▸ rfl

/-- An absent value is not one of several atoms, so where it is an atom it is the whole value. -/
theorem Canonical.eq_of_mem_atoms_of_isAbsent (hv : v.Canonical) (hx : x ∈ v.atoms)
    (absent : x.isAbsent) : x = v := by
  cases v with
  | set members =>
    rw [isAbsent_of_isAtom (hv.2.2.2.1 x hx)] at absent
    cases absent
  | _ => exact List.mem_singleton.1 hx

/-- Each of the `atoms` of a canonical value that is not absent is an atom by itself, not a set. -/
theorem Canonical.isAtom_of_mem_atoms (hv : v.Canonical) (hx : x ∈ v.atoms)
    (present : x.isAbsent = false) : x.isAtom = true := by
  cases v with
  | set members => exact hv.2.2.2.1 x hx
  | noValue | undefined =>
    cases List.mem_singleton.1 hx
    cases present
  | _ => exact List.mem_singleton.1 hx ▸ rfl

/-! ### Atoms that are merged -/

/-- A join of two atoms with one merge key is what `mergeAtoms` makes of them. -/
theorem join_eq_mergeAtoms {k : MergeKey} (hy : y.mergeKey? = some k) (hz : z.mergeKey? = some k) :
    y.join z = mergeAtoms join y z := by
  by_cases same : y = z
  · rw [same, join_self, mergeAtoms_self]
  have yAtom : y.isAtom := isAtom_iff.2 (hy ▸ rfl)
  have zAtom : z.isAtom := isAtom_iff.2 (hz ▸ rfl)
  rw [join_eq_ofAtoms (isAbsent_of_isAtom yAtom) (isAbsent_of_isAtom zAtom) same,
    atoms_of_isAtom yAtom, atoms_of_isAtom zAtom]
  simp [mergeAll, absorb, ofAtoms, hy, hz]

/-- Two boxes of the same two clazzes are joined to one box, with the join of what is in them. -/
theorem boxed_join_boxed (v w : Value) (valueClazz refClazz : ClazzId) :
    (boxed v valueClazz refClazz).join (boxed w valueClazz refClazz) =
      boxed (v.join w) valueClazz refClazz :=
  join_eq_mergeAtoms rfl rfl

/-- Two values with the same tag are joined to one value with this tag, and the join of what was
tagged. -/
theorem tagged_join_tagged (v w : Value) (choice : ClazzId) (tag : Nat) :
    (tagged v choice tag).join (tagged w choice tag) = tagged (v.join w) choice tag :=
  join_eq_mergeAtoms rfl rfl

/-- Two atoms and the one that they are merged into have the same merge key. -/
theorem MergedFrom.mergeKey?_eq (merged : MergedFrom y z x) :
    y.mergeKey? = x.mergeKey? ∧ z.mergeKey? = x.mergeKey? := by
  cases merged <;> exact ⟨rfl, rfl⟩

/-- Values that are the same are not merged: `MergedFrom` asks for a difference. -/
theorem MergedFrom.ne (merged : MergedFrom y z x) : y ≠ z := by
  rintro rfl
  cases merged <;> contradiction

/-- What two atoms are merged into is their join. -/
theorem MergedFrom.join_eq (merged : MergedFrom y z x) : y.join z = x := by
  cases merged with
  | bool differ => rw [join_eq_mergeAtoms rfl rfl]; simp [mergeAtoms, differ]
  | number differ => rw [join_eq_mergeAtoms rfl rfl]; simp [mergeAtoms, differ, Number.any]
  | boxed => exact boxed_join_boxed ..
  | tagged => exact tagged_join_tagged ..

/-- In a larger value an atom is still there, or was merged into another one. Then merging it into
that one again changes nothing more. -/
theorem exists_atom_of_below (hv : v.Regular kinds) (hw : w.Regular kinds) (below : v.Below w)
    (hv' : v.isAbsent = false) (hy : y ∈ v.atoms) :
    ∃ x ∈ w.atoms, x = y ∨ MergedFrom y x x := by
  obtain ⟨k, hyk⟩ := Option.isSome_iff_exists.1
    (isAtom_iff.1 ((hv.canonical.differentAtoms hv').isAtom y hy))
  obtain ⟨x, hx, hxk, merged⟩ :=
    exists_mergeAtoms_eq_of_join_eq hv.canonical hw.canonical (below_iff.1 below) hy hyk
  have cases_eq := mergeAtoms_eq_or_mergedFrom (mergeable_of_mergeKey?_eq hyk hxk)
    (hv.of_mem_atoms hy).coherent (hw.of_mem_atoms hx).coherent
  rw [merged] at cases_eq
  exact ⟨x, hx, cases_eq⟩

/-- In a larger value a tag is still there, with no less inside: tags are found again by `choice`
and `tag`. -/
theorem exists_tagged_of_below {choice : ClazzId} {tag : Nat} (hv : v.Canonical)
    (hw : w.Canonical) (below : v.Below w) (hx : tagged x choice tag ∈ v.atoms) :
    ∃ y, tagged y choice tag ∈ w.atoms ∧ x.Below y := by
  obtain ⟨b, hb, key, merged⟩ :=
    exists_mergeAtoms_eq_of_join_eq hv hw (below_iff.1 below) hx rfl
  cases b with
  | tagged y choice' tag' =>
    obtain ⟨rfl, rfl⟩ := MergeKey.tagged.inj (Option.some.inj key)
    exact ⟨y, hb, below_iff.2 (tagged.inj merged).1⟩
  | _ => cases key

/-! ### Predicates on atoms -/

section predicates

variable {P : Value → Prop}

/-- A property that merged atoms have if both atoms have it goes over from all atoms of the values
`vs` to all atoms of `joinAll vs`. -/
theorem forall_mem_atoms_joinAll (merged : ∀ {y z x}, MergedFrom y z x → P y → P z → P x)
    (hvs : ∀ v ∈ vs, v.Regular kinds) (some_value : vs ≠ [])
    (all : ∀ v ∈ vs, ∀ x ∈ v.atoms, P x) : ∀ x ∈ (joinAll vs).atoms, P x := by
  induction vs using List.reverseRecOn with
  | nil => exact absurd rfl some_value
  | append_singleton vs v ih =>
    rw [joinAll_append_singleton]
    rw [List.forall_mem_append, List.forall_mem_singleton] at hvs all
    by_cases first : vs = []
    · rw [first, joinAll_nil, noValue_join]
      exact all.2
    intro x hx
    rcases mem_atoms_join (regular_joinAll hvs.1) hvs.2 hx with hx | hx | ⟨y, hy, z, hz, into⟩
    · exact ih hvs.1 first all.1 x hx
    · exact all.2 x hx
    · exact merged into (ih hvs.1 first all.1 y hy) (all.2 z hz)

/-- An atom with the property `P` leaves one in every larger value, if merged atoms have `P` as soon
as one of the two has it. -/
theorem exists_mem_atoms_of_below (absent : ∀ a, a.isAbsent → ¬ P a)
    (merged : ∀ {y z x}, MergedFrom y z x → (P x ↔ P y ∨ P z)) (hv : v.Regular kinds)
    (hw : w.Regular kinds) (below : v.Below w) (some_atom : ∃ y ∈ v.atoms, P y) :
    ∃ x ∈ w.atoms, P x := by
  obtain ⟨y, hy, holds⟩ := some_atom
  have hv' : v.isAbsent = false := by
    by_contra h
    obtain rfl | rfl := isAbsent_iff.1 (Bool.not_eq_false _ ▸ h)
    all_goals exact absent y (List.mem_singleton.1 hy ▸ rfl) holds
  obtain ⟨x, hx, rfl | into⟩ := exists_atom_of_below hv hw below hv' hy
  · exact ⟨x, hx, holds⟩
  · exact ⟨x, hx, (merged into).2 (.inl holds)⟩

/-- A join has an atom with the property `P` if one of the two values has, for properties that
merged atoms have if one of the two atoms has. -/
theorem exists_mem_atoms_join (absent : ∀ a, a.isAbsent → ¬ P a)
    (merged : ∀ {y z x}, MergedFrom y z x → (P x ↔ P y ∨ P z)) (hv : v.Regular kinds)
    (hw : w.Regular kinds) :
    (∃ x ∈ (v.join w).atoms, P x) ↔ (∃ y ∈ v.atoms, P y) ∨ ∃ z ∈ w.atoms, P z := by
  have joined := regular_join hv hw
  constructor
  · rintro ⟨x, hx, holds⟩
    rcases mem_atoms_join hv hw hx with hx | hx | ⟨y, hy, z, hz, into⟩
    · exact .inl ⟨x, hx, holds⟩
    · exact .inr ⟨x, hx, holds⟩
    · exact ((merged into).1 holds).imp (fun h => ⟨y, hy, h⟩) fun h => ⟨z, hz, h⟩
  · rintro (left | right)
    · exact exists_mem_atoms_of_below absent merged hv joined (below_join hv hw) left
    · exact exists_mem_atoms_of_below absent merged hw joined (below_join_right hv hw) right

/-- All atoms of a join have the property `P` if those of the two values have, for properties that
merged atoms have if both atoms have. -/
theorem forall_mem_atoms_join (absent : ∀ a, a.isAbsent → P a)
    (merged : ∀ {y z x}, MergedFrom y z x → (P x ↔ P y ∧ P z)) (hv : v.Regular kinds)
    (hw : w.Regular kinds) :
    (∀ x ∈ (v.join w).atoms, P x) ↔ (∀ y ∈ v.atoms, P y) ∧ ∀ z ∈ w.atoms, P z := by
  have counterexamples := exists_mem_atoms_join (P := fun a => ¬ P a)
    (fun a h => not_not_intro (absent a h))
    (fun into => by rw [merged into, not_and_or]) hv hw
  have := not_congr counterexamples
  push Not at this
  exact this

end predicates

/-! ### Gathering -/

/-- The join of what comes out of the atoms of a value. -/
def gather (f : Value → List Value) (v : Value) : Value := joinAll (v.atoms.flatMap f)

/-- What the function makes of merged atoms is what it makes of the two atoms, and what it makes of
an absent value adds nothing. -/
structure Distributive (kinds : ClazzId → NumericKind) (f : Value → List Value) : Prop where
  regular : ∀ {a}, a.Regular kinds → ∀ b ∈ f a, b.Regular kinds
  noValue : joinAll (f noValue) = noValue
  undefined : ∀ {a}, a.Regular kinds → a ≠ .noValue → (joinAll (f undefined)).Below (joinAll (f a))
  merged : ∀ {y z x}, y.Regular kinds → z.Regular kinds → MergedFrom y z x →
    joinAll (f x) = joinAll (f y ++ f z)

namespace Distributive

variable {f : Value → List Value} (hf : Distributive kinds f)

include hf

/-- What a `Distributive` function makes of the atoms of a regular value is regular. -/
theorem regular_flatMap (hv : v.Regular kinds) : ∀ b ∈ v.atoms.flatMap f, b.Regular kinds := by
  intro b hb
  obtain ⟨a, ha, hb⟩ := List.mem_flatMap.1 hb
  exact hf.regular (hv.of_mem_atoms ha) b hb

/-- What a `Distributive` function gathers from a regular value is regular. -/
theorem regular_gather (hv : v.Regular kinds) : (gather f v).Regular kinds :=
  regular_joinAll (hf.regular_flatMap hv)

/-- What comes out of one atom is below what is gathered from all. -/
theorem joinAll_below_gather (hv : v.Regular kinds) (hx : x ∈ v.atoms) :
    (joinAll (f x)).Below (gather f v) :=
  joinAll_below (hf.regular (hv.of_mem_atoms hx)) (hf.regular_gather hv) fun _ hb =>
    below_joinAll (hf.regular_flatMap hv) (List.mem_flatMap.2 ⟨x, hx, hb⟩)

/-- What is gathered from a value is below everything that what comes out of each of its atoms is
below. -/
theorem gather_below_of_atoms (hv : v.Regular kinds) (hw : w.Regular kinds)
    (below : ∀ x ∈ v.atoms, (joinAll (f x)).Below w) : (gather f v).Below w := by
  refine joinAll_below (hf.regular_flatMap hv) hw fun b hb => ?_
  obtain ⟨a, ha, hb⟩ := List.mem_flatMap.1 hb
  have regular := hf.regular (hv.of_mem_atoms ha)
  exact below_trans (regular b hb) (regular_joinAll regular) hw (below_joinAll regular hb)
    (below a ha)

/-- What a `Distributive` function does atom by atom is monotone in the value. -/
theorem gather_below (hv : v.Regular kinds) (hw : w.Regular kinds) (below : v.Below w) :
    (gather f v).Below (gather f w) := by
  have right := hf.regular_gather hw
  refine hf.gather_below_of_atoms hv right fun y hy => ?_
  by_cases hv' : v.isAbsent = false
  · obtain ⟨x, hx, he⟩ := exists_atom_of_below hv hw below hv' hy
    have within := hf.joinAll_below_gather hw hx
    rcases he with rfl | into
    · exact within
    have hfy := hf.regular (hv.of_mem_atoms hy)
    have hfx := hf.regular (hw.of_mem_atoms hx)
    have grown : (joinAll (f y)).Below (joinAll (f x)) := by
      rw [hf.merged (hv.of_mem_atoms hy) (hw.of_mem_atoms hx) into,
        joinAll_append (fun b hb => (hfy b hb).canonical) fun b hb => (hfx b hb).canonical]
      exact below_join (regular_joinAll hfy) (regular_joinAll hfx)
    exact below_trans (regular_joinAll hfy) (regular_joinAll hfx) right grown within
  · obtain rfl | rfl := isAbsent_iff.1 (Bool.not_eq_false _ ▸ hv')
    · rw [List.mem_singleton.1 hy, hf.noValue]
      exact noValue_below _
    · -- some atom of the larger value stands for the undefined one
      obtain ⟨x, hx⟩ := List.exists_mem_of_ne_nil _ hw.canonical.atoms_ne_nil
      have hx' : x ≠ .noValue := by
        rintro rfl
        exact undefined_below_iff.1 below
          (hw.canonical.eq_of_mem_atoms_of_isAbsent hx rfl).symm
      have hfx := hw.of_mem_atoms hx
      rw [List.mem_singleton.1 hy]
      exact below_trans (regular_joinAll (hf.regular ⟨trivial, trivial⟩))
        (regular_joinAll (hf.regular hfx)) right (hf.undefined hfx hx')
        (hf.joinAll_below_gather hw hx)

/-- What a `Distributive` function does atom by atom can be done before a join as well as after it.
-/
theorem gather_join (hv : v.Regular kinds) (hw : w.Regular kinds) :
    gather f (v.join w) = (gather f v).join (gather f w) := by
  have joined := regular_join hv hw
  have left := hf.regular_gather hv
  have right := hf.regular_gather hw
  have both := regular_join left right
  have left_below := below_join left right
  have right_below := below_join_right left right
  apply below_antisymm (hf.regular_gather joined) both
  -- An atom of the join is one of either side or merged from both, and merged atoms are taken apart
  -- by the law of `f`.
  · refine hf.gather_below_of_atoms joined both fun x hx => ?_
    have part {u a : Value} (hu : u.Regular kinds) (ha : a ∈ u.atoms)
        (h : (gather f u).Below ((gather f v).join (gather f w))) :
        (joinAll (f a)).Below ((gather f v).join (gather f w)) :=
      below_trans (regular_joinAll (hf.regular (hu.of_mem_atoms ha))) (hf.regular_gather hu) both
        (hf.joinAll_below_gather hu ha) h
    rcases mem_atoms_join hv hw hx with hx | hx | ⟨y, hy, z, hz, into⟩
    · exact part hv hx left_below
    · exact part hw hx right_below
    · have hfy := hf.regular (hv.of_mem_atoms hy)
      have hfz := hf.regular (hw.of_mem_atoms hz)
      rw [hf.merged (hv.of_mem_atoms hy) (hw.of_mem_atoms hz) into,
        joinAll_append (fun b hb => (hfy b hb).canonical) fun b hb => (hfz b hb).canonical]
      exact join_below (regular_joinAll hfy) (regular_joinAll hfz) both (part hv hy left_below)
        (part hw hz right_below)
  · exact join_below left right (hf.regular_gather joined)
      (hf.gather_below hv joined (below_join hv hw))
      (hf.gather_below hw joined (below_join_right hv hw))

end Distributive

end Value

end ClosedWorld
