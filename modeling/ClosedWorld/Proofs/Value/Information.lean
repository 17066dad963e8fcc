import ClosedWorld.Proofs.Value.Semilattice

/-!
# The order of information

One value is below another one if joining it adds nothing. The order is defined through the join
and an equality of values, so nothing about it can be seen by looking at the two values. Here it is
told in terms of their atoms: each atom of the smaller value has to be covered by the atom of the
larger one that has its merge key. What is boxed or tagged is covered in turn if it is below.

From the laws of the join it follows that the order is a partial order on regular values, and that
the join of two values is their least upper bound. What a join has beyond the atoms of its
arguments was merged from one atom of each of them.

## Main definitions

* `Value.Below`: the order.
* `Value.CoveredBy`: an atom leaves open everything that another one with its merge key leaves open.
* `Value.MergedFrom`: the atom that two atoms are merged into.

## Main statements

* `Value.below_antisymm`, `Value.below_trans`, `Value.below_join`, `Value.join_below`: the laws.
* `Value.below_iff_coveredBy`: the order in terms of atoms.
* `Value.mem_atoms_join`: the atoms of a join.
* `Value.information_order`: all of it.
-/

namespace ClosedWorld

namespace Value

variable {kinds : ClazzId → NumericKind} {u v w x y : Value}

/-! ### The laws of the order -/

/-- Everything that the first value describes is described by the second one. -/
def Below (v w : Value) : Prop := v.isBelow w = true

/-- The order `Below`, in terms of the join: joining the smaller value adds nothing. -/
theorem below_iff : v.Below w ↔ v.join w = w := by
  unfold Below isBelow
  exact decide_eq_true_iff

/-- The order is reflexive on all values. -/
theorem below_refl (v : Value) : v.Below v := below_iff.2 (join_self v)

/-- The order is transitive on canonical values, whatever kinds their numbers have. -/
theorem Canonical.below_trans (hu : u.Canonical) (hv : v.Canonical) (hw : w.Canonical)
    (huv : u.Below v) (hvw : v.Below w) : u.Below w := by
  rw [below_iff] at huv hvw ⊢
  calc u.join w = u.join (v.join w) := by rw [hvw]
    _ = (u.join v).join w := (hu.join_assoc hv hw).symm
    _ = w := by rw [huv, hvw]

/-- The order is transitive on regular values. -/
theorem below_trans (hu : u.Regular kinds) (hv : v.Regular kinds) (hw : w.Regular kinds)
    (huv : u.Below v) (hvw : v.Below w) : u.Below w :=
  hu.canonical.below_trans hv.canonical hw.canonical huv hvw

/-- The order is antisymmetric on regular values, for which the join is commutative. -/
theorem below_antisymm (hv : v.Regular kinds) (hw : w.Regular kinds) (hvw : v.Below w)
    (hwv : w.Below v) : v = w := by
  rw [below_iff] at hvw hwv
  calc v = w.join v := hwv.symm
    _ = v.join w := join_comm hw hv
    _ = w := hvw

/-- A regular value is below its join with another one. -/
theorem below_join (hv : v.Regular kinds) (hw : w.Regular kinds) : v.Below (v.join w) := by
  rw [below_iff]
  calc v.join (v.join w) = (v.join v).join w := (join_assoc hv hv hw).symm
    _ = v.join w := by rw [join_self]

/-- A regular value is below the join of another one with it. -/
theorem below_join_right (hv : v.Regular kinds) (hw : w.Regular kinds) : w.Below (v.join w) := by
  rw [join_comm hv hw]
  exact below_join hw hv

/-- The join of canonical values is below every canonical value that both are below. Their numbers
may be of any kinds. -/
theorem Canonical.join_below (hu : u.Canonical) (hv : v.Canonical) (hw : w.Canonical)
    (huw : u.Below w) (hvw : v.Below w) : (u.join v).Below w := by
  rw [below_iff] at huw hvw ⊢
  calc (u.join v).join w = u.join (v.join w) := hu.join_assoc hv hw
    _ = w := by rw [hvw, huw]

/-- The join of regular values is below every regular value that both are below. -/
theorem join_below (hu : u.Regular kinds) (hv : v.Regular kinds) (hw : w.Regular kinds)
    (huw : u.Below w) (hvw : v.Below w) : (u.join v).Below w :=
  hu.canonical.join_below hv.canonical hw.canonical huw hvw

/-! ### Absent values in the order -/

/-- The value `noValue` is below every other one. -/
theorem noValue_below (v : Value) : noValue.Below v := below_iff.2 (noValue_join v)

/-- Only `noValue` is below `noValue`. -/
theorem below_noValue_iff : v.Below noValue ↔ v = noValue := by
  rw [below_iff, join_noValue]

/-- The value `undefined` is below everything but `noValue`. -/
theorem undefined_below_iff : undefined.Below v ↔ v ≠ noValue := by
  rw [below_iff]
  constructor
  · rintro same rfl
    cases same
  · exact undefined_join

/-- Only the absent values are below `undefined`. -/
theorem below_undefined_iff : v.Below undefined ↔ v = noValue ∨ v = undefined := by
  rw [below_iff]
  by_cases hv : v = noValue
  · simp [hv]
  · simp [join_undefined hv, hv]

/-! ### Covered atoms -/

/-- What is left open by the first atom is left open by the second one, which has the same merge
key: any boolean and a number without bits leave everything open, and boxes and tags are told by
what they wrap. -/
def CoveredBy : Value → Value → Prop
  | bool x, bool y => x = y ∨ y = .any
  | number m, number n => m.bits = n.bits ∨ n.bits = none
  | boxed v _ _, boxed w _ _ => v.Below w
  | tagged v _ _, tagged w _ _ => v.Below w
  | v, w => v = w

/-- An atom is `CoveredBy` another one with its merge key exactly if merging it adds nothing. -/
theorem mergeAtoms_eq_right_iff (hm : Mergeable x y) (hx : x.Coherent kinds)
    (hy : y.Coherent kinds) : mergeAtoms join x y = y ↔ x.CoveredBy y := by
  cases hm with
  | unit => simp [mergeAtoms, CoveredBy]
  | bool s t => cases s <;> cases t <;> simp [mergeAtoms, CoveredBy]
  | number c kind kind' s t =>
    obtain rfl : kind = kind' := Eq.trans hx (Eq.symm hy)
    rw [mergeAtoms_number]
    by_cases h : s = t
    · simp [h, CoveredBy]
    · simp [h, CoveredBy, eq_comm]
  | object i => simp [mergeAtoms, CoveredBy]
  | boxed s t vc rc => simp [mergeAtoms, CoveredBy, below_iff]
  | tagged s t c tag => simp [mergeAtoms, CoveredBy, below_iff]
  | array i => simp [mergeAtoms, CoveredBy]

/-- Of regular values that are there, one is `Below` another one exactly if each of its atoms is
covered by the atom with the same merge key. -/
theorem below_iff_forall_atoms (hv : v.Regular kinds) (hw : w.Regular kinds)
    (hv' : v.isAbsent = false) (hw' : w.isAbsent = false) :
    v.Below w ↔ ∀ x ∈ v.atoms, ∃ y ∈ w.atoms, y.mergeKey? = x.mergeKey? ∧ x.CoveredBy y := by
  have differentV := hv.canonical.differentAtoms hv'
  have differentW := hw.canonical.differentAtoms hw'
  have covered {x y : Value} {k : MergeKey} (hx : x ∈ v.atoms) (hy : y ∈ w.atoms)
      (hxk : x.mergeKey? = some k) (hyk : y.mergeKey? = some k) :
      mergeAtoms join x y = y ↔ x.CoveredBy y :=
    mergeAtoms_eq_right_iff (mergeable_of_mergeKey?_eq hxk hyk) (hv.of_mem_atoms hx).coherent
      (hw.of_mem_atoms hy).coherent
  constructor
  · intro below x hx
    obtain ⟨k, hk⟩ := Option.isSome_iff_exists.1 (isAtom_iff.1 (differentV.isAtom x hx))
    obtain ⟨y, hy, hyk, merged⟩ :=
      exists_mergeAtoms_eq_of_join_eq hv.canonical hw.canonical (below_iff.1 below) hx hk
    exact ⟨y, hy, hyk.trans hk.symm, (covered hx hy hk hyk).1 merged⟩
  · intro each
    -- the join and the larger value hold the same under each key
    refine below_iff.2 (eq_of_atomOf?_eq (canonical_join hv.canonical hw.canonical) hw.canonical
      (isAbsent_join hv' hw') hw' fun k => ?_)
    rw [atomOf?_join hv.canonical hw.canonical hv' hw']
    cases held : atomOf? k v.atoms with
    | none => exact Option.merge_none_left
    | some x =>
      obtain ⟨hx, hk⟩ := mem_of_atomOf?_eq held
      obtain ⟨y, hy, hyk, cover⟩ := each x hx
      rw [hk] at hyk
      rw [differentW.atomOf?_eq_some_iff.2 ⟨hy, hyk⟩, Option.merge_some_some,
        (covered hx hy hk hyk).2 cover]

/-- The order of regular values in terms of atoms, absent values included. -/
theorem below_iff_coveredBy (hv : v.Regular kinds) (hw : w.Regular kinds) :
    v.Below w ↔
      v = noValue ∨ (v = undefined ∧ w ≠ noValue) ∨
        (v.isAbsent = false ∧ w.isAbsent = false ∧
          ∀ x ∈ v.atoms, ∃ y ∈ w.atoms, y.mergeKey? = x.mergeKey? ∧ x.CoveredBy y) := by
  by_cases hv' : v.isAbsent
  · obtain rfl | rfl := isAbsent_iff.1 hv'
    · simp [noValue_below]
    · simp [undefined_below_iff, isAbsent]
  by_cases hw' : w.isAbsent
  · have hvn : v ≠ noValue ∧ v ≠ undefined := by simpa [isAbsent_iff] using hv'
    obtain rfl | rfl := isAbsent_iff.1 hw'
    · simp [below_noValue_iff, hvn, isAbsent]
    · simp [below_undefined_iff, hvn, isAbsent]
  simp only [Bool.not_eq_true] at hv' hw'
  have hvn : v ≠ noValue ∧ v ≠ undefined := by
    constructor <;> rintro rfl <;> cases hv'
  simp [below_iff_forall_atoms hv hw hv' hw', hv', hw', hvn]

/-! ### What a join adds -/

/-- The last atom is what the first two, which have one merge key and are not the same, are merged
into. Booleans and numbers are widened; boxes and tags are kept, with joined contents. -/
inductive MergedFrom : Value → Value → Value → Prop where
  | bool {s t : Truth} : s ≠ t → MergedFrom (bool s) (bool t) (bool .any)
  | number {clazz : ClazzId} {kind : NumericKind} {s t : Option UInt64} : s ≠ t →
    MergedFrom (number ⟨clazz, kind, s⟩) (number ⟨clazz, kind, t⟩) (number (.any clazz kind))
  | boxed {s t : Value} {valueClazz refClazz : ClazzId} : s ≠ t →
    MergedFrom (boxed s valueClazz refClazz) (boxed t valueClazz refClazz)
      (boxed (s.join t) valueClazz refClazz)
  | tagged {s t : Value} {choice : ClazzId} {tag : Nat} : s ≠ t →
    MergedFrom (tagged s choice tag) (tagged t choice tag) (tagged (s.join t) choice tag)

/-- What two atoms with one merge key are merged into is the first of them, if they are the same, or
is `MergedFrom` both. -/
theorem mergeAtoms_eq_or_mergedFrom (hm : Mergeable x y) (hx : x.Coherent kinds)
    (hy : y.Coherent kinds) :
    mergeAtoms join x y = x ∨ MergedFrom x y (mergeAtoms join x y) := by
  by_cases same : x = y
  · exact .inl (by rw [same, mergeAtoms_self])
  cases hm with
  | unit => exact .inl rfl
  | bool s t =>
    have differ : s ≠ t := fun h => same (by rw [h])
    simp only [mergeAtoms, if_neg differ]
    exact .inr (.bool differ)
  | number c kind kind' s t =>
    obtain rfl : kind = kind' := Eq.trans hx (Eq.symm hy)
    have differ : s ≠ t := fun h => same (by rw [h])
    rw [mergeAtoms_number, if_neg differ]
    exact .inr (.number differ)
  | object i => exact .inl rfl
  | boxed s t vc rc => exact .inr (.boxed fun h => same (by rw [h]))
  | tagged s t c tag => exact .inr (.tagged fun h => same (by rw [h]))
  | array i => exact .inl rfl

/-- An atom of a join of regular values is an atom of one side, or was `MergedFrom` one atom of
each. -/
theorem mem_atoms_join (hv : v.Regular kinds) (hw : w.Regular kinds)
    (hx : x ∈ (v.join w).atoms) :
    x ∈ v.atoms ∨ x ∈ w.atoms ∨ ∃ y ∈ v.atoms, ∃ z ∈ w.atoms, MergedFrom y z x := by
  by_cases absent : v.isAbsent ∨ w.isAbsent
  · rcases join_eq_or_eq absent with he | he
    · exact .inl (he ▸ hx)
    · exact .inr (.inl (he ▸ hx))
  obtain ⟨hv', hw'⟩ : v.isAbsent = false ∧ w.isAbsent = false := by simpa using absent
  have joined := (canonical_join hv.canonical hw.canonical).differentAtoms (isAbsent_join hv' hw')
  obtain ⟨k, held⟩ := joined.mem_iff_atomOf?.1 hx
  rw [atomOf?_join hv.canonical hw.canonical hv' hw'] at held
  cases left : atomOf? k v.atoms with
  | none =>
    rw [left, Option.merge_none_left] at held
    exact .inr (.inl (mem_of_atomOf?_eq held).1)
  | some y =>
    obtain ⟨hy, -⟩ := mem_of_atomOf?_eq left
    cases right : atomOf? k w.atoms with
    | none =>
      rw [right, Option.merge_none_right, left] at held
      exact .inl (Option.some.inj held ▸ hy)
    | some z =>
      obtain ⟨hz, -⟩ := mem_of_atomOf?_eq right
      rw [left, right, Option.merge_some_some, Option.some.injEq] at held
      subst held
      rcases mergeAtoms_eq_or_mergedFrom (mergeable_of_atomOf?_eq left right)
        (hv.of_mem_atoms hy).coherent (hw.of_mem_atoms hz).coherent with kept | merged
      · exact .inl (kept.symm ▸ hy)
      · exact .inr (.inr ⟨y, hy, z, hz, merged⟩)

/-! ### All of it -/

/-- Of canonical values whose numbers are of the kinds that `kinds` gives, `a` is `Below` `b`
exactly if it is nothing, or undefined where there is something, or if each of its atoms is
`CoveredBy` the atom of `b` with the same merge key. This is a partial order, and the join is the
least upper bound in it. An atom of a join that neither side has was `MergedFrom` one atom of each.
-/
theorem information_order (kinds : ClazzId → NumericKind) {a b c : Value}
    (ha : a.Canonical) (hb : b.Canonical) (hc : c.Canonical)
    (ka : a.Coherent kinds) (kb : b.Coherent kinds) :
    (a.Below b ↔
      a = noValue ∨ (a = undefined ∧ b ≠ noValue) ∨
        (a.isAbsent = false ∧ b.isAbsent = false ∧
          ∀ x ∈ a.atoms, ∃ y ∈ b.atoms, y.mergeKey? = x.mergeKey? ∧ x.CoveredBy y)) ∧
      (a.Below a ∧ (a.Below b → b.Below a → a = b) ∧ (a.Below b → b.Below c → a.Below c)) ∧
      (a.Below (a.join b) ∧ b.Below (a.join b) ∧
        (a.Below c → b.Below c → (a.join b).Below c)) ∧
      ∀ x ∈ (a.join b).atoms,
        x ∈ a.atoms ∨ x ∈ b.atoms ∨ ∃ y ∈ a.atoms, ∃ z ∈ b.atoms, MergedFrom y z x := by
  have ra : a.Regular kinds := ⟨ha, ka⟩
  have rb : b.Regular kinds := ⟨hb, kb⟩
  exact ⟨below_iff_coveredBy ra rb,
    ⟨below_refl a, below_antisymm ra rb, ha.below_trans hb hc⟩,
    ⟨below_join ra rb, below_join_right ra rb, ha.join_below hb hc⟩,
    fun _ hx => mem_atoms_join ra rb hx⟩

/-- The laws of `information_order` for two tagged numbers `a` and `b` and a set `c` above both. -/
theorem information_order_tagged :
    let kinds : ClazzId → NumericKind := fun _ => .i32
    let a := tagged (number ⟨⟨5⟩, .i32, some 1⟩) ⟨30⟩ 0
    let b := set [unit, tagged (number ⟨⟨5⟩, .i32, some 2⟩) ⟨30⟩ 0]
    let c := set [unit, bool .any, tagged (number ⟨⟨5⟩, .i32, none⟩) ⟨30⟩ 0]
    (a.Canonical ∧ b.Canonical ∧ c.Canonical ∧ a.Coherent kinds ∧ b.Coherent kinds ∧
      a.Below c ∧ b.Below c ∧ ¬ a.Below b) ∧
    (a.Below b ↔
      a = noValue ∨ (a = undefined ∧ b ≠ noValue) ∨
        (a.isAbsent = false ∧ b.isAbsent = false ∧
          ∀ x ∈ a.atoms, ∃ y ∈ b.atoms, y.mergeKey? = x.mergeKey? ∧ x.CoveredBy y)) ∧
      (a.Below a ∧ (a.Below b → b.Below a → a = b) ∧ (a.Below b → b.Below c → a.Below c)) ∧
      (a.Below (a.join b) ∧ b.Below (a.join b) ∧
        (a.Below c → b.Below c → (a.join b).Below c)) ∧
      ∀ x ∈ (a.join b).atoms,
        x ∈ a.atoms ∨ x ∈ b.atoms ∨ ∃ y ∈ a.atoms, ∃ z ∈ b.atoms, MergedFrom y z x := by
  intro kinds a b c
  have hc : a.Canonical ∧ b.Canonical ∧ c.Canonical := by decide
  have hk : a.Coherent kinds ∧ b.Coherent kinds := ⟨rfl, trivial, rfl, trivial⟩
  have placed : a.Below c ∧ b.Below c ∧ ¬ a.Below b := by
    unfold Below
    decide
  exact ⟨⟨hc.1, hc.2.1, hc.2.2, hk.1, hk.2, placed⟩,
    information_order kinds hc.1 hc.2.1 hc.2.2 hk.1 hk.2⟩

end Value

end ClosedWorld
