import ClosedWorld.Proofs.Value.Atomwise

/-!
# Leaves

The leaves of a value are its atoms, with each box replaced by the leaves of what is in it. A join
has atoms that neither of its arguments has: two boxes become one, with a joined content, and in
that content there can again be boxes that were joined. So the leaves of a join are not those of its
arguments either, and it takes an induction on the nesting of boxes to see where they come from.

## Main definitions

* `Value.HasLeaf`: a leaf of the value has a property.
* `Value.IsFilled`: something is there, and in every box too.

## Main statements

* `Value.exists_mem_leaves_iff`: the leaves that are meant are those in the list of leaves.
* `Value.hasLeaf_join`: a join has a leaf with a property if one of its arguments has.
* `Value.isFilled_join`: a join of filled values is filled.
-/

namespace ClosedWorld

namespace Value

variable {kinds : ClazzId → NumericKind} {Q : Value → Prop} {v w leaf : Value}

/-- Neither absent nor a box nor a set. -/
def isLeaf : Value → Bool
  | noValue | undefined | boxed .. | set _ => false
  | _ => true

/-- A leaf of the value has the property. -/
inductive HasLeaf (Q : Value → Prop) : Value → Prop where
  | here {v leaf : Value} : leaf ∈ v.atoms → leaf.isLeaf = true → Q leaf → HasLeaf Q v
  | boxed {v content : Value} {valueClazz refClazz : ClazzId} :
    boxed content valueClazz refClazz ∈ v.atoms → HasLeaf Q content → HasLeaf Q v

/-- What is in a box among the atoms of a canonical value is canonical. -/
theorem Canonical.content_of_mem_atoms {content : Value} {valueClazz refClazz : ClazzId}
    (hv : v.Canonical) (among : boxed content valueClazz refClazz ∈ v.atoms) : content.Canonical :=
  show (boxed content valueClazz refClazz).Canonical from hv.of_mem_atoms among

/-- What is in a box among the atoms of a regular value is regular. -/
theorem Regular.content_of_mem_atoms {content : Value} {valueClazz refClazz : ClazzId}
    (hv : v.Regular kinds) (among : boxed content valueClazz refClazz ∈ v.atoms) :
    content.Regular kinds :=
  ⟨hv.canonical.content_of_mem_atoms among,
    show (boxed content valueClazz refClazz).Coherent kinds from hv.coherent.of_mem_atoms among⟩

/-- An absent value has only itself as an atom, so a value with an atom that is present is present.
-/
theorem isAbsent_of_mem_atoms {a : Value} (ha : a ∈ v.atoms) (present : a.isAbsent = false) :
    v.isAbsent = false := by
  cases v with
  | noValue | undefined => exact List.mem_singleton.1 ha ▸ present
  | _ => rfl

/-- A leaf is not absent. -/
theorem isAbsent_of_isLeaf (isLeaf : leaf.isLeaf = true) : leaf.isAbsent = false := by
  cases leaf with
  | noValue | undefined => cases isLeaf
  | _ => rfl

/-- A value has the leaves of its atoms. -/
theorem HasLeaf.of_mem_atoms {a : Value} (hv : v.Canonical) (ha : a ∈ v.atoms)
    (has : a.HasLeaf Q) : v.HasLeaf Q := by
  have single := hv.atoms_of_mem_atoms ha
  cases has with
  | here among isLeaf holds =>
    rw [single, List.mem_singleton] at among
    exact .here (among ▸ ha) isLeaf holds
  | boxed among inside =>
    rw [single, List.mem_singleton] at among
    exact .boxed (among ▸ ha) inside

/-! ### The list of leaves -/

/-- A value that is a leaf is one of its own `leaves`. -/
theorem mem_leaves_self (isLeaf : leaf.isLeaf = true) : leaf ∈ leaf.leaves := by
  cases leaf with
  | noValue | undefined | boxed | set => cases isLeaf
  | _ => exact List.mem_singleton_self _

/-- Where there are no sets among some atoms, `leavesOfAtoms` lists the leaves of each of them. -/
theorem mem_leavesOfAtoms_iff {atoms : List Value} (isAtom : ∀ a ∈ atoms, a.isAtom = true) :
    leaf ∈ leavesOfAtoms atoms ↔ ∃ a ∈ atoms, leaf ∈ a.leaves := by
  induction atoms with
  | nil => simp [leavesOfAtoms]
  | cons a rest ih =>
    obtain ⟨first, isAtom⟩ := List.forall_mem_cons.1 isAtom
    rw [leavesOfAtoms]
    · simp only [List.mem_append, ih isAtom, List.mem_cons, exists_eq_or_imp]
    · rintro members rfl
      cases first

/-- The `leaves` of a canonical value are the leaves of its atoms. -/
theorem Canonical.mem_leaves_iff (hv : v.Canonical) :
    leaf ∈ v.leaves ↔ ∃ a ∈ v.atoms, leaf ∈ a.leaves := by
  cases v with
  | set members =>
    rw [leaves]
    exact mem_leavesOfAtoms_iff hv.2.2.2.1
  | _ => simp [atoms]

/-- If a canonical value has a leaf with the property `Q`, then one is listed among its `leaves`. -/
theorem HasLeaf.exists_mem_leaves (has : v.HasLeaf Q) (hv : v.Canonical) :
    ∃ leaf ∈ v.leaves, Q leaf := by
  induction has with
  | here among isLeaf holds =>
    exact ⟨_, hv.mem_leaves_iff.2 ⟨_, among, mem_leaves_self isLeaf⟩, holds⟩
  | @boxed v content valueClazz refClazz among inside ih =>
    obtain ⟨leaf, listed, holds⟩ := ih (hv.content_of_mem_atoms among)
    refine ⟨leaf, hv.mem_leaves_iff.2 ⟨_, among, ?_⟩, holds⟩
    rwa [leaves]

mutual

/-- A leaf that is listed among the `leaves` of a canonical value is one of its leaves. The
recursion is that of `leaves`. -/
theorem hasLeaf_of_mem_leaves : (v : Value) → v.Canonical → leaf ∈ v.leaves → Q leaf → v.HasLeaf Q
  | .set atoms, hv, listed, holds => by
    rw [leaves] at listed
    obtain ⟨a, ha, has⟩ := hasLeaf_of_mem_leavesOfAtoms atoms hv.2.2.2.1 hv.2.2.2.2 listed holds
    exact .of_mem_atoms hv ha has
  | .boxed content _ _, hv, listed, holds => by
    rw [leaves] at listed
    exact .boxed (List.mem_singleton_self _) (hasLeaf_of_mem_leaves content hv listed holds)
  | .noValue, _, listed, _ | .undefined, _, listed, _ => by cases listed
  | .unit, _, listed, holds | .bool _, _, listed, holds | .number _, _, listed, holds
  | .object _, _, listed, holds | .tagged .., _, listed, holds | .array _, _, listed, holds => by
    obtain rfl := List.mem_singleton.1 listed
    exact .here (List.mem_singleton_self _) rfl holds

/-- A leaf that is listed for some atoms is a leaf of one of them. -/
theorem hasLeaf_of_mem_leavesOfAtoms : (atoms : List Value) → (∀ a ∈ atoms, a.isAtom = true) →
    CanonicalAll atoms → leaf ∈ leavesOfAtoms atoms → Q leaf → ∃ a ∈ atoms, a.HasLeaf Q
  | [], _, _, listed, _ => by cases listed
  | atom :: rest, isAtom, canonical, listed, holds => by
    obtain ⟨first, isAtom⟩ := List.forall_mem_cons.1 isAtom
    rw [leavesOfAtoms, List.mem_append] at listed
    · rcases listed with here | later
      · exact ⟨atom, List.mem_cons_self, hasLeaf_of_mem_leaves atom canonical.1 here holds⟩
      · obtain ⟨a, ha, has⟩ := hasLeaf_of_mem_leavesOfAtoms rest isAtom canonical.2 later holds
        exact ⟨a, List.mem_cons_of_mem _ ha, has⟩
    · rintro members rfl
      cases first

end

/-- The leaves that `HasLeaf` is about are those in the list of `leaves`. -/
theorem exists_mem_leaves_iff (hv : v.Canonical) : (∃ leaf ∈ v.leaves, Q leaf) ↔ v.HasLeaf Q :=
  ⟨fun ⟨_, listed, holds⟩ => hasLeaf_of_mem_leaves v hv listed holds,
    fun has => has.exists_mem_leaves hv⟩

/-! ### The leaves of a join -/

/-- What two atoms are merged into is a leaf just if the two atoms are. -/
theorem MergedFrom.isLeaf_eq {x y z : Value} (merged : MergedFrom y z x) :
    y.isLeaf = x.isLeaf ∧ z.isLeaf = x.isLeaf := by
  cases merged <;> exact ⟨rfl, rfl⟩

/-- In a larger value a box is still there, with no less inside: boxes are found again by their two
clazzes. -/
theorem exists_boxed_of_below {content : Value} {valueClazz refClazz : ClazzId} (hv : v.Canonical)
    (hw : w.Canonical) (below : v.Below w) (among : boxed content valueClazz refClazz ∈ v.atoms) :
    ∃ content', boxed content' valueClazz refClazz ∈ w.atoms ∧ content.Below content' := by
  obtain ⟨b, hb, key, merged⟩ :=
    exists_mergeAtoms_eq_of_join_eq hv hw (below_iff.1 below) among rfl
  cases b with
  | boxed content' valueClazz' refClazz' =>
    obtain ⟨rfl, rfl⟩ := MergeKey.boxed.inj (Option.some.inj key)
    exact ⟨content', hb, below_iff.2 (boxed.inj merged).1⟩
  | _ => cases key

section merging

variable (merged : ∀ {y z x}, MergedFrom y z x → (Q x ↔ Q y ∨ Q z))

include merged

/-- A leaf with the property `Q` is still there in a larger value, or was merged into another one
with this property. -/
theorem HasLeaf.of_below (has : v.HasLeaf Q) (hv : v.Regular kinds) (hw : w.Regular kinds)
    (below : v.Below w) : w.HasLeaf Q := by
  induction has generalizing w with
  | here among isLeaf holds =>
    have present := isAbsent_of_mem_atoms among (isAbsent_of_isLeaf isLeaf)
    obtain ⟨x, hx, rfl | into⟩ := exists_atom_of_below hv hw below present among
    · exact .here hx isLeaf holds
    · exact .here hx (into.isLeaf_eq.1 ▸ isLeaf) ((merged into).2 (.inl holds))
  | boxed among _ ih =>
    obtain ⟨content, among', below⟩ := exists_boxed_of_below hv.canonical hw.canonical below among
    exact .boxed among'
      (ih (hv.content_of_mem_atoms among) (hw.content_of_mem_atoms among') below)

/-- A leaf of a join with the property `Q` comes from one of the two values. The induction follows
`HasLeaf` of the join. -/
theorem HasLeaf.of_join (hv : v.Regular kinds) (hw : w.Regular kinds)
    (has : (v.join w).HasLeaf Q) : v.HasLeaf Q ∨ w.HasLeaf Q := by
  generalize joined : v.join w = u at has
  induction has generalizing v w with
  | here among isLeaf holds =>
    subst joined
    rcases mem_atoms_join hv hw among with among | among | ⟨y, hy, z, hz, into⟩
    · exact .inl (.here among isLeaf holds)
    · exact .inr (.here among isLeaf holds)
    · rw [← into.isLeaf_eq.1] at isLeaf
      have right := into.isLeaf_eq.2.trans (into.isLeaf_eq.1.symm.trans isLeaf)
      exact ((merged into).1 holds).imp (.here hy isLeaf) (.here hz right)
  | boxed among inside ih =>
    subst joined
    rcases mem_atoms_join hv hw among with among | among | ⟨y, hy, z, hz, into⟩
    · exact .inl (.boxed among inside)
    · exact .inr (.boxed among inside)
    · cases into with
      | boxed =>
        have parts := ih (hv.content_of_mem_atoms hy) (hw.content_of_mem_atoms hz) rfl
        exact parts.imp (.boxed hy) (.boxed hz)

/-- A join has a leaf with the property `Q` exactly if one of the two values has. -/
theorem hasLeaf_join (hv : v.Regular kinds) (hw : w.Regular kinds) :
    (v.join w).HasLeaf Q ↔ v.HasLeaf Q ∨ w.HasLeaf Q := by
  have joined := regular_join hv hw
  constructor
  · exact HasLeaf.of_join merged hv hw
  · rintro (left | right)
    · exact left.of_below merged hv joined (below_join hv hw)
    · exact right.of_below merged hw joined (below_join_right hv hw)

/-- Among the `leaves` of a join there is one with the property `Q` if there is one among those of
the two values, for properties that a merged leaf has if one of the two leaves has. -/
theorem exists_mem_leaves_join (hv : v.Regular kinds) (hw : w.Regular kinds) :
    (∃ leaf ∈ (v.join w).leaves, Q leaf) ↔
      (∃ leaf ∈ v.leaves, Q leaf) ∨ ∃ leaf ∈ w.leaves, Q leaf := by
  rw [exists_mem_leaves_iff (canonical_join hv.canonical hw.canonical),
    exists_mem_leaves_iff hv.canonical, exists_mem_leaves_iff hw.canonical]
  exact hasLeaf_join merged hv hw

end merging

/-! ### Filled values -/

mutual

/-- Something is there, and in every box too. -/
def IsFilled : Value → Prop
  | noValue | undefined => False
  | boxed content _ _ => IsFilled content
  | set members => AreFilled members
  | _ => True

/-- All values of the list are filled. -/
def AreFilled : List Value → Prop
  | [] => True
  | v :: rest => IsFilled v ∧ AreFilled rest

end

/-- The predicate `AreFilled` on a list says that all members are filled. -/
theorem areFilled_iff {vs : List Value} : AreFilled vs ↔ ∀ v ∈ vs, v.IsFilled := by
  induction vs with
  | nil => simp [AreFilled]
  | cons v vs ih => simp [AreFilled, ih]

/-- A value is filled if all its atoms are. -/
theorem isFilled_iff : v.IsFilled ↔ ∀ a ∈ v.atoms, a.IsFilled := by
  cases v with
  | set members =>
    rw [IsFilled]
    exact areFilled_iff
  | _ => simp [atoms]

/-- A join of filled values is filled, by induction on a bound for the depth of the first. -/
theorem isFilled_join_of_depth_lt (n : Nat) : ∀ v w : Value, v.depth < n → v.Regular kinds →
    w.Regular kinds → v.IsFilled → w.IsFilled → (v.join w).IsFilled := by
  induction n with
  | zero => exact fun v w hvn => absurd hvn (Nat.not_lt_zero _)
  | succ n ih =>
    intro v w hvn hv hw fv fw
    rw [isFilled_iff] at fv fw ⊢
    intro x hx
    rcases mem_atoms_join hv hw hx with hx | hx | ⟨y, hy, z, hz, into⟩
    · exact fv x hx
    · exact fw x hx
    · cases into with
      | bool | number | tagged => simp [IsFilled]
      | @boxed s t valueClazz refClazz differ =>
        have inside : s.depth < n := by
          have := depth_le_of_mem_atoms hy
          rw [depth] at this
          omega
        have fs := fv _ hy
        have ft := fw _ hz
        rw [IsFilled] at fs ft ⊢
        exact ih s t inside (hv.content_of_mem_atoms hy) (hw.content_of_mem_atoms hz) fs ft

/-- A join of filled regular values is filled. -/
theorem isFilled_join (hv : v.Regular kinds) (hw : w.Regular kinds) (fv : v.IsFilled)
    (fw : w.IsFilled) : (v.join w).IsFilled :=
  isFilled_join_of_depth_lt (v.depth + 1) v w (Nat.lt_succ_self _) hv hw fv fw

end Value

end ClosedWorld
