import ClosedWorld.Proofs.Value.Canonical

/-!
# Values form a join semilattice

The proof reads canonical values by merge key. What a join holds under a key is what its arguments
hold there, merged (`Value.atomOf?_join`); and since a canonical value is determined by this
reading, an equation between joins follows from the same equation between merged atoms. Two atoms
with one merge key are merged by joining what they wrap, which is nested less deeply, so each law
is an induction on a bound of the depth.

The shortcuts of the join fit in as follows. Joining equal values is merging each atom with itself,
which gives it back; and absent values, which have no atoms with merge keys, are treated on their
own.

## Main definitions

* `Value.JoinClosed`: properties of values that survive a join.

## Main statements

* `Value.atomOf?_join`: the atoms of a join.
* `Value.regular_join`, `Value.join_comm`, `Value.join_assoc`: the laws one by one.
* `Value.Canonical.join_join_self`: what remains of commutativity without kinds.
* `Value.join_semilattice`: all laws.
-/

namespace ClosedWorld

namespace Value

variable {kinds : ClazzId → NumericKind}

/-! ### Merging lists of atoms -/

section merging

variable {inner : Value → Value → Value}

/-- Merging two atoms gives an atom with the merge key of the first. -/
theorem mergeKey?_mergeAtoms (v w : Value) : (mergeAtoms inner v w).mergeKey? = v.mergeKey? := by
  unfold mergeAtoms
  split
  · split <;> rfl
  · split <;> rfl
  · rfl
  · rfl
  · rfl

/-- After `absorb` the merge keys are those before, with the key of the new atom at the end if it
was missing. -/
theorem map_mergeKey?_absorb (v : Value) (vs : List Value) :
    (absorb inner v vs).map mergeKey? =
      if v.mergeKey? ∈ vs.map mergeKey? then vs.map mergeKey?
      else vs.map mergeKey? ++ [v.mergeKey?] := by
  induction vs with
  | nil => simp [absorb]
  | cons w vs ih =>
    unfold absorb
    by_cases hk : w.mergeKey? = v.mergeKey?
    · simp [hk, mergeKey?_mergeAtoms]
    · rw [if_neg hk, List.map_cons, ih, List.map_cons]
      by_cases hm : v.mergeKey? ∈ vs.map mergeKey?
      · rw [if_pos hm, if_pos (List.mem_cons_of_mem _ hm)]
      · rw [if_neg hm, if_neg (List.not_mem_cons_of_ne_of_not_mem (Ne.symm hk) hm),
          List.cons_append]

/-- Taking in an atom with `absorb` keeps the atoms of a list different. -/
theorem DifferentAtoms.absorb {vs : List Value} (h : DifferentAtoms vs) {v : Value}
    (hv : v.isAtom) : DifferentAtoms (absorb inner v vs) where
  keys_nodup := by
    rw [map_mergeKey?_absorb]
    split
    · exact h.keys_nodup
    · rename_i hm
      exact List.nodup_append.2 ⟨h.keys_nodup, List.nodup_singleton _, by
        rintro k hk _ hk' rfl
        exact hm (List.mem_singleton.1 hk' ▸ hk)⟩
  isAtom w hw := by
    have hkeys : ∀ k ∈ (Value.absorb inner v vs).map mergeKey?, k.isSome := by
      rw [map_mergeKey?_absorb]
      have hold : ∀ k ∈ vs.map mergeKey?, k.isSome := by
        intro k hk
        obtain ⟨u, hu, rfl⟩ := List.mem_map.1 hk
        exact isAtom_iff.1 (h.isAtom u hu)
      split
      · exact hold
      · intro k hk
        rcases List.mem_append.1 hk with hk | hk
        · exact hold k hk
        · exact List.mem_singleton.1 hk ▸ isAtom_iff.1 hv
    exact isAtom_iff.2 (hkeys _ (List.mem_map_of_mem hw))

/-- Taking in one atom after the other keeps the atoms of a list different. -/
theorem differentAtoms_foldl_absorb {vs : List Value} (hvs : ∀ v ∈ vs, v.isAtom)
    {merged : List Value} (h : DifferentAtoms merged) :
    DifferentAtoms (vs.foldl (fun merged v => absorb inner v merged) merged) := by
  induction vs generalizing merged with
  | nil => exact h
  | cons v vs ih =>
    obtain ⟨hv, hvs⟩ := List.forall_mem_cons.1 hvs
    exact ih hvs (h.absorb hv)

/-- What `mergeAll` makes has different atoms, whatever it is made of. -/
theorem differentAtoms_mergeAll (vs : List Value) : DifferentAtoms (mergeAll inner vs) := by
  refine differentAtoms_foldl_absorb (fun v hv => ?_) ⟨List.nodup_nil, by simp⟩
  exact isAtom_iff.2 (List.mem_filter.1 hv).2

/-- Absorbing an atom changes what `atomOf?` finds under the atom's own key only. -/
theorem atomOf?_absorb (k : MergeKey) (v : Value) (vs : List Value) (hv : v.isAtom) :
    atomOf? k (absorb inner v vs) =
      Option.merge (mergeAtoms inner) (atomOf? k vs) (atomOf? k [v]) := by
  obtain ⟨j, hj⟩ := Option.isSome_iff_exists.1 (isAtom_iff.1 hv)
  unfold atomOf?
  induction vs with
  | nil => simp [absorb]
  | cons w vs ih =>
    unfold absorb
    by_cases hwv : w.mergeKey? = v.mergeKey?
    · rw [if_pos hwv]
      by_cases hk : j = k
      · simp [mergeKey?_mergeAtoms, hwv, hj, hk]
      · simp [mergeKey?_mergeAtoms, hwv, hj, hk]
    · rw [if_neg hwv, List.find?_cons, ih, List.find?_cons]
      by_cases hk : w.mergeKey? = some k
      · have hjk : j ≠ k := fun e => hwv (by rw [hk, hj, e])
        simp [hk, hj, hjk]
      · simp [hk]

/-- After taking in different atoms, `atomOf?` finds under each key what was there and what was
taken in, merged. -/
theorem atomOf?_foldl_absorb (k : MergeKey) {vs : List Value} (hvs : DifferentAtoms vs)
    (merged : List Value) :
    atomOf? k (vs.foldl (fun merged v => absorb inner v merged) merged) =
      Option.merge (mergeAtoms inner) (atomOf? k merged) (atomOf? k vs) := by
  induction vs generalizing merged with
  | nil => simp [atomOf?]
  | cons v vs ih =>
    obtain ⟨hkeys, hatoms⟩ := hvs
    obtain ⟨hnew, hkeys⟩ := List.nodup_cons.1 (List.map_cons ▸ hkeys)
    obtain ⟨hv, hatoms⟩ := List.forall_mem_cons.1 hatoms
    rw [List.foldl_cons, ih ⟨hkeys, hatoms⟩, atomOf?_absorb k v merged hv]
    by_cases hk : v.mergeKey? = some k
    · have hnone : atomOf? k vs = none := by
        refine List.find?_eq_none.2 fun w hw hwk => hnew ?_
        rw [hk, ← of_decide_eq_true hwk]
        exact List.mem_map_of_mem hw
      rw [hnone, Option.merge_none_right]
      simp [atomOf?, hk]
    · simp [atomOf?, hk]

/-- Merging two lists of different atoms with `mergeAll` merges what `atomOf?` finds in them under
each key. -/
theorem atomOf?_mergeAll_append (k : MergeKey) {vs ws : List Value} (hvs : DifferentAtoms vs)
    (hws : DifferentAtoms ws) :
    atomOf? k (mergeAll inner (vs ++ ws)) =
      Option.merge (mergeAtoms inner) (atomOf? k vs) (atomOf? k ws) := by
  have hall : ∀ v ∈ vs ++ ws, v.mergeKey?.isSome := by
    intro v hv
    rcases List.mem_append.1 hv with hv | hv
    · exact isAtom_iff.1 (hvs.isAtom v hv)
    · exact isAtom_iff.1 (hws.isAtom v hv)
  unfold mergeAll
  rw [List.filter_eq_self.2 hall, List.foldl_append, atomOf?_foldl_absorb k hws,
    atomOf?_foldl_absorb k hvs]
  simp [atomOf?]

end merging

/-! ### Absent values -/

/-- The absent values are `noValue` and `undefined`. -/
theorem isAbsent_iff {v : Value} : v.isAbsent ↔ v = noValue ∨ v = undefined := by
  cases v <;> simp [isAbsent]

/-- The join is idempotent on all values: two equal ones are not taken apart. -/
@[simp] theorem join_self (v : Value) : v.join v = v := by
  rw [join_eq]
  unfold joinBy
  rw [if_pos rfl]

/-- The value `noValue` is the identity of the join on the left. -/
@[simp] theorem noValue_join (v : Value) : noValue.join v = v := by
  rw [join_eq]
  unfold joinBy
  split
  · assumption
  · rfl

/-- The value `noValue` is the identity of the join on the right. -/
@[simp] theorem join_noValue (v : Value) : v.join noValue = v := by
  rw [join_eq]
  unfold joinBy
  split
  · rfl
  · cases v <;> rfl

/-- On the left `undefined` gives way to every value but `noValue`. -/
theorem undefined_join {v : Value} (h : v ≠ noValue) : undefined.join v = v := by
  rw [join_eq]
  unfold joinBy
  split
  · assumption
  · cases v <;> first | rfl | exact absurd rfl h

/-- On the right `undefined` gives way to every value but `noValue`. -/
theorem join_undefined {v : Value} (h : v ≠ noValue) : v.join undefined = v := by
  rw [join_eq]
  unfold joinBy
  split
  · rfl
  · cases v <;> first | rfl | exact absurd rfl h

/-- The third case of `join`, in which it merges atoms: two different values of which none is
absent. -/
theorem join_eq_ofAtoms {v w : Value} (hv : v.isAbsent = false) (hw : w.isAbsent = false)
    (hne : v ≠ w) : v.join w = ofAtoms (mergeAll join (v.atoms ++ w.atoms)) := by
  rw [join_eq]
  unfold joinBy
  rw [if_neg hne]
  split <;> first | rfl | cases hv | cases hw

/-- The join of values that are not absent is not absent. -/
theorem isAbsent_join {v w : Value} (hv : v.isAbsent = false) (hw : w.isAbsent = false) :
    (v.join w).isAbsent = false := by
  by_cases hne : v = w
  · rw [hne, join_self, hw]
  · rw [join_eq_ofAtoms hv hw hne]
    exact isAbsent_ofAtoms (differentAtoms_mergeAll _)

/-- A join with something on the left is not `noValue`. -/
theorem join_ne_noValue {v w : Value} (h : v ≠ noValue) : v.join w ≠ noValue := by
  by_cases hw : w = noValue
  · rwa [hw, join_noValue]
  · by_cases hv : v = undefined
    · rwa [hv, undefined_join hw]
    · by_cases hw' : w = undefined
      · rwa [hw', join_undefined h]
      · have hpresent {u : Value} (hu : u ≠ noValue) (hu' : u ≠ undefined) :
            u.isAbsent = false :=
          Bool.eq_false_iff.2 fun ha => (isAbsent_iff.1 ha).elim hu hu'
        intro he
        have hj := isAbsent_join (hpresent h hv) (hpresent hw hw')
        rw [he] at hj
        cases hj

/-- A join with an absent value is one of the two values. -/
theorem join_eq_or_eq {v w : Value} (h : v.isAbsent ∨ w.isAbsent) :
    v.join w = v ∨ v.join w = w := by
  by_cases hw : w = noValue
  · exact .inl (by rw [hw, join_noValue])
  by_cases hv : v = noValue
  · exact .inr (by rw [hv, noValue_join])
  rcases h with h | h
  · rcases isAbsent_iff.1 h with h | rfl
    · exact absurd h hv
    · exact .inr (undefined_join hw)
  · rcases isAbsent_iff.1 h with h | rfl
    · exact absurd h hw
    · exact .inl (join_undefined hv)

/-! ### The atoms of a join -/

/-- Merging an atom with itself gives it back. -/
theorem mergeAtoms_self (v : Value) : mergeAtoms join v v = v := by
  cases v <;> simp [mergeAtoms]

/-- Under each merge key `k` a join holds what its arguments hold there, merged. -/
theorem atomOf?_join {v w : Value} (hv : v.Canonical) (hw : w.Canonical)
    (hv' : v.isAbsent = false) (hw' : w.isAbsent = false) (k : MergeKey) :
    atomOf? k (v.join w).atoms =
      Option.merge (mergeAtoms join) (atomOf? k v.atoms) (atomOf? k w.atoms) := by
  by_cases hne : v = w
  · rw [hne, join_self]
    cases atomOf? k w.atoms with
    | none => rfl
    | some a => rw [Option.merge_some_some, mergeAtoms_self]
  · rw [join_eq_ofAtoms hv' hw' hne, atomOf?_atoms_ofAtoms (differentAtoms_mergeAll _),
      atomOf?_mergeAll_append k (hv.differentAtoms hv') (hw.differentAtoms hw')]

/-- What `atomOf?` finds under a key is an atom of the list with that key. -/
theorem mem_of_atomOf?_eq {k : MergeKey} {vs : List Value} {a : Value}
    (h : atomOf? k vs = some a) : a ∈ vs ∧ a.mergeKey? = some k := by
  unfold atomOf? at h
  exact ⟨List.mem_of_find?_eq_some h, by simpa using List.find?_some h⟩

/-- If `v` adds nothing to `w`, then for each atom of `v` there is one in `w` with its key, and
merging the two gives the latter. -/
theorem exists_mergeAtoms_eq_of_join_eq {v w a : Value} (hv : v.Canonical) (hw : w.Canonical)
    (same : v.join w = w) (ha : a ∈ v.atoms) {k : MergeKey} (hk : a.mergeKey? = some k) :
    ∃ b ∈ w.atoms, b.mergeKey? = some k ∧ mergeAtoms join a b = b := by
  have hv' : v.isAbsent = false := by
    by_contra absent
    obtain rfl | rfl := isAbsent_iff.1 (Bool.not_eq_false _ ▸ absent)
    all_goals
      cases List.mem_singleton.1 ha
      cases hk
  have hw' : w.isAbsent = false := by
    by_contra absent
    have kept : v.join w = v := by
      obtain rfl | rfl := isAbsent_iff.1 (Bool.not_eq_false _ ▸ absent)
      · exact join_noValue v
      · exact join_undefined fun h => by
          rw [h] at hv'
          cases hv'
    rw [← same, kept, hv'] at absent
    exact absent rfl
  have joined := atomOf?_join hv hw hv' hw' k
  rw [same, (hv.differentAtoms hv').atomOf?_eq_some_iff.2 ⟨ha, hk⟩] at joined
  cases other : atomOf? k w.atoms with
  | none =>
    rw [other, Option.merge_none_right] at joined
    cases joined
  | some b =>
    obtain ⟨hb, hbk⟩ := mem_of_atomOf?_eq other
    rw [other, Option.merge_some_some] at joined
    exact ⟨b, hb, hbk, (Option.some.inj joined).symm⟩

/-- An atom of a join is an atom of one side, or is merged by `mergeAtoms` from one of each. -/
theorem mem_mergeAll_append {v w a : Value} (hv : v.Canonical) (hw : w.Canonical)
    (hv' : v.isAbsent = false) (hw' : w.isAbsent = false)
    (ha : a ∈ mergeAll join (v.atoms ++ w.atoms)) :
    a ∈ v.atoms ∨ a ∈ w.atoms ∨ ∃ x ∈ v.atoms, ∃ y ∈ w.atoms, a = mergeAtoms join x y := by
  obtain ⟨k, hk⟩ := (differentAtoms_mergeAll _).mem_iff_atomOf?.1 ha
  rw [atomOf?_mergeAll_append k (hv.differentAtoms hv') (hw.differentAtoms hw')] at hk
  cases hx : atomOf? k v.atoms with
  | none =>
    rw [hx, Option.merge_none_left] at hk
    exact .inr (.inl (mem_of_atomOf?_eq hk).1)
  | some x =>
    cases hy : atomOf? k w.atoms with
    | none =>
      rw [hx, hy, Option.merge_none_right] at hk
      exact .inl (Option.some_inj.1 hk ▸ (mem_of_atomOf?_eq hx).1)
    | some y =>
      rw [hx, hy, Option.merge_some_some] at hk
      exact .inr (.inr ⟨x, (mem_of_atomOf?_eq hx).1, y, (mem_of_atomOf?_eq hy).1,
        (Option.some_inj.1 hk).symm⟩)

/-- There are atoms in the join of two canonical values that are not absent. -/
theorem mergeAll_append_ne_nil {v w : Value} (hv : v.Canonical) (hw : w.Canonical)
    (hv' : v.isAbsent = false) (hw' : w.isAbsent = false) :
    mergeAll join (v.atoms ++ w.atoms) ≠ [] := by
  obtain ⟨a, ha⟩ := List.exists_mem_of_ne_nil _ hv.atoms_ne_nil
  obtain ⟨k, hk⟩ := (hv.differentAtoms hv').mem_iff_atomOf?.1 ha
  intro hnil
  have hmerged : atomOf? k [] = Option.merge (mergeAtoms join) (some a) (atomOf? k w.atoms) := by
    rw [← hk, ← hnil]
    exact atomOf?_mergeAll_append k (hv.differentAtoms hv') (hw.differentAtoms hw')
  cases hy : atomOf? k w.atoms <;> rw [hy] at hmerged <;> cases hmerged

/-! ### What is closed under joins -/

/-- The property is one of canonical values. It passes from a value to its atoms and back, and to
what boxes and tags wrap and back, and it survives that numbers and booleans are merged. -/
structure JoinClosed (P : Value → Prop) : Prop where
  canonical : ∀ {v}, P v → v.Canonical
  of_mem_atoms : ∀ {v a}, P v → a ∈ v.atoms → P a
  ofAtoms : ∀ {vs}, DifferentAtoms vs → vs ≠ [] → (∀ v ∈ vs, P v) → P (ofAtoms vs)
  bool : ∀ truth, P (bool truth)
  number : ∀ {n}, P (number n) → P (number (.any n.clazz n.kind))
  boxed : ∀ {v valueClazz refClazz}, P (boxed v valueClazz refClazz) ↔ P v
  tagged : ∀ {v choice tag}, P (tagged v choice tag) ↔ P v

namespace JoinClosed

variable {P : Value → Prop} (hP : JoinClosed P)

include hP

/-- A property that is `JoinClosed` survives the merging of two atoms if it survives the joins of
what is less deep. -/
theorem mergeAtoms {n : Nat}
    (ih : ∀ x y : Value, x.depth < n → y.depth < n → P x → P y → P (x.join y))
    {v w : Value} (hvn : v.depth ≤ n) (hwn : w.depth ≤ n) (hv : P v) (hw : P w) :
    P (mergeAtoms join v w) := by
  unfold Value.mergeAtoms
  split
  · split <;> exact hP.bool _
  · split
    · exact hv
    · exact hP.number hv
  · exact hP.boxed.2 (ih _ _ hvn hwn (hP.boxed.1 hv) (hP.boxed.1 hw))
  · exact hP.tagged.2 (ih _ _ hvn hwn (hP.tagged.1 hv) (hP.tagged.1 hw))
  · exact hv

/-- The induction behind `JoinClosed.join`, on a bound `n` of the depth of both values. -/
theorem join_of_depth_lt (n : Nat) : ∀ v w : Value, v.depth < n → w.depth < n → P v → P w →
    P (v.join w) := by
  induction n with
  | zero => exact fun v w hvn => absurd hvn (Nat.not_lt_zero _)
  | succ n ih =>
    intro v w hvn hwn hv hw
    have hvc := hP.canonical hv
    have hwc := hP.canonical hw
    by_cases habs : v.isAbsent ∨ w.isAbsent
    · rcases join_eq_or_eq habs with he | he <;> rw [he] <;> assumption
    by_cases hne : v = w
    · rwa [hne, join_self]
    obtain ⟨hv', hw'⟩ : v.isAbsent = false ∧ w.isAbsent = false := by simpa using habs
    have hatoms : ∀ a ∈ mergeAll join (v.atoms ++ w.atoms), P a := by
      intro a ha
      rcases mem_mergeAll_append hvc hwc hv' hw' ha with ha | ha | ⟨x, hx, y, hy, rfl⟩
      · exact hP.of_mem_atoms hv ha
      · exact hP.of_mem_atoms hw ha
      · have hxn := depth_le_of_mem_atoms hx
        have hyn := depth_le_of_mem_atoms hy
        exact hP.mergeAtoms ih (by omega) (by omega) (hP.of_mem_atoms hv hx)
          (hP.of_mem_atoms hw hy)
    rw [join_eq_ofAtoms hv' hw' hne]
    exact hP.ofAtoms (differentAtoms_mergeAll _) (mergeAll_append_ne_nil hvc hwc hv' hw') hatoms

/-- A property that is `JoinClosed` holds of the join of two values with the property. -/
theorem join {v w : Value} (hv : P v) (hw : P w) : P (v.join w) :=
  hP.join_of_depth_lt (max v.depth w.depth + 1) v w (by omega) (by omega) hv hw

end JoinClosed

/-- Being canonical is `JoinClosed`. -/
theorem joinClosed_canonical : JoinClosed Canonical where
  canonical hv := hv
  of_mem_atoms hv ha := hv.of_mem_atoms ha
  ofAtoms := canonical_ofAtoms
  bool _ := trivial
  number _ := trivial
  boxed := Iff.rfl
  tagged := Iff.rfl

/-- Being regular is `JoinClosed`, whichever map `kinds` gives the kinds of numbers. -/
theorem joinClosed_regular (kinds : ClazzId → NumericKind) : JoinClosed (Regular kinds) where
  canonical hv := hv.canonical
  of_mem_atoms hv ha := hv.of_mem_atoms ha
  ofAtoms different some regular :=
    ⟨canonical_ofAtoms different some fun v hv => (regular v hv).canonical,
      coherent_ofAtoms fun v hv => (regular v hv).coherent⟩
  bool _ := ⟨trivial, trivial⟩
  number hn := ⟨trivial, hn.coherent⟩
  boxed := ⟨fun hv => ⟨hv.canonical, hv.coherent⟩, fun hv => ⟨hv.canonical, hv.coherent⟩⟩
  tagged := ⟨fun hv => ⟨hv.canonical, hv.coherent⟩, fun hv => ⟨hv.canonical, hv.coherent⟩⟩

/-- The join of canonical values is canonical. -/
theorem canonical_join {v w : Value} (hv : v.Canonical) (hw : w.Canonical) :
    (v.join w).Canonical :=
  joinClosed_canonical.join hv hw

/-- The join of regular values is regular, for the same map `kinds`. -/
theorem regular_join {v w : Value} (hv : v.Regular kinds) (hw : w.Regular kinds) :
    (v.join w).Regular kinds :=
  (joinClosed_regular kinds).join hv hw

/-! ### Pairs of atoms that are merged -/

/-- Two atoms that have one merge key. -/
inductive Mergeable : Value → Value → Prop where
  | unit : Mergeable unit unit
  | bool (x y : Truth) : Mergeable (bool x) (bool y)
  | number (clazz : ClazzId) (kind kind' : NumericKind) (x y : Option UInt64) :
    Mergeable (number ⟨clazz, kind, x⟩) (number ⟨clazz, kind', y⟩)
  | object (id : InstanceId) : Mergeable (object id) (object id)
  | boxed (x y : Value) (valueClazz refClazz : ClazzId) :
    Mergeable (boxed x valueClazz refClazz) (boxed y valueClazz refClazz)
  | tagged (x y : Value) (choice : ClazzId) (tag : Nat) :
    Mergeable (tagged x choice tag) (tagged y choice tag)
  | array (id : ArrayId) : Mergeable (array id) (array id)

/-- Atoms with one merge key are `Mergeable`. -/
theorem mergeable_of_mergeKey?_eq {v w : Value} {k : MergeKey} (hvk : v.mergeKey? = some k)
    (hwk : w.mergeKey? = some k) : Mergeable v w := by
  have hk : v.mergeKey? = w.mergeKey? := hvk.trans hwk.symm
  cases v <;> cases w <;> simp only [mergeKey?, Option.some.injEq, reduceCtorEq,
    MergeKey.number.injEq, MergeKey.object.injEq, MergeKey.boxed.injEq, MergeKey.tagged.injEq,
    MergeKey.array.injEq] at hk hvk
  case unit.unit => exact .unit
  case bool.bool x y => exact .bool x y
  case number.number m n =>
    obtain ⟨c, kind, x⟩ := m
    obtain ⟨c', kind', y⟩ := n
    obtain rfl : c = c' := hk
    exact .number c kind kind' x y
  case object.object i j => exact hk ▸ .object i
  case boxed.boxed x vc rc y vc' rc' =>
    obtain ⟨rfl, rfl⟩ := hk
    exact .boxed x y vc rc
  case tagged.tagged x c t y c' t' =>
    obtain ⟨rfl, rfl⟩ := hk
    exact .tagged x y c t
  case array.array i j => exact hk ▸ .array i

/-- The atoms that two values hold under one key are `Mergeable`. -/
theorem mergeable_of_atomOf?_eq {x y : Value} {k : MergeKey} {vs ws : List Value}
    (hx : atomOf? k vs = some x) (hy : atomOf? k ws = some y) : Mergeable x y :=
  mergeable_of_mergeKey?_eq (mem_of_atomOf?_eq hx).2 (mem_of_atomOf?_eq hy).2

/-- Numbers of one clazz that differ are merged into any number of the kind of the first one. -/
theorem mergeAtoms_number (clazz : ClazzId) (kind kind' : NumericKind) (x y : Option UInt64) :
    mergeAtoms join (number ⟨clazz, kind, x⟩) (number ⟨clazz, kind', y⟩) =
      number ⟨clazz, kind, if x = y then x else none⟩ := by
  simp only [mergeAtoms]
  split <;> rfl

/-! ### Commutativity -/

/-- Merging two atoms of regular values is commutative if the join is on what is less deep. -/
theorem mergeAtoms_comm {n : Nat}
    (ih : ∀ x y : Value, x.depth < n → y.depth < n → x.Regular kinds → y.Regular kinds →
      x.join y = y.join x)
    {v w : Value} (hm : Mergeable v w) (hvn : v.depth ≤ n) (hwn : w.depth ≤ n)
    (hv : v.Regular kinds) (hw : w.Regular kinds) :
    mergeAtoms join v w = mergeAtoms join w v := by
  cases hm with
  | unit => rfl
  | bool x y =>
    by_cases h : x = y
    · rw [h]
    · simp [mergeAtoms, h, Ne.symm h]
  | number c kind kind' x y =>
    obtain rfl : kind = kind' := Eq.trans hv.coherent (Eq.symm hw.coherent)
    rw [mergeAtoms_number, mergeAtoms_number]
    by_cases h : x = y
    · rw [h]
    · rw [if_neg h, if_neg (Ne.symm h)]
  | object i => rfl
  | boxed x y vc rc =>
    simp only [mergeAtoms]
    rw [ih x y hvn hwn ⟨hv.canonical, hv.coherent⟩ ⟨hw.canonical, hw.coherent⟩]
  | tagged x y c t =>
    simp only [mergeAtoms]
    rw [ih x y hvn hwn ⟨hv.canonical, hv.coherent⟩ ⟨hw.canonical, hw.coherent⟩]
  | array i => rfl

/-- The induction behind `join_comm`, on a bound `n` of the depth of both values. -/
theorem join_comm_of_depth_lt (n : Nat) : ∀ v w : Value, v.depth < n → w.depth < n →
    v.Regular kinds → w.Regular kinds → v.join w = w.join v := by
  induction n with
  | zero => exact fun v w hvn => absurd hvn (Nat.not_lt_zero _)
  | succ n ih =>
    intro v w hvn hwn hv hw
    by_cases hv' : v = noValue
    · rw [hv', noValue_join, join_noValue]
    by_cases hw' : w = noValue
    · rw [hw', noValue_join, join_noValue]
    by_cases hvu : v.isAbsent
    · obtain rfl : v = undefined := (isAbsent_iff.1 hvu).resolve_left hv'
      rw [undefined_join hw', join_undefined hw']
    by_cases hwu : w.isAbsent
    · obtain rfl : w = undefined := (isAbsent_iff.1 hwu).resolve_left hw'
      rw [undefined_join hv', join_undefined hv']
    simp only [Bool.not_eq_true] at hvu hwu
    -- Values with atoms are equal if they have the same atom for each merge key.
    refine eq_of_atomOf?_eq (regular_join hv hw).canonical (regular_join hw hv).canonical
      (isAbsent_join hvu hwu) (isAbsent_join hwu hvu) fun k => ?_
    rw [atomOf?_join hv.canonical hw.canonical hvu hwu,
      atomOf?_join hw.canonical hv.canonical hwu hvu]
    cases hx : atomOf? k v.atoms with
    | none => rw [Option.merge_none_left, Option.merge_none_right]
    | some x =>
      cases hy : atomOf? k w.atoms with
      | none => rw [Option.merge_none_left, Option.merge_none_right]
      | some y =>
        obtain ⟨hxv, -⟩ := mem_of_atomOf?_eq hx
        obtain ⟨hyw, -⟩ := mem_of_atomOf?_eq hy
        have hxn := depth_le_of_mem_atoms hxv
        have hyn := depth_le_of_mem_atoms hyw
        rw [Option.merge_some_some, Option.merge_some_some,
          mergeAtoms_comm ih (mergeable_of_atomOf?_eq hx hy) (by omega) (by omega)
            (hv.of_mem_atoms hxv) (hw.of_mem_atoms hyw)]

/-- The join of regular values is commutative. It is here that `kinds` matters: numbers of one clazz
but different kinds are merged into the kind of the first one. -/
theorem join_comm {v w : Value} (hv : v.Regular kinds) (hw : w.Regular kinds) :
    v.join w = w.join v :=
  join_comm_of_depth_lt (max v.depth w.depth + 1) v w (by omega) (by omega) hv hw

/-! ### Associativity -/

/-- Merging three atoms is associative if the join is on what is less deep. -/
theorem mergeAtoms_assoc {n : Nat}
    (ih : ∀ x y z : Value, x.depth < n → y.depth < n → z.depth < n → x.Canonical →
      y.Canonical → z.Canonical → (x.join y).join z = x.join (y.join z))
    {u v w : Value} (huv : Mergeable u v) (hvw : Mergeable v w) (hun : u.depth ≤ n)
    (hvn : v.depth ≤ n) (hwn : w.depth ≤ n) (hu : u.Canonical) (hv : v.Canonical)
    (hw : w.Canonical) :
    mergeAtoms join (mergeAtoms join u v) w = mergeAtoms join u (mergeAtoms join v w) := by
  cases huv with
  | unit => cases hvw; rfl
  | bool x y =>
    cases hvw with
    | bool _ z => cases x <;> cases y <;> cases z <;> rfl
  | number c kind kind' x y =>
    cases hvw with
    | number _ _ _ _ z =>
      simp only [mergeAtoms_number]
      congr 2
      -- a pattern that is left is known to all three
      by_cases hxy : x = y <;> by_cases hyz : y = z <;> grind
  | object i => cases hvw; rfl
  | boxed x y vc rc =>
    cases hvw with
    | boxed _ z =>
      simp only [mergeAtoms]
      rw [ih x y z hun hvn hwn hu hv hw]
  | tagged x y c t =>
    cases hvw with
    | tagged _ z =>
      simp only [mergeAtoms]
      rw [ih x y z hun hvn hwn hu hv hw]
  | array i => cases hvw; rfl

/-- The induction behind `Canonical.join_assoc`, on a bound `n` of the depth of the three values. -/
theorem join_assoc_of_depth_lt (n : Nat) : ∀ u v w : Value, u.depth < n → v.depth < n →
    w.depth < n → u.Canonical → v.Canonical → w.Canonical →
    (u.join v).join w = u.join (v.join w) := by
  induction n with
  | zero => exact fun u v w hun => absurd hun (Nat.not_lt_zero _)
  | succ n ih =>
    intro u v w hun hvn hwn hu hv hw
    by_cases hu' : u = noValue
    · rw [hu', noValue_join, noValue_join]
    by_cases hv' : v = noValue
    · rw [hv', noValue_join, join_noValue]
    by_cases hw' : w = noValue
    · rw [hw', join_noValue, join_noValue]
    -- the undefined value is an identity for the others, on whichever side it stands
    by_cases huu : u.isAbsent
    · obtain rfl : u = undefined := (isAbsent_iff.1 huu).resolve_left hu'
      rw [undefined_join hv', undefined_join (join_ne_noValue hv')]
    by_cases hvu : v.isAbsent
    · obtain rfl : v = undefined := (isAbsent_iff.1 hvu).resolve_left hv'
      rw [join_undefined hu', undefined_join hw']
    by_cases hwu : w.isAbsent
    · obtain rfl : w = undefined := (isAbsent_iff.1 hwu).resolve_left hw'
      rw [join_undefined (join_ne_noValue hu'), join_undefined hv']
    simp only [Bool.not_eq_true] at huu hvu hwu
    have huv := canonical_join hu hv
    have hvw := canonical_join hv hw
    have huv' := isAbsent_join huu hvu
    have hvw' := isAbsent_join hvu hwu
    refine eq_of_atomOf?_eq (canonical_join huv hw) (canonical_join hu hvw)
      (isAbsent_join huv' hwu) (isAbsent_join huu hvw') fun k => ?_
    rw [atomOf?_join huv hw huv' hwu, atomOf?_join hu hv huu hvu, atomOf?_join hu hvw huu hvw',
      atomOf?_join hv hw hvu hwu]
    cases hx : atomOf? k u.atoms with
    | none => rw [Option.merge_none_left, Option.merge_none_left]
    | some x =>
      cases hy : atomOf? k v.atoms with
      | none => rw [Option.merge_none_right, Option.merge_none_left]
      | some y =>
        cases hz : atomOf? k w.atoms with
        | none => rw [Option.merge_none_right, Option.merge_none_right]
        | some z =>
          obtain ⟨hxu, -⟩ := mem_of_atomOf?_eq hx
          obtain ⟨hyv, -⟩ := mem_of_atomOf?_eq hy
          obtain ⟨hzw, -⟩ := mem_of_atomOf?_eq hz
          have hxn := depth_le_of_mem_atoms hxu
          have hyn := depth_le_of_mem_atoms hyv
          have hzn := depth_le_of_mem_atoms hzw
          simp only [Option.merge_some_some]
          rw [mergeAtoms_assoc ih (mergeable_of_atomOf?_eq hx hy)
            (mergeable_of_atomOf?_eq hy hz) (by omega) (by omega) (by omega)
            (hu.of_mem_atoms hxu) (hv.of_mem_atoms hyv) (hw.of_mem_atoms hzw)]

/-- The join of canonical values is associative, even where numbers disagree about their kind: what
is merged has the kind of the first one. -/
theorem Canonical.join_assoc {u v w : Value} (hu : u.Canonical) (hv : v.Canonical)
    (hw : w.Canonical) : (u.join v).join w = u.join (v.join w) :=
  join_assoc_of_depth_lt (max u.depth (max v.depth w.depth) + 1) u v w (by omega) (by omega)
    (by omega) hu hv hw

/-- The join of regular values is associative, a case of `Canonical.join_assoc`. -/
theorem join_assoc {u v w : Value} (hu : u.Regular kinds) (hv : v.Regular kinds)
    (hw : w.Regular kinds) : (u.join v).join w = u.join (v.join w) :=
  hu.canonical.join_assoc hv.canonical hw.canonical

/-! ### Repetition -/

/-- Merging the first of two atoms once more adds nothing if joining the first value once more adds
nothing on what is less deep. -/
theorem mergeAtoms_mergeAtoms_self {n : Nat}
    (ih : ∀ x y : Value, x.depth < n → y.depth < n → x.Canonical → y.Canonical →
      (x.join y).join x = x.join y)
    {v w : Value} (hm : Mergeable v w) (hvn : v.depth ≤ n) (hwn : w.depth ≤ n)
    (hv : v.Canonical) (hw : w.Canonical) :
    mergeAtoms join (mergeAtoms join v w) v = mergeAtoms join v w := by
  cases hm with
  | unit => rfl
  | bool x y => cases x <;> cases y <;> rfl
  | number c kind kind' x y =>
    simp only [mergeAtoms_number]
    congr 2
    by_cases hxy : x = y <;> grind
  | object i => rfl
  | boxed x y vc rc =>
    simp only [mergeAtoms]
    rw [ih x y hvn hwn hv hw]
  | tagged x y c t =>
    simp only [mergeAtoms]
    rw [ih x y hvn hwn hv hw]
  | array i => rfl

/-- The induction behind `Canonical.join_join_self`, on a bound `n` of the depth of both values. -/
theorem join_join_self_of_depth_lt (n : Nat) : ∀ v w : Value, v.depth < n → w.depth < n →
    v.Canonical → w.Canonical → (v.join w).join v = v.join w := by
  induction n with
  | zero => exact fun v w hvn => absurd hvn (Nat.not_lt_zero _)
  | succ n ih =>
    intro v w hvn hwn hv hw
    by_cases hv' : v = noValue
    · rw [hv', noValue_join, join_noValue]
    by_cases hvu : v.isAbsent
    · obtain rfl : v = undefined := (isAbsent_iff.1 hvu).resolve_left hv'
      exact join_undefined (join_ne_noValue hv')
    by_cases hw' : w = noValue
    · rw [hw', join_noValue, join_self]
    by_cases hwu : w.isAbsent
    · obtain rfl : w = undefined := (isAbsent_iff.1 hwu).resolve_left hw'
      rw [join_undefined hv', join_self]
    simp only [Bool.not_eq_true] at hvu hwu
    have hvw := canonical_join hv hw
    have hvw' := isAbsent_join hvu hwu
    refine eq_of_atomOf?_eq (canonical_join hvw hv) hvw (isAbsent_join hvw' hvu) hvw' fun k => ?_
    rw [atomOf?_join hvw hv hvw' hvu, atomOf?_join hv hw hvu hwu]
    cases hx : atomOf? k v.atoms with
    | none => rw [Option.merge_none_right]
    | some x =>
      obtain ⟨hxv, -⟩ := mem_of_atomOf?_eq hx
      cases hy : atomOf? k w.atoms with
      | none => rw [Option.merge_none_right, Option.merge_some_some, mergeAtoms_self]
      | some y =>
        obtain ⟨hyw, -⟩ := mem_of_atomOf?_eq hy
        have hxn := depth_le_of_mem_atoms hxv
        have hyn := depth_le_of_mem_atoms hyw
        rw [Option.merge_some_some, Option.merge_some_some,
          mergeAtoms_mergeAtoms_self ih (mergeable_of_atomOf?_eq hx hy) (by omega) (by omega)
            (hv.of_mem_atoms hxv) (hw.of_mem_atoms hyw)]

/-- Joining `v` once more to a join that begins with `v` adds nothing, even where the numbers
disagree about their kind. -/
theorem Canonical.join_join_self {v w : Value} (hv : v.Canonical) (hw : w.Canonical) :
    (v.join w).join v = v.join w :=
  join_join_self_of_depth_lt (max v.depth w.depth + 1) v w (by omega) (by omega) hv hw

/-- What adds nothing to a canonical value `v` still adds nothing when `v` has grown to `v.join w`.
-/
theorem Canonical.join_eq_of_join_eq {u v w : Value} (hu : u.Canonical) (hv : v.Canonical)
    (hw : w.Canonical) (nothing : v.join u = v) : (v.join w).join u = v.join w := by
  have huw := canonical_join hu hw
  calc (v.join w).join u = ((v.join u).join w).join u := by rw [nothing]
    _ = (v.join (u.join w)).join u := by rw [hv.join_assoc hu hw]
    _ = v.join ((u.join w).join u) := hv.join_assoc huw hu
    _ = v.join (u.join w) := by rw [hu.join_join_self hw]
    _ = (v.join u).join w := (hv.join_assoc hu hw).symm
    _ = v.join w := by rw [nothing]

/-! ### All laws -/

/-- Canonical values whose numbers are of the kinds that one map gives are closed under the join,
which is commutative, associative and idempotent on them. Nothing is its identity, and so is the
undefined value for all values but nothing. -/
theorem join_semilattice (kinds : ClazzId → NumericKind) {a b c : Value}
    (ha : a.Canonical) (hb : b.Canonical) (hc : c.Canonical)
    (ka : a.Coherent kinds) (kb : b.Coherent kinds) (kc : c.Coherent kinds) :
    ((a.join b).Canonical ∧ (a.join b).Coherent kinds) ∧
      a.join b = b.join a ∧
      (a.join b).join c = a.join (b.join c) ∧
      a.join a = a ∧
      noValue.join a = a ∧
      (a ≠ noValue → undefined.join a = a) := by
  have hab : (a.join b).Regular kinds := regular_join ⟨ha, ka⟩ ⟨hb, kb⟩
  exact ⟨⟨hab.canonical, hab.coherent⟩, join_comm ⟨ha, ka⟩ ⟨hb, kb⟩,
    join_assoc ⟨ha, ka⟩ ⟨hb, kb⟩ ⟨hc, kc⟩, join_self a, noValue_join a, undefined_join⟩

/-- The laws of `join_semilattice` for a set with a tagged number, another number under the same
tag, and a box. -/
theorem join_semilattice_tagged :
    let kinds : ClazzId → NumericKind := fun _ => .i32
    let a := set [unit, tagged (number ⟨⟨5⟩, .i32, some 1⟩) ⟨30⟩ 0]
    let b := tagged (number ⟨⟨5⟩, .i32, some 2⟩) ⟨30⟩ 0
    let c := boxed (object ⟨0⟩) ⟨1⟩ ⟨2⟩
    (a.Canonical ∧ b.Canonical ∧ c.Canonical ∧
      a.Coherent kinds ∧ b.Coherent kinds ∧ c.Coherent kinds) ∧
    ((a.join b).Canonical ∧ (a.join b).Coherent kinds) ∧
      a.join b = b.join a ∧
      (a.join b).join c = a.join (b.join c) ∧
      a.join a = a ∧
      noValue.join a = a ∧
      (a ≠ noValue → undefined.join a = a) := by
  intro kinds a b c
  have hc : a.Canonical ∧ b.Canonical ∧ c.Canonical := by decide
  have hk : a.Coherent kinds ∧ b.Coherent kinds ∧ c.Coherent kinds :=
    ⟨⟨trivial, rfl, trivial⟩, rfl, trivial⟩
  exact ⟨⟨hc.1, hc.2.1, hc.2.2, hk.1, hk.2.1, hk.2.2⟩,
    join_semilattice kinds hc.1 hc.2.1 hc.2.2 hk.1 hk.2.1 hk.2.2⟩

end Value

end ClosedWorld
