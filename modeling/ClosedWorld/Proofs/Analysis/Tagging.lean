import ClosedWorld.Proofs.Analysis.Accesses
import ClosedWorld.Proofs.Value.Atomwise

/-!
# Tagging for fields

A value that is written into a field whose type is a choice is tagged atom by atom. How an atom is
tagged depends on its clazz, and the clazz can be told from the merge key: so atoms that are merged
are tagged in the same way, and it does not matter whether values are tagged before or after they
are joined. An atom that has been tagged for the choice is not tagged for it again.

## Main definitions

* `Setting.clazzOfKey?`, `Setting.tagOfKey?`: how atoms with a merge key are tagged.
* `Setting.taggedFor`, `Setting.tagAll`: a tagged atom, and a value with all its atoms tagged.

## Main statements

* `Setting.retagAtom_eq`, `Setting.retag_eq`: tagging is a function of the merge keys.
* `Setting.distributive_taggedFor`: merged atoms are tagged as their parts are.
* `Setting.tagAll_tagAll`: tagging twice.
* `Setting.exists_tagged_mem_tagAll`, `Setting.mem_tagAll_of_none`: what becomes of an atom.
* `Setting.retag_laws`: tagging is idempotent, distributes over joins and is monotone.
-/

namespace ClosedWorld

namespace Setting

open Value

variable {g : Setting} {s : Store} {kinds : ClazzId → NumericKind} {choice : ClazzId}
  {v w a x y z : Value}

/-! ### Atoms -/

variable (g s) in
/-- The clazz of the atoms with a merge key. -/
def clazzOfKey? : MergeKey → Option ClazzId
  | .object id => (s.instances.key? id).map (·.clazz)
  | .number clazz => some clazz
  | .boxed _ refClazz => some refClazz
  | .tagged choice _ => some choice
  | .unit => g.view.specialClazz? .unit
  | .bool => g.view.specialClazz? .bool
  | .array _ => none

variable (g s choice) in
/-- The tag that atoms with a merge key are given for a choice, unless they have one already. -/
def tagOfKey? : MergeKey → Option Nat
  | .tagged choice' tag =>
    if choice' = choice then none
    else (g.clazzOfKey? s (.tagged choice' tag)).bind (g.view.choiceTag? choice)
  | key => (g.clazzOfKey? s key).bind (g.view.choiceTag? choice)

/-- An atom whose merge key is not that of a tag for the choice is tagged according to its clazz. -/
theorem tagOfKey?_of_ne {key : MergeKey} (fresh : ∀ tag, key ≠ .tagged choice tag) :
    g.tagOfKey? s choice key = (g.clazzOfKey? s key).bind (g.view.choiceTag? choice) := by
  unfold tagOfKey?
  split
  · rename_i choice' tag
    rw [if_neg]
    rintro rfl
    exact fresh tag rfl
  · rfl

variable (g s choice) in
/-- The atom with the tag that it is given for a choice, if it is given one. -/
def taggedFor (a : Value) : Value :=
  ((a.mergeKey?.bind (g.tagOfKey? s choice)).map (.tagged a choice)).getD a

/-- The clazz of an atom is told by its merge key, if the instances are known. -/
theorem clazzOf?_eq (known : ∀ id, a = .object id → id ∈ s.instances.ids) :
    g.clazzOf? s a = .ok (a.mergeKey?.bind (g.clazzOfKey? s)) := by
  unfold clazzOf?
  split
  · rename_i id
    obtain ⟨key, held⟩ := Interned.mem_ids.1 (known id rfl)
    simp [Store.instanceKey, held, mergeKey?, clazzOfKey?, bind, Except.bind, pure, Except.pure]
  all_goals try rfl
  cases a <;> simp_all [mergeKey?, clazzOfKey?, pure, Except.pure]

/-- An atom whose merge key is that of a tag for the choice has this tag. -/
theorem eq_tagged_of_mergeKey? {tag : Nat} (h : a.mergeKey? = some (.tagged choice tag)) :
    ∃ content, a = .tagged content choice tag := by
  cases a <;> simp_all [mergeKey?]

/-- For an atom that is not tagged for the choice, the tag depends on nothing but the clazz. -/
theorem bind_tagOfKey? (fresh : ∀ content tag, a ≠ .tagged content choice tag) :
    a.mergeKey?.bind (g.tagOfKey? s choice) =
      (a.mergeKey?.bind (g.clazzOfKey? s)).bind (g.view.choiceTag? choice) := by
  rw [Option.bind_assoc]
  apply Option.bind_congr
  intro key hk
  refine tagOfKey?_of_ne ?_
  rintro tag rfl
  obtain ⟨content, same⟩ := eq_tagged_of_mergeKey? hk
  exact fresh content tag same

/-- How an atom is tagged is told by its merge key. -/
theorem retagAtom_eq (known : ∀ id, a = .object id → id ∈ s.instances.ids) :
    g.retagAtom s choice a = .ok (g.taggedFor s choice a) := by
  by_cases already : ∃ content tag, a = .tagged content choice tag
  · obtain ⟨content, tag, rfl⟩ := already
    rw [retagAtom_of_tagged]
    simp [taggedFor, mergeKey?, tagOfKey?]
  · have fresh : ∀ content tag, a ≠ .tagged content choice tag := fun content tag same =>
      already ⟨content, tag, same⟩
    rw [retagAtom_of_ne fresh, clazzOf?_eq known]
    unfold taggedFor
    rw [bind_tagOfKey? fresh]
    rfl

/-- An atom that no tag is found for is left as it is. -/
theorem taggedFor_of_none (h : a.mergeKey?.bind (g.tagOfKey? s choice) = none) :
    g.taggedFor s choice a = a := by
  simp [taggedFor, h]

/-- An atom that a `tag` is found for is put under it. -/
theorem taggedFor_of_some {tag : Nat} (h : a.mergeKey?.bind (g.tagOfKey? s choice) = some tag) :
    g.taggedFor s choice a = .tagged a choice tag := by
  simp [taggedFor, h]

/-- Absent atoms have no merge key, so they are left as they are. -/
theorem taggedFor_of_isAbsent (absent : a.isAbsent) : g.taggedFor s choice a = a := by
  obtain rfl | rfl := isAbsent_iff.1 absent <;> rfl

/-- A tagged atom is regular if the atom is. -/
theorem regular_taggedFor (ha : a.Regular kinds) : (g.taggedFor s choice a).Regular kinds := by
  cases h : a.mergeKey?.bind (g.tagOfKey? s choice) with
  | none => rwa [taggedFor_of_none h]
  | some tag =>
    rw [taggedFor_of_some h]
    exact ⟨ha.canonical, ha.coherent⟩

/-- Merged atoms are tagged as their parts are. -/
theorem distributive_taggedFor : Distributive kinds fun a => [g.taggedFor s choice a] where
  regular ha b hb := List.mem_singleton.1 hb ▸ regular_taggedFor ha
  noValue := rfl
  undefined {a} ha some_value := by
    rw [joinAll_singleton, joinAll_singleton, taggedFor_of_isAbsent rfl, undefined_below_iff]
    cases h : a.mergeKey?.bind (g.tagOfKey? s choice) with
    | none => rwa [taggedFor_of_none h]
    | some tag =>
      rw [taggedFor_of_some h]
      exact nofun
  merged {y z x} _ _ into := by
    obtain ⟨hy, hz⟩ := into.mergeKey?_eq
    rw [List.singleton_append, joinAll_singleton, joinAll_pair]
    cases h : x.mergeKey?.bind (g.tagOfKey? s choice) with
    | none =>
      rw [taggedFor_of_none h, taggedFor_of_none (hy ▸ h), taggedFor_of_none (hz ▸ h)]
      exact into.join_eq.symm
    | some tag =>
      rw [taggedFor_of_some h, taggedFor_of_some (hy ▸ h), taggedFor_of_some (hz ▸ h),
        tagged_join_tagged, into.join_eq]

/-! ### Values -/

variable (g s choice) in
/-- The value with all its atoms tagged for a choice. -/
def tagAll (v : Value) : Value := gather (fun a => [g.taggedFor s choice a]) v

/-- Tagging the atoms of a value does not fail where the instances are known, and joins the tagged
atoms to what there is. -/
theorem retagAtoms_eq {atoms : List Value}
    (known : ∀ id, .object id ∈ atoms → id ∈ s.instances.ids) (sofar : Value) :
    g.retagAtoms s choice sofar atoms =
      .ok ((atoms.flatMap fun a => [g.taggedFor s choice a]).foldl join sofar) := by
  induction atoms generalizing sofar with
  | nil => rfl
  | cons a rest ih =>
    have here : g.retagAtom s choice a = .ok (g.taggedFor s choice a) :=
      retagAtom_eq fun id same => known id (same ▸ List.mem_cons_self)
    unfold retagAtoms
    rw [here]
    exact ih (fun id listed => known id (List.mem_cons_of_mem _ listed)) _

variable (g) in
/-- The choice that values of a field are tagged for. -/
def choiceOf? (field : ClazzId) : Option ClazzId :=
  (g.view.info field).result.filter fun choice => g.view.isChoice choice && !g.view.isBool choice

/-- A value is tagged atom by atom, or stays as it is. -/
theorem retag_eq (field : ClazzId) (known : ∀ id, .object id ∈ v.atoms → id ∈ s.instances.ids) :
    g.retag s field v = .ok ((g.choiceOf? field).elim v fun choice => g.tagAll s choice v) := by
  unfold retag choiceOf?
  cases (g.view.info field).result with
  | none => rfl
  | some choice =>
    by_cases h : g.view.isChoice choice && !g.view.isBool choice
    · simp only [h, if_true, Option.filter_some]
      exact retagAtoms_eq known _
    · simp only [h, Bool.false_eq_true, if_false, Option.filter_some]
      rfl

/-- A tagged value is regular if the value is. -/
theorem regular_tagAll (hv : v.Regular kinds) : (g.tagAll s choice v).Regular kinds :=
  distributive_taggedFor.regular_gather hv

/-- Tagging distributes over joins. -/
theorem tagAll_join (hv : v.Regular kinds) (hw : w.Regular kinds) :
    g.tagAll s choice (v.join w) = (g.tagAll s choice v).join (g.tagAll s choice w) :=
  distributive_taggedFor.gather_join hv hw

/-- Tagging is monotone. -/
theorem tagAll_below (hv : v.Regular kinds) (hw : w.Regular kinds) (below : v.Below w) :
    (g.tagAll s choice v).Below (g.tagAll s choice w) :=
  distributive_taggedFor.gather_below hv hw below

/-- A tagged value is above each of its tagged atoms. -/
theorem taggedFor_below_tagAll (hv : v.Regular kinds) (ha : a ∈ v.atoms) :
    (g.taggedFor s choice a).Below (g.tagAll s choice v) := by
  have below : (joinAll [g.taggedFor s choice a]).Below (g.tagAll s choice v) :=
    distributive_taggedFor.joinAll_below_gather hv ha
  rwa [joinAll_singleton] at below

/-- The atoms of a tagged value are atoms that stay what they are, atoms with a tag, and what is
merged from these. -/
theorem forall_mem_atoms_tagAll {P : Value → Prop} (hv : v.Regular kinds)
    (merged : ∀ {y z x}, MergedFrom y z x → P y → P z → P x)
    (kept : ∀ a ∈ v.atoms, a.mergeKey?.bind (g.tagOfKey? s choice) = none → P a)
    (given : ∀ a ∈ v.atoms, ∀ tag, a.mergeKey?.bind (g.tagOfKey? s choice) = some tag →
      P (.tagged a choice tag)) :
    ∀ x ∈ (g.tagAll s choice v).atoms, P x := by
  refine forall_mem_atoms_joinAll merged (distributive_taggedFor.regular_flatMap hv) ?_ ?_
  · simpa using List.exists_mem_of_ne_nil _ hv.canonical.atoms_ne_nil
  · simp only [List.mem_flatMap, List.mem_singleton, forall_exists_index, and_imp]
    rintro _ a ha rfl x hx
    cases h : a.mergeKey?.bind (g.tagOfKey? s choice) with
    | none =>
      rw [taggedFor_of_none h, hv.canonical.atoms_of_mem_atoms ha] at hx
      exact List.mem_singleton.1 hx ▸ kept a ha h
    | some tag =>
      rw [taggedFor_of_some h] at hx
      exact List.mem_singleton.1 hx ▸ given a ha tag h

/-- A tagged value is not tagged again. -/
theorem tagAll_tagAll (hv : v.Regular kinds) :
    g.tagAll s choice (g.tagAll s choice v) = g.tagAll s choice v := by
  have stable : ∀ x ∈ (g.tagAll s choice v).atoms,
      x.mergeKey?.bind (g.tagOfKey? s choice) = none := by
    refine forall_mem_atoms_tagAll hv (fun into hy _ => ?_) (fun a _ h => h) fun a _ tag _ => ?_
    · rwa [into.mergeKey?_eq.1] at hy
    · simp [mergeKey?, tagOfKey?]
  have regular : (g.tagAll s choice v).Regular kinds := regular_tagAll hv
  set w := g.tagAll s choice v
  calc g.tagAll s choice w = joinAll (w.atoms.flatMap fun a => [a]) := by
        unfold tagAll gather
        rw [List.flatMap_congr fun a ha => by rw [taggedFor_of_none (stable a ha)]]
    _ = joinAll w.atoms := by rw [List.flatMap_singleton']
    _ = w := regular.canonical.joinAll_atoms

/-- Tagging makes no instances. -/
theorem object_mem_of_tagAll (hv : v.Regular kinds) {id : InstanceId}
    (h : .object id ∈ (g.tagAll s choice v).atoms) : .object id ∈ v.atoms := by
  have all : ∀ x ∈ (g.tagAll s choice v).atoms, x = .object id → .object id ∈ v.atoms := by
    refine forall_mem_atoms_tagAll hv (fun into _ _ same => ?_) (fun a ha _ same => same ▸ ha) ?_
    · subst same
      cases into
    · exact fun _ _ _ _ => nofun
  exact all _ h rfl

/-- An atom that is given a tag is found inside this tag. -/
theorem exists_tagged_mem_tagAll (hv : v.Regular kinds) (ha : a ∈ v.atoms) {tag : Nat}
    (given : a.mergeKey?.bind (g.tagOfKey? s choice) = some tag) :
    ∃ content, .tagged content choice tag ∈ (g.tagAll s choice v).atoms ∧ a.Below content := by
  have below : (g.taggedFor s choice a).Below (g.tagAll s choice v) := taggedFor_below_tagAll hv ha
  rw [taggedFor_of_some given] at below
  exact exists_tagged_of_below (v := .tagged a choice tag) (hv.of_mem_atoms ha).canonical
    (regular_tagAll hv).canonical below (List.mem_singleton_self _)

/-- An atom that is given no tag stays what it is. -/
theorem mem_tagAll_of_none (hv : v.Regular kinds) (ha : a ∈ v.atoms)
    (fresh : ∀ content tag, a ≠ .tagged content choice tag)
    (none_given : a.mergeKey?.bind (g.tagOfKey? s choice) = none) :
    a ∈ (g.tagAll s choice v).atoms := by
  by_cases absent : a.isAbsent
  · rw [← hv.canonical.eq_of_mem_atoms_of_isAbsent ha absent]
    obtain rfl | rfl := isAbsent_iff.1 absent
    all_goals exact List.mem_singleton_self _
  have present : v.isAbsent = false := by
    by_contra h
    obtain rfl | rfl := isAbsent_iff.1 (Bool.not_eq_false _ ▸ h)
    all_goals exact absent (List.mem_singleton.1 ha ▸ rfl)
  have different := hv.canonical.differentAtoms present
  -- nothing else that is joined has the merge key of the atom
  have only : ∀ x ∈ (g.tagAll s choice v).atoms, x.mergeKey? = a.mergeKey? → x = a := by
    refine forall_mem_atoms_tagAll hv (fun into hy hz key => ?_) (fun b hb _ key => ?_)
      fun b _ tag _ key => ?_
    · obtain ⟨ykey, zkey⟩ := into.mergeKey?_eq
      exact absurd ((hy (ykey.trans key)).trans (hz (zkey.trans key)).symm) into.ne
    · exact List.inj_on_of_nodup_map different.keys_nodup hb ha key
    · obtain ⟨content, same⟩ := eq_tagged_of_mergeKey? key.symm
      exact absurd same (fresh content tag)
  have below : (g.taggedFor s choice a).Below (g.tagAll s choice v) := taggedFor_below_tagAll hv ha
  rw [taggedFor_of_none none_given] at below
  obtain ⟨k, hk⟩ := Option.isSome_iff_exists.1 (isAtom_iff.1 (different.isAtom a ha))
  have single := hv.canonical.atoms_of_mem_atoms ha
  obtain ⟨x, hx, key, -⟩ := exists_mergeAtoms_eq_of_join_eq (hv.of_mem_atoms ha).canonical
    (regular_tagAll hv).canonical (below_iff.1 below) (single ▸ List.mem_singleton_self a) hk
  rw [only x hx (key.trans hk.symm)] at hx
  exact hx

/-! ### All of it -/

/-- The tag of a clazz is its first position among the alternatives of the choice. -/
theorem choiceTag?_eq_some {clazz : ClazzId} {tag : Nat}
    (here : (g.view.info choice).generics[tag]? = some clazz)
    (first : ∀ earlier < tag, (g.view.info choice).generics[earlier]? ≠ some clazz) :
    g.view.choiceTag? choice clazz = some tag := by
  unfold Program.choiceTag?
  rw [List.findIdx?_eq_some_iff_getElem]
  obtain ⟨bound, at_tag⟩ := List.getElem?_eq_some_iff.1 here
  refine ⟨bound, decide_eq_true at_tag, fun j before same => first j before ?_⟩
  rw [List.getElem?_eq_getElem (before.trans bound), of_decide_eq_true same]

/-- A clazz that is not among the alternatives of the choice has no tag. -/
theorem choiceTag?_eq_none {clazz : ClazzId} (h : clazz ∉ (g.view.info choice).generics) :
    g.view.choiceTag? choice clazz = none := by
  unfold Program.choiceTag?
  rw [List.findIdx?_eq_none_iff]
  intro other listed
  simp only [decide_eq_false_iff_not]
  rintro rfl
  exact h listed

/-- An instance in a join is in one of its sides, since instances are not merged. -/
theorem object_mem_of_join (hv : v.Regular kinds) (hw : w.Regular kinds) {id : InstanceId}
    (h : .object id ∈ (v.join w).atoms) : .object id ∈ v.atoms ∨ .object id ∈ w.atoms := by
  rcases mem_atoms_join hv hw h with h | h | ⟨_, _, _, _, into⟩
  · exact .inl h
  · exact .inr h
  · cases into

/-- Tagging for a field does not fail where the instances are known. It is idempotent, distributes
over joins and is monotone. If the type of the field is a choice other than the booleans, then an
atom that has not been tagged for it ends up inside the tag that is the first position of its clazz
among the alternatives, and stays what it is if its clazz is not among them. -/
theorem retag_laws (kinds : ClazzId → NumericKind) (g : Setting) (s : Store) (field : ClazzId)
    {v w : Value} (hv : v.Canonical) (hw : w.Canonical) (kv : v.Coherent kinds)
    (kw : w.Coherent kinds)
    (known : ∀ id, .object id ∈ v.atoms ∨ .object id ∈ w.atoms → id ∈ s.instances.ids) :
    ∃ v' w', g.retag s field v = .ok v' ∧ g.retag s field w = .ok w' ∧
      g.retag s field v' = .ok v' ∧
      g.retag s field (v.join w) = .ok (v'.join w') ∧
      (v.Below w → v'.Below w') ∧
      ∀ choice, (g.view.info field).result = some choice → g.view.isChoice choice = true →
        g.view.isBool choice = false →
        ∀ a ∈ v.atoms, (∀ content tag, a ≠ .tagged content choice tag) →
          ∃ clazz, g.clazzOf? s a = .ok clazz ∧
            (∀ c tag, clazz = some c → (g.view.info choice).generics[tag]? = some c →
              (∀ earlier < tag, (g.view.info choice).generics[earlier]? ≠ some c) →
              ∃ content, .tagged content choice tag ∈ v'.atoms ∧ a.Below content) ∧
            ((∀ c, clazz = some c → c ∉ (g.view.info choice).generics) → a ∈ v'.atoms) := by
  have rv : v.Regular kinds := ⟨hv, kv⟩
  have rw' : w.Regular kinds := ⟨hw, kw⟩
  have knownV : ∀ id, .object id ∈ v.atoms → id ∈ s.instances.ids := fun id h => known id (.inl h)
  have knownW : ∀ id, .object id ∈ w.atoms → id ∈ s.instances.ids := fun id h => known id (.inr h)
  -- Where the instances are known, tagging is a function of the merge keys, and the laws are those
  -- of `tagAll`.
  rw [retag_eq field knownV, retag_eq field knownW,
    retag_eq field fun id h => known id (object_mem_of_join rv rw' h)]
  refine ⟨_, _, rfl, rfl, ?_⟩
  cases tagged : g.choiceOf? field with
  | none =>
    refine ⟨?_, rfl, id, ?_⟩
    · rw [Option.elim_none, retag_eq field knownV, tagged, Option.elim_none]
    · intro choice typed isChoice notBool
      simp [choiceOf?, typed, isChoice, notBool] at tagged
  | some choice =>
    simp only [Option.elim_some]
    refine ⟨?_, ?_, tagAll_below rv rw', ?_⟩
    · rw [retag_eq field fun id h => knownV id (object_mem_of_tagAll rv h), tagged,
        Option.elim_some, tagAll_tagAll rv]
    · rw [tagAll_join rv rw']
    · intro choice' typed isChoice notBool a ha fresh
      obtain ⟨rfl, -⟩ : choice' = choice ∧ g.view.isChoice choice ∧ ¬ g.view.isBool choice := by
        simpa [choiceOf?, typed] using tagged
      have tag := bind_tagOfKey? (g := g) (s := s) fresh
      refine ⟨_, clazzOf?_eq fun id same => knownV id (same ▸ ha), ?_, ?_⟩
      · intro c tag' hc here first
        rw [hc, Option.bind_some, choiceTag?_eq_some here first] at tag
        exact exists_tagged_mem_tagAll rv ha tag
      · intro none_listed
        refine mem_tagAll_of_none rv ha fresh (tag.trans (Option.bind_eq_none_iff.2 ?_))
        exact fun c hc => choiceTag?_eq_none (none_listed c hc)

/-- A field for a unit or a number, and an instance that is neither. -/
theorem retag_laws_mixed :
    let program : Program := {
      clazzes := [("unit", { kind := .routine, special := some .unit, needsCode := false }),
        ("i32", { kind := .routine, special := some (.numeric .i32), needsCode := false }),
        ("option", { kind := .choice, generics := [⟨0⟩, ⟨1⟩], needsCode := false }),
        ("main", { kind := .routine, code := some ⟨0⟩ }),
        ("main.f", { kind := .field, outer := some ⟨3⟩, result := some ⟨2⟩, needsCode := false })]
      blocks := [[]]
      main := ⟨3⟩
      constString := none }
    let g : Setting := { view := program.view }
    let s := ((Store.internInstance ⟨3⟩ none).run {}).2
    let v : Value := .set [.unit, .tagged (.number ⟨⟨1⟩, .i32, some 1⟩) ⟨2⟩ 1]
    let w : Value := .set [.number ⟨⟨1⟩, .i32, some 2⟩, .object ⟨0⟩]
    (v.Canonical ∧ w.Canonical ∧ v.Coherent (fun _ => .i32) ∧ w.Coherent (fun _ => .i32) ∧
        ∀ id, .object id ∈ v.atoms ∨ .object id ∈ w.atoms → id ∈ s.instances.ids) ∧
      g.retag s ⟨4⟩ (v.join w) = .ok (.set [.object ⟨0⟩, .tagged .unit ⟨2⟩ 0,
        .tagged (.number (.any ⟨1⟩ .i32)) ⟨2⟩ 1]) ∧
      ∃ v' w', g.retag s ⟨4⟩ v = .ok v' ∧ g.retag s ⟨4⟩ w = .ok w' ∧
        g.retag s ⟨4⟩ v' = .ok v' ∧ g.retag s ⟨4⟩ (v.join w) = .ok (v'.join w') := by
  intro program g s v w
  have hv : v.Canonical := by decide
  have hw : w.Canonical := by decide
  have kv : v.Coherent fun _ => .i32 := ⟨trivial, rfl, trivial⟩
  have kw : w.Coherent fun _ => .i32 := ⟨rfl, trivial, trivial⟩
  have known : ∀ id, .object id ∈ v.atoms ∨ .object id ∈ w.atoms → id ∈ s.instances.ids := by
    intro id h
    obtain rfl : id = ⟨0⟩ := by simpa [v, w, atoms] using h
    decide
  obtain ⟨v', w', taggedV, taggedW, again, joined, -⟩ :=
    retag_laws (fun _ => .i32) g s ⟨4⟩ hv hw kv kw known
  exact ⟨⟨hv, hw, kv, kw, known⟩, by decide +kernel, v', w', taggedV, taggedW, again, joined⟩

end Setting

end ClosedWorld
