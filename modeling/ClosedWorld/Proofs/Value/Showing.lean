import ClosedWorld.Proofs.Value.Semilattice

/-!
# What a value shows

What matters of a value here is not which booleans and numbers it can be, but which instances and
arrays are in it, and under which boxes and tags. This is what an analysis follows when it writes a
field, selects a case, or makes a call. A join shows what either of its arguments shows, and nothing
else.

## Main definitions

* `Wrapping`, `Item`: what is around an instance or an array, and the instance or the array.
* `Value.Shows`: an item is in a value, under certain boxes and tags.

## Main statements

* `Value.shows_join`: a join shows what its arguments show.
-/

namespace ClosedWorld

/-- A box or a tag. -/
inductive Wrapping where
  | boxed (valueClazz refClazz : ClazzId)
  | tagged (choice : ClazzId) (tag : Nat)
  deriving DecidableEq, Repr

/-- The value in the box or under the tag. -/
def Wrapping.around : Wrapping → Value → Value
  | .boxed valueClazz refClazz, v => .boxed v valueClazz refClazz
  | .tagged choice tag, v => .tagged v choice tag

/-- An instance or an array. -/
inductive Item where
  | object (id : InstanceId)
  | array (id : ArrayId)
  deriving DecidableEq, Repr

/-- The item as a value. -/
def Item.value : Item → Value
  | .object id => .object id
  | .array id => .array id

/-- The value of an `Item`, an instance or an array, is an atom. -/
theorem Item.isAtom_value (item : Item) : item.value.isAtom = true := by cases item <;> rfl

/-- What a `Wrapping` makes of a content, a box or a tagged value, is an atom. -/
theorem Wrapping.isAtom_around (wrapping : Wrapping) (content : Value) :
    (wrapping.around content).isAtom = true := by
  cases wrapping <;> rfl

/-- Both the `Wrapping` and the content can be read off what it makes of the content. -/
theorem Wrapping.around_inj {wrapping wrapping' : Wrapping} {content content' : Value} :
    wrapping.around content = wrapping'.around content' ↔
      wrapping = wrapping' ∧ content = content' := by
  cases wrapping <;> cases wrapping' <;> simp [Wrapping.around, and_comm, and_left_comm]

namespace Value

/-- Under these boxes and tags, from the outside to the inside, the value has the item. -/
def Shows : (path : List Wrapping) → Item → Value → Prop
  | [], item, v => item.value ∈ v.atoms
  | wrapping :: path, item, v => ∃ content, wrapping.around content ∈ v.atoms ∧ Shows path item content

variable {path : List Wrapping} {wrapping : Wrapping} {item : Item}
  {v w content : Value}

/-! ### Atoms -/

/-- What an atom of a value shows, the value shows. -/
theorem Shows.of_mem_atoms (atom : w.isAtom = true) (hw : w ∈ v.atoms) (h : w.Shows path item) :
    v.Shows path item := by
  have single := atoms_of_isAtom atom
  cases path with
  | nil =>
    have here : item.value ∈ w.atoms := h
    rw [single] at here
    show item.value ∈ v.atoms
    rwa [List.mem_singleton.1 here]
  | cons wrapping path =>
    obtain ⟨content, here, shown⟩ := h
    rw [single] at here
    have same : wrapping.around content = w := List.mem_singleton.1 here
    exact ⟨content, same ▸ hw, shown⟩

/-- What a value shows, one of its atoms shows. -/
theorem Shows.exists_atom (h : v.Shows path item) :
    ∃ a ∈ v.atoms, a.isAtom = true ∧ a.Shows path item := by
  have single {a : Value} (atom : a.isAtom = true) : a ∈ a.atoms := by
    rw [atoms_of_isAtom atom]
    exact List.mem_singleton_self a
  cases path with
  | nil => exact ⟨item.value, h, Item.isAtom_value item, single (Item.isAtom_value item)⟩
  | cons wrapping path =>
    obtain ⟨content, here, shown⟩ := h
    have atom := Wrapping.isAtom_around wrapping content
    exact ⟨wrapping.around content, here, atom, content, single atom, shown⟩

/-- There are neither instances nor arrays in the value, and nothing wraps anything. -/
def isPlain : Value → Bool
  | noValue | undefined | unit | bool _ | number _ => true
  | object _ | boxed .. | tagged .. | array _ | set _ => false

/-- A plain value, such as `unit` or a number, shows nothing. -/
theorem not_shows_of_isPlain (plain : v.isPlain = true) : ¬v.Shows path item := by
  intro h
  cases path with
  | nil =>
    have here : item.value ∈ v.atoms := h
    cases v with
    | noValue | undefined | unit | bool | number =>
      cases item <;> cases List.mem_singleton.1 here
    | _ => cases plain
  | cons wrapping path =>
    obtain ⟨content, here, -⟩ := h
    cases v with
    | noValue | undefined | unit | bool | number =>
      cases wrapping <;> cases List.mem_singleton.1 here
    | _ => cases plain

/-- An absent value shows nothing. -/
theorem not_shows_of_isAbsent (absent : v.isAbsent = true) : ¬v.Shows path item := by
  obtain rfl | rfl := isAbsent_iff.1 absent
  · exact not_shows_of_isPlain rfl
  · exact not_shows_of_isPlain rfl

/-- The value of an `Item` shows it under no wrapping. -/
theorem shows_value (item : Item) : item.value.Shows [] item := by
  show item.value ∈ item.value.atoms
  rw [atoms_of_isAtom (Item.isAtom_value item)]
  exact List.mem_singleton_self _

/-- The value of an `Item` shows nothing but the item. -/
theorem Shows.of_value (item : Item) {item' : Item} (h : item.value.Shows path item') :
    path = [] ∧ item' = item := by
  cases path with
  | nil =>
    have here : item'.value ∈ item.value.atoms := h
    rw [atoms_of_isAtom (Item.isAtom_value item)] at here
    refine ⟨rfl, ?_⟩
    cases item <;> cases item' <;> cases List.mem_singleton.1 here <;> rfl
  | cons wrapping path =>
    obtain ⟨content, here, -⟩ := h
    rw [atoms_of_isAtom (Item.isAtom_value item)] at here
    cases item <;> cases wrapping <;> cases List.mem_singleton.1 here

/-- What a value shows is shown by what is `around` it, under one more wrapping. -/
theorem Shows.around (wrapping : Wrapping) (h : v.Shows path item) :
    (wrapping.around v).Shows (wrapping :: path) item := by
  refine ⟨v, ?_, h⟩
  rw [atoms_of_isAtom (Wrapping.isAtom_around wrapping v)]
  exact List.mem_singleton_self _

/-- What is shown by something `around` a value is shown by the value, under one wrapping less. -/
theorem Shows.of_around (wrapping : Wrapping) (h : (wrapping.around v).Shows path item) :
    ∃ rest, path = wrapping :: rest ∧ v.Shows rest item := by
  cases path with
  | nil =>
    have here : item.value ∈ (wrapping.around v).atoms := h
    rw [atoms_of_isAtom (Wrapping.isAtom_around wrapping v)] at here
    cases item <;> cases wrapping <;> cases List.mem_singleton.1 here
  | cons wrapping' path =>
    obtain ⟨content, here, shown⟩ := h
    rw [atoms_of_isAtom (Wrapping.isAtom_around wrapping v)] at here
    obtain ⟨rfl, rfl⟩ := Wrapping.around_inj.1 (List.mem_singleton.1 here)
    exact ⟨path, rfl, shown⟩

/-- An atom that shows something is an instance, an array, or a box or a tag `around` something that
shows it. -/
theorem Shows.of_isAtom (atom : v.isAtom = true) (h : v.Shows path item) :
    path = [] ∧ v = item.value ∨ ∃ wrapping rest content, path = wrapping :: rest ∧
      v = wrapping.around content ∧ content.Shows rest item := by
  have single := atoms_of_isAtom atom
  cases path with
  | nil =>
    have here : item.value ∈ v.atoms := h
    rw [single] at here
    exact .inl ⟨rfl, (List.mem_singleton.1 here).symm⟩
  | cons wrapping path =>
    obtain ⟨content, here, shown⟩ := h
    rw [single] at here
    exact .inr ⟨wrapping, path, content, rfl, (List.mem_singleton.1 here).symm, shown⟩

/-! ### What a join shows -/

/-- An absent value adds nothing on the left of a join. -/
theorem join_of_isAbsent (absent : v.isAbsent = true) (there : w ≠ noValue) : v.join w = w := by
  rcases isAbsent_iff.1 absent with rfl | rfl
  · exact noValue_join w
  · exact undefined_join there

/-- An absent value adds nothing on the right of a join. -/
theorem join_of_isAbsent' (absent : w.isAbsent = true) (there : v ≠ noValue) : v.join w = v := by
  rcases isAbsent_iff.1 absent with rfl | rfl
  · exact join_noValue v
  · exact join_undefined there

/-- What is `around` a value shows what the value shows, under one more wrapping. -/
theorem shows_around {wrapping : Wrapping} : (wrapping.around v).Shows path item ↔
    ∃ rest, path = wrapping :: rest ∧ v.Shows rest item := by
  constructor
  · exact Shows.of_around wrapping
  · rintro ⟨rest, rfl, shown⟩
    exact shown.around wrapping

/-- Joins inside show what their arguments show. -/
def InnerShows (path : List Wrapping) (item : Item) : Prop :=
  ∀ wrapping rest, path = wrapping :: rest → ∀ x y : Value,
    (x.join y).Shows rest item ↔ x.Shows rest item ∨ y.Shows rest item

/-- A plain atom is merged to a plain atom. -/
theorem isPlain_mergeAtoms (plain : v.isPlain = true) :
    (mergeAtoms join v w).isPlain = true := by
  unfold mergeAtoms
  split
  · split <;> rfl
  · split <;> rfl
  · cases plain
  · cases plain
  · exact plain

/-- What two atoms with one merge key show, the atom that `mergeAtoms` makes of them shows, provided
the joins of their contents do the same (`inner`). -/
theorem shows_mergeAtoms (inner : InnerShows path item) (key : v.mergeKey? = w.mergeKey?)
    (atom : v.isAtom = true) :
    (mergeAtoms join v w).Shows path item ↔ v.Shows path item ∨ w.Shows path item := by
  -- A merge joins what is in boxes and tags, so both sides show the same path up to there.
  have wrapped (wrapping : Wrapping) (x y : Value) :
      (wrapping.around (x.join y)).Shows path item ↔
        (wrapping.around x).Shows path item ∨ (wrapping.around y).Shows path item := by
    simp only [shows_around]
    constructor
    · rintro ⟨rest, rfl, shown⟩
      exact ((inner wrapping rest rfl x y).1 shown).imp (⟨rest, rfl, ·⟩) (⟨rest, rfl, ·⟩)
    · rintro (⟨rest, rfl, shown⟩ | ⟨rest, rfl, shown⟩)
      · exact ⟨rest, rfl, (inner wrapping rest rfl x y).2 (.inl shown)⟩
      · exact ⟨rest, rfl, (inner wrapping rest rfl x y).2 (.inr shown)⟩
  cases v with
  | boxed x valueClazz refClazz =>
    cases w with
    | boxed y valueClazz' refClazz' =>
      obtain ⟨rfl, rfl⟩ : valueClazz = valueClazz' ∧ refClazz = refClazz' := by
        simpa [mergeKey?] using key
      exact wrapped (.boxed valueClazz refClazz) x y
    | _ => cases key
  | tagged x choice tag =>
    cases w with
    | tagged y choice' tag' =>
      obtain ⟨rfl, rfl⟩ : choice = choice' ∧ tag = tag' := by simpa [mergeKey?] using key
      exact wrapped (.tagged choice tag) x y
    | _ => cases key
  | object id =>
    cases w with
    | object id' =>
      obtain rfl : id = id' := by simpa [mergeKey?] using key
      exact (or_self_iff).symm
    | _ => cases key
  | array id =>
    cases w with
    | array id' =>
      obtain rfl : id = id' := by simpa [mergeKey?] using key
      exact (or_self_iff).symm
    | _ => cases key
  | unit | bool | number =>
    cases w with
    | unit | bool | number =>
      refine iff_of_false (not_shows_of_isPlain (isPlain_mergeAtoms rfl)) ?_
      rintro (h | h)
      · exact not_shows_of_isPlain rfl h
      · exact not_shows_of_isPlain rfl h
    | _ => cases key
  | noValue | undefined | set members => cases atom

variable {vs : List Value} {P : Value → Prop}

/-- If merging keeps a property `P` of the atoms together, then one of the atoms that `absorb` gives
has it just if the new one or one of the old ones does. -/
theorem exists_mem_absorb (merge : ∀ w : Value, w.mergeKey? = v.mergeKey? →
      (P (mergeAtoms join w v) ↔ P w ∨ P v)) :
    (∃ a ∈ absorb join v vs, P a) ↔ P v ∨ ∃ a ∈ vs, P a := by
  induction vs with
  | nil => simp [absorb]
  | cons w vs ih =>
    unfold absorb
    rw [List.exists_mem_cons_iff]
    split
    · rename_i key
      rw [List.exists_mem_cons_iff, merge w key, or_assoc, or_left_comm]
    · rw [List.exists_mem_cons_iff, ih, or_left_comm]

/-- If merging keeps a property `P` of the atoms together, then one of the atoms that `mergeAll`
gives has it just if one of those it was given does. -/
theorem exists_mem_mergeAll (merge : ∀ v w : Value, v.mergeKey? = w.mergeKey? →
      (P (mergeAtoms join v w) ↔ P v ∨ P w)) :
    (∃ a ∈ mergeAll join vs, P a) ↔ ∃ a ∈ vs, a.isAtom = true ∧ P a := by
  have merged (vs merged : List Value) :
      (∃ a ∈ vs.foldl (fun merged v => absorb join v merged) merged, P a) ↔
        (∃ a ∈ merged, P a) ∨ ∃ a ∈ vs, P a := by
    induction vs generalizing merged with
    | nil => simp
    | cons v vs ih =>
      rw [List.foldl_cons, ih, exists_mem_absorb fun w key => merge w v key,
        List.exists_mem_cons_iff, or_assoc, or_left_comm]
  unfold mergeAll
  rw [merged]
  simp [List.mem_filter, isAtom_iff, and_assoc]

/-- One step of the induction behind `shows_join`: the contents of boxes and tags are treated by
`inner`. -/
theorem shows_join_of_inner (inner : InnerShows path item) :
    (v.join w).Shows path item ↔ v.Shows path item ∨ w.Shows path item := by
  have absent {x : Value} (absent : x.isAbsent = true) : x.Shows path item ↔ False :=
    iff_false_intro (not_shows_of_isAbsent absent)
  by_cases hv : v.isAbsent = true
  · by_cases there : w = noValue
    · rw [there, join_noValue, absent (x := noValue) rfl, or_false]
    · rw [join_of_isAbsent hv there, absent hv, false_or]
  by_cases hw : w.isAbsent = true
  · by_cases there : v = noValue
    · rw [there] at hv
      exact absurd rfl hv
    · rw [join_of_isAbsent' hw there, absent hw, or_false]
  by_cases same : v = w
  · rw [same, join_self, or_self_iff]
  have merge (v w : Value) (key : v.mergeKey? = w.mergeKey?) :
      (mergeAtoms join v w).isAtom = true ∧ (mergeAtoms join v w).Shows path item ↔
        (v.isAtom = true ∧ v.Shows path item) ∨ w.isAtom = true ∧ w.Shows path item := by
    have atom : w.isAtom = v.isAtom := by
      rw [Bool.eq_iff_iff, isAtom_iff, isAtom_iff, key]
    have atom' : (mergeAtoms join v w).isAtom = v.isAtom := by
      rw [Bool.eq_iff_iff, isAtom_iff, isAtom_iff, mergeKey?_mergeAtoms]
    rw [atom, atom', ← and_or_left]
    exact and_congr_right fun atom => shows_mergeAtoms inner key atom
  have shown (x : Value) :
      x.Shows path item ↔ ∃ a ∈ x.atoms, a.isAtom = true ∧ a.Shows path item :=
    ⟨Shows.exists_atom, fun ⟨_, ha, atom, h⟩ => h.of_mem_atoms atom ha⟩
  rw [join_eq_ofAtoms (by simpa using hv) (by simpa using hw) same, shown, shown v, shown w]
  simp only [(atoms_ofAtoms_perm (differentAtoms_mergeAll (v.atoms ++ w.atoms))).mem_iff]
  rw [exists_mem_mergeAll merge]
  simp only [and_self_left, List.mem_append, or_and_right, exists_or]

/-- A join shows what its arguments show, and nothing else. -/
theorem shows_join : (v.join w).Shows path item ↔ v.Shows path item ∨ w.Shows path item := by
  -- What is inside of boxes and tags is joined as well, and its path is shorter.
  induction path generalizing v w with
  | nil => exact shows_join_of_inner (by rintro _ _ ⟨⟩)
  | cons wrapping path ih =>
    refine shows_join_of_inner ?_
    rintro _ _ ⟨⟩ x y
    exact ih

/-- The join of several values, one after the other, shows what they show. -/
theorem shows_joinAll {sofar : Value} :
    (vs.foldl join sofar).Shows path item ↔ sofar.Shows path item ∨ ∃ v ∈ vs, v.Shows path item := by
  induction vs generalizing sofar with
  | nil => simp
  | cons v vs ih => rw [List.foldl_cons, ih, shows_join, List.exists_mem_cons_iff, or_assoc]

end Value

end ClosedWorld
