import ClosedWorld.Analysis.Transfer
import ClosedWorld.Proofs.Store.Boxing
import ClosedWorld.Proofs.Store.Reading
import ClosedWorld.Proofs.Value.Showing

/-!
# Boxes keep what they wrap

A value is boxed atom by atom. An instance becomes the instance of the reference clazz into which
its fields are copied; what is neither an instance nor absent is wrapped, and all that is wrapped
ends up in one box.

Boxing changes only the instances that are copied into. What was copied into an instance first adds
nothing to its fields any more, but this does not always mean that it is below: where two instances
with numbers of different kinds are boxed into one, the first number sets the kind.

## Main definitions

* `BoxesTo`: what an atom is boxed as, in a store in which this has been done.

## Main statements

* `exists_boxAtoms`, `outcome_boxAtoms_of_forall₂`: boxing atoms for the first time, and again.
* `boxValue_of_no_object`: boxing a value without instances.
* `Analyzer.box_preserves`: what boxing a value does.
-/

namespace ClosedWorld

variable {P : Value → Prop} {M : CallKey → Prop} {s t : Store} {valueClazz refClazz : ClazzId}
  {v a b : Value}

/-! ### Single atoms -/

/-- What an atom is boxed as, in a store in which it has been boxed before. -/
inductive BoxesTo (t : Store) (valueClazz refClazz : ClazzId) : Value → Value → Prop where
  | object {id boxed : InstanceId} :
    t.BoxedIn id refClazz boxed → BoxesTo t valueClazz refClazz (.object id) (.object boxed)
  | absent {a : Value} : a.isAbsent = true → BoxesTo t valueClazz refClazz a a
  | wrapped {a : Value} : a.isAtom = true → (∀ id, a ≠ .object id) →
    BoxesTo t valueClazz refClazz a (.boxed a valueClazz refClazz)

/-- An atom that is not an instance is put into a box. -/
theorem boxAtom_of_ne_object (single : a.isAtom = true) (other : ∀ id, a ≠ .object id) :
    boxAtom valueClazz refClazz a = pure (.boxed a valueClazz refClazz) := by
  cases a with
  | object id => exact absurd rfl (other id)
  | noValue | undefined | set members => cases single
  | _ => rfl

/-- An absent value is not boxed. -/
theorem boxAtom_of_isAbsent (absent : a.isAbsent = true) :
    boxAtom valueClazz refClazz a = pure a := by
  obtain rfl | rfl := Value.isAbsent_iff.1 absent <;> rfl

/-- An atom that has been boxed before is boxed again without a change. -/
theorem BoxesTo.outcome_boxAtom (h : BoxesTo t valueClazz refClazz a b) :
    (boxAtom valueClazz refClazz a).outcome t = (.ok b, t) := by
  cases h with
  | object boxed =>
    unfold boxAtom
    rw [Attempt.outcome_bind, boxed.outcome_boxInstance]
    rfl
  | absent absent =>
    rw [boxAtom_of_isAbsent absent]
    rfl
  | wrapped single other =>
    rw [boxAtom_of_ne_object single other]
    rfl

/-- What has been boxed stays boxed when others are. -/
theorem BoxesTo.mono {into : List Value} (h : Store.Copies refClazz s t into)
    (boxes : BoxesTo s valueClazz refClazz a b) : BoxesTo t valueClazz refClazz a b := by
  cases boxes with
  | object boxed => exact .object (h.boxedIn boxed)
  | absent absent => exact .absent absent
  | wrapped single other => exact .wrapped single other

/-- An atom can be boxed if it is not an instance or one of the store. Then it has been boxed, and
only what it is boxed as has changed. -/
theorem exists_boxAtom (valueClazz refClazz : ClazzId) (hs : s.AllValues Value.Canonical)
    (single : a.isAbsent = false → a.isAtom = true)
    (known : ∀ id, a = .object id → id ∈ s.instances.ids) :
    ∃ b t, (boxAtom valueClazz refClazz a).outcome s = (.ok b, t) ∧
      BoxesTo t valueClazz refClazz a b ∧ Store.Copies refClazz s t [b] := by
  by_cases object : ∃ id, a = .object id
  · obtain ⟨id, rfl⟩ := object
    obtain ⟨boxed, t, run, boxedIn, copies⟩ := Store.exists_boxInstance hs (known id rfl) refClazz
    refine ⟨.object boxed, t, ?_, .object boxedIn, copies⟩
    unfold boxAtom
    rw [Attempt.outcome_bind, run]
    rfl
  · have boxes : ∃ b, BoxesTo s valueClazz refClazz a b := by
      by_cases absent : a.isAbsent = true
      · exact ⟨a, .absent absent⟩
      · exact ⟨_, .wrapped (single (Bool.eq_false_iff.2 absent)) fun id same => object ⟨id, same⟩⟩
    obtain ⟨b, boxes⟩ := boxes
    exact ⟨b, s, boxes.outcome_boxAtom, boxes, .refl refClazz s _⟩

/-! ### Several atoms -/

/-- Atoms that are instances of the store can be boxed, and only what they are boxed as changes. -/
theorem exists_boxAtoms (valueClazz refClazz : ClazzId) {atoms : List Value}
    (hs : s.AllValues Value.Canonical)
    (single : ∀ a ∈ atoms, a.isAbsent = false → a.isAtom = true)
    (known : ∀ id, .object id ∈ atoms → id ∈ s.instances.ids) (sofar : Value) :
    ∃ boxes t, (boxAtoms valueClazz refClazz sofar atoms).outcome s =
        (.ok (boxes.foldl Value.join sofar), t) ∧
      List.Forall₂ (BoxesTo t valueClazz refClazz) atoms boxes ∧
      Store.Copies refClazz s t boxes := by
  induction atoms generalizing s sofar with
  | nil => exact ⟨[], s, rfl, .nil, .refl refClazz s _⟩
  | cons a rest ih =>
    obtain ⟨here, later⟩ := List.forall_mem_cons.1 single
    obtain ⟨b, u, run, boxed, copies⟩ := exists_boxAtom valueClazz refClazz hs here
      fun id same => known id (same ▸ List.mem_cons_self)
    obtain ⟨boxes, t, run', boxed', copies'⟩ := ih
      (copies.evolves.allValues Value.canonical_join hs) later
      (fun id among => copies.mem_ids (known id (List.mem_cons_of_mem _ among))) (sofar.join b)
    refine ⟨b :: boxes, t, ?_, .cons (boxed.mono copies') boxed', copies.trans copies'⟩
    unfold boxAtoms
    rw [Attempt.outcome_bind, run]
    exact run'

/-- Atoms that have been boxed are boxed again without a change. -/
theorem outcome_boxAtoms_of_forall₂ {atoms boxes : List Value}
    (h : List.Forall₂ (BoxesTo t valueClazz refClazz) atoms boxes) (sofar : Value) :
    (boxAtoms valueClazz refClazz sofar atoms).outcome t =
      (.ok (boxes.foldl Value.join sofar), t) := by
  induction h generalizing sofar with
  | nil => rfl
  | cons here _ ih =>
    unfold boxAtoms
    rw [Attempt.outcome_bind, here.outcome_boxAtom]
    exact ih _

/-- An instance among atoms that have been boxed is `BoxedIn` one of the results. -/
theorem exists_boxedIn_of_forall₂ {atoms boxes : List Value} {id : InstanceId}
    (h : List.Forall₂ (BoxesTo t valueClazz refClazz) atoms boxes) (among : .object id ∈ atoms) :
    ∃ boxed, t.BoxedIn id refClazz boxed ∧ .object boxed ∈ boxes := by
  induction h with
  | nil => cases among
  | cons here _ ih =>
    rcases List.mem_cons.1 among with rfl | among
    · cases here with
      | object boxedIn => exact ⟨_, boxedIn, List.mem_cons_self⟩
      | absent absent => cases absent
      | wrapped _ other => exact absurd rfl (other id)
    · obtain ⟨boxed, boxedIn, listed⟩ := ih among
      exact ⟨boxed, boxedIn, List.mem_cons_of_mem _ listed⟩

/-- Boxing an atom evolves a store. -/
theorem evolves_boxAtom (valueClazz refClazz : ClazzId) (hs : s.AllValues P) (a : Value) :
    s.Evolves P M ((boxAtom valueClazz refClazz a).outcome s).2 := by
  cases a with
  | object id =>
    exact Store.evolves_bind (Store.evolves_boxInstance hs id refClazz) fun _ u _ => .refl u
  | _ => exact .refl s

/-- Boxing atoms one after the other evolves a store. -/
theorem evolves_boxAtoms (valueClazz refClazz : ClazzId)
    (join : ∀ {v w}, P v → P w → P (v.join w)) (hs : s.AllValues P) (sofar : Value)
    (atoms : List Value) :
    s.Evolves P M ((boxAtoms valueClazz refClazz sofar atoms).outcome s).2 := by
  induction atoms generalizing s sofar with
  | nil => exact .refl s
  | cons a rest ih =>
    unfold boxAtoms
    have first := evolves_boxAtom (M := M) valueClazz refClazz hs a
    refine Store.evolves_bind first fun b u run => ih ?_ _
    rw [run] at first
    exact first.allValues join hs

/-- Boxing atoms brings in no value that was not in the store before, but joins. -/
theorem allValues_of_boxAtoms (join : ∀ {v w}, P v → P w → P (v.join w)) (hs : s.AllValues P)
    {sofar : Value} {atoms : List Value}
    (run : (boxAtoms valueClazz refClazz sofar atoms).outcome s = (.ok b, t)) : t.AllValues P := by
  have evolves := evolves_boxAtoms (M := fun _ => True) valueClazz refClazz join hs sofar atoms
  rw [run] at evolves
  exact evolves.allValues join hs

/-! ### Values without instances -/

/-- Wrapping commutes with joining. -/
theorem foldl_join_map_boxed (vs : List Value) :
    (vs.map (.boxed · valueClazz refClazz)).foldl Value.join (.boxed v valueClazz refClazz) =
      .boxed (vs.foldl Value.join v) valueClazz refClazz := by
  induction vs generalizing v with
  | nil => rfl
  | cons w vs ih =>
    rw [List.map_cons, List.foldl_cons, Value.boxed_join_boxed]
    exact ih

/-- The join of boxes is a box around the join of what is in them. -/
theorem Value.joinAll_map_boxed {vs : List Value} (some_value : vs ≠ []) :
    joinAll (vs.map (.boxed · valueClazz refClazz)) = .boxed (joinAll vs) valueClazz refClazz := by
  obtain ⟨v, vs, rfl⟩ := List.exists_cons_of_ne_nil some_value
  unfold joinAll
  rw [List.map_cons, List.foldl_cons, List.foldl_cons, noValue_join, noValue_join]
  exact foldl_join_map_boxed vs

/-- Boxing atoms without instances puts each of them into a box, and leaves the store alone. -/
theorem boxAtoms_of_no_object {atoms : List Value} (single : ∀ a ∈ atoms, a.isAtom = true)
    (none_object : ∀ id, .object id ∉ atoms) (sofar : Value) :
    boxAtoms valueClazz refClazz sofar atoms =
      pure ((atoms.map (.boxed · valueClazz refClazz)).foldl Value.join sofar) := by
  induction atoms generalizing sofar with
  | nil => rfl
  | cons a rest ih =>
    obtain ⟨here, later⟩ := List.forall_mem_cons.1 single
    have other (id : InstanceId) : a ≠ .object id :=
      fun same => none_object id (same ▸ List.mem_cons_self)
    unfold boxAtoms
    rw [boxAtom_of_ne_object here other, pure_bind,
      ih later fun id among => none_object id (List.mem_cons_of_mem _ among)]
    rfl

/-- A value without instances stays as it is if it is absent, and is put into one box otherwise. -/
theorem boxValue_of_no_object (hv : v.Canonical) (none_object : ∀ id, .object id ∉ v.atoms) :
    boxValue v valueClazz refClazz =
      pure (if v.isAbsent then v else .boxed v valueClazz refClazz) := by
  unfold boxValue
  by_cases absent : v.isAbsent = true
  · rw [if_pos absent]
    obtain rfl | rfl := Value.isAbsent_iff.1 absent <;> rfl
  · have different := hv.differentAtoms (Bool.eq_false_iff.2 absent)
    rw [if_neg absent, boxAtoms_of_no_object different.isAtom none_object]
    exact congrArg pure ((Value.joinAll_map_boxed hv.atoms_ne_nil).trans
      (congrArg (Value.boxed · valueClazz refClazz) hv.joinAll_atoms))

/-- What is taken out of a box is its content. -/
theorem Value.unboxed_boxed (v : Value) (valueClazz refClazz : ClazzId) :
    (boxed v valueClazz refClazz).unboxed = v :=
  joinAll_singleton v

/-- What is taken out of an absent value is the value. -/
theorem Value.unboxed_of_isAbsent {v : Value} (absent : v.isAbsent = true) : v.unboxed = v := by
  obtain rfl | rfl := isAbsent_iff.1 absent <;> exact joinAll_singleton _

/-- A value without instances is taken out of its box again. -/
theorem unboxed_of_boxValue (hv : v.Canonical) (none_object : ∀ id, .object id ∉ v.atoms)
    (run : (boxValue v valueClazz refClazz).outcome s = (.ok b, t)) :
    t = s ∧ b.unboxed = v := by
  rw [boxValue_of_no_object hv none_object] at run
  cases run
  refine ⟨rfl, ?_⟩
  split
  · rename_i absent
    exact v.unboxed_of_isAbsent absent
  · exact v.unboxed_boxed valueClazz refClazz

/-! ### Whole values -/

/-- The instances in a join of several values are those in one of them. -/
theorem Value.object_mem_joinAll {vs : List Value} {id : InstanceId} :
    object id ∈ (joinAll vs).atoms ↔ ∃ v ∈ vs, object id ∈ v.atoms := by
  have shows : (joinAll vs).Shows [] (.object id) ↔
      noValue.Shows [] (.object id) ∨ ∃ v ∈ vs, v.Shows [] (.object id) := shows_joinAll
  exact shows.trans (or_iff_right (not_shows_of_isAbsent rfl))

/-- An instance in what an atom is boxed as is what this atom, an instance, has been boxed into. -/
theorem BoxesTo.exists_boxedIn {boxed : InstanceId} (h : BoxesTo t valueClazz refClazz a b)
    (among : .object boxed ∈ b.atoms) : ∃ id, a = .object id ∧ t.BoxedIn id refClazz boxed := by
  cases h with
  | @object id _ boxedIn =>
    cases List.mem_singleton.1 among
    exact ⟨id, rfl, boxedIn⟩
  | absent absent =>
    obtain rfl | rfl := Value.isAbsent_iff.1 absent
    all_goals cases List.mem_singleton.1 among
  | wrapped => cases List.mem_singleton.1 among

/-- The instances in the result are those that instances are boxed as. -/
theorem exists_boxedIn_of_mem_atoms {atoms boxes : List Value} {boxed : InstanceId}
    (h : List.Forall₂ (BoxesTo t valueClazz refClazz) atoms boxes)
    (shown : .object boxed ∈ (Value.joinAll boxes).atoms) :
    ∃ id, .object id ∈ atoms ∧ t.BoxedIn id refClazz boxed := by
  obtain ⟨b, listed, among⟩ := Value.object_mem_joinAll.1 shown
  clear shown
  induction h with
  | nil => cases listed
  | cons here _ ih =>
    rcases List.mem_cons.1 listed with rfl | listed
    · obtain ⟨id, rfl, boxedIn⟩ := here.exists_boxedIn among
      exact ⟨id, List.mem_cons_self, boxedIn⟩
    · obtain ⟨id, known, boxedIn⟩ := ih listed
      exact ⟨id, List.mem_cons_of_mem _ known, boxedIn⟩

namespace Analyzer

/-- The processor boxes values of value clazzes as `boxValue` does, and takes no note of it. -/
theorem outcome_box (z : Analyzer) (act : Activation) {a : Analysis} {t : Store}
    (isValue : (z.view.info valueClazz).isRef = false)
    (run : (boxValue v valueClazz refClazz).outcome a.store = (.ok b, t)) :
    ((z.processor act).box v valueClazz refClazz).outcome a =
      (.ok (answer (some b)), { a with store := t }) := by
  have step : (z.processor act).box v valueClazz refClazz =
      (do return answer (some (← onStore (boxValue v valueClazz refClazz)))) := by
    show (if _ then _ else _) = _
    rw [isValue]
    rfl
  unfold onStore at step
  rw [step, Attempt.outcome_bind, Attempt.outcome_within, run]
  rfl

/-- A value of a value clazz whose instances are in the store can be boxed. If it has no instances,
the store stays as it is, and the value can be taken out of its box again. Otherwise each of its
instances has been boxed into one of the reference clazz that has the same context: all fields of
the former are fields of the latter, where joining their values adds nothing. So they are below,
if the numbers in the store agree about their kinds. The result has no other instances, nothing but
these has changed, and boxing the value again changes nothing at all. -/
theorem box_preserves (z : Analyzer) (act : Activation) {a : Analysis} {v : Value}
    {valueClazz : ClazzId} (refClazz : ClazzId) (hs : a.store.AllValues Value.Canonical)
    (hv : v.Canonical) (isValue : (z.view.info valueClazz).isRef = false)
    (known : ∀ id, .object id ∈ v.atoms → id ∈ a.store.instances.ids) :
    ∃ b t, ((z.processor act).box v valueClazz refClazz).outcome a =
        (.ok (answer (some b)), { a with store := t }) ∧
      ((∀ id, .object id ∉ v.atoms) → t = a.store ∧
        (z.processor act).unbox b refClazz valueClazz = pure (answer (some v))) ∧
      (∀ id, .object id ∈ v.atoms → ∃ key boxed, a.store.instances.key? id = some key ∧
        .object boxed ∈ b.atoms ∧ t.instances.key? boxed = some ⟨refClazz, key.context⟩ ∧
        ∀ field x, a.store.held (.field id field) = some x ∨ t.held (.field id field) = some x →
          ∃ y, t.held (.field boxed field) = some y ∧ y.join x = y ∧
            ∀ kinds, a.store.IsRegular kinds → x.Below y) ∧
      (∀ boxed, .object boxed ∈ b.atoms → ∃ id key, .object id ∈ v.atoms ∧
        a.store.instances.key? id = some key ∧
        t.instances.key? boxed = some ⟨refClazz, key.context⟩) ∧
      (∀ id, .object id ∉ b.atoms → t.instances.get? id = a.store.instances.get? id) ∧
      t = { a.store with instances := t.instances, change := t.change } ∧
      ((z.processor act).box v valueClazz refClazz).outcome { a with store := t } =
        (.ok (answer (some b)), { a with store := t }) := by
  -- Boxing the atoms one by one ends in a store in which each box holds what it is to hold, so
  -- boxing the same atoms again changes nothing.
  obtain ⟨boxes, t, run, boxed, copies⟩ := exists_boxAtoms valueClazz refClazz hs
    (fun _ hx => hv.isAtom_of_mem_atoms hx) known .noValue
  have in_result {id : InstanceId} (listed : .object id ∈ boxes) :
      .object id ∈ (Value.joinAll boxes).atoms :=
    Value.object_mem_joinAll.2 ⟨_, listed, List.mem_singleton_self _⟩
  have kept {id : InstanceId} {key : InstanceKey} (here : a.store.instances.key? id = some key) :
      t.instances.key? id = some key := copies.evolves.expands.instances.key? here
  refine ⟨Value.joinAll boxes, t, outcome_box z act isValue run, fun none_object => ?_,
    fun id among => ?_, fun j among => ?_,
    fun id other => copies.others id fun listed => other (in_result listed),
    Store.eq_of_outside_eq copies.outside,
    outcome_box z act isValue (outcome_boxAtoms_of_forall₂ boxed .noValue)⟩
  · obtain ⟨same, original⟩ := unboxed_of_boxValue hv none_object run
    exact ⟨same, congrArg (fun original => pure (answer (some original))) original⟩
  · obtain ⟨j, boxedIn, listed⟩ := exists_boxedIn_of_forall₂ boxed among
    obtain ⟨key, here⟩ := Interned.mem_ids.1 (known id among)
    refine ⟨key, j, here, in_result listed, boxedIn.key?_boxed (kept here), fun field x held => ?_⟩
    have ht := allValues_of_boxAtoms Value.canonical_join hs run
    obtain ⟨y, found, nothing⟩ : ∃ y, t.held (.field j field) = some y ∧ y.join x = y :=
      held.elim (boxedIn.exists_held hs copies.evolves)
        (boxedIn.exists_held ht (.refl (M := fun _ => True) t))
    refine ⟨y, found, nothing, fun kinds regular => ?_⟩
    have regular' : t.IsRegular kinds := allValues_of_boxAtoms Value.regular_join regular run
    have hx : x.Regular kinds := held.elim
      (fun held => regular.listed (Store.lists_of_held held))
      (fun held => regular'.listed (Store.lists_of_held held))
    have hy : y.Regular kinds := regular'.listed (Store.lists_of_held found)
    rw [Value.below_iff, Value.join_comm hx hy]
    exact nothing
  · obtain ⟨id, among, boxedIn⟩ := exists_boxedIn_of_mem_atoms boxed among
    obtain ⟨key, here⟩ := Interned.mem_ids.1 (known id among)
    exact ⟨id, key, among, here, boxedIn.key?_boxed (kept here)⟩

/-- Points with one coordinate, and references to points. -/
def points : Analyzer where
  view := Program.view
    { clazzes :=
        [("i32", { kind := .routine, special := some (.numeric .i32), needsCode := false }),
          ("point", { kind := .routine, needsCode := false }),
          ("point.x", { kind := .field, outer := some ⟨1⟩, result := some ⟨0⟩, needsCode := false }),
          ("ref point", { kind := .routine, isRef := true, needsCode := false }),
          ("main", { kind := .routine, code := some ⟨0⟩ })]
      blocks := [[]]
      main := ⟨4⟩
      constString := none }

/-- A point and a reference to one, with different coordinates. -/
def twoPoints (x y : Number) : Store :=
  .after {} [.internInstance ⟨1⟩ none, .internInstance ⟨3⟩ none,
    .setField (.object ⟨0⟩) ⟨2⟩ (.number x), .setField (.object ⟨1⟩) ⟨2⟩ (.number y)]

/-- The two points make a store of canonical values. -/
theorem canonical_twoPoints (x y : Number) : (twoPoints x y).AllValues Value.Canonical := by
  refine Store.allValues_after Value.canonical_join (Store.allValues_empty _) ?_
  simp only [List.forall_mem_cons, List.not_mem_nil, IsEmpty.forall_iff, implies_true, and_true]
  exact ⟨trivial, trivial, trivial, trivial⟩

/-- A number, a point and a reference to a point, all of which may be in one variable. -/
theorem box_preserves_mixed :
    let act : Activation := ⟨⟨0⟩, ⟨⟨4⟩, false, .unit, [], none⟩, ⟨0⟩⟩
    let one : Number := ⟨⟨0⟩, .i32, some 1⟩
    let two : Number := ⟨⟨0⟩, .i32, some 2⟩
    let a : Analysis := { store := twoPoints one two }
    let v : Value := .set [.number one, .object ⟨0⟩, .object ⟨1⟩]
    (a.store.AllValues Value.Canonical ∧ v.Canonical ∧ (points.view.info ⟨1⟩).isRef = false ∧
        ∀ id, .object id ∈ v.atoms → id ∈ a.store.instances.ids) ∧
      ∃ t, ((points.processor act).box v ⟨1⟩ ⟨3⟩).outcome a =
          (.ok (answer (some (.set [.object ⟨1⟩, .boxed (.number one) ⟨1⟩ ⟨3⟩]))),
            { a with store := t }) ∧
        t.held (.field ⟨1⟩ ⟨2⟩) = some (.number (.any ⟨0⟩ .i32)) ∧
        t.instances.get? ⟨0⟩ = a.store.instances.get? ⟨0⟩ := by
  intro act one two a v
  have hs : a.store.AllValues Value.Canonical := canonical_twoPoints one two
  have hv : v.Canonical := by decide
  have known : ∀ id, .object id ∈ v.atoms → id ∈ a.store.instances.ids := by
    intro id h
    obtain rfl | rfl : id = ⟨0⟩ ∨ id = ⟨1⟩ := by simpa [v, Value.atoms] using h
    all_goals decide
  have isValue : (points.view.info ⟨1⟩).isRef = false := rfl
  refine ⟨⟨hs, hv, isValue, known⟩, ?_⟩
  obtain ⟨b, t, run, -, -, -, others, -⟩ := box_preserves points act ⟨3⟩ hs hv isValue known
  have result : b = .set [.object ⟨1⟩, .boxed (.number one) ⟨1⟩ ⟨3⟩] := by
    have first := congrArg Prod.fst run
    exact (Option.some.inj (congrArg Step.value (Except.ok.inj first))).symm
  have left : t = (((points.processor act).box v ⟨1⟩ ⟨3⟩).outcome a).2.store := by rw [run]
  rw [result] at run others
  refine ⟨t, run, ?_, others ⟨0⟩ (by decide)⟩
  rw [left]
  decide +kernel

/-- Where the numbers disagree about their kind, the coordinate of a point is not below that of the
reference that it is boxed into. -/
theorem not_below_of_box_mixing :
    let act : Activation := ⟨⟨0⟩, ⟨⟨4⟩, false, .unit, [], none⟩, ⟨0⟩⟩
    let x : Number := ⟨⟨0⟩, .u8, some 2⟩
    let a : Analysis := { store := twoPoints x ⟨⟨0⟩, .i32, some 1⟩ }
    (a.store.AllValues Value.Canonical ∧ (points.view.info ⟨1⟩).isRef = false ∧
        ⟨0⟩ ∈ a.store.instances.ids) ∧
      ∃ t y, ((points.processor act).box (.object ⟨0⟩) ⟨1⟩ ⟨3⟩).outcome a =
          (.ok (answer (some (.object ⟨1⟩))), { a with store := t }) ∧
        t.held (.field ⟨0⟩ ⟨2⟩) = some (.number x) ∧ t.held (.field ⟨1⟩ ⟨2⟩) = some y ∧
        ¬ (Value.number x).Below y := by
  intro act x a
  refine ⟨⟨canonical_twoPoints _ _, rfl, by decide⟩, _, .number (.any ⟨0⟩ .i32), rfl, ?_, ?_, ?_⟩
  · decide +kernel
  · decide +kernel
  · unfold Value.Below
    decide +kernel

end Analyzer

end ClosedWorld
