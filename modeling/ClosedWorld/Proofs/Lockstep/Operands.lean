import ClosedWorld.Proofs.Analysis.Boxing
import ClosedWorld.Proofs.Analysis.Instructions
import ClosedWorld.Proofs.Lockstep.Basic

/-!
# Constants and boxes in lockstep

## Main statements

* `follows_constant`: constants.
* `follows_boxValue`, `mirrors_unboxed`: values behind references.
-/

namespace ClosedWorld

/-! ### Constants -/

variable {g : Setting} {z : Analyzer} {view : View} {t : Store} {a b : Analysis}

/-- A step that fails at once has left the store as it is. -/
theorem Notes.throw {α : Type} (fault : Fault) (b : Analysis) :
    Notes (throw fault : Analyzing α) b where
  eq_of_quiet := by rintro _ _ ⟨⟩

/-- A step that uses a result notes what it does if it does so for each result. -/
theorem Notes.lift_bind {α β : Type} {r : Except Fault α} {next : α → Analyzing β}
    (rest : ∀ x, r = .ok x → Notes (next x) b) : Notes (liftM r >>= next) b where
  eq_of_quiet run unchanged := by
    obtain ⟨x, given, later⟩ := Attempt.outcome_lift_bind_eq_ok run
    exact (rest x given).eq_of_quiet later unchanged

section notes

variable (g : Setting) (layout : ConstStringLayout) (data : List UInt8) (string array : InstanceId)
  (bytes : ArrayId) (b : Analysis)

/-- Linking the parts of a constant string notes what it does. -/
theorem notes_linkString : Notes (g.linkString layout data string array bytes) b := by
  unfold Setting.linkString
  split
  · exact .throw _ b
  · exact .lift_bind fun _ _ => (notes_setField _ _ _ b).bind fun _ b₁ _ =>
      (notes_setField _ _ _ b₁).bind fun _ b₂ _ => (notes_setField _ _ _ b₂).bind fun _ _ _ =>
        .pure _ _

/-- Filling the array of a constant string notes what it does. -/
theorem notes_fillString : Notes (g.fillString layout data string array bytes) b := by
  unfold Setting.fillString
  split
  · exact .lift_bind fun _ _ => (Notes.onStore (b.store.evolves_arraySet bytes trivial)).bind
      fun _ b₁ _ => notes_linkString g layout data string array bytes b₁
  · exact notes_linkString g layout data string array bytes b

end notes

section constants

variable (ht : t.Rests g.view) {layout : ConstStringLayout} {data : List UInt8}
  {string string' array array' : InstanceId} {bytes bytes' : ArrayId}

include ht

/-- Linking the parts of a constant string is followed by linking parts that mirror them. -/
theorem follows_linkString (hs : Store.Covered g.view t a.store) (hb : b.store = t)
    (strings : Store.Mirrors g.view a.store t (.object string) (.object string'))
    (arrays : Store.Mirrors g.view a.store t (.object array) (.object array'))
    (contents : Store.Mirrors g.view a.store t (.array bytes) (.array bytes')) :
    Follows g.view t (fun v w s => Store.Mirrors g.view s t v w)
      (g.linkString layout data string array bytes)
      (g.linkString layout data string' array' bytes') a b := by
  unfold Setting.linkString
  cases (g.view.info layout.length).result with
  | none => exact .throw_left
  | some lengthType =>
    refine .lift_bind fun length length' any any' => ?_
    cases any.symm.trans any'
    have counts : Store.Mirrors g.view a.store t
        (.number { length with bits := some (UInt64.ofNat data.length) })
        (.number { length with bits := some (UInt64.ofNat data.length) }) :=
      .of_isPlain (Setting.made_of_anyNumber any _) rfl _
    refine (follows_setField ht hs hb counts arrays layout.length).bind ht.quiet
      (fun _ b₁ _ => ?_) fun _ _ a₁ b₁ _ _ hb₁ proceeds _ => ?_
    · exact (notes_setField _ _ _ b₁).bind fun _ b₂ _ => (notes_setField _ _ _ b₂).bind
        fun _ _ _ => .pure _ _
    have arrays := arrays.mono proceeds.keeps
    have strings := strings.mono proceeds.keeps
    refine (follows_setField ht proceeds.covered hb₁ (contents.mono proceeds.keeps) arrays
      layout.data).bind ht.quiet (fun _ b₂ _ => ?_) fun _ _ a₂ b₂ _ _ hb₂ proceeds _ => ?_
    · exact (notes_setField _ _ _ b₂).bind fun _ _ _ => .pure _ _
    have strings := strings.mono proceeds.keeps
    exact (follows_setField ht proceeds.covered hb₂ (arrays.mono proceeds.keeps) strings
      layout.internalArray).bind_pure fun _ _ s keeps _ => strings.mono keeps

/-- Filling the array of a constant string is followed by filling an array that mirrors it. -/
theorem follows_fillString (hs : Store.Covered g.view t a.store) (hb : b.store = t)
    (strings : Store.Mirrors g.view a.store t (.object string) (.object string'))
    (arrays : Store.Mirrors g.view a.store t (.object array) (.object array'))
    (contents : Store.Mirrors g.view a.store t (.array bytes) (.array bytes')) :
    Follows g.view t (fun v w s => Store.Mirrors g.view s t v w)
      (g.fillString layout data string array bytes)
      (g.fillString layout data string' array' bytes') a b := by
  unfold Setting.fillString
  split
  · refine .lift_bind fun element element' any any' => ?_
    cases any.symm.trans any'
    have elements : Store.Mirrors g.view a.store t (.number element) (.number element) :=
      .of_isPlain (Setting.made_of_anyNumber any element.bits) rfl _
    refine (follows_arraySet ht hs hb contents elements).bind ht.quiet
      (fun _ b₁ _ => notes_linkString ..) fun _ _ a₁ b₁ _ _ hb₁ proceeds _ => ?_
    exact follows_linkString ht proceeds.covered hb₁ (strings.mono proceeds.keeps)
      (arrays.mono proceeds.keeps) (contents.mono proceeds.keeps)
  · exact follows_linkString ht hs hb strings arrays contents

/-- A constant string is followed by the constant string at the same site. -/
theorem follows_constString (hs : Store.Covered g.view t a.store) (hb : b.store = t)
    (creator : ClazzId) (site : Site) :
    Follows g.view t (fun v w s => Store.Mirrors g.view s t v w) (g.constString creator site data)
      (g.constString creator site data) a b := by
  rw [Setting.constString_eq]
  cases g.view.stringLayout? with
  | none => exact .throw_left
  | some layout =>
    have notesArray (string array : InstanceId) (b : Analysis) : Notes (do
        let bytes ← onStore (Store.internArray (.const site))
        g.fillString layout data string array bytes) b :=
      (Notes.onStore (b.store.evolves_internArray _)).bind fun _ _ _ => notes_fillString ..
    refine (follows_internInstance hs hb layout.clazz (g.contextOf creator)).bind ht.quiet
      (fun _ b₁ _ => ?_) fun string string' a₁ b₁ _ _ hb₁ proceeds strings => ?_
    · exact (Notes.onStore (b₁.store.evolves_internInstance _ _)).bind fun _ _ _ => notesArray ..
    refine (follows_internInstance proceeds.covered hb₁ layout.arrayClazz
      (g.contextOf creator)).bind ht.quiet (fun _ b₂ _ => notesArray ..)
      fun array array' a₂ b₂ _ _ hb₂ proceeds arrays => ?_
    have strings := strings.mono proceeds.keeps
    have known (s : Store) : s.arrayProvenance? (.const site) = some (.constant site) := rfl
    refine (follows_internArray ht proceeds.covered hb₂ (known _) (known t)).bind ht.quiet
      (fun _ b₃ _ => notes_fillString ..) fun bytes bytes' a₃ b₃ _ _ hb₃ proceeds contents => ?_
    exact follows_fillString ht proceeds.covered hb₃ (strings.mono proceeds.keeps)
      (arrays.mono proceeds.keeps) contents

/-- A constant is followed by the same constant at the same site. -/
theorem follows_constant (hs : Store.Covered g.view t a.store) (hb : b.store = t)
    (creator : ClazzId) (site : Site) (clazz : ClazzId) :
    Follows g.view t (AnswerMirrors g.view t) (g.constant? creator site clazz data)
      (g.constant? creator site clazz data) a b := by
  have unsupported : Follows g.view t (AnswerMirrors g.view t)
      (do diagnose (.unsupportedConstant site (g.view.name clazz)); return none)
      (do diagnose (.unsupportedConstant site (g.view.name clazz)); return none) a b :=
    .note_left (AnalysisDiscipline.store_diagnose _) fun a' kept =>
      .pure_left (kept.symm ▸ hs) fun _ => answerMirrors_none
  unfold Setting.constant?
  cases special : (g.view.info clazz).special with
  | none => exact unsupported
  | some special' =>
    cases special' with
    | bool => exact .pure hs (answerMirrors_some (.of_bool _ _))
    | numeric kind =>
      exact .pure hs (answerMirrors_some (.of_isPlain (.number special _) rfl _))
    | constString =>
      exact (follows_constString ht hs hb creator site).bind_pure
        fun _ _ s _ mirrors => answerMirrors_some mirrors
    | unit => exact .pure hs (answerMirrors_some (.of_unit _))
    | universal => exact unsupported

end constants

/-! ### Boxes -/

section boxes

variable {s s' t' : Store} {valueClazz refClazz : ClazzId} {v w : Value}

/-- What is boxed without a change is in the result, and each atom has been boxed without a change.
-/
theorem rests_boxAtoms {sofar : Value} {atoms : List Value}
    (run : (boxAtoms valueClazz refClazz sofar atoms).outcome t = (.ok w, t'))
    (quiet : t'.change = none) :
    t' = t ∧ (∀ path item, sofar.Shows path item → w.Shows path item) ∧ ∀ atom ∈ atoms, ∃ boxed,
      (boxAtom valueClazz refClazz atom).outcome t = (.ok boxed, t) ∧
        ∀ path item, boxed.Shows path item → w.Shows path item := by
  induction atoms generalizing sofar t with
  | nil =>
    cases run
    exact ⟨rfl, fun _ _ shown => shown, List.forall_mem_nil _⟩
  | cons atom rest ih =>
    unfold boxAtoms at run
    obtain ⟨boxed, u, first, later⟩ := Attempt.outcome_bind_eq_ok run
    have evolves := evolves_boxAtoms (P := fun _ => True) (M := fun _ => True) valueClazz refClazz
      (fun _ _ => trivial) u.allValues_true (sofar.join boxed) rest
    rw [later] at evolves
    obtain ⟨-, unnoted⟩ := Store.eq_between evolves quiet
    have evolves := evolves_boxAtom (P := fun _ => True) (M := fun _ => True) valueClazz refClazz
      t.allValues_true atom
    rw [first] at evolves
    obtain rfl := evolves.eq_of_quiet unnoted
    obtain ⟨same, before, boxes⟩ := ih later
    exact ⟨same, fun path item shown => before path item (Value.shows_join.2 (.inl shown)),
      List.forall_mem_cons.2 ⟨⟨boxed, first, fun path item shown =>
        before path item (Value.shows_join.2 (.inr shown))⟩, boxes⟩⟩

/-- Boxing an atom keeps a store covered if all atoms of what mirrors it are boxed already, with
results that `w` shows. -/
theorem proceeds_boxAtom (ht : t.IsCoarse) (quiet : t.change = none) (hs : Store.Covered view t s)
    (makes : view.Boxes valueClazz refClazz)
    {atom boxed : Value} (mirrors : Store.Mirrors view s t atom v)
    (atomic : atom.isAbsent = false → atom.isAtom = true)
    (boxes : ∀ atom' ∈ v.atoms, ∃ boxed',
      (boxAtom valueClazz refClazz atom').outcome t = (.ok boxed', t) ∧
        ∀ path item, boxed'.Shows path item → w.Shows path item)
    (run : (boxAtom valueClazz refClazz atom).outcome s = (.ok boxed, s')) :
    Store.Proceeds view t s s' ∧ Store.Mirrors view s' t boxed w := by
  by_cases absent : atom.isAbsent = true
  · have same : boxed = atom ∧ s' = s := by
      obtain rfl | rfl := Value.isAbsent_iff.1 absent <;> cases run <;> exact ⟨rfl, rfl⟩
    obtain ⟨rfl, rfl⟩ := same
    exact ⟨.refl hs, mirrors.made, fun shown => absurd shown (Value.not_shows_of_isAbsent absent)⟩
  have single := atomic (Bool.eq_false_iff.2 absent)
  by_cases object : ∃ id, atom = .object id
  · obtain ⟨id, rfl⟩ := object
    obtain ⟨item', p, shown', known, known'⟩ := mirrors.items (Value.shows_value (.object id))
    obtain ⟨_, -, rfl⟩ := Option.map_eq_some_iff.1 known
    obtain ⟨id', _, rfl, -, -⟩ := Store.exists_of_created known'
    obtain ⟨_, run', more⟩ := boxes _ shown'
    obtain ⟨made, _, run, ⟨⟩⟩ := Attempt.outcome_bind_eq_ok run
    obtain ⟨made', _, run', same⟩ := Attempt.outcome_bind_eq_ok run'
    cases same
    obtain ⟨proceeds, boxed⟩ := Store.proceeds_boxInstance ht hs known known' run run' quiet
    exact ⟨proceeds, boxed.in_shows more⟩
  · have other : ∀ id, atom ≠ .object id := fun id same => object ⟨id, same⟩
    rw [boxAtom_of_ne_object single other] at run
    cases run
    refine ⟨.refl hs, mirrors.made.boxed makes, fun shown => ?_⟩
    obtain ⟨rest, rfl, inside⟩ := shown.of_around (.boxed valueClazz refClazz)
    obtain ⟨item', p, inside', known, known'⟩ := mirrors.items inside
    obtain ⟨atom', listed', single', inside'⟩ := inside'.exists_atom
    -- If the atom at rest were an instance, it would show one, and then so would the atom here.
    have other' : ∀ id, atom' ≠ .object id := by
      rintro id rfl
      obtain ⟨rfl, rfl⟩ := inside'.of_value (.object id)
      obtain ⟨_, -, rfl⟩ := Option.map_eq_some_iff.1 known'
      obtain ⟨id', _, rfl, -, -⟩ := Store.exists_of_created known
      obtain ⟨-, same⟩ | ⟨_, _, _, ⟨⟩, -⟩ := inside.of_isAtom single
      exact other id' same
    obtain ⟨_, run', more⟩ := boxes atom' listed'
    rw [boxAtom_of_ne_object single' other'] at run'
    cases run'
    exact ⟨item', p, more _ _ (inside'.around (.boxed valueClazz refClazz)), known, known'⟩

/-- Boxing atoms one after the other keeps a store covered under the conditions of
`proceeds_boxAtom`. -/
theorem proceeds_boxAtoms (ht : t.IsCoarse) (quiet : t.change = none) (hs : Store.Covered view t s)
    (makes : view.Boxes valueClazz refClazz)
    {sofar joined : Value} {atoms : List Value} (before : Store.Mirrors view s t sofar w)
    (mirrors : ∀ atom ∈ atoms, Store.Mirrors view s t atom v)
    (atomic : ∀ atom ∈ atoms, atom.isAbsent = false → atom.isAtom = true)
    (boxes : ∀ atom' ∈ v.atoms, ∃ boxed',
      (boxAtom valueClazz refClazz atom').outcome t = (.ok boxed', t) ∧
        ∀ path item, boxed'.Shows path item → w.Shows path item)
    (run : (boxAtoms valueClazz refClazz sofar atoms).outcome s = (.ok joined, s')) :
    Store.Proceeds view t s s' ∧ Store.Mirrors view s' t joined w := by
  induction atoms generalizing s sofar with
  | nil =>
    cases run
    exact ⟨.refl hs, before⟩
  | cons atom rest ih =>
    obtain ⟨here, there⟩ := List.forall_mem_cons.1 mirrors
    obtain ⟨single, singles⟩ := List.forall_mem_cons.1 atomic
    unfold boxAtoms at run
    obtain ⟨boxed, u, first, later⟩ := Attempt.outcome_bind_eq_ok run
    obtain ⟨proceeds, mirrored⟩ := proceeds_boxAtom ht quiet hs makes here single boxes first
    obtain ⟨proceeds', joined⟩ := ih proceeds.covered
      ((before.mono proceeds.keeps).join_of mirrored)
      (fun atom listed => (there atom listed).mono proceeds.keeps) singles later
    exact ⟨proceeds.trans proceeds', joined⟩

/-- Boxing a value is followed by boxing what mirrors it, where the program boxes like this. -/
theorem follows_boxValue (ht : t.Rests view) (hs : Store.Covered view t a.store) (hb : b.store = t)
    (makes : view.Boxes valueClazz refClazz)
    (mirrors : Store.Mirrors view a.store t v w) :
    Follows view t (fun v w s => Store.Mirrors view s t v w)
      (onStore (boxValue v valueClazz refClazz)) (onStore (boxValue w valueClazz refClazz)) a b := by
  refine .onStore fun {x s' y t'} run run' rests => ?_
  rw [hb] at run'
  obtain ⟨-, -, boxes⟩ := rests_boxAtoms run' (rests ▸ ht.quiet)
  exact proceeds_boxAtoms ht.coarse ht.quiet hs makes (.of_noValue y)
    (fun _ => mirrors.of_mem_atoms)
    (fun _ => mirrors.isAtom_of_mem_atoms) boxes run

/-- What is not a box stays as it is. -/
theorem unboxedAtom_of_ne {atom : Value}
    (other : ∀ content valueClazz refClazz, atom ≠ .boxed content valueClazz refClazz) :
    atom.unboxedAtom = atom := by
  cases atom with
  | boxed content valueClazz refClazz => exact absurd rfl (other content valueClazz refClazz)
  | _ => rfl

/-- What was taken out of its boxes is mirrored by what is taken out of them in the other store. -/
theorem mirrors_unboxed {z : Analyzer} (mirrors' : Store.Mirrors z.view s t v w) :
    Store.Mirrors z.view s t v.unboxed w.unboxed where
  made := (AnalysisDiscipline.ofStore (StoreDiscipline.made z.view) true).good_unboxed
    (s := s) mirrors'.made
  items {path item} shown := by
    obtain nothing | ⟨_, listed, shown⟩ := Value.shows_joinAll.1 shown
    · exact absurd nothing (Value.not_shows_of_isAbsent rfl)
    obtain ⟨atom, hatom, rfl⟩ := List.mem_map.1 listed
    have inside {item' : Item} {atom' : Value} (listed' : atom' ∈ w.atoms)
        (shown' : atom'.unboxedAtom.Shows path item') : w.unboxed.Shows path item' :=
      Value.shows_joinAll.2 (.inr ⟨_, List.mem_map_of_mem listed', shown'⟩)
    have mirrors := mirrors'.of_mem_atoms hatom
    by_cases boxed : ∃ content valueClazz refClazz, atom = .boxed content valueClazz refClazz
    · obtain ⟨content, valueClazz, refClazz, rfl⟩ := boxed
      obtain ⟨item', p, ⟨content', listed', shown'⟩, known⟩ :=
        mirrors.items (Value.Shows.around (.boxed valueClazz refClazz) shown)
      exact ⟨item', p, inside listed' shown', known⟩
    · have other : ∀ content valueClazz refClazz, atom ≠ .boxed content valueClazz refClazz :=
        fun content valueClazz refClazz same => boxed ⟨content, valueClazz, refClazz, same⟩
      rw [unboxedAtom_of_ne other] at shown
      obtain ⟨item', p, shown', known⟩ := mirrors.items shown
      obtain ⟨atom', listed', single', shown'⟩ := shown'.exists_atom
      refine ⟨item', p, inside listed' ?_, known⟩
      rwa [unboxedAtom_of_ne]
      rintro content' valueClazz refClazz rfl
      obtain ⟨rest, rfl, -⟩ := shown'.of_around (.boxed valueClazz refClazz)
      have single : atom.isAtom = true := mirrors'.isAtom_of_mem_atoms hatom
        (Bool.eq_false_iff.2 fun absent => Value.not_shows_of_isAbsent absent shown)
      obtain ⟨⟨⟩, -⟩ | ⟨_, _, content, ⟨⟩, same, -⟩ := shown.of_isAtom single
      exact other content valueClazz refClazz same

end boxes

end ClosedWorld
