import ClosedWorld.Proofs.Analysis.Outgrowth
import ClosedWorld.Proofs.Value.Atomwise

/-!
# Values that are tagged again and again

A value that is written into a field whose type is a choice is tagged for the choice, unless it is
tagged for it already. Where the value goes through the fields of two choices in turn, it is tagged
each time, and what a field holds nests deeper and deeper.

A field holds the join of all that was written, so one cannot tell what exactly is read from it. But
what leads from the outside of a value to the inside is kept when more is joined to it.

## Main definitions

* `Value.Reaches`: tags that lead to the unit value.

## Main statements

* `Value.Reaches.of_below`: what is above a value reaches what the value reaches.
* `Setting.reaches_retagAtoms`: a tag on the outside of what is written.
* `Analyzer.attains_assignOne`: what a field holds that a value is written into.
-/

namespace ClosedWorld

open Attempt

/-! ### The inside of values -/

namespace Value

/-- Tags for the choices lead to the unit value, from the outside of the value to its inside. -/
def Reaches : (choices : List ClazzId) → Value → Prop
  | [], v => .unit ∈ v.atoms
  | choice :: choices, v => ∃ content tag, .tagged content choice tag ∈ v.atoms ∧
    Reaches choices content

variable {v w content : Value} {choices : List ClazzId} {choice : ClazzId} {tag : Nat}

/-- A tag on the outside of what is reached is one more tag that leads to it. -/
theorem reaches_tagged (h : Reaches choices content) :
    Reaches (choice :: choices) (.tagged content choice tag) :=
  ⟨content, tag, List.mem_singleton_self _, h⟩

/-- A value that reaches the unit value is not `noValue`, in which there is nothing to reach. -/
theorem Reaches.ne_noValue (h : Reaches choices v) : v ≠ noValue := by
  rintro rfl
  cases choices with
  | nil => cases List.mem_singleton.1 h
  | cons choice choices =>
    obtain ⟨_, _, atom, -⟩ := h
    cases List.mem_singleton.1 atom

/-- Each tag nests the value one level deeper. -/
theorem Reaches.length_le_depth (h : Reaches choices v) : choices.length ≤ v.depth := by
  induction choices generalizing v with
  | nil => exact Nat.zero_le _
  | cons choice choices ih =>
    obtain ⟨content, tag, atom, reaches⟩ := h
    calc choices.length + 1 ≤ content.depth + 1 := Nat.succ_le_succ (ih reaches)
      _ = (tagged content choice tag).depth := rfl
      _ ≤ v.depth := depth_le_of_mem_atoms atom

/-- What is above a value reaches what the value reaches. -/
theorem Reaches.of_below (hv : v.Canonical) (hw : w.Canonical) (below : v.Below w)
    (h : Reaches choices v) : Reaches choices w := by
  induction choices generalizing v w with
  | nil =>
    obtain ⟨b, hb, -, merged⟩ := exists_mergeAtoms_eq_of_join_eq hv hw (below_iff.1 below) h rfl
    obtain rfl : unit = b := merged
    exact hb
  | cons choice choices ih =>
    obtain ⟨content, tag, atom, reaches⟩ := h
    obtain ⟨content', atom', below'⟩ := exists_tagged_of_below hv hw below atom
    have canonical : content.Canonical := (hv.of_mem_atoms atom :)
    have canonical' : content'.Canonical := (hw.of_mem_atoms atom' :)
    exact ⟨content', tag, atom', ih canonical canonical' below' reaches⟩

end Value

/-! ### Tags on the outside -/

namespace Setting

variable {g : Setting} {s : Store} {choice : ClazzId} {choices : List ClazzId} {v atom : Value}
  {kinds : ClazzId → NumericKind}

/-- Of what the store holds one can tell the clazz, or that there is none. -/
theorem exists_clazzOf? (held : s.Holds atom) : ∃ clazz, g.clazzOf? s atom = .ok clazz := by
  unfold clazzOf?
  split
  · rename_i id
    obtain ⟨⟨key, fields⟩, entry⟩ := Option.ne_none_iff_exists'.1 fun unknown =>
      StoreDiscipline.not_has_of_get?_eq_none unknown held
    unfold Store.instanceKey
    rw [Interned.key?_of_get? entry]
    exact ⟨_, rfl⟩
  all_goals exact ⟨_, rfl⟩

/-- An atom that is not tagged for the choice is tagged if its clazz is an alternative. -/
theorem retagAtom_of_choiceTag? {clazz : Option ClazzId} {tag : Nat}
    (found : g.clazzOf? s atom = .ok clazz)
    (fresh : ∀ content tag, atom ≠ .tagged content choice tag)
    (alternative : clazz.bind (g.view.choiceTag? choice) = some tag) :
    g.retagAtom s choice atom = .ok (.tagged atom choice tag) := by
  rw [retagAtom_of_ne fresh, found]
  show Except.ok (((clazz.bind (g.view.choiceTag? choice)).map (.tagged atom choice)).getD atom) = _
  rw [alternative]
  rfl

variable (choice) in
/-- Tagging an atom does not fail. -/
theorem exists_retagAtom (held : s.Holds atom) : ∃ tagged, g.retagAtom s choice atom = .ok tagged ∧
    (tagged = atom ∨ ∃ tag, tagged = .tagged atom choice tag) := by
  obtain ⟨clazz, found⟩ := g.exists_clazzOf? held
  by_cases already : ∃ content tag, atom = .tagged content choice tag
  · obtain ⟨content, tag, rfl⟩ := already
    exact ⟨_, retagAtom_of_tagged, .inl rfl⟩
  · rw [retagAtom_of_ne fun content tag same => already ⟨content, tag, same⟩, found]
    refine ⟨_, rfl, ?_⟩
    cases clazz.bind (g.view.choiceTag? choice) with
    | none => exact .inl rfl
    | some tag => exact .inr ⟨tag, rfl⟩

variable (choice) in
/-- Tagging does not fail, and the result is above all tagged atoms. -/
theorem exists_retagAtoms {atoms : List Value} {sofar : Value} (hs : sofar.Regular kinds)
    (ha : ∀ atom ∈ atoms, s.Holds atom ∧ atom.Regular kinds) :
    ∃ w, g.retagAtoms s choice sofar atoms = .ok w ∧ w.Regular kinds ∧ sofar.Below w ∧
      ∀ atom ∈ atoms, ∀ tagged, g.retagAtom s choice atom = .ok tagged → tagged.Below w := by
  induction atoms generalizing sofar with
  | nil => exact ⟨sofar, rfl, hs, Value.below_refl sofar, List.forall_mem_nil _⟩
  | cons atom rest ih =>
    obtain ⟨⟨held, regular⟩, hrest⟩ := List.forall_mem_cons.1 ha
    obtain ⟨tagged, found, shape⟩ := g.exists_retagAtom choice held
    have ht : tagged.Regular kinds := by
      obtain rfl | ⟨tag, rfl⟩ := shape
      · exact regular
      · exact ⟨regular.canonical, regular.coherent⟩
    have joined := Value.regular_join hs ht
    obtain ⟨w, run, hw, below, above⟩ := ih joined hrest
    refine ⟨w, ?_, hw, Value.below_trans hs joined hw (Value.below_join hs ht) below,
      List.forall_mem_cons.2 ⟨fun tagged' found' => ?_, above⟩⟩
    · unfold retagAtoms
      rw [found]
      exact run
    · cases found'.symm.trans found
      exact Value.below_trans ht joined hw (Value.below_join_right hs ht) below

/-- What reaches the unit value through these tags is tagged for the choice: the outermost one is
that of another choice, which is an alternative; without any tag the unit type is one. -/
def TagsNext (g : Setting) (choice : ClazzId) (choices : List ClazzId) : Prop :=
  choices.head? ≠ some choice ∧
    (choices.head?.or (g.view.specialClazz? .unit)).bind (g.view.choiceTag? choice) ≠ none

/-- A value that reaches the unit value through `choices` has an atom that does so and is given a
tag, if `choice` comes next. -/
theorem retagAtom_of_reaches (next : g.TagsNext choice choices) (h : v.Reaches choices) :
    ∃ atom ∈ v.atoms, ∃ tag, atom.Reaches choices ∧
      g.retagAtom s choice atom = .ok (.tagged atom choice tag) := by
  obtain ⟨fresh, alternative⟩ := next
  obtain ⟨tag, alternative⟩ := Option.ne_none_iff_exists'.1 alternative
  cases choices with
  | nil =>
    have found : g.clazzOf? s .unit = .ok (g.view.specialClazz? .unit) := rfl
    exact ⟨.unit, h, tag, List.mem_singleton_self _,
      retagAtom_of_choiceTag? found nofun alternative⟩
  | cons choice' choices =>
    obtain ⟨content, tag', atom, reaches⟩ := h
    have found : g.clazzOf? s (.tagged content choice' tag') = .ok (some choice') := rfl
    refine ⟨_, atom, tag, Value.reaches_tagged reaches,
      retagAtom_of_choiceTag? found ?_ alternative⟩
    rintro _ _ ⟨⟩
    exact fresh rfl

variable (choice) in
/-- A tag on the outside of a value. -/
theorem reaches_retagAtoms (hv : v.Regular kinds) (held : ∀ atom ∈ v.atoms, s.Holds atom) :
    ∃ w, g.retagAtoms s choice .noValue v.atoms = .ok w ∧ w.Regular kinds ∧
      ∀ choices, g.TagsNext choice choices → v.Reaches choices → w.Reaches (choice :: choices) := by
  have empty : Value.noValue.Regular kinds := ⟨trivial, trivial⟩
  obtain ⟨w, run, hw, -, above⟩ := g.exists_retagAtoms (s := s) choice empty
    fun atom ha => ⟨held atom ha, hv.of_mem_atoms ha⟩
  refine ⟨w, run, hw, fun choices next reaches => ?_⟩
  obtain ⟨atom, ha, tag, reaches, found⟩ := retagAtom_of_reaches (s := s) next reaches
  have canonical : (Value.tagged atom choice tag).Canonical := (hv.of_mem_atoms ha).canonical
  exact (Value.reaches_tagged reaches).of_below canonical hw.canonical (above atom ha _ found)

end Setting

/-! ### Fields of choice types -/

/-- A table that keeps its keys still has what it had. -/
theorem Interned.KeepsKeys.has {space : Space} {κ α : Type} {t t' : Interned space κ α}
    (kept : t.KeepsKeys t') {i : Ident space} (inside : t.Has i) : t'.Has i := by
  obtain ⟨⟨key, state⟩, entry⟩ := Option.ne_none_iff_exists'.1 fun unknown =>
    StoreDiscipline.not_has_of_get?_eq_none unknown inside
  exact Interned.index_lt_size_of_key? (kept i key (Interned.key?_of_get? entry))

namespace Program

variable {p : Program}

/-- What holds of all values in the store of an analysis of the program. -/
structure SoundValue (p : Program) (s : Store) (v : Value) : Prop where
  holds : v.Everywhere s.Holds
  makes : v.Everywhere p.view.Makes
  regular : v.Regular p.view.numericKind

/-- The clazz is a field whose type is a choice for which values are tagged. -/
structure IsChoiceField (p : Program) (field choice : ClazzId) : Prop extends p.IsField field where
  occurs : p.view.Occurs field
  typed : (p.info field).result = some choice
  isChoice : p.isChoice choice = true
  notBool : p.isBool choice = false

namespace Sound

variable {s : Store} (sound : p.Sound s)

include sound

/-- What a field of an instance of a sound store holds is a sound value. -/
theorem field {id : InstanceId} {fields : Fields} (held : s.instances.state? id = some fields)
    {field : ClazzId} {v : Value} (written : fields.find? field = some v) : p.SoundValue s v :=
  have entry := OrderedMap.mem_entries_of_find? written
  ⟨sound.closed.values.field held entry, sound.fits.values.field held entry,
    Store.AllValues.field sound.regular held entry⟩

/-- The target of a call of a sound store is a sound value. -/
theorem target {id : CallId} {key : CallKey} (known : s.calls.key? id = some key) :
    p.SoundValue s key.target :=
  ⟨(sound.closed.values.call known).1, (sound.fits.values.call known).1,
    (Store.AllValues.call sound.regular known).1⟩

/-- The frame of a call of a sound store is an instance of the store. -/
theorem frame {id : CallId} {state : CallState} (held : s.calls.state? id = some state) :
    s.instances.Has state.frame := by
  obtain ⟨key, entry⟩ := Interned.exists_get?_of_state? held
  exact (sound.closed.calls id key state entry).2.1

/-- What a field holds is above what was written into it. -/
theorem attains_joinField (hp : p.WellFormed) {id : InstanceId} (inside : s.instances.Has id)
    {field : ClazzId} (occurs : p.view.Occurs field) {v : Value} (hv : p.SoundValue s v) :
    (Store.joinField id field v).Attains s fun _ t => s.Adds [] t ∧ p.Sound t ∧ ∃ fields w,
      t.instances.state? id = some fields ∧ fields.find? field = some w ∧ v.Below w := by
  have above {held : Option Value} (h : ∀ w, held = some w → w.Regular p.view.numericKind) :
      v.Below (.joinedTo held v) := by
    cases held with
    | none => exact Value.below_refl v
    | some w =>
      show v.Below (w.join v)
      exact Value.below_join_right (h w rfl) hv.regular
  obtain ⟨unknown, -⟩ | ⟨fields, held, cases⟩ := s.joinField_cases id field v
  · exact absurd inside
      (StoreDiscipline.not_has_of_get?_eq_none (Interned.get?_eq_none_of_state? unknown))
  have regular (w : Value) (h : fields.find? field = some w) := (sound.field held h).regular
  obtain ⟨same, run⟩ | ⟨grown, run⟩ := cases
  · exact ⟨(), s, run, .refl s, sound, fields, _, held, same, above regular⟩
  · have inv : (StoreDiscipline.closed hp).Inv s := ⟨sound.closed, sound.fits⟩
    have good : (StoreDiscipline.closed hp).Good s (.object id) :=
      ⟨Value.everywhere_object.2 inside, Value.everywhere_object.2 trivial⟩
    have goodValue : (StoreDiscipline.closed hp).Good s v := ⟨hv.holds, hv.makes⟩
    have ⟨closed, fits⟩ :=
      ((StoreDiscipline.closed hp).kept_putField inv held grown good occurs goodValue).inv
    have put := Store.growsRegularly_putField sound.regular held grown hv.regular
    refine ⟨(), _, run, { Store.Adds.refl s with instances := Interned.keepsKeys_set _ _ _ },
      ⟨closed, fits, put.regular⟩, _, _, Interned.state?_set held _, ?_, above regular⟩
    rw [OrderedMap.find?_insert, if_pos rfl]

end Sound

end Program

namespace Analyzer

variable {p : Program} {config : Config} {a : Analysis} {frame : InstanceId}
  {field choice : ClazzId} {v : Value}

/-- What a field of a choice type holds after a value has been written into it. -/
theorem attains_assignOne (hp : p.WellFormed) (sound : p.Sound a.store)
    (isField : p.IsChoiceField field choice) (inside : a.store.instances.Has frame)
    (hv : p.SoundValue a.store v) :
    ((p.analyzer config).assignOne (.object frame) [v] field).Attains a fun _ a' =>
      a.store.Adds [] a'.store ∧ p.Sound a'.store ∧ ∃ w,
        a'.store.readField field (.object frame) = .ok w ∧ p.SoundValue a'.store w ∧
        ∀ choices, (p.analyzer config).TagsNext choice choices → v.Reaches choices →
          w.Reaches (choice :: choices) := by
  have notUnit : (p.analyzer config).view.resultIsUnit field = false := isField.notUnit
  have typed : ((p.analyzer config).view.info field).result = some choice := isField.typed
  have held (atom : Value) (ha : atom ∈ v.atoms) := (hv.holds.of_mem_atoms ha).self
  obtain ⟨tagged, run, regular, reaches⟩ := Setting.reaches_retagAtoms
    (g := (p.analyzer config).toSetting) choice hv.regular held
  have retagged : (p.analyzer config).retag a.store field v = .ok tagged := by
    have isChoice : (p.analyzer config).view.isChoice choice = true := isField.isChoice
    have notBool : (p.analyzer config).view.isBool choice = false := isField.notBool
    unfold Setting.retag
    rw [typed]
    dsimp only
    rw [isChoice, notBool]
    exact run
  have gives := (AnalysisDiscipline.ofStore (z := p.analyzer config) (StoreDiscipline.closed hp)
    true).gives_retag ⟨sound.closed, sound.fits⟩ field ⟨hv.holds, hv.makes⟩
  rw [retagged] at gives
  cases gives with | ok good
  have written := attains_onStore (sound.attains_joinField hp inside isField.occurs
    ⟨good.1, good.2, regular⟩)
  unfold assignOne
  rw [notUnit]
  have taken : (p.analyzer config).written field [v] = .ok v := rfl
  refine attains_lift_bind taken (attains_currentStore_bind (attains_lift_bind retagged
    (written.bind ?_)))
  -- The field holds what was written or more, and more reaches whatever less does.
  rintro _ b ⟨adds, sound', fields, w, here, held, below⟩
  have hw := sound'.field here held
  refine attains_pure ⟨adds, sound', w, ?_, hw, fun choices next reached =>
    (reaches choices next reached).of_below regular.canonical hw.regular.canonical below⟩
  unfold Store.readField Store.fields
  rw [here]
  show Except.ok ((fields.find? field).getD .undefined) = _
  rw [held]
  rfl

/-- A value is written into a field of a choice type and read from it again. -/
theorem Continues.passing (hp : p.WellFormed) {act : Activation} {code : CodeId} {index : Nat}
    {stack : List Value} {choices : List ClazzId} {post : Analysis → Prop} (sound : p.Sound a.store)
    (isField : p.IsChoiceField field choice) (inside : a.store.instances.Has act.frame)
    (hv : p.SoundValue a.store v) (next : (p.analyzer config).TagsNext choice choices)
    (reaches : v.Reaches choices) (write : p.instr? code index = some (.assign (.fixed field)))
    (current : p.instr? code (index + 1) = some .current)
    (read : p.instr? code (index + 2) = some (.call (.fixed field)))
    (h : ∀ w a', a.store.Adds [] a'.store → p.Sound a'.store → p.SoundValue a'.store w →
      (∀ choices, (p.analyzer config).TagsNext choice choices → v.Reaches choices →
        w.Reaches (choice :: choices)) →
      Continues p config act code (index + 3) (w :: stack) a' post) :
    Continues p config act code index (v :: act.current :: stack) a post := by
  refine .assign write isField.toIsField
    ((attains_assignOne hp sound isField inside hv).mono fun _ a' holds => ?_)
  obtain ⟨adds, sound', w, held, hw, tagged⟩ := holds
  have there : w ≠ .noValue := (tagged choices next reaches).ne_noValue
  refine .instr current fun nested => ⟨_, a', rfl, ?_⟩
  exact .read read isField.toIsField held there (h w a' adds sound' hw tagged)

end Analyzer

end ClosedWorld
