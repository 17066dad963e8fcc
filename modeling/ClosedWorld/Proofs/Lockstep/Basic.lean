import ClosedWorld.Proofs.Analysis.Fixpoint
import ClosedWorld.Proofs.Store.Following
import ClosedWorld.Proofs.Store.Sound

/-!
# Analyses in lockstep

An analysis that is still under way is followed by one that has come to rest: the same steps are
taken on both sides, with operands that mirror each other. The one that is at rest changes nothing,
so whatever the other one writes is mirrored already, and what it yields is mirrored again.

## Main definitions

* `Store.Rests`: a store at rest.
* `Notes`: a step that leaves the store as it was unless it notes a change.
* `Follows`: two steps in lockstep.
* `AnswerMirrors`, `ActMirrors`: answers and calls that mirror each other.

## Main statements

* `Follows.bind`, `Follows.lift_bind` and the others: the rules.
* `follows_newCall`: a new call is one that mirrors a known call.
-/

namespace ClosedWorld

/-- A store in which nothing is left to do, where instances, arrays and nodes are told apart by
where they come from alone. -/
structure Store.Rests (view : View) (t : Store) : Prop where
  coarse : t.IsCoarse
  quiet : t.change = none
  sound : t.Sound view
  framed : t.Framed

variable {α β γ δ : Type} {a b : Analysis}

/-! ### Steps that note what they do -/

/-- The step leaves the store as it was if no change is noted at its end. -/
structure Notes (step : Analyzing α) (b : Analysis) : Prop where
  eq_of_quiet : ∀ {x b'}, step.outcome b = (.ok x, b') → b'.store.change = none →
    b'.store = b.store

namespace Notes

/-- Giving an answer leaves the store as it is. -/
theorem pure (x : α) (b : Analysis) : Notes (pure x) b where
  eq_of_quiet := by
    rintro _ _ ⟨⟩ -
    rfl

/-- Steps one after the other note what they do if both of them do. -/
theorem bind {step : Analyzing α} {next : α → Analyzing β} (first : Notes step b)
    (rest : ∀ x b', step.outcome b = (.ok x, b') → Notes (next x) b') : Notes (step >>= next) b where
  eq_of_quiet run unchanged := by
    obtain ⟨x, c, here, later⟩ := Attempt.outcome_bind_eq_ok run
    have same := (rest x c here).eq_of_quiet later unchanged
    exact same.trans (first.eq_of_quiet here (same ▸ unchanged))

/-- Operations that evolve the store note what they do. -/
theorem onStore {op : Updating α}
    (evolves : b.store.Evolves (fun _ => True) (fun _ => True) (op.outcome b.store).2) :
    Notes (onStore op) b where
  eq_of_quiet run unchanged := by
    rw [outcome_onStore_eq_ok run] at evolves
    exact evolves.eq_of_quiet unchanged

/-- Whatever keeps to the discipline of quiet stores notes what it does. -/
theorem of_safe {z : Analyzer} {post : α → Analysis → Prop} {step step' : Analyzing α}
    (safe : (AnalysisDiscipline.quiet z b.store).runs.Safe post step step' b b) : Notes step b where
  eq_of_quiet run unchanged := by
    obtain ⟨_, -, alike, -, -⟩ := safe.of_ok run
    exact alike.2 unchanged

end Notes

/-- A state is beside itself in the discipline of its own store. -/
theorem AnalysisDiscipline.alike_quiet (z : Analyzer) (b : Analysis) :
    (AnalysisDiscipline.quiet z b.store).runs.Alike b b := ⟨rfl, fun _ => rfl⟩

/-! ### Lockstep -/

variable {view : View} {t : Store} {mid : α → β → Store → Prop} {post : γ → δ → Store → Prop}
  {step : Analyzing α} {step' : Analyzing β} {next : α → Analyzing γ} {next' : β → Analyzing δ}

/-- If both steps succeed and the second one ends in the store at rest, then the first one leaves
its store covered by that, and the two results are as wanted. -/
structure Follows (view : View) (t : Store) (mid : α → β → Store → Prop) (step : Analyzing α)
    (step' : Analyzing β) (a b : Analysis) : Prop where
  of_ok : ∀ {x a' y b'}, step.outcome a = (.ok x, a') → step'.outcome b = (.ok y, b') →
    b'.store = t → Store.Proceeds view t a.store a'.store ∧ mid x y a'.store

namespace Follows

/-- A step that writes nothing is followed by anything. -/
theorem pure_left {x : α} (hs : Store.Covered view t a.store) (holds : ∀ y, mid x y a.store) :
    Follows view t mid (pure x) step' a b where
  of_ok := by
    rintro _ _ y _ ⟨⟩ - -
    exact ⟨.refl hs, holds y⟩

/-- Two steps that only give answers follow each other if the answers are as wanted. -/
theorem pure {x : α} {y : β} (hs : Store.Covered view t a.store) (holds : mid x y a.store) :
    Follows view t mid (pure x) (pure y) a b where
  of_ok := by
    rintro _ _ _ _ ⟨⟩ ⟨⟩ -
    exact ⟨.refl hs, holds⟩

/-- A step that fails is followed by anything. -/
theorem throw_left {fault : Fault} : Follows view t mid (throw fault) step' a b where
  of_ok := by rintro _ _ _ _ ⟨⟩

/-- Any step is followed by one that fails, as nothing is said of that. -/
theorem throw_right {fault : Fault} : Follows view t mid step (throw fault) a b where
  of_ok := by rintro _ _ _ _ - ⟨⟩

/-- Steps after one another follow each other. What comes later at rest has to note what it does, so
that the store is at rest in between. -/
theorem bind (quiet : t.change = none) (first : Follows view t mid step step' a b)
    (notes : ∀ y b', step'.outcome b = (.ok y, b') → Notes (next' y) b')
    (rest : ∀ x y a' b', step.outcome a = (.ok x, a') → step'.outcome b = (.ok y, b') →
      b'.store = t → Store.Proceeds view t a.store a'.store → mid x y a'.store →
      Follows view t post (next x) (next' y) a' b') :
    Follows view t post (step >>= next) (step' >>= next') a b where
  of_ok run run' rests := by
    obtain ⟨x, a₁, here, later⟩ := Attempt.outcome_bind_eq_ok run
    obtain ⟨y, b₁, here', later'⟩ := Attempt.outcome_bind_eq_ok run'
    have between : b₁.store = t :=
      ((notes y b₁ here').eq_of_quiet later' (rests ▸ quiet)).symm.trans rests
    obtain ⟨proceeds, holds⟩ := first.of_ok here here' between
    obtain ⟨proceeds', holds'⟩ :=
      (rest x y a₁ b₁ here here' between proceeds holds).of_ok later later' rests
    exact ⟨proceeds.trans proceeds', holds'⟩

/-- A step that only the second analysis takes, and that is at rest, may come first. -/
theorem after_right {mid : α → δ → Store → Prop} (quiet : t.change = none)
    (notes : ∀ y b', step'.outcome b = (.ok y, b') → Notes (next' y) b')
    (rest : ∀ y b', step'.outcome b = (.ok y, b') → b'.store = t →
      Follows view t mid step (next' y) a b') :
    Follows view t mid step (step' >>= next') a b where
  of_ok run run' rests := by
    obtain ⟨y, b₁, here', later'⟩ := Attempt.outcome_bind_eq_ok run'
    have between : b₁.store = t :=
      ((notes y b₁ here').eq_of_quiet later' (rests ▸ quiet)).symm.trans rests
    exact (rest y b₁ here' between).of_ok run later' rests

/-- Changing the results of steps that follow each other is fine if the new results are as wanted.
-/
theorem map {f : α → γ} {f' : β → δ} (h : Follows view t mid step step' a b)
    (holds : ∀ x y s, a.store.Keeps s → mid x y s → post (f x) (f' y) s) :
    Follows view t post (f <$> step) (f' <$> step') a b where
  of_ok run run' rests := by
    rw [map_eq_pure_bind] at run run'
    obtain ⟨x, a₁, here, ⟨⟩⟩ := Attempt.outcome_bind_eq_ok run
    obtain ⟨y, b₁, here', ⟨⟩⟩ := Attempt.outcome_bind_eq_ok run'
    obtain ⟨proceeds, held⟩ := h.of_ok here here' rests
    exact ⟨proceeds, holds x y _ proceeds.keeps held⟩

/-- Steps that follow each other may compute a result from what they give. -/
theorem bind_pure {f : α → γ} {f' : β → δ} (h : Follows view t mid step step' a b)
    (holds : ∀ x y s, a.store.Keeps s → mid x y s → post (f x) (f' y) s) :
    Follows view t post (step >>= fun x => Pure.pure (f x)) (step' >>= fun y => Pure.pure (f' y))
      a b := by
  rw [← map_eq_pure_bind, ← map_eq_pure_bind]
  exact h.map holds

/-- Results that were computed without the state may be used by steps that follow each other for all
such results. -/
theorem lift_bind {r : Except Fault α} {r' : Except Fault β}
    (rest : ∀ x y, r = .ok x → r' = .ok y → Follows view t post (next x) (next' y) a b) :
    Follows view t post (liftM r >>= next) (liftM r' >>= next') a b where
  of_ok run run' rests := by
    obtain ⟨x, given, later⟩ := Attempt.outcome_lift_bind_eq_ok run
    obtain ⟨y, given', later'⟩ := Attempt.outcome_lift_bind_eq_ok run'
    exact (rest x y given given').of_ok later later' rests

/-- Looking at the two stores gives each step the store of its own analysis. -/
theorem currentStore_bind {next : Store → Analyzing γ} {next' : Store → Analyzing δ}
    (rest : Follows view t post (next a.store) (next' b.store) a b) :
    Follows view t post (currentStore >>= next) (currentStore >>= next') a b where
  of_ok run run' rests := by
    obtain ⟨_, _, ⟨⟩, later⟩ := Attempt.outcome_bind_eq_ok run
    obtain ⟨_, _, ⟨⟩, later'⟩ := Attempt.outcome_bind_eq_ok run'
    exact rest.of_ok later later' rests

/-- Operations on the two stores follow each other if the second one leaves the store at rest alone
and the first one keeps its store covered. -/
theorem onStore {op : Updating α} {op' : Updating β}
    (h : ∀ {x s' y t'}, op.outcome a.store = (.ok x, s') → op'.outcome b.store = (.ok y, t') →
      t' = t → Store.Proceeds view t a.store s' ∧ mid x y s') :
    Follows view t mid (onStore op) (onStore op') a b where
  of_ok run run' rests := h (outcome_onStore_eq_ok run) (outcome_onStore_eq_ok run') rests

/-- Notes that only the first analysis takes, and that leave its store alone, may come first. -/
theorem note_left {note : Analyzing Unit} {step : Analyzing α}
    (kept : ∀ a, (note.outcome a).2.store = a.store)
    (rest : ∀ a', a'.store = a.store → Follows view t mid step step' a' b) :
    Follows view t mid (note >>= fun _ => step) step' a b where
  of_ok run run' rests := by
    obtain ⟨_, a₁, noted, later⟩ := Attempt.outcome_bind_eq_ok run
    have same := kept a
    rw [noted] at same
    rw [← same]
    exact (rest a₁ same).of_ok later run' rests

/-- Notes that only the second analysis takes, and that leave its store alone, may come first. -/
theorem note_right {note : Analyzing Unit} {step' : Analyzing β}
    (kept : ∀ b, (note.outcome b).2.store = b.store)
    (rest : ∀ b', b'.store = b.store → Follows view t mid step step' a b') :
    Follows view t mid step (note >>= fun _ => step') a b where
  of_ok run run' rests := by
    obtain ⟨_, b₁, noted, later⟩ := Attempt.outcome_bind_eq_ok run'
    have same := kept b
    rw [noted] at same
    exact (rest b₁ same).of_ok run later rests

end Follows

/-- Recording a dispatch leaves the store alone. -/
theorem store_recordDispatch (site : Site) (clazz : ClazzId) (a : Analysis) :
    ((recordDispatch site clazz).outcome a).2.store = a.store := rfl

/-- Noting an intrinsic without a meaning leaves the store alone. -/
theorem Analyzer.store_noteUnsupported (z : Analyzer) (name : String) (id : CallId) (a : Analysis) :
    ((z.noteUnsupported name id).outcome a).2.store = a.store := by
  unfold Analyzer.noteUnsupported
  split
  · exact AnalysisDiscipline.store_diagnose _ a
  · rfl

/-- All numbers of a numeric clazz are made by the program. -/
theorem Setting.made_of_anyNumber {g : Setting} {clazz : ClazzId} {n : Number}
    (any : g.anyNumber clazz = .ok n) (bits : Option UInt64) :
    (Value.number { n with bits }).Made g.view := by
  unfold anyNumber at any
  split at any
  · rename_i kind special
    cases any
    exact .number special bits
  · cases any

/-! ### Answers and calls -/

/-- If there is a first answer, there is a second one that mirrors it. -/
def AnswerMirrors (view : View) (t : Store) (r r' : Option Value) (s : Store) : Prop :=
  ∀ v, r = some v → ∃ w, r' = some w ∧ Store.Mirrors view s t v w

/-- Where there is no answer, nothing has to mirror it. -/
theorem answerMirrors_none {r' : Option Value} {s : Store} : AnswerMirrors view t none r' s := by
  rintro _ ⟨⟩

/-- Answers mirror each other if their values do. -/
theorem answerMirrors_some {v w : Value} {s : Store} (hv : Store.Mirrors view s t v w) :
    AnswerMirrors view t (some v) (some w) s := by
  rintro _ ⟨⟩
  exact ⟨w, rfl, hv⟩

/-- Answers still mirror each other when the keys are kept. -/
theorem AnswerMirrors.mono {r r' : Option Value} {s s' : Store} (keeps : s.Keeps s')
    (h : AnswerMirrors view t r r' s) : AnswerMirrors view t r r' s' := by
  intro v there
  obtain ⟨w, there', mirrors⟩ := h v there
  exact ⟨w, there', mirrors.mono keeps⟩

/-- The calls whose code is walked mirror each other, and so do their frames. -/
structure ActMirrors (view : View) (t : Store) (act act' : Activation) (s : Store) : Prop where
  key : Store.KeyMirrors view s t act.key act'.key
  frame : s.provenance? (.object act.frame) = some (.created act.key.clazz)
  frame' : t.provenance? (.object act'.frame) = some (.created act.key.clazz)

/-- Calls whose code is walked still mirror each other when the keys are kept. -/
theorem ActMirrors.mono {act act' : Activation} {s s' : Store} (keeps : s.Keeps s')
    (h : ActMirrors view t act act' s) : ActMirrors view t act act' s' where
  key := h.key.mono keeps
  frame := keeps.provenance? h.frame
  frame' := h.frame'

/-- The current instances of calls that mirror each other mirror each other. -/
theorem ActMirrors.current {act act' : Activation} {s : Store} (h : ActMirrors view t act act' s) :
    Store.Mirrors view s t act.current act'.current :=
  .of_provenance (.object act.frame) (.object act'.frame) h.frame h.frame'

/-! ### New calls -/

/-- Making a new call is followed by making one that mirrors it, which is found there. -/
theorem follows_newCall {g : Setting} (hs : Store.Covered view t a.store) {key key' : CallKey}
    (mirrors : Store.KeyMirrors view a.store t key key') (origin origin' : CallId) :
    Follows view t (fun id id' s => s.calls.key? id = some key ∧ t.calls.key? id' = some key')
      (g.newCall key origin) (g.newCall key' origin') a b where
  of_ok run run' rests := by
    have known := Setting.key?_of_newCall run
    have known' := Setting.key?_of_newCall run'
    rw [rests] at known'
    rw [Setting.outcome_newCall] at run
    cases created : a.store.callKey origin with
    | error fault =>
      rw [created] at run
      cases run
    | ok creator =>
      rw [created] at run
      cases run
      exact ⟨Store.proceeds_internCall hs mirrors known' _ _, known, known'⟩

/-! ### Instances, arrays and fields -/

section store

variable (ht : t.Rests view) (hs : Store.Covered view t a.store) (hb : b.store = t)

include ht hs hb

omit ht in
/-- Interning an instance is followed by interning one of the same clazz, which mirrors it. -/
theorem follows_internInstance (clazz : ClazzId) (context : Option ClazzId) :
    Follows view t (fun id id' s => Store.Mirrors view s t (.object id) (.object id'))
      (onStore (Store.internInstance clazz context))
      (onStore (Store.internInstance clazz context)) a b := by
  refine .onStore ?_
  rintro id s' id' t' run run' rests
  rw [Attempt.outcome_growing] at run run'
  rw [hb] at run'
  obtain ⟨made', kept⟩ := Prod.mk.inj run'
  cases made'
  have known' := t.provenance?_internInstance clazz context
  rw [kept, rests] at known'
  have proceeds := Store.proceeds_internInstance hs clazz context
  have known := a.store.provenance?_internInstance clazz context
  cases run
  exact ⟨proceeds, .of_provenance (.object _) (.object _) known known'⟩

/-- Interning an array is followed by interning one of the same provenance, which mirrors it. -/
theorem follows_internArray {key key' : ArrayKey} {p : Provenance}
    (known : a.store.arrayProvenance? key = some p) (known' : t.arrayProvenance? key' = some p) :
    Follows view t (fun array array' s => Store.Mirrors view s t (.array array) (.array array'))
      (onStore (Store.internArray key)) (onStore (Store.internArray key')) a b := by
  refine .onStore ?_
  rintro array s' array' t' run run' rfl
  rw [Attempt.outcome_growing] at run run'
  rw [hb] at run'
  obtain ⟨made', rests⟩ := Prod.mk.inj run'
  cases made'
  obtain ⟨-, there'⟩ := Store.rests_internArray (rests ▸ ht.quiet)
  rw [known'] at there'
  obtain ⟨proceeds, there⟩ := Store.proceeds_internArray hs known there'
  cases run
  exact ⟨proceeds, .of_provenance (.array _) (.array _) there there'⟩

/-- Writing to an array is followed by writing to an array that mirrors it. -/
theorem follows_arraySet {array array' : ArrayId} {value value' : Value}
    (arrays : Store.Mirrors view a.store t (.array array) (.array array'))
    (values : Store.Mirrors view a.store t value value') :
    Follows view t (fun _ _ _ => True) (onStore (Store.arraySet array value))
      (onStore (Store.arraySet array' value')) a b := by
  refine .onStore fun {_ s' _ t'} run run' rests => ⟨?_, trivial⟩
  rw [hb] at run'
  obtain ⟨_, p, shown', known, known'⟩ := arrays.items (Value.shows_value (.array array))
  obtain ⟨-, rfl⟩ := shown'.of_value (.array array')
  obtain ⟨-, absorbs⟩ := Store.rests_arraySet run' (rests ▸ ht.quiet)
  have proceeds := Store.proceeds_arraySet ht.coarse hs known (values.mirrored (absorbs p known'))
  rwa [run] at proceeds

/-- Writing a field is followed by writing the same field, with target and value that mirror. -/
theorem follows_setField {value value' target target' : Value}
    (values : Store.Mirrors view a.store t value value')
    (targets : Store.Mirrors view a.store t target target') (field : ClazzId) :
    Follows view t (fun _ _ _ => True) (onStore (Store.setField field value target))
      (onStore (Store.setField field value' target')) a b := by
  refine .onStore fun {_ s' _ t'} run run' rests => ⟨?_, trivial⟩
  rw [hb] at run'
  have proceeds := Store.proceeds_setField ht.coarse hs values targets run' (rests ▸ ht.quiet)
  rwa [run] at proceeds

end store

/-- Writing a field notes that it does. -/
theorem notes_setField (field : ClazzId) (value target : Value) (b : Analysis) :
    Notes (onStore (Store.setField field value target)) b :=
  .onStore (Store.evolves_setField field trivial target b.store)

end ClosedWorld
