import ClosedWorld.Proofs.Analysis.Returns
import ClosedWorld.Proofs.Lockstep.Basic

/-!
# Intrinsics in lockstep

A call of an intrinsic is followed by every call that mirrors it. The two tables may differ in one
intrinsic that has no meaning at rest, and that answers with a boolean on the other side.

## Main definitions

* `Analyzer.answering`: the analyzer for which an intrinsic answers with a boolean.
* `ProductMirrors`: what two calls of an intrinsic produce.

## Main statements

* `follows_handler`: the meanings of the standard library.
* `follows_produced`: what the calls produce.
-/

namespace ClosedWorld

/-- Whatever the call is, the answer is the boolean. -/
def Handler.always (truth : Truth) : Handler := fun _ _ => return some (.bool truth)

/-- The analyzer for which the intrinsic answers with the boolean. -/
def Analyzer.answering (z : Analyzer) (name : String) (truth : Truth) : Analyzer :=
  { z with intrinsics := z.intrinsics.insert name (.handler (.always truth)) }

/-- What a call produces is mirrored by what another one produces, which is a value if it is one. -/
def ProductMirrors (view : View) (t : Store) (r r' : Option Value) (s : Store) : Prop :=
  AnswerMirrors view t r r' s ∧ (IsThere r → IsThere r')

/-- A product is mirrored by a value that is not `noValue` and mirrors it. -/
theorem productMirrors_some {view : View} {t s : Store} {v w : Value}
    (hv : Store.Mirrors view s t v w) (there : w ≠ .noValue) :
    ProductMirrors view t (some v) (some w) s :=
  ⟨answerMirrors_some hv, fun _ => ⟨w, rfl, there⟩⟩

/-- Products still mirror each other when the keys are kept. -/
theorem ProductMirrors.mono {view : View} {t s s' : Store} {r r' : Option Value}
    (keeps : s.Keeps s') (h : ProductMirrors view t r r' s) : ProductMirrors view t r r' s' :=
  h.imp_left (.mono keeps)

/-- Where nothing is produced, nothing has to mirror it. -/
theorem productMirrors_none {view : View} {t s : Store} {r' : Option Value} :
    ProductMirrors view t none r' s :=
  ⟨answerMirrors_none, by rintro ⟨_, ⟨⟩, -⟩⟩

/-- Arguments that are passed on both sides mirror each other. -/
theorem mirrors_argument {view : View} {s t : Store} {g : Setting} {clazz clazz' : ClazzId}
    {args args' : List Value} (mirrors : List.Forall₂ (Store.Mirrors view s t) args args')
    {index : Nat} {v w : Value} (passed : g.argument clazz args index = .ok v)
    (passed' : g.argument clazz' args' index = .ok w) : Store.Mirrors view s t v w := by
  unfold Setting.argument at passed passed'
  cases there : args[index]? with
  | none =>
    rw [there] at passed
    cases passed
  | some x =>
    cases there' : args'[index]? with
    | none =>
      rw [there'] at passed'
      cases passed'
    | some y =>
      rw [there] at passed
      rw [there'] at passed'
      cases passed
      cases passed'
      obtain ⟨hi, rfl⟩ := List.getElem?_eq_some_iff.1 there
      obtain ⟨hi', rfl⟩ := List.getElem?_eq_some_iff.1 there'
      exact (List.forall₂_iff_get.1 mirrors).2 index hi hi'

section handlers

variable {z : Analyzer} {t : Store} {a b : Analysis} {id id' : CallId} {key key' : CallKey}

/-- Two calls that mirror each other, one of them in a store at rest. -/
structure CallsMirror (view : View) (t : Store) (a b : Analysis) (id id' : CallId)
    (key key' : CallKey) : Prop where
  covered : Store.Covered view t a.store
  rests : b.store = t
  called : a.store.calls.key? id = some key
  called' : t.calls.key? id' = some key'
  mirrors : Store.KeyMirrors view a.store t key key'

/-- Both calls look up what they are called with, and go on with keys that mirror each other. -/
theorem CallsMirror.follows_callKey {γ δ : Type} {view : View} {post : γ → δ → Store → Prop}
    (h : CallsMirror view t a b id id' key key') {next : CallKey → Analyzing γ}
    {next' : CallKey → Analyzing δ} (rest : Follows view t post (next key) (next' key') a b) :
    Follows view t post (currentStore >>= fun s => liftM (s.callKey id) >>= next)
      (currentStore >>= fun s => liftM (s.callKey id') >>= next') a b := by
  refine .currentStore_bind (.lift_bind fun key₁ key₂ found found' => ?_)
  cases h.called.symm.trans (Store.key?_of_callKey found)
  rw [h.rests] at found'
  cases h.called'.symm.trans (Store.key?_of_callKey found')
  exact rest

/-- Calls of `anyResult` follow each other: both give any number of the result clazz. -/
theorem follows_anyResult (h : CallsMirror z.view t a b id id' key key') :
    Follows z.view t (ProductMirrors z.view t) (Handler.anyResult z.toSetting id)
      (Handler.anyResult z.toSetting id') a b := by
  unfold Handler.anyResult
  refine h.follows_callKey ?_
  rw [h.mirrors.clazz]
  cases (z.view.info key.clazz).result with
  | none => exact .throw_left
  | some result =>
    refine .lift_bind fun n n' made made' => ?_
    cases made.symm.trans made'
    exact .pure h.covered
      (productMirrors_some (.of_isPlain (Setting.made_of_anyNumber made n.bits) rfl _) (by simp))

/-! ### Arrays -/

/-- Calls of `arrayAlloc` follow each other: arrays that calls of one clazz allocate are of one
provenance. -/
theorem follows_arrayAlloc (ht : t.Rests z.view) (h : CallsMirror z.view t a b id id' key key') :
    Follows z.view t (ProductMirrors z.view t) (Handler.arrayAlloc z.toSetting id)
      (Handler.arrayAlloc z.toSetting id') a b := by
  have known : a.store.arrayProvenance? (.alloc id) = some (.allocated key.clazz) := by
    dsimp only [Store.arrayProvenance?]
    rw [h.called]
    rfl
  have known' : t.arrayProvenance? (.alloc id') = some (.allocated key.clazz) := by
    dsimp only [Store.arrayProvenance?]
    rw [h.called', Option.map_some, h.mirrors.clazz]
  exact (follows_internArray ht h.covered h.rests known known').bind_pure
    fun array array' s _ mirrors => productMirrors_some mirrors (by simp)

/-- A write into arrays that changes nothing has written already, so their elements absorb the
value. -/
theorem absorbs_of_writeElements (z : Analyzer) {value : Value} {arrays : List Value}
    (hb : b.store = t)
    (quiet : t.change = none) {b' : Analysis}
    (run : (Handler.writeElements value arrays).outcome b = (.ok (), b')) (rests : b'.store = t) :
    ∀ array, .array array ∈ arrays → ∀ p, t.provenance? (.array array) = some p →
      t.Absorbs (.elements p) value := by
  induction arrays generalizing b with
  | nil => exact fun _ listed => absurd listed List.not_mem_nil
  | cons atom rest ih =>
    unfold Handler.writeElements at run
    obtain ⟨array, is, run⟩ := Attempt.outcome_lift_bind_eq_ok run
    obtain ⟨_, c, first, later⟩ := Attempt.outcome_bind_eq_ok run
    have notes : Notes (Handler.writeElements value rest) c :=
      .of_safe (AnalysisDiscipline.safe_writeElements _ (AnalysisDiscipline.alike_quiet z c) trivial
        fun _ _ => trivial)
    have between : c.store = t := (notes.eq_of_quiet later (rests ▸ quiet)).symm.trans rests
    have written := outcome_onStore_eq_ok first
    rw [hb, between] at written
    intro array' listed
    rcases List.mem_cons.1 listed with rfl | listed
    · cases is
      exact (Store.rests_arraySet written quiet).2
    · exact ih between later array' listed

/-- An array that a value shows without any wrapping is one of the atoms that are `present` in it.
-/
theorem mem_present_of_shows {v : Value} {array : ArrayId} (shown : v.Shows [] (.array array)) :
    .array array ∈ Handler.present v :=
  List.mem_filter.2 ⟨shown, rfl⟩

/-- The atom that is taken for an array is this array. -/
theorem eq_array_of_asArray {atom : Value} {array : ArrayId} (h : atom.asArray = .ok array) :
    atom = .array array := by
  cases atom with
  | array _ =>
    cases h
    rfl
  | _ => cases h

/-- Arrays in a value that is mirrored are mirrored by arrays. -/
theorem exists_array_of_mem_present {view : View} {s : Store} {v w : Value}
    (mirrors : Store.Mirrors view s t v w) {array : ArrayId}
    (there : .array array ∈ Handler.present v) :
    ∃ array' p, .array array' ∈ Handler.present w ∧ s.provenance? (.array array) = some p ∧
      t.provenance? (.array array') = some p := by
  have shown : v.Shows [] (.array array) := (List.mem_filter.1 there).1
  obtain ⟨item', p, shown', known, known'⟩ := mirrors.items shown
  obtain ⟨array', _, rfl, -, -⟩ := Store.exists_array known known'
  exact ⟨array', p, mem_present_of_shows shown', known, known'⟩

/-- Writes proceed where all arrays mirror what is written. -/
theorem proceeds_writeElements {view : View} (ht : t.IsCoarse) {value : Value} {arrays : List Value}
    (hs : Store.Covered view t a.store) {a' : Analysis}
    (mirrored : ∀ array, .array array ∈ arrays → ∃ p, a.store.provenance? (.array array) = some p ∧
      Store.Mirrored view t a.store (.elements p) value)
    (run : (Handler.writeElements value arrays).outcome a = (.ok (), a')) :
    Store.Proceeds view t a.store a'.store := by
  induction arrays generalizing a with
  | nil =>
    cases run
    exact .refl hs
  | cons atom rest ih =>
    unfold Handler.writeElements at run
    obtain ⟨array, is, run⟩ := Attempt.outcome_lift_bind_eq_ok run
    obtain ⟨_, c, first, later⟩ := Attempt.outcome_bind_eq_ok run
    obtain ⟨p, known, here⟩ := mirrored array (eq_array_of_asArray is ▸ List.mem_cons_self)
    have proceeds := Store.proceeds_arraySet ht hs known here
    rw [outcome_onStore_eq_ok first] at proceeds
    refine proceeds.trans (ih proceeds.covered (fun array' listed => ?_) later)
    obtain ⟨p, known, there⟩ := mirrored array' (List.mem_cons_of_mem _ listed)
    exact ⟨p, proceeds.keeps.provenance? known, there.mono proceeds.keeps⟩

/-- Calls of `arraySetel` follow each other: the element is written to all arrays that the argument
may be. -/
theorem follows_arraySetel (ht : t.Rests z.view) (h : CallsMirror z.view t a b id id' key key') :
    Follows z.view t (ProductMirrors z.view t) (Handler.arraySetel z.toSetting id)
      (Handler.arraySetel z.toSetting id') a b := by
  unfold Handler.arraySetel
  refine h.follows_callKey (.lift_bind fun array array' passed passed' => ?_)
  refine .lift_bind fun value value' given given' => ?_
  have arrays := mirrors_argument h.mirrors.args passed passed'
  have values := mirrors_argument h.mirrors.args given given'
  have written : Follows z.view t (fun _ _ _ => True)
      (Handler.writeElements value (Handler.present array))
      (Handler.writeElements value' (Handler.present array')) a b := by
    refine ⟨fun run run' rests => ⟨proceeds_writeElements ht.coarse h.covered ?_ run, trivial⟩⟩
    intro id there
    obtain ⟨id', p, there', known, known'⟩ := exists_array_of_mem_present arrays there
    have absorbs := absorbs_of_writeElements z h.rests ht.quiet run' rests id' there' p known'
    exact ⟨p, known, values.mirrored absorbs⟩
  exact written.bind_pure fun _ _ s _ _ => productMirrors_some (.of_unit _) (by simp)

/-- What an array holds is in what is read of several. -/
theorem shows_readElements {s : Store} {arrays : List Value} {sofar w : Value}
    (read : Handler.readElements s sofar arrays = .ok w) :
    (∀ path item, sofar.Shows path item → w.Shows path item) ∧
      ∀ array, .array array ∈ arrays → ∃ held, s.arrayGet array = .ok held ∧
        ∀ path item, held.Shows path item → w.Shows path item := by
  induction arrays generalizing sofar with
  | nil =>
    cases read
    exact ⟨fun _ _ shown => shown, fun _ listed => absurd listed List.not_mem_nil⟩
  | cons atom rest ih =>
    unfold Handler.readElements at read
    obtain ⟨array, is, read⟩ := exists_of_bind_eq_ok read
    obtain ⟨held, got, read⟩ := exists_of_bind_eq_ok read
    obtain ⟨before, later⟩ := ih read
    refine ⟨fun path item shown => before path item (Value.shows_join.2 (.inl shown)), ?_⟩
    intro array' listed
    rcases List.mem_cons.1 listed with rfl | listed
    · cases is
      exact ⟨held, got, fun path item shown => before path item (Value.shows_join.2 (.inr shown))⟩
    · exact later array' listed

/-- Where something is read, there is an array. -/
theorem exists_array_of_readElements {s : Store} {arrays : List Value} {v : Value}
    (read : Handler.readElements s .noValue arrays = .ok v) (there : v ≠ .noValue) :
    ∃ array, .array array ∈ arrays := by
  cases arrays with
  | nil =>
    cases read
    exact absurd rfl there
  | cons atom rest =>
    unfold Handler.readElements at read
    obtain ⟨array, is, -⟩ := exists_of_bind_eq_ok read
    exact ⟨array, eq_array_of_asArray is ▸ List.mem_cons_self⟩

/-- What is read of arrays is mirrored by what is read of arrays that mirror them. -/
theorem mirrors_readElements {view : View} {s : Store} {arrays : List Value} {sofar v w : Value}
    (mirrors : Store.Mirrors view s t sofar w)
    (held : ∀ array, .array array ∈ arrays → ∀ u, s.arrayGet array = .ok u →
      Store.Mirrors view s t u w)
    (read : Handler.readElements s sofar arrays = .ok v) : Store.Mirrors view s t v w := by
  induction arrays generalizing sofar with
  | nil =>
    cases read
    exact mirrors
  | cons atom rest ih =>
    unfold Handler.readElements at read
    obtain ⟨array, is, read⟩ := exists_of_bind_eq_ok read
    obtain ⟨u, got, read⟩ := exists_of_bind_eq_ok read
    have here := held array (eq_array_of_asArray is ▸ List.mem_cons_self) u got
    exact ih (mirrors.join_of here)
      (fun array listed => held array (List.mem_cons_of_mem _ listed)) read

/-- Calls of `arrayGet` follow each other: elements are read of all arrays that the argument may be.
-/
theorem follows_arrayGet (ht : t.Rests z.view) (h : CallsMirror z.view t a b id id' key key') :
    Follows z.view t (ProductMirrors z.view t) (Handler.arrayGet z.toSetting id)
      (Handler.arrayGet z.toSetting id') a b := by
  unfold Handler.arrayGet
  refine .currentStore_bind (.lift_bind fun key₁ key₂ found found' => ?_)
  cases h.called.symm.trans (Store.key?_of_callKey found)
  rw [h.rests] at found' ⊢
  cases h.called'.symm.trans (Store.key?_of_callKey found')
  refine .lift_bind fun array array' passed passed' => .lift_bind fun v w read read' => ?_
  have arrays := mirrors_argument h.mirrors.args passed passed'
  have mirrors : Store.Mirrors z.view a.store t v w := by
    refine mirrors_readElements (.of_noValue w) (fun id there u got => ?_) read
    obtain ⟨id', p, there', known, known'⟩ := exists_array_of_mem_present arrays there
    obtain ⟨held, got', more⟩ := (shows_readElements read').2 id' there'
    exact (Store.mirrors_arrayGet ht.coarse h.covered known known' got got').in_shows more
  refine .pure h.covered ⟨answerMirrors_some mirrors, ?_⟩
  rintro ⟨_, ⟨⟩, there⟩
  obtain ⟨id, listed⟩ := exists_array_of_readElements read there
  obtain ⟨_, _, listed', -⟩ := exists_array_of_mem_present arrays listed
  exact ⟨w, rfl, Handler.readElements_ne_noValue read' (.inr (List.ne_nil_of_mem listed'))⟩

/-! ### Effects -/

/-- Calls of `effectDefault` follow each other: the target is installed as a default. -/
theorem follows_effectDefault (ht : t.Rests z.view) (h : CallsMirror z.view t a b id id' key key') :
    Follows z.view t (ProductMirrors z.view t) (Handler.effectDefault z.toSetting id)
      (Handler.effectDefault z.toSetting id') a b := by
  unfold Handler.effectDefault
  refine h.follows_callKey (.lift_bind fun effect effect' typed typed' => ?_)
  rw [h.mirrors.clazz] at typed'
  cases typed.symm.trans typed'
  have installed : Follows z.view t (fun _ _ _ => True)
      (onStore (Store.installDefault effect key.target))
      (onStore (Store.installDefault effect key'.target)) a b := by
    refine .onStore ?_
    rintro _ s' _ t' run run' rfl
    rw [Attempt.outcome_growing] at run run'
    rw [h.rests] at run'
    obtain ⟨-, rests⟩ := Prod.mk.inj run'
    obtain ⟨-, absorbs⟩ := Store.rests_installDefault (rests ▸ ht.quiet)
    have proceeds := Store.proceeds_installDefault ht.coarse h.covered
      (h.mirrors.target.mirrored absorbs)
    cases run
    exact ⟨proceeds, trivial⟩
  exact installed.bind_pure fun _ _ s _ _ => productMirrors_some (.of_unit _) (by simp)

/-- Calls of `effectReplace` follow each other: the target replaces the effect in the environment of
the call. -/
theorem follows_effectReplace (ht : t.Rests z.view) (h : CallsMirror z.view t a b id id' key key') :
    Follows z.view t (ProductMirrors z.view t) (Handler.effectReplace z.toSetting id)
      (Handler.effectReplace z.toSetting id') a b := by
  unfold Handler.effectReplace
  refine h.follows_callKey (.lift_bind fun effect effect' typed typed' => ?_)
  rw [h.mirrors.clazz] at typed'
  cases typed.symm.trans typed'
  have replaced : Follows z.view t (fun _ _ _ => True)
      (onStore (Store.replaceEffect key.env effect key.target))
      (onStore (Store.replaceEffect key'.env effect key'.target)) a b := by
    refine .onStore ?_
    rintro _ s' _ t' run run' rfl
    rw [h.rests] at run'
    have proceeds := Store.proceeds_replaceEffect ht.coarse h.covered h.mirrors.env h.mirrors.target
      run' ht.quiet
    rw [run] at proceeds
    exact ⟨proceeds, trivial⟩
  exact replaced.bind_pure fun _ _ s _ _ => productMirrors_some (.of_unit _) (by simp)

/-- Making a new call notes that it does. -/
theorem notes_newCall (z : Analyzer) (key : CallKey) (origin : CallId) (b : Analysis) :
    Notes (z.newCall key origin) b :=
  .of_safe (AnalysisDiscipline.safe_newCall_store (StoreDiscipline.quiet z.view b.store)
    (AnalysisDiscipline.alike_quiet z b) (StoreDiscipline.goodKey_quiet ..) trivial)

/-- Calls of `effectAbortable` follow each other: the function is called where the target is
installed. -/
theorem follows_effectAbortable (ht : t.Rests z.view)
    (h : CallsMirror z.view t a b id id' key key') :
    Follows z.view t (ProductMirrors z.view t) (Handler.effectAbortable z.toSetting id)
      (Handler.effectAbortable z.toSetting id') a b := by
  unfold Handler.effectAbortable
  refine h.follows_callKey (.lift_bind fun effect effect' typed typed' => ?_)
  rw [h.mirrors.clazz] at typed' ⊢
  cases typed.symm.trans typed'
  cases (z.view.info key.clazz).generics.head? with
  | none => exact .throw_left
  | some fn =>
    dsimp only
    cases (z.view.info fn).call with
    | none => exact .throw_left
    | some call =>
      refine .lift_bind fun target target' passed passed' => ?_
      have targets := mirrors_argument h.mirrors.args passed passed'
      have extended : Follows z.view t
          (fun env env' s => Store.EnvMirrors s t (some env) (some env'))
          (onStore (Store.extendEnv key.env effect key.target))
          (onStore (Store.extendEnv key'.env effect key'.target)) a b := by
        refine .onStore ?_
        rintro env s' env' t' run run' rfl
        rw [Attempt.outcome_growing] at run run'
        rw [h.rests] at run'
        obtain ⟨made', rests⟩ := Prod.mk.inj run'
        cases made'
        have quiet := ht.quiet
        rw [← rests] at quiet
        have proceeds := Store.proceeds_extendEnv h.covered h.mirrors.env
          h.mirrors.target ht.sound.binds quiet
        cases run
        exact proceeds
      refine extended.bind ht.quiet (fun env' b' _ => ?_) fun env env' a' b' _ _ hb proceeds envs => ?_
      · exact (notes_newCall z _ id' b').bind fun _ _ _ => .pure _ _
      have mirrors : Store.KeyMirrors z.view a'.store t
          { clazz := call, pre := false, target, args := [], env := some env }
          { clazz := call, pre := false, target := target', args := [], env := some env' } :=
        { clazz := rfl
          pre := rfl
          target := targets.mono proceeds.keeps
          args := .nil
          env := envs }
      exact (follows_newCall proceeds.covered mirrors id id').bind_pure
        fun _ _ s _ _ => productMirrors_some (.of_unit _) (by simp)

/-- Calls of `effectExists` follow each other: a boolean is mirrored by either of them. -/
theorem follows_effectExists (h : CallsMirror z.view t a b id id' key key') :
    Follows z.view t (ProductMirrors z.view t) (Handler.effectExists z.toSetting id)
      (Handler.effectExists z.toSetting id') a b := by
  unfold Handler.effectExists
  refine .currentStore_bind (.lift_bind fun key₁ key₂ found found' => ?_)
  cases h.called.symm.trans (Store.key?_of_callKey found)
  rw [h.rests] at found' ⊢
  cases h.called'.symm.trans (Store.key?_of_callKey found')
  rw [h.mirrors.clazz]
  cases (z.view.info key.clazz).generics.head? with
  | none => exact .throw_left
  | some effect =>
    exact .lift_bind fun installed installed' _ _ =>
      .pure h.covered (productMirrors_some (.of_bool _ _) (by simp))

/-! ### The tables -/

/-- The meanings of the standard library follow each other. -/
theorem follows_handler (ht : t.Rests z.view) {name : String} {meaning : Handler}
    (meant : IntrinsicTable.standard.find? name = some (.handler meaning))
    (h : CallsMirror z.view t a b id id' key key') :
    Follows z.view t (ProductMirrors z.view t) (meaning z.toSetting id) (meaning z.toSetting id')
      a b := by
  have unit : Follows z.view t (ProductMirrors z.view t) (Handler.unit z.toSetting id)
      (Handler.unit z.toSetting id') a b :=
    .pure h.covered (productMirrors_some (.of_unit _) (by simp))
  have exit : Follows z.view t (ProductMirrors z.view t) (Handler.exit z.toSetting id)
      (Handler.exit z.toSetting id') a b :=
    .pure h.covered productMirrors_none
  obtain rfl | rfl | listed := IntrinsicTable.mem_individual_of_standard meant
  · exact follows_anyResult h
  · exact .pure h.covered (productMirrors_some (.of_bool _ _) (by simp))
  · simp only [IntrinsicTable.individual, List.mem_cons, List.not_mem_nil, or_false,
      Prod.mk.injEq] at listed
    rcases listed with ⟨rfl, rfl⟩ | ⟨rfl, rfl⟩ | ⟨rfl, rfl⟩ | ⟨rfl, rfl⟩ | ⟨rfl, rfl⟩ | ⟨rfl, rfl⟩ |
      ⟨rfl, rfl⟩ | ⟨rfl, rfl⟩ | ⟨rfl, rfl⟩ | ⟨rfl, rfl⟩ | ⟨rfl, rfl⟩
    · exact exit
    · exact unit
    · exact unit
    · exact follows_arrayAlloc ht h
    · exact follows_arraySetel ht h
    · exact follows_arrayGet ht h
    · exact follows_effectDefault ht h
    · exact follows_effectReplace ht h
    · exact follows_effectAbortable ht h
    · exact exit
    · exact follows_effectExists h

/-- What is produced where the intrinsic `name` answers with a boolean is mirrored by what is
produced where it has no meaning. -/
theorem follows_produced (hz : z.intrinsics = .standard) (ht : t.Rests z.view) {name : String}
    (unsupported : ∀ meaning, IntrinsicTable.standard.find? name ≠ some (.handler meaning))
    (truth : Truth) (called : String) (h : CallsMirror z.view t a b id id' key key') :
    Follows z.view t (ProductMirrors z.view t) ((z.answering name truth).produced called id)
      (z.produced called id') a b := by
  have noted {c : Analysis} (hc : Store.Covered z.view t c.store) :
      Follows z.view t (ProductMirrors z.view t)
        (do z.noteUnsupported called id; return some .undefined)
        (do z.noteUnsupported called id'; return some .undefined) c b := by
    refine .note_left (z.store_noteUnsupported called id) fun c' kept => ?_
    refine .note_right (z.store_noteUnsupported called id') fun b' _ => ?_
    exact .pure (kept.symm ▸ hc) (productMirrors_some (.of_undefined _) (by simp))
  by_cases same : called = name
  · subst same
    have answers : (z.answering called truth).produced called id = pure (some (.bool truth)) := by
      unfold Analyzer.produced Analyzer.answering
      dsimp only
      rw [OrderedMap.find?_insert, if_pos rfl]
      rfl
    -- At rest the intrinsic lacks a meaning and yields the undefined value. A boolean shows nothing
    -- that this would have to show.
    rw [answers, Analyzer.produced_of_unsupported (hz.symm ▸ unsupported)]
    refine .note_right (z.store_noteUnsupported called id') fun b' _ => ?_
    exact .pure h.covered (productMirrors_some (.of_bool truth _) (by simp))
  · have found : (z.answering name truth).intrinsics.find? called =
        IntrinsicTable.standard.find? called := by
      unfold Analyzer.answering
      dsimp only
      rw [OrderedMap.find?_insert, if_neg same, hz]
    unfold Analyzer.produced
    rw [found, hz]
    cases meant : IntrinsicTable.standard.find? called with
    | none => exact noted h.covered
    | some intrinsic =>
      cases intrinsic with
      | unsupported => exact noted h.covered
      | handler meaning => exact follows_handler ht meant h

end handlers

end ClosedWorld
