import ClosedWorld.Proofs.Lockstep.Intrinsics
import ClosedWorld.Proofs.Lockstep.Tags

/-!
# Accesses in lockstep

## Main statements

* `follows_callResult`: what calls produce.
* `follows_assignOne`: assignments to fields, which may tag what they write.
* `follows_access`, `follows_call`: accesses.
-/

namespace ClosedWorld

namespace Store

variable {view : View} {s : Store} {field : ClazzId}

mutual

/-- What is read of a neat value is not `noValue`, if it can be read. -/
theorem readField_ne_noValue (clean : s.AllValues (Value.Clean view)) : (target : Value) →
    ∀ {v : Value}, target.Neat view → s.readField field target = .ok v → v ≠ .noValue
  | .set atoms, _, neat, read => by
    unfold readField at read
    obtain ⟨⟨many, -, -⟩, inside⟩ := Value.everywhere_set.1 neat
    refine readFieldOfAtoms_ne_noValue clean atoms inside read (.inr ?_)
    rintro rfl
    cases many
  | .object id, _, _, read => by
    unfold readField at read
    obtain ⟨fields, found, read⟩ := exists_of_bind_eq_ok read
    cases read
    cases written : fields.find? field with
    | none => simp
    | some v =>
      have clean := clean.field (state?_of_fields found) (OrderedMap.mem_entries_of_find? written)
      exact (Value.neat_of_clean clean).ne_noValue
  | .boxed content _ _, _, neat, read => by
    unfold readField at read
    exact readField_ne_noValue clean content (Value.everywhere_boxed.1 neat).2 read
  | .undefined, _, _, read => by
    cases read
    simp
  | .noValue, _, neat, _ => absurd rfl neat.ne_noValue
  | .unit, _, _, read | .bool _, _, _, read | .number _, _, _, read | .tagged .., _, _, read
  | .array _, _, _, read => by cases read

/-- The part of `readField_ne_noValue` for the atoms of a target: it is enough if something has been
read before or if there is an atom. -/
theorem readFieldOfAtoms_ne_noValue (clean : s.AllValues (Value.Clean view)) :
    (atoms : List Value) → ∀ {sofar v : Value}, (∀ a ∈ atoms, a.Neat view) →
    s.readFieldOfAtoms field sofar atoms = .ok v → sofar ≠ .noValue ∨ atoms ≠ [] → v ≠ .noValue
  | [], _, _, _, read, there => by
    cases read
    exact there.resolve_right (not_not_intro rfl)
  | atom :: rest, sofar, _, neat, read, _ => by
    obtain ⟨here, later⟩ := List.forall_mem_cons.1 neat
    unfold readFieldOfAtoms at read
    split at read
    · rename_i h
      cases h
    · cases read
    · rename_i h
      cases h
      obtain ⟨w, first, read⟩ := exists_of_bind_eq_ok read
      have there := readField_ne_noValue clean atom here first
      refine readFieldOfAtoms_ne_noValue clean rest later read (.inl ?_)
      by_cases nothing : sofar = .noValue
      · rwa [nothing, Value.noValue_join]
      · exact Value.join_ne_noValue nothing

end

end Store

/-- What is written or passed on both sides. -/
inductive ModeMirrors (view : View) (t : Store) : AccessMode → AccessMode → Store → Prop where
  | assign {s : Store} {values values' : List Value}
    (mirrors : List.Forall₂ (Store.Mirrors view s t) values values') :
    ModeMirrors view t (.assign values) (.assign values') s
  | call {s : Store} {args args' : List Value}
    (passed : List.Forall₂ (Store.Mirrors view s t) args args') :
    ModeMirrors view t (.call args) (.call args') s

/-- What is written or passed still mirrors when the keys are kept. -/
theorem ModeMirrors.mono {view : View} {t s s' : Store} {mode mode' : AccessMode}
    (keeps : s.Keeps s') (h : ModeMirrors view t mode mode' s) : ModeMirrors view t mode mode' s' := by
  cases h with
  | assign mirrors => exact .assign (mirrors.imp fun _ _ => .mono keeps)
  | call passed => exact .call (passed.imp fun _ _ => .mono keeps)

/-! ### Results of calls -/

section calls

variable {z : Analyzer} {name : String} {truth : Truth} {t : Store} {a b : Analysis}
  {id id' : CallId} {key key' : CallKey}

/-- A call is marked if there is a result, and the result stays as it is. -/
theorem outcome_markIf_eq_ok {r r' : Option Value} {a' : Analysis}
    (run : (if r.isSome then onStore (Store.markReturns id) >>= fun _ => pure r
      else pure r : Analyzing (Option Value)).outcome a = (.ok r', a')) :
    r' = r ∧ (a' = a ∨ (Store.markReturns id).outcome a.store = (.ok (), a'.store)) := by
  split at run
  · obtain ⟨_, _, marks, ⟨⟩⟩ := Attempt.outcome_bind_eq_ok run
    exact ⟨rfl, .inr (outcome_onStore_eq_ok marks)⟩
  · cases run
    exact ⟨rfl, .inl rfl⟩

/-- Marking a call notes that it does. -/
theorem notes_markReturns (id : CallId) (b : Analysis) : Notes (onStore (Store.markReturns id)) b :=
  .onStore (b.store.evolves_markReturns fun _ _ => trivial)

variable (hz : z.intrinsics = .standard)
  (unsupported : ∀ meaning, IntrinsicTable.standard.find? name ≠ some (.handler meaning))
  (ht : t.Rests z.view)

include hz unsupported ht

/-- What a call of an intrinsic results in is mirrored by what a call that mirrors it results in,
where the one has a meaning that the other one lacks. -/
theorem follows_intrinsicResult (body : key.pre = false)
    (kind : (z.view.info key.clazz).kind = .intrinsic)
    (h : CallsMirror z.view t a b id id' key key') :
    Follows z.view t (ProductMirrors z.view t)
      ((z.answering name truth).intrinsicResult id key.clazz) (z.intrinsicResult id' key.clazz)
      a b := by
  rw [Analyzer.intrinsicResult_eq, Analyzer.intrinsicResult_eq]
  have produced := follows_produced hz ht unsupported truth
    ((z.answering name truth).intrinsicName key.clazz) h
  refine produced.bind ht.quiet (fun r' b' _ => ?_) fun r r' a' b' _ _ hb proceeds product => ?_
  · dsimp only
    split
    · exact (notes_markReturns id' b').bind fun _ _ _ => .pure _ _
    · exact .pure _ _
  refine ⟨fun {r₁ a'' r₂ b''} run run' _ => ?_⟩
  obtain ⟨rfl, marked⟩ := outcome_markIf_eq_ok run
  obtain ⟨rfl, -⟩ := outcome_markIf_eq_ok run'
  obtain rfl | marks := marked
  · exact ⟨.refl proceeds.covered, product⟩
  · have called := proceeds.keeps.calls id key h.called
    have marked := Store.proceeds_markReturns proceeds.covered called fun code => by
      rw [body, kind] at code
      simp at code
    rw [marks] at marked
    exact ⟨marked, product.mono marked.keeps⟩

omit hz unsupported in
/-- What a routine leaves in its frame is mirrored by what it leaves in the frame of a call that
mirrors its call. -/
theorem mirrors_routineResult (hs : Store.Covered z.view t a.store) {clazz : ClazzId}
    {frame frame' : InstanceId}
    (known : a.store.provenance? (.object frame) = some (.created clazz))
    (known' : t.provenance? (.object frame') = some (.created clazz)) {v w : Value}
    (left : z.routineResult a.store clazz frame = .ok v)
    (left' : z.routineResult t clazz frame' = .ok w) : Store.Mirrors z.view a.store t v w := by
  have frames : Store.Mirrors z.view a.store t (.object frame) (.object frame') :=
    .of_provenance (.object frame) (.object frame') known known'
  unfold Setting.routineResult at left left'
  split at left
  · cases left
    exact .of_unit w
  · rename_i result typed
    split at left
    · cases left
      exact .of_unit w
    · rename_i unit
      rw [typed] at left'
      dsimp only at left'
      rw [if_neg unit] at left'
      split at left
      · rename_i own
        rw [if_pos own] at left'
        cases left
        cases left'
        exact frames
      · rename_i own
        rw [if_neg own] at left'
        split at left
        · cases left
        · rename_i field held
          rw [held] at left'
          exact Store.mirrors_readField ht.coarse hs frames left left'

/-- What a call results in is mirrored by what a call that mirrors it results in, for routines,
preconditions and intrinsics. -/
theorem follows_callResult (kind : key.pre = true ∨ (z.view.info key.clazz).kind = .routine ∨
      (z.view.info key.clazz).kind = .intrinsic) (h : CallsMirror z.view t a b id id' key key') :
    Follows z.view t (ProductMirrors z.view t) ((z.answering name truth).callResult id)
      (z.callResult id') a b := by
  unfold Analyzer.callResult
  refine .currentStore_bind (.lift_bind fun key₁ key₂ found found' => ?_)
  cases h.called.symm.trans (Store.key?_of_callKey found)
  rw [h.rests] at found' ⊢
  cases h.called'.symm.trans (Store.key?_of_callKey found')
  have same : (z.answering name truth).view = z.view := rfl
  rw [same, h.mirrors.pre, h.mirrors.clazz]
  by_cases intrinsic : (!key.pre && decide ((z.view.info key.clazz).kind = .intrinsic)) = true
  · rw [if_pos intrinsic, if_pos intrinsic]
    simp only [Bool.and_eq_true, decide_eq_true_eq, Bool.not_eq_true'] at intrinsic
    exact follows_intrinsicResult hz unsupported ht intrinsic.1 intrinsic.2 h
  rw [if_neg intrinsic, if_neg intrinsic]
  have code : key.pre = true ∨ (z.view.info key.clazz).kind = .routine := by
    rcases kind with pre | routine | other
    · exact .inl pre
    · exact .inr routine
    · cases pre : key.pre with
      | true => exact .inl rfl
      | false =>
        rw [pre, other] at intrinsic
        simp at intrinsic
  refine .lift_bind fun state state' held held' => ?_
  have entry := Interned.get?_of_key?_of_state? h.called (Store.state?_of_callState held)
  have entry' := Interned.get?_of_key?_of_state? h.called' (Store.state?_of_callState held')
  have call := h.covered.calls id key state entry
  cases returns : state.returns with
  | false => exact .pure_left h.covered fun _ => productMirrors_none
  | true =>
    rw [call.returns returns code entry' h.mirrors]
    cases pre : key.pre with
    | true => exact .pure h.covered (productMirrors_some (.of_unit _) (by simp))
    | false =>
      refine .lift_bind fun v w left left' => .pure h.covered (productMirrors_some ?_ ?_)
      · have framed' : t.provenance? (.object state'.frame) = some (.created key'.clazz) :=
          ht.framed id' key' state' entry'
        rw [h.mirrors.clazz] at framed'
        exact mirrors_routineResult ht h.covered call.frame framed' left left'
      · exact Analyzer.routineResult_ne_noValue ht.sound.clean left'

variable {act act' : Activation} (hs : Store.Covered z.view t a.store) (hb : b.store = t)
  (hact : ActMirrors z.view t act act' a.store)

include hs hb hact

omit hb in
/-- Entering a clazz is followed by entering the same clazz with a target and arguments that mirror.
-/
theorem follows_enter {target target' : Value} {args args' : List Value} {clazz : ClazzId}
    {pre : Bool} (targets : Store.Mirrors z.view a.store t target target')
    (passed : List.Forall₂ (Store.Mirrors z.view a.store t) args args')
    (kind : pre = true ∨ (z.view.info clazz).kind = .routine ∨
      (z.view.info clazz).kind = .intrinsic) :
    Follows z.view t (AnswerMirrors z.view t)
      ((z.answering name truth).enter act target args clazz pre)
      (z.enter act' target' args' clazz pre) a b := by
  have same : (z.answering name truth).view = z.view := rfl
  unfold Analyzer.enter
  rw [same]
  cases (z.view.info clazz).needsCode with
  | false => exact .pure hs answerMirrors_none
  | true =>
    have mirrors : Store.KeyMirrors z.view a.store t
        { clazz, pre, target, args, env := act.key.env }
        { clazz, pre, target := target', args := args', env := act'.key.env } :=
      ⟨rfl, rfl, targets, passed, hact.key.env⟩
    refine (follows_newCall (g := z.toSetting) hs mirrors act.call act'.call).bind ht.quiet
      (fun id' b' made => ?_) fun id id' a' b' _ _ hb' proceeds ⟨called, called'⟩ => ?_
    · have result := (AnalysisDiscipline.quiet z b'.store).safe_callResult hz
        (AnalysisDiscipline.alike_quiet z b') trivial (Setting.key?_of_newCall made) kind
      exact (Notes.of_safe result).bind fun _ _ _ => .pure _ _
    · have called : CallsMirror z.view t a' b' id id' _ _ :=
        ⟨proceeds.covered, hb', called, called', mirrors.mono proceeds.keeps⟩
      refine (follows_callResult hz unsupported ht kind called).bind_pure ?_
      -- A caller drops what is not there, and what is there on this side is there on the other.
      rintro r r' s - ⟨answers, there⟩ v some
      obtain ⟨answered, value⟩ := Option.filter_eq_some_iff.1 some
      have value : v ≠ .noValue := of_decide_eq_true value
      obtain ⟨w, answered', mirrors⟩ := answers v answered
      obtain ⟨_, same, value'⟩ := there ⟨v, answered, value⟩
      cases answered'.symm.trans same
      exact ⟨w, Option.filter_eq_some_iff.2 ⟨answered', decide_eq_true value'⟩, mirrors⟩

/-- Calling a clazz is followed by calling the same clazz, whatever its kind is: fields are read,
and other clazzes entered. -/
theorem follows_callOne (site : Site) {target target' : Value} {args args' : List Value}
    {clazz : ClazzId} (targets : Store.Mirrors z.view a.store t target target')
    (neat : target'.Neat z.view)
    (passed : List.Forall₂ (Store.Mirrors z.view a.store t) args args') :
    Follows z.view t (AnswerMirrors z.view t)
      ((z.answering name truth).callOne act site target args clazz)
      (z.callOne act' site target' args' clazz) a b := by
  have same : (z.answering name truth).view = z.view := rfl
  unfold Analyzer.callOne
  rw [same]
  cases kind : (z.view.info clazz).kind with
  | «abstract» =>
    exact .note_left (AnalysisDiscipline.store_diagnose _) fun a' kept =>
      .pure_left (kept.symm ▸ hs) fun _ => answerMirrors_none
  | routine =>
    exact follows_enter hz unsupported ht hs hact targets passed (.inr (.inl kind))
  | intrinsic =>
    exact follows_enter hz unsupported ht hs hact targets passed (.inr (.inr kind))
  | field =>
    refine .currentStore_bind (.lift_bind fun v w read read' => .pure hs fun u some => ?_)
    rw [hb] at read'
    split at some
    · cases some
    · cases some
      have there := Store.readField_ne_noValue ht.sound.clean target' neat read'
      exact ⟨w, if_neg there, Store.mirrors_readField ht.coarse hs targets read read'⟩
  | choice => exact .throw_left

omit hz unsupported ht hs hb hact in
/-- The value that is assigned is mirrored by the one that is assigned in the other store. -/
theorem mirrors_written {s : Store} {field : ClazzId} {values values' : List Value}
    {value value' : Value} (mirrors : List.Forall₂ (Store.Mirrors z.view s t) values values')
    (first : (z.answering name truth).written field values = .ok value)
    (first' : z.written field values' = .ok value') : Store.Mirrors z.view s t value value' := by
  cases mirrors with
  | nil => cases first
  | cons head rest =>
    cases first
    cases first'
    exact head

omit hz unsupported hact in
/-- Assigning to a field is followed by assigning to the same field, also if what is written is
tagged for the field. -/
theorem follows_assignOne {target target' : Value} {values values' : List Value} {field : ClazzId}
    (targets : Store.Mirrors z.view a.store t target target')
    (mirrors : List.Forall₂ (Store.Mirrors z.view a.store t) values values') :
    Follows z.view t (AnswerMirrors z.view t)
      ((z.answering name truth).assignOne target values field)
      (z.assignOne target' values' field) a b := by
  have same : (z.answering name truth).view = z.view := rfl
  unfold Analyzer.assignOne
  rw [same]
  cases z.view.resultIsUnit field with
  | true => exact .pure hs (answerMirrors_some (.of_unit _))
  | false =>
    refine .lift_bind fun value value' first first' => ?_
    refine .currentStore_bind (.lift_bind fun tagged tagged' tags tags' => ?_)
    rw [hb] at tags'
    have written : Store.Mirrors z.view a.store t tagged tagged' :=
      mirrors_retag hs (mirrors_written mirrors first first') tags tags'
    exact (follows_setField ht hs hb written targets field).bind_pure
      fun _ _ s _ _ => answerMirrors_some (.of_unit _)

/-- Accessing one clazz is followed by accessing the same clazz in the same mode. -/
theorem follows_accessOne (site : Site) {target target' : Value} {mode mode' : AccessMode}
    {clazz : ClazzId} (targets : Store.Mirrors z.view a.store t target target')
    (neat : target'.Neat z.view) (modes : ModeMirrors z.view t mode mode' a.store) :
    Follows z.view t (AnswerMirrors z.view t)
      ((z.answering name truth).accessOne act site target mode clazz)
      (z.accessOne act' site target' mode' clazz) a b := by
  cases modes with
  | assign mirrors => exact follows_assignOne ht hs hb targets mirrors
  | call passed => exact follows_callOne hz unsupported ht hs hb hact site targets neat passed

end calls

/-! ### Dynamic accesses -/

section receivers

variable {z : Analyzer} {t : Store} {a b : Analysis} {act : Activation} {site : Site}
  {mode : AccessMode}

/-- At rest, the access of the clazz has been made with the atom as the receiver, and what it yields
is in the result. -/
def Served (z : Analyzer) (t : Store) (act : Activation) (site : Site) (mode : AccessMode)
    (r : Option Value) (clazz : ClazzId) (atom : Value) : Prop :=
  ∃ b y b', b.store = t ∧ (z.accessOne act site atom mode clazz).outcome b = (.ok y, b') ∧
    b'.store = t ∧ ∀ w, y = some w → ∃ w', r = some w' ∧
      ∀ path item, w.Shows path item → w'.Shows path item

/-- A join of results shows what either of them shows. -/
theorem shows_joinResults {r r' : Option Value} {v : Value} (h : r = some v ∨ r' = some v) :
    ∃ w, Analyzer.joinResults r r' = some w ∧ ∀ path item, v.Shows path item → w.Shows path item := by
  rcases h with rfl | rfl
  · cases r' with
    | none => exact ⟨v, rfl, fun _ _ shown => shown⟩
    | some w => exact ⟨v.join w, rfl, fun _ _ shown => Value.shows_join.2 (.inl shown)⟩
  · cases r with
    | none => exact ⟨v, rfl, fun _ _ shown => shown⟩
    | some w => exact ⟨w.join v, rfl, fun _ _ shown => Value.shows_join.2 (.inr shown)⟩

/-- Two results that are mirrored by one are so when they are joined. -/
theorem answerMirrors_joinResults {view : View} {s : Store} {r₁ r₂ r : Option Value}
    (h₁ : AnswerMirrors view t r₁ r s) (h₂ : AnswerMirrors view t r₂ r s) :
    AnswerMirrors view t (Analyzer.joinResults r₁ r₂) r s := by
  cases r₁ with
  | none => exact h₂
  | some v =>
    cases r₂ with
    | none => exact h₁
    | some v' =>
      rintro _ ⟨⟩
      obtain ⟨w, there, mirrors⟩ := h₁ v rfl
      obtain ⟨w', there', mirrors'⟩ := h₂ v' rfl
      cases there.symm.trans there'
      exact ⟨w, there, mirrors.join_of mirrors'⟩

/-- An access at rest serves all receivers: what each of them yields is in the result, and so is
what there was before. -/
theorem served_of_accessEach (hz : z.intrinsics = .standard) (quiet : t.change = none)
    {pairs : List ((ClazzId × ClazzId) × Value)} {found found' : Bool} {sofar r : Option Value}
    {b' : Analysis} (hb : b.store = t)
    (run : (z.accessEach act site mode pairs found sofar).outcome b = (.ok (found', r), b'))
    (rests : b'.store = t) :
    (∀ v, sofar = some v → ∃ w, r = some w ∧ ∀ path item, v.Shows path item → w.Shows path item) ∧
      ∀ p ∈ pairs, Analyzer.receives t p.1.1 p.2 = .ok true →
        Served z t act site mode r p.1.2 p.2 := by
  induction pairs generalizing b found sofar with
  | nil =>
    cases run
    exact ⟨fun v some => ⟨v, some, fun _ _ shown => shown⟩, List.forall_mem_nil _⟩
  | cons pair rest ih =>
    obtain ⟨⟨type, clazz⟩, atom⟩ := pair
    unfold Analyzer.accessEach at run
    obtain ⟨_, _, ⟨⟩, run⟩ := Attempt.outcome_bind_eq_ok run
    obtain ⟨received, asked, run⟩ := Attempt.outcome_lift_bind_eq_ok run
    rw [hb] at asked
    cases received with
    | false =>
      obtain ⟨before, later⟩ := ih hb run
      refine ⟨before, List.forall_mem_cons.2 ⟨fun asked' => ?_, later⟩⟩
      cases asked.symm.trans asked'
    | true =>
      obtain ⟨_, b₁, recorded, run⟩ := Attempt.outcome_bind_eq_ok run
      obtain ⟨y, b₂, accessed, run⟩ := Attempt.outcome_bind_eq_ok run
      have hb₁ : b₁.store = t := by
        have kept := store_recordDispatch site clazz b
        rw [recorded] at kept
        exact kept.trans hb
      have notes : Notes (z.accessEach act site mode rest true (Analyzer.joinResults sofar y)) b₂ :=
        .of_safe (AnalysisDiscipline.safe_accessEach _ hz site true _
          (AnalysisDiscipline.alike_quiet z b₂) (AnalysisDiscipline.goodActivation_quiet ..)
          (AnalysisDiscipline.goodMode_quiet ..)
          (fun p _ => AnalysisDiscipline.goodPair_quiet ..) fun _ _ => trivial)
      have hb₂ : b₂.store = t := (notes.eq_of_quiet run (rests ▸ quiet)).symm.trans rests
      obtain ⟨before, later⟩ := ih hb₂ run
      have joined {v : Value} (h : sofar = some v ∨ y = some v) :
          ∃ w, r = some w ∧ ∀ path item, v.Shows path item → w.Shows path item := by
        obtain ⟨u, there, more⟩ := shows_joinResults h
        obtain ⟨w, there', more'⟩ := before u there
        exact ⟨w, there', fun path item shown => more' path item (more path item shown)⟩
      exact ⟨fun v some => joined (.inl some), List.forall_mem_cons.2
        ⟨fun _ => ⟨b₁, y, b₂, hb₁, accessed, hb₂, fun w some => joined (.inr some)⟩, later⟩⟩

/-- Atoms of a neat value that would merge are the same. -/
theorem eq_of_mem_atoms {view : View} {v a b : Value} (neat : v.Neat view) (ha : a ∈ v.atoms)
    (hb : b ∈ v.atoms) (same : a.mergeKey? = b.mergeKey?) : a = b := by
  have parts := neat.self
  cases v with
  | set members => exact List.inj_on_of_nodup_map parts.2.1 ha hb same
  | _ => exact (List.mem_singleton.1 ha).trans (List.mem_singleton.1 hb).symm

/-- A receiver is mirrored by a receiver. Where it is a box that shows nothing, it is mirrored by
any. -/
theorem exists_receiver {view : View} {s s₀ : Store} {type : ClazzId} {atom target' : Value}
    (mirrors : Store.Mirrors view s t atom target') (neat : target'.Neat view)
    (received : Analyzer.receives s type atom = .ok true)
    (way : Analyzer.receives s₀ type atom = .ok true →
      ∃ atom' ∈ target'.atoms, Analyzer.receives t type atom' = .ok true) :
    ∃ atom' ∈ target'.atoms, Analyzer.receives t type atom' = .ok true ∧
      Store.Mirrors view s t atom atom' := by
  cases atom with
  | object id =>
    obtain ⟨key, made, is⟩ := exists_of_bind_eq_ok received
    have same : key.clazz = type := of_decide_eq_true (Except.ok.inj is)
    obtain ⟨item', p, shown', known, known'⟩ := mirrors.items (Value.shows_value (.object id))
    obtain ⟨_, -, rfl⟩ := Option.map_eq_some_iff.1 known
    obtain ⟨id', _, rfl, -, -⟩ := Store.exists_of_created known'
    obtain ⟨_, made₁, same₁⟩ := Store.exists_instanceKey known
    obtain ⟨key', made', same'⟩ := Store.exists_instanceKey known'
    cases made.symm.trans made₁
    refine ⟨.object id', shown', ?_, .of_provenance (.object id) (.object id') known known'⟩
    show (t.instanceKey id' >>= fun key => pure (decide (key.clazz = type))) = .ok true
    rw [made']
    exact congrArg Except.ok (decide_eq_true ((same'.trans same₁.symm).trans same))
  | boxed content valueClazz refClazz =>
    -- What the box shows is shown by the one box with these clazzes in the target, as that is neat.
    -- A box that shows nothing is mirrored by anything, so there the receiver has to be given.
    by_cases shows : ∃ path item, content.Shows path item
    · obtain ⟨path, item, shown⟩ := shows
      obtain ⟨_, _, ⟨content', listed', shown'⟩, -⟩ :=
        mirrors.items (shown.around (.boxed valueClazz refClazz))
      refine ⟨.boxed content' valueClazz refClazz, listed', received, mirrors.made, ?_⟩
      intro path item shown
      obtain ⟨rest, rfl, inside⟩ := shown.of_around (.boxed valueClazz refClazz)
      obtain ⟨item', p, ⟨content'', listed'', inside'⟩, known⟩ := mirrors.items shown
      obtain ⟨-, rfl⟩ := Wrapping.around_inj.1 (eq_of_mem_atoms neat listed'' listed' rfl)
      exact ⟨item', p, inside'.around (.boxed valueClazz refClazz), known⟩
    · obtain ⟨atom', listed', received'⟩ := way received
      refine ⟨atom', listed', received', mirrors.made, fun {path item} shown => ?_⟩
      obtain ⟨rest, -, inside⟩ := shown.of_around (.boxed valueClazz refClazz)
      exact absurd ⟨rest, item, inside⟩ shows
  | _ => cases received

variable {name : String} {truth : Truth} (hz : z.intrinsics = .standard)
  (unsupported : ∀ meaning, IntrinsicTable.standard.find? name ≠ some (.handler meaning))
  (ht : t.Rests z.view) {act' : Activation} {mode' : AccessMode}

include hz unsupported ht

/-- An access proceeds where all receivers are `Served` by the access at rest. -/
theorem proceeds_accessEach {pairs : List ((ClazzId × ClazzId) × Value)} {found found' : Bool}
    {sofar r r' : Option Value} {a' : Analysis} (hs : Store.Covered z.view t a.store)
    (hact : ActMirrors z.view t act act' a.store) (modes : ModeMirrors z.view t mode mode' a.store)
    (receivers : ∀ p ∈ pairs, ∀ s, a.store.Keeps s → Analyzer.receives s p.1.1 p.2 = .ok true →
      ∃ atom', Store.Mirrors z.view s t p.2 atom' ∧ atom'.Neat z.view ∧
        Served z t act' site mode' r' p.1.2 atom')
    (before : AnswerMirrors z.view t sofar r' a.store)
    (run : ((z.answering name truth).accessEach act site mode pairs found sofar).outcome a =
      (.ok (found', r), a')) :
    Store.Proceeds z.view t a.store a'.store ∧ AnswerMirrors z.view t r r' a'.store := by
  induction pairs generalizing a found sofar with
  | nil =>
    cases run
    exact ⟨.refl hs, before⟩
  | cons pair rest ih =>
    obtain ⟨⟨type, clazz⟩, atom⟩ := pair
    obtain ⟨receiver, later⟩ := List.forall_mem_cons.1 receivers
    unfold Analyzer.accessEach at run
    obtain ⟨_, _, ⟨⟩, run⟩ := Attempt.outcome_bind_eq_ok run
    obtain ⟨received, asked, run⟩ := Attempt.outcome_lift_bind_eq_ok run
    cases received with
    | false => exact ih hs hact modes later before run
    | true =>
      obtain ⟨_, a₁, recorded, run⟩ := Attempt.outcome_bind_eq_ok run
      obtain ⟨x, a₂, accessed, run⟩ := Attempt.outcome_bind_eq_ok run
      have kept : a₁.store = a.store := by
        have kept := store_recordDispatch site clazz a
        rwa [recorded] at kept
      -- The run at rest has served this receiver, and what it yielded then is in the result.
      obtain ⟨atom', mirrors, neat, b, y, b', hb, run', rests, more⟩ :=
        receiver a.store (.refl _) asked
      rw [← kept] at hs hact modes mirrors before
      have follows : Follows z.view t (AnswerMirrors z.view t)
          ((z.answering name truth).accessOne act site atom mode clazz)
          (z.accessOne act' site atom' mode' clazz) a₁ b :=
        follows_accessOne hz unsupported ht hs hb hact site mirrors neat modes
      obtain ⟨proceeds, answers⟩ := follows.of_ok accessed run' rests
      have answers : AnswerMirrors z.view t x r' a₂.store := by
        intro v some
        obtain ⟨w, there, mirrors⟩ := answers v some
        obtain ⟨w', there', more⟩ := more w there
        exact ⟨w', there', mirrors.in_shows more⟩
      obtain ⟨proceeds', joined⟩ := ih proceeds.covered (hact.mono proceeds.keeps)
        (modes.mono proceeds.keeps)
        (fun p hp s keeps => later p hp s (kept ▸ proceeds.keeps.trans keeps))
        (answerMirrors_joinResults (before.mono proceeds.keeps) answers) run
      exact ⟨kept ▸ proceeds.trans proceeds', joined⟩

omit hz unsupported ht in
/-- That no receiver was found is noted, and nothing else happens. -/
theorem eq_of_findingNothing {found : Bool} {d : Diagnostic} {r r' : Option Value} {a' : Analysis}
    (run : (if !found then diagnose d >>= fun _ => pure r else pure r).outcome a = (.ok r', a')) :
    r' = r ∧ a'.store = a.store := by
  split at run
  · obtain ⟨_, a₁, noted, ⟨⟩⟩ := Attempt.outcome_bind_eq_ok run
    have kept := AnalysisDiscipline.store_diagnose d a
    rw [noted] at kept
    exact ⟨rfl, kept⟩
  · cases run
    exact ⟨rfl, rfl⟩

/-- An access is followed by the same access at rest, if there is a receiver at rest wherever there
is one in the other store (`ways`). -/
theorem follows_access {access : Access} {target target' : Value} {s₀ : Store}
    (hs : Store.Covered z.view t a.store) (hb : b.store = t)
    (hact : ActMirrors z.view t act act' a.store)
    (targets : Store.Mirrors z.view a.store t target target') (neat : target'.Neat z.view)
    (modes : ModeMirrors z.view t mode mode' a.store)
    (ways : access.dynamic = true → ∀ p ∈ access.targets, ∀ atom ∈ target.atoms,
      Analyzer.receives s₀ p.1 atom = .ok true →
        ∃ atom' ∈ target'.atoms, Analyzer.receives t p.1 atom' = .ok true) :
    Follows z.view t (AnswerMirrors z.view t)
      ((z.answering name truth).access act site access target mode)
      (z.access act' site access target' mode') a b := by
  have same : (z.answering name truth).view = z.view := rfl
  unfold Analyzer.access
  rw [same]
  dsimp only
  cases dynamic : access.dynamic with
  | true =>
    rw [if_pos rfl, if_pos rfl]
    -- What both sides find is compared receiver by receiver. The run at rest has served all of its
    -- receivers, and each receiver here mirrors one of them.
    refine ⟨fun {x a' y b'} run run' rests => ?_⟩
    obtain ⟨⟨found, r⟩, a₁, each, run⟩ := Attempt.outcome_bind_eq_ok run
    obtain ⟨⟨found', r'⟩, b₁, each', run'⟩ := Attempt.outcome_bind_eq_ok run'
    obtain ⟨rfl, kept⟩ := eq_of_findingNothing run
    obtain ⟨rfl, kept'⟩ := eq_of_findingNothing run'
    obtain ⟨-, served⟩ := served_of_accessEach hz ht.quiet hb each' (kept'.symm.trans rests)
    rw [kept]
    refine proceeds_accessEach hz unsupported ht hs hact modes (fun p hp s keeps received => ?_)
      answerMirrors_none each
    obtain ⟨p₁, hp₁, hp⟩ := List.mem_flatMap.1 hp
    obtain ⟨atom, hatom, rfl⟩ := List.mem_map.1 hp
    obtain ⟨atom', listed', received', mirrors⟩ := exists_receiver
      ((targets.of_mem_atoms hatom).mono keeps) neat received (ways dynamic p₁ hp₁ atom hatom)
    exact ⟨atom', mirrors, neat.of_mem_atoms listed', served (p₁, atom')
      (List.mem_flatMap.2 ⟨p₁, hp₁, List.mem_map.2 ⟨atom', listed', rfl⟩⟩) received'⟩
  | false =>
    rw [if_neg Bool.false_ne_true, if_neg Bool.false_ne_true]
    cases (z.view.info access.accessed).needsCode with
    | true => exact follows_accessOne hz unsupported ht hs hb hact site targets neat modes
    | false =>
      exact .note_left (AnalysisDiscipline.store_diagnose _) fun a' kept =>
        .pure_left (kept.symm ▸ hs) fun _ => answerMirrors_none

/-- The checks of a precondition before a call are followed by the same checks. -/
theorem follows_check {access : Access} {target target' : Value} {args args' : List Value}
    (hs : Store.Covered z.view t a.store) (hact : ActMirrors z.view t act act' a.store)
    (targets : Store.Mirrors z.view a.store t target target')
    (passed : List.Forall₂ (Store.Mirrors z.view a.store t) args args') :
    Follows z.view t (AnswerMirrors z.view t)
      ((z.answering name truth).check act access target args) (z.check act' access target' args')
      a b := by
  have same : (z.answering name truth).view = z.view := rfl
  unfold Analyzer.check
  rw [same]
  split
  · exact follows_enter hz unsupported ht hs hact targets passed (.inl rfl)
  · exact .pure hs (answerMirrors_some (.of_unit _))

/-- A call is followed by the same call at rest, with its checks first and the access after them. -/
theorem follows_call {access : Access} {target target' : Value}
    {args args' : List Value} {s₀ : Store} (hs : Store.Covered z.view t a.store)
    (hact : ActMirrors z.view t act act' a.store)
    (targets : Store.Mirrors z.view a.store t target target') (neat : target'.Neat z.view)
    (passed : List.Forall₂ (Store.Mirrors z.view a.store t) args args')
    (ways : access.dynamic = true → ∀ p ∈ access.targets, ∀ atom ∈ target.atoms,
      Analyzer.receives s₀ p.1 atom = .ok true →
        ∃ atom' ∈ target'.atoms, Analyzer.receives t p.1 atom' = .ok true) :
    Follows z.view t (AnswerMirrors z.view t)
      ((z.answering name truth).call act site access target args)
      (z.call act' site access target' args') a b := by
  rw [Analyzer.call_eq_check, Analyzer.call_eq_check]
  refine (follows_check hz unsupported ht hs hact targets passed).bind ht.quiet
    (fun checked' b' _ => ?_) fun checked checked' a' b' _ _ hb' proceeds answers => ?_
  · split
    · exact .of_safe (AnalysisDiscipline.safe_access _ hz site (AnalysisDiscipline.alike_quiet z b')
        (AnalysisDiscipline.goodActivation_quiet ..) ⟨trivial, fun _ _ => trivial⟩ trivial
        (AnalysisDiscipline.goodMode_quiet ..)
        ⟨fun _ => AnalysisDiscipline.readyMode_quiet ..,
          fun _ _ _ _ _ => AnalysisDiscipline.readyMode_quiet ..⟩)
    · exact .pure _ _
  cases checked with
  | none => exact .pure_left proceeds.covered fun _ => answerMirrors_none
  | some v =>
    obtain ⟨w, rfl, mirrors⟩ := answers v rfl
    cases access.preOnly with
    | true => exact .pure proceeds.covered (answerMirrors_some mirrors)
    | false =>
      exact follows_access hz unsupported ht proceeds.covered hb' (hact.mono proceeds.keeps)
        (targets.mono proceeds.keeps) neat (.call (passed.imp fun _ _ => .mono proceeds.keeps)) ways

end receivers

end ClosedWorld
