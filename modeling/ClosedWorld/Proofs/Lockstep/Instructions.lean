import ClosedWorld.Proofs.Analysis.Devirtualization
import ClosedWorld.Proofs.Lockstep.Accesses
import ClosedWorld.Proofs.Lockstep.Operands

/-!
# Instructions in lockstep

An instruction is followed by the same instruction, as long as the analysis at rest goes all ways
where it comes to a decision: whatever branches the other one takes, it takes too.

## Main definitions

* `Program.boxesFor`, `View.HasReceivers`: dynamic accesses of what may be in a box.
* `Visit.GoesAllWays`: where nothing is decided.
* `BlockFollows`: what is known of a block that an instruction may walk.

## Main statements

* `follows_walkCases`, `follows_walkAll`: the blocks that a match or a condition selects.
* `follows_walkInstr`: an instruction.
-/

namespace ClosedWorld

/-! ### Where nothing is decided -/

/-- An instruction of the program boxes values for the reference clazz. -/
def Program.boxesFor (p : Program) (refClazz : ClazzId) : Bool :=
  p.hasInstr fun
    | .box valueClazz refClazz' => refClazz' = refClazz && !(p.info valueClazz).isRef
    | _ => false

/-- What the program boxes for a reference clazz, it boxes for that clazz. -/
theorem View.boxesFor_of_boxes {view : View} {valueClazz refClazz : ClazzId}
    (boxes : view.Boxes valueClazz refClazz) : view.boxesFor refClazz = true := by
  obtain ⟨⟨code, index, found⟩, isValue⟩ := boxes
  exact Program.hasInstr_of_instr? found (by simp [isValue])

/-- A dynamic access of the target has a receiver for each of its targets that values are boxed for.
-/
def View.HasReceivers (view : View) (s : Store) (access : Access) (target : Value) : Prop :=
  access.dynamic = true → ∀ p ∈ access.targets, view.boxesFor p.1 = true →
    ∃ atom ∈ target.atoms, s.receiverClazz? atom = some p.1

instance (view : View) (s : Store) (access : Access) (target : Value) :
    Decidable (view.HasReceivers s access target) :=
  inferInstanceAs (Decidable (_ → ∀ _ ∈ _, _))

/-- No way is left out where the instruction is visited: a conditional takes both branches, a match
selects all cases, a dynamic access has receivers, and a contract is not known to be violated. -/
def Visit.GoesAllWays (view : View) (visit : Visit Analysis Value) : Prop :=
  match visit.instr, visit.stack with
  | .assign access, _ :: target :: _ => view.HasReceivers visit.before.store access target
  | .call access, stack => ∀ target ∈ stack[view.arity access]?,
      view.HasReceivers visit.before.store access target
  | .select m, subject :: _ =>
    ∀ case ∈ m.cases, case.boundBy (view.isBool m.subject) subject ≠ .ok none
  | .cond thenCode elseCode, condition :: _ =>
    takenBranches condition thenCode elseCode = .ok [thenCode, elseCode]
  | .contract _, condition :: _ => condition ≠ .bool .false
  | _, _ => True

instance (view : View) : DecidablePred (Visit.GoesAllWays view) := fun visit => by
  unfold Visit.GoesAllWays
  split <;> infer_instance

/-! ### What cases bind -/

section binding

variable {view : View} {s t : Store} {subjectIsBool : Bool} {pairs : List (Nat × Value)}
  {sofar r : Option Value} {subject subject' v w : Value}

/-- Whatever an atom is bound to is shown by the result, and so is what was bound before. -/
theorem shows_boundByEach (run : boundByEach subjectIsBool sofar pairs = .ok r) :
    (∀ v, sofar = some v → ∃ w, r = some w ∧ ∀ path item, v.Shows path item → w.Shows path item) ∧
      ∀ p ∈ pairs, ∀ v, selectedBy subjectIsBool p.1 p.2 = .ok (some v) →
        ∃ w, r = some w ∧ ∀ path item, v.Shows path item → w.Shows path item := by
  induction pairs generalizing sofar with
  | nil =>
    cases run
    exact ⟨fun v some => ⟨v, some, fun _ _ shown => shown⟩, List.forall_mem_nil _⟩
  | cons pair rest ih =>
    unfold boundByEach at run
    obtain ⟨bound, selected, run⟩ := exists_of_bind_eq_ok run
    obtain ⟨before, later⟩ := ih run
    have joined {v : Value} (h : sofar = some v ∨ bound = some v) :
        ∃ w, r = some w ∧ ∀ path item, v.Shows path item → w.Shows path item := by
      obtain ⟨u, there, more⟩ := shows_joinResults h
      obtain ⟨w, there', more'⟩ := before u there
      exact ⟨w, there', fun path item shown => more' path item (more path item shown)⟩
    refine ⟨fun v some => joined (.inl some), List.forall_mem_cons.2 ⟨fun v selected' => ?_, later⟩⟩
    cases selected.symm.trans selected'
    exact joined (.inr rfl)

/-- If all that is selected is mirrored by one value, so is what is bound. -/
theorem answerMirrors_boundByEach {r' : Option Value}
    (run : boundByEach subjectIsBool sofar pairs = .ok r) (before : AnswerMirrors view t sofar r' s)
    (each : ∀ p ∈ pairs, ∀ bound, selectedBy subjectIsBool p.1 p.2 = .ok bound →
      AnswerMirrors view t bound r' s) : AnswerMirrors view t r r' s := by
  induction pairs generalizing sofar with
  | nil =>
    cases run
    exact before
  | cons pair rest ih =>
    unfold boundByEach at run
    obtain ⟨bound, selected, run⟩ := exists_of_bind_eq_ok run
    obtain ⟨here, later⟩ := List.forall_mem_cons.1 each
    exact ih run (answerMirrors_joinResults before (here bound selected)) later

/-- What an atom is bound to is mirrored by what a case binds in the other store. -/
theorem mirrors_selectedBy {case : MatchCase} {tag : Nat} {atom : Value} (among : tag ∈ case.tags)
    (mirrors : Store.Mirrors view s t atom subject')
    (bound' : case.boundBy subjectIsBool subject' = .ok (some w))
    (selected : selectedBy subjectIsBool tag atom = .ok (some v)) : Store.Mirrors view s t v w := by
  unfold selectedBy at selected
  split at selected
  · rename_i content choice tag'
    split at selected <;> cases selected
    rename_i same
    subst same
    refine mirrors.of_around (.tagged choice tag') ?_
    rintro path item ⟨content', listed', shown⟩
    have among' : (tag', Value.tagged content' choice tag') ∈
        case.tags.flatMap fun tag => subject'.atoms.map fun atom => (tag, atom) :=
      List.mem_flatMap.2 ⟨tag', among, List.mem_map_of_mem listed'⟩
    obtain ⟨_, ⟨⟩, more⟩ := (shows_boundByEach bound').2 _ among' content' (by simp [selectedBy])
    exact more path item shown
  · cases selected
  · cases selected
  · split at selected
    · split at selected <;> cases selected
      exact .of_bool _ w
    · cases selected
  · cases selected

/-- What a case binds is mirrored by what it binds in the other store. -/
theorem mirrors_boundBy {case : MatchCase} (mirrors : Store.Mirrors view s t subject subject')
    (bound : case.boundBy subjectIsBool subject = .ok (some v))
    (bound' : case.boundBy subjectIsBool subject' = .ok (some w)) : Store.Mirrors view s t v w := by
  have each : ∀ p ∈ case.tags.flatMap fun tag => subject.atoms.map fun atom => (tag, atom),
      ∀ bound, selectedBy subjectIsBool p.1 p.2 = .ok bound →
        AnswerMirrors view t bound (some w) s := by
    rintro p listed bound selected x rfl
    obtain ⟨tag, among, listed⟩ := List.mem_flatMap.1 listed
    obtain ⟨atom, hatom, rfl⟩ := List.mem_map.1 listed
    exact ⟨w, rfl, mirrors_selectedBy among (mirrors.of_mem_atoms hatom) bound' selected⟩
  obtain ⟨_, ⟨⟩, mirrors⟩ := answerMirrors_boundByEach bound answerMirrors_none each v rfl
  exact mirrors

end binding

/-! ### Blocks that are selected -/

/-- Control that continues in the first analysis continues in the second one. -/
def StepContinues (step step' : Step Value Unit) (_ : Store) : Prop :=
  step.value.isSome = true → step'.value.isSome = true

/-- The walk of the block is followed wherever the second analysis is at rest and sees what is
wanted, and notes what it does. -/
structure BlockFollows (view : View) (t : Store) (act act' : Activation)
    (wanted : Visit Analysis Value → Prop) (walk walk' : CodeWalk)
    (visits : CodeId → Analysis → List (Visit Analysis Value)) (code : CodeId) : Prop where
  notes : ∀ b, Notes (walk' code) b
  follows : ∀ {a b : Analysis}, Store.Covered view t a.store → b.store = t →
    ActMirrors view t act act' a.store → (∀ visit ∈ visits code b, wanted visit) →
    Follows view t StepContinues (walk code) (walk' code) a b

section blocks

variable {view : View} {t : Store} {act act' : Activation} {wanted : Visit Analysis Value → Prop}
  {walk walk' : CodeWalk} {visits : CodeId → Analysis → List (Visit Analysis Value)}
  {a b : Analysis}

/-- The branches that are taken are listed in order. -/
theorem sublist_of_takenBranches {condition : Value} {thenCode elseCode : CodeId}
    {codes : List CodeId} (taken : takenBranches condition thenCode elseCode = .ok codes) :
    codes.Sublist [thenCode, elseCode] := by
  unfold takenBranches at taken
  obtain ⟨⟨thenTaken, elseTaken⟩, -, taken⟩ := exists_of_bind_eq_ok taken
  cases taken
  cases thenTaken <;> cases elseTaken <;> simp

/-- Walking blocks notes what it does if the walk of each of them does. -/
theorem notes_walkAll {codes : List CodeId} (hw : ∀ code ∈ codes, ∀ b, Notes (walk code) b)
    (b : Analysis) : Notes (walkAll walk codes) b := by
  induction codes generalizing b with
  | nil => exact .pure _ b
  | cons code rest ih =>
    obtain ⟨here, later⟩ := List.forall_mem_cons.1 hw
    unfold walkAll
    exact (here b).bind fun _ b' _ => (ih later b').bind fun _ _ _ => .pure _ _

/-- Walking a case notes what it does if the walk of its block does. -/
theorem notes_walkCase {frame : InstanceId} {subjectIsBool : Bool} {subject : Value}
    {case : MatchCase} (hw : ∀ b, Notes (walk case.code) b) (b : Analysis) :
    Notes (Analyzer.walkCase walk frame subjectIsBool subject case) b := by
  have taken (b : Analysis) : Notes (do return (← walk case.code).value.isSome) b :=
    (hw b).bind fun _ _ _ => .pure _ _
  unfold Analyzer.walkCase
  refine .lift_bind fun bound _ => ?_
  cases bound with
  | none => exact .pure _ b
  | some bound =>
    dsimp only
    cases case.field with
    | none => exact taken b
    | some field => exact (notes_setField field bound _ b).bind fun _ b' _ => taken b'

/-- Walking the cases of a match notes what it does if the walks of their blocks do. -/
theorem notes_walkCases {frame : InstanceId} {subjectIsBool : Bool} {subject : Value}
    {cases : List MatchCase} (hw : ∀ case ∈ cases, ∀ b, Notes (walk case.code) b) (b : Analysis) :
    Notes (walkCases walk frame subjectIsBool subject cases) b := by
  induction cases generalizing b with
  | nil => exact .pure _ b
  | cons case rest ih =>
    obtain ⟨here, later⟩ := List.forall_mem_cons.1 hw
    rw [Analyzer.walkCases_cons]
    exact (notes_walkCase here b).bind fun _ b' _ => (ih later b').bind fun _ _ _ => .pure _ _

/-- Walking some branches is followed by walking these and others, in the same order. -/
theorem follows_walkAll (quiet : t.change = none) {codes codes' : List CodeId}
    (sub : codes.Sublist codes')
    (hw : ∀ code ∈ codes', BlockFollows view t act act' wanted walk walk' visits code)
    (hs : Store.Covered view t a.store) (hb : b.store = t)
    (hact : ActMirrors view t act act' a.store)
    (seen : ∀ visit ∈ Analyzer.visitsOfBranches walk' visits codes' b, wanted visit) :
    Follows view t (fun continues continues' _ => continues = true → continues' = true)
      (walkAll walk codes) (walkAll walk' codes') a b := by
  induction sub generalizing a b with
  -- A branch that only the run at rest takes is walked there before the others, and nothing changes
  -- in it. A branch that both take is followed first.
  | slnil => exact .pure hs id
  | @cons codes codes' code sub ih =>
    obtain ⟨here, later⟩ := List.forall_mem_cons.1 hw
    have notes (b : Analysis) := notes_walkAll (fun code hc => (later code hc).notes) b
    unfold Analyzer.visitsOfBranches at seen
    rw [walkAll]
    refine .after_right quiet (fun _ b' _ => (notes b').bind fun _ _ _ => .pure _ _)
      fun step b₁ walked hb₁ => ?_
    have rest := ih later hs hb₁ hact fun visit hv =>
      seen visit (List.mem_append_right _ (Attempt.mem_follow.2 ⟨step, b₁, walked, hv⟩))
    rw [← bind_pure (walkAll walk codes)]
    exact rest.bind_pure fun _ _ _ _ h continues => by rw [h continues, Bool.or_true]
  | @cons_cons codes codes' code sub ih =>
    obtain ⟨here, later⟩ := List.forall_mem_cons.1 hw
    have notes (b : Analysis) := notes_walkAll (fun code hc => (later code hc).notes) b
    unfold Analyzer.visitsOfBranches at seen
    rw [walkAll, walkAll]
    refine (here.follows hs hb hact fun visit hv =>
      seen visit (List.mem_append_left _ hv)).bind quiet
      (fun _ b' _ => (notes b').bind fun _ _ _ => .pure _ _)
      fun step step' a₁ b₁ _ walked hb₁ proceeds continues => ?_
    have rest := ih later proceeds.covered hb₁ (hact.mono proceeds.keeps) fun visit hv =>
      seen visit (List.mem_append_right _ (Attempt.mem_follow.2 ⟨step', b₁, walked, hv⟩))
    refine rest.bind_pure fun _ _ _ _ h either => ?_
    simp only [Bool.or_eq_true] at either ⊢
    exact either.imp continues h

/-- A case that is taken is taken at rest, where it is. -/
theorem follows_walkCase (ht : t.Rests view) {subjectIsBool : Bool} {subject subject' : Value}
    {case : MatchCase} (hw : BlockFollows view t act act' wanted walk walk' visits case.code)
    (way : case.boundBy subjectIsBool subject' ≠ .ok none)
    (hs : Store.Covered view t a.store) (hb : b.store = t)
    (hact : ActMirrors view t act act' a.store)
    (subjects : Store.Mirrors view a.store t subject subject')
    (seen : ∀ visit ∈ Analyzer.visitsOfCase visits act'.frame subjectIsBool subject' case b,
      wanted visit) :
    Follows view t (fun continues continues' _ => continues = true → continues' = true)
      (Analyzer.walkCase walk act.frame subjectIsBool subject case)
      (Analyzer.walkCase walk' act'.frame subjectIsBool subject' case) a b := by
  have notes (b : Analysis) : Notes (do return (← walk' case.code).value.isSome) b :=
    (hw.notes b).bind fun _ _ _ => .pure _ _
  have taken {a b : Analysis} (hs : Store.Covered view t a.store) (hb : b.store = t)
      (hact : ActMirrors view t act act' a.store) (seen : ∀ visit ∈ visits case.code b, wanted visit) :
      Follows view t (fun continues continues' _ => continues = true → continues' = true)
        (do return (← walk case.code).value.isSome) (do return (← walk' case.code).value.isSome)
        a b :=
    (hw.follows hs hb hact seen).bind_pure fun _ _ _ _ continues => continues
  unfold Analyzer.walkCase
  refine .lift_bind fun bound bound' selected selected' => ?_
  cases bound with
  -- If nothing is bound here, this walk leaves the case out. At rest it is taken, whatever is
  -- bound.
  | none => exact .pure_left hs fun _ => by rintro ⟨⟩
  | some v =>
    cases bound' with
    | none => exact absurd selected' way
    | some w =>
      rw [Analyzer.visitsOfCase_of_bound selected'] at seen
      dsimp only
      cases bind : case.field with
      | none =>
        rw [bind] at seen
        exact taken hs hb hact seen
      | some field =>
        rw [bind] at seen
        have values := mirrors_boundBy subjects selected selected'
        exact (follows_setField ht hs hb values hact.current field).bind ht.quiet
          (fun _ b' _ => notes b') fun _ _ a₁ b₁ _ written hb₁ proceeds _ =>
            taken proceeds.covered hb₁ (hact.mono proceeds.keeps) fun visit hv =>
              seen visit (Attempt.mem_follow.2 ⟨(), b₁, written, hv⟩)

/-- Walking the cases of a match is followed by walking the same cases, if the match at rest selects
all of them. -/
theorem follows_walkCases (ht : t.Rests view) {subjectIsBool : Bool} {subject subject' : Value}
    {cases : List MatchCase}
    (hw : ∀ case ∈ cases, BlockFollows view t act act' wanted walk walk' visits case.code)
    (ways : ∀ case ∈ cases, case.boundBy subjectIsBool subject' ≠ .ok none)
    (hs : Store.Covered view t a.store) (hb : b.store = t)
    (hact : ActMirrors view t act act' a.store)
    (subjects : Store.Mirrors view a.store t subject subject')
    (seen : ∀ visit ∈ Analyzer.visitsOfCases walk' visits act'.frame subjectIsBool subject' cases b,
      wanted visit) :
    Follows view t (fun continues continues' _ => continues = true → continues' = true)
      (walkCases walk act.frame subjectIsBool subject cases)
      (walkCases walk' act'.frame subjectIsBool subject' cases) a b := by
  induction cases generalizing a b with
  | nil => exact .pure hs id
  | cons case rest ih =>
    obtain ⟨here, later⟩ := List.forall_mem_cons.1 hw
    obtain ⟨way, ways⟩ := List.forall_mem_cons.1 ways
    have notes (b : Analysis) : Notes (walkCases walk' act'.frame subjectIsBool subject' rest) b :=
      notes_walkCases (fun case hc => (later case hc).notes) b
    rw [Analyzer.visitsOfCases_cons] at seen
    rw [Analyzer.walkCases_cons, Analyzer.walkCases_cons]
    refine (follows_walkCase ht here way hs hb hact subjects fun visit hv =>
      seen visit (List.mem_append_left _ hv)).bind ht.quiet
      (fun _ b' _ => (notes b').bind fun _ _ _ => .pure _ _)
      fun continues continues' a₁ b₁ _ walked hb₁ proceeds implied => ?_
    have rest := ih later ways proceeds.covered hb₁ (hact.mono proceeds.keeps)
      (subjects.mono proceeds.keeps) fun visit hv =>
        seen visit (List.mem_append_right _ (Attempt.mem_follow.2 ⟨continues', b₁, walked, hv⟩))
    refine rest.bind_pure fun _ _ _ _ h either => ?_
    simp only [Bool.or_eq_true] at either ⊢
    exact either.imp implied h

end blocks

/-! ### Instructions -/

/-- The operands with which a block goes on are mirrored, if it does. -/
def ProgressMirrors (view : View) (t : Store) (progress progress' : Progress Value Unit)
    (s : Store) : Prop :=
  ∀ stack, progress.stack = some stack → ∃ stack', progress'.stack = some stack' ∧
    List.Forall₂ (Store.Mirrors view s t) stack stack'

section instructions

variable {view : View} {s t : Store} {stack stack' : List Value} {step step' : Step Value Unit}

/-- An instruction goes on with operands that are mirrored if it goes on with such a stack. -/
theorem progressMirrors_some (operands : List.Forall₂ (Store.Mirrors view s t) stack stack') :
    ProgressMirrors view t ⟨(), some stack⟩ ⟨(), some stack'⟩ s := by
  rintro _ ⟨⟩
  exact ⟨stack', rfl, operands⟩

/-- An instruction that pushes its answer goes on with operands that are mirrored if the answers
are. -/
theorem progressMirrors_pushing (operands : List.Forall₂ (Store.Mirrors view s t) stack stack')
    (h : AnswerMirrors view t step.value step'.value s) :
    ProgressMirrors view t (.pushing stack step) (.pushing stack' step') s := by
  intro pushed there
  obtain ⟨v, answered, rfl⟩ := Option.map_eq_some_iff.1 there
  obtain ⟨w, answered', mirrors⟩ := h v answered
  exact ⟨w :: stack', by simp [Progress.pushing, answered'], .cons mirrors operands⟩

/-- An instruction without an answer goes on with the operands that it finds. -/
theorem progressMirrors_keeping (operands : List.Forall₂ (Store.Mirrors view s t) stack stack')
    (h : StepContinues step step' s) :
    ProgressMirrors view t (.keeping stack step) (.keeping stack' step') s := by
  intro kept there
  obtain ⟨v, answered, rfl⟩ := Option.map_eq_some_iff.1 there
  obtain ⟨w, answered'⟩ := Option.isSome_iff_exists.1 (h (by simp [answered]))
  exact ⟨stack', by simp [Progress.keeping, answered'], operands⟩

/-- Control continues after blocks that have been walked if it does in the first analysis. -/
theorem stepContinues_answerIf {continues continues' : Bool} (s : Store)
    (implied : continues = true → continues' = true) :
    StepContinues (answerIf continues) (answerIf continues') s := by
  cases continues with
  | false => rintro ⟨⟩
  | true =>
    rw [implied rfl]
    exact id

/-- An atom receives what its own clazz, `receiverClazz?`, receives. -/
theorem receives_of_receiverClazz? {type : ClazzId} {atom : Value}
    (h : t.receiverClazz? atom = some type) : Analyzer.receives t type atom = .ok true := by
  rw [Analyzer.receives_eq_decide _ type, decide_eq_true h]
  rintro id rfl
  obtain ⟨key, known, -⟩ := Option.map_eq_some_iff.1 h
  exact ⟨key, known⟩

/-- A box that the program makes has a receiver in its place. -/
theorem exists_receives_of_hasReceivers {access : Access} {target target' : Value}
    (targets : Store.Mirrors view s t target target') (ways : view.HasReceivers t access target') :
    access.dynamic = true → ∀ p ∈ access.targets, ∀ atom ∈ target.atoms,
      Analyzer.receives {} p.1 atom = .ok true →
        ∃ atom' ∈ target'.atoms, Analyzer.receives t p.1 atom' = .ok true := by
  intro dynamic p hp atom hatom received
  -- There are no instances in the empty store, so what is received there is in a box.
  cases atom with
  | boxed content valueClazz refClazz =>
    have same : refClazz = p.1 := of_decide_eq_true (Except.ok.inj received)
    have boxes : view.Boxes valueClazz refClazz :=
      (Value.everywhere_boxed.1 (targets.made.of_mem_atoms hatom).parts).1
    obtain ⟨atom', hatom', receiver⟩ := ways dynamic p hp (same ▸ View.boxesFor_of_boxes boxes)
    exact ⟨atom', hatom', receives_of_receiverClazz? receiver⟩
  | _ => cases received

end instructions

section instructions

variable {z : Analyzer} {name : String} {truth : Truth} {t : Store} {a b : Analysis}
  {act act' : Activation} (hz : z.intrinsics = .standard)
  (unsupported : ∀ meaning, IntrinsicTable.standard.find? name ≠ some (.handler meaning))
  (ht : t.Rests z.view) (hs : Store.Covered z.view t a.store) (hb : b.store = t)

include hs hb

/-- Looking up an effect is followed by looking it up in the environment of a call that mirrors. -/
theorem follows_env (ht : t.Rests z.view) (hact : ActMirrors z.view t act act' a.store)
    (site : Site)
    (effect : ClazzId) :
    Follows z.view t (fun step step' => AnswerMirrors z.view t step.value step'.value)
      (((z.answering name truth).processor act).env site effect)
        ((z.processor act').env site effect)
      a b := by
  refine .currentStore_bind (.lift_bind fun found found' look look' => ?_)
  rw [hb] at look'
  cases found with
  | none =>
    exact .note_left (AnalysisDiscipline.store_diagnose _) fun a' kept =>
      .pure_left (kept.symm ▸ hs) fun _ => answerMirrors_none
  | some v =>
    obtain ⟨w, rfl, mirrors⟩ := Store.mirrors_lookupEffect ht.coarse hs hact.key.env look look' rfl
    exact .pure hs (answerMirrors_some mirrors)

/-- A constant is followed by the same constant. -/
theorem follows_const (ht : t.Rests z.view) (hact : ActMirrors z.view t act act' a.store)
    (code : CodeId) (index : Nat) (clazz : ClazzId) (data : List UInt8) :
    Follows z.view t (fun step step' => AnswerMirrors z.view t step.value step'.value)
      (((z.answering name truth).processor act).const ⟨act.key.clazz, code, index⟩ clazz data)
      ((z.processor act').const ⟨act.key.clazz, code, index⟩ clazz data) a b := by
  show Follows _ _ _ (z.constant? act.key.clazz _ clazz data >>= fun r => pure (answer r))
    (z.constant? act'.key.clazz _ clazz data >>= fun r => pure (answer r)) a b
  rw [hact.key.clazz]
  exact (follows_constant ht hs hb _ _ clazz).bind_pure fun _ _ _ _ answers => answers

/-- A conditional is followed where it takes both branches at rest, whichever the first condition
admits. -/
theorem follows_cond (ht : t.Rests z.view) {wanted : Visit Analysis Value → Prop}
    {nested nested' : BlockWalk Fault Analysis Value Unit} {visits : BlockVisits Analysis Value}
    (site : Site) {condition condition' : Value} {thenCode elseCode : CodeId}
    (hw : ∀ inner ∈ (Instr.cond thenCode elseCode).branches, BlockFollows z.view t act act' wanted
      (nested site.clazz) (nested' site.clazz) (visits site.clazz) inner)
    (hact : ActMirrors z.view t act act' a.store)
    (ways : takenBranches condition' thenCode elseCode = .ok [thenCode, elseCode])
    (seen : ∀ visit ∈ (liftM (takenBranches condition' thenCode elseCode) :
        Analyzing (List CodeId)).follow (Analyzer.visitsOfBranches (nested' site.clazz)
          (visits site.clazz)) b, wanted visit) :
    Follows z.view t StepContinues
      (((z.answering name truth).processor act).cond nested site condition thenCode elseCode)
      ((z.processor act').cond nested' site condition' thenCode elseCode) a b := by
  rw [ways] at seen
  refine .lift_bind fun codes codes' taken taken' => ?_
  cases ways.symm.trans taken'
  exact (follows_walkAll ht.quiet (sublist_of_takenBranches taken) hw hs hb hact seen).bind_pure
    fun _ _ s _ => stepContinues_answerIf s

/-- Boxing a value is followed by boxing what mirrors it. -/
theorem follows_box (ht : t.Rests z.view) {code : CodeId} {index : Nat}
    {valueClazz refClazz : ClazzId} {v w : Value}
    (found : z.view.instr? code index = some (.box valueClazz refClazz))
    (mirrors : Store.Mirrors z.view a.store t v w) :
    Follows z.view t (fun step step' => AnswerMirrors z.view t step.value step'.value)
      (((z.answering name truth).processor act).box v valueClazz refClazz)
      ((z.processor act').box w valueClazz refClazz) a b := by
  show Follows _ _ _ (if (z.view.info valueClazz).isRef then _ else _)
    (if (z.view.info valueClazz).isRef then _ else _) a b
  cases isRef : (z.view.info valueClazz).isRef with
  | true => exact .pure hs (answerMirrors_some mirrors)
  | false =>
    exact (follows_boxValue ht hs hb ⟨⟨code, index, found⟩, isRef⟩ mirrors).bind_pure
      fun _ _ _ _ mirrors => answerMirrors_some mirrors

omit hb in
/-- A contract is followed where it is not known to be violated at rest. -/
theorem follows_contract (site : Site) (kind : ContractKind) (v w : Value)
    (way : w ≠ .bool .false) :
    Follows z.view t StepContinues (((z.answering name truth).processor act).contract site kind v)
      ((z.processor act').contract site kind w) a b := by
  show Follows _ _ _ (if v = .bool .false then _ else _) (if w = .bool .false then _ else _) a b
  rw [if_neg way]
  split
  · exact .note_left (AnalysisDiscipline.store_diagnose _) fun a' kept =>
      .pure_left (kept.symm ▸ hs) fun _ => by rintro ⟨⟩
  · exact .pure hs id

include hz unsupported ht

omit hb in
/-- The call of an instruction is followed if its target at rest has a receiver for each target that
values are boxed for. -/
theorem follows_call_instr (hact : ActMirrors z.view t act act' a.store) (site : Site)
    {access : Access} {operands operands' : List Value}
    (mirrors : List.Forall₂ (Store.Mirrors z.view a.store t) operands operands')
    (neat : ∀ v ∈ operands', v.Neat z.view)
    (ways : ∀ target ∈ operands'[z.view.arity access]?, z.view.HasReceivers t access target)
    (nested nested' : BlockWalk Fault Analysis Value Unit) :
    Follows z.view t (ProgressMirrors z.view t)
      (walkInstr z.view ((z.answering name truth).processor act) nested site (.call access)
        operands)
      (walkInstr z.view (z.processor act') nested' site (.call access) operands') a b := by
  have dropped := List.forall₂_drop (z.view.arity access) mirrors
  have passed := List.forall₂_reverse_iff.2 (List.forall₂_take (z.view.arity access) mirrors)
  unfold walkInstr
  dsimp only
  cases drop : operands.drop (z.view.arity access) with
  | nil => exact .throw_left
  | cons target rest =>
    cases drop' : operands'.drop (z.view.arity access) with
    | nil => exact .throw_right
    | cons target' rest' =>
      rw [drop, drop'] at dropped
      obtain ⟨targets, rests⟩ := List.forall₂_cons.1 dropped
      have there : operands'[z.view.arity access]? = some target' := by
        rw [← List.head?_drop, drop', List.head?_cons]
      have way := exists_receives_of_hasReceivers targets (ways target' there)
      have called : Follows z.view t
          (fun step step' => AnswerMirrors z.view t step.value step'.value)
          (((z.answering name truth).processor act).call site access target
            (operands.take (z.view.arity access)).reverse)
          ((z.processor act').call site access target'
            (operands'.take (z.view.arity access)).reverse) a b :=
        (follows_call hz unsupported ht hs hact targets (neat target' (List.mem_of_getElem? there))
          passed way).bind_pure fun _ _ _ _ answers => answers
      exact called.map fun step step' s keeps answers =>
        progressMirrors_pushing (rests.imp fun _ _ => .mono keeps) answers

/-- The assignment of an instruction is followed if its target at rest has a receiver for each
target that values are boxed for. -/
theorem follows_assign_instr (hact : ActMirrors z.view t act act' a.store) (site : Site)
    {access : Access} {target target' value value' : Value}
    (targets : Store.Mirrors z.view a.store t target target')
    (values : Store.Mirrors z.view a.store t value value') (neat : target'.Neat z.view)
    (ways : z.view.HasReceivers t access target') :
    Follows z.view t (fun _ _ _ => True)
      (((z.answering name truth).processor act).assign site access target value)
      ((z.processor act').assign site access target' value') a b :=
  (follows_access hz unsupported ht hs hb hact targets neat (.assign (.cons values .nil))
    (exists_receives_of_hasReceivers targets ways)).bind_pure fun _ _ _ _ _ => trivial

/-- An instruction is followed where it goes all ways, with operands that mirror and blocks that are
followed. -/
theorem follows_walkInstr {wanted : Visit Analysis Value → Prop}
    {nested nested' : BlockWalk Fault Analysis Value Unit} {visits : BlockVisits Analysis Value}
    {code : CodeId} {index : Nat} {instr : Instr} {operands operands' : List Value}
    (found : z.view.instr? code index = some instr)
    (hw : ∀ inner ∈ instr.branches, BlockFollows z.view t act act' wanted (nested act.key.clazz)
      (nested' act.key.clazz) (visits act.key.clazz) inner)
    (hact : ActMirrors z.view t act act' a.store)
    (mirrors : List.Forall₂ (Store.Mirrors z.view a.store t) operands operands')
    (neat : ∀ v ∈ operands', v.Neat z.view)
    (ways : Visit.GoesAllWays z.view ⟨⟨act.key.clazz, code, index⟩, instr, operands', b⟩)
    (seen : ∀ visit ∈ z.visitsInside act' nested' visits
      ⟨⟨act.key.clazz, code, index⟩, instr, operands', b⟩, wanted visit) :
    Follows z.view t (ProgressMirrors z.view t)
      (walkInstr z.view ((z.answering name truth).processor act) nested
        ⟨act.key.clazz, code, index⟩ instr operands)
      (walkInstr z.view (z.processor act') nested' ⟨act.key.clazz, code, index⟩ instr operands')
      a b := by
  have pushing {operands operands' : List Value}
      (mirrors : List.Forall₂ (Store.Mirrors z.view a.store t) operands operands')
      (step step' : Step Value Unit) (s : Store) (keeps : a.store.Keeps s)
      (answers : AnswerMirrors z.view t step.value step'.value s) :
      ProgressMirrors z.view t (.pushing operands step) (.pushing operands' step') s :=
    progressMirrors_pushing (mirrors.imp fun _ _ => .mono keeps) answers
  have keeping {operands operands' : List Value}
      (mirrors : List.Forall₂ (Store.Mirrors z.view a.store t) operands operands')
      (step step' : Step Value Unit) (s : Store) (keeps : a.store.Keeps s)
      (continues : StepContinues step step' s) :
      ProgressMirrors z.view t (.keeping operands step) (.keeping operands' step') s :=
    progressMirrors_keeping (mirrors.imp fun _ _ => .mono keeps) continues
  have answered {v w : Value} (h : Store.Mirrors z.view a.store t v w) :
      Follows z.view t (fun step step' => AnswerMirrors z.view t step.value step'.value)
        (pure (answer (some v))) (pure (answer (some w))) a b :=
    .pure hs (answerMirrors_some h)
  cases instr with
  | current => exact (answered hact.current).map (pushing mirrors)
  | outer => exact (answered hact.key.target).map (pushing mirrors)
  | arg index =>
    have argument : Follows z.view t (fun step step' => AnswerMirrors z.view t step.value step'.value)
        (((z.answering name truth).processor act).arg act.key.clazz index)
        ((z.processor act').arg act.key.clazz index) a b :=
      .lift_bind fun v w passed passed' =>
        .pure hs (answerMirrors_some (mirrors_argument hact.key.args passed passed'))
    exact argument.map (pushing mirrors)
  | const clazz data =>
    exact (follows_const hs hb ht hact code index clazz data).map (pushing mirrors)
  | env effect => exact (follows_env hs hb ht hact _ effect).map (pushing mirrors)
  | assign access =>
    match operands, operands', mirrors with
    | [], [], _ => exact .throw_left
    | [_], [_], _ => exact .throw_left
    | value :: target :: _, value' :: target' :: _, .cons values (.cons targets rests) =>
      have ways : z.view.HasReceivers b.store access target' := ways
      rw [hb] at ways
      have neat := neat target' (by simp)
      exact (follows_assign_instr hz unsupported ht hs hb hact _ targets values neat ways).bind_pure
        fun _ _ s keeps _ => progressMirrors_some (rests.imp fun _ _ => .mono keeps)
  | call access =>
    have ways : ∀ target ∈ operands'[z.view.arity access]?,
        z.view.HasReceivers b.store access target := ways
    rw [hb] at ways
    exact follows_call_instr hz unsupported ht hs hact _ mirrors neat ways nested nested'
  | box valueClazz refClazz =>
    cases mirrors with
    | nil => exact .throw_left
    | cons here rests => exact (follows_box hs hb ht found here).map (pushing rests)
  | unbox refClazz valueClazz =>
    cases mirrors with
    | nil => exact .throw_left
    | cons here rests => exact (answered (mirrors_unboxed here)).map (pushing rests)
  | adrOf =>
    cases mirrors with
    | nil => exact .throw_left
    | cons here rests => exact (answered here).map (pushing rests)
  | tag value choice tag =>
    cases mirrors with
    | nil => exact .throw_left
    | @cons v w _ _ here rests =>
      have tagged : Store.Mirrors z.view a.store t
          (if z.view.isBool choice then .bool (.ofTag tag) else .tagged v choice tag)
          (if z.view.isBool choice then .bool (.ofTag tag) else .tagged w choice tag) := by
        cases isBool : z.view.isBool choice with
        | true => exact .of_bool _ _
        | false => exact here.tagged ⟨.inl ⟨code, index, value, tag, found⟩, isBool⟩ tag
      exact (answered tagged).map (pushing rests)
  | select m =>
    cases mirrors with
    | nil => exact .throw_left
    | cons here rests =>
      have hw : ∀ case ∈ m.cases, BlockFollows z.view t act act' wanted (nested act.key.clazz)
          (nested' act.key.clazz) (visits act.key.clazz) case.code :=
        fun case listed => hw case.code (List.mem_map_of_mem listed)
      have selected : Follows z.view t StepContinues
          (((z.answering name truth).processor act).select nested ⟨act.key.clazz, code, index⟩ m _)
          ((z.processor act').select nested' ⟨act.key.clazz, code, index⟩ m _) a b :=
        (follows_walkCases ht hw ways hs hb hact here seen).bind_pure
          fun _ _ s _ => stepContinues_answerIf s
      exact selected.map (keeping rests)
  | cond thenCode elseCode =>
    cases mirrors with
    | nil => exact .throw_left
    | cons here rests =>
      exact (follows_cond hs hb ht ⟨act.key.clazz, code, index⟩ hw hact ways seen).map
        (keeping rests)
  | contract kind =>
    cases mirrors with
    | nil => exact .throw_left
    | cons here rests => exact (follows_contract hs _ kind _ _ ways).map (keeping rests)
  | pop =>
    cases mirrors with
    | nil => exact .throw_left
    | cons here rests => exact .pure hs (progressMirrors_some rests)
  | comment text => exact .pure hs (progressMirrors_some mirrors)

end instructions

end ClosedWorld
