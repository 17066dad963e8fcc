import ClosedWorld.Proofs.Lockstep.Instructions

/-!
# Walks in lockstep

The walk of a clazz is followed by the walk of the same clazz at rest, as long as all that is
visited there is open. Control that reaches the end of the one walk reaches the end of the other.

## Main definitions

* `Visit.IsOpen`: a visit that goes all ways, with neat operands.

## Main statements

* `follows_walkInstrs`: the rest of a block.
* `blockFollows_walkNested`, `follows_walkBlock`: a block with the blocks in it.
* `follows_walkClazz`: a clazz.
-/

namespace ClosedWorld

/-- The visit goes all ways, and the operands that it finds are neat. -/
structure Visit.IsOpen (view : View) (visit : Visit Analysis Value) : Prop where
  ways : visit.GoesAllWays view
  neat : ∀ v ∈ visit.stack, v.Neat view

variable {z : Analyzer} {name : String} {truth : Truth} {t : Store} {a b : Analysis}
  {act act' : Activation}

/-! ### Walks that note what they do -/

section notes

variable (hz : z.intrinsics = .standard) (same : act'.key.clazz = act.key.clazz)

include hz

/-- The processor of an analysis notes what it does, in the terms of `AnalysisDiscipline.quiet`. -/
theorem respects_processor_quiet (s : Store) (act : Activation) :
    (z.processor act).Respects (AnalysisDiscipline.quiet z s).runs (fun _ _ => True) z.view
      act.key.clazz ((z.beside z.config.reportIntrinsics).processor act) :=
  (AnalysisDiscipline.quiet z s).respects_processor hz fun _ =>
    AnalysisDiscipline.goodActivation_quiet ..

/-- What is visited inside an instruction is seen in steps that note what they do. -/
theorem respects_visitsInside_quiet (s : Store) (act : Activation) :
    (z.visitsInside act).Respects (AnalysisDiscipline.quiet z s).runs (fun _ _ => True) z.view
      act.key.clazz (z.processor act) ((z.beside z.config.reportIntrinsics).processor act) :=
  (AnalysisDiscipline.quiet z s).respects_visitsInside hz fun _ =>
    AnalysisDiscipline.goodActivation_quiet ..

/-- The visits of a nested block are seen during its walk, which notes what it does. -/
theorem seen_visitsOfNested_quiet (s : Store) (act : Activation) (levels : Nat) (code : CodeId)
    {a b : Analysis} (h : (AnalysisDiscipline.quiet z s).runs.Alike a b) :
    ((AnalysisDiscipline.quiet z s).sight act).Seen (fun _ _ => True)
      (walkNested z.view (z.processor act) levels act.key.clazz code)
      (walkNested z.view ((z.beside z.config.reportIntrinsics).processor act) levels act.key.clazz
        code)
      (visitsOfNested z.view (z.processor act) (z.visitsInside act) levels act.key.clazz code a)
      a b :=
  (seen_visitsOfNested (respects_processor_quiet hz s act) (fun _ _ => trivial)
    (respects_visitsInside_quiet hz s act) levels code (.inr fun _ => by rintro _ ⟨⟩) h).mono
    fun _ _ _ _ => trivial

include same

/-- The walk of a block notes what it does, whatever is nested in it. -/
theorem notes_walkNested (levels : Nat) (code : CodeId) (b : Analysis) :
    Notes (walkNested z.view (z.processor act') levels act.key.clazz code) b := by
  rw [← same]
  exact .of_safe (seen_visitsOfNested_quiet hz b.store act' levels code
    (AnalysisDiscipline.alike_quiet z b)).safe

/-- The walk of the rest of a block notes what it does. -/
theorem notes_walkInstrs {levels : Nat} {code : CodeId} {remaining index : Nat}
    (hl : index + remaining ≤ z.view.codeLength code) (operands : List Value) (outputs : List Unit)
    (b : Analysis) :
    Notes (walkInstrs z.view (z.processor act') (walkNested z.view (z.processor act') levels)
      act.key.clazz code remaining index operands outputs) b := by
  rw [← same]
  exact .of_safe (seen_visitsOfInstrs (respects_processor_quiet hz b.store act')
    (fun _ _ => trivial)
    (fun visit _ _ ahead h => respects_visitsInside_quiet hz b.store act' visit ahead h
      fun inner _ h => seen_visitsOfNested_quiet hz b.store act' levels inner h)
    hl (fun _ _ => trivial) outputs (AnalysisDiscipline.alike_quiet z b)).safe

/-- The walk of several blocks notes what it does. -/
theorem notes_walkContracts (codes : List CodeId) (outputs : List Unit) (b : Analysis) :
    Notes (walkContracts z.view (z.processor act') act.key.clazz codes outputs) b := by
  induction codes generalizing outputs b with
  | nil => exact .pure _ b
  | cons code rest ih =>
    unfold walkContracts
    refine (notes_walkNested hz same _ code b).bind fun step b' _ => ?_
    dsimp only
    cases step.value with
    | none => exact .pure _ b'
    | some _ => exact ih _ b'

end notes

/-! ### Walks of an analysis, step by step -/

/-- An instruction is walked, and if control continues, the rest of the block. -/
theorem walkInstrs_succ {view : View} {nested : BlockWalk Fault Analysis Value Unit}
    {clazz : ClazzId}
    {code : CodeId} {index : Nat} {instr : Instr} (found : view.instr? code index = some instr)
    (remaining : Nat) (operands : List Value) (outputs : List Unit) :
    walkInstrs view (z.processor act) nested clazz code (remaining + 1) index operands outputs =
      (do
        let progress ←
          walkInstr view (z.processor act) nested ⟨clazz, code, index⟩ instr operands
        match progress.stack with
        | none => return ⟨none, ()⟩
        | some operands =>
          walkInstrs view (z.processor act) nested clazz code remaining (index + 1) operands
            (outputs ++ [(), progress.output])) := by
  have header (site : Site) (next : Unit → Analyzing (Step Value Unit)) :
      (liftM ((z.processor act).header site) >>= next) = next () := rfl
  rw [walkInstrs, found]
  dsimp only
  rw [header]
  refine bind_congr fun progress => ?_
  cases progress.stack <;> rfl

/-- The end of a walk gives the unit value if control continues, and nothing else happens. -/
theorem conclusion_eq (act : Activation) (continues : Bool) (outputs : List Unit) :
    (if continues = true then do
      return ⟨some (← liftM (z.processor act).unitValue),
        ← liftM ((z.processor act).sequence outputs)⟩
    else do return ⟨none, ← liftM ((z.processor act).sequence outputs)⟩ :
      Analyzing (Step Value Unit)) = pure (answerIf continues) := by
  cases continues <;> rfl

/-- The preconditions of a clazz are walked, if it has any. -/
theorem walkClazz_pre {view : View} {clazz : ClazzId} (checked : view.hasPrecondition clazz = true) :
    walkClazz view (z.processor act) clazz true = (do
      let walked ← walkContracts view (z.processor act) clazz (view.info clazz).preconditions []
      return answerIf walked.1) := by
  unfold walkClazz
  dsimp only
  rw [if_pos rfl, checked]
  exact bind_congr fun walked => conclusion_eq act walked.1 walked.2

/-- The body of a clazz is walked, and if control reaches its end, the postconditions. -/
theorem walkClazz_body {view : View} {clazz : ClazzId} {code : CodeId}
    (body : (view.info clazz).code = some code) :
    walkClazz view (z.processor act) clazz false = (do
      let body ← walkBlock view (z.processor act) clazz code
      match body.value with
      | none => return answerIf false
      | some _ => do
        let walked ←
          walkContracts view (z.processor act) clazz (view.info clazz).postconditions [body.output]
        return answerIf walked.1) := by
  unfold walkClazz
  dsimp only
  rw [if_neg Bool.false_ne_true, body]
  refine bind_congr fun body => ?_
  cases body.value with
  | none => rfl
  | some _ => exact bind_congr fun walked => conclusion_eq act walked.1 walked.2

/-! ### Blocks -/

section walks

variable (hz : z.intrinsics = .standard)
  (unsupported : ∀ meaning, IntrinsicTable.standard.find? name ≠ some (.handler meaning))
  (ht : t.Rests z.view)

include hz unsupported ht

/-- The rest of a block is followed if all visits in it at rest are open, by induction on the number
of the `remaining` instructions. -/
theorem follows_walkInstrs {levels : Nat} {code : CodeId}
    (hw : ∀ inner, BlockFollows z.view t act act' (Visit.IsOpen z.view)
      (walkNested z.view ((z.answering name truth).processor act) levels act.key.clazz)
      (walkNested z.view (z.processor act') levels act.key.clazz)
      (visitsOfNested z.view (z.processor act') (z.visitsInside act') levels act.key.clazz) inner)
    {remaining index : Nat} (hl : index + remaining ≤ z.view.codeLength code)
    {operands operands' : List Value} (outputs outputs' : List Unit)
    (hs : Store.Covered z.view t a.store) (hb : b.store = t)
    (hact : ActMirrors z.view t act act' a.store)
    (mirrors : List.Forall₂ (Store.Mirrors z.view a.store t) operands operands')
    (seen : ∀ visit ∈ visitsOfInstrs z.view (z.processor act')
      (walkNested z.view (z.processor act') levels)
      (z.visitsInside act' (walkNested z.view (z.processor act') levels)
        (visitsOfNested z.view (z.processor act') (z.visitsInside act') levels))
      act.key.clazz code remaining index operands' b, visit.IsOpen z.view) :
    Follows z.view t StepContinues
      (walkInstrs z.view ((z.answering name truth).processor act)
        (walkNested z.view ((z.answering name truth).processor act) levels) act.key.clazz code
        remaining index operands outputs)
      (walkInstrs z.view (z.processor act') (walkNested z.view (z.processor act') levels)
        act.key.clazz code remaining index operands' outputs') a b := by
  induction remaining generalizing index operands operands' outputs outputs' a b with
  | zero =>
    have ends : Follows z.view t StepContinues (pure ⟨some .unit, ()⟩) (pure ⟨some .unit, ()⟩) a b :=
      .pure hs id
    exact ends
  | succ remaining ih =>
    unfold visitsOfInstrs at seen
    cases found : z.view.instr? code index with
    | none =>
      unfold walkInstrs
      rw [found]
      exact .throw_left
    | some instr =>
      rw [found] at seen
      obtain ⟨here, inside⟩ := List.forall_mem_cons.1 (List.forall_mem_append.1 seen).1
      have later := (List.forall_mem_append.1 seen).2
      have inner : index + 1 + remaining ≤ z.view.codeLength code := by omega
      rw [walkInstrs_succ found, walkInstrs_succ found]
      refine (follows_walkInstr hz unsupported ht hs hb found (fun inner _ => hw inner) hact mirrors
        here.neat here.ways inside).bind ht.quiet (fun progress' b' _ => ?_)
        fun progress progress' a₁ b₁ _ walked hb₁ proceeds goes => ?_
      -- What is left of the run at rest notes what it changes, so nothing has changed up to here.
      · split
        · exact .pure _ b'
        · exact notes_walkInstrs hz hact.key.clazz inner _ _ b'
      cases stays : progress.stack with
      | none => exact .pure_left proceeds.covered fun _ => by rintro ⟨⟩
      | some operands₁ =>
        obtain ⟨operands₁', stays', mirrors₁⟩ := goes operands₁ stays
        rw [stays']
        refine ih inner _ _ proceeds.covered hb₁ (hact.mono proceeds.keeps) mirrors₁ fun visit hv =>
          later visit (Attempt.mem_follow.2 ⟨progress', b₁, walked, ?_⟩)
        rw [stays']
        exact hv

/-- A block is followed with all the blocks in it. -/
theorem blockFollows_walkNested (same : act'.key.clazz = act.key.clazz) (levels : Nat)
    (code : CodeId) :
    BlockFollows z.view t act act' (Visit.IsOpen z.view)
      (walkNested z.view ((z.answering name truth).processor act) levels act.key.clazz)
      (walkNested z.view (z.processor act') levels act.key.clazz)
      (visitsOfNested z.view (z.processor act') (z.visitsInside act') levels act.key.clazz) code := by
  induction levels generalizing code with
  | zero => exact ⟨notes_walkNested hz same 0 code, fun _ _ _ _ => .throw_left⟩
  | succ levels ih =>
    refine ⟨notes_walkNested hz same (levels + 1) code, fun hs hb hact seen => ?_⟩
    exact follows_walkInstrs hz unsupported ht ih (Nat.zero_add _).le [] [] hs hb hact .nil seen

/-- A block is followed if all visits in it at rest are open. -/
theorem follows_walkBlock (code : CodeId) (hs : Store.Covered z.view t a.store) (hb : b.store = t)
    (hact : ActMirrors z.view t act act' a.store)
    (seen : ∀ visit ∈ visitsOfBlock z.view (z.processor act') (z.visitsInside act') act.key.clazz code
      b, visit.IsOpen z.view) :
    Follows z.view t StepContinues
      (walkBlock z.view ((z.answering name truth).processor act) act.key.clazz code)
      (walkBlock z.view (z.processor act') act.key.clazz code) a b :=
  (blockFollows_walkNested hz unsupported ht hact.key.clazz _ code).follows hs hb hact seen

/-! ### Clazzes -/

/-- Several blocks, one after the other, are followed if all visits in them at rest are open. -/
theorem follows_walkContracts (codes : List CodeId) (outputs outputs' : List Unit)
    (hs : Store.Covered z.view t a.store) (hb : b.store = t)
    (hact : ActMirrors z.view t act act' a.store)
    (seen : ∀ visit ∈ visitsOfContracts z.view (z.processor act') (z.visitsInside act')
      act.key.clazz
      codes b, visit.IsOpen z.view) :
    Follows z.view t (fun walked walked' _ => walked.1 = true → walked'.1 = true)
      (walkContracts z.view ((z.answering name truth).processor act) act.key.clazz codes outputs)
      (walkContracts z.view (z.processor act') act.key.clazz codes outputs') a b := by
  induction codes generalizing outputs outputs' a b with
  | nil => exact .pure hs id
  | cons code rest ih =>
    unfold visitsOfContracts at seen
    obtain ⟨here, later⟩ := List.forall_mem_append.1 seen
    unfold walkContracts
    refine (follows_walkBlock hz unsupported ht code hs hb hact here).bind ht.quiet
      (fun step' b' _ => ?_) fun step step' a₁ b₁ _ walked hb₁ proceeds continues => ?_
    · dsimp only
      split
      · exact .pure _ b'
      · exact notes_walkContracts hz hact.key.clazz _ _ b'
    · cases ends : step.value with
      | none => exact .pure_left proceeds.covered fun _ => by rintro ⟨⟩
      | some v =>
        obtain ⟨v', ends'⟩ := Option.isSome_iff_exists.1 (continues (by rw [ends]; rfl))
        rw [ends']
        refine ih _ _ proceeds.covered hb₁ (hact.mono proceeds.keeps) fun visit hv =>
          later visit (Attempt.mem_follow.2 ⟨step', b₁, walked, ?_⟩)
        rw [ends']
        exact hv

/-- The walk of a clazz is followed by the walk of the same clazz, if all visits in it at rest are
open. -/
theorem follows_walkClazz (pre : Bool) (hs : Store.Covered z.view t a.store) (hb : b.store = t)
    (hact : ActMirrors z.view t act act' a.store)
    (seen : ∀ visit ∈ visitsOfClazz z.view (z.processor act') (z.visitsInside act') act.key.clazz pre
      b, visit.IsOpen z.view) :
    Follows z.view t StepContinues
      (walkClazz z.view ((z.answering name truth).processor act) act.key.clazz pre)
      (walkClazz z.view (z.processor act') act.key.clazz pre) a b := by
  unfold visitsOfClazz at seen
  cases pre with
  | true =>
    rw [if_pos rfl] at seen
    cases checked : z.view.hasPrecondition act.key.clazz with
    | false =>
      unfold walkClazz
      rw [if_pos rfl, checked]
      exact .throw_left
    | true =>
      rw [checked, if_pos rfl] at seen
      rw [walkClazz_pre checked, walkClazz_pre checked]
      exact (follows_walkContracts hz unsupported ht _ [] [] hs hb hact seen).bind_pure
        fun _ _ s _ => stepContinues_answerIf s
  | false =>
    rw [if_neg Bool.false_ne_true] at seen
    cases body : (z.view.info act.key.clazz).code with
    | none =>
      unfold walkClazz
      rw [if_neg Bool.false_ne_true, body]
      exact .throw_left
    | some code =>
      rw [body] at seen
      obtain ⟨here, later⟩ := List.forall_mem_append.1 seen
      rw [walkClazz_body body, walkClazz_body body]
      refine (follows_walkBlock hz unsupported ht code hs hb hact here).bind ht.quiet
        (fun step' b' _ => ?_) fun step step' a₁ b₁ _ walked hb₁ proceeds continues => ?_
      · split
        · exact .pure _ b'
        · exact (notes_walkContracts hz hact.key.clazz _ _ b').bind fun _ b'' _ => .pure _ b''
      cases ends : step.value with
      | none => exact .pure_left proceeds.covered fun _ => by rintro ⟨⟩
      | some v =>
        obtain ⟨v', ends'⟩ := Option.isSome_iff_exists.1 (continues (by rw [ends]; rfl))
        rw [ends']
        refine (follows_walkContracts hz unsupported ht _ _ _ proceeds.covered hb₁
          (hact.mono proceeds.keeps) fun visit hv =>
            later visit (Attempt.mem_follow.2 ⟨step', b₁, walked, ?_⟩)).bind_pure
          fun _ _ s _ => stepContinues_answerIf s
        rw [ends']
        exact hv

end walks

end ClosedWorld
