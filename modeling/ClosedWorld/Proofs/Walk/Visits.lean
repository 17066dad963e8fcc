import ClosedWorld.Proofs.Walk.Safe

/-!
# Visits

A walk comes by instructions, one after the other, and finds operands on the stack and a state at
each. The visits of a walk list them. They follow the walk itself: where it goes on after an
instruction, and in which state, is what the outcome of the instruction says.

What a visit shows has to do with what is seen before it and after it. Where all steps keep to a
regime, the walk leads to each visit, and each visit leads to the end of the walk, if the walk
succeeds.

## Main definitions

* `Attempt.follow`: what is seen after a step.
* `Visit`, `visitsOfBlock`, `visitsOfClazz`: the visits of a walk.
* `Regime.Sight`, `Regime.Sight.Seen`: what is said of what is seen during a step.

## Main statements

* `Regime.Sight.Seen.bind`: what is seen during steps after one another.
* `seen_visitsOfBlock`, `seen_visitsOfClazz`: what is said of the visits of a walk.
-/

namespace ClosedWorld

variable {ε σ τ V O α β : Type}

/-- What is seen after a step, if the step succeeds. -/
def Attempt.follow (step : Attempt ε σ α) (seen : α → σ → List τ) (a : σ) : List τ :=
  match step.outcome a with
  | (.ok x, a') => seen x a'
  | (.error _, _) => []

/-- What is seen after a step is seen in the state that the step leaves, if it succeeds. -/
theorem Attempt.mem_follow {step : Attempt ε σ α} {seen : α → σ → List τ} {a : σ} {t : τ} :
    t ∈ step.follow seen a ↔ ∃ x a', step.outcome a = (.ok x, a') ∧ t ∈ seen x a' := by
  unfold follow
  obtain ⟨result, a'⟩ := step.outcome a
  cases result with
  | ok x =>
    constructor
    · exact fun ht => ⟨x, a', rfl, ht⟩
    · rintro ⟨_, _, ⟨⟩, ht⟩
      exact ht
  | error e =>
    constructor
    · rintro ⟨⟩
    · rintro ⟨_, _, ⟨⟩, -⟩

/-- After a step that only gives an answer, one sees what is seen for that answer. -/
@[simp]
theorem Attempt.follow_pure (x : α) (seen : α → σ → List τ) :
    (pure x : Attempt ε σ α).follow seen = seen x := rfl

/-- After two steps, one sees what is seen after the second one, following the first one. -/
@[simp]
theorem Attempt.follow_bind (step : Attempt ε σ α) (next : α → Attempt ε σ β)
    (seen : β → σ → List τ) :
    (step >>= next).follow seen = step.follow fun x => (next x).follow seen := by
  funext a
  unfold follow
  rw [outcome_bind]
  obtain ⟨_ | x, a'⟩ := step.outcome a <;> rfl

/-- Seeing one thing and then another after a step is seeing the one after the step, and then the
other after the step. -/
theorem Attempt.follow_append (step : Attempt ε σ α) (seen later : α → σ → List τ) (a : σ) :
    step.follow (fun x a' => seen x a' ++ later x a') a =
      step.follow seen a ++ step.follow later a := by
  unfold follow
  obtain ⟨_ | x, a'⟩ := step.outcome a <;> rfl

/-! ### The visits of a walk -/

/-- An instruction that is about to be walked, with the stack and the state that it finds. -/
structure Visit (σ V : Type) where
  site : Site
  instr : Instr
  stack : List V
  before : σ

/-- The visits in a block that is walked on behalf of a clazz. -/
abbrev BlockVisits (σ V : Type) := ClazzId → CodeId → σ → List (Visit σ V)

/-- The visits in the blocks that the visited instruction contains. Which of them are walked is up
to the processor. -/
abbrev Inside (ε σ V O : Type) :=
  BlockWalk ε σ V O → BlockVisits σ V → Visit σ V → List (Visit σ V)

section visits

variable (v : View) (p : Processor ε σ V O)

/-- The visits in the rest of a block. -/
def visitsOfInstrs (nested : BlockWalk ε σ V O) (inside : Visit σ V → List (Visit σ V))
    (clazz : ClazzId) (code : CodeId) :
    (remaining index : Nat) → (stack : List V) → σ → List (Visit σ V)
  | 0, _, _, _ => []
  | remaining + 1, index, stack, a =>
    match v.instr? code index with
    | none => []
    | some instr =>
      let walk := walkInstr v p nested ⟨clazz, code, index⟩ instr stack
      let goOn (progress : Progress V O) (a : σ) : List (Visit σ V) :=
        match progress.stack with
        | none => []
        | some stack => visitsOfInstrs nested inside clazz code remaining (index + 1) stack a
      let visits (a : σ) : List (Visit σ V) :=
        let visit : Visit σ V := ⟨⟨clazz, code, index⟩, instr, stack, a⟩
        visit :: inside visit ++ walk.follow goOn a
      Attempt.follow (liftM (p.header ⟨clazz, code, index⟩) : Attempt ε σ O) (fun _ => visits) a

/-- The visits in a block, and in those nested in it at most `levels` deep. -/
def visitsOfNested (inside : Inside ε σ V O) : (levels : Nat) → BlockVisits σ V
  | 0, _, _, _ => []
  | levels + 1, clazz, code, a =>
    visitsOfInstrs v p (walkNested v p levels)
      (inside (walkNested v p levels) (visitsOfNested inside levels)) clazz code (v.codeLength code)
      0 [] a

/-- The visits in a block. -/
def visitsOfBlock (inside : Inside ε σ V O) : BlockVisits σ V :=
  visitsOfNested v p inside v.nestingLimit

/-- The visits in contract blocks. -/
def visitsOfContracts (inside : Inside ε σ V O) (clazz : ClazzId) :
    List CodeId → σ → List (Visit σ V)
  | [], _ => []
  | code :: rest, a =>
    let goOn (step : Step V O) (a : σ) : List (Visit σ V) :=
      if step.value.isNone then [] else visitsOfContracts inside clazz rest a
    visitsOfBlock v p inside clazz code a ++ (walkBlock v p clazz code).follow goOn a

/-- The visits in the body and the postconditions of a clazz, or in its preconditions. -/
def visitsOfClazz (inside : Inside ε σ V O) (clazz : ClazzId) (pre : Bool) (a : σ) :
    List (Visit σ V) :=
  if pre then
    if v.hasPrecondition clazz then
      visitsOfContracts v p inside clazz (v.info clazz).preconditions a
    else []
  else
    match (v.info clazz).code with
    | none => []
    | some code =>
      let goOn (body : Step V O) (a : σ) : List (Visit σ V) :=
        if body.value.isNone then []
        else visitsOfContracts v p inside clazz (v.info clazz).postconditions a
      visitsOfBlock v p inside clazz code a ++ (walkBlock v p clazz code).follow goOn a

end visits

/-! ### What is seen during a step -/

/-- What is said of the things that are seen: of each, from which states it lies ahead, and in which
states it is done. -/
structure Regime.Sight (R : Regime ε σ) (τ : Type) where
  Ahead : σ → τ → Prop
  Done : τ → σ → Prop
  ahead_of_leads : ∀ {a b t}, R.Leads a b → Ahead b t → Ahead a t
  done_of_leads : ∀ {a b t}, R.Leads a b → Done t a → Done t b

namespace Regime.Sight

variable {R : Regime ε σ} (S : R.Sight τ)

/-- Nothing is said of what is seen. -/
instance : Inhabited (R.Sight τ) :=
  ⟨⟨fun _ _ => True, fun _ _ => True, fun _ _ => trivial, fun _ _ => trivial⟩⟩

/-- The steps keep to the regime side by side. What is seen during the first one lies ahead when it
begins, and is done when it has succeeded. -/
structure Seen (post : α → σ → Prop) (step step' : Attempt ε σ α) (seen : List τ) (a b : σ) :
    Prop where
  safe : R.Safe post step step' a b
  ahead : ∀ t ∈ seen, S.Ahead a t
  done : ∀ t ∈ seen, ∀ x a', step.outcome a = (.ok x, a') → S.Done t a'

namespace Seen

variable {S} {mid : α → σ → Prop} {post : β → σ → Prop} {step step' : Attempt ε σ α}
  {seen : List τ} {a b : σ}

/-- Where nothing is seen, nothing has to be said but that the steps are `Safe`. -/
theorem nothing (hs : R.Safe mid step step' a b) : S.Seen mid step step' [] a b :=
  ⟨hs, List.forall_mem_nil _, List.forall_mem_nil _⟩

/-- What is seen first of all has to be right `Ahead` of the step and, if the step succeeds, when it
is `Done`. -/
theorem cons {t : τ} (hs : S.Seen mid step step' seen a b) (ahead : S.Ahead a t)
    (done : ∀ x a', step.outcome a = (.ok x, a') → S.Done t a') :
    S.Seen mid step step' (t :: seen) a b :=
  ⟨hs.safe, List.forall_mem_cons.2 ⟨ahead, hs.ahead⟩, List.forall_mem_cons.2 ⟨done, hs.done⟩⟩

/-- It may be used of what a step has given that it is the outcome of the step. -/
theorem remember (hs : S.Seen mid step step' seen a b) :
    S.Seen (fun x a' => mid x a' ∧ step.outcome a = (.ok x, a')) step step' seen a b :=
  { hs with safe := hs.safe.remember }

/-- Seeing less than what has been accounted for is fine. -/
theorem subset {less : List τ} (hs : S.Seen mid step step' seen a b) (h : less ⊆ seen) :
    S.Seen mid step step' less a b :=
  ⟨hs.safe, fun t ht => hs.ahead t (h ht), fun t ht => hs.done t (h ht)⟩

/-- During two steps one sees what one sees during the first one, and after it during the second
one. -/
theorem bind {next next' : α → Attempt ε σ β} {later : α → σ → List τ}
    (hs : S.Seen mid step step' seen a b)
    (hn : ∀ x a' b', R.Alike a' b' → R.Leads a a' → mid x a' →
      S.Seen post (next x) (next' x) (later x a') a' b') :
    S.Seen post (step >>= next) (step' >>= next') (seen ++ step.follow later a) a b where
  safe := hs.safe.bind fun x a' b' alike leads holds => (hn x a' b' alike leads holds).safe
  ahead t ht := by
    rcases List.mem_append.1 ht with ht | ht
    · exact hs.ahead t ht
    · obtain ⟨x, a', run, ht⟩ := Attempt.mem_follow.1 ht
      obtain ⟨b', -, alike, leads, holds⟩ := hs.safe.of_ok run
      exact S.ahead_of_leads leads ((hn x a' b' alike leads holds).ahead t ht)
  done t ht y c whole := by
    obtain ⟨x, a', run, rest⟩ := Attempt.outcome_bind_eq_ok whole
    obtain ⟨b', -, alike, leads, holds⟩ := hs.safe.of_ok run
    have second := hn x a' b' alike leads holds
    rcases List.mem_append.1 ht with ht | ht
    · obtain ⟨_, -, -, leads', -⟩ := second.safe.of_ok rest
      exact S.done_of_leads leads' (hs.done t ht x a' run)
    · obtain ⟨x', a'', run', ht⟩ := Attempt.mem_follow.1 ht
      cases run.symm.trans run'
      exact second.done t ht y c rest

/-- If nothing is seen during the first step, then what follows is said of what is seen during the
second one. -/
theorem after {next next' : α → Attempt ε σ β} {later : α → σ → List τ}
    (hs : R.Safe mid step step' a b)
    (hn : ∀ x a' b', R.Alike a' b' → R.Leads a a' → mid x a' →
      S.Seen post (next x) (next' x) (later x a') a' b') :
    S.Seen post (step >>= next) (step' >>= next') (step.follow later a) a b :=
  (nothing hs).bind hn

/-- If nothing is seen during the second step, then what is said of the first one is said of both.
-/
theorem bind_nothing {next next' : α → Attempt ε σ β} (hs : S.Seen mid step step' seen a b)
    (hn : ∀ x a' b', R.Alike a' b' → R.Leads a a' → mid x a' →
      R.Safe post (next x) (next' x) a' b') :
    S.Seen post (step >>= next) (step' >>= next') seen a b := by
  have both : S.Seen post (step >>= next) (step' >>= next')
      (seen ++ step.follow (fun _ _ => []) a) a b :=
    hs.bind fun x a' b' alike leads holds => nothing (hn x a' b' alike leads holds)
  exact both.subset (List.subset_append_left _ _)

/-- A result that was computed without the state is seen through: what follows is said for each
result that is `wanted`. -/
theorem lift_bind {r : Except ε α} {wanted : α → Prop} {next next' : α → Attempt ε σ β}
    {later : α → σ → List τ} (h : R.Alike a b) (hr : Gives R.Allowed wanted r)
    (hn : ∀ x, wanted x → S.Seen post (next x) (next' x) (later x a) a b) :
    S.Seen post (liftM r >>= next) (liftM r >>= next')
      (Attempt.follow (liftM r : Attempt ε σ α) later a) a b := by
  have safe := Regime.Safe.lift_bind h hr fun x hx => (hn x hx).safe
  cases hr with
  | ok holds => exact ⟨safe, (hn _ holds).ahead, (hn _ holds).done⟩
  | error allowed => exact nothing safe

/-- Changing what a step gives does not change what is seen during the step. -/
theorem map {f : α → β} (hs : S.Seen mid step step' seen a b)
    (h : ∀ x a', R.Leads a a' → mid x a' → post (f x) a') :
    S.Seen post (f <$> step) (f <$> step') seen a b := by
  rw [map_eq_pure_bind, map_eq_pure_bind]
  exact hs.bind_nothing fun x a' b' alike leads holds => .pure alike (h x a' leads holds)

/-- What is known of the results may be weakened. -/
theorem mono {mid' : α → σ → Prop} (hs : S.Seen mid step step' seen a b)
    (h : ∀ x a', R.Leads a a' → mid x a' → mid' x a') : S.Seen mid' step step' seen a b :=
  ⟨hs.safe.mono h, hs.ahead, hs.done⟩

end Seen

end Regime.Sight

/-! ### What is said of visits -/

/-- From a state, the walk of the code of a clazz leads to the visit. -/
structure Visit.Ahead (R : Regime ε σ) (Good : σ → V → Prop) (v : View) (clazz : ClazzId) (a : σ)
    (visit : Visit σ V) : Prop where
  leads : R.Leads a visit.before
  alike : ∃ b, R.Alike visit.before b
  stack : ∀ x ∈ visit.stack, Good visit.before x
  instr : v.instr? visit.site.code visit.site.index = some visit.instr
  clazz : visit.site.clazz = clazz

/-- The visited instruction has succeeded, and what follows it leads to the state. -/
def Visit.Done (R : Regime ε σ) (v : View) (p : Processor ε σ V O) (visit : Visit σ V) (b : σ) :
    Prop :=
  ∃ levels progress mid, (walkInstr v p (walkNested v p levels) visit.site visit.instr
    visit.stack).outcome visit.before = (.ok progress, mid) ∧ R.Leads visit.before mid ∧ R.Leads mid b

/-- A walk leads to its visits, and its visits lead to its end. -/
def visitSight (R : Regime ε σ) (Good : σ → V → Prop) (v : View) (clazz : ClazzId)
    (p : Processor ε σ V O) : R.Sight (Visit σ V) where
  Ahead := Visit.Ahead R Good v clazz
  Done := Visit.Done R v p
  ahead_of_leads leads ahead := { ahead with leads := R.leads_trans leads ahead.leads }
  done_of_leads leads := fun ⟨levels, progress, mid, run, leads₁, leads₂⟩ =>
    ⟨levels, progress, mid, run, leads₁, R.leads_trans leads₂ leads⟩

/-- What is asked of the visits inside of an instruction: whatever is said of the visits in its
branches, it is said of them where they are visited inside of it. -/
def Inside.Respects (R : Regime ε σ) (Good : σ → V → Prop) (v : View) (clazz : ClazzId)
    (p p' : Processor ε σ V O) (inside : Inside ε σ V O) : Prop :=
  ∀ {nested nested' : BlockWalk ε σ V O} {visits : BlockVisits σ V} (visit : Visit σ V) {b},
    visit.Ahead R Good v clazz visit.before → R.Alike visit.before b →
    (∀ {a b} code, code ∈ visit.instr.branches → R.Alike a b →
      (visitSight R Good v clazz p).Seen (fun _ _ => True) (nested clazz code)
        (nested' clazz code) (visits clazz code a) a b) →
    (visitSight R Good v clazz p).Seen (Progress.IsGood Good)
      (walkInstr v p nested visit.site visit.instr visit.stack)
      (walkInstr v p' nested' visit.site visit.instr visit.stack) (inside nested visits visit)
      visit.before b

variable {R : Regime ε σ} {Good : σ → V → Prop} {v : View} {clazz : ClazzId}
  {p p' : Processor ε σ V O} {inside : Inside ε σ V O} {a b : σ}

/-- The induction on the remaining instructions of a block, if what is to be said of each visit is
said by `hi`. -/
theorem seen_visitsOfInstrs (hp : p.Respects R Good v clazz p')
    (mono : ∀ {a a' x}, R.Leads a a' → Good a x → Good a' x) {levels : Nat}
    {within : Visit σ V → List (Visit σ V)} {code : CodeId}
    (hi : ∀ (visit : Visit σ V) {b}, visit.site.code = code →
      visit.Ahead R Good v clazz visit.before → R.Alike visit.before b →
      (visitSight R Good v clazz p).Seen (Progress.IsGood Good)
        (walkInstr v p (walkNested v p levels) visit.site visit.instr visit.stack)
        (walkInstr v p' (walkNested v p' levels) visit.site visit.instr visit.stack) (within visit)
        visit.before b)
    {remaining index : Nat} (hl : index + remaining ≤ v.codeLength code)
    {stack : List V} (hs : ∀ x ∈ stack, Good a x) (outputs : List O) (h : R.Alike a b) :
    (visitSight R Good v clazz p).Seen (Step.IsGood Good)
      (walkInstrs v p (walkNested v p levels) clazz code remaining index stack outputs)
      (walkInstrs v p' (walkNested v p' levels) clazz code remaining index stack outputs)
      (visitsOfInstrs v p (walkNested v p levels) within clazz code remaining index stack a) a b := by
  induction remaining generalizing index stack outputs a b with
  | zero => exact .nothing (safe_conclusion hp mono true outputs h)
  | succ remaining ih =>
    unfold walkInstrs visitsOfInstrs
    cases found : v.instr? code index with
    | none =>
      rw [hp.malformed_eq]
      exact .nothing (.throw h (hp.allowed_missingInstruction found (by omega)))
    | some instr =>
      dsimp only
      refine .after (hp.header ⟨clazz, code, index⟩ h) fun header a₁ b₁ h₁ leads₁ _ => ?_
      -- The visit itself is seen besides what is inside of it.
      have ahead : Visit.Ahead R Good v clazz a₁ ⟨⟨clazz, code, index⟩, instr, stack, a₁⟩ :=
        { leads := R.leads_refl a₁
          alike := ⟨b₁, h₁⟩
          stack := fun x hx => mono leads₁ (hs x hx)
          instr := found
          clazz := rfl }
      have within := hi ⟨⟨clazz, code, index⟩, instr, stack, a₁⟩ rfl ahead h₁
      have here := within.cons ahead fun progress mid run =>
        have ⟨_, _, _, leads, _⟩ := within.safe.of_ok run
        ⟨levels, progress, mid, run, leads, R.leads_refl mid⟩
      apply here.bind
      intro progress a₂ b₂ h₂ _ good
      cases stays : progress.stack with
      | none =>
        refine .nothing ((hp.sequence _ h₂).bind fun output a₃ b₃ h₃ _ _ => .pure h₃ ?_)
        rintro _ ⟨⟩
      | some stack' => exact ih (by omega) (good stack' stays) _ h₂

/-- The induction on the levels of nested blocks, from `seen_visitsOfInstrs`. -/
theorem seen_visitsOfNested (hp : p.Respects R Good v clazz p')
    (mono : ∀ {a a' x}, R.Leads a a' → Good a x → Good a' x)
    (hi : inside.Respects R Good v clazz p p') (levels : Nat) (code : CodeId)
    (nests : v.NestsWithin levels code ∨ ∀ code, R.Allowed (p.malformed (.endlessNesting code)))
    (h : R.Alike a b) :
    (visitSight R Good v clazz p).Seen (Step.IsGood Good) (walkNested v p levels clazz code)
      (walkNested v p' levels clazz code) (visitsOfNested v p inside levels clazz code a) a b := by
  induction levels generalizing code a b with
  | zero =>
    unfold walkNested
    rw [hp.malformed_eq]
    exact .nothing (.throw h (nests.resolve_left id code))
  | succ levels ih =>
    unfold walkNested visitsOfNested
    have fits : 0 + v.codeLength code ≤ v.codeLength code := by omega
    refine seen_visitsOfInstrs hp mono (fun visit b here ahead h => ?_) fits (List.forall_mem_nil _)
      [] h
    refine hi visit ahead h fun inner listed h => (ih inner ?_ h).mono fun _ _ _ _ => trivial
    refine nests.imp_left fun nests => nests inner ?_
    rw [← here]
    exact Program.contains_of_instr? ahead.instr listed

/-- What is said of the visits of the walk of a block. -/
theorem seen_visitsOfBlock (hp : p.Respects R Good v clazz p')
    (mono : ∀ {a a' x}, R.Leads a a' → Good a x → Good a' x)
    (hi : inside.Respects R Good v clazz p p') (code : CodeId) (h : R.Alike a b) :
    (visitSight R Good v clazz p).Seen (Step.IsGood Good) (walkBlock v p clazz code)
      (walkBlock v p' clazz code) (visitsOfBlock v p inside clazz code a) a b :=
  seen_visitsOfNested hp mono hi _ code (hp.nests_or_allowed.imp_left fun nests => nests code) h

/-- What is said of the visits of the walk of several blocks, one after the other. -/
theorem seen_visitsOfContracts (hp : p.Respects R Good v clazz p')
    (mono : ∀ {a a' x}, R.Leads a a' → Good a x → Good a' x)
    (hi : inside.Respects R Good v clazz p p') (codes : List CodeId) (outputs : List O)
    (h : R.Alike a b) :
    (visitSight R Good v clazz p).Seen (fun _ _ => True) (walkContracts v p clazz codes outputs)
      (walkContracts v p' clazz codes outputs) (visitsOfContracts v p inside clazz codes a) a b := by
  induction codes generalizing outputs a b with
  | nil => exact .nothing (.pure h trivial)
  | cons code rest ih =>
    unfold walkContracts visitsOfContracts
    apply (seen_visitsOfBlock hp mono hi code h).bind
    intro step a' b' h' _ _
    dsimp only
    cases step.value with
    | none => exact .nothing (.pure h' trivial)
    | some x => exact ih _ h'

/-- What is said of the visits of the walk of a clazz. Only for the preconditions of a clazz that
has none does the walk have to be allowed to fail. -/
theorem seen_visitsOfClazz (hp : p.Respects R Good v clazz p')
    (mono : ∀ {a a' x}, R.Leads a a' → Good a x → Good a' x)
    (hi : inside.Respects R Good v clazz p p') {pre : Bool}
    (hc : pre = true → v.hasPrecondition clazz = false →
      R.Allowed (p.malformed (.missingPrecondition clazz)))
    (h : R.Alike a b) :
    (visitSight R Good v clazz p).Seen (Step.IsGood Good) (walkClazz v p clazz pre)
      (walkClazz v p' clazz pre) (visitsOfClazz v p inside clazz pre a) a b := by
  unfold walkClazz visitsOfClazz
  dsimp only
  cases pre with
  | true =>
    rw [if_pos rfl, if_pos rfl, if_pos rfl]
    cases checked : v.hasPrecondition clazz with
    | false =>
      rw [hp.malformed_eq]
      exact .nothing (.throw_bind h (hc rfl checked))
    | true =>
      have walked := seen_visitsOfContracts hp mono hi (v.info clazz).preconditions [] h
      exact walked.bind_nothing fun walked a' b' h' _ _ =>
        safe_conclusion hp mono walked.1 walked.2 h'
  | false =>
    rw [if_neg Bool.false_ne_true, if_neg Bool.false_ne_true, if_neg Bool.false_ne_true]
    cases (v.info clazz).code with
    | none =>
      rw [hp.malformed_eq]
      exact .nothing (.throw_bind h hp.allowed_missingCode)
    | some code =>
      apply (seen_visitsOfBlock hp mono hi code h).bind
      intro body a' b' h' _ _
      cases body.value with
      | none => exact .nothing (safe_conclusion hp mono false [body.output] h')
      | some x =>
        have walked := seen_visitsOfContracts hp mono hi (v.info clazz).postconditions
          [body.output] h'
        exact walked.bind_nothing fun walked a'' b'' h'' _ _ =>
          safe_conclusion hp mono walked.1 walked.2 h''

end ClosedWorld
