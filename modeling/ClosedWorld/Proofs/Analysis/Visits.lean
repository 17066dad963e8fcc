import ClosedWorld.Proofs.Analysis.Instructions

/-!
# The visits of an analysis

The instructions that an analysis comes by, each with the call on whose behalf it is walked, the
operands that it finds and the state of the analysis.

## Main definitions

* `Analyzer.prepare`: what comes before the walk of a call.
* `Analyzer.walkOfCall`: the analysis of a call up to the point where the call may be marked.
* `Analyzer.visitsInside`: the visits in the branches that an instruction selects.
* `Analyzer.visitsOfCall`, `Analyzer.visitsOfCalls`: the visits of the analysis of calls.

## Main statements

* `AnalysisDiscipline.seen_walkOfCall`: the walk of a call leads to the visits, and this does not
  depend on whether the call may be marked.
* `AnalysisDiscipline.seen_visitsOfCall`, `AnalysisDiscipline.seen_visitsOfCalls`: the analysis
  leads to the visits, and the visits lead to its end.
* `AnalysisDiscipline.safe_analyze`, `AnalysisDiscipline.safe_analyzeAll`: the analysis of calls
  keeps to the discipline.
-/

namespace ClosedWorld

namespace Analyzer

variable (z : Analyzer)

/-- The analysis of a call up to the end of its walk. Yields whether this was reached. -/
def walkOfCall (id : CallId) : Analyzing Bool := do
  let key ← (← currentStore).callKey id
  let info := z.view.info key.clazz
  if key.pre || info.kind = .routine then
    if info.args.length ≠ key.args.length then
      throw (.arityMismatch (z.view.name key.clazz) info.args.length key.args.length)
    let state ← (← currentStore).callState id
    let act : Activation := ⟨id, key, state.frame⟩
    onStore (passArguments act.current (info.args.zip key.args))
    if let some outerRef := info.outerRef then
      onStore (Store.setField outerRef key.target act.current)
    let step ← walkClazz z.view (z.processor act) key.clazz key.pre
    return step.value.isSome
  else return false

/-- A call is marked if the end of its walk is reached. -/
def markIf (id : CallId) (ended : Bool) : Analyzing Unit :=
  if ended then onStore (Store.markReturns id) else return ()

/-- What the analysis of a call does before it walks anything: it passes the arguments and the
target to the frame of the call. Yields on whose behalf code is walked then, if any is. -/
def prepare (id : CallId) : Analyzing (Option Activation) := do
  let key ← (← currentStore).callKey id
  let info := z.view.info key.clazz
  if key.pre || info.kind = .routine then
    if info.args.length ≠ key.args.length then
      throw (.arityMismatch (z.view.name key.clazz) info.args.length key.args.length)
    let state ← (← currentStore).callState id
    let act : Activation := ⟨id, key, state.frame⟩
    onStore (passArguments act.current (info.args.zip key.args))
    if let some outerRef := info.outerRef then
      onStore (Store.setField outerRef key.target act.current)
    return some act
  else return none

/-- Preparing the walk of a call and what is done `next`, written out step by step. -/
theorem prepare_bind {α : Type} (id : CallId) (next : Option Activation → Analyzing α) :
    z.prepare id >>= next = (do
      let key ← (← currentStore).callKey id
      let info := z.view.info key.clazz
      if key.pre || info.kind = .routine then
        if info.args.length ≠ key.args.length then
          throw (.arityMismatch (z.view.name key.clazz) info.args.length key.args.length)
        let state ← (← currentStore).callState id
        let act : Activation := ⟨id, key, state.frame⟩
        onStore (passArguments act.current (info.args.zip key.args))
        if let some outerRef := info.outerRef then
          onStore (Store.setField outerRef key.target act.current)
        next (some act)
      else next none) := by
  unfold prepare
  rw [bind_assoc]
  refine bind_congr fun s => ?_
  rw [bind_assoc]
  refine bind_congr fun key => ?_
  dsimp only
  split
  · split
    · rfl
    · rw [bind_assoc]
      refine bind_congr fun s => ?_
      rw [bind_assoc]
      refine bind_congr fun state => ?_
      rw [bind_assoc]
      refine bind_congr fun _ => ?_
      cases (z.view.info key.clazz).outerRef <;> simp
  · rw [pure_bind]

/-- The walk of a call prepares it, and walks its code if there is any. -/
theorem walkOfCall_eq (id : CallId) : z.walkOfCall id = (do
    match ← z.prepare id with
    | none => return false
    | some act =>
      return (← walkClazz z.view (z.processor act) act.key.clazz act.key.pre).value.isSome) := by
  rw [prepare_bind]
  rfl

/-- The analysis of a call walks it and marks it if the end of its code was reached. -/
theorem analyze_eq (id : CallId) : z.analyze id = z.walkOfCall id >>= markIf id := by
  rw [walkOfCall_eq, bind_assoc, prepare_bind]
  simp only [bind_assoc, pure_bind]
  rfl

/-- The visits in the branches that an instruction selects. -/
def visitsInside (act : Activation) : Inside Fault Analysis Value Unit :=
  fun walk visits visit =>
    match visit.instr, visit.stack with
    | .select m, subject :: _ =>
      visitsOfCases (walk visit.site.clazz) (visits visit.site.clazz) act.frame
        (z.view.isBool m.subject) subject m.cases visit.before
    | .cond thenCode elseCode, condition :: _ =>
      (liftM (takenBranches condition thenCode elseCode) : Analyzing (List CodeId)).follow
        (visitsOfBranches (walk visit.site.clazz) (visits visit.site.clazz)) visit.before
    | _, _ => []

/-- The visits in the code of a call that has its arguments. -/
def visitsOfCode (act : Activation) (a : Analysis) : List (Activation × Visit Analysis Value) :=
  (visitsOfClazz z.view (z.processor act) (z.visitsInside act) act.key.clazz act.key.pre a).map
    fun visit => (act, visit)

/-- The visits of the analysis of one call. -/
def visitsOfCall (id : CallId) (a : Analysis) : List (Activation × Visit Analysis Value) :=
  let passed (act : Activation) (a : Analysis) : List (Activation × Visit Analysis Value) :=
    match (z.view.info act.key.clazz).outerRef with
    | none => z.visitsOfCode act a
    | some outerRef =>
      (onStore (Store.setField outerRef act.key.target act.current)).follow
        (fun _ => z.visitsOfCode act) a
  let held (key : CallKey) (state : CallState) (a : Analysis) :
      List (Activation × Visit Analysis Value) :=
    let act : Activation := ⟨id, key, state.frame⟩
    (onStore (passArguments act.current ((z.view.info key.clazz).args.zip key.args))).follow
      (fun _ => passed act) a
  let called (key : CallKey) (a : Analysis) : List (Activation × Visit Analysis Value) :=
    let info := z.view.info key.clazz
    if key.pre || info.kind = .routine then
      if info.args.length ≠ key.args.length then []
      else (liftM (a.store.callState id) : Analyzing CallState).follow (held key) a
    else []
  (liftM (a.store.callKey id) : Analyzing CallKey).follow called a

/-- The visits of the analysis of calls in order. -/
def visitsOfCalls : List CallId → Analysis → List (Activation × Visit Analysis Value)
  | [], _ => []
  | id :: rest, a => z.visitsOfCall id a ++ (z.analyze id).follow (fun _ => visitsOfCalls rest) a

end Analyzer

namespace AnalysisDiscipline

variable {z : Analyzer} (D : AnalysisDiscipline z) {a b : Analysis} {act : Activation}

/-- What a discipline says of the visits in the code of a call. -/
abbrev sight (act : Activation) : D.runs.Sight (Visit Analysis Value) :=
  visitSight D.runs (fun a => D.Good a.store) z.view act.key.clazz (z.processor act)

/-- Only the branches of instructions that branch are visited inside of an instruction. -/
theorem respects_visitsInside (hz : z.intrinsics = .standard)
    (hact : ∀ {a b}, D.runs.Alike a b → D.GoodActivation z.view a.store act) :
    (z.visitsInside act).Respects D.runs (fun a => D.Good a.store) z.view act.key.clazz
      (z.processor act) ((z.beside D.reports).processor act) := by
  intro nested nested' visits visit b ahead h hw
  have monos {a a' : Analysis} {xs : List Value} (leads : D.runs.Leads a a')
      (hxs : ∀ x ∈ xs, D.Good a.store x) : ∀ x ∈ xs, D.Good a'.store x :=
    fun x hx => D.good_mono (D.leads_store leads) (hxs x hx)
  obtain ⟨⟨clazz, code, index⟩, instr, stack, a⟩ := visit
  obtain ⟨-, -, good, found, rfl⟩ := ahead
  have other := safe_walkInstr (D.respects_processor hz hact)
    (fun leads good => D.good_mono (D.leads_store leads) good)
    (fun code listed h => (hw code listed h).safe) found h good
  unfold Analyzer.visitsInside
  cases instr with
  | select m =>
    cases stack with
    | nil => exact .nothing other
    | cons subject rest =>
      obtain ⟨goodSubject, goodRest⟩ := List.forall_mem_cons.1 good
      have selected : (D.sight act).Seen (fun _ _ => True)
          ((z.processor act).select nested ⟨act.key.clazz, code, index⟩ m subject)
          (((z.beside D.reports).processor act).select nested' ⟨act.key.clazz, code, index⟩ m
            subject) _ a b :=
        (D.seen_visitsOfCases (D.knownCases found) hw h (hact h).frame goodSubject).bind_nothing
          fun _ a' b' h' _ _ => .pure h' trivial
      exact selected.map fun step a' leads _ => Progress.isGood_keeping (monos leads goodRest)
  | cond thenCode elseCode =>
    cases stack with
    | nil => exact .nothing other
    | cons condition rest =>
      obtain ⟨-, goodRest⟩ := List.forall_mem_cons.1 good
      have taken := D.gives_takenBranches condition thenCode elseCode
      have branched : (D.sight act).Seen (fun _ _ => True)
          ((z.processor act).cond nested ⟨act.key.clazz, code, index⟩ condition thenCode elseCode)
          (((z.beside D.reports).processor act).cond nested' ⟨act.key.clazz, code, index⟩ condition
            thenCode elseCode) _ a b :=
        .lift_bind h (gives_allowed taken) fun codes taken =>
          (D.seen_visitsOfBranches (fun code listed h => hw code (taken listed) h) h).bind_nothing
            fun _ a' b' h' _ _ => .pure h' trivial
      exact branched.map fun step a' leads _ => Progress.isGood_keeping (monos leads goodRest)
  | _ => exact .nothing other

/-! ### Calls -/

/-- What a discipline says of the visits of calls. -/
def callSight : D.runs.Sight (Activation × Visit Analysis Value) where
  Ahead a t := t.2.Ahead D.runs (fun a => D.Good a.store) z.view t.1.key.clazz a ∧
    D.GoodActivation z.view t.2.before.store t.1
  Done t b := t.2.Done D.runs z.view (z.processor t.1) b
  ahead_of_leads leads ahead := ⟨(D.sight _).ahead_of_leads leads ahead.1, ahead.2⟩
  done_of_leads leads done := (D.sight _).done_of_leads leads done

/-- The call of a precondition is the call of a clazz that has one, or the discipline allows the
walk to fail for the lack of it. -/
theorem allowed_missingPrecondition {s : Store} (ha : D.GoodActivation z.view s act)
    (pre : act.key.pre = true) (unchecked : z.view.hasPrecondition act.key.clazz = false) :
    D.runs.Allowed (.walk (.missingPrecondition act.key.clazz)) := by
  rcases ha.key.checked pre with checked | allowed
  · rw [unchecked] at checked
    cases checked
  · exact D.allowed allowed

/-- The call is known to be one that is walked. -/
def Walks (id : CallId) (a : Analysis) : Prop :=
  ∃ key, D.Called a.store id key ∧ z.view.HasWalk key

/-- When its code has been walked, a call is marked if its end was reached. -/
theorem safe_markIf {id : CallId} (h : D.runs.Alike a b) (hc : D.GoodCall a.store id)
    {ended : Bool} (walks : ended = true → D.Walks id a) (walked : D.Walked id) :
    D.runs.Safe (fun _ _ => True) (Analyzer.markIf id ended) (Analyzer.markIf id ended) a b := by
  cases ended with
  | false => exact .pure h trivial
  | true =>
    obtain ⟨key, called, code⟩ := walks rfl
    have marked := D.safe_markReturns (D.inv h) hc called (.code code) fun _ => walked
    exact (D.safe_onStore h marked).mono fun _ _ _ _ => trivial

/-- The walk of the code of a call relies on what is known of the call when the walk starts. -/
theorem seen_visitsOfCode (hz : z.intrinsics = .standard) (h : D.runs.Alike a b)
    (ha : D.GoodActivation z.view a.store act) :
    D.callSight.Seen (fun _ _ => True)
      (walkClazz z.view (z.processor act) act.key.clazz act.key.pre)
      (walkClazz z.view ((z.beside D.reports).processor act) act.key.clazz act.key.pre)
      (z.visitsOfCode act a) a b := by
  have good {c d : Analysis} (h : (D.since a).runs.Alike c d) :
      (D.since a).GoodActivation z.view c.store act := ha.mono (D.leads_store h.2)
  have seen := seen_visitsOfClazz ((D.since a).respects_processor hz good)
    (fun leads good => D.good_mono (D.leads_store leads) good)
    ((D.since a).respects_visitsInside hz good) (D.allowed_missingPrecondition ha)
    ⟨h, D.runs.leads_refl a⟩
  refine ⟨(seen.safe.mono fun _ _ _ _ => trivial).of_since, ?_, ?_⟩
  · intro t ht
    obtain ⟨visit, hvisit, rfl⟩ := List.mem_map.1 ht
    have ahead := seen.ahead visit hvisit
    exact ⟨{ ahead with alike := ahead.alike.imp fun _ h => h.1 },
      ha.mono (D.leads_store ahead.leads)⟩
  · intro t ht
    obtain ⟨visit, hvisit, rfl⟩ := List.mem_map.1 ht
    exact seen.done visit hvisit

/-- When the end of the code of a call is reached, the call `Walks`. -/
theorem seen_endOfCode (hz : z.intrinsics = .standard) (h : D.runs.Alike a b)
    (ha : D.GoodActivation z.view a.store act) (code : z.view.HasWalk act.key) :
    D.callSight.Seen (fun ended a' => ended = true → D.Walks act.call a')
      (do let step ← walkClazz z.view (z.processor act) act.key.clazz act.key.pre
          return step.value.isSome)
      (do let step ← walkClazz z.view ((z.beside D.reports).processor act) act.key.clazz act.key.pre
          return step.value.isSome)
      (z.visitsOfCode act a) a b :=
  (D.seen_visitsOfCode hz h ha).bind_nothing fun _ _ _ h' leads _ =>
    .pure h' fun _ => ⟨act.key, D.called_mono (D.leads_store leads) ha.called, code⟩

variable {D} in
/-- Looking at the current store visits nothing, and both sides go on with the store that they have.
-/
theorem seen_currentStore_bind {α τ : Type} {S : D.runs.Sight τ} {post : α → Analysis → Prop}
    {next next' : Store → Analyzing α} {seen : List τ} (h : D.runs.Alike a b)
    (hn : S.Seen post (next a.store) (next' a.store) seen a b) :
    S.Seen post (currentStore >>= next) (currentStore >>= next') seen a b :=
  ⟨safe_currentStore_bind h hn.safe, hn.ahead, hn.done⟩

/-- The walk of a call leads to the visits, and the call is not marked for it yet. -/
theorem seen_walkOfCall (hz : z.intrinsics = .standard) {id : CallId} (h : D.runs.Alike a b)
    (hc : D.GoodCall a.store id) :
    D.callSight.Seen (fun ended a' => ended = true → D.Walks id a') (z.walkOfCall id)
      ((z.beside D.reports).walkOfCall id) (z.visitsOfCall id a) a b := by
  unfold Analyzer.walkOfCall Analyzer.visitsOfCall
  refine seen_currentStore_bind h ?_
  refine .lift_bind h (gives_allowed (D.gives_callKey (D.inv h) hc)) fun key called => ?_
  have goodKey := D.goodKey (D.inv h) called
  rw [Analyzer.view_beside]
  dsimp only
  by_cases code : (key.pre || decide ((z.view.info key.clazz).kind = .routine)) = true
  · have walked : key.pre = true ∨ (z.view.info key.clazz).kind = .routine := by
      simpa using code
    rw [if_pos code, if_pos code, if_pos code]
    by_cases arity : (z.view.info key.clazz).args.length ≠ key.args.length
    · rw [if_pos arity, if_pos arity, if_pos arity]
      exact .nothing (.throw_bind h (D.allowed (D.allowed_of_isPlain rfl)))
    · rw [if_neg arity, if_neg arity, if_neg arity]
      refine seen_currentStore_bind h ?_
      refine .lift_bind h (gives_allowed (D.gives_callState (D.inv h) hc)) fun state held => ?_
      have good : D.GoodActivation z.view a.store ⟨id, key, state.frame⟩ :=
        ⟨hc, D.called_of_key (D.inv h) called, goodKey, D.good_frame (D.inv h) held⟩
      have goodArgs : ∀ e ∈ (z.view.info key.clazz).args.zip key.args,
          D.Known e.1 ∧ D.Good a.store e.2 := by
        intro e he
        obtain ⟨field, value⟩ := List.of_mem_zip he
        exact ⟨D.known_mentioned goodKey.known (by simp [ClazzInfo.references, field]),
          goodKey.args e.2 value⟩
      have passed := D.safe_passArguments (D.inv h) good.frame goodArgs
      refine .after (D.safe_onStore h passed) fun _ a₁ b₁ h₁ leads₁ _ => ?_
      have good := good.mono (D.leads_store leads₁)
      cases held : (z.view.info key.clazz).outerRef with
      | none => exact D.seen_endOfCode hz h₁ good walked
      | some outerRef =>
        have known : D.Known outerRef :=
          D.known_mentioned goodKey.known (by simp [ClazzInfo.references, held])
        have written := D.safe_setField known _ (D.inv h₁) good.key.target good.frame
        refine .after (D.safe_onStore h₁ written) fun _ a₂ b₂ h₂ leads₂ _ => ?_
        exact D.seen_endOfCode hz h₂ (good.mono (D.leads_store leads₂)) walked
  · rw [if_neg code, if_neg code, if_neg code]
    exact .nothing (.pure h (by rintro ⟨⟩))

/-- The analysis of a call leads to its visits, and the visits lead to its end. -/
theorem seen_visitsOfCall (hz : z.intrinsics = .standard) {id : CallId} (h : D.runs.Alike a b)
    (hc : D.GoodCall a.store id) (walked : D.Walked id) :
    D.callSight.Seen (fun _ _ => True) (z.analyze id) ((z.beside D.reports).analyze id)
      (z.visitsOfCall id a) a b := by
  rw [Analyzer.analyze_eq, Analyzer.analyze_eq]
  exact (D.seen_walkOfCall hz h hc).bind_nothing fun ended _ _ h' leads walks =>
    D.safe_markIf h' (D.goodCall_mono (D.leads_store leads) hc) walks walked

/-- The analyses of calls lead to the visits of all of them, and these lead to their end. -/
theorem seen_visitsOfCalls (hz : z.intrinsics = .standard) {ids : List CallId}
    (h : D.runs.Alike a b) (hc : ∀ id ∈ ids, D.GoodCall a.store id)
    (walked : ∀ id ∈ ids, D.Walked id := by exact fun _ _ => trivial) :
    D.callSight.Seen (fun _ _ => True) (z.analyzeAll ids) ((z.beside D.reports).analyzeAll ids)
      (z.visitsOfCalls ids a) a b := by
  induction ids generalizing a b with
  | nil => exact .nothing (.pure h trivial)
  | cons id rest ih =>
    obtain ⟨good, goodRest⟩ := List.forall_mem_cons.1 hc
    obtain ⟨walked, walkedRest⟩ := List.forall_mem_cons.1 walked
    unfold Analyzer.analyzeAll Analyzer.visitsOfCalls
    apply (D.seen_visitsOfCall hz h good walked).bind
    intro _ a' b' h' leads _
    exact ih h' (fun id hid => D.goodCall_mono (D.leads_store leads) (goodRest id hid)) walkedRest

/-- The analysis of a call keeps to the discipline. -/
theorem safe_analyze (hz : z.intrinsics = .standard) {id : CallId} (h : D.runs.Alike a b)
    (hc : D.GoodCall a.store id) (walked : D.Walked id := by exact trivial) :
    D.runs.Safe (fun _ _ => True) (z.analyze id) ((z.beside D.reports).analyze id) a b :=
  (D.seen_visitsOfCall hz h hc walked).safe

/-- The analyses of calls keep to the discipline. -/
theorem safe_analyzeAll (hz : z.intrinsics = .standard) {ids : List CallId}
    (h : D.runs.Alike a b) (hc : ∀ id ∈ ids, D.GoodCall a.store id)
    (walked : ∀ id ∈ ids, D.Walked id := by exact fun _ _ => trivial) :
    D.runs.Safe (fun _ _ => True) (z.analyzeAll ids) ((z.beside D.reports).analyzeAll ids) a b :=
  (D.seen_visitsOfCalls hz h hc walked).safe

end AnalysisDiscipline

end ClosedWorld
