import ClosedWorld.Proofs.Analysis.Visits

/-!
# The calls that an instruction makes

A call instruction may make several calls: that of a precondition, and one for each receiver that it
is dispatched for. The entries of a visit list them. They follow the instruction itself, and so each
of them has the state in which the call is made, and what the call does is what it does there.

## Main definitions

* `Entry`: a call that is made, with the state in which this is done.
* `Analyzer.outcomeOf`: what the call does.
* `Analyzer.entriesOfCall`, `Analyzer.entriesOfVisit`: the calls that an instruction makes.

## Main statements

* `AnalysisDiscipline.seen_entriesOfCall`: an instruction leads to its calls, and they lead to its
  end.
* `AnalysisDiscipline.entersAhead_of_visit`, `AnalysisDiscipline.entered_of_visit`: so do visits,
  up to the calls also if the instruction fails.
-/

namespace ClosedWorld

/-- A call that is about to be made on behalf of another one. -/
structure Entry where
  caller : Activation
  key : CallKey
  before : Analysis

namespace Analyzer

variable (z : Analyzer)

/-- What a call yields to its caller, and the state after it. -/
def outcomeOf (e : Entry) : Except Fault (Option Value) × Analysis :=
  (z.enter e.caller e.key.target e.key.args e.key.clazz e.key.pre).outcome e.before

variable {z} in
/-- A call that has code and the environment of its caller is made, and then asked for its result.
-/
theorem outcomeOf_eq {e : Entry} (env : e.key.env = e.caller.key.env)
    (needsCode : (z.view.info e.key.clazz).needsCode = true) :
    z.outcomeOf e = (do
      let id ← z.newCall e.key e.caller.call
      return (← z.callResult id).filter (· ≠ .noValue) : Analyzing (Option Value)).outcome
        e.before := by
  unfold outcomeOf enter
  rw [needsCode, ← env]
  rfl

variable (act : Activation)

/-! ### Entries -/

/-- Nothing is called without code. -/
def entriesOfEnter (target : Value) (args : List Value) (clazz : ClazzId) (pre : Bool)
    (a : Analysis) : List Entry :=
  if (z.view.info clazz).needsCode then
    [⟨act, { clazz, pre, target, args, env := act.key.env }, a⟩]
  else []

/-- The call of one clazz, if it is a routine or an intrinsic. -/
def entriesOfOne (target : Value) (args : List Value) (clazz : ClazzId) (a : Analysis) :
    List Entry :=
  match (z.view.info clazz).kind with
  | .routine | .intrinsic => z.entriesOfEnter act target args clazz false a
  | _ => []

/-- The calls for the pairs of a target and an atom that the target is for. -/
def entriesOfEach (site : Site) (args : List Value) :
    List ((ClazzId × ClazzId) × Value) → Analysis → List Entry
  | [], _ => []
  | ((type, clazz), atom) :: rest, a =>
    let goOn (_ : Option Value) (a : Analysis) : List Entry := entriesOfEach site args rest a
    let accessed (_ : Unit) (a : Analysis) : List Entry :=
      z.entriesOfOne act atom args clazz a ++ (z.callOne act site atom args clazz).follow goOn a
    let received (received : Bool) (a : Analysis) : List Entry :=
      if received then (recordDispatch site clazz).follow accessed a
      else entriesOfEach site args rest a
    (liftM (receives a.store type atom) : Analyzing Bool).follow received a

/-- The calls of an access. -/
def entriesOfAccess (site : Site) (access : Access) (target : Value) (args : List Value)
    (a : Analysis) : List Entry :=
  if access.dynamic then
    z.entriesOfEach act site args
      (access.targets.flatMap fun t => target.atoms.map fun atom => (t, atom)) a
  else if (z.view.info access.accessed).needsCode then
    z.entriesOfOne act target args access.accessed a
  else []

/-- The call of the precondition, if there is one. -/
def entriesOfCheck (access : Access) (target : Value) (args : List Value) (a : Analysis) :
    List Entry :=
  if z.view.hasPrecondition access.accessed then
    z.entriesOfEnter act target args access.accessed true a
  else []

/-- The calls that a call instruction makes: that of the precondition, and if this returns, those of
the access. -/
def entriesOfCall (site : Site) (access : Access) (target : Value) (args : List Value)
    (a : Analysis) : List Entry :=
  let goOn (checked : Option Value) (a : Analysis) : List Entry :=
    if checked.isSome && !access.preOnly then z.entriesOfAccess act site access target args a
    else []
  z.entriesOfCheck act access target args a ++ (z.check act access target args).follow goOn a

/-- The calls that the visited instruction makes. -/
def entriesOfVisit (visit : Visit Analysis Value) : List Entry :=
  match visit.instr with
  | .call access =>
    match visit.stack.drop (z.view.arity access) with
    | [] => []
    | target :: _ =>
      z.entriesOfCall act visit.site access target
        (visit.stack.take (z.view.arity access)).reverse visit.before
  | _ => []

variable {z act}

/-- The entries of a visit are those of the call instruction that is visited, with the operands that
it finds. -/
theorem of_mem_entriesOfVisit {visit : Visit Analysis Value} {e : Entry}
    (h : e ∈ z.entriesOfVisit act visit) :
    ∃ access target rest, visit.instr = .call access ∧
      visit.stack.drop (z.view.arity access) = target :: rest ∧
      e ∈ z.entriesOfCall act visit.site access target
        (visit.stack.take (z.view.arity access)).reverse visit.before := by
  unfold entriesOfVisit at h
  split at h
  · rename_i access instr
    split at h
    · cases h
    · rename_i target rest dropped
      exact ⟨access, target, rest, instr, dropped, h⟩
  · cases h

/-- The walk of a call instruction is a call. -/
theorem call_of_walkInstr {visit : Visit Analysis Value} {access : Access} {target : Value}
    {rest : List Value} (instr : visit.instr = .call access)
    (dropped : visit.stack.drop (z.view.arity access) = target :: rest)
    {nested : BlockWalk Fault Analysis Value Unit} {progress : Progress Value Unit} {mid : Analysis}
    (run : (walkInstr z.view (z.processor act) nested visit.site visit.instr visit.stack).outcome
      visit.before = (.ok progress, mid)) :
    ∃ answer, (z.call act visit.site access target
      (visit.stack.take (z.view.arity access)).reverse).outcome visit.before = (.ok answer, mid) := by
  rw [instr] at run
  unfold walkInstr at run
  dsimp only at run
  rw [dropped] at run
  dsimp only at run
  rw [map_eq_pure_bind] at run
  obtain ⟨step, b, called, run⟩ := Attempt.outcome_bind_eq_ok run
  cases run
  have called : (do return answer (← z.call act visit.site access target
      (visit.stack.take (z.view.arity access)).reverse) : Analyzing (Step Value Unit)).outcome
        visit.before = (.ok step, mid) := called
  obtain ⟨value, b, called, run⟩ := Attempt.outcome_bind_eq_ok called
  cases run
  exact ⟨value, called⟩

end Analyzer

namespace AnalysisDiscipline

variable {z : Analyzer} (D : AnalysisDiscipline z) {a b : Analysis} {act : Activation}

/-! ### What is said of entries -/

/-- From a state, one is led to the call, which is of the precondition of a clazz or of a body, has
the environment of its caller and may be made. -/
structure EntersAhead (a : Analysis) (e : Entry) : Prop where
  leads : D.runs.Leads a e.before
  alike : ∃ b, D.runs.Alike e.before b
  env : e.key.env = e.caller.key.env
  needsCode : (z.view.info e.key.clazz).needsCode = true
  kind : e.key.pre = true ∨ (z.view.info e.key.clazz).kind = .routine ∨
    (z.view.info e.key.clazz).kind = .intrinsic
  ready : D.Ready e.before.store e.key
  caller : D.GoodActivation z.view e.before.store e.caller
  key : D.GoodKey z.view e.before.store e.key

/-- The call has succeeded, and what follows it leads to the state. -/
def Entered (e : Entry) (b : Analysis) : Prop :=
  ∃ answer mid, z.outcomeOf e = (.ok answer, mid) ∧ D.runs.Leads mid b

/-- An instruction leads to its calls, and they lead to its end. -/
def entrySight : D.runs.Sight Entry where
  Ahead := D.EntersAhead
  Done := D.Entered
  ahead_of_leads leads ahead := { ahead with leads := D.runs.leads_trans leads ahead.leads }
  done_of_leads leads := fun ⟨answer, mid, run, leads'⟩ =>
    ⟨answer, mid, run, D.runs.leads_trans leads' leads⟩

variable (hz : z.intrinsics = .standard)

include hz

/-- Entering a clazz leads to the call that it makes, which leads to its end. -/
theorem seen_entriesOfEnter {target : Value} {args : List Value} {clazz : ClazzId} {pre : Bool}
    (h : D.runs.Alike a b) (ha : D.GoodActivation z.view a.store act) (ht : D.Good a.store target)
    (hm : D.GoodMode a.store (.call args)) (hk : D.Known clazz)
    (ready : D.Ready a.store { clazz, pre, target, args, env := act.key.env })
    (checked : pre = true → z.view.hasPrecondition clazz = true)
    (kind : pre = true ∨ (z.view.info clazz).kind = .routine ∨
      (z.view.info clazz).kind = .intrinsic) :
    D.entrySight.Seen D.GoodAnswer (z.enter act target args clazz pre)
      ((z.beside D.reports).enter act target args clazz pre)
      (z.entriesOfEnter act target args clazz pre a) a b := by
  have safe := D.safe_enter hz h ha ht hm hk ready checked kind
  unfold Analyzer.entriesOfEnter
  cases code : (z.view.info clazz).needsCode with
  | false => exact .nothing safe
  | true =>
    have key : D.GoodKey z.view a.store { clazz, pre, target, args, env := act.key.env } :=
      { known := hk
        target := ht
        args := hm.1
        arity := hm.2
        env := ha.key.env
        checked := fun pre => .inl (checked pre) }
    exact (Regime.Sight.Seen.nothing safe).cons
      ⟨D.runs.leads_refl a, ⟨b, h⟩, rfl, code, kind, ready, ha, key⟩
      fun answer mid run => ⟨answer, mid, run, D.runs.leads_refl mid⟩

/-- Calling one clazz leads to the call that it makes, if it makes one. -/
theorem seen_entriesOfOne (site : Site) {target : Value} {args : List Value} {clazz : ClazzId}
    (h : D.runs.Alike a b) (ha : D.GoodActivation z.view a.store act) (ht : D.Good a.store target)
    (hm : D.GoodMode a.store (.call args)) (hk : D.Known clazz)
    (ready : D.ReadyMode a.store act target clazz (.call args)) :
    D.entrySight.Seen D.GoodAnswer (z.callOne act site target args clazz)
      ((z.beside D.reports).callOne act site target args clazz)
      (z.entriesOfOne act target args clazz a) a b := by
  have safe := D.safe_callOne hz site h ha ht hm hk ready
  unfold Analyzer.entriesOfOne
  unfold Analyzer.callOne at safe ⊢
  rw [Analyzer.view_beside] at safe ⊢
  cases kind : (z.view.info clazz).kind with
  | routine => exact D.seen_entriesOfEnter hz h ha ht hm hk ready (by rintro ⟨⟩) (.inr (.inl kind))
  | intrinsic => exact D.seen_entriesOfEnter hz h ha ht hm hk ready (by rintro ⟨⟩) (.inr (.inr kind))
  | _ =>
    rw [kind] at safe
    exact .nothing safe

/-- Calling one clazz after the other leads to the calls that this makes. -/
theorem seen_entriesOfEach (site : Site) {args : List Value}
    {pairs : List ((ClazzId × ClazzId) × Value)} (found : Bool) (sofar : Option Value)
    (h : D.runs.Alike a b) (ha : D.GoodActivation z.view a.store act)
    (hm : D.GoodMode a.store (.call args))
    (hp : ∀ p ∈ pairs, D.GoodPair a.store act (.call args) p) :
    D.entrySight.Seen (fun _ _ => True) (z.accessEach act site (.call args) pairs found sofar)
      ((z.beside D.reports).accessEach act site (.call args) pairs found sofar)
      (z.entriesOfEach act site args pairs a) a b := by
  induction pairs generalizing a b found sofar with
  | nil => exact .nothing (.pure h trivial)
  | cons pair rest ih =>
    obtain ⟨⟨type, clazz⟩, atom⟩ := pair
    obtain ⟨⟨known, good, ready⟩, goodRest⟩ := List.forall_mem_cons.1 hp
    unfold Analyzer.accessEach Analyzer.entriesOfEach
    refine seen_currentStore_bind h ?_
    apply Regime.Sight.Seen.lift_bind h (gives_allowed (D.gives_receives (D.inv h) type good))
    intro received _
    cases received with
    | false => exact ih found sofar h ha hm goodRest
    | true =>
      rw [if_pos rfl, if_pos rfl, if_pos rfl]
      refine .after (D.safe_recordDispatch site clazz h) fun _ a₁ b₁ h₁ leads₁ _ => ?_
      have leads₁ := D.leads_store leads₁
      apply (D.seen_entriesOfOne hz site h₁ (ha.mono leads₁) (D.good_mono leads₁ good)
        (hm.mono leads₁) known (ready _)).bind
      intro result a₂ b₂ h₂ leads₂ _
      have leads := D.leads_trans leads₁ (D.leads_store leads₂)
      exact ih true _ h₂ (ha.mono leads) (hm.mono leads) fun p hp => (goodRest p hp).mono leads

/-- An access leads to the calls that it makes. -/
theorem seen_entriesOfAccess (site : Site) {access : Access} {target : Value} {args : List Value}
    (h : D.runs.Alike a b) (ha : D.GoodActivation z.view a.store act) (hk : D.KnownAccess access)
    (ht : D.Good a.store target) (hm : D.GoodMode a.store (.call args))
    (ready : D.ReadyAccess a.store act access target (.call args)) :
    D.entrySight.Seen (fun _ _ => True) (z.access act site access target (.call args))
      ((z.beside D.reports).access act site access target (.call args))
      (z.entriesOfAccess act site access target args a) a b := by
  have safe := (D.safe_access hz site h ha hk ht hm ready).mono fun _ _ _ _ => trivial
  unfold Analyzer.entriesOfAccess
  unfold Analyzer.access at safe ⊢
  rw [Analyzer.view_beside] at safe ⊢
  dsimp only at safe ⊢
  cases dynamic : access.dynamic with
  | true =>
    have goodPairs := goodPairs_of_access hk ht ready dynamic
    refine (D.seen_entriesOfEach hz site false none h ha hm goodPairs).bind_nothing ?_
    intro r a' b' h' _ _
    cases r.1 with
    | true => exact .pure h' trivial
    | false => exact (D.safe_diagnose _ h').bind fun _ a'' b'' h'' _ _ => .pure h'' trivial
  | false =>
    rw [dynamic] at safe
    cases code : (z.view.info access.accessed).needsCode with
    | true =>
      exact (D.seen_entriesOfOne hz site h ha ht hm hk.accessed (ready.fixed dynamic)).mono
        fun _ _ _ _ => trivial
    | false =>
      rw [code] at safe
      exact .nothing safe

/-- The check of a precondition leads to the call that it makes, if it makes one. -/
theorem seen_entriesOfCheck {access : Access} {target : Value} {args : List Value}
    (h : D.runs.Alike a b) (ha : D.GoodActivation z.view a.store act) (hk : D.KnownAccess access)
    (ht : D.Good a.store target) (hm : D.GoodMode a.store (.call args)) :
    D.entrySight.Seen D.GoodAnswer (z.check act access target args)
      ((z.beside D.reports).check act access target args)
      (z.entriesOfCheck act access target args a) a b := by
  have safe := D.safe_check hz h ha hk ht hm
  unfold Analyzer.entriesOfCheck
  unfold Analyzer.check at safe ⊢
  rw [Analyzer.view_beside] at safe ⊢
  cases checked : z.view.hasPrecondition access.accessed with
  | true =>
    exact D.seen_entriesOfEnter hz h ha ht hm hk.accessed (D.ready (.precondition rfl))
      (fun _ => checked) (.inl rfl)
  | false =>
    rw [checked] at safe
    exact .nothing safe

/-- An instruction leads to its calls, and they lead to its end. -/
theorem seen_entriesOfCall (site : Site) {access : Access} (calls : z.view.Calls access)
    {target : Value} {args : List Value} (h : D.runs.Alike a b)
    (ha : D.GoodActivation z.view a.store act) (hk : D.KnownAccess access)
    (ht : D.Good a.store target) (hm : D.GoodMode a.store (.call args)) :
    D.entrySight.Seen (fun _ _ => True) (z.call act site access target args)
      ((z.beside D.reports).call act site access target args)
      (z.entriesOfCall act site access target args a) a b := by
  rw [Analyzer.call_eq_check, Analyzer.call_eq_check]
  apply (D.seen_entriesOfCheck hz h ha hk ht hm).remember.bind
  rintro checked a' b' h' leads ⟨-, run⟩
  have leads := D.leads_store leads
  cases checked with
  | none => exact .nothing (.pure h' trivial)
  | some v =>
    have ready := D.readyAccess_call calls (Analyzer.mayEnter_of_check run)
    cases access.preOnly with
    | true => exact .nothing (.pure h' trivial)
    | false =>
      exact D.seen_entriesOfAccess hz site h' (ha.mono leads) hk (D.good_mono leads ht)
        (hm.mono leads) ready

section visit

variable {visit : Visit Analysis Value}
  (ahead : visit.Ahead D.runs (fun a => D.Good a.store) z.view act.key.clazz a)
  (ha : D.GoodActivation z.view visit.before.store act)

include ahead ha

/-- The call of a visited instruction is seen beside another one, from the state that the visit
finds. -/
theorem seen_of_visit {access : Access} {target : Value} {rest : List Value}
    (instr : visit.instr = .call access)
    (dropped : visit.stack.drop (z.view.arity access) = target :: rest) :
    ∃ b, D.entrySight.Seen (fun _ _ => True)
      (z.call act visit.site access target (visit.stack.take (z.view.arity access)).reverse)
      ((z.beside D.reports).call act visit.site access target
        (visit.stack.take (z.view.arity access)).reverse)
      (z.entriesOfCall act visit.site access target
        (visit.stack.take (z.view.arity access)).reverse visit.before) visit.before b := by
  obtain ⟨b, alike⟩ := ahead.alike
  have found := ahead.instr
  rw [instr] at found
  have listed : target ∈ visit.stack := List.mem_of_mem_drop (dropped ▸ List.mem_cons_self)
  have goodArgs : ∀ x ∈ (visit.stack.take (z.view.arity access)).reverse,
      D.Good visit.before.store x :=
    fun x hx => ahead.stack x (List.mem_of_mem_take (List.mem_reverse.1 hx))
  have taken : (visit.stack.take (z.view.arity access)).reverse.length = z.view.arity access := by
    have length := congrArg List.length dropped
    rw [List.length_drop, List.length_cons] at length
    rw [List.length_reverse, List.length_take]
    omega
  have arity : D.GoodArity (visit.stack.take (z.view.arity access)).reverse.length := by
    rw [taken]
    exact D.goodArity access
  exact ⟨b, D.seen_entriesOfCall hz visit.site ⟨_, _, found⟩ alike ha (D.knownAccess found rfl)
    (ahead.stack target listed) ⟨goodArgs, arity⟩⟩

/-- The visit of an instruction leads to its calls, also if it fails. -/
theorem entersAhead_of_visit {e : Entry} (he : e ∈ z.entriesOfVisit act visit) :
    D.EntersAhead a e := by
  obtain ⟨access, target, rest, instr, dropped, he⟩ := Analyzer.of_mem_entriesOfVisit he
  obtain ⟨_, seen⟩ := D.seen_of_visit hz ahead ha instr dropped
  exact D.entrySight.ahead_of_leads ahead.leads (seen.ahead e he)

/-- The visit of an instruction that succeeds leads to its calls, and they lead to what follows it.
-/
theorem entered_of_visit (done : visit.Done D.runs z.view (z.processor act) b) {e : Entry}
    (he : e ∈ z.entriesOfVisit act visit) : D.EntersAhead a e ∧ D.Entered e b := by
  refine ⟨D.entersAhead_of_visit hz ahead ha he, ?_⟩
  obtain ⟨access, target, rest, instr, dropped, he⟩ := Analyzer.of_mem_entriesOfVisit he
  obtain ⟨levels, progress, mid, run, -, leads⟩ := done
  obtain ⟨answer, run⟩ := Analyzer.call_of_walkInstr instr dropped run
  obtain ⟨_, seen⟩ := D.seen_of_visit hz ahead ha instr dropped
  exact D.entrySight.done_of_leads leads (seen.done e he answer mid run)

end visit

end AnalysisDiscipline

end ClosedWorld
