import ClosedWorld.Proofs.Analysis.Intrinsics

/-!
# Accesses keep to a discipline

## Main statements

* `Analyzer.mayEnter_of_check`: a body is entered behind its precondition.
* `AnalysisDiscipline.safe_callResult`: what a call produces.
* `AnalysisDiscipline.gives_retag`: values that are tagged for a field.
* `AnalysisDiscipline.safe_access`, `AnalysisDiscipline.safe_call`: accesses.
-/

namespace ClosedWorld

/-- What an intrinsic produces: the undefined value, with a report, where it has no meaning. -/
def Analyzer.produced (z : Analyzer) (name : String) (id : CallId) : Analyzing (Option Value) :=
  match z.intrinsics.find? name with
  | some (.handler meaning) => meaning z.toSetting id
  | _ => do
    z.noteUnsupported name id
    return some .undefined

/-- A call of an intrinsic is marked if something is `produced` for it. -/
theorem Analyzer.intrinsicResult_eq (z : Analyzer) (id : CallId) (clazz : ClazzId) :
    z.intrinsicResult id clazz = (do
      let result ← z.produced (z.intrinsicName clazz) id
      if result.isSome then onStore (Store.markReturns id)
      return result) := by
  unfold Analyzer.intrinsicResult Analyzer.produced Analyzer.noteUnsupported
  dsimp only
  cases z.intrinsics.find? (z.intrinsicName clazz) with
  | none => cases z.config.reportIntrinsics <;> simp
  | some intrinsic =>
    cases intrinsic with
    | handler meaning => rfl
    | unsupported => cases z.config.reportIntrinsics <;> simp

/-- Without a meaning, an intrinsic produces the undefined value. -/
theorem Analyzer.produced_of_unsupported {z : Analyzer} {name : String} {id : CallId}
    (meantless : ∀ meaning, z.intrinsics.find? name ≠ some (.handler meaning)) :
    z.produced name id = (do z.noteUnsupported name id; return some .undefined) := by
  unfold produced
  split
  · rename_i meaning found
    exact absurd found (meantless meaning)
  · rfl

/-- The intrinsics that exit produce nothing. -/
theorem Analyzer.produced_of_exits {z : Analyzer} (hz : z.intrinsics = .standard) {name : String}
    (exits : name ∈ IntrinsicTable.exits) (id : CallId) : z.produced name id = pure none := by
  have found : IntrinsicTable.standard.find? name = some (.handler Handler.exit) := by
    simp only [IntrinsicTable.exits, List.mem_cons, List.not_mem_nil, or_false] at exits
    obtain rfl | rfl := exits <;>
      exact IntrinsicTable.find?_standard (by decide +kernel) rfl
  unfold produced
  rw [hz, found]
  rfl

/-! ### Preconditions -/

namespace Analyzer

variable {z : Analyzer} {act : Activation} {a a' : Analysis} {v : Value}

variable (z act) in
/-- The call of the precondition that comes before a call, if there is one. -/
def check (access : Access) (target : Value) (args : List Value) : Analyzing (Option Value) :=
  if z.view.hasPrecondition access.accessed then z.enter act target args access.accessed true
  else pure (some .unit)

/-- A call consists of the `check` of its precondition and, if that yields something, the access of
the body. -/
theorem call_eq_check (site : Site) (access : Access) (target : Value) (args : List Value) :
    z.call act site access target args = z.check act access target args >>= fun checked =>
      if checked.isSome && !access.preOnly then z.access act site access target (.call args)
      else return checked := by
  unfold call check
  dsimp only
  split <;> rfl

/-- Asking the call of a precondition for its result yields something only if the call is marked,
and changes nothing. -/
theorem returns_of_callResult {id : CallId} {key : CallKey}
    (called : a.store.calls.key? id = some key) (pre : key.pre = true)
    (run : (z.callResult id).outcome a = (.ok (some v), a')) :
    a' = a ∧ ∃ state, a.store.calls.get? id = some (key, state) ∧ state.returns = true := by
  unfold callResult at run
  obtain ⟨_, _, ⟨⟩, run⟩ := Attempt.outcome_bind_eq_ok run
  obtain ⟨_, found, run⟩ := Attempt.outcome_lift_bind_eq_ok run
  cases called.symm.trans (Store.key?_of_callKey found)
  rw [pre] at run
  obtain ⟨state, held, run⟩ := Attempt.outcome_lift_bind_eq_ok run
  cases marked : state.returns with
  | false =>
    rw [marked] at run
    cases run
  | true =>
    rw [marked] at run
    cases run
    exact ⟨rfl, state, Interned.get?_of_key?_of_state? called (Store.state?_of_callState held), marked⟩

/-- Behind a precondition that is passed, the body may be entered. -/
theorem mayEnter_of_enter {target : Value} {args : List Value} {clazz : ClazzId}
    (run : (z.enter act target args clazz true).outcome a = (.ok (some v), a')) :
    a'.store.MayEnter z.view { clazz, pre := false, target, args, env := act.key.env } := by
  unfold enter at run
  cases code : (z.view.info clazz).needsCode with
  | false =>
    rw [code] at run
    cases run
  | true =>
    rw [code] at run
    obtain ⟨id, b, made, run⟩ := Attempt.outcome_bind_eq_ok run
    obtain ⟨result, c, called, run⟩ := Attempt.outcome_bind_eq_ok run
    obtain ⟨filtered, rfl⟩ := Prod.mk.inj run
    obtain ⟨there, -⟩ := Option.filter_eq_some_iff.1 (Except.ok.inj filtered)
    rw [there] at called
    obtain ⟨rfl, state, entry, returns⟩ :=
      returns_of_callResult (Setting.key?_of_newCall made) rfl called
    exact .checked entry returns

/-- Behind the check of a call, the body of the clazz may be entered. -/
theorem mayEnter_of_check {access : Access} {target : Value} {args : List Value}
    (run : (z.check act access target args).outcome a = (.ok (some v), a')) :
    a'.store.MayEnter z.view
      { clazz := access.accessed, pre := false, target, args, env := act.key.env } := by
  unfold check at run
  cases checked : z.view.hasPrecondition access.accessed with
  | false => exact .unguarded checked
  | true =>
    rw [checked] at run
    exact mayEnter_of_enter run

end Analyzer

namespace StoreTerms

/-- The activation is of a call that may be made. -/
structure GoodActivation (D : StoreTerms) (view : View) (s : Store) (act : Activation) : Prop where
  call : D.GoodCall s act.call
  called : D.Called s act.call act.key
  key : D.GoodKey view s act.key
  frame : D.Good s (.object act.frame)

/-- What is good about an activation stays so as the store changes. -/
theorem GoodActivation.mono {D : StoreTerms} {view : View} {s t : Store} {act : Activation}
    (leads : D.Leads s t) (ha : D.GoodActivation view s act) : D.GoodActivation view t act where
  call := D.goodCall_mono leads ha.call
  called := D.called_mono leads ha.called
  key := ha.key.mono leads
  frame := D.good_mono leads ha.frame

end StoreTerms

/-! ### Tags -/

namespace Setting

/-- An atom that is tagged for the choice already stays as it is. -/
theorem retagAtom_of_tagged {g : Setting} {s : Store} {choice : ClazzId} {content : Value}
    {tag : Nat} : g.retagAtom s choice (.tagged content choice tag) =
      .ok (.tagged content choice tag) := by
  unfold retagAtom
  exact if_pos rfl

/-- An atom that is not tagged for the choice is tagged if its clazz is an alternative. -/
theorem retagAtom_of_ne {g : Setting} {s : Store} {choice : ClazzId} {atom : Value}
    (fresh : ∀ content tag, atom ≠ .tagged content choice tag) :
    g.retagAtom s choice atom = (do
      let clazz ← g.clazzOf? s atom
      return ((clazz.bind (g.view.choiceTag? choice)).map (.tagged atom choice)).getD atom) := by
  unfold retagAtom
  split
  · rename_i content choice' tag
    rw [if_neg fun same => fresh content tag (by rw [same])]
    cases g.clazzOf? s (.tagged content choice' tag) with
    | error e => rfl
    | ok clazz =>
      dsimp only [bind, Except.bind]
      cases Option.bind clazz (g.view.choiceTag? choice) <;> rfl
  · cases g.clazzOf? s atom with
    | error e => rfl
    | ok clazz =>
      dsimp only [bind, Except.bind]
      cases Option.bind clazz (g.view.choiceTag? choice) <;> rfl

/-- An atom stays as it is, or it is tagged. -/
theorem retagAtom_eq_ok {g : Setting} {s : Store} {choice : ClazzId} {atom tagged : Value}
    (run : g.retagAtom s choice atom = .ok tagged) :
    (∃ content tag, atom = .tagged content choice tag) ∧ tagged = atom ∨
      (∀ content tag, atom ≠ .tagged content choice tag) ∧ ∃ clazz, g.clazzOf? s atom = .ok clazz ∧
        tagged = ((clazz.bind (g.view.choiceTag? choice)).map (.tagged atom choice)).getD atom := by
  by_cases already : ∃ content tag, atom = .tagged content choice tag
  · obtain ⟨content, tag, rfl⟩ := already
    rw [retagAtom_of_tagged] at run
    cases run
    exact .inl ⟨⟨content, tag, rfl⟩, rfl⟩
  · have fresh := fun content tag same => already ⟨content, tag, same⟩
    rw [retagAtom_of_ne fresh] at run
    obtain ⟨clazz, found, run⟩ := exists_of_bind_eq_ok run
    cases run
    exact .inr ⟨fresh, clazz, found, rfl⟩

end Setting

namespace AnalysisDiscipline

variable {z : Analyzer} (D : AnalysisDiscipline z) {a b : Analysis}

/-! ### Results of calls -/

/-- What an intrinsic produces keeps to the discipline, be it by its meaning or by the report of its
absence. -/
theorem safe_produced (hz : z.intrinsics = .standard) {name : String} {key : CallKey}
    (hn : z.view.CallsIntrinsic name key) {id : CallId} (h : D.runs.Alike a b)
    (hc : D.GoodCall a.store id) (hk : a.store.calls.key? id = some key) :
    D.runs.Safe D.LooseAnswer (z.produced name id) ((z.beside D.reports).produced name id) a b := by
  have unsupported : D.runs.Safe D.LooseAnswer
      (do z.noteUnsupported name id; return some .undefined)
      (do (z.beside D.reports).noteUnsupported name id; return some .undefined) a b := by
    apply (D.safe_noteUnsupported name id h).bind
    intro _ a' b' h' _ _
    exact .pure h' (D.looseAnswer_some (D.good_undefined _))
  have table : (z.beside D.reports).intrinsics = .standard := hz
  unfold Analyzer.produced
  rw [table, hz]
  cases found : IntrinsicTable.standard.find? name with
  | none => exact unsupported
  | some intrinsic =>
    cases intrinsic with
    | unsupported => exact unsupported
    | handler meaning =>
      exact D.safe_handler hn found h hc hk

/-- A call of an intrinsic is marked if it produces a value, so it is not of one that never returns.
-/
theorem safe_intrinsicResult (hz : z.intrinsics = .standard) {id : CallId} {key : CallKey}
    (body : key.pre = false) (kind : (z.view.info key.clazz).kind = .intrinsic)
    (h : D.runs.Alike a b) (hc : D.GoodCall a.store id) (hk : a.store.calls.key? id = some key) :
    D.runs.Safe D.LooseAnswer (z.intrinsicResult id key.clazz)
      ((z.beside D.reports).intrinsicResult id key.clazz) a b := by
  have calls : z.view.CallsIntrinsic (z.intrinsicName key.clazz) key := ⟨body, kind, rfl⟩
  rw [Analyzer.intrinsicResult_eq, Analyzer.intrinsicResult_eq]
  apply (D.safe_produced hz calls h hc hk).remember.bind
  rintro result a' b' h' leads ⟨hr, produced⟩
  cases result with
  | none => exact .pure h' hr
  | some v =>
    have leads := D.leads_store leads
    have returns : z.intrinsicName key.clazz ∉ IntrinsicTable.exits := fun exits => by
      rw [Analyzer.produced_of_exits hz exits] at produced
      cases produced
    have marked := D.safe_markReturns (D.inv h') (D.goodCall_mono leads hc)
      (D.called_mono leads (D.called_of_key (D.inv h) hk)) (.intrinsic calls returns)
      fun walked => absurd walked calls.not_hasWalk
    refine (D.safe_onStore h' marked).bind fun _ a'' b'' h'' leads' _ => .pure h'' ?_
    exact fun v hv => (hr v hv).mono (D.leads_store leads')

/-- What a routine leaves in its frame is a value that is `Loose`: its result field, or the frame,
or the unit value. -/
theorem gives_routineResult {clazz : ClazzId} (hk : (z.view.info clazz).kind = .routine)
    {s : Store} (hi : D.Inv s) {frame : InstanceId} (hf : D.Good s (.object frame)) :
    Gives D.Allowed (D.Loose s) (z.routineResult s clazz frame) := by
  unfold Setting.routineResult
  cases result : (z.view.info clazz).result with
  | none => exact .ok (.inr (D.good_unit s))
  | some type =>
    dsimp only
    cases isUnit : z.view.isUnit type with
    | true => exact .ok (.inr (D.good_unit s))
    | false =>
      rw [if_neg Bool.false_ne_true]
      by_cases own : type = clazz
      · rw [if_pos own]
        exact .ok (.inr hf)
      · rw [if_neg own]
        cases held : z.view.resultField? clazz with
        | none => exact .error (D.allowed_noResultField hk result isUnit own held)
        | some field => exact D.gives_readField hi field (.object frame) hf

/-- Asking a call for its result keeps to the discipline, whether it is one of a precondition, a
routine or an intrinsic. -/
theorem safe_callResult (hz : z.intrinsics = .standard) {id : CallId} {key : CallKey}
    (h : D.runs.Alike a b) (hc : D.GoodCall a.store id) (hk : a.store.calls.key? id = some key)
    (kind : key.pre = true ∨ (z.view.info key.clazz).kind = .routine ∨
      (z.view.info key.clazz).kind = .intrinsic) :
    D.runs.Safe D.LooseAnswer (z.callResult id) ((z.beside D.reports).callResult id) a b := by
  unfold Analyzer.callResult
  refine safe_currentStore_bind h ?_
  apply safe_lift_bind h (D.gives_callKey (D.inv h) hc)
  intro key' hk'
  obtain rfl : key = key' := Option.some.inj (hk.symm.trans hk')
  rw [Analyzer.view_beside]
  by_cases intrinsic : (!key.pre && decide ((z.view.info key.clazz).kind = .intrinsic)) = true
  · rw [if_pos intrinsic, if_pos intrinsic]
    simp only [Bool.and_eq_true, decide_eq_true_eq] at intrinsic
    exact D.safe_intrinsicResult hz (Bool.not_eq_true' _ ▸ intrinsic.1) intrinsic.2 h hc hk
  · rw [if_neg intrinsic, if_neg intrinsic]
    apply safe_lift_bind h (D.gives_callState (D.inv h) hc)
    intro state held
    cases state.returns with
    | false => exact .pure h D.looseAnswer_none
    | true =>
      cases pre : key.pre with
      | true => exact .pure h (D.looseAnswer_some (D.good_unit _))
      | false =>
        have notPre : ¬key.pre = true := by
          rw [pre]
          exact Bool.false_ne_true
        have notIntrinsic : (z.view.info key.clazz).kind ≠ .intrinsic := by
          intro is
          rw [pre, is] at intrinsic
          exact intrinsic rfl
        have routine := (kind.resolve_left notPre).resolve_right notIntrinsic
        rw [Analyzer.routineResult_beside]
        have left := D.gives_routineResult routine (D.inv h) (D.good_frame (D.inv h) held)
        refine safe_lift_bind h left fun v loose => .pure h ?_
        rintro _ ⟨⟩
        exact loose

/-! ### Fields of choice types -/

/-- Tagging a good atom for a choice gives a good value. -/
theorem gives_retagAtom {s : Store} (hi : D.Inv s) {choice : ClazzId} (ht : z.view.Tags choice)
    {atom : Value} (ha : D.Good s atom) :
    Gives D.Allowed (D.Good s) (z.retagAtom s choice atom) := by
  by_cases already : ∃ content tag, atom = .tagged content choice tag
  · obtain ⟨content, tag, rfl⟩ := already
    rw [Setting.retagAtom_of_tagged]
    exact .ok ha
  · rw [Setting.retagAtom_of_ne fun content tag same => already ⟨content, tag, same⟩]
    apply (D.gives_clazzOf hi ha).bind
    intro clazz _ _
    cases clazz.bind (z.view.choiceTag? choice) with
    | none => exact .ok ha
    | some tag => exact .ok (D.good_tagged ha ht tag)

/-- Tagging good atoms one after the other gives a good value, which is joined to what there is so
far. -/
theorem gives_retagAtoms {s : Store} (hi : D.Inv s) {choice : ClazzId} (ht : z.view.Tags choice)
    {atoms : List Value} (ha : ∀ atom ∈ atoms, D.Good s atom) {sofar : Value} (hs : D.Good s sofar) :
    Gives D.Allowed (D.Good s) (z.retagAtoms s choice sofar atoms) := by
  induction atoms generalizing sofar with
  | nil => exact .ok hs
  | cons atom rest ih =>
    obtain ⟨good, goodRest⟩ := List.forall_mem_cons.1 ha
    unfold Setting.retagAtoms
    apply (D.gives_retagAtom hi ht good).bind
    intro tagged _ goodTagged
    exact ih goodRest (D.good_join hs goodTagged)

/-- Tagging a good value for a field gives a good value. -/
theorem gives_retag {s : Store} (hi : D.Inv s) (field : ClazzId) {v : Value} (hv : D.Good s v) :
    Gives D.Allowed (D.Good s) (z.retag s field v) := by
  have goodAtoms : ∀ atom ∈ v.atoms, D.Good s atom := fun atom ha => D.good_atom hv ha
  unfold Setting.retag
  split
  · exact .ok hv
  · rename_i choice typed
    split
    · rename_i wrapped
      simp only [Bool.and_eq_true, Bool.not_eq_true'] at wrapped
      have tags : z.view.Tags choice := ⟨.inr ⟨field, typed, wrapped.1⟩, wrapped.2⟩
      cases atoms : v.atoms with
      | nil => exact .ok (D.good_of_atoms_eq_nil hv atoms)
      | cons atom rest =>
        rw [atoms] at goodAtoms
        obtain ⟨good, goodRest⟩ := List.forall_mem_cons.1 goodAtoms
        unfold Setting.retagAtoms
        apply (D.gives_retagAtom hi tags good).bind
        intro tagged _ goodTagged
        rw [Value.noValue_join]
        exact D.gives_retagAtoms hi tags goodRest goodTagged
    · exact .ok hv

/-! ### Accesses of one clazz -/

/-- What is written or passed is good. There is something to write, unless it may be missing. -/
def GoodMode (s : Store) : AccessMode → Prop
  | .assign values => (∀ v ∈ values, D.Good s v) ∧
      (values = [] → ∀ field, D.Allowed (z.malformed field .noValue))
  | .call args => (∀ v ∈ args, D.Good s v) ∧ D.GoodArity args.length

variable {act : Activation}

variable {D} in
/-- What is good about a mode stays so as the store changes. -/
theorem GoodMode.mono {s t : Store} {mode : AccessMode} (leads : D.Leads s t)
    (hm : D.GoodMode s mode) : D.GoodMode t mode := by
  cases mode with
  | assign values => exact ⟨fun v hv => D.good_mono leads (hm.1 v hv), hm.2⟩
  | call args => exact ⟨fun v hv => D.good_mono leads (hm.1 v hv), hm.2⟩

/-- What the access of the clazz calls may be called as far as preconditions go. -/
def ReadyMode (s : Store) (act : Activation) (target : Value) (clazz : ClazzId) :
    AccessMode → Prop
  | .assign _ => True
  | .call args => D.Ready s { clazz, pre := false, target, args, env := act.key.env }

variable {D} in
/-- A clazz that is opened by a dynamic access is ready for every mode. -/
theorem readyMode_of_opens {clazz : ClazzId} (opens : D.Opens clazz) (s : Store)
    (target : Value) (mode : AccessMode) : D.ReadyMode s act target clazz mode := by
  cases mode with
  | assign values => trivial
  | call args => exact opens s _ rfl

/-- Entering a clazz makes a call with a good key and asks it for its result, which keeps to the
discipline. -/
theorem safe_enter (hz : z.intrinsics = .standard) {target : Value} {args : List Value}
    {clazz : ClazzId} {pre : Bool} (h : D.runs.Alike a b) (ha : D.GoodActivation z.view a.store act)
    (ht : D.Good a.store target) (hm : D.GoodMode a.store (.call args)) (hk : D.Known clazz)
    (ready : D.Ready a.store { clazz, pre, target, args, env := act.key.env })
    (checked : pre = true → z.view.hasPrecondition clazz = true)
    (kind : pre = true ∨ (z.view.info clazz).kind = .routine ∨
      (z.view.info clazz).kind = .intrinsic) :
    D.runs.Safe D.GoodAnswer (z.enter act target args clazz pre)
      ((z.beside D.reports).enter act target args clazz pre) a b := by
  have goodKey : D.GoodKey z.view a.store { clazz, pre, target, args, env := act.key.env } :=
    { known := hk
      target := ht
      args := hm.1
      arity := hm.2
      env := ha.key.env
      checked := fun pre => .inl (checked pre) }
  unfold Analyzer.enter
  rw [Analyzer.view_beside, Analyzer.newCall_beside]
  cases (z.view.info clazz).needsCode with
  | false =>
    refine .pure h ?_
    rintro _ ⟨⟩
  | true =>
    refine (D.safe_newCall h goodKey ha.call (.access ha.called rfl ready)).bind ?_
    rintro id a' b' h' _ ⟨called, good⟩
    apply (D.safe_callResult hz h' good called kind).bind
    intro r a'' b'' h'' _ loose
    refine .pure h'' fun v hv => ?_
    obtain ⟨answered, there⟩ := Option.filter_eq_some_iff.1 hv
    exact (loose v answered).resolve_left (of_decide_eq_true there)

/-- Calling one clazz keeps to the discipline: fields are read, routines and intrinsics are entered,
and that an abstract clazz is called is a finding. -/
theorem safe_callOne (hz : z.intrinsics = .standard) (site : Site) {target : Value}
    {args : List Value} {clazz : ClazzId} (h : D.runs.Alike a b)
    (ha : D.GoodActivation z.view a.store act) (ht : D.Good a.store target)
    (hm : D.GoodMode a.store (.call args)) (hk : D.Known clazz)
    (ready : D.ReadyMode a.store act target clazz (.call args)) :
    D.runs.Safe D.GoodAnswer (z.callOne act site target args clazz)
      ((z.beside D.reports).callOne act site target args clazz) a b := by
  unfold Analyzer.callOne
  rw [Analyzer.view_beside]
  cases kind : (z.view.info clazz).kind with
  | «abstract» =>
    refine (D.safe_diagnose _ h).bind fun _ a' b' h' _ _ => .pure h' ?_
    rintro _ ⟨⟩
  | routine => exact D.safe_enter hz h ha ht hm hk ready (by rintro ⟨⟩) (.inr (.inl kind))
  | intrinsic => exact D.safe_enter hz h ha ht hm hk ready (by rintro ⟨⟩) (.inr (.inr kind))
  | field =>
    refine safe_currentStore_bind h ?_
    apply safe_lift_bind h (D.gives_readField (D.inv h) clazz target ht)
    intro v loose
    refine .pure h ?_
    intro w hw
    split at hw
    · cases hw
    · rename_i there
      cases hw
      exact loose.resolve_left there
  | choice => exact .throw h (D.allowed (D.allowed_of_isPlain rfl))

/-- The value that is assigned is good, or it is missing where that is `Allowed`. -/
theorem gives_written {s : Store} {values : List Value} (hm : D.GoodMode s (.assign values))
    (field : ClazzId) : Gives D.Allowed (D.Good s) (z.written field values) := by
  cases values with
  | nil => exact .error (hm.2 rfl field)
  | cons value rest => exact .ok (hm.1 value List.mem_cons_self)

/-- Assigning to a field keeps to the discipline. -/
theorem safe_assignOne {target : Value} {values : List Value} {field : ClazzId}
    (hk : D.Known field) (h : D.runs.Alike a b) (ht : D.Good a.store target)
    (hm : D.GoodMode a.store (.assign values)) :
    D.runs.Safe D.GoodAnswer (z.assignOne target values field)
      ((z.beside D.reports).assignOne target values field) a b := by
  have unit {a : Analysis} : D.GoodAnswer (some .unit) a := by
    rintro _ ⟨⟩
    exact D.good_unit _
  unfold Analyzer.assignOne
  rw [Analyzer.view_beside]
  cases z.view.resultIsUnit field with
  | true => exact .pure h unit
  | false =>
    apply safe_lift_bind h (D.gives_written hm field)
    intro value hv
    refine safe_currentStore_bind h ?_
    rw [Analyzer.retag_beside]
    apply safe_lift_bind h (D.gives_retag (D.inv h) field hv)
    intro tagged good
    have written := D.safe_setField hk target (D.inv h) good ht
    exact (D.safe_onStore h written).bind fun _ a' b' h' _ _ => .pure h' unit

/-- Accessing one clazz keeps to the discipline, in either mode. -/
theorem safe_accessOne (hz : z.intrinsics = .standard) (site : Site) {target : Value}
    {mode : AccessMode} {clazz : ClazzId} (h : D.runs.Alike a b)
    (ha : D.GoodActivation z.view a.store act) (ht : D.Good a.store target)
    (hm : D.GoodMode a.store mode) (hk : D.Known clazz)
    (ready : D.ReadyMode a.store act target clazz mode) :
    D.runs.Safe D.GoodAnswer (z.accessOne act site target mode clazz)
      ((z.beside D.reports).accessOne act site target mode clazz) a b := by
  cases mode with
  | assign values => exact D.safe_assignOne hk h ht hm
  | call args => exact D.safe_callOne hz site h ha ht hm hk ready

/-! ### Static and dynamic accesses -/

/-- Whether a good atom receives what is called on a type can be told. -/
theorem gives_receives {s : Store} (hi : D.Inv s) (type : ClazzId) {atom : Value}
    (ha : D.Good s atom) : Gives D.Allowed (fun _ => True) (Analyzer.receives s type atom) := by
  unfold Analyzer.receives
  split
  · exact (D.gives_instanceKey hi ha).bind fun key _ _ => .ok trivial
  · exact .ok trivial
  · exact .ok trivial

/-- Good results are good when they are joined. -/
theorem goodResult_joinResults {s : Store} {r r' : Option Value} (hr : D.GoodResult s r)
    (hr' : D.GoodResult s r') : D.GoodResult s (Analyzer.joinResults r r') := by
  cases r with
  | none => exact hr'
  | some v =>
    cases r' with
    | none => exact hr
    | some w =>
      rintro _ ⟨⟩
      exact D.good_join (hr v rfl) (hr' w rfl)

/-- The pair of a target and an atom is one for which an access may be made. -/
structure GoodPair (s : Store) (act : Activation) (mode : AccessMode)
    (p : (ClazzId × ClazzId) × Value) : Prop where
  known : D.Known p.1.2
  good : D.Good s p.2
  ready : ∀ s, D.ReadyMode s act p.2 p.1.2 mode

variable {D} in
/-- What is good about a pair of a target and an atom stays so as the store changes. -/
theorem GoodPair.mono {s t : Store} {mode : AccessMode} {p : (ClazzId × ClazzId) × Value}
    (leads : D.Leads s t) (hp : D.GoodPair s act mode p) : D.GoodPair t act mode p :=
  { hp with good := D.good_mono leads hp.good }

/-- Accessing one clazz after the other, each for an atom that it is for, keeps to the discipline.
-/
theorem safe_accessEach (hz : z.intrinsics = .standard) (site : Site) {mode : AccessMode}
    {pairs : List ((ClazzId × ClazzId) × Value)} (found : Bool) (sofar : Option Value)
    (h : D.runs.Alike a b) (ha : D.GoodActivation z.view a.store act) (hm : D.GoodMode a.store mode)
    (hp : ∀ p ∈ pairs, D.GoodPair a.store act mode p) (hs : D.GoodAnswer sofar a) :
    D.runs.Safe (fun r a' => D.GoodAnswer r.2 a') (z.accessEach act site mode pairs found sofar)
      ((z.beside D.reports).accessEach act site mode pairs found sofar) a b := by
  induction pairs generalizing a b found sofar with
  | nil => exact .pure h hs
  | cons pair rest ih =>
    obtain ⟨⟨type, clazz⟩, atom⟩ := pair
    obtain ⟨⟨known, good, ready⟩, goodRest⟩ := List.forall_mem_cons.1 hp
    unfold Analyzer.accessEach
    refine safe_currentStore_bind h ?_
    apply safe_lift_bind h (D.gives_receives (D.inv h) type good)
    intro received _
    cases received with
    | false => exact ih found sofar h ha hm goodRest hs
    | true =>
      apply (D.safe_recordDispatch site clazz h).bind
      intro _ a₁ b₁ h₁ leads₁ _
      have leads₁ := D.leads_store leads₁
      have accessed := D.safe_accessOne hz site h₁ (ha.mono leads₁) (D.good_mono leads₁ good)
        (hm.mono leads₁) known (ready _)
      apply accessed.bind
      intro result a₂ b₂ h₂ leads₂ hr
      have leads := D.leads_trans leads₁ (D.leads_store leads₂)
      exact ih true _ h₂ (ha.mono leads) (hm.mono leads) (fun p hp => (goodRest p hp).mono leads)
        (D.goodResult_joinResults (hs.mono leads) hr)

/-- The clazz and all target clazzes of the access are known. -/
structure KnownAccess (access : Access) : Prop where
  accessed : D.Known access.accessed
  targets : ∀ t ∈ access.targets, D.Known t.2

/-- What an access calls may be called as far as preconditions go. -/
structure ReadyAccess (s : Store) (act : Activation) (access : Access) (target : Value)
    (mode : AccessMode) : Prop where
  fixed : access.dynamic = false → D.ReadyMode s act target access.accessed mode
  selected : access.dynamic = true →
    ∀ t ∈ access.targets, ∀ atom s, D.ReadyMode s act atom t.2 mode

/-- What is assigned to may be assigned to without any check. -/
theorem readyAccess_assign (s : Store) (access : Access) (target : Value) (values : List Value) :
    D.ReadyAccess s act access target (.assign values) :=
  ⟨fun _ => trivial, fun _ _ _ _ _ => trivial⟩

/-- What a call instruction calls may be called once its clazz may be entered. -/
theorem readyAccess_call {s : Store} {access : Access} (calls : z.view.Calls access) {target : Value}
    {args : List Value} (enters : s.MayEnter z.view
      { clazz := access.accessed, pre := false, target, args, env := act.key.env }) :
    D.ReadyAccess s act access target (.call args) where
  fixed _ := D.ready enters
  selected dynamic _ ht _ s := readyMode_of_opens (D.opens_of_selected calls dynamic ht) s _ _

variable {D} in
/-- The pairs that a dynamic access comes by are good if the access and its target are. -/
theorem goodPairs_of_access {s : Store} {access : Access} {target : Value} {mode : AccessMode}
    (hk : D.KnownAccess access) (ht : D.Good s target)
    (ready : D.ReadyAccess s act access target mode) (dynamic : access.dynamic = true) :
    ∀ p ∈ access.targets.flatMap fun t => target.atoms.map fun atom => (t, atom),
      D.GoodPair s act mode p := by
  intro p hp
  obtain ⟨t, htargets, hp⟩ := List.mem_flatMap.1 hp
  obtain ⟨atom, hatom, rfl⟩ := List.mem_map.1 hp
  exact ⟨hk.targets t htargets, D.good_atom ht hatom, ready.selected dynamic t htargets atom⟩

/-- An access keeps to the discipline, whether it is static or dynamic. -/
theorem safe_access (hz : z.intrinsics = .standard) (site : Site) {access : Access}
    {target : Value} {mode : AccessMode} (h : D.runs.Alike a b)
    (ha : D.GoodActivation z.view a.store act) (hk : D.KnownAccess access) (ht : D.Good a.store target)
    (hm : D.GoodMode a.store mode) (ready : D.ReadyAccess a.store act access target mode) :
    D.runs.Safe D.GoodAnswer (z.access act site access target mode)
      ((z.beside D.reports).access act site access target mode) a b := by
  unfold Analyzer.access
  rw [Analyzer.view_beside]
  dsimp only
  cases dynamic : access.dynamic with
  | true =>
    rw [if_pos rfl, if_pos rfl]
    have accessed := D.safe_accessEach hz site false none h ha hm
      (goodPairs_of_access hk ht ready dynamic) (by rintro _ ⟨⟩)
    apply accessed.bind
    intro r a' b' h' _ hr
    cases found : r.1 with
    | true => exact .pure h' hr
    | false =>
      refine (D.safe_diagnose _ h').bind fun _ a'' b'' h'' leads _ => .pure h'' ?_
      exact hr.mono (D.leads_store leads)
  | false =>
    rw [if_neg Bool.false_ne_true, if_neg Bool.false_ne_true]
    cases (z.view.info access.accessed).needsCode with
    | true => exact D.safe_accessOne hz site h ha ht hm hk.accessed (ready.fixed dynamic)
    | false =>
      refine (D.safe_diagnose _ h).bind fun _ a' b' h' _ _ => .pure h' ?_
      rintro _ ⟨⟩

/-- The check of a precondition keeps to the discipline. -/
theorem safe_check (hz : z.intrinsics = .standard) {access : Access} {target : Value}
    {args : List Value} (h : D.runs.Alike a b) (ha : D.GoodActivation z.view a.store act)
    (hk : D.KnownAccess access) (ht : D.Good a.store target)
    (hm : D.GoodMode a.store (.call args)) :
    D.runs.Safe D.GoodAnswer (z.check act access target args)
      ((z.beside D.reports).check act access target args) a b := by
  unfold Analyzer.check
  rw [Analyzer.view_beside]
  cases checked : z.view.hasPrecondition access.accessed with
  | true =>
    exact D.safe_enter hz h ha ht hm hk.accessed (D.ready (.precondition rfl)) (fun _ => checked)
      (.inl rfl)
  | false =>
    refine .pure h ?_
    rintro _ ⟨⟩
    exact D.good_unit _

/-- A call keeps to the discipline: the access behind the check may be made if the check yields
something. -/
theorem safe_call (hz : z.intrinsics = .standard) (site : Site) {access : Access}
    (calls : z.view.Calls access) {target : Value} {args : List Value} (h : D.runs.Alike a b)
    (ha : D.GoodActivation z.view a.store act) (hk : D.KnownAccess access) (ht : D.Good a.store target)
    (hm : D.GoodMode a.store (.call args)) :
    D.runs.Safe D.GoodAnswer (z.call act site access target args)
      ((z.beside D.reports).call act site access target args) a b := by
  rw [Analyzer.call_eq_check, Analyzer.call_eq_check]
  apply (D.safe_check hz h ha hk ht hm).remember.bind
  rintro checked a' b' h' leads ⟨good, run⟩
  have leads := D.leads_store leads
  cases checked with
  | none => exact .pure h' good
  | some v =>
    have ready := D.readyAccess_call calls (Analyzer.mayEnter_of_check run)
    cases access.preOnly with
    | true => exact .pure h' good
    | false =>
      exact D.safe_access hz site h' (ha.mono leads) hk (D.good_mono leads ht) (hm.mono leads) ready

end AnalysisDiscipline

end ClosedWorld
