import ClosedWorld.Proofs.Analysis.Fixpoint
import ClosedWorld.Proofs.Analysis.Growth
import ClosedWorld.Proofs.Store.Evolution

/-!
# What flows into calls has arrived

A call is analysed by joining its arguments and its target into its frame and walking its code. In
the store of a report this is done for every call: the frame holds what is passed, and whether the
call is marked as returning is justified by the walk of its code over that very store. Calls are
discovered while others are walked, and many share a frame, but the last sweep went over all of them
and changed nothing.

## Main definitions

* `Store.HoldsAbove`: a field of an instance holds a value, or more.
* `Analyzer.IsSettled`: a call has nothing left to do.

## Main statements

* `Analyzer.quiet_of_analyze`: no part of an analysis that changes nothing changes something.
* `Analyzer.isSettled_of_analyze`: a call is settled if its analysis changes nothing.
* `Analyzer.run_isSettled`: all calls of a report are.
-/

namespace ClosedWorld

namespace Store

variable {kinds : ClazzId → NumericKind} {s t u : Store}

/-- The field of the instance holds the value, or more. -/
def HoldsAbove (s : Store) (id : InstanceId) (field : ClazzId) (v : Value) : Prop :=
  ∃ fields w, s.instances.state? id = some fields ∧ fields.find? field = some w ∧ v.Below w

/-- A write that changes nothing has written already: the field holds the value, or more. -/
theorem holdsAbove_of_setField {id : InstanceId} {field : ClazzId} {v : Value}
    (hs : s.IsRegular kinds) (hv : v.Regular kinds) (quiet : s.change = none)
    (run : (setField field v (.object id)).outcome s = (.ok (), s)) : s.HoldsAbove id field v := by
  unfold setField at run
  obtain ⟨-, failed⟩ | ⟨fields, held, ⟨same, -⟩ | ⟨-, grown⟩⟩ := s.joinField_cases id field v
  · cases failed.symm.trans run
  · cases written : fields.find? field with
    | none =>
      rw [written] at same
      cases same
    | some w =>
      rw [written] at same
      have joined : w = w.join v := Option.some.inj same
      have regular := AllValues.field hs held (OrderedMap.mem_entries_of_find? written)
      refine ⟨fields, w, held, written, Value.below_iff.2 ?_⟩
      exact (Value.join_comm hv regular).trans joined.symm
  · have same : _ = s := congrArg Prod.snd (grown.symm.trans run)
    exact absurd (same ▸ quiet) (change_noting_ne_none _ _)

/-- Passing arguments to a frame evolves a store. -/
theorem evolves_passArguments {P : Value → Prop} {M : CallKey → Prop} (frame : Value)
    {args : List (ClazzId × Value)} (ha : ∀ e ∈ args, P e.2) (s : Store) :
    s.Evolves P M ((Analyzer.passArguments frame args).outcome s).2 := by
  induction args generalizing s with
  | nil => exact .refl s
  | cons e rest ih =>
    obtain ⟨hv, ha⟩ := List.forall_mem_cons.1 ha
    unfold Analyzer.passArguments
    apply evolves_bind (evolves_setField e.1 hv frame s)
    intro _ t _
    exact ih ha t

/-- Writing a field that may be missing, such as that of an outer instance, evolves a store. -/
theorem evolves_elim_setField {P : Value → Prop} {M : CallKey → Prop} (value : Value)
    (hv : P value) (field : Option ClazzId) (target : Value) (s : Store) :
    s.Evolves P M
      ((field.elim (pure ()) (setField · value target) : Updating Unit).outcome s).2 := by
  cases field with
  | none => exact .refl s
  | some field => exact evolves_setField field hv target s

/-- Arguments whose passing changes nothing have been passed. -/
theorem holdsAbove_of_passArguments {id : InstanceId} {args : List (ClazzId × Value)}
    (hs : s.IsRegular kinds) (ha : ∀ e ∈ args, e.2.Regular kinds) (quiet : s.change = none)
    (run : (Analyzer.passArguments (.object id) args).outcome s = (.ok (), s)) :
    ∀ e ∈ args, s.HoldsAbove id e.1 e.2 := by
  induction args with
  | nil => exact List.forall_mem_nil _
  | cons e rest ih =>
    obtain ⟨regular, regularRest⟩ := List.forall_mem_cons.1 ha
    unfold Analyzer.passArguments at run
    obtain ⟨_, t, first, later⟩ := Attempt.outcome_bind_eq_ok run
    have arrives : s.Evolves (Value.Regular kinds) (fun _ => True) t := by
      have written := evolves_setField (M := fun _ => True) e.1 regular (.object id) s
      rwa [first] at written
    have leaves : t.Evolves (Value.Regular kinds) (fun _ => True) s := by
      have passed := evolves_passArguments (M := fun _ => True) (.object id) regularRest t
      rwa [later] at passed
    obtain rfl : t = s := arrives.eq_of_quiet (leaves.eq_of_quiet quiet ▸ quiet)
    exact List.forall_mem_cons.2
      ⟨holdsAbove_of_setField hs regular quiet first, ih regularRest later⟩

end Store

namespace Analyzer

/-- The call has nothing left to do: it has as many arguments as its clazz takes, its frame holds
them and its target, and walking its code succeeds without changing the store, whatever the notes
are, and reaches the end only if the call is marked as returning. -/
structure IsSettled (z : Analyzer) (s : Store) (id : CallId) (key : CallKey) (state : CallState) :
    Prop where
  arity : key.args.length = (z.view.info key.clazz).args.length
  args : ∀ e ∈ (z.view.info key.clazz).args.zip key.args, s.HoldsAbove state.frame e.1 e.2
  target : ∀ field, (z.view.info key.clazz).outerRef = some field →
    s.HoldsAbove state.frame field key.target
  code : ∀ b : Analysis, b.store = s → ∃ step b',
    (walkClazz z.view (z.processor ⟨id, key, state.frame⟩) key.clazz key.pre).outcome b =
        (.ok step, b') ∧
      b'.store = s ∧ (step.value.isSome → state.returns = true)

variable {z : Analyzer} {s : Store} {id : CallId} {key : CallKey} {state : CallState}

/-- The steps of the analysis of a call that has code, if it succeeds. -/
theorem analyze_eq_ok {a a' : Analysis} (run : (z.analyze id).outcome a = (.ok (), a'))
    (held : a.store.calls.get? id = some (key, state))
    (code : key.pre = true ∨ (z.view.info key.clazz).kind = .routine) :
    key.args.length = (z.view.info key.clazz).args.length ∧
      ∃ passed entered step walked,
        (passArguments (.object state.frame) ((z.view.info key.clazz).args.zip key.args)).outcome
          a.store = (.ok (), passed) ∧
        ((z.view.info key.clazz).outerRef.elim (pure ())
          (Store.setField · key.target (.object state.frame)) : Updating Unit).outcome passed =
          (.ok (), entered.store) ∧
        (walkClazz z.view (z.processor ⟨id, key, state.frame⟩) key.clazz key.pre).outcome entered =
          (.ok step, walked) ∧
        (if step.value.isSome then onStore (Store.markReturns id) else return ()).outcome walked =
          (.ok (), a') := by
  unfold analyze at run
  obtain ⟨_, _, ⟨⟩, run⟩ := Attempt.outcome_bind_eq_ok run
  obtain ⟨_, called, run⟩ := Attempt.outcome_lift_bind_eq_ok run
  cases (Interned.key?_of_get? held).symm.trans (Store.key?_of_callKey called)
  dsimp only at run
  rw [if_pos (by simpa using code)] at run
  by_cases arity : (z.view.info key.clazz).args.length ≠ key.args.length
  · rw [if_pos arity] at run
    cases run
  · rw [if_neg arity] at run
    obtain ⟨_, _, ⟨⟩, run⟩ := Attempt.outcome_bind_eq_ok run
    obtain ⟨_, framed, run⟩ := Attempt.outcome_lift_bind_eq_ok run
    cases (Interned.state?_of_get? held).symm.trans (Store.state?_of_callState framed)
    obtain ⟨_, b, passes, run⟩ := Attempt.outcome_bind_eq_ok run
    refine ⟨(not_not.1 arity).symm, b.store, ?_⟩
    cases outer : (z.view.info key.clazz).outerRef with
    | none =>
      rw [outer] at run
      obtain ⟨step, walked, walks, marks⟩ := Attempt.outcome_bind_eq_ok run
      exact ⟨b, step, walked, outcome_onStore_eq_ok passes, rfl, walks, marks⟩
    | some field =>
      rw [outer] at run
      obtain ⟨_, c, enters, run⟩ := Attempt.outcome_bind_eq_ok run
      obtain ⟨step, walked, walks, marks⟩ := Attempt.outcome_bind_eq_ok run
      exact ⟨c, step, walked, outcome_onStore_eq_ok passes, outcome_onStore_eq_ok enters, walks,
        marks⟩

variable (hz : z.intrinsics = .standard)

include hz

/-- A call whose analysis leaves the store as it is has passed its arguments and its target before,
and the walk of its code leaves the store as it is, too. -/
theorem quiet_of_analyze (quiet : s.change = none) {a a' : Analysis}
    (run : (z.analyze id).outcome a = (.ok (), a')) (ha : a.store = s) (ha' : a'.store = s)
    (held : s.calls.get? id = some (key, state))
    (code : key.pre = true ∨ (z.view.info key.clazz).kind = .routine) :
    (passArguments (.object state.frame) ((z.view.info key.clazz).args.zip key.args)).outcome s =
        (.ok (), s) ∧
      ((z.view.info key.clazz).outerRef.elim (pure ())
        (Store.setField · key.target (.object state.frame)) : Updating Unit).outcome s =
          (.ok (), s) ∧
      ∀ b : Analysis, b.store = s → ∃ step b',
        (walkClazz z.view (z.processor ⟨id, key, state.frame⟩) key.clazz key.pre).outcome b =
            (.ok step, b') ∧
          b'.store = s ∧ (step.value.isSome → state.returns = true) := by
  rw [← ha] at held
  obtain ⟨-, passed, entered, step, walked, passes, enters, walks, marks⟩ :=
    analyze_eq_ok run held code
  rw [ha] at passes held
  -- Every step evolves the store or keeps to what is noted, and in the end nothing is.
  have passing : s.Evolves (fun _ => True) (fun _ => True) passed := by
    have evolves := Store.evolves_passArguments (P := fun _ => True) (M := fun _ => True)
      (.object state.frame) (fun _ (_ : _ ∈ (z.view.info key.clazz).args.zip key.args) => trivial) s
    rwa [passes] at evolves
  have entering : passed.Evolves (fun _ => True) (fun _ => True) entered.store := by
    have evolves := Store.evolves_elim_setField (P := fun _ => True) (M := fun _ => True) key.target
      trivial (z.view.info key.clazz).outerRef (.object state.frame) passed
    rwa [enters] at evolves
  have kept (unnoted : entered.store.change = none) : passed = s ∧ entered.store = s := by
    have same := entering.eq_of_quiet unnoted
    have before := passing.eq_of_quiet (same ▸ unnoted)
    exact ⟨before, same.trans before⟩
  have active (b : Analysis) := AnalysisDiscipline.goodActivation_quiet z s b.store
    ⟨id, key, state.frame⟩
  have walk {b : Analysis} (hb : b.store = entered.store) :=
    ((AnalysisDiscipline.quiet z s).seen_visitsOfCode hz (a := entered) (b := b)
      ⟨hb, fun unnoted => (kept unnoted).2⟩ (active entered)).safe.of_ok walks
  obtain ⟨_, -, alike, leads, -⟩ := walk rfl
  have marking : (AnalysisDiscipline.quiet z s).runs.Safe (fun _ _ => True)
      (markIf id step.value.isSome) (markIf id step.value.isSome) walked walked :=
    (AnalysisDiscipline.quiet z s).safe_markIf ⟨rfl, alike.2⟩ trivial
      (fun _ => ⟨key, trivial, code⟩) trivial
  obtain ⟨_, -, -, leads', -⟩ := marking.of_ok marks
  have unnoted : walked.store.change = none := leads'.1 (ha' ▸ quiet)
  obtain ⟨rfl, enteredSame⟩ := kept (leads.1 unnoted)
  have walkedSame : walked.store = passed := alike.2 unnoted
  rw [enteredSame] at enters
  refine ⟨passes, enters, fun b hb => ?_⟩
  obtain ⟨b', again, alike', -, -⟩ := walk (hb.trans enteredSame.symm)
  refine ⟨step, b', again, alike'.1.trans walkedSame, fun reached => ?_⟩
  rw [if_pos reached] at marks
  have marks := outcome_onStore_eq_ok marks
  rw [walkedSame, ha'] at marks
  obtain ⟨-, _, held', returns⟩ := Store.returns_of_markReturns marks quiet
  cases (Interned.state?_of_get? held).symm.trans held'
  exact returns

/-- A call is settled if its analysis leaves the store as it is. -/
theorem isSettled_of_analyze (hs : s.IsRegular z.view.numericKind) (quiet : s.change = none)
    {a a' : Analysis} (run : (z.analyze id).outcome a = (.ok (), a')) (ha : a.store = s)
    (ha' : a'.store = s) (held : s.calls.get? id = some (key, state))
    (code : key.pre = true ∨ (z.view.info key.clazz).kind = .routine) :
    z.IsSettled s id key state := by
  obtain ⟨passes, enters, walks⟩ := quiet_of_analyze hz quiet run ha ha' held code
  obtain ⟨targetRegular, argsRegular⟩ := hs.calls id key state held
  have regular : ∀ e ∈ (z.view.info key.clazz).args.zip key.args, e.2.Regular z.view.numericKind :=
    fun e he => argsRegular e.2 (List.of_mem_zip he).2
  refine ⟨(analyze_eq_ok run (ha ▸ held) code).1,
    Store.holdsAbove_of_passArguments hs regular quiet passes, fun field outer => ?_, walks⟩
  rw [outer] at enters
  exact Store.holdsAbove_of_setField hs targetRegular quiet enters

/-- In the store of a report, every call that has code is settled, whether it was discovered by the
first sweep or by the last one that changed something. -/
theorem run_isSettled {patience : Nat} {final : Analysis}
    (run : z.run patience {} = some (.ok final))
    (held : final.store.calls.get? id = some (key, state))
    (code : key.pre = true ∨ (z.view.info key.clazz).kind = .routine) :
    z.IsSettled final.store id key state := by
  have regular : final.store.IsRegular z.view.numericKind :=
    AnalysisDiscipline.inv_run hz (StoreDiscipline.growing z.view) trivial
      (a := {}) (fun hs => Store.AllValues.unnoted hs) (fun _ => trivial) (Store.isRegular_empty _) run
  obtain ⟨settled, -, reports⟩ := run_eq_ok run
  obtain ⟨swept, sweeps, rfl⟩ := report_eq_ok reports
  obtain ⟨begun, unchanged, swepts⟩ := analyzeAll_of_sweep_quiet hz sweeps
  obtain ⟨kept, analysed⟩ := analyzeAll_quiet hz swepts begun unchanged
  have known : id ∈ settled.store.calls.ids := by
    rw [Interned.mem_ids]
    exact ⟨key, Interned.key?_of_get? (kept ▸ held)⟩
  obtain ⟨b, b', analyses, hb, hb'⟩ := analysed id known
  exact isSettled_of_analyze hz regular unchanged analyses (hb.trans kept.symm)
    (hb'.trans kept.symm)
    held code

omit hz

/-- An analysis of a program that shows false and true, each time in the same frame, and then waits
forever. -/
def sharing : Analyzer where
  view := Program.view
    { clazzes :=
        [ ("main", { kind := .routine, code := some ⟨0⟩ })
        , ("bool", { kind := .choice, special := some .bool })
        , ("show", { kind := .routine, outerRef := some ⟨4⟩, args := [⟨3⟩], code := some ⟨1⟩ })
        , ("show.what", { kind := .field, outer := some ⟨2⟩, result := some ⟨1⟩ })
        , ("show.where", { kind := .field, outer := some ⟨2⟩, result := some ⟨0⟩ })
        , ("wait", { kind := .routine, code := some ⟨2⟩ }) ]
      blocks :=
        [ [ .current, .const ⟨1⟩ [0], .call (.fixed ⟨2⟩), .pop
          , .current, .const ⟨1⟩ [1], .call (.fixed ⟨2⟩), .pop
          , .current, .call (.fixed ⟨5⟩) ]
        , []
        , [.outer, .call (.fixed ⟨5⟩)] ]
      main := ⟨0⟩
      constString := none }

/-- The frame that both calls of `show` have holds what either passes, and the walk of `wait` does
not reach its end. -/
theorem run_isSettled_sharing :
    ∃ final, sharing.run 12 {} = some (.ok final) ∧
      (∀ truth ∈ [Truth.false, Truth.true], ∃ id key,
        final.store.calls.get? id = some (key, ⟨⟨1⟩, true, some ⟨0⟩⟩) ∧ key.args = [.bool truth] ∧
          sharing.IsSettled final.store id key ⟨⟨1⟩, true, some ⟨0⟩⟩) ∧
      ∃ key, final.store.calls.get? ⟨3⟩ = some (key, ⟨⟨2⟩, false, some ⟨0⟩⟩) ∧
        sharing.IsSettled final.store ⟨3⟩ key ⟨⟨2⟩, false, some ⟨0⟩⟩ := by
  have table : sharing.intrinsics = .standard := by simp only [sharing]
  obtain ⟨final, run, showsFalse, showsTrue, waits⟩ :
      ∃ final, sharing.run 12 {} = some (.ok final) ∧
      final.store.calls.get? ⟨1⟩ =
        some (⟨⟨2⟩, false, .object ⟨0⟩, [.bool .false], none⟩, ⟨⟨1⟩, true, some ⟨0⟩⟩) ∧
      final.store.calls.get? ⟨2⟩ =
        some (⟨⟨2⟩, false, .object ⟨0⟩, [.bool .true], none⟩, ⟨⟨1⟩, true, some ⟨0⟩⟩) ∧
      final.store.calls.get? ⟨3⟩ =
        some (⟨⟨5⟩, false, .object ⟨0⟩, [], none⟩, ⟨⟨2⟩, false, some ⟨0⟩⟩) :=
    exists_run (by decide +kernel)
  have routine : ∀ clazz ∈ ([⟨2⟩, ⟨5⟩] : List ClazzId),
      (sharing.view.info clazz).kind = .routine := by
    decide +kernel
  have shows := routine ⟨2⟩ List.mem_cons_self
  refine ⟨final, run, ?_, _, waits, run_isSettled table run waits (.inr (routine ⟨5⟩ (by simp)))⟩
  exact List.forall_mem_cons.2
    ⟨⟨⟨1⟩, _, showsFalse, rfl, run_isSettled table run showsFalse (.inr shows)⟩,
      List.forall_mem_singleton.2
        ⟨⟨2⟩, _, showsTrue, rfl, run_isSettled table run showsTrue (.inr shows)⟩⟩

end Analyzer

end ClosedWorld
