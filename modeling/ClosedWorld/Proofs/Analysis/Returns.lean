import ClosedWorld.Proofs.Analysis.Devirtualization
import ClosedWorld.Proofs.Analysis.Environments

/-!
# Calls that return

Whether a call can return is told twice. The call is marked for it, and its caller continues after
it if it yields a value. Where an analysis has come to rest the two agree, except where an array is
read that is absent: such a read is marked, and yields nothing.

## Main definitions

* `View.ReadsAbsent`: a call that reads an array that is absent.
* `Attempt.Yields`: what is said of all that a step yields.

## Main statements

* `IntrinsicTable.yields_handler`: an intrinsic yields a value, unless it never returns or reads an
  array.
* `Analyzer.callResult_quiet`: what a call yields to its caller.
* `Analyzer.run_continues_iff`: where a caller continues after a call.
-/

namespace ClosedWorld

/-- The call reads an array that is absent. -/
structure View.ReadsAbsent (view : View) (key : CallKey) : Prop where
  reads : view.CallsIntrinsic "fuzion.sys.array.get" key
  absent : key.args[0]? = some .undefined

/-! ### What steps yield -/

namespace Attempt

variable {ε σ α β : Type} {wanted : β → Prop}

/-- Whatever the step yields is as wanted. -/
def Yields (wanted : β → Prop) (step : Attempt ε σ β) : Prop :=
  ∀ a y b, step.outcome a = (.ok y, b) → wanted y

/-- A step that does nothing but yield `y` yields what is wanted, if `y` is. -/
theorem yields_pure {y : β} (h : wanted y) : (pure y : Attempt ε σ β).Yields wanted := by
  rintro a _ _ ⟨⟩
  exact h

/-- A step that fails yields nothing, so all that it yields is what is wanted. -/
theorem yields_throw (e : ε) : (throw e : Attempt ε σ β).Yields wanted := by
  rintro a _ _ ⟨⟩

/-- What a step yields is up to the last part of it. -/
theorem yields_bind {step : Attempt ε σ α} {next : α → Attempt ε σ β}
    (h : ∀ x, (next x).Yields wanted) : (step >>= next).Yields wanted := by
  intro a y c run
  obtain ⟨x, b, -, run⟩ := outcome_bind_eq_ok run
  exact h x b y c run

end Attempt

/-- There is an answer, and it is a value. -/
def IsThere (r : Option Value) : Prop := ∃ v, r = some v ∧ v ≠ .noValue

/-- A result that has `noValue` filtered out is a result if there is a value, and only then. -/
theorem isSome_filter_iff {r : Option Value} :
    (r.filter (· ≠ .noValue)).isSome = true ↔ IsThere r := by
  cases r with
  | none => simp [IsThere]
  | some v => simp [IsThere, Option.filter, apply_ite]

/-- Reading an array yields a value, whatever was written to it. -/
theorem Store.arrayGet_ne_noValue {s : Store} {array : ArrayId} {v : Value}
    (held : s.arrayGet array = .ok v) : v ≠ .noValue := by
  unfold Store.arrayGet at held
  obtain ⟨elements, -, held⟩ := exists_of_bind_eq_ok held
  cases elements <;> cases held <;> simp

namespace Handler

open Attempt Value

/-! ### What intrinsics yield -/

/-- A step that does nothing but yield a value yields one that is there. -/
theorem yields_value {v : Value} (h : v ≠ .noValue) :
    (pure (some v) : Analyzing (Option Value)).Yields IsThere :=
  yields_pure ⟨v, rfl, h⟩

variable (g : Setting) (id : CallId)

/-- The meaning `anyResult` yields a value. -/
theorem yields_anyResult : (anyResult g id).Yields IsThere := by
  refine yields_bind fun s => yields_bind fun key => ?_
  split
  · exact yields_throw _
  · exact yields_bind fun n => yields_value (by simp)

/-- The meaning `arrayAlloc` yields a value: the array that is allocated. -/
theorem yields_arrayAlloc : (arrayAlloc g id).Yields IsThere :=
  yields_bind fun array => yields_value (by simp)

/-- The meaning `arraySetel` yields a value, which is the unit value. -/
theorem yields_arraySetel : (arraySetel g id).Yields IsThere :=
  yields_bind fun s => yields_bind fun key => yields_bind fun array => yields_bind fun value =>
    yields_bind fun _ => yields_value (by simp)

/-- The meaning `effectDefault` yields a value, which is the unit value. -/
theorem yields_effectDefault : (effectDefault g id).Yields IsThere :=
  yields_bind fun s => yields_bind fun key => yields_bind fun effect => yields_bind fun _ =>
    yields_value (by simp)

/-- The meaning `effectReplace` yields a value, which is the unit value. -/
theorem yields_effectReplace : (effectReplace g id).Yields IsThere :=
  yields_bind fun s => yields_bind fun key => yields_bind fun effect => yields_bind fun _ =>
    yields_value (by simp)

/-- The meaning `effectAbortable` yields a value, which is the unit value: it does not ask whether
the function returns. -/
theorem yields_effectAbortable : (effectAbortable g id).Yields IsThere := by
  refine yields_bind fun s => yields_bind fun key => yields_bind fun effect => ?_
  split
  · exact yields_throw _
  · split
    · exact yields_throw _
    · exact yields_bind fun target => yields_bind fun env => yields_bind fun call =>
        yields_value (by simp)

/-- The meaning `effectExists` yields a value, which is a boolean. -/
theorem yields_effectExists : (effectExists g id).Yields IsThere := by
  refine yields_bind fun s => yields_bind fun key => ?_
  split
  · exact yields_throw _
  · exact yields_bind fun installed => yields_value (by simp)

/-! ### Arrays that are read -/

/-- All atoms of a value that is there are there, and there are some. -/
theorem present_eq_nil_iff {view : View} {v : Value} (hv : v.Clean view) :
    present v = [] ↔ v = .undefined := by
  have canonical := hv.regular.canonical
  constructor
  · intro nothing
    by_contra there
    have there : v.isAbsent = false := by
      rw [Bool.eq_false_iff]
      exact fun absent => (isAbsent_iff.1 absent).elim (neat_of_clean hv).ne_noValue there
    obtain ⟨atom, ha⟩ := List.exists_mem_of_ne_nil _ canonical.atoms_ne_nil
    have atomic := isAbsent_of_isAtom ((canonical.differentAtoms there).isAtom atom ha)
    have listed : atom ∈ present v := List.mem_filter.2 ⟨ha, by simp [atomic]⟩
    rw [nothing] at listed
    cases listed
  · rintro rfl
    rfl

/-- What is read from arrays is a value, if there is one among them. -/
theorem readElements_ne_noValue {s : Store} {arrays : List Value} {sofar v : Value}
    (read : readElements s sofar arrays = .ok v) (h : sofar ≠ .noValue ∨ arrays ≠ []) :
    v ≠ .noValue := by
  induction arrays generalizing sofar with
  | nil =>
    cases read
    exact h.resolve_right fun some => some rfl
  | cons atom rest ih =>
    unfold readElements at read
    obtain ⟨array, -, read⟩ := exists_of_bind_eq_ok read
    obtain ⟨elements, held, read⟩ := exists_of_bind_eq_ok read
    refine ih read (.inl ?_)
    by_cases first : sofar = .noValue
    · rw [first, noValue_join]
      exact Store.arrayGet_ne_noValue held
    · exact join_ne_noValue first

variable {g id} in
/-- A read of an array yields a value, unless the array is absent. -/
theorem arrayGet_eq_ok {view : View} {a a' : Analysis} {key : CallKey} {r : Option Value}
    (called : a.store.calls.key? id = some key)
    (clean : ∀ v ∈ key.args, v.Clean view)
    (run : (arrayGet g id).outcome a = (.ok r, a')) :
    key.args[0]? = some .undefined ∧ r = some .noValue ∨
      key.args[0]? ≠ some .undefined ∧ IsThere r := by
  unfold arrayGet at run
  obtain ⟨_, _, ⟨⟩, run⟩ := Attempt.outcome_bind_eq_ok run
  obtain ⟨_, found, run⟩ := Attempt.outcome_lift_bind_eq_ok run
  cases called.symm.trans (Store.key?_of_callKey found)
  obtain ⟨array, given, run⟩ := Attempt.outcome_lift_bind_eq_ok run
  obtain ⟨v, read, run⟩ := Attempt.outcome_lift_bind_eq_ok run
  cases run
  have given : key.args[0]? = some array := by
    unfold Setting.argument at given
    split at given
    · rename_i first
      cases given
      exact first
    · cases given
  have nothing := present_eq_nil_iff (clean array (List.mem_of_getElem? given))
  -- An array that is absent has no atoms, so the read joins nothing at all.
  by_cases absent : array = .undefined
  · rw [nothing.2 absent] at read
    cases read
    exact .inl ⟨absent ▸ given, rfl⟩
  · refine .inr ⟨?_, v, rfl, readElements_ne_noValue read (.inr (mt nothing.1 absent))⟩
    rw [given]
    exact fun same => absent (Option.some.inj same)

end Handler

namespace IntrinsicTable

open Handler

/-- An intrinsic yields a value, unless it never returns or reads an array. -/
theorem yields_handler {name : String} {meaning : Handler}
    (hm : standard.find? name = some (.handler meaning)) (returns : name ∉ exits)
    (other : name ≠ "fuzion.sys.array.get") (g : Setting) (id : CallId) :
    (meaning g id).Yields IsThere := by
  have unit : (Handler.unit g id).Yields IsThere := yields_value (by simp)
  obtain rfl | rfl | listed := mem_individual_of_standard hm
  · exact yields_anyResult g id
  · exact yields_value (by simp)
  · simp only [individual, List.mem_cons, List.not_mem_nil, or_false, Prod.mk.injEq] at listed
    rcases listed with ⟨rfl, rfl⟩ | ⟨rfl, rfl⟩ | ⟨rfl, rfl⟩ | ⟨rfl, rfl⟩ | ⟨rfl, rfl⟩ | ⟨rfl, rfl⟩ |
      ⟨rfl, rfl⟩ | ⟨rfl, rfl⟩ | ⟨rfl, rfl⟩ | ⟨rfl, rfl⟩ | ⟨rfl, rfl⟩
    · exact absurd (by simp [exits]) returns
    · exact unit
    · exact unit
    · exact yields_arrayAlloc g id
    · exact yields_arraySetel g id
    · exact absurd rfl other
    · exact yields_effectDefault g id
    · exact yields_effectReplace g id
    · exact yields_effectAbortable g id
    · exact absurd (by simp [exits]) returns
    · exact yields_effectExists g id

end IntrinsicTable

/-! ### Calls -/

/-- A call of an intrinsic that never returns is not marked. -/
theorem View.CallsIntrinsic.not_mem_exits {view : View} {name : String} {key : CallKey}
    (h : view.CallsIntrinsic name key) (may : view.MayReturn key) : name ∉ IntrinsicTable.exits := by
  cases may with
  | code walked =>
    rw [h.body, h.kind] at walked
    simp at walked
  | intrinsic calls returns => exact h.named.symm.trans calls.named ▸ returns

/-- How the mark of a call and what it yields go together. -/
inductive View.Accords (view : View) (key : CallKey) (state : CallState) (r : Option Value) :
    Prop where
  | returns (marked : state.returns = true) (there : IsThere r) (present : ¬view.ReadsAbsent key)
  | lost (marked : state.returns = true) (nothing : r = some .noValue)
      (absent : view.ReadsAbsent key)
  | stays (unmarked : state.returns = false) (none : r = none) (present : ¬view.ReadsAbsent key)

namespace Analyzer

variable {z : Analyzer} {s : Store} {a a' : Analysis} {id : CallId} {key : CallKey}
  {r : Option Value}

/-- What a routine leaves behind as its result is a value, if all values in the store are `Clean`.
-/
theorem routineResult_ne_noValue {g : Setting} (clean : s.AllValues (Value.Clean g.view))
    {clazz : ClazzId} {frame : InstanceId} {v : Value}
    (left : g.routineResult s clazz frame = .ok v) : v ≠ .noValue := by
  unfold Setting.routineResult at left
  split at left
  · cases left
    simp
  · split at left
    · cases left
      simp
    · split at left
      · cases left
        simp
      · split at left
        · cases left
        · rename_i field _
          unfold Store.readField at left
          obtain ⟨fields, held, left⟩ := exists_of_bind_eq_ok left
          cases left
          cases found : fields.find? field with
          | none => simp
          | some v =>
            have clean := clean.field (Store.state?_of_fields held)
              (OrderedMap.mem_entries_of_find? found)
            exact (Value.neat_of_clean clean).ne_noValue

variable (hz : z.intrinsics = .standard)

include hz

/-- An intrinsic never returns, or it reads an array that is absent, or it yields a value. -/
theorem produced_cases {name : String} (calls : z.view.CallsIntrinsic name key)
    (called : a.store.calls.key? id = some key) (clean : ∀ v ∈ key.args, v.Clean z.view)
    (run : (z.produced name id).outcome a = (.ok r, a')) :
    name ∈ IntrinsicTable.exits ∧ r = none ∧ ¬z.view.ReadsAbsent key ∨
      name ∉ IntrinsicTable.exits ∧
        (r = some .noValue ∧ z.view.ReadsAbsent key ∨ IsThere r ∧ ¬z.view.ReadsAbsent key) := by
  have reads (absent : z.view.ReadsAbsent key) : name = "fuzion.sys.array.get" :=
    calls.named.symm.trans absent.reads.named
  by_cases exits : name ∈ IntrinsicTable.exits
  · rw [produced_of_exits hz exits] at run
    cases run
    refine .inl ⟨exits, rfl, fun absent => ?_⟩
    rw [reads absent] at exits
    exact absurd exits (by decide)
  refine .inr ⟨exits, ?_⟩
  by_cases read : name = "fuzion.sys.array.get"
  · subst read
    have found : IntrinsicTable.standard.find? "fuzion.sys.array.get" =
        some (.handler Handler.arrayGet) :=
      IntrinsicTable.find?_standard (by decide +kernel) rfl
    unfold produced at run
    rw [hz, found] at run
    obtain ⟨absent, rfl⟩ | ⟨present, there⟩ := Handler.arrayGet_eq_ok called clean run
    · exact .inl ⟨rfl, calls, absent⟩
    · exact .inr ⟨there, fun absent => present absent.absent⟩
  · refine .inr ⟨?_, fun absent => read (reads absent)⟩
    have unsupported : Attempt.Yields IsThere
        (do z.noteUnsupported name id; return some .undefined) :=
      Attempt.yields_bind fun _ => Attempt.yields_pure ⟨.undefined, rfl, by simp⟩
    unfold produced at run
    rw [hz] at run
    split at run
    · rename_i meaning found
      exact IntrinsicTable.yields_handler found exits read _ _ _ _ _ run
    · exact unsupported _ _ _ run

/-- In a store that stays as it is, a call of an intrinsic has been marked already if it is to be.
-/
theorem intrinsicResult_quiet (sound : s.Sound z.view) (body : key.pre = false)
    (kind : (z.view.info key.clazz).kind = .intrinsic) (called : a.store.calls.key? id = some key)
    (inv : a.store.change = none → a.store = s)
    (run : (z.intrinsicResult id key.clazz).outcome a = (.ok r, a'))
    (unchanged : a'.store.change = none) :
    ∃ state, s.calls.get? id = some (key, state) ∧ z.view.Accords key state r := by
  have calls : z.view.CallsIntrinsic (z.intrinsicName key.clazz) key := ⟨body, kind, rfl⟩
  obtain ⟨_, -, -, leads, -⟩ := ((AnalysisDiscipline.quiet z s).safe_intrinsicResult hz body kind
    ⟨rfl, inv⟩ trivial called).of_ok run
  have here := inv (leads.1 unchanged)
  have known : s.calls.key? id = some key := here ▸ called
  rw [intrinsicResult_eq] at run
  obtain ⟨result, b, produced, run⟩ := Attempt.outcome_bind_eq_ok run
  obtain ⟨_, -, alike, -, -⟩ := ((AnalysisDiscipline.quiet z s).safe_produced hz calls ⟨rfl, inv⟩
    trivial called).of_ok produced
  have cases := produced_cases hz calls called (sound.clean.call known).2 produced
  cases result with
  | none =>
    cases run
    obtain ⟨exits, -, present⟩ | ⟨-, ⟨⟨⟩, -⟩ | ⟨⟨_, ⟨⟩, -⟩, -⟩⟩ := cases
    obtain ⟨state, entry⟩ := Interned.exists_get?_of_key? known
    refine ⟨state, entry, .stays ?_ rfl present⟩
    by_contra marked
    exact calls.not_mem_exits (sound.marks _ _ _ entry (by simpa using marked)) exits
  | some v =>
    obtain ⟨_, c, marking, run⟩ := Attempt.outcome_bind_eq_ok run
    cases run
    obtain ⟨same, state, held, marked⟩ :=
      Store.returns_of_markReturns (outcome_onStore_eq_ok marking) unchanged
    rw [alike.2 (same ▸ unchanged)] at held
    refine ⟨state, Interned.get?_of_key?_of_state? known held, ?_⟩
    obtain ⟨-, ⟨⟩, -⟩ | ⟨-, ⟨nothing, absent⟩ | ⟨there, present⟩⟩ := cases
    · exact .lost marked nothing absent
    · exact .returns marked there present

/-- In a store that stays as it is, what a call yields accords with its mark. -/
theorem callResult_quiet (sound : s.Sound z.view) (called : a.store.calls.key? id = some key)
    (inv : a.store.change = none → a.store = s)
    (run : (z.callResult id).outcome a = (.ok r, a')) (unchanged : a'.store.change = none) :
    ∃ state, s.calls.get? id = some (key, state) ∧ z.view.Accords key state r := by
  unfold callResult at run
  obtain ⟨_, _, ⟨⟩, run⟩ := Attempt.outcome_bind_eq_ok run
  obtain ⟨_, found, run⟩ := Attempt.outcome_lift_bind_eq_ok run
  cases called.symm.trans (Store.key?_of_callKey found)
  split at run
  · rename_i intrinsic
    simp only [Bool.and_eq_true, Bool.not_eq_true', decide_eq_true_eq] at intrinsic
    exact intrinsicResult_quiet hz sound intrinsic.1 intrinsic.2 called inv run unchanged
  · rename_i code
    obtain ⟨state, held, run⟩ := Attempt.outcome_lift_bind_eq_ok run
    -- Only a call of an intrinsic reads an absent array, and this is not one.
    have present (absent : z.view.ReadsAbsent key) : False := by
      refine code ?_
      rw [absent.reads.body, absent.reads.kind]
      rfl
    have entry := Interned.get?_of_key?_of_state? called (Store.state?_of_callState held)
    cases marked : state.returns with
    | false =>
      rw [marked] at run
      cases run
      exact ⟨state, inv unchanged ▸ entry, .stays marked rfl present⟩
    | true =>
      rw [marked] at run
      cases pre : key.pre with
      | true =>
        rw [pre] at run
        cases run
        exact ⟨state, inv unchanged ▸ entry, .returns marked ⟨.unit, rfl, by simp⟩ present⟩
      | false =>
        rw [pre] at run
        obtain ⟨v, left, run⟩ := Attempt.outcome_lift_bind_eq_ok run
        cases run
        rw [inv unchanged] at entry left
        have there := routineResult_ne_noValue sound.clean left
        exact ⟨state, entry, .returns marked ⟨v, rfl, there⟩ present⟩

/-- In a store that stays as it is, what a caller sees of a call accords with the mark of the call.
-/
theorem outcomeOf_quiet (sound : s.Sound z.view) {e : Entry}
    (ahead : (AnalysisDiscipline.quiet z s).EntersAhead a e) {answer : Option Value}
    (run : z.outcomeOf e = (.ok answer, a')) (unchanged : a'.store.change = none) :
    ∃ id state result, s.calls.get? id = some (e.key, state) ∧
      z.view.Accords e.key state result ∧ answer = result.filter (· ≠ .noValue) := by
  rw [outcomeOf_eq ahead.env ahead.needsCode] at run
  obtain ⟨id, b, made, run⟩ := Attempt.outcome_bind_eq_ok run
  obtain ⟨result, _, called, run⟩ := Attempt.outcome_bind_eq_ok run
  cases run
  obtain ⟨_, -, inv⟩ := ahead.alike
  obtain ⟨_, -, alike, -, known, -⟩ := ((AnalysisDiscipline.quiet z s).safe_newCall ⟨rfl, inv⟩
    ahead.key ahead.caller.call (.access ahead.caller.called ahead.env ahead.ready)).of_ok made
  obtain ⟨state, entry, accords⟩ := callResult_quiet hz sound known alike.2 called unchanged
  exact ⟨id, state, result, entry, accords, rfl⟩

/-- A caller continues after a call if the call is marked as returning, and only then. This holds of
every call that an instruction makes in the pass that reports, with the marks that the report has.
There is one exception, the read of an array that is absent: it is marked, but its caller does not
continue. -/
theorem run_continues_iff {patience : Nat} {final : Analysis}
    (run : z.run patience {} = some (.ok final)) {act : Activation} {visit : Visit Analysis Value}
    (visited : (act, visit) ∈ z.reportVisits patience {}) {e : Entry}
    (he : e ∈ z.entriesOfVisit act visit) :
    ∃ id state answer mid, final.store.calls.get? id = some (e.key, state) ∧
      z.outcomeOf e = (.ok answer, mid) ∧ answer ≠ some .noValue ∧
      (answer.isSome = true ↔ state.returns = true ∧ ¬z.view.ReadsAbsent e.key) ∧
      (z.view.ReadsAbsent e.key → state.returns = true) := by
  obtain ⟨sound, -⟩ := tracing_of_reaches hz (reaches_run run)
  obtain ⟨settled, settles, reports⟩ := run_eq_ok run
  obtain ⟨swept, sweeps, rfl⟩ := report_eq_ok reports
  unfold reportVisits at visited
  rw [settles] at visited
  obtain ⟨kept, unchanged, -⟩ := sweep_quiet hz sweeps
  dsimp only at sound kept ⊢
  rw [kept] at sound ⊢
  obtain ⟨⟨ahead, good⟩, done⟩ := seen_of_sweep_quiet hz sweeps visited
  obtain ⟨ahead, answer, mid, entered, leads⟩ :=
    AnalysisDiscipline.entered_of_visit _ hz ahead good done he
  obtain ⟨id, state, result, entry, accords, rfl⟩ :=
    outcomeOf_quiet hz sound ahead entered (leads.1 unchanged)
  refine ⟨id, state, _, mid, entry, entered, by simp [Option.filter_eq_some_iff], ?_⟩
  rw [isSome_filter_iff]
  cases accords with
  | returns marked there present =>
    exact ⟨⟨fun _ => ⟨marked, present⟩, fun _ => there⟩, fun absent => absurd absent present⟩
  | lost marked nothing absent =>
    refine ⟨⟨fun there => ?_, fun present => absurd absent present.2⟩, fun _ => marked⟩
    obtain ⟨v, rfl, there⟩ := there
    exact absurd (Option.some.inj nothing) there
  | stays unmarked none present =>
    refine ⟨⟨fun there => ?_, fun marked => ?_⟩, fun absent => absurd absent present⟩
    · obtain ⟨v, rfl, -⟩ := there
      cases none
    · rw [unmarked] at marked
      cases marked.1

omit hz

/-- The call that makes a dog yields it and is marked. The precondition that a dog has to meet
before it fetches yields nothing and is not. -/
theorem run_continues_iff_strays :
    ∃ final, strays.run 12 {} = some (.ok final) ∧
      (∃ id key state, final.store.calls.get? id = some (key, state) ∧
        key.clazz = ⟨1⟩ ∧ state.returns = true) ∧
      ∃ id key state, final.store.calls.get? id = some (key, state) ∧
        key.pre = true ∧ state.returns = false := by
  have table : strays.intrinsics = .standard := by simp only [strays]
  obtain ⟨final, run, ⟨⟨act, visit⟩, visited, e, made, clazz, answered⟩,
      ⟨act', visit'⟩, visited', e', made', pre, unanswered⟩ :
      ∃ final, strays.run 12 {} = some (.ok final) ∧
        (∃ p ∈ strays.reportVisits 12 {}, ∃ e ∈ strays.entriesOfVisit p.1 p.2,
          e.key.clazz = ⟨1⟩ ∧ (strays.outcomeOf e).1.toOption = some (some (.object ⟨1⟩))) ∧
        ∃ p ∈ strays.reportVisits 12 {}, ∃ e ∈ strays.entriesOfVisit p.1 p.2,
          e.key.pre = true ∧ (strays.outcomeOf e).1.toOption = some none :=
    exists_run (by decide +kernel)
  obtain ⟨id, state, _, _, entry, entered, -, continues, -⟩ :=
    run_continues_iff table run visited made
  rw [entered] at answered
  cases Option.some.inj answered
  obtain ⟨id', state', _, _, entry', entered', -, continues', -⟩ :=
    run_continues_iff table run visited' made'
  rw [entered'] at unanswered
  cases Option.some.inj unanswered
  refine ⟨final, run, ⟨id, e.key, state, entry, clazz, (continues.1 rfl).1⟩,
    id', e'.key, state', entry', pre, ?_⟩
  by_contra marked
  have body (absent : strays.view.ReadsAbsent e'.key) : False := by
    rw [absent.reads.body] at pre
    cases pre
  cases continues'.2 ⟨by simpa using marked, body⟩

/-- An analysis of a program that reads an array from a field that nothing is ever written to. -/
def lacking : Analyzer where
  view := Program.view
    { clazzes :=
        [ ("main", { kind := .routine, code := some ⟨0⟩ })
        , ("fuzion.sys.array.get", { kind := .intrinsic, args := [⟨2⟩] })
        , ("array", { kind := .field, outer := some ⟨1⟩, result := some ⟨0⟩ })
        , ("unset", { kind := .field, outer := some ⟨0⟩, result := some ⟨0⟩ }) ]
      blocks := [[.current, .current, .call (.fixed ⟨3⟩), .call (.fixed ⟨1⟩), .pop]]
      main := ⟨0⟩
      constString := none }

/-- The read is marked as returning there, but main does not continue after it. -/
theorem not_continues_iff_lacking :
    ∃ final, lacking.run 12 {} = some (.ok final) ∧
      ∃ p ∈ lacking.reportVisits 12 {}, ∃ e ∈ lacking.entriesOfVisit p.1 p.2,
        (lacking.outcomeOf e).1.toOption = some none ∧ final.store.calls.key? ⟨1⟩ = some e.key ∧
          ∃ state ∈ final.store.calls.state? ⟨1⟩, state.returns = true := by
  have table : lacking.intrinsics = .standard := by simp only [lacking]
  have short : lacking.Agrees .own := agrees_own table (by decide +kernel)
  rw [← short.run, ← short.reportVisits, ← short.entriesOfVisit, ← short.outcomeOf]
  exact exists_run (by decide +kernel)

end Analyzer

end ClosedWorld
