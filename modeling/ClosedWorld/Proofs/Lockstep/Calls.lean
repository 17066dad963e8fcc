import ClosedWorld.Proofs.Analysis.Flow
import ClosedWorld.Proofs.Lockstep.Walks

/-!
# Calls in lockstep

In a store at rest every call has nothing left to do. So whatever another analysis does for a call
is mirrored there: what is passed to the frame has been passed to the frame of each call that
mirrors it, and if its code is walked to the end, then all these calls return.

## Main definitions

* `Analyzer.IsOpen`, `Analyzer.AllOpen`: calls that are settled, with nothing but open visits.

## Main statements

* `proceeds_passed`, `proceeds_entered`: what is passed to the frame of a call.
* `proceeds_walkClazz`: the walk of its code.
* `proceeds_analyze`, `proceeds_analyzeAll`: the analysis of calls.
-/

namespace ClosedWorld

/-- The call has nothing left to do, and all visits in its code are open. -/
structure Analyzer.IsOpen (z : Analyzer) (t : Store) (id : CallId) (key : CallKey)
    (state : CallState) : Prop where
  settled : z.IsSettled t id key state
  visits : ∃ b : Analysis, b.store = t ∧
    ∀ visit ∈ visitsOfClazz z.view (z.processor ⟨id, key, state.frame⟩)
      (z.visitsInside ⟨id, key, state.frame⟩) key.clazz key.pre b, visit.IsOpen z.view

/-- All calls that have code are open. -/
def Analyzer.AllOpen (z : Analyzer) (t : Store) : Prop :=
  ∀ {id key state}, t.calls.get? id = some (key, state) →
    (key.pre = true ∨ (z.view.info key.clazz).kind = .routine) → z.IsOpen t id key state

/-! ### What is passed to a frame -/

namespace Store

variable {view : View} {s t : Store} {frame : InstanceId} {clazz : ClazzId}

/-- A field whose frame holds a value, or more, `Absorbs` the value. -/
theorem HoldsAbove.absorbs {field : ClazzId} {v : Value} (holds : t.HoldsAbove frame field v)
    (framed : t.provenance? (.object frame) = some (.created clazz)) :
    t.Absorbs (.field clazz field) v := by
  obtain ⟨fields, w, held, written, below⟩ := holds
  obtain ⟨key, entry⟩ := Interned.exists_get?_of_state? held
  rw [provenance?_object (Interned.key?_of_get? entry)] at framed
  cases framed
  refine ⟨w, ⟨frame, key, fields, entry, rfl, written⟩, fun path item shown => ?_⟩
  rw [← Value.below_iff.1 below]
  exact Value.shows_join.2 (.inl shown)

/-- Passing arguments to a frame keeps a store covered if each of them is `Mirrored` at its field.
-/
theorem proceeds_passArguments (ht : t.IsCoarse) (hs : Covered view t s)
    (framed : s.provenance? (.object frame) = some (.created clazz)) {args : List (ClazzId × Value)}
    (ha : ∀ e ∈ args, Mirrored view t s (.field clazz e.1) e.2) :
    Proceeds view t s ((Analyzer.passArguments (.object frame) args).outcome s).2 := by
  induction args generalizing s with
  | nil => exact .refl hs
  | cons e rest ih =>
    obtain ⟨here, later⟩ := List.forall_mem_cons.1 ha
    unfold Analyzer.passArguments
    refine proceeds_bind ?_ fun _ s' _ proceeds =>
      ih proceeds.covered (proceeds.keeps.provenance? framed) fun e he =>
        (later e he).mono proceeds.keeps
    unfold setField
    exact proceeds_joinField ht hs framed here

end Store

/-- What goes together with the fields in one list has its counterpart in the other one. -/
theorem exists_mem_zip_of_forall₂ {α β : Type} {R : β → β → Prop} {ys ys' : List β}
    (h : List.Forall₂ R ys ys') {xs : List α} {x : α} {y : β} (listed : (x, y) ∈ xs.zip ys) :
    ∃ y', (x, y') ∈ xs.zip ys' ∧ R y y' := by
  induction h generalizing xs with
  | nil =>
    rw [List.zip_nil_right] at listed
    cases listed
  | cons here rests ih =>
    cases xs with
    | nil => cases listed
    | cons x' xs =>
      rcases List.mem_cons.1 listed with ⟨⟨⟩⟩ | listed
      · exact ⟨_, List.mem_cons_self, here⟩
      · obtain ⟨y', listed', related⟩ := ih listed
        exact ⟨y', List.mem_cons_of_mem _ listed', related⟩

/-! ### The visits of calls at rest -/

namespace Analyzer

variable {z : Analyzer} {s : Store} {id : CallId} {key : CallKey} {state : CallState}

/-- Where what is passed has been passed before, the visits in the code are among those of the call.
-/
theorem visitsOfCode_subset {a : Analysis} (held : a.store.calls.get? id = some (key, state))
    (code : key.pre = true ∨ (z.view.info key.clazz).kind = .routine)
    (arity : key.args.length = (z.view.info key.clazz).args.length)
    (passes : (passArguments (.object state.frame)
      ((z.view.info key.clazz).args.zip key.args)).outcome a.store = (.ok (), a.store))
    (enters : ((z.view.info key.clazz).outerRef.elim (pure ())
      (Store.setField · key.target (.object state.frame)) : Updating Unit).outcome a.store =
        (.ok (), a.store)) :
    z.visitsOfCode ⟨id, key, state.frame⟩ a ⊆ z.visitsOfCall id a := by
  intro p hp
  have called : a.store.callKey id = .ok key := by
    obtain ⟨_, known, found⟩ | ⟨unknown, -⟩ := a.store.callKey_cases id
    · cases (Interned.key?_of_get? held).symm.trans known
      exact found
    · cases (Interned.key?_of_get? held).symm.trans unknown
  have framed : a.store.callState id = .ok state := by
    obtain ⟨_, known, found⟩ | ⟨unknown, -⟩ := a.store.callState_cases id
    · cases (Interned.state?_of_get? held).symm.trans known
      exact found
    · cases (Interned.state?_of_get? held).symm.trans unknown
  have kept {step : Updating Unit} (run : step.outcome a.store = (.ok (), a.store)) :
      (onStore step).outcome a = (.ok (), a) := by
    unfold onStore
    rw [Attempt.outcome_within, run]
  unfold visitsOfCall
  refine Attempt.mem_follow.2 ⟨key, a, by rw [called]; rfl, ?_⟩
  rw [if_pos (by simpa using code), if_neg (not_not.2 arity.symm)]
  refine Attempt.mem_follow.2 ⟨state, a, by rw [framed]; rfl, ?_⟩
  refine Attempt.mem_follow.2 ⟨(), a, kept passes, ?_⟩
  dsimp only
  cases outer : (z.view.info key.clazz).outerRef with
  | none => exact hp
  | some field =>
    rw [outer] at enters
    exact Attempt.mem_follow.2 ⟨(), a, kept enters, hp⟩

variable (hz : z.intrinsics = .standard)

include hz

/-- Calls whose analysis changes nothing are settled, and the visits in their code are among those
of the analysis. -/
theorem exists_visits_of_analyzeAll (hs : s.IsRegular z.view.numericKind) (quiet : s.change = none)
    {ids : List CallId} {a a' : Analysis} (run : (z.analyzeAll ids).outcome a = (.ok (), a'))
    (ha : a.store = s) (unchanged : a'.store.change = none) (listed : id ∈ ids)
    (held : s.calls.get? id = some (key, state))
    (code : key.pre = true ∨ (z.view.info key.clazz).kind = .routine) :
    z.IsSettled s id key state ∧ ∃ b : Analysis, b.store = s ∧
      z.visitsOfCode ⟨id, key, state.frame⟩ b ⊆ z.visitsOfCalls ids a := by
  induction ids generalizing a with
  | nil => cases listed
  | cons first rest ih =>
    obtain ⟨b, here, hb, later⟩ := analyzeAll_cons_quiet hz run ha unchanged
    unfold visitsOfCalls
    rcases List.mem_cons.1 listed with rfl | listed
    · have settled := isSettled_of_analyze hz hs quiet here ha hb held code
      obtain ⟨passes, enters, -⟩ := quiet_of_analyze hz quiet here ha hb held code
      subst ha
      exact ⟨settled, a, rfl, fun p hp => List.mem_append_left _
        (visitsOfCode_subset held code settled.arity passes enters hp)⟩
    · obtain ⟨settled, c, hc, subset⟩ := ih later hb listed
      exact ⟨settled, c, hc, fun p hp => List.mem_append_right _
        (Attempt.mem_follow.2 ⟨(), b, here, subset hp⟩)⟩

end Analyzer

/-! ### The analysis of calls -/

/-- If the analysis of a call succeeds, the call is there, and if it has no code, nothing has been
done. -/
theorem Analyzer.exists_of_analyze {z : Analyzer} {id : CallId} {a a' : Analysis}
    (run : (z.analyze id).outcome a = (.ok (), a')) :
    ∃ key state, a.store.calls.get? id = some (key, state) ∧
      (¬(key.pre = true ∨ (z.view.info key.clazz).kind = .routine) → a' = a) := by
  unfold analyze at run
  obtain ⟨_, _, ⟨⟩, run⟩ := Attempt.outcome_bind_eq_ok run
  obtain ⟨key, called, run⟩ := Attempt.outcome_lift_bind_eq_ok run
  obtain ⟨state, held⟩ := Interned.exists_get?_of_key? (Store.key?_of_callKey called)
  refine ⟨key, state, held, fun code => ?_⟩
  dsimp only at run
  rw [if_neg (by simpa using code)] at run
  cases run
  rfl

section analyze

variable {z : Analyzer} {name : String} {truth : Truth} {t : Store} {a a' : Analysis}
  (hz : z.intrinsics = .standard)
  (unsupported : ∀ meaning, IntrinsicTable.standard.find? name ≠ some (.handler meaning))
  (ht : t.Rests z.view)

include hz unsupported ht

omit hz unsupported in
/-- The frame of a settled call holds what is passed to a call that it mirrors. -/
theorem proceeds_passed {id' : CallId} {key key' : CallKey} {frame : InstanceId} {s s' : Store}
    {state' : CallState} (hs : Store.Covered z.view t s)
    (framed : s.provenance? (.object frame) = some (.created key.clazz))
    (framed' : t.provenance? (.object state'.frame) = some (.created key'.clazz))
    (mirrors : Store.KeyMirrors z.view s t key key') (settled : z.IsSettled t id' key' state')
    (passes : (Analyzer.passArguments (.object frame)
      ((z.view.info key.clazz).args.zip key.args)).outcome s = (.ok (), s')) :
    Store.Proceeds z.view t s s' := by
  rw [mirrors.clazz] at framed'
  have args : ∀ e ∈ (z.view.info key.clazz).args.zip key.args,
      Store.Mirrored z.view t s (.field key.clazz e.1) e.2 := by
    rintro ⟨field, v⟩ listed
    obtain ⟨v', listed', mirrors'⟩ := exists_mem_zip_of_forall₂ mirrors.args listed
    rw [← mirrors.clazz] at listed'
    exact mirrors'.mirrored ((settled.args _ listed').absorbs framed')
  have proceeds := Store.proceeds_passArguments ht.coarse hs framed args
  rwa [passes] at proceeds

omit hz unsupported in
/-- The frame of a settled call holds the target of a call that it mirrors. -/
theorem proceeds_entered {id' : CallId} {key key' : CallKey} {frame : InstanceId} {s s' : Store}
    {state' : CallState} (hs : Store.Covered z.view t s)
    (framed : s.provenance? (.object frame) = some (.created key.clazz))
    (framed' : t.provenance? (.object state'.frame) = some (.created key'.clazz))
    (mirrors : Store.KeyMirrors z.view s t key key') (settled : z.IsSettled t id' key' state')
    (enters : ((z.view.info key.clazz).outerRef.elim (pure ())
      (Store.setField · key.target (.object frame)) : Updating Unit).outcome s = (.ok (), s')) :
    Store.Proceeds z.view t s s' := by
  rw [mirrors.clazz] at framed'
  cases outer : (z.view.info key.clazz).outerRef with
  | none =>
    rw [outer] at enters
    obtain rfl : s = s' := congrArg Prod.snd enters
    exact .refl hs
  | some field =>
    rw [outer] at enters
    have holds := settled.target field (by rwa [mirrors.clazz])
    have proceeds := Store.proceeds_joinField ht.coarse hs framed
      (mirrors.target.mirrored (holds.absorbs framed'))
    dsimp only [Option.elim] at enters
    unfold Store.setField at enters
    rwa [enters] at proceeds

/-- If the code of a call is walked to its end, then the calls that mirror it return. -/
theorem proceeds_walkClazz {id id' : CallId} {key key' : CallKey} {frame : InstanceId}
    {state' : CallState} {step : Step Value Unit} (hs : Store.Covered z.view t a.store)
    (framed : a.store.provenance? (.object frame) = some (.created key.clazz))
    (mirrors : Store.KeyMirrors z.view a.store t key key')
    (entry' : t.calls.get? id' = some (key', state')) (opens : z.IsOpen t id' key' state')
    (walks : (walkClazz z.view ((z.answering name truth).processor ⟨id, key, frame⟩) key.clazz
      key.pre).outcome a = (.ok step, a')) :
    Store.Proceeds z.view t a.store a'.store ∧ (step.value.isSome = true → state'.returns = true) := by
  obtain ⟨b, hb, seen⟩ := opens.visits
  obtain ⟨step', b', walks', hb', returns⟩ := opens.settled.code b hb
  rw [mirrors.clazz, mirrors.pre] at walks' seen
  have framed' : t.provenance? (.object state'.frame) = some (.created key'.clazz) :=
    ht.framed id' key' state' entry'
  rw [mirrors.clazz] at framed'
  have hact : ActMirrors z.view t ⟨id, key, frame⟩ ⟨id', key', state'.frame⟩ a.store :=
    ⟨mirrors, framed, framed'⟩
  obtain ⟨proceeds, continues⟩ :=
    (follows_walkClazz hz unsupported ht key.pre hs hb hact seen).of_ok walks walks' hb'
  exact ⟨proceeds, fun reached => returns (continues reached)⟩

/-- The analysis of a call keeps the store covered, if all calls at rest are open. -/
theorem proceeds_analyze (opens : z.AllOpen t) {id : CallId} (hs : Store.Covered z.view t a.store)
    (run : ((z.answering name truth).analyze id).outcome a = (.ok (), a')) :
    Store.Proceeds z.view t a.store a'.store := by
  obtain ⟨key, state, held, idle⟩ := Analyzer.exists_of_analyze run
  by_cases code : key.pre = true ∨ (z.view.info key.clazz).kind = .routine
  · obtain ⟨-, passed, entered, step, walked, passes, enters, walks, marks⟩ :=
      Analyzer.analyze_eq_ok run held code
    obtain ⟨framed, ⟨id', key', known', mirrors⟩, -⟩ := hs.calls id key state held
    have opened {id' : CallId} {key' : CallKey} {state' : CallState}
        (entry' : t.calls.get? id' = some (key', state'))
        (mirrors : Store.KeyMirrors z.view a.store t key key') : z.IsOpen t id' key' state' :=
      opens entry' (by rwa [mirrors.pre, mirrors.clazz])
    obtain ⟨state', entry'⟩ := Interned.exists_get?_of_key? known'
    have settled := (opened entry' mirrors).settled
    have framed' := ht.framed id' key' state' entry'
    have passing := proceeds_passed ht hs framed framed' mirrors settled passes
    have entering := proceeds_entered ht passing.covered (passing.keeps.provenance? framed) framed'
      (mirrors.mono passing.keeps) settled enters
    have walking := passing.trans entering
    have framedThen := walking.keeps.provenance? framed
    obtain ⟨proceeds, -⟩ := proceeds_walkClazz hz unsupported ht walking.covered framedThen
      (mirrors.mono walking.keeps) entry' (opened entry' mirrors) walks
    have reached := walking.trans proceeds
    cases ends : step.value with
    | none =>
      rw [ends] at marks
      cases marks
      exact reached
    | some v =>
      rw [ends] at marks
      have marks := outcome_onStore_eq_ok marks
      have marked := Store.proceeds_markReturns reached.covered
        (reached.keeps.calls _ _ (Interned.key?_of_get? held))
          (fun _ id'' key'' state'' entry'' h => ?_)
      · rw [marks] at marked
        exact reached.trans marked
      -- Several calls at rest may mirror this one, and the walk of each of them reaches its end
      -- too.
      · have before := mirrors.before reached.keeps h
        obtain ⟨-, returns⟩ := proceeds_walkClazz hz unsupported ht walking.covered framedThen
          (before.mono walking.keeps) entry'' (opened entry'' before) walks
        exact returns (by rw [ends]; rfl)
  · rw [idle code]
    exact .refl hs

/-- The analysis of several calls keeps the store covered, if all calls at rest are open. -/
theorem proceeds_analyzeAll (opens : z.AllOpen t) {ids : List CallId}
    (hs : Store.Covered z.view t a.store)
    (run : ((z.answering name truth).analyzeAll ids).outcome a = (.ok (), a')) :
    Store.Proceeds z.view t a.store a'.store := by
  induction ids generalizing a with
  | nil =>
    cases run
    exact .refl hs
  | cons id rest ih =>
    unfold Analyzer.analyzeAll at run
    obtain ⟨_, a₁, first, later⟩ := Attempt.outcome_bind_eq_ok run
    have proceeds := proceeds_analyze hz unsupported ht opens hs first
    exact proceeds.trans (ih proceeds.covered later)

end analyze

end ClosedWorld
