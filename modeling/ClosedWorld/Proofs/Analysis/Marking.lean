import ClosedWorld.Proofs.Analysis.Entries
import ClosedWorld.Proofs.Analysis.Sweeps

/-!
# Who marks calls as returning

A call of an intrinsic is marked when it is asked for its result. All other calls are marked when
their own walk has come to its end, and never by what happens in the walk of another call.

## Main definitions

* `View.CallsBody`: calls of the bodies of intrinsics.
* `Store.Marked`: a call is marked as returning.
* `Store.MarksWithin`: only intrinsics and certain calls are marked.
* `AnalysisDiscipline.marking`: the discipline of such stores.

## Main statements

* `Analyzer.marksWithin_walkOfCall`, `Analyzer.marksWithin_analyze`: the walk of a call marks none,
  and its analysis marks no other one.
* `Analyzer.marked_of_outcomeOf`: what a caller is told of a call was known before its own walk.
-/

namespace ClosedWorld

/-- The call is one of the body of an intrinsic. -/
def View.CallsBody (view : View) (key : CallKey) : Prop :=
  key.pre = false ∧ (view.info key.clazz).kind = .intrinsic

instance (view : View) : DecidablePred view.CallsBody := fun _ => instDecidableAnd

/-! ### Marks -/

namespace Store

/-- The call is marked as returning. -/
def Marked (s : Store) (id : CallId) : Prop :=
  ∃ key state, s.calls.get? id = some (key, state) ∧ state.returns = true

/-- Keys stay, and a call that is marked in the second store is marked in the first one, unless it
is one of those that have been walked or of an intrinsic. -/
structure MarksWithin (view : View) (walked : CallId → Prop) (s t : Store) : Prop where
  keys : s.calls.KeepsKeys t.calls
  marked : ∀ id, t.Marked id →
    s.Marked id ∨ walked id ∨ ∃ key, t.calls.key? id = some key ∧ view.CallsBody key

namespace MarksWithin

variable {view : View} {walked : CallId → Prop} {s t u : Store}

/-- Nothing is marked in between two stores with the same calls. -/
theorem of_calls (same : t.calls = s.calls) : MarksWithin view walked s t where
  keys := same ▸ Interned.keepsKeys_refl s.calls
  marked id marked := by
    unfold Marked at marked ⊢
    rw [same] at marked
    exact .inl marked

/-- Nothing is marked between a store and itself. -/
theorem refl (s : Store) : MarksWithin view walked s s := of_calls rfl

/-- What is marked in between two stores and then two more is marked within the same calls. -/
theorem trans (h : MarksWithin view walked s t) (h' : MarksWithin view walked t u) :
    MarksWithin view walked s u where
  keys := h.keys.trans h'.keys
  marked id marked := by
    obtain marked | within | intrinsic := h'.marked id marked
    · obtain marked | within | ⟨key, known, body⟩ := h.marked id marked
      · exact .inl marked
      · exact .inr (.inl within)
      · exact .inr (.inr ⟨key, h'.keys id key known, body⟩)
    · exact .inr (.inl within)
    · exact .inr (.inr intrinsic)

/-- More calls may be allowed to be marked. -/
theorem mono {walked' : CallId → Prop} (sub : ∀ id, walked id → walked' id)
    (h : MarksWithin view walked s t) : MarksWithin view walked' s t where
  keys := h.keys
  marked id marked := (h.marked id marked).imp_right (.imp_left (sub id))

/-- A new call is not marked. -/
theorem addCall (s : Store) (key : CallKey) (frame : InstanceId) (origin : Option CallId) :
    MarksWithin view walked s (s.addCall key frame origin) where
  keys := Interned.keepsKeys_push s.calls key ⟨frame, false, origin⟩
  marked id := by
    rintro ⟨key', state, entry, returns⟩
    change (s.calls.push key ⟨frame, false, origin⟩).get? id = _ at entry
    rw [Interned.get?_push] at entry
    split at entry
    · cases entry
      cases returns
    · exact .inl ⟨key', state, entry, returns⟩

/-- Marking a call marks no other one. -/
theorem putReturns {id : CallId} {key : CallKey} (known : s.calls.key? id = some key)
    (state : CallState) (marks : walked id ∨ view.CallsBody key) :
    MarksWithin view walked s (s.putReturns id state) where
  keys := Interned.keepsKeys_set s.calls id { state with returns := true }
  marked id' := by
    rintro ⟨key', state', entry, returns⟩
    change (s.calls.set id { state with returns := true }).get? id' = _ at entry
    rw [Interned.get?_set] at entry
    split at entry
    · rename_i same
      subst same
      have kept := Interned.keepsKeys_set s.calls id' { state with returns := true } id' key known
      exact .inr (marks.imp_right fun body => ⟨key, kept, body⟩)
    · exact .inl ⟨key', state', entry, returns⟩

end MarksWithin

end Store

/-! ### The discipline -/

namespace StoreDiscipline

variable (view : View) (walked : CallId → Prop)

/-- Calls are marked if they are of intrinsics or among those that have been walked. -/
def markingTerms : StoreTerms where
  Inv _ := True
  Leads := Store.MarksWithin view walked
  Allowed _ := True
  Good _ _ := True
  GoodCall _ _ := True
  GoodEnv _ _ := True
  Called s id key := s.calls.key? id = some key
  Ready _ _ := True
  Known _ := True
  GoodArity _ := True
  Walked := walked
  leads_refl := .refl
  leads_trans := .trans
  good_mono _ _ := trivial
  goodCall_mono _ _ := trivial
  goodEnv_mono _ _ := trivial
  called_mono h := h.keys _ _

variable {view walked} in
/-- A store in which only such calls have been marked is `Kept`, in the terms of this discipline. -/
theorem markingTerms_kept {s t : Store} (h : s.MarksWithin view walked t) :
    (markingTerms view walked).Kept s t :=
  ⟨trivial, h⟩

/-- Calls may be made with any key, as only marks are of interest. -/
theorem goodKey_marking (s : Store) (key : CallKey) :
    (markingTerms view walked).GoodKey view s key where
  known := trivial
  target := trivial
  args _ _ := trivial
  arity := trivial
  env _ _ := trivial
  checked _ := .inr trivial

/-- Nothing is said of values, and nothing of faults. -/
def marking : StoreDiscipline view where
  toStoreTerms := markingTerms view walked
  good_join _ _ := trivial
  good_atom _ _ := trivial
  good_of_atoms_eq_nil _ _ := trivial
  good_of_boxed _ := trivial
  good_of_tagged _ := trivial
  good_boxed _ _ _ := trivial
  good_tagged _ _ _ := trivial
  good_undefined _ := trivial
  good_unit _ := trivial
  good_bool _ _ := trivial
  good_any _ _ := trivial
  good_constant _ _ _ := trivial
  good_count _ _ _ _ _ _ := trivial
  known_reference _ _ := trivial
  known_layout _ _ _ := trivial
  known_mentioned _ _ := trivial
  goodArity _ := trivial
  goodArity_zero := trivial
  ready _ := trivial
  allowed_noResultField _ _ _ _ _ := trivial
  allowed_missingInstruction _ _ := trivial
  nests_or_allowed := .inr fun _ => trivial
  good_object _ _ := trivial
  good_array _ _ := trivial
  goodEnv_of_key _ _ := trivial
  goodCall_of_key _ _ := trivial
  called_of_key _ known := known
  goodContext_none _ _ := trivial
  goodContext_of_key _ _ _ _ := trivial
  known_field _ _ _ := trivial
  good_field _ _ _ := trivial
  loose_elements _ _ := .inr trivial
  good_binding _ _ := trivial
  goodEnv_outer _ _ _ := trivial
  good_default _ _ := trivial
  goodKey {s _ key} _ _ := goodKey_marking view walked s key
  good_frame _ _ := trivial
  allowed_of_isPlain _ := trivial
  allowed_unknownInstance _ _ _ := trivial
  allowed_unknownArray _ _ _ := trivial
  allowed_unknownEnv _ _ _ := trivial
  allowed_unknownCall _ _ _ := trivial
  kept_addInstance _ _ _ _ := markingTerms_kept (.of_calls rfl)
  kept_putField _ _ _ _ _ _ := markingTerms_kept (.of_calls rfl)
  kept_addArray _ _ _ := markingTerms_kept (.of_calls rfl)
  kept_putElements _ _ _ _ _ := markingTerms_kept (.of_calls rfl)
  kept_addBinding _ _ _ _ _ := markingTerms_kept (.of_calls rfl)
  kept_putBinding _ _ _ _ := markingTerms_kept (.of_calls rfl)
  kept_putDefault _ _ _ _ := markingTerms_kept (.of_calls rfl)
  kept_addCall _ _ _ _ _ := markingTerms_kept (.addCall ..)
  kept_putReturns {_ _ state _} _ _ _ _ known may code := by
    refine markingTerms_kept (.putReturns known state ?_)
    cases may with
    | code has => exact .inl (code has)
    | intrinsic calls _ => exact .inr ⟨calls.body, calls.kind⟩

end StoreDiscipline

/-- The discipline of marks, for analyses under way. -/
abbrev AnalysisDiscipline.marking (z : Analyzer) (walked : CallId → Prop) : AnalysisDiscipline z :=
  .ofStore (StoreDiscipline.marking z.view walked) z.config.reportIntrinsics

/-! ### Steps of an analysis -/

namespace Analyzer

variable {z : Analyzer} {a a' : Analysis} {id : CallId}

/-- What comes before the analyses of a sweep marks nothing. -/
theorem marksWithin_begun (z : Analyzer) (walked : CallId → Prop) (a : Analysis) :
    a.store.MarksWithin z.view walked (z.begun a).store :=
  (AnalysisDiscipline.safe_begun (StoreDiscipline.marking z.view walked) trivial
    (StoreDiscipline.goodKey_marking ..)).2

/-- A call that cannot be marked is left alone. -/
theorem store_of_markIf_error {ended : Bool} {fault : Fault}
    (failed : (markIf id ended).outcome a = (.error fault, a')) : a'.store = a.store := by
  cases ended with
  | false => cases failed
  | true =>
    have failed : (onStore (Store.markReturns id)).outcome a = (.error fault, a') := failed
    unfold onStore at failed
    rw [Attempt.outcome_within] at failed
    obtain ⟨-, run⟩ | ⟨_, -, ⟨-, run⟩ | ⟨-, run⟩⟩ := a.store.markReturns_cases id
    · rw [run] at failed
      cases failed
      rfl
    · rw [run] at failed
      cases failed
    · rw [run] at failed
      cases failed

/-- A call yields something only if it is marked already or of an intrinsic. -/
theorem marked_of_callResult {key : CallKey} (known : a.store.calls.key? id = some key) {v : Value}
    (run : (z.callResult id).outcome a = (.ok (some v), a')) :
    z.view.CallsBody key ∨ a.store.Marked id := by
  unfold callResult at run
  obtain ⟨_, _, ⟨⟩, run⟩ := Attempt.outcome_bind_eq_ok run
  obtain ⟨_, found, run⟩ := Attempt.outcome_lift_bind_eq_ok run
  cases known.symm.trans (Store.key?_of_callKey found)
  split at run
  · rename_i intrinsic
    simp only [Bool.and_eq_true, Bool.not_eq_true', decide_eq_true_eq] at intrinsic
    exact .inl intrinsic
  · obtain ⟨state, held, run⟩ := Attempt.outcome_lift_bind_eq_ok run
    have entry := Interned.get?_of_key?_of_state? known (Store.state?_of_callState held)
    cases marked : state.returns with
    | true => exact .inr ⟨key, state, entry, marked⟩
    | false =>
      rw [marked] at run
      cases run

variable (hz : z.intrinsics = .standard)

include hz

/-- The walk of a call marks no call but those of intrinsics. -/
theorem marksWithin_walkOfCall (id : CallId) (a : Analysis) :
    a.store.MarksWithin z.view (fun _ => False) ((z.walkOfCall id).outcome a).2.store :=
  ((AnalysisDiscipline.marking z fun _ => False).seen_walkOfCall hz (a := a) (b := a)
    ⟨rfl, trivial⟩ trivial).safe.leads_of_outcome rfl |>.1

/-- The analysis of a call marks no other call but those of intrinsics, and if it fails it does not
mark the call either. -/
theorem marksWithin_analyze (id : CallId) (a : Analysis) :
    a.store.MarksWithin z.view (fun c => c = id ∧ ((z.analyze id).outcome a).1 = .ok ())
      ((z.analyze id).outcome a).2.store := by
  cases run : (z.analyze id).outcome a with
  | mk result a' =>
    cases result with
    | ok _ =>
      have safe := (AnalysisDiscipline.marking z (· = id)).safe_analyze hz (a := a) (b := a)
        ⟨rfl, trivial⟩ trivial rfl
      exact (safe.leads_of_outcome run).1.mono fun _ same => ⟨same, rfl⟩
    | error fault =>
      have walks := marksWithin_walkOfCall hz id a
      rw [analyze_eq, Attempt.outcome_bind] at run
      revert run walks
      obtain ⟨_ | ended, b⟩ := (z.walkOfCall id).outcome a
      · rintro ⟨⟩ walks
        exact walks.mono fun _ => False.elim
      · intro failed walks
        have kept : a'.store = b.store := store_of_markIf_error failed
        rw [kept]
        exact walks.mono fun _ => False.elim

/-- The walk of a call leads to the calls that it makes, and none is marked up to there but those of
intrinsics. -/
theorem entersAhead_of_visitsOfCall {t : Activation × Visit Analysis Value}
    (visited : t ∈ z.visitsOfCall id a) {e : Entry} (he : e ∈ z.entriesOfVisit t.1 t.2) :
    (AnalysisDiscipline.marking z fun _ => False).EntersAhead a e := by
  have called : (AnalysisDiscipline.marking z fun _ => False).GoodCall a.store id := trivial
  have seen := (AnalysisDiscipline.marking z fun _ => False).seen_walkOfCall hz (a := a) (b := a)
    ⟨rfl, trivial⟩ called
  obtain ⟨ahead, good⟩ := seen.ahead t visited
  exact AnalysisDiscipline.entersAhead_of_visit _ hz ahead good he

/-- What a caller is told of a call was known when the analysis of the caller began, unless the call
is of an intrinsic. -/
theorem marked_of_outcomeOf {t : Activation × Visit Analysis Value}
    (visited : t ∈ z.visitsOfCall id a) {e : Entry} (he : e ∈ z.entriesOfVisit t.1 t.2) {v : Value}
    (run : z.outcomeOf e = (.ok (some v), a')) :
    z.view.CallsBody e.key ∨
      ∃ callee, a.store.calls.key? callee = some e.key ∧ a.store.Marked callee := by
  let D := AnalysisDiscipline.marking z fun _ => False
  have ahead : D.EntersAhead a e := entersAhead_of_visitsOfCall hz visited he
  rw [outcomeOf_eq ahead.env ahead.needsCode] at run
  obtain ⟨callee, b, made, run⟩ := Attempt.outcome_bind_eq_ok run
  obtain ⟨result, c, called, run⟩ := Attempt.outcome_bind_eq_ok run
  obtain ⟨answered, rfl⟩ := Prod.mk.inj run
  obtain ⟨rfl, -⟩ := Option.filter_eq_some_iff.1 (Except.ok.inj answered)
  have known := Setting.key?_of_newCall made
  have leads := ahead.leads.1.trans ((D.safe_newCall ⟨rfl, trivial⟩ ahead.key ahead.caller.call
    (.access ahead.caller.called ahead.env ahead.ready)).leads_of_outcome made).1
  obtain body | marked := marked_of_callResult known called
  · exact .inl body
  obtain ⟨key, state, entry, returns⟩ | ⟨⟨⟩⟩ | ⟨key, known', body⟩ := leads.marked callee marked
  · have held := Interned.key?_of_get? entry
    cases known.symm.trans (leads.keys callee key held)
    exact .inr ⟨callee, held, _, state, entry, returns⟩
  · cases known.symm.trans known'
    exact .inl body

end Analyzer

end ClosedWorld
