import ClosedWorld.Analysis.Report
import ClosedWorld.Proofs.Analysis.Entries
import ClosedWorld.Proofs.Analysis.Fixpoint

/-!
# Devirtualization

The pass that reports comes by every dynamic call with all of its receivers and in the final store.
Which clazz it runs for a receiver is recorded, and if it runs none for any of them, this is an
error. So where a report is without errors, a dynamic call runs what was recorded for its site.

A receiver that none of the target types is for goes unnoticed next to one that has a target.

## Main definitions

* `Store.receiverClazz?`: the clazz that an atom is dispatched by.
* `Access.pairs`: the pairs of a target and an atom that a dynamic access comes by.
* `Analyzer.Dispatches`: a visit at which a dynamic call is dispatched.

## Main statements

* `Analyzer.accessEach_resolves`, `Analyzer.access_resolves`: what a dynamic access records.
* `Analyzer.run_resolves`: a report without errors tells what dynamic calls run.
-/

namespace ClosedWorld

/-- The clazz that an atom is dispatched by, if it is an instance or a box. -/
def Store.receiverClazz? (s : Store) : (atom : Value) → Option ClazzId
  | .object id => (s.instances.key? id).map InstanceKey.clazz
  | .boxed _ _ refClazz => some refClazz
  | _ => none

/-- An atom is found to be a receiver of a type just if it is dispatched by the clazz `type`. -/
theorem Analyzer.receives_eq_ok {s : Store} {type : ClazzId} {atom : Value} {received : Bool}
    (h : receives s type atom = .ok received) :
    received = true ↔ s.receiverClazz? atom = some type := by
  cases atom with
  | object id =>
    unfold receives Store.instanceKey at h
    unfold Store.receiverClazz?
    dsimp only at h ⊢
    cases key : s.instances.key? id with
    | none =>
      rw [key] at h
      cases h
    | some k =>
      rw [key] at h
      cases h
      simp
  | boxed content valueClazz refClazz =>
    cases h
    simp [Store.receiverClazz?]
  | _ =>
    cases h
    simp [Store.receiverClazz?]

/-- Whether an atom is a receiver of a type is told by the clazz that it is dispatched by, if it is
no unknown instance. -/
theorem Analyzer.receives_eq_decide {s : Store} {atom : Value}
    (known : ∀ id, atom = .object id → ∃ key, s.instances.key? id = some key) (type : ClazzId) :
    receives s type atom = .ok (decide (s.receiverClazz? atom = some type)) := by
  obtain ⟨received, told⟩ : ∃ received, receives s type atom = .ok received := by
    cases atom with
    | object id =>
      obtain ⟨key, found⟩ := known id rfl
      refine ⟨key.clazz = type, ?_⟩
      show (s.instanceKey id >>= fun key => pure (decide (key.clazz = type))) = _
      unfold Store.instanceKey
      rw [found]
      rfl
    | _ => exact ⟨_, rfl⟩
  rw [told]
  exact congrArg Except.ok (Bool.eq_iff_iff.2 ((receives_eq_ok told).trans decide_eq_true_iff.symm))

/-- The pairs of a target of the access and an atom of the value, in the order in which a dynamic
access comes by them. -/
def Access.pairs (access : Access) (value : Value) : List ((ClazzId × ClazzId) × Value) :=
  access.targets.flatMap fun t => value.atoms.map fun atom => (t, atom)

/-- The pairs of an access are those of one of its targets and one of the atoms. -/
theorem Access.mem_pairs {access : Access} {value : Value} {p : (ClazzId × ClazzId) × Value} :
    p ∈ access.pairs value ↔ p.1 ∈ access.targets ∧ p.2 ∈ value.atoms := by
  obtain ⟨t, atom⟩ := p
  simp [pairs]

/-- A dynamic access comes by all its pairs, and it is an error if it finds no receiver. -/
theorem Analyzer.access_eq_accessEach {z : Analyzer} {act : Activation} {site : Site} {access : Access}
    {target : Value} {mode : AccessMode} (dynamic : access.dynamic = true) :
    z.access act site access target mode =
      z.accessEach act site mode (access.pairs target) false none >>= fun answer => do
        if !answer.1 then
          diagnose (.noDispatchTarget site (z.view.name access.accessed) target.text)
        return answer.2 := by
  unfold Analyzer.access
  rw [dynamic]
  rfl

/-- While findings are recorded, `diagnose` records them. -/
theorem Analysis.mem_diagnostics_diagnose {a : Analysis} (h : a.reporting = true) (d : Diagnostic) :
    d ∈ ((diagnose d).outcome a).2.diagnostics := by
  unfold diagnose
  rw [Attempt.outcome_modify]
  dsimp only
  by_cases known : d ∈ a.diagnostics
  · rw [if_neg (by simp [known])]
    exact known
  · rw [if_pos (by simp [known, h])]
    exact List.mem_append_right _ List.mem_cons_self

namespace Report

variable {r : Report} {site : Site} {clazz clazz' : ClazzId}

/-- A clazz that was resolved at a site is among the resolved targets of the report. -/
theorem exists_resolvedTargets (h : clazz ∈ r.analysis.resolved site) :
    ∃ clazzes, r.resolvedTargets site = some clazzes ∧ clazz ∈ clazzes := by
  unfold Analysis.resolved at h
  unfold resolvedTargets
  cases recorded : r.analysis.dispatch.find? site with
  | none =>
    rw [recorded] at h
    cases h
  | some clazzes =>
    rw [recorded] at h
    exact ⟨clazzes, rfl, h⟩

/-- If a site is monomorphic, then its target is the only one that is resolved there. -/
theorem eq_of_monomorphicTarget {clazzes : List ClazzId}
    (single : r.monomorphicTarget site = some clazz) (h : r.resolvedTargets site = some clazzes)
    (hc : clazz' ∈ clazzes) : clazz' = clazz := by
  unfold monomorphicTarget at single
  rw [h] at single
  match clazzes, single with
  | [_], rfl => exact List.mem_singleton.1 hc

variable (r site) in
/-- Whatever there is in a target has a target type among those of an access, and what it goes to is
resolved at the site. -/
def Covers (access : Access) (target : Value) : Prop :=
  ∀ atom ∈ target.atoms, atom ≠ .noValue → atom ≠ .undefined →
    ∃ t ∈ access.targets, r.store.receiverClazz? atom = some t.1 ∧
      ∃ clazzes ∈ r.resolvedTargets site, t.2 ∈ clazzes

instance (access : Access) (target : Value) : Decidable (r.Covers site access target) :=
  inferInstanceAs (Decidable (∀ atom ∈ target.atoms, atom ≠ .noValue → atom ≠ .undefined →
    ∃ t ∈ access.targets, r.store.receiverClazz? atom = some t.1 ∧
      ∃ clazzes ∈ r.resolvedTargets site, t.2 ∈ clazzes))

end Report

/-- The dynamic call that is visited, with its target. -/
def Visit.dynamicCall? (view : View) (visit : Visit Analysis Value) : Option (Access × Value) :=
  match visit.instr with
  | .call access =>
    if access.dynamic then visit.stack[view.arity access]?.map fun target => (access, target)
    else none
  | _ => none

/-- A visit of a dynamic call is one of a call instruction with a dynamic access and a target on the
stack. -/
theorem Visit.of_dynamicCall? {view : View} {visit : Visit Analysis Value} {access : Access}
    {target : Value} (h : visit.dynamicCall? view = some (access, target)) :
    visit.instr = .call access ∧ access.dynamic = true ∧
      visit.stack[view.arity access]? = some target := by
  unfold dynamicCall? at h
  split at h
  · rename_i access' instr
    split at h
    · rename_i dynamic
      obtain ⟨x, operand, same⟩ := Option.map_eq_some_iff.1 h
      cases same
      exact ⟨instr, dynamic, operand⟩
    · cases h
  · cases h

namespace Analyzer

variable {z : Analyzer} (hz : z.intrinsics = .standard) {act : Activation} {s : Store}
  {a a' : Analysis}

include hz

/-- An access of one clazz only depends on the store. -/
theorem safe_accessOne_quiet {b : Analysis} (same : b.store = a.store) (site : Site) (target : Value)
    (mode : AccessMode) (clazz : ClazzId) (inv : a.store.change = none → a.store = s) :
    (AnalysisDiscipline.quiet z s).Sound (fun _ _ => True)
      (z.accessOne act site target mode clazz) a b :=
  ((AnalysisDiscipline.quiet z s).safe_accessOne hz site ⟨same, inv⟩
    (AnalysisDiscipline.goodActivation_quiet ..) trivial (AnalysisDiscipline.goodMode_quiet ..)
    trivial (AnalysisDiscipline.readyMode_quiet ..)).mono fun _ _ _ _ => trivial

/-- Accessing one clazz after the other only depends on the store. -/
theorem safe_accessEach_quiet (site : Site) (mode : AccessMode)
    (pairs : List ((ClazzId × ClazzId) × Value)) (found : Bool) (sofar : Option Value)
    (inv : a.store.change = none → a.store = s) :
    (AnalysisDiscipline.quiet z s).Sound (fun _ _ => True)
      (z.accessEach act site mode pairs found sofar) a a :=
  ((AnalysisDiscipline.quiet z s).safe_accessEach hz site found sofar ⟨rfl, inv⟩
    (AnalysisDiscipline.goodActivation_quiet ..) (AnalysisDiscipline.goodMode_quiet ..)
    (fun _ _ => AnalysisDiscipline.goodPair_quiet ..) fun _ _ => trivial).mono fun _ _ _ _ => trivial

/-- Each pair of a target and an atom that the target is for is recorded, as long as the store does
not change. -/
theorem accessEach_resolves {site : Site} {mode : AccessMode}
    {pairs : List ((ClazzId × ClazzId) × Value)} {found : Bool} {sofar : Option Value}
    {result : Bool × Option Value}
    (run : (z.accessEach act site mode pairs found sofar).outcome a = (.ok result, a'))
    (inv : a.store.change = none → a.store = s) (unchanged : a'.store.change = none) :
    (∀ p ∈ pairs, s.receiverClazz? p.2 = some p.1.1 → p.1.2 ∈ a'.resolved site) ∧
      (result.1 = true → found = true ∨ ∃ p ∈ pairs, s.receiverClazz? p.2 = some p.1.1) := by
  induction pairs generalizing a found sofar with
  | nil =>
    cases run
    exact ⟨List.forall_mem_nil _, .inl⟩
  | cons pair rest ih =>
    obtain ⟨⟨type, clazz⟩, atom⟩ := pair
    -- No change is noted at the end, so none was noted on the way.
    have here : a.store = s := by
      obtain ⟨_, -, -, leads, -⟩ := (safe_accessEach_quiet hz site mode _ found sofar inv).of_ok run
      exact inv (leads.1 unchanged)
    unfold accessEach at run
    obtain ⟨_, _, current, run⟩ := Attempt.outcome_bind_eq_ok run
    cases current
    obtain ⟨received, told, run⟩ := Attempt.outcome_lift_bind_eq_ok run
    have receives := receives_eq_ok told
    rw [here] at receives
    cases received with
    | false =>
      obtain ⟨resolved, some⟩ := ih run inv
      refine ⟨List.forall_mem_cons.2 ⟨fun receiver => ?_, resolved⟩, fun h => ?_⟩
      · cases receives.2 receiver
      · refine (some h).imp_right ?_
        rintro ⟨p, hp, receiver⟩
        exact ⟨p, List.mem_cons_of_mem _ hp, receiver⟩
    | true =>
      rw [if_pos rfl] at run
      obtain ⟨_, a₁, recorded, run⟩ := Attempt.outcome_bind_eq_ok run
      obtain ⟨answer, a₂, accessed, run⟩ := Attempt.outcome_bind_eq_ok run
      have known := Analysis.Noted.resolved_recordDispatch a site clazz site
      rw [if_pos rfl, recorded] at known
      obtain ⟨_, -, alike₁, -, -⟩ :=
        ((AnalysisDiscipline.quiet z s).safe_recordDispatch site clazz ⟨rfl, inv⟩).of_ok recorded
      obtain ⟨_, -, alike₂, leads₂, -⟩ :=
        (safe_accessOne_quiet hz rfl site atom mode clazz alike₁.2).of_ok accessed
      obtain ⟨_, -, -, leads₃, -⟩ :=
        (safe_accessEach_quiet hz site mode rest true _ alike₂.2).of_ok run
      obtain ⟨resolved, -⟩ := ih run alike₂.2
      refine ⟨List.forall_mem_cons.2 ⟨fun _ => ?_, resolved⟩, fun _ => .inr ?_⟩
      · apply leads₃.2.resolved site
        apply leads₂.2.resolved site
        rw [known]
        exact Ascending.mem_insert.2 (.inl rfl)
      · exact ⟨((type, clazz), atom), List.mem_cons_self, receives.1 rfl⟩

/-- A dynamic access records where the atoms of its target go, and that it is an error if none of
them goes anywhere. -/
theorem access_resolves {site : Site} {access : Access} {target : Value} {mode : AccessMode}
    {answer : Option Value} (dynamic : access.dynamic = true)
    (run : (z.access act site access target mode).outcome a = (.ok answer, a'))
    (inv : a.store.change = none → a.store = s) (unchanged : a'.store.change = none) :
    (∀ atom ∈ target.atoms, ∀ t ∈ access.targets, s.receiverClazz? atom = some t.1 →
        t.2 ∈ a'.resolved site) ∧
      ((∃ atom ∈ target.atoms, ∃ t ∈ access.targets, s.receiverClazz? atom = some t.1) ∨
        (a.reporting = true → ∃ d ∈ a'.diagnostics, d.isError = true)) := by
  rw [access_eq_accessEach dynamic] at run
  obtain ⟨⟨found, result⟩, a₁, accessed, run⟩ := Attempt.outcome_bind_eq_ok run
  have paired {atom : Value} {t : ClazzId × ClazzId} (ha : atom ∈ target.atoms)
      (ht : t ∈ access.targets) : (t, atom) ∈ access.pairs target := Access.mem_pairs.2 ⟨ht, ha⟩
  cases found with
  | true =>
    cases run
    obtain ⟨resolved, some⟩ := accessEach_resolves hz accessed inv unchanged
    refine ⟨fun atom ha t ht => resolved (t, atom) (paired ha ht), .inl ?_⟩
    obtain ⟨p, hp, receiver⟩ := (some rfl).resolve_left Bool.false_ne_true
    obtain ⟨ht, ha⟩ := Access.mem_pairs.1 hp
    exact ⟨p.2, ha, p.1, ht, receiver⟩
  | false =>
    obtain ⟨_, a₂, diagnosed, run⟩ := Attempt.outcome_bind_eq_ok run
    cases run
    have same : a'.store = a₁.store := by
      have kept := AnalysisDiscipline.store_diagnose
        (.noDispatchTarget site (z.view.name access.accessed) target.text) a₁
      rwa [diagnosed] at kept
    obtain ⟨_, -, -, leads, -⟩ :=
      (safe_accessEach_quiet hz site mode _ false none inv).of_ok accessed
    rw [same] at unchanged
    obtain ⟨resolved, -⟩ := accessEach_resolves hz accessed inv unchanged
    have noted := Analysis.Noted.diagnose
      (.noDispatchTarget site (z.view.name access.accessed) target.text) a₁
    rw [diagnosed] at noted
    refine ⟨fun atom ha t ht receiver =>
      noted.resolved site (resolved (t, atom) (paired ha ht) receiver), .inr fun reporting => ?_⟩
    have found := Analysis.mem_diagnostics_diagnose (leads.2.reporting.trans reporting)
      (.noDispatchTarget site (z.view.name access.accessed) target.text)
    rw [diagnosed] at found
    exact ⟨_, found, rfl⟩

/-! ### The pass that reports -/

omit hz

/-- A dynamic call is dispatched for a target: it is not only about the precondition, and the
precondition, if there is one, returns. -/
structure Dispatches (z : Analyzer) (act : Activation) (visit : Visit Analysis Value)
    (access : Access) (target : Value) : Prop where
  call : visit.dynamicCall? z.view = some (access, target)
  whole : access.preOnly = false
  checked : ∃ v a, (z.check act access target (visit.stack.take (z.view.arity access)).reverse).outcome
    visit.before = (.ok (some v), a)

/-- Where a call is dispatched, the walk of its instruction is the access after the check. -/
theorem access_of_dispatches {visit : Visit Analysis Value} {access : Access} {target : Value}
    (h : z.Dispatches act visit access target) {levels : Nat} {progress : Progress Value Unit}
    {mid : Analysis}
    (run : (walkInstr z.view (z.processor act) (walkNested z.view (z.processor act) levels)
      visit.site visit.instr visit.stack).outcome visit.before = (.ok progress, mid)) :
    ∃ v a answer,
      (z.check act access target (visit.stack.take (z.view.arity access)).reverse).outcome
        visit.before = (.ok (some v), a) ∧
      (z.access act visit.site access target
        (.call (visit.stack.take (z.view.arity access)).reverse)).outcome a = (.ok answer, mid) := by
  obtain ⟨v, a, checked⟩ := h.checked
  obtain ⟨instr, -, operand⟩ := Visit.of_dynamicCall? h.call
  rw [← List.head?_drop] at operand
  cases dropped : visit.stack.drop (z.view.arity access) with
  | nil =>
    rw [dropped] at operand
    cases operand
  | cons x rest =>
    rw [dropped] at operand
    cases operand
    obtain ⟨answer, called⟩ := call_of_walkInstr instr dropped run
    rw [call_eq_check] at called
    obtain ⟨_, _, checked', run⟩ := Attempt.outcome_bind_eq_ok called
    cases checked.symm.trans checked'
    rw [h.whole] at run
    exact ⟨v, a, answer, checked, run⟩

/-- Seeding a sweep does not start recording. -/
theorem reporting_begun (z : Analyzer) (a : Analysis) : (z.begun a).reporting = a.reporting := by
  unfold begun
  obtain ⟨_, -, seeded⟩ | ⟨-, seeded⟩ := z.seed_cases a
  · rw [seeded]
  · rw [seeded]

include hz

/-- The check of a precondition only depends on the store. -/
theorem safe_check_quiet (access : Access) (target : Value) (args : List Value)
    (inv : a.store.change = none → a.store = s) :
    (AnalysisDiscipline.quiet z s).Sound (fun _ _ => True) (z.check act access target args) a a :=
  ((AnalysisDiscipline.quiet z s).seen_entriesOfCheck hz ⟨rfl, inv⟩
    (AnalysisDiscipline.goodActivation_quiet ..) ⟨trivial, fun _ _ => trivial⟩ trivial
    (AnalysisDiscipline.goodMode_quiet ..)).safe.mono fun _ _ _ _ => trivial

/-- What a dynamic call runs in a sweep that changes nothing is recorded at the end, and that it
runs nothing is an error then, if findings are recorded. -/
theorem sweep_resolves {swept : Analysis} (quiet : z.sweep.outcome a = (.ok none, swept))
    {visit : Visit Analysis Value} (visited : (act, visit) ∈ z.visitsOfSweep a) {access : Access}
    {target : Value} (h : z.Dispatches act visit access target) :
    (∀ atom ∈ target.atoms, ∀ t ∈ access.targets, swept.store.receiverClazz? atom = some t.1 →
        t.2 ∈ swept.resolved visit.site) ∧
      ((∃ atom ∈ target.atoms, ∃ t ∈ access.targets,
          swept.store.receiverClazz? atom = some t.1) ∨
        (a.reporting = true → ∃ d ∈ swept.diagnostics, d.isError = true)) := by
  obtain ⟨kept, unchanged, -⟩ := sweep_quiet hz quiet
  rw [kept]
  obtain ⟨⟨⟨leads, ⟨_, -, inv⟩, -, -, -⟩, -⟩, levels, progress, mid, walked, -, leads'⟩ :=
    seen_of_sweep_quiet hz quiet visited
  obtain ⟨v, b, answer, checked, accessed⟩ := access_of_dispatches h walked
  obtain ⟨_, -, alike, leads₁, -⟩ := (safe_check_quiet hz access target _ inv).of_ok checked
  obtain ⟨resolved, some⟩ :=
    access_resolves hz (Visit.of_dynamicCall? h.call).2.1 accessed alike.2 (leads'.1 unchanged)
  refine ⟨fun atom ha t ht receiver => leads'.2.resolved _ (resolved atom ha t ht receiver), ?_⟩
  apply some.imp_right
  intro failed reporting
  have reporting : b.reporting = true := by
    rw [leads₁.2.reporting, leads.2.reporting, reporting_begun]
    exact reporting
  obtain ⟨d, found, error⟩ := failed reporting
  exact ⟨d, leads'.2.diagnostics found, error⟩

/-- A report without errors tells what dynamic calls run. Wherever the pass that reports dispatches
one, there is a target for some atom of the receiver, and the clazz of each target for an atom of it
is among the resolved ones. So if only one is resolved, nothing else is run. -/
theorem run_resolves {patience : Nat} {final : Analysis} (run : z.run patience a = some (.ok final))
    (noErrors : (Report.mk z.view final).errors = []) {visit : Visit Analysis Value}
    (visited : (act, visit) ∈ z.reportVisits patience a) {access : Access} {target : Value}
    (h : z.Dispatches act visit access target) :
    (∃ atom ∈ target.atoms, ∃ t ∈ access.targets,
        final.store.receiverClazz? atom = some t.1) ∧
      ∀ atom ∈ target.atoms, ∀ t ∈ access.targets, final.store.receiverClazz? atom = some t.1 →
        (∃ clazzes ∈ (Report.mk z.view final).resolvedTargets visit.site, t.2 ∈ clazzes) ∧
        ∀ clazz, (Report.mk z.view final).monomorphicTarget visit.site = some clazz →
          t.2 = clazz := by
  obtain ⟨settled, settles, reports⟩ := run_eq_ok run
  obtain ⟨swept, sweeps, rfl⟩ := report_eq_ok reports
  unfold reportVisits at visited
  rw [settles] at visited
  obtain ⟨resolved, some⟩ := sweep_resolves hz sweeps visited h
  refine ⟨some.resolve_right fun failed => ?_, fun atom ha t ht receiver => ?_⟩
  · obtain ⟨d, found, error⟩ := failed rfl
    have noErrors : swept.diagnostics.filter Diagnostic.isError = [] := noErrors
    have listed : d ∈ swept.diagnostics.filter Diagnostic.isError := List.mem_filter.2 ⟨found, error⟩
    rw [noErrors] at listed
    cases listed
  · obtain ⟨clazzes, recorded, known⟩ := Report.exists_resolvedTargets
      (r := ⟨z.view, { swept with iterations := settled.iterations }⟩)
      (resolved atom ha t ht receiver)
    exact ⟨⟨clazzes, recorded, known⟩, fun clazz single =>
      Report.eq_of_monomorphicTarget single recorded known⟩

omit hz

/-! ### Receivers without a target -/

/-- An analysis of a program in which a field holds a dog and a cat, which are made to speak where
only dogs have a target. After that a dog is asked whether it could speak, and is to fetch, which
has a precondition that never returns. -/
def strays : Analyzer where
  view := Program.view
    { clazzes :=
        [ ("main", { kind := .routine, code := some ⟨0⟩ })
        , ("Dog", { kind := .routine, result := some ⟨1⟩, code := some ⟨1⟩, isRef := true })
        , ("Cat", { kind := .routine, result := some ⟨2⟩, code := some ⟨1⟩, isRef := true })
        , ("Animal", { kind := .routine, isRef := true, needsCode := false })
        , ("pet", { kind := .field, outer := some ⟨0⟩, result := some ⟨3⟩ })
        , ("Animal.speak", { kind := .abstract, outer := some ⟨3⟩ })
        , ("Dog.speak", { kind := .routine, outer := some ⟨1⟩, code := some ⟨1⟩ })
        , ("Animal.fetch", { kind := .abstract, outer := some ⟨3⟩, preconditions := [⟨2⟩] })
        , ("wait", { kind := .routine, code := some ⟨3⟩ }) ]
      blocks :=
        [ [ .current, .current, .call (.fixed ⟨1⟩), .assign (.fixed ⟨4⟩)
          , .current, .current, .call (.fixed ⟨2⟩), .assign (.fixed ⟨4⟩)
          , .current, .call (.fixed ⟨4⟩), .call (.dispatched ⟨5⟩ [(⟨1⟩, ⟨6⟩)]), .pop
          , .current, .call (.fixed ⟨1⟩)
          , .call { accessed := ⟨5⟩, dynamic := true, targets := [(⟨1⟩, ⟨6⟩)], preOnly := true }, .pop
          , .current, .call (.fixed ⟨1⟩), .call (.dispatched ⟨7⟩ [(⟨1⟩, ⟨6⟩)]) ]
        , []
        , [.current, .call (.fixed ⟨8⟩), .pop]
        , [.outer, .call (.fixed ⟨8⟩)] ]
      main := ⟨0⟩
      constString := none }

/-- The report is without errors there, but the cat has no target, and the dog has targets that are
not resolved. -/
theorem not_covers_strays :
    ∃ final, strays.run 12 {} = some (.ok final) ∧ (Report.mk strays.view final).errors = [] ∧
      ∀ index ∈ [10, 14, 18], ∃ p ∈ strays.reportVisits 12 {}, p.2.site = ⟨⟨0⟩, ⟨0⟩, index⟩ ∧
        ∃ c ∈ p.2.dynamicCall? strays.view,
          ¬(Report.mk strays.view final).Covers p.2.site c.1 c.2 :=
  exists_run (by decide +kernel)

/-- The dogs that are made to speak next to a cat do so as was resolved. -/
theorem run_resolves_strays :
    ∃ final, strays.run 12 {} = some (.ok final) ∧
      ∃ clazzes ∈ (Report.mk strays.view final).resolvedTargets ⟨⟨0⟩, ⟨0⟩, 10⟩, ⟨6⟩ ∈ clazzes := by
  have table : strays.intrinsics = .standard := by simp only [strays]
  obtain ⟨final, run, noErrors, ⟨act, visit⟩, visited, site, call, receiver⟩ :
      ∃ final, strays.run 12 {} = some (.ok final) ∧ (Report.mk strays.view final).errors = [] ∧
        ∃ p ∈ strays.reportVisits 12 {}, p.2.site = ⟨⟨0⟩, ⟨0⟩, 10⟩ ∧
          p.2.dynamicCall? strays.view =
            some (.dispatched ⟨5⟩ [(⟨1⟩, ⟨6⟩)], .set [.object ⟨1⟩, .object ⟨2⟩]) ∧
          final.store.receiverClazz? (.object ⟨1⟩) = some ⟨1⟩ :=
    exists_run (by decide +kernel)
  have dispatches : strays.Dispatches act visit _ _ := ⟨call, rfl, .unit, visit.before, rfl⟩
  obtain ⟨-, resolved⟩ := run_resolves table run noErrors visited dispatches
  obtain ⟨known, -⟩ := resolved (.object ⟨1⟩) List.mem_cons_self (⟨1⟩, ⟨6⟩) List.mem_cons_self receiver
  have site : visit.site = ⟨⟨0⟩, ⟨0⟩, 10⟩ := site
  rw [site] at known
  exact ⟨final, run, known⟩

end Analyzer

end ClosedWorld
