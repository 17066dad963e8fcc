import ClosedWorld.Proofs.Analysis.Sweeps
import ClosedWorld.Proofs.Store.Sound

/-!
# Invariants of analyses

What is known of calls and of the call graph changes in two ways only: the call to start with is
made, and a call makes another one. Whatever else an analysis does leaves the calls there are, but
for their marks. So a property of analyses that survives these holds wherever sweeps lead.

## Main definitions

* `Analyzer.Reaches`: the states that sweeps lead to.
* `Analysis.Continues`: no call has been made between two states.
* `Analyzer.Maintains`: a property that every elementary step of an analysis maintains.
* `AnalysisDiscipline.maintaining`: the discipline of analyses with such a property.
* `Analyzer.KnowsMain`: the call to start with is what it should be.

## Main statements

* `Analyzer.reaches_run`: a report is about a state that sweeps lead to.
* `Analyzer.inv_of_reaches`: the store keeps to every discipline.
* `Analyzer.store_of_reaches`: what every elementary change of a store keeps.
* `Analyzer.Maintains.of_reaches`: wherever an analysis is, its store is sound and has the property.
* `Analyzer.maintains_knowsMain`: every elementary step leaves the call to start with as it is.
-/

namespace ClosedWorld

/-! ### States between which no call is made -/

namespace Analysis

/-- A finding leaves the call graph alone. -/
theorem edges_diagnose (d : Diagnostic) (a : Analysis) :
    ((diagnose d).outcome a).2.edges = a.edges := by
  unfold diagnose
  rw [Attempt.outcome_modify]
  dsimp only
  split <;> rfl

/-- No call has been made between the two states. Calls keep their frame and their origin, and are
still marked if they were. -/
structure Continues (a a' : Analysis) : Prop where
  main : a'.main = a.main
  edges : a'.edges = a.edges
  size : a'.store.calls.size = a.store.calls.size
  calls : a.store.calls.Extends CallState.Below a'.store.calls
  envs : a.store.envs.KeepsKeys a'.store.envs

variable {view : View} {a a' : Analysis}

namespace Continues

/-- An analysis continues in one with the same calls, nodes and edges. -/
theorem of_eq (main : a'.main = a.main) (edges : a'.edges = a.edges)
    (calls : a'.store.calls = a.store.calls) (envs : a'.store.envs = a.store.envs) :
    a.Continues a' where
  main := main
  edges := edges
  size := by rw [calls]
  calls := by
    rw [calls]
    exact Interned.extends_refl CallState.below_refl _
  envs := by
    rw [envs]
    exact Interned.keepsKeys_refl _

/-- An analysis continues in one that it leads to if no call has been made. -/
theorem of_leads (leads : (StoreDiscipline.evolving view).runs.Leads a a')
    (edges : a'.edges = a.edges) (size : a'.store.calls.size = a.store.calls.size) :
    a.Continues a' where
  main := leads.2.main
  edges := edges
  size := size
  calls := leads.1.extendsCalls
  envs := leads.1.keepsEnvs

/-- Each call is one that was known. -/
theorem exists_get? (h : a.Continues a') {id : CallId} {key : CallKey} {state' : CallState}
    (known : a'.store.calls.get? id = some (key, state')) :
    ∃ state, a.store.calls.get? id = some (key, state) ∧ state.Below state' := by
  have there := Interned.index_lt_size_of_key? (Interned.key?_of_get? known)
  rw [h.size] at there
  obtain ⟨⟨key₀, state⟩, held⟩ : ∃ e, a.store.calls.get? id = some e :=
    Option.isSome_iff_exists.1 (by
      rw [Option.isSome_iff_ne_none]
      exact fun absent => absurd there (Nat.not_lt.2 (Interned.get?_eq_none_iff.1 absent)))
  obtain ⟨state₀, held', below⟩ := h.calls id key₀ state held
  cases known.symm.trans held'
  exact ⟨state, held, below⟩

/-- Calls keep their keys when an analysis continues. -/
theorem keepsKeys (h : a.Continues a') : a.store.calls.KeepsKeys a'.store.calls :=
  h.calls.keepsKeys

end Continues

end Analysis

namespace Analyzer

variable {z : Analyzer}

/-! ### States that sweeps lead to -/

variable (z) in
/-- The states that sweeps lead to from the beginning, also in the middle of a sweep and after one
that fails, and with findings recorded or not. -/
inductive Reaches : Analysis → Prop where
  | start : Reaches {}
  | sweep {a : Analysis} (reached : Reaches a) : Reaches (z.sweep.outcome a).2
  | visit {a : Analysis} {t : Activation × Visit Analysis Value} (reached : Reaches a)
      (visited : t ∈ z.visitsOfSweep a) : Reaches t.2.before
  | setting {a : Analysis} (reached : Reaches a) (reporting : Bool) (iterations : Nat) :
      Reaches { a with reporting, iterations }

/-- Sweeps from the beginning lead to where they lead. -/
theorem reaches_afterSweeps (z : Analyzer) (count : Nat) : z.Reaches (z.afterSweeps count {}) := by
  induction count with
  | zero => exact .start
  | succ count ih => exact ih.sweep

/-- Where sweeps lead, the sweeps until an analysis settles lead as well. -/
theorem reaches_settle {a : Analysis} (reached : z.Reaches a) (patience : Nat) :
    z.Reaches ((z.settle patience).outcome a).2 := by
  induction patience generalizing a with
  | zero => exact reached
  | succ patience ih =>
    unfold settle
    rw [Attempt.outcome_bind, Attempt.outcome_get]
    dsimp only
    cases z.config.maxIterations.filter (· ≤ a.iterations) with
    | some count => exact reached
    | none =>
      dsimp only
      rw [Attempt.outcome_bind]
      have next := Reaches.sweep reached
      cases swept : z.sweep.outcome a with
      | mk result a' =>
        rw [swept] at next
        obtain _ | _ | settled := result
        · exact next
        · exact next
        · exact ih next

/-- A report is about a state that sweeps lead to. -/
theorem reaches_run {patience : Nat} {final : Analysis} (run : z.run patience {} = some (.ok final)) :
    z.Reaches final := by
  obtain ⟨settled, settles, reports⟩ := run_eq_ok run
  obtain ⟨swept, sweeps, rfl⟩ := report_eq_ok reports
  have reached := reaches_settle (z := z) .start (z.config.maxIterations.elim patience (· + 1))
  rw [settles] at reached
  have last := Reaches.sweep (reached.setting true settled.iterations)
  rw [sweeps] at last
  exact last.setting swept.reporting settled.iterations

/-! ### Invariants -/

/-- What every elementary step of an analysis maintains. -/
structure Maintains (z : Analyzer) (Inv : Analysis → Prop) : Prop where
  start : Inv {}
  continues : ∀ {a a'}, Inv a → a.Continues a' → Inv a'
  /-- The call to start with is made. -/
  seeds : ∀ {a}, Inv a → a.main = none → Inv (z.seed.outcome a).2
  /-- A call makes another one. -/
  discovers : ∀ {a key origin} context, Inv a →
    (StoreDiscipline.evolving z.view).Discovers z.view a.store origin key →
    Inv (a.discovering ((Store.internCall key context (some origin)).run a.store).2
      ⟨origin, ((Store.internCall key context (some origin)).run a.store).1⟩)

end Analyzer

namespace AnalysisDiscipline

variable {z : Analyzer} {Inv : Analysis → Prop}

/-- A step that makes no call keeps what is maintained. -/
theorem keeping_of_continues (maintains : z.Maintains Inv) {α : Type} {post : α → Analysis → Prop}
    {step step' : Analyzing α} {a b : Analysis} (inv : Inv a)
    (hs : (StoreDiscipline.evolving z.view).runs.Safe post step step' a b)
    (edges : (step.outcome a).2.edges = a.edges)
    (size : (step.outcome a).2.store.calls.size = a.store.calls.size) :
    ((StoreDiscipline.evolving z.view).runs.keeping Inv).Safe post step step' a b := by
  refine hs.keeping fun result a' run leads => ?_
  rw [run] at edges size
  exact maintains.continues inv (.of_leads leads edges size)

/-- An analysis whose store is sound and evolves, and which has what is maintained. -/
def maintaining (maintains : z.Maintains Inv) : AnalysisDiscipline z :=
  let D := ofStore (StoreDiscipline.evolving z.view) z.config.reportIntrinsics
  { D with
    runs := D.runs.keeping Inv
    store_eq := fun h => D.store_eq h.1
    inv := fun h => D.inv h.1
    leads_store := D.leads_store
    allowed := D.allowed
    safe_onStore := fun h hs => by
      refine keeping_of_continues maintains h.2 (D.safe_onStore h.1 hs) rfl ?_
      exact (hs.leads_of_outcome rfl).2
    safe_diagnose := fun {a _} d h => by
      refine keeping_of_continues maintains h.2 (D.safe_diagnose d h.1)
        (Analysis.edges_diagnose d a) ?_
      rw [store_diagnose]
    safe_noteUnsupported := fun {a _} name id h => by
      have safe := D.safe_noteUnsupported name id h.1
      refine keeping_of_continues maintains h.2 safe ?_ ?_ <;> unfold Analyzer.noteUnsupported <;> split
      · exact Analysis.edges_diagnose _ a
      · rfl
      · rw [store_diagnose]
      · rfl
    safe_recordDispatch := fun site clazz h =>
      keeping_of_continues maintains h.2 (D.safe_recordDispatch site clazz h.1) rfl rfl
    safe_newCall := fun {a _ key origin} h hk ho discovers => by
      refine (D.safe_newCall h.1 hk ho discovers).keeping fun result a' run _ => ?_
      rw [Setting.outcome_newCall] at run
      -- Where the call that discovers is unknown, nothing happens.
      cases found : a.store.callKey origin with
      | error fault =>
        rw [found] at run
        cases run
        exact h.2
      | ok creator =>
        rw [found] at run
        cases run
        exact maintains.discovers _ h.2 discovers }

end AnalysisDiscipline

namespace Analyzer

/-- The store of an analysis keeps to a discipline wherever the analysis is. -/
theorem inv_of_reaches {z : Analyzer} (hz : z.intrinsics = .standard) (D : StoreDiscipline z.view)
    (main : D.Known z.view.main) (forget : ∀ {s}, D.Inv s → D.Inv s.unnoted) (empty : D.Inv {})
    {a : Analysis} (reached : z.Reaches a)
    (suits : D.Suits z.toSetting := by exact .of_known) : D.Inv a.store := by
  induction reached with
  | start => exact empty
  | sweep _ ih => exact AnalysisDiscipline.inv_sweep hz D main forget ih suits
  | @visit a t _ visited ih =>
    obtain ⟨begun, -⟩ := AnalysisDiscipline.safe_begun D ih
      (AnalysisDiscipline.goodKey_mainKey D main _)
    have known : ∀ id ∈ (z.begun a).store.calls.ids, D.GoodCall (z.begun a).store id := by
      intro id listed
      obtain ⟨key, held⟩ := Interned.mem_ids.1 listed
      exact D.goodCall_of_key begun held
    have seen := (AnalysisDiscipline.ofStore D z.config.reportIntrinsics
      suits.goodContext).seen_visitsOfCalls hz
      (a := z.begun a) (b := z.begun a) ⟨rfl, begun⟩ known fun id _ => suits.walked id
    obtain ⟨_, alike⟩ := (seen.ahead _ visited).1.alike
    exact alike.2
  | setting _ _ _ ih => exact ih

/-- What every elementary change of a store keeps, and what does not depend on which change is
noted, holds of the store wherever an analysis is. -/
theorem store_of_reaches {z : Analyzer} (hz : z.intrinsics = .standard) {P : Store → Prop}
    (empty : P {})
    (alters : ∀ {s t : Store}, P s → s.Alters (Value.Clean z.view) z.view.MayReturn t → P t)
    (forget : ∀ {s : Store}, P s → P s.unnoted) {a : Analysis} (reached : z.Reaches a) :
    a.store.Sound z.view ∧ P a.store := by
  let D := StoreDiscipline.evolving z.view
  have evolves {s t : Store} (hs : P s) (h : s.Evolves (Value.Clean z.view) z.view.MayReturn t) :
      P t := by
    induction h with
    | refl => exact hs
    | tail _ altered ih => exact alters ih altered
  induction reached with
  | start => exact ⟨Store.sound_empty _, empty⟩
  | @sweep a _ ih =>
    obtain ⟨a', inv, leads, swept | ⟨fault, swept, -⟩⟩ :=
      AnalysisDiscipline.sweep_cases hz D trivial ih.1
    · rw [swept]
      exact ⟨inv.unnoted, forget (evolves ih.2 leads)⟩
    · rw [swept]
      exact ⟨inv, evolves ih.2 leads⟩
  -- A visit comes after the beginning of its sweep and what the analyses before it have done.
  | @visit a t _ visited ih =>
    obtain ⟨begun, leads⟩ := AnalysisDiscipline.safe_begun D ih.1
      (AnalysisDiscipline.goodKey_mainKey D trivial _)
    have seen := (AnalysisDiscipline.ofStore D z.config.reportIntrinsics).seen_visitsOfCalls hz
      (a := z.begun a) (b := z.begun a) ⟨rfl, begun⟩
      fun id (_ : id ∈ (z.begun a).store.calls.ids) => trivial
    have ahead := (seen.ahead _ visited).1
    obtain ⟨_, alike⟩ := ahead.alike
    exact ⟨alike.2, evolves (evolves ih.2 leads) ahead.leads.1⟩
  | setting _ _ _ ih => exact ih

variable {z : Analyzer} {Inv : Analysis → Prop}

/-- What is maintained still holds when a sweep has its calls before it. -/
theorem Maintains.begun (maintains : z.Maintains Inv) {a : Analysis} (inv : Inv a) :
    Inv (z.begun a) := by
  have seeded : Inv (z.seed.outcome a).2 := by
    obtain ⟨main, -, seeded⟩ | ⟨unknown, -⟩ := z.seed_cases a
    · rw [seeded]
      exact inv
    · exact maintains.seeds inv unknown
  exact maintains.continues seeded (.of_eq rfl rfl rfl rfl)

/-- The regime of what is maintained, when a sweep has its calls before it. -/
theorem Maintains.alike_begun (maintains : z.Maintains Inv) {a : Analysis}
    (sound : a.store.Sound z.view) (inv : Inv a) :
    (AnalysisDiscipline.maintaining maintains).runs.Alike (z.begun a) (z.begun a) := by
  have begun := (AnalysisDiscipline.safe_begun (StoreDiscipline.evolving z.view) sound
    (AnalysisDiscipline.goodKey_mainKey (StoreDiscipline.evolving z.view) trivial _)).1
  exact ⟨⟨rfl, begun⟩, maintains.begun inv⟩

/-- Wherever an analysis is, its store is sound, and it has what is maintained. -/
theorem Maintains.of_reaches (maintains : z.Maintains Inv) (hz : z.intrinsics = .standard)
    {a : Analysis} (reached : z.Reaches a) : a.store.Sound z.view ∧ Inv a := by
  have known (ids : List CallId) (s : Store) :
      ∀ id ∈ ids, (AnalysisDiscipline.maintaining maintains).GoodCall s id := fun _ _ => trivial
  induction reached with
  | start => exact ⟨Store.sound_empty _, maintains.start⟩
  | @sweep a _ ih =>
    have swept := (AnalysisDiscipline.maintaining maintains).safe_analyzeAll hz
      (maintains.alike_begun ih.1 ih.2) (known (z.begun a).store.calls.ids _)
    rw [sweep_outcome]
    cases swept with
    | ok run _ alike =>
      rw [run]
      exact ⟨alike.1.2.unnoted, maintains.continues alike.2 (.of_eq rfl rfl rfl rfl)⟩
    | error run _ alike =>
      rw [run]
      exact ⟨alike.1.2, alike.2⟩
  | @visit a t _ visited ih =>
    have seen := (AnalysisDiscipline.maintaining maintains).seen_visitsOfCalls hz
      (maintains.alike_begun ih.1 ih.2) (known (z.begun a).store.calls.ids _)
    obtain ⟨_, alike⟩ := (seen.ahead _ visited).1.alike
    exact ⟨alike.1.2, alike.2⟩
  | setting _ _ _ ih => exact ⟨ih.1, maintains.continues ih.2 (.of_eq rfl rfl rfl rfl)⟩

/-! ### The call to start with -/

/-- The call to start with is known as such. -/
def KnowsMain (z : Analyzer) (a : Analysis) : Prop :=
  ∀ main, a.main = some main → a.store.calls.key? main = some z.mainKey

/-- Every elementary step leaves the call to start with as it is, once it has been made. -/
theorem maintains_knowsMain (z : Analyzer) : z.Maintains z.KnowsMain where
  start := by rintro _ ⟨⟩
  continues knows continued main known :=
    continued.keepsKeys main _ (knows main (continued.main ▸ known))
  seeds {a} knows unknown := by
    obtain ⟨_, known, -⟩ | ⟨-, seeded⟩ := z.seed_cases a
    · cases unknown.symm.trans known
    · rw [seeded]
      rintro _ ⟨⟩
      exact a.store.key?_internCall ..
  discovers {a _ _} context knows _ main known :=
    (a.store.extendsCalls_internCall _ _ _).keepsKeys main _ (knows main known)

end Analyzer

end ClosedWorld
