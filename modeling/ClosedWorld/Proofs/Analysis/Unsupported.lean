import ClosedWorld.Proofs.Analysis.Accounting
import ClosedWorld.Proofs.Analysis.Fixpoint
import ClosedWorld.Proofs.Analysis.Invariants
import ClosedWorld.Proofs.Analysis.Meanings
import ClosedWorld.Proofs.Store.Interning

/-!
# Calls of intrinsics that have no meaning

A report names the calls of intrinsics that have no meaning. It names those that some instruction
makes in the pass that records findings, each once, and no others. A call that only an earlier sweep
has made, of which nothing is left but its entry in the store, is passed over, and so is one that no
instruction makes: the one that an analysis starts with, and those that intrinsics make.

## Main definitions

* `Diagnostic.unsupportedCall?`: the call that a finding is about.
* `Analyzer.NamesUnsupported`: the report names all calls in its store.

## Main statements

* `Analyzer.run_unsupported_iff`: what a report says of intrinsics that have no meaning.
* `Analyzer.not_namesUnsupported`: some calls in its store are passed over.
-/

namespace ClosedWorld

/-- The call that the finding is about, if it says that its intrinsic has no meaning. -/
def Diagnostic.unsupportedCall? : Diagnostic → Option CallId
  | unsupportedIntrinsic _ call => some call
  | _ => none

/-- A finding is about the call `id` if it says of it that an intrinsic has no meaning, and only
then. -/
theorem Diagnostic.unsupportedCall?_eq_some_iff {d : Diagnostic} {id : CallId} :
    d.unsupportedCall? = some id ↔ ∃ name, d = .unsupportedIntrinsic name id := by
  cases d <;> simp [unsupportedCall?]

namespace Analyzer

variable {z : Analyzer}

/-- What is `foundIn` a call is that its intrinsic lacks a meaning, if this is to be reported. -/
theorem mem_foundIn {id : CallId} {key : CallKey} {d : Diagnostic} :
    d ∈ z.foundIn id key ↔ z.config.reportIntrinsics = true ∧ z.LacksMeaning key ∧
      d = .unsupportedIntrinsic (z.intrinsicName key.clazz) id := by
  unfold foundIn
  split
  · rename_i found
    simp [found]
  · rename_i found
    rw [← and_assoc]
    simp [found]

/-- A table that means the same by the intrinsics of a program has a meaning for the same ones. -/
theorem Agrees.hasHandler {table : IntrinsicTable} (h : z.Agrees table) {clazz : ClazzId}
    (kind : (z.view.info clazz).kind = .intrinsic) :
    table.hasHandler (z.intrinsicName clazz) = z.intrinsics.hasHandler (z.intrinsicName clazz) := by
  have same := h (z.intrinsicName clazz) ⟨clazz, kind, rfl⟩
  unfold IntrinsicTable.hasHandler
  rw [same]

variable (hz : z.intrinsics = .standard)

include hz

/-- No call is in the table twice, wherever an analysis is. -/
theorem nodup_calls_of_reaches {a : Analysis} (reached : z.Reaches a) :
    a.store.calls.keys.Nodup :=
  (store_of_reaches hz List.nodup_nil (fun nodup alters => alters.expands.calls.nodup nodup) id
    reached).2

/-- Nothing is in a report twice, and that intrinsics have no meaning is there as far as it is found
when calls are made in the sweep that records findings. -/
theorem diagnostics_run {patience : Nat} {final : Analysis}
    (run : z.run patience {} = some (.ok final)) :
    final.diagnostics.Nodup ∧ ∀ d : Diagnostic, d.isUnsupported = true →
      (d ∈ final.diagnostics ↔
        ∃ t ∈ z.reportVisits patience {}, ∃ e ∈ z.entriesOfVisit t.1 t.2, d ∈ z.foundAt e) := by
  obtain ⟨settled, settles, reports⟩ := run_eq_ok run
  obtain ⟨swept, sweeps, rfl⟩ := report_eq_ok reports
  have silent : ((z.settle (z.config.maxIterations.elim patience (· + 1))).outcome {}).2.IsSilent :=
    silent_settle hz ⟨rfl, rfl⟩ _
  rw [settles] at silent
  obtain ⟨begun, unchanged, analyzed⟩ := analyzeAll_of_sweep_quiet hz sweeps
  obtain ⟨reporting, diagnostics⟩ := notes_begun z { settled with reporting := true }
  have none := diagnostics.trans silent.2
  constructor
  · show swept.diagnostics.Nodup
    have found : swept.diagnostics = ([] ++ _ : List Diagnostic).eraseDups :=
      diagnostics_analyzeAll hz analyzed begun unchanged reporting none
    rw [found]
    exact nodup_eraseDups _
  · intro d unsupported
    have found := (Ledger.accounts_visitsOfCalls hz _ () swept analyzed).2 d unsupported
    unfold reportVisits visitsOfSweep
    rw [settles]
    dsimp only
    rw [begun, found, none, reporting]
    simp only [List.not_mem_nil, false_or, true_and, List.mem_flatMap]
    constructor
    · rintro ⟨e, ⟨t, visited, made⟩, told⟩
      exact ⟨t, visited, e, made, told⟩
    · rintro ⟨t, visited, e, made, told⟩
      exact ⟨e, ⟨t, visited, made⟩, told⟩

/-- A call that is made in that sweep is in the store of the report, and what is found when it is
made is what is found when it is asked for its result. -/
theorem foundAt_of_visited {patience : Nat} {final : Analysis}
    (run : z.run patience {} = some (.ok final)) {t : Activation × Visit Analysis Value}
    (visited : t ∈ z.reportVisits patience {}) {e : Entry} (made : e ∈ z.entriesOfVisit t.1 t.2) :
    ∃ id, final.store.calls.key? id = some e.key ∧ z.foundAt e = z.foundIn id e.key := by
  obtain ⟨settled, settles, reports⟩ := run_eq_ok run
  obtain ⟨swept, sweeps, rfl⟩ := report_eq_ok reports
  unfold reportVisits at visited
  rw [settles] at visited
  obtain ⟨kept, unchanged, -⟩ := sweep_quiet hz sweeps
  obtain ⟨⟨ahead, good⟩, done⟩ := seen_of_sweep_quiet hz sweeps visited
  obtain ⟨ahead, answer, mid, entered, leads⟩ :=
    AnalysisDiscipline.entered_of_visit _ hz ahead good done made
  rw [outcomeOf_eq ahead.env ahead.needsCode] at entered
  obtain ⟨id, b, asked, entered⟩ := Attempt.outcome_bind_eq_ok entered
  obtain ⟨result, _, answered, entered⟩ := Attempt.outcome_bind_eq_ok entered
  cases entered
  let D := AnalysisDiscipline.quiet z settled.store
  obtain ⟨_, -, inv⟩ := ahead.alike
  obtain ⟨_, -, alike, -, known, good⟩ := (D.safe_newCall ⟨rfl, inv⟩ ahead.key ahead.caller.call
    (.access ahead.caller.called ahead.env ahead.ready)).of_ok asked
  obtain ⟨_, -, -, later, -⟩ :=
    (D.safe_callResult hz ⟨rfl, alike.2⟩ good known ahead.kind).of_ok answered
  -- No change is noted when the call has been made, since none is noted at the end.
  rw [alike.2 (later.1 (leads.1 unchanged))] at known
  refine ⟨id, kept ▸ known, ?_⟩
  unfold foundAt Attempt.follow
  rw [asked]

/-- Of intrinsics that have no meaning, a report names the calls that some instruction makes in the
pass that records findings. It names each of these once, with the name under which the intrinsic is
looked up, and no other call. -/
theorem run_unsupported_iff (on : z.config.reportIntrinsics = true) {patience : Nat}
    {final : Analysis} (run : z.run patience {} = some (.ok final)) :
    (final.diagnostics.filterMap Diagnostic.unsupportedCall?).Nodup ∧
      ∀ name id, .unsupportedIntrinsic name id ∈ final.diagnostics ↔
        ∃ key, final.store.calls.key? id = some key ∧ z.LacksMeaning key ∧
          name = z.intrinsicName key.clazz ∧
          ∃ t ∈ z.reportVisits patience {}, ∃ e ∈ z.entriesOfVisit t.1 t.2, e.key = key := by
  obtain ⟨nodup, found⟩ := diagnostics_run hz run
  have named (name : String) (id : CallId) : .unsupportedIntrinsic name id ∈ final.diagnostics ↔
      ∃ key, final.store.calls.key? id = some key ∧ z.LacksMeaning key ∧
        name = z.intrinsicName key.clazz ∧
        ∃ t ∈ z.reportVisits patience {}, ∃ e ∈ z.entriesOfVisit t.1 t.2, e.key = key := by
    rw [found _ rfl]
    constructor
    · rintro ⟨t, visited, e, made, told⟩
      obtain ⟨id', known, finds⟩ := foundAt_of_visited hz run visited made
      rw [finds] at told
      obtain ⟨-, lacks, same⟩ := mem_foundIn.1 told
      cases same
      exact ⟨e.key, known, lacks, rfl, t, visited, e, made, rfl⟩
    · rintro ⟨_, known, lacks, rfl, t, visited, e, made, rfl⟩
      obtain ⟨id', known', finds⟩ := foundAt_of_visited hz run visited made
      cases Interned.eq_of_key?_eq (nodup_calls_of_reaches hz (reaches_run run)) known' known
      refine ⟨t, visited, e, made, ?_⟩
      rw [finds]
      exact mem_foundIn.2 ⟨on, lacks, rfl⟩
  refine ⟨?_, named⟩
  -- Findings about one call are the same, since its key determines the name.
  refine List.pairwise_filterMap.2 (nodup.imp_of_mem fun {d d'} listed listed' differ => ?_)
  rintro id about _ about' rfl
  obtain ⟨name, rfl⟩ := Diagnostic.unsupportedCall?_eq_some_iff.1 about
  obtain ⟨name', rfl⟩ := Diagnostic.unsupportedCall?_eq_some_iff.1 about'
  obtain ⟨key, known, -, rfl, -⟩ := (named name id).1 listed
  obtain ⟨key', known', -, rfl, -⟩ := (named name' id).1 listed'
  cases known.symm.trans known'
  exact differ rfl

omit hz

/-- A program that sleeps for as long as a field says, and writes to the field after that. -/
def outdating : Draft where
  clazzes :=
    [ ("main", some { kind := .routine, code := some ⟨0⟩ })
    , ("bool", some { kind := .choice, special := some .bool, needsCode := false })
    , ("main.long", some { kind := .field, outer := some ⟨0⟩, result := some ⟨1⟩ })
    , ("fuzion.std.nano_sleep", some { kind := .intrinsic, args := [⟨4⟩] })
    , ("nano_sleep.long", some { kind := .field, outer := some ⟨3⟩, result := some ⟨1⟩ }) ]
  blocks :=
    [ [ .current, .const ⟨1⟩ [0], .assign (.fixed ⟨2⟩)
      , .current, .current, .call (.fixed ⟨2⟩), .call (.fixed ⟨3⟩), .pop
      , .current, .const ⟨1⟩ [1], .assign (.fixed ⟨2⟩) ] ]
  main := some ⟨0⟩

/-- There, the call is named that has either boolean for its argument, as the pass that records
findings makes it. -/
theorem run_unsupported_iff_outdating :
    ∃ p, outdating.build = .ok p ∧ ∃ final, (p.analyzer {}).run 12 {} = some (.ok final) ∧
      final.diagnostics = [.unsupportedIntrinsic "fuzion.std.nano_sleep" ⟨2⟩] ∧
      ∃ key, final.store.calls.key? ⟨2⟩ = some key ∧ key.args = [.bool .any] ∧
        ∃ t ∈ (p.analyzer {}).reportVisits 12 {}, ∃ e ∈ (p.analyzer {}).entriesOfVisit t.1 t.2,
          e.key = key := by
  refine ⟨outdating.toProgram, by decide +kernel, ?_⟩
  have agrees : (outdating.toProgram.analyzer {}).Agrees .own :=
    agrees_own (Program.intrinsics_analyzer ..) (by decide +kernel)
  obtain ⟨final, run, found, known⟩ : ∃ final,
      (outdating.toProgram.analyzer {}).run 12 {} = some (.ok final) ∧
        final.diagnostics = [.unsupportedIntrinsic "fuzion.std.nano_sleep" ⟨2⟩] ∧
        ∀ key ∈ final.store.calls.key? ⟨2⟩, key.args = [.bool .any] := by
    rw [← agrees.run]
    exact exists_run (by decide +kernel)
  refine ⟨final, run, found, ?_⟩
  obtain ⟨key, called, -, -, made⟩ :=
    ((run_unsupported_iff (Program.intrinsics_analyzer ..) rfl run).2 "fuzion.std.nano_sleep" ⟨2⟩).1
      (found ▸ List.mem_singleton_self _)
  exact ⟨key, called, known key called, made⟩

/-! ### Calls that are passed over -/

/-- What one would expect: a report names all calls in its store that are of an intrinsic that has
no meaning. -/
def NamesUnsupported (z : Analyzer) : Prop :=
  ∀ patience final, z.run patience {} = some (.ok final) →
    (final.diagnostics.filterMap Diagnostic.unsupportedCall?).Nodup ∧
      ∀ id, id ∈ final.diagnostics.filterMap Diagnostic.unsupportedCall? ↔
        ∃ key, final.store.calls.key? id = some key ∧ z.LacksMeaning key

/-- A report that misses a call refutes `NamesUnsupported`. The intrinsics may be looked up in
another `table` that means the same, as that can be evaluated. -/
theorem not_namesUnsupported_of_reportsAs {table : IntrinsicTable} (h : z.Agrees table)
    (patience : Nat) (id : CallId)
    (missed : (z.consulting table).reportsAs patience {} (fun final =>
      decide (id ∉ final.diagnostics.filterMap Diagnostic.unsupportedCall? ∧
        ∃ key ∈ final.store.calls.key? id, (z.consulting table).LacksMeaning key)) = true) :
    ¬z.NamesUnsupported := by
  intro names
  obtain ⟨final, run, unnamed, key, known, lacks⟩ := exists_run missed
  rw [h.run] at run
  have lacks : z.LacksMeaning key :=
    { body := lacks.body
      kind := lacks.kind
      unmeant := h.hasHandler lacks.kind ▸ lacks.unmeant }
  exact unnamed (((names patience final run).2 id).2 ⟨key, known, lacks⟩)

/-- A program that starts with an intrinsic. -/
def sleeping : Draft where
  clazzes := [("fuzion.std.nano_sleep", some { kind := .intrinsic })]
  main := some ⟨0⟩

/-- A program that installs an effect and passes a function on that is an intrinsic. -/
def handing : Draft where
  clazzes :=
    [ ("main", some { kind := .routine, code := some ⟨0⟩, call := some ⟨3⟩ })
    , ("effect.abortable", some
        { kind := .intrinsic, args := [⟨2⟩], effectType := some ⟨0⟩, generics := [⟨0⟩] })
    , ("effect.abortable.code", some { kind := .field, outer := some ⟨1⟩, result := some ⟨0⟩ })
    , ("fuzion.std.nano_sleep", some { kind := .intrinsic }) ]
  blocks := [[.current, .current, .call (.fixed ⟨1⟩), .pop]]
  main := some ⟨0⟩

/-- A report does not have to name all calls in its store of intrinsics that have no meaning. A call
may be left over from an earlier sweep, in which its arguments were not what they are in the end
(`outdating`), it may be the one to start with (`sleeping`), or an intrinsic may have made it
(`handing`). -/
theorem not_namesUnsupported :
    (¬∀ (d : Draft) (p : Program), d.build = .ok p → ∀ config : Config,
      config.reportIntrinsics = true → (p.analyzer config).NamesUnsupported) ∧
    ∀ d ∈ [outdating, sleeping, handing],
      ∃ p, d.build = .ok p ∧ ¬(p.analyzer {}).NamesUnsupported := by
  have agrees {d : Draft} (listed : ∀ e ∈ d.toProgram.clazzes, e.2.kind = .intrinsic →
      e.2.intrinsic.getD e.1 ∈ IntrinsicTable.ownEntries.map Prod.fst) :
      (d.toProgram.analyzer {}).Agrees .own :=
    agrees_own (Program.intrinsics_analyzer ..) listed
  have outdated : ¬(outdating.toProgram.analyzer {}).NamesUnsupported :=
    not_namesUnsupported_of_reportsAs (agrees (by decide +kernel)) 12 ⟨1⟩ (by decide +kernel)
  have started : ¬(sleeping.toProgram.analyzer {}).NamesUnsupported :=
    not_namesUnsupported_of_reportsAs (agrees (by decide +kernel)) 12 ⟨0⟩ (by decide +kernel)
  have handed : ¬(handing.toProgram.analyzer {}).NamesUnsupported :=
    not_namesUnsupported_of_reportsAs (agrees (by decide +kernel)) 12 ⟨2⟩ (by decide +kernel)
  have built : outdating.build = .ok outdating.toProgram := by decide +kernel
  refine ⟨fun names => outdated (names outdating _ built {} rfl), ?_⟩
  intro d listed
  simp only [List.mem_cons, List.not_mem_nil, or_false] at listed
  obtain rfl | rfl | rfl := listed
  · exact ⟨_, built, outdated⟩
  · exact ⟨sleeping.toProgram, by decide +kernel, started⟩
  · exact ⟨handing.toProgram, by decide +kernel, handed⟩

end Analyzer

end ClosedWorld
