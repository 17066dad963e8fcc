import ClosedWorld.Proofs.Analysis.Entries
import ClosedWorld.Proofs.Analysis.Sweeps

/-!
# What an analysis does not depend on

An analysis looks up the intrinsics that the program has, and no others. Another table that means
the same by those makes no difference: not to what is reported, and not to how it is found out. The
limit on the number of sweeps is not looked at during a sweep, so another limit makes no difference
to that either.

The table of the standard library is long. Where all intrinsics of a program are listed one by one,
the short table of these will do.

## Main definitions

* `Analyzer.replacing`: an analysis with another table and another limit.
* `Analyzer.Retains`: calls of the intrinsics of the program still produce the same.
* `Analyzer.consulting`: an analysis with another table.
* `Analyzer.Agrees`: the table means the same by the intrinsics of the program.
* `IntrinsicTable.own`: the intrinsics that are listed one by one.

## Main statements

* `Analyzer.Retains.sweep`, `Analyzer.Retains.visitsOfCalls`: sweeps go on as before.
* `Analyzer.Agrees.run`, `Analyzer.Agrees.reportVisits`: the other table makes no difference.
* `Analyzer.agrees_own`: when the short table will do.
-/

namespace ClosedWorld

/-- Values are tagged as the program says, whatever the configuration. -/
theorem Setting.retag_eq_of_view {g g' : Setting} (same : g'.view = g.view) :
    g'.retag = g.retag := by
  obtain ⟨view, config⟩ := g'
  cases same
  have atoms : Setting.retagAtoms ⟨g.view, config⟩ = g.retagAtoms := by
    funext s choice sofar atoms
    induction atoms generalizing sofar with
    | nil => rfl
    | cons atom rest ih =>
      unfold retagAtoms
      exact bind_congr fun tagged => ih _
  unfold retag
  rw [atoms]

namespace Analyzer

/-- The analysis with another table of intrinsics and another limit on the number of sweeps. -/
def replacing (z : Analyzer) (table : IntrinsicTable) (limit : Option Nat) : Analyzer where
  view := z.view
  config := { z.config with maxIterations := limit }
  intrinsics := table

/-- Calls of the intrinsics of the program produce the same with the other table and limit. -/
def Retains (z : Analyzer) (table : IntrinsicTable) (limit : Option Nat) : Prop :=
  ∀ name, z.view.HasIntrinsic name → (z.replacing table limit).produced name = z.produced name

namespace Retains

variable {z : Analyzer} {table : IntrinsicTable} {limit : Option Nat} (h : z.Retains table limit)

include h

/-! ### Accesses -/

/-- An intrinsic of the program results in the same with the other table. -/
theorem intrinsicResult {clazz : ClazzId} (kind : (z.view.info clazz).kind = .intrinsic)
    (id : CallId) :
    (z.replacing table limit).intrinsicResult id clazz = z.intrinsicResult id clazz := by
  have has : z.view.HasIntrinsic (z.intrinsicName clazz) := ⟨clazz, kind, rfl⟩
  rw [intrinsicResult_eq, intrinsicResult_eq, ← h _ has]
  rfl

/-- Asking a call for its result comes to the same with the other table and limit. -/
theorem callResult : (z.replacing table limit).callResult = z.callResult := by
  funext id
  unfold Analyzer.callResult
  refine bind_congr fun s => bind_congr fun key => ?_
  by_cases intrinsic : (!key.pre && decide ((z.view.info key.clazz).kind = .intrinsic)) = true
  · have kind : (z.view.info key.clazz).kind = .intrinsic := by
      simp only [Bool.and_eq_true, decide_eq_true_eq] at intrinsic
      exact intrinsic.2
    rw [h.intrinsicResult kind]
    rfl
  · exact (if_neg intrinsic).trans (if_neg intrinsic).symm

/-- Entering a clazz comes to the same with the other table and limit. -/
theorem enter : (z.replacing table limit).enter = z.enter := by
  funext act target args clazz pre
  unfold Analyzer.enter
  rw [h.callResult]
  rfl

/-- Calling one clazz comes to the same with the other table and limit. -/
theorem callOne : (z.replacing table limit).callOne = z.callOne := by
  funext act site target args clazz
  unfold Analyzer.callOne
  rw [h.enter]
  rfl

omit h in
/-- Assigning to a field comes to the same with the other table and limit. -/
theorem assignOne : (z.replacing table limit).assignOne = z.assignOne := by
  have retag : (z.replacing table limit).retag = z.retag := Setting.retag_eq_of_view rfl
  unfold Analyzer.assignOne
  rw [retag]
  rfl

/-- Accessing one clazz comes to the same with the other table and limit. -/
theorem accessOne : (z.replacing table limit).accessOne = z.accessOne := by
  funext act site target mode clazz
  unfold Analyzer.accessOne
  rw [h.callOne, assignOne]

/-- Accessing one clazz after the other comes to the same with the other table and limit. -/
theorem accessEach : (z.replacing table limit).accessEach = z.accessEach := by
  funext act site mode pairs
  induction pairs with
  | nil => rfl
  | cons pair rest ih =>
    funext found sofar
    unfold Analyzer.accessEach
    rw [h.accessOne, ih]

/-- An access comes to the same with the other table and limit. -/
theorem access : (z.replacing table limit).access = z.access := by
  funext act site access target mode
  unfold Analyzer.access
  rw [h.accessEach, h.accessOne]
  rfl

/-- A call comes to the same with the other table and limit. -/
theorem call : (z.replacing table limit).call = z.call := by
  funext act site access target args
  unfold Analyzer.call
  rw [h.enter, h.access]
  rfl

/-- All instructions come to the same with the other table and limit. -/
theorem processor : (z.replacing table limit).processor = z.processor := by
  funext act
  unfold Analyzer.processor
  rw [h.access, h.call]
  rfl

/-! ### Sweeps -/

/-- The analysis of a call comes to the same with the other table and limit. -/
theorem analyze : (z.replacing table limit).analyze = z.analyze := by
  funext id
  unfold Analyzer.analyze
  rw [h.processor]
  rfl

/-- The analysis of several calls comes to the same with the other table and limit. -/
theorem analyzeAll : (z.replacing table limit).analyzeAll = z.analyzeAll := by
  funext ids
  induction ids with
  | nil => rfl
  | cons id rest ih =>
    unfold Analyzer.analyzeAll
    rw [h.analyze, ih]

/-- A sweep comes to the same with the other table and limit, as the limit is looked at between
sweeps only. -/
theorem sweep : (z.replacing table limit).sweep = z.sweep := by
  unfold Analyzer.sweep
  rw [h.analyzeAll]
  rfl

/-- The pass that records findings comes to the same with the other table and limit. -/
theorem report : (z.replacing table limit).report = z.report := by
  unfold Analyzer.report
  rw [h.sweep]

/-! ### Visits -/

/-- The visits in the code of a call are the same with the other table and limit. -/
theorem visitsOfCall : (z.replacing table limit).visitsOfCall = z.visitsOfCall := by
  funext id a
  unfold Analyzer.visitsOfCall Analyzer.visitsOfCode
  rw [h.processor]
  rfl

/-- The visits in the code of several calls are the same with the other table and limit. -/
theorem visitsOfCalls : (z.replacing table limit).visitsOfCalls = z.visitsOfCalls := by
  funext ids
  induction ids with
  | nil => rfl
  | cons id rest ih =>
    funext a
    unfold Analyzer.visitsOfCalls
    rw [h.visitsOfCall, h.analyze, ih]

/-- The calls of one clazz after the other are the same with the other table and limit. -/
theorem entriesOfEach : (z.replacing table limit).entriesOfEach = z.entriesOfEach := by
  funext act site args pairs
  induction pairs with
  | nil => rfl
  | cons pair rest ih =>
    funext a
    unfold Analyzer.entriesOfEach
    rw [h.callOne, ih]
    rfl

/-- The calls that an instruction makes are the same with the other table and limit. -/
theorem entriesOfVisit : (z.replacing table limit).entriesOfVisit = z.entriesOfVisit := by
  funext act visit
  unfold Analyzer.entriesOfVisit Analyzer.entriesOfCall Analyzer.entriesOfAccess Analyzer.check
  rw [h.entriesOfEach, h.enter]
  rfl

/-- What a call does is the same with the other table and limit. -/
theorem outcomeOf : (z.replacing table limit).outcomeOf = z.outcomeOf := by
  funext e
  unfold Analyzer.outcomeOf
  rw [h.enter]

end Retains

/-! ### Another table -/

/-- The analysis with another table of intrinsics. -/
def consulting (z : Analyzer) (table : IntrinsicTable) : Analyzer := { z with intrinsics := table }

/-- The table means the same by the intrinsics of the program. -/
def Agrees (z : Analyzer) (table : IntrinsicTable) : Prop :=
  ∀ name, z.view.HasIntrinsic name → table.find? name = z.intrinsics.find? name

namespace Agrees

variable {z : Analyzer} {table : IntrinsicTable} (h : z.Agrees table)

include h

/-- A table that `Agrees` with that of the analysis is one that it `Retains`, with its own limit. -/
theorem retains : z.Retains table z.config.maxIterations := by
  intro name has
  funext id
  have found : (z.replacing table z.config.maxIterations).intrinsics.find? name =
      z.intrinsics.find? name := h name has
  unfold produced
  rw [found]
  rfl

/-- The analysis of a call does not depend on which of two tables that agree is consulted. -/
theorem analyze : (z.consulting table).analyze = z.analyze := h.retains.analyze

/-- A sweep does not depend on which of two tables that agree is consulted. -/
theorem sweep : (z.consulting table).sweep = z.sweep := h.retains.sweep

/-- The sweeps until an analysis settles do not depend on which of two tables that agree is
consulted. -/
theorem settle : (z.consulting table).settle = z.settle := by
  funext patience
  induction patience with
  | zero => rfl
  | succ patience ih =>
    unfold Analyzer.settle
    rw [h.sweep, ih]
    rfl

/-- A run does not depend on which of two tables that agree is consulted. -/
theorem run : (z.consulting table).run = z.run := by
  funext patience a
  unfold Analyzer.run Analyzer.report
  rw [h.settle, h.sweep]
  rfl

/-- The visits of the pass that reports do not depend on which of two tables that agree is
consulted. -/
theorem reportVisits : (z.consulting table).reportVisits = z.reportVisits := by
  funext patience a
  have visits : (z.consulting table).visitsOfCalls = z.visitsOfCalls := h.retains.visitsOfCalls
  unfold Analyzer.reportVisits Analyzer.visitsOfSweep
  rw [h.settle, visits]
  rfl

/-- The calls that an instruction makes do not depend on which of two tables that agree is
consulted. -/
theorem entriesOfVisit : (z.consulting table).entriesOfVisit = z.entriesOfVisit :=
  h.retains.entriesOfVisit

/-- What a call does does not depend on which of two tables that agree is consulted. -/
theorem outcomeOf : (z.consulting table).outcomeOf = z.outcomeOf := h.retains.outcomeOf

end Agrees

end Analyzer

/-! ### Intrinsics that are listed one by one -/

namespace IntrinsicTable

/-- The entries of the intrinsics that are listed one by one: those that have a meaning of their
own, and those that are known to have none. -/
def ownEntries : List (String × Intrinsic) :=
  individual.map (fun (name, meaning) => (name, .handler meaning)) ++
    unsupported.map (fun name => (name, .unsupported))

/-- The intrinsics that are listed one by one. -/
def own : IntrinsicTable :=
  ownEntries.foldl (fun table (name, intrinsic) => table.insert name intrinsic) .empty

/-- The short table `own` means the same by its intrinsics as the long one. -/
theorem find?_own {name : String} (listed : name ∈ ownEntries.map Prod.fst) :
    own.find? name = standard.find? name := by
  have known : (ownEntries.reverse.lookup name).isSome := by
    obtain ⟨e, he, rfl⟩ := List.mem_map.1 listed
    exact List.lookup_isSome_iff.2 ⟨e, List.mem_reverse.2 he, beq_self_eq_true e.1⟩
  obtain ⟨intrinsic, found⟩ := Option.isSome_iff_exists.1 known
  unfold own standard standardEntries
  rw [List.append_assoc _ (individual.map _), find?_foldl_insert, find?_foldl_insert,
    List.reverse_append, List.lookup_append]
  change (ownEntries.reverse.lookup name).or _ = ((ownEntries.reverse.lookup name).or _).or _
  rw [found]
  rfl

end IntrinsicTable

namespace Analyzer

/-- The short table will do where all intrinsics of a program are listed one by one. -/
theorem agrees_own {z : Analyzer} (hz : z.intrinsics = .standard)
    (listed : ∀ e ∈ z.view.clazzes, e.2.kind = .intrinsic →
      e.2.intrinsic.getD e.1 ∈ IntrinsicTable.ownEntries.map Prod.fst) :
    z.Agrees .own := by
  rintro name ⟨clazz, kind, named⟩
  have known : z.view.entry clazz ∈ z.view.clazzes := Program.entry_mem_of_ne fun unknown => by
    unfold Program.info at kind
    rw [unknown] at kind
    cases kind
  rw [hz]
  exact IntrinsicTable.find?_own (named ▸ listed _ known kind)

end Analyzer

end ClosedWorld
