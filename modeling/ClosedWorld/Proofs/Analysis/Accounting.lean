import ClosedWorld.Proofs.Analysis.Entries
import ClosedWorld.Proofs.Analysis.Options
import ClosedWorld.Proofs.Walk.Ledger

/-!
# Accounting for what is found

That an intrinsic has no meaning is found when a call of it is asked for its result. The calls that
the instructions make account for what is found in this way during a walk: nothing else finds it.

## Main definitions

* `Analyzer.LacksMeaning`: calls of intrinsics that have no meaning.
* `Analysis.ledger`: the ledger in which findings account for what has been found.
* `Analyzer.foundAt`: what is found when a call is made.

## Main statements

* `Ledger.accounts_entriesOfCall`: the calls that an instruction makes account for what it finds.
* `Ledger.accounts_visitsOfCalls`: so do the visits of an analysis.
-/

namespace ClosedWorld

/-- Items account for what has been found of intrinsics that have no meaning. -/
def Analysis.ledger : Ledger Analysis Diagnostic where
  Balances a l b := b.reporting = a.reporting ∧ ∀ d : Diagnostic, d.isUnsupported = true →
    (d ∈ b.diagnostics ↔ d ∈ a.diagnostics ∨ a.reporting = true ∧ d ∈ l)
  refl a := ⟨rfl, fun d _ => by simp⟩
  trans {a b c l l'} h h' := by
    refine ⟨h'.1.trans h.1, fun d unsupported => ?_⟩
    rw [h'.2 d unsupported, h.2 d unsupported, h.1, List.mem_append, or_assoc, ← and_or_left]

/-! ### Elementary steps -/

namespace Ledger

variable {α τ : Type} {a : Analysis}

/-- A step that leaves the findings as they are needs no accounting for. -/
theorem overlooks_of_notes {step : Analyzing α}
    (notes : (step.outcome a).2.reporting = a.reporting ∧
      (step.outcome a).2.diagnostics = a.diagnostics) : Analysis.ledger.Overlooks step a := by
  intro x a' run
  obtain ⟨reporting, found⟩ := notes
  rw [run] at reporting found
  refine ⟨reporting, fun d _ => ?_⟩
  rw [found]
  simp

/-- Operations on the store find nothing. -/
theorem overlooks_onStore (step : Updating α) : Analysis.ledger.Overlooks (onStore step) a :=
  overlooks_of_notes ⟨rfl, rfl⟩

/-- Recording a dispatch finds nothing. -/
theorem overlooks_recordDispatch (site : Site) (clazz : ClazzId) :
    Analysis.ledger.Overlooks (recordDispatch site clazz) a :=
  overlooks_of_notes ⟨rfl, rfl⟩

/-- Making a call finds nothing. -/
theorem overlooks_newCall (g : Setting) (key : CallKey) (origin : CallId) :
    Analysis.ledger.Overlooks (g.newCall key origin) a :=
  overlooks_of_notes (AnalysisDiscipline.notes_newCall (z := { g with }) key origin a)

/-- What is found is accounted for by itself. -/
theorem accounts_diagnose (d : Diagnostic) : Analysis.ledger.Accounts (diagnose d) [d] a := by
  intro x a' run
  have found := diagnostics_diagnose d a
  have kept := reporting_diagnose d a
  rw [run] at found kept
  refine ⟨kept, fun e _ => ?_⟩
  rw [found, List.mem_singleton]
  by_cases new : a.reporting = true ∧ d ∉ a.diagnostics
  · rw [if_pos new, List.mem_append, List.mem_singleton]
    simp [new.1]
  · rw [if_neg new]
    refine ⟨.inl, fun h => h.elim id fun ⟨reporting, same⟩ => ?_⟩
    by_contra missing
    exact new ⟨reporting, same ▸ missing⟩

/-- Findings of other kinds need no accounting for. -/
theorem overlooks_diagnose {d : Diagnostic} (other : d.isUnsupported = false) :
    Analysis.ledger.Overlooks (diagnose d) a := by
  intro x a' run
  obtain ⟨reporting, found⟩ := accounts_diagnose d x a' run
  refine ⟨reporting, fun e unsupported => ?_⟩
  have differs : e ≠ d := by
    rintro rfl
    rw [other] at unsupported
    cases unsupported
  simp [found e unsupported, differs]

/-- A step that reads the store first is accounted for if what comes then is. -/
theorem accounts_currentStore_bind {L : Ledger Analysis τ} {next : Store → Analyzing α}
    {items : List τ} (h : L.Accounts (next a.store) items a) :
    L.Accounts (currentStore >>= next) items a := h

end Ledger

/-! ### Intrinsics that have a meaning -/

namespace Handler

open Ledger

variable {a : Analysis}

/-- Writing elements into arrays finds nothing. -/
theorem overlooks_writeElements (value : Value) (arrays : List Value) :
    Analysis.ledger.Overlooks (writeElements value arrays) a := by
  induction arrays generalizing a with
  | nil => exact .pure _
  | cons atom rest ih =>
    exact (Accounts.lift _).bind_nothing fun _ _ =>
      (overlooks_onStore _).bind_nothing fun _ _ => ih

variable (g : Setting) (id : CallId)

/-- The meaning `anyResult` finds nothing. -/
theorem overlooks_anyResult : Analysis.ledger.Overlooks (anyResult g id) a := by
  refine accounts_currentStore_bind (.bind_nothing (.lift _) fun key _ => ?_)
  split
  · exact .throw _
  · exact (Accounts.lift _).bind_nothing fun n _ => .pure _

/-- The meaning `arraySetel` finds nothing. -/
theorem overlooks_arraySetel : Analysis.ledger.Overlooks (arraySetel g id) a :=
  accounts_currentStore_bind ((Accounts.lift _).bind_nothing fun _ _ =>
    (Accounts.lift _).bind_nothing fun _ _ => (Accounts.lift _).bind_nothing fun _ _ =>
      (overlooks_writeElements _ _).bind_nothing fun _ _ => .pure _)

/-- The meaning `arrayGet` finds nothing. -/
theorem overlooks_arrayGet : Analysis.ledger.Overlooks (arrayGet g id) a :=
  accounts_currentStore_bind ((Accounts.lift _).bind_nothing fun _ _ =>
    (Accounts.lift _).bind_nothing fun _ _ => (Accounts.lift _).bind_nothing fun _ _ => .pure _)

/-- The meaning `effectDefault` finds nothing. -/
theorem overlooks_effectDefault : Analysis.ledger.Overlooks (effectDefault g id) a :=
  accounts_currentStore_bind ((Accounts.lift _).bind_nothing fun _ _ =>
    (Accounts.lift _).bind_nothing fun _ _ =>
      (overlooks_onStore _).bind_nothing fun _ _ => .pure _)

/-- The meaning `effectReplace` finds nothing. -/
theorem overlooks_effectReplace : Analysis.ledger.Overlooks (effectReplace g id) a :=
  accounts_currentStore_bind ((Accounts.lift _).bind_nothing fun _ _ =>
    (Accounts.lift _).bind_nothing fun _ _ =>
      (overlooks_onStore _).bind_nothing fun _ _ => .pure _)

/-- The meaning `effectAbortable` finds nothing: it makes a call, which it does not ask for its
result. -/
theorem overlooks_effectAbortable : Analysis.ledger.Overlooks (effectAbortable g id) a := by
  refine accounts_currentStore_bind (.bind_nothing (.lift _) fun key _ =>
    .bind_nothing (.lift _) fun effect _ => ?_)
  split
  · exact .throw _
  · split
    · exact .throw _
    · exact (Accounts.lift _).bind_nothing fun target _ =>
        (overlooks_onStore _).bind_nothing fun env _ =>
          (overlooks_newCall _ _ _).bind_nothing fun call _ => .pure _

/-- The meaning `effectExists` finds nothing. -/
theorem overlooks_effectExists : Analysis.ledger.Overlooks (effectExists g id) a := by
  refine accounts_currentStore_bind (.bind_nothing (.lift _) fun key _ => ?_)
  split
  · exact .throw _
  · exact (Accounts.lift _).bind_nothing fun installed _ => .pure _

end Handler

open Handler Ledger in
/-- An intrinsic that has a meaning finds nothing. -/
theorem IntrinsicTable.overlooks_handler {name : String} {meaning : Handler}
    (hm : standard.find? name = some (.handler meaning)) (g : Setting) (id : CallId)
    (a : Analysis) : Analysis.ledger.Overlooks (meaning g id) a := by
  obtain rfl | rfl | listed := mem_individual_of_standard hm
  · exact overlooks_anyResult g id
  · exact .pure _
  · simp only [individual, List.mem_cons, List.not_mem_nil, or_false, Prod.mk.injEq] at listed
    rcases listed with ⟨rfl, rfl⟩ | ⟨rfl, rfl⟩ | ⟨rfl, rfl⟩ | ⟨rfl, rfl⟩ | ⟨rfl, rfl⟩ | ⟨rfl, rfl⟩ |
      ⟨rfl, rfl⟩ | ⟨rfl, rfl⟩ | ⟨rfl, rfl⟩ | ⟨rfl, rfl⟩ | ⟨rfl, rfl⟩
    · exact .pure _
    · exact .pure _
    · exact .pure _
    · exact (overlooks_onStore _).bind_nothing fun array _ => .pure _
    · exact overlooks_arraySetel g id
    · exact overlooks_arrayGet g id
    · exact overlooks_effectDefault g id
    · exact overlooks_effectReplace g id
    · exact overlooks_effectAbortable g id
    · exact .pure _
    · exact overlooks_effectExists g id

/-! ### Calls without a meaning -/

/-- The table says what the intrinsic of that name means. -/
def IntrinsicTable.hasHandler (table : IntrinsicTable) (name : String) : Bool :=
  match table.find? name with
  | some (.handler _) => true
  | _ => false

/-- A table says nothing of an intrinsic, as `hasHandler` computes it, just if no meaning is found
in it. -/
theorem IntrinsicTable.hasHandler_eq_false_iff {table : IntrinsicTable} {name : String} :
    table.hasHandler name = false ↔ ∀ meaning, table.find? name ≠ some (.handler meaning) := by
  unfold hasHandler
  split
  · rename_i meaning found
    exact ⟨nofun, fun h => absurd found (h meaning)⟩
  · rename_i other
    exact ⟨fun _ => other, fun _ => rfl⟩

namespace Analyzer

/-- The call is one of the body of an intrinsic that has no meaning. -/
structure LacksMeaning (z : Analyzer) (key : CallKey) : Prop where
  body : key.pre = false
  kind : (z.view.info key.clazz).kind = .intrinsic
  unmeant : z.intrinsics.hasHandler (z.intrinsicName key.clazz) = false

instance (z : Analyzer) : DecidablePred z.LacksMeaning := fun key =>
  decidable_of_iff (key.pre = false ∧ (z.view.info key.clazz).kind = .intrinsic ∧
      z.intrinsics.hasHandler (z.intrinsicName key.clazz) = false)
    ⟨fun ⟨body, kind, unmeant⟩ => ⟨body, kind, unmeant⟩, fun h => ⟨h.body, h.kind, h.unmeant⟩⟩

variable (z : Analyzer)

/-- What is found when the call is asked for its result. -/
def foundIn (id : CallId) (key : CallKey) : List Diagnostic :=
  if z.config.reportIntrinsics = true ∧ z.LacksMeaning key then
    [.unsupportedIntrinsic (z.intrinsicName key.clazz) id]
  else []

/-- What is found when the call is made. -/
def foundAt (e : Entry) : List Diagnostic :=
  (z.newCall e.key e.caller.call).follow (fun id _ => z.foundIn id e.key) e.before

end Analyzer

namespace Ledger

variable {z : Analyzer} (hz : z.intrinsics = .standard) {a : Analysis}

include hz

/-- What an intrinsic produces is accounted for by one finding, if it has no meaning and this is
reported. -/
theorem accounts_produced (name : String) (id : CallId) :
    Analysis.ledger.Accounts (z.produced name id)
      (if z.config.reportIntrinsics = true ∧ z.intrinsics.hasHandler name = false then
        [.unsupportedIntrinsic name id]
      else []) a := by
  by_cases unmeant : z.intrinsics.hasHandler name = false
  · rw [Analyzer.produced_of_unsupported (IntrinsicTable.hasHandler_eq_false_iff.1 unmeant)]
    unfold Analyzer.noteUnsupported
    rw [unmeant]
    refine Accounts.bind_nothing ?_ fun _ _ => .pure _
    cases z.config.reportIntrinsics with
    | true => exact accounts_diagnose _
    | false => exact .pure _
  · obtain ⟨meaning, found⟩ : ∃ meaning, z.intrinsics.find? name = some (.handler meaning) := by
      by_contra none
      exact unmeant (IntrinsicTable.hasHandler_eq_false_iff.2 (not_exists.1 none))
    unfold Analyzer.produced
    rw [found, if_neg fun h => unmeant h.2]
    exact IntrinsicTable.overlooks_handler (hz ▸ found) _ _ _

/-- Asking a call for its result is accounted for by what is `foundIn` the call. -/
theorem accounts_callResult {id : CallId} {key : CallKey}
    (called : a.store.calls.key? id = some key) :
    Analysis.ledger.Accounts (z.callResult id) (z.foundIn id key) a := by
  unfold Analyzer.callResult
  refine accounts_currentStore_bind (.lift_bind fun key' found => ?_)
  cases called.symm.trans (Store.key?_of_callKey found)
  unfold Analyzer.foundIn
  by_cases intrinsic : key.pre = false ∧ (z.view.info key.clazz).kind = .intrinsic
  · have lacks : z.LacksMeaning key ↔
        z.intrinsics.hasHandler (z.intrinsicName key.clazz) = false :=
      ⟨fun h => h.unmeant, fun unmeant => ⟨intrinsic.1, intrinsic.2, unmeant⟩⟩
    rw [if_pos (by simpa using intrinsic), Analyzer.intrinsicResult_eq]
    simp only [lacks]
    refine (accounts_produced hz _ id).bind_nothing fun result _ => ?_
    split
    · exact (overlooks_onStore _).bind_nothing fun _ _ => .pure _
    · exact .pure _
  · have meant : ¬(z.config.reportIntrinsics = true ∧ z.LacksMeaning key) :=
      fun h => intrinsic ⟨h.2.body, h.2.kind⟩
    rw [if_neg (by simpa using intrinsic), if_neg meant]
    refine (Accounts.lift _).bind_nothing fun state _ => ?_
    split
    · exact .pure _
    · split
      · exact .pure _
      · exact (Accounts.lift _).bind_nothing fun _ _ => .pure _

/-! ### What instructions find -/

variable {act : Activation}

/-- Entering a clazz is accounted for by the call that it makes. -/
theorem accounts_entriesOfEnter (target : Value) (args : List Value) (clazz : ClazzId)
    (pre : Bool) :
    (Analysis.ledger.via z.foundAt).Accounts (z.enter act target args clazz pre)
      (z.entriesOfEnter act target args clazz pre a) a := by
  unfold Analyzer.enter Analyzer.entriesOfEnter
  cases (z.view.info clazz).needsCode with
  | false => exact .pure _
  | true =>
    rw [if_neg (by simp), if_pos rfl]
    refine .via ?_
    rw [List.flatMap_singleton]
    -- The call that is asked for its result has the key that it was made with.
    exact Accounts.after (overlooks_newCall _ _ act.call) fun id _ made =>
      (accounts_callResult hz (Setting.key?_of_newCall made)).bind_nothing fun answer _ => .pure _

/-- Calling one clazz is accounted for by the call that it makes, if it makes one. -/
theorem accounts_entriesOfOne (site : Site) (target : Value) (args : List Value)
    (clazz : ClazzId) :
    (Analysis.ledger.via z.foundAt).Accounts (z.callOne act site target args clazz)
      (z.entriesOfOne act target args clazz a) a := by
  unfold Analyzer.callOne Analyzer.entriesOfOne
  cases (z.view.info clazz).kind with
  | routine => exact accounts_entriesOfEnter hz target args clazz false
  | intrinsic => exact accounts_entriesOfEnter hz target args clazz false
  | abstract => exact Accounts.bind_nothing (overlooks_diagnose rfl).via fun _ _ => .pure _
  | field =>
    exact accounts_currentStore_bind ((Accounts.lift _).bind_nothing fun _ _ => .pure _)
  | choice => exact .throw _

/-- Calling one clazz after the other is accounted for by the calls that this makes. -/
theorem accounts_entriesOfEach (site : Site) (args : List Value)
    (pairs : List ((ClazzId × ClazzId) × Value)) (found : Bool) (sofar : Option Value) :
    (Analysis.ledger.via z.foundAt).Accounts
      (z.accessEach act site (.call args) pairs found sofar)
      (z.entriesOfEach act site args pairs a) a := by
  induction pairs generalizing found sofar a with
  | nil => exact .pure _
  | cons pair rest ih =>
    obtain ⟨⟨type, clazz⟩, atom⟩ := pair
    unfold Analyzer.accessEach Analyzer.entriesOfEach
    refine accounts_currentStore_bind (.after (.lift _) fun received a' _ => ?_)
    cases received with
    | false => exact ih found sofar
    | true =>
      exact .after (overlooks_recordDispatch site clazz).via fun _ _ _ =>
        (accounts_entriesOfOne hz site atom args clazz).bind fun result _ _ => ih true _

/-- An access is accounted for by the calls that it makes. -/
theorem accounts_entriesOfAccess (site : Site) (access : Access) (target : Value)
    (args : List Value) :
    (Analysis.ledger.via z.foundAt).Accounts (z.access act site access target (.call args))
      (z.entriesOfAccess act site access target args a) a := by
  unfold Analyzer.access Analyzer.entriesOfAccess
  cases access.dynamic with
  | true =>
    refine (accounts_entriesOfEach hz site args _ false none).bind_nothing fun answer _ => ?_
    dsimp only
    split
    · exact Accounts.bind_nothing (overlooks_diagnose rfl).via fun _ _ => .pure _
    · exact .pure _
  | false =>
    cases (z.view.info access.accessed).needsCode with
    | true => exact accounts_entriesOfOne hz site target args access.accessed
    | false => exact Accounts.bind_nothing (overlooks_diagnose rfl).via fun _ _ => .pure _

/-- The calls that an instruction makes account for what it finds. -/
theorem accounts_entriesOfCall (site : Site) (access : Access) (target : Value)
    (args : List Value) :
    (Analysis.ledger.via z.foundAt).Accounts (z.call act site access target args)
      (z.entriesOfCall act site access target args a) a := by
  rw [Analyzer.call_eq_check]
  unfold Analyzer.entriesOfCall
  have checks : (Analysis.ledger.via z.foundAt).Accounts (z.check act access target args)
      (z.entriesOfCheck act access target args a) a := by
    unfold Analyzer.check Analyzer.entriesOfCheck
    cases z.view.hasPrecondition access.accessed with
    | true => exact accounts_entriesOfEnter hz target args access.accessed true
    | false => exact .pure _
  refine checks.bind fun checked a' _ => ?_
  cases checked.isSome && !access.preOnly with
  | true => exact accounts_entriesOfAccess hz site access target args
  | false => exact .pure _

omit hz

/-- Assigning to a field finds nothing of intrinsics. -/
theorem overlooks_assignOne (target : Value) (values : List Value) (field : ClazzId) :
    Analysis.ledger.Overlooks (z.assignOne target values field) a := by
  unfold Analyzer.assignOne
  split
  · exact (Accounts.lift _).bind_nothing fun value _ =>
      accounts_currentStore_bind ((Accounts.lift _).bind_nothing fun tagged _ =>
        (overlooks_onStore _).bind_nothing fun _ _ => .pure _)
  · exact .pure _

/-- Assigning to one field after the other finds nothing of intrinsics. -/
theorem overlooks_assignEach (site : Site) (values : List Value)
    (pairs : List ((ClazzId × ClazzId) × Value)) (found : Bool) (sofar : Option Value) :
    Analysis.ledger.Overlooks (z.accessEach act site (.assign values) pairs found sofar) a := by
  induction pairs generalizing found sofar a with
  | nil => exact .pure _
  | cons pair rest ih =>
    obtain ⟨⟨type, clazz⟩, atom⟩ := pair
    unfold Analyzer.accessEach
    refine accounts_currentStore_bind (.bind_nothing (.lift _) fun received _ => ?_)
    cases received with
    | false => exact ih found sofar
    | true =>
      exact (overlooks_recordDispatch site clazz).bind_nothing fun _ _ =>
        (overlooks_assignOne atom values clazz).bind_nothing fun result _ => ih true _

/-- Nothing is found of intrinsics by a write, whether it is static or dynamic. -/
theorem overlooks_assign (site : Site) (access : Access) (target : Value) (values : List Value) :
    Analysis.ledger.Overlooks (z.access act site access target (.assign values)) a := by
  unfold Analyzer.access
  cases access.dynamic with
  | true =>
    refine (overlooks_assignEach site values _ false none).bind_nothing fun answer _ => ?_
    dsimp only
    split
    · exact Accounts.bind_nothing (overlooks_diagnose rfl) fun _ _ => .pure _
    · exact .pure _
  | false =>
    cases (z.view.info access.accessed).needsCode with
    | true => exact overlooks_assignOne target values access.accessed
    | false => exact Accounts.bind_nothing (overlooks_diagnose rfl) fun _ _ => .pure _

section constants

variable (g : Setting)

/-- Linking the parts of a constant string finds nothing. -/
theorem overlooks_linkString (layout : ConstStringLayout) (data : List UInt8)
    (string array : InstanceId) (bytes : ArrayId) :
    Analysis.ledger.Overlooks (g.linkString layout data string array bytes) a := by
  unfold Setting.linkString
  split
  · exact .throw _
  · exact (Accounts.lift _).bind_nothing fun length _ =>
      (overlooks_onStore _).bind_nothing fun _ _ => (overlooks_onStore _).bind_nothing fun _ _ =>
        (overlooks_onStore _).bind_nothing fun _ _ => .pure _

/-- A constant string finds nothing. -/
theorem overlooks_constString (creator : ClazzId) (site : Site) (data : List UInt8) :
    Analysis.ledger.Overlooks (g.constString creator site data) a := by
  rw [Setting.constString_eq]
  split
  · exact .throw _
  · refine (overlooks_onStore _).bind_nothing fun string _ =>
      (overlooks_onStore _).bind_nothing fun array _ =>
        (overlooks_onStore _).bind_nothing fun bytes _ => ?_
    unfold Setting.fillString
    split
    · exact (Accounts.lift _).bind_nothing fun element _ =>
        (overlooks_onStore _).bind_nothing fun _ _ => overlooks_linkString g _ _ _ _ _
    · exact overlooks_linkString g _ _ _ _ _

/-- A constant finds nothing. -/
theorem overlooks_constant (creator : ClazzId) (site : Site) (clazz : ClazzId)
    (data : List UInt8) : Analysis.ledger.Overlooks (g.constant? creator site clazz data) a := by
  unfold Setting.constant?
  split
  · exact .pure _
  · exact .pure _
  · exact (overlooks_constString g creator site data).bind_nothing fun v _ => .pure _
  · exact .pure _
  · exact Accounts.bind_nothing (overlooks_diagnose rfl) fun _ _ => .pure _
  · exact Accounts.bind_nothing (overlooks_diagnose rfl) fun _ _ => .pure _

end constants

/-! ### What walks find -/

variable (z act) in
/-- The ledger in which visits account for what has been found. -/
abbrev ofVisits : Ledger Analysis (Visit Analysis Value) :=
  (Analysis.ledger.via z.foundAt).via (z.entriesOfVisit act)

/-- Headers, the unit value and the end of a block find nothing. -/
theorem passes_processor : (ofVisits z act).Passes (z.processor act) where
  header _ _ := .pure _
  unitValue _ := .pure _
  sequence _ _ := .pure _

section blocks

variable {walk : CodeWalk} {visits : CodeId → Analysis → List (Visit Analysis Value)}
  (hw : ∀ code a, (ofVisits z act).Accounts (walk code) (visits code a) a)

include hw

/-- The walk of a case is accounted for by the visits in its block. -/
theorem accounts_visitsOfCase (frame : InstanceId) (subjectIsBool : Bool) (subject : Value)
    (case : MatchCase) :
    (ofVisits z act).Accounts (Analyzer.walkCase walk frame subjectIsBool subject case)
      (Analyzer.visitsOfCase visits frame subjectIsBool subject case a) a := by
  unfold Analyzer.walkCase Analyzer.visitsOfCase
  refine .after (.lift _) fun bound a' _ => ?_
  cases bound with
  | none => exact .pure _
  | some bound =>
    dsimp only
    cases case.field with
    | none => exact (hw case.code a').bind_nothing fun step _ => .pure _
    | some field =>
      exact .after (overlooks_onStore _).via.via fun _ a'' _ =>
        (hw case.code a'').bind_nothing fun step _ => .pure _

/-- The walk of the cases of a match is accounted for by the visits in their blocks. -/
theorem accounts_visitsOfCases (frame : InstanceId) (subjectIsBool : Bool) (subject : Value)
    (cases : List MatchCase) :
    (ofVisits z act).Accounts (walkCases walk frame subjectIsBool subject cases)
      (Analyzer.visitsOfCases walk visits frame subjectIsBool subject cases a) a := by
  induction cases generalizing a with
  | nil => exact .pure _
  | cons case rest ih =>
    rw [Analyzer.walkCases_cons, Analyzer.visitsOfCases_cons]
    exact (accounts_visitsOfCase hw frame subjectIsBool subject case).bind fun _ _ _ =>
      ih.bind_nothing fun _ _ => .pure _

/-- The walk of some branches is accounted for by the visits in them. -/
theorem accounts_visitsOfBranches (codes : List CodeId) :
    (ofVisits z act).Accounts (walkAll walk codes)
      (Analyzer.visitsOfBranches walk visits codes a) a := by
  induction codes generalizing a with
  | nil => exact .pure _
  | cons code rest ih =>
    unfold walkAll Analyzer.visitsOfBranches
    exact (hw code a).bind fun _ _ _ => ih.bind_nothing fun _ _ => .pure _

end blocks

section instructions

variable {α : Type} {visit : Visit Analysis Value} {step : Analyzing α}
  (calls : z.entriesOfVisit act visit = [])

include calls

/-- An instruction that calls nothing is accounted for by what is inside of it. -/
theorem accounts_visit_cons {visits : List (Visit Analysis Value)}
    (h : (ofVisits z act).Accounts step visits a) :
    (ofVisits z act).Accounts step (visit :: visits) a := by
  refine .via (.via ?_)
  rw [List.flatMap_cons, calls]
  exact h

/-- An instruction that finds nothing is accounted for by its own visit. -/
theorem accounts_visit_of_overlooks (h : Analysis.ledger.Overlooks step a) :
    (ofVisits z act).Accounts step [visit] a :=
  accounts_visit_cons calls h.via.via

end instructions

include hz in
/-- The walk of each instruction is accounted for by its visit and the visits inside of it, one case
per instruction. -/
theorem accountsInstrs_processor :
    (ofVisits z act).AccountsInstrs z.view (z.processor act) (z.visitsInside act) := by
  intro nested visits hw visit
  obtain ⟨site, instr, stack, a⟩ := visit
  cases instr with
  -- Most instructions make no calls, so there is nothing to account for. The exceptions are the
  -- calls, and the branches of `select` and `cond`, which account for the visits inside.
  | current => exact accounts_visit_of_overlooks rfl (.map (.pure _))
  | outer => exact accounts_visit_of_overlooks rfl (.map (.pure _))
  | arg index =>
    exact accounts_visit_of_overlooks rfl (.map ((Accounts.lift _).bind_nothing fun _ _ => .pure _))
  | const clazz data =>
    exact accounts_visit_of_overlooks rfl
      (.map ((overlooks_constant _ _ _ _ _).bind_nothing fun _ _ => .pure _))
  | env effect =>
    refine accounts_visit_of_overlooks rfl (.map (accounts_currentStore_bind
      ((Accounts.lift _).bind_nothing fun value _ => ?_)))
    dsimp only
    split
    · exact Accounts.bind_nothing (overlooks_diagnose rfl) fun _ _ => .pure _
    · exact .pure _
  | comment text => exact accounts_visit_of_overlooks rfl (.pure _)
  | assign access =>
    match stack with
    | [] | [_] => exact .throw _
    | value :: target :: rest =>
      exact accounts_visit_of_overlooks rfl
        (((overlooks_assign site access target [value]).bind_nothing fun _ _ => .pure _).bind_nothing
          fun _ _ => .pure _)
  | call access =>
    unfold walkInstr
    dsimp only
    cases dropped : stack.drop (z.view.arity access) with
    | nil => exact .throw _
    | cons target rest =>
      have calls : z.entriesOfVisit act ⟨site, .call access, stack, a⟩ =
          z.entriesOfCall act site access target (stack.take (z.view.arity access)).reverse a := by
        unfold Analyzer.entriesOfVisit
        dsimp only
        rw [dropped]
      refine .map (.bind_nothing (.via ?_) fun _ _ => .pure _)
      show (Analysis.ledger.via z.foundAt).Accounts _ ([_].flatMap _) a
      rw [List.flatMap_singleton, calls]
      exact accounts_entriesOfCall hz site access target _
  | pop | adrOf | unbox | tag =>
    cases stack with
    | nil => exact .throw _
    | cons x rest => exact accounts_visit_of_overlooks rfl (.pure _)
  | box value reference =>
    cases stack with
    | nil => exact .throw _
    | cons x rest =>
      refine accounts_visit_of_overlooks rfl (.map ?_)
      unfold Analyzer.processor
      dsimp only
      split
      · exact .pure _
      · exact (overlooks_onStore _).bind_nothing fun _ _ => .pure _
  | contract kind =>
    cases stack with
    | nil => exact .throw _
    | cons condition rest =>
      refine accounts_visit_of_overlooks rfl (.map ?_)
      unfold Analyzer.processor
      dsimp only
      split
      · exact Accounts.bind_nothing (overlooks_diagnose rfl) fun _ _ => .pure _
      · exact .pure _
  | select m =>
    cases stack with
    | nil => exact .throw _
    | cons subject rest =>
      exact accounts_visit_cons rfl (.map ((accounts_visitsOfCases (hw site.clazz) act.frame
        (z.view.isBool m.subject) subject m.cases).bind_nothing fun _ _ => .pure _))
  | cond thenCode elseCode =>
    cases stack with
    | nil => exact .throw _
    | cons condition rest =>
      exact accounts_visit_cons rfl (.map (.after (.lift _) fun codes _ _ =>
        (accounts_visitsOfBranches (hw site.clazz) codes).bind_nothing fun _ _ => .pure _))

/-! ### What analyses find -/

variable (z) in
/-- The ledger in which the visits of an analysis account for what has been found. -/
abbrev ofActivations : Ledger Analysis (Activation × Visit Analysis Value) :=
  (Analysis.ledger.via z.foundAt).via fun t => z.entriesOfVisit t.1 t.2

include hz

/-- The walk of the code of a call is accounted for by its visits. -/
theorem accounts_visitsOfCode :
    (ofActivations z).Accounts (walkClazz z.view (z.processor act) act.key.clazz act.key.pre)
      (z.visitsOfCode act a) a := by
  unfold Analyzer.visitsOfCode
  refine .via ?_
  rw [List.flatMap_map]
  exact accounts_visitsOfClazz passes_processor (accountsInstrs_processor hz) _ _

/-- Marking the call at the end of its code needs no accounting for. -/
theorem accounts_walkCall :
    (ofActivations z).Accounts
      (do let step ← walkClazz z.view (z.processor act) act.key.clazz act.key.pre
          if step.value.isSome then onStore (Store.markReturns act.call))
      (z.visitsOfCode act a) a := by
  refine (accounts_visitsOfCode hz).bind_nothing fun step _ => ?_
  split
  · exact overlooks_onStore _
  · exact .pure _

/-- The analysis of a call is accounted for by the visits in its code. -/
theorem accounts_visitsOfCall (id : CallId) :
    (ofActivations z).Accounts (z.analyze id) (z.visitsOfCall id a) a := by
  unfold Analyzer.analyze Analyzer.visitsOfCall
  refine accounts_currentStore_bind (.after (.lift _) fun key a₁ _ => ?_)
  dsimp only
  split
  · split
    · exact .throw_bind _ _
    · refine accounts_currentStore_bind (.after (.lift _) fun state a₂ _ => ?_)
      refine .after (overlooks_onStore _) fun _ a₃ _ => ?_
      cases (z.view.info key.clazz).outerRef with
      | none => exact accounts_walkCall hz
      | some outerRef => exact .after (overlooks_onStore _) fun _ _ _ => accounts_walkCall hz
  · exact .pure _

/-- The analysis of several calls is accounted for by the visits in their code, in order. -/
theorem accounts_visitsOfCalls (ids : List CallId) :
    (ofActivations z).Accounts (z.analyzeAll ids) (z.visitsOfCalls ids a) a := by
  induction ids generalizing a with
  | nil => exact .pure _
  | cons id rest ih => exact (accounts_visitsOfCall hz id).bind fun _ _ _ => ih

end Ledger

end ClosedWorld
