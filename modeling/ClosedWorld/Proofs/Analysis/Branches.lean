import ClosedWorld.Proofs.Analysis.Instructions
import ClosedWorld.Proofs.Walk.Machine

/-!
# Branches

A match walks the cases that its subject selects, and a condition walks the branches that it admits.
Both go through a list of branches in order: each of them is entered or not, and its walk knows
nothing of where it comes from. So an analysis enters the blocks of its instruction only.

## Main definitions

* `Branch`: a case of a match, or a block.
* `walkBranches`: branches in order.

## Main statements

* `Analyzer.processor_select`, `Analyzer.processor_cond`: matches and conditions walk branches.
* `Analyzer.confined_processor`: an analysis enters no other blocks.
-/

namespace ClosedWorld

/-- A branch that an instruction may take: the case of a match on a subject, or a block. -/
inductive Branch where
  | selected (subjectIsBool : Bool) (subject : Value) (case : MatchCase)
  | block (code : CodeId)
  deriving DecidableEq, Repr

namespace Branch

/-- The block that is entered. -/
def code : Branch → CodeId
  | selected _ _ case => case.code
  | block code => code

/-- Whether the branch is taken. If a case is, its field is bound. -/
def taken (frame : InstanceId) : Branch → Analyzing Bool
  | selected subjectIsBool subject case => do
    match ← case.boundBy subjectIsBool subject with
    | none => return false
    | some bound =>
      if let some field := case.field then
        onStore (Store.setField field bound (.object frame))
      return true
  | block _ => return true

/-- Walks the block of the branch if it is taken. Yields whether control continues after it. -/
def walk (walk : CodeWalk) (frame : InstanceId) (branch : Branch) : Analyzing Bool := do
  if ← branch.taken frame then return (← walk branch.code).value.isSome
  return false

end Branch

/-- Walks branches in order. Yields whether control continues after one of them. -/
def walkBranches (walk : CodeWalk) (frame : InstanceId) : List Branch → Analyzing Bool
  | [] => return false
  | branch :: rest => do
    let continues ← branch.walk walk frame
    let laterContinues ← walkBranches walk frame rest
    return continues || laterContinues

section branches

variable {walk walk' : CodeWalk} {frame : InstanceId}

/-- Walking a branch that is a case of a match is walking the case. -/
theorem Branch.walk_selected (subjectIsBool : Bool) (subject : Value) (case : MatchCase) :
    (Branch.selected subjectIsBool subject case).walk walk frame =
      Analyzer.walkCase walk frame subjectIsBool subject case := by
  unfold Branch.walk Branch.taken Analyzer.walkCase
  rw [bind_assoc]
  refine bind_congr fun bound => ?_
  cases bound with
  | none => simp
  | some bound =>
    dsimp only
    cases case.field <;> simp [Branch.code]

/-- Walking the cases of a match is walking branches. -/
theorem walkCases_eq_walkBranches (subjectIsBool : Bool) (subject : Value) (cases : List MatchCase) :
    walkCases walk frame subjectIsBool subject cases =
      walkBranches walk frame (cases.map (.selected subjectIsBool subject)) := by
  induction cases with
  | nil => rfl
  | cons case rest ih =>
    rw [Analyzer.walkCases_cons, List.map_cons, walkBranches, Branch.walk_selected, ih]

variable (frame) in
/-- Walking the blocks of a condition is walking branches. -/
theorem walkAll_eq_walkBranches (codes : List CodeId) :
    walkAll walk codes = walkBranches walk frame (codes.map .block) := by
  induction codes with
  | nil => rfl
  | cons code rest ih =>
    rw [walkAll, List.map_cons, walkBranches, ih]
    simp [Branch.walk, Branch.taken, Branch.code]

/-- What comes of branches depends on the walks of their blocks only. -/
theorem walkBranches_congr {branches : List Branch}
    (alike : ∀ branch ∈ branches, walk branch.code = walk' branch.code) :
    walkBranches walk frame branches = walkBranches walk' frame branches := by
  induction branches with
  | nil => rfl
  | cons branch rest ih =>
    obtain ⟨here, later⟩ := List.forall_mem_cons.1 alike
    rw [walkBranches, walkBranches, Branch.walk, Branch.walk, here, ih later]

end branches

/-- A condition takes some of its branches, in order. -/
theorem takenBranches_sublist {condition : Value} {thenCode elseCode : CodeId}
    {codes : List CodeId} (taken : takenBranches condition thenCode elseCode = .ok codes) :
    codes.Sublist [thenCode, elseCode] := by
  unfold takenBranches at taken
  obtain ⟨⟨thenTaken, elseTaken⟩, -, taken⟩ := exists_of_bind_eq_ok taken
  cases taken
  cases thenTaken <;> cases elseTaken <;> simp

namespace Analyzer

variable {z : Analyzer} {act : Activation} {walk : BlockWalk Fault Analysis Value Unit}

/-- A match walks its cases. -/
theorem processor_select (site : Site) (m : Match) (subject : Value) :
    (z.processor act).select walk site m subject =
      answerIf <$> walkBranches (walk site.clazz) act.frame
        (m.cases.map (.selected (z.view.isBool m.subject) subject)) := by
  rw [← walkCases_eq_walkBranches, map_eq_pure_bind]
  rfl

/-- A condition walks the branches that it admits. -/
theorem processor_cond (site : Site) (condition : Value) (thenCode elseCode : CodeId) :
    (z.processor act).cond walk site condition thenCode elseCode = (do
      let codes ← takenBranches condition thenCode elseCode
      answerIf <$> walkBranches (walk site.clazz) act.frame (codes.map .block)) := by
  simp only [← walkAll_eq_walkBranches act.frame, map_eq_pure_bind]
  rfl

variable (z act) in
/-- The processor of an analysis enters the blocks of its instruction only. -/
theorem confined_processor : (z.processor act).Confined where
  select site m subject alike := by
    simp only [processor_select]
    refine congrArg (answerIf <$> ·) (walkBranches_congr fun branch listed => ?_)
    obtain ⟨case, hc, rfl⟩ := List.mem_map.1 listed
    exact alike case.code (List.mem_map_of_mem hc) site.clazz
  cond site condition thenCode elseCode alike := by
    simp only [processor_cond]
    cases taken : takenBranches condition thenCode elseCode with
    | error fault => rfl
    | ok codes =>
      refine congrArg (answerIf <$> ·) (walkBranches_congr fun branch listed => ?_)
      obtain ⟨code, hc, rfl⟩ := List.mem_map.1 listed
      exact alike code ((takenBranches_sublist taken).subset hc) site.clazz

end Analyzer

end ClosedWorld
