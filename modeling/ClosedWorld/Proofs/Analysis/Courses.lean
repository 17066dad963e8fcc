import ClosedWorld.Proofs.Analysis.Branches

/-!
# The course of an analysis

The walk of a call as it is made step by step, with nothing said of how far it may go. At every
moment there is a place in a block, or an instruction there of which branches are still to be taken,
and around it are the instructions whose branches have been entered. This is a machine that knows no
depth at which to give up. If it ends, then with what the walk of the call yields, as long as no
block contains itself.

## Main definitions

* `Place`, `Fork`, `Course`: how far a walk has got.
* `Analyzer.next`, `Analyzer.runs`: the machine.
* `Course.rest`: what is left of the walk.

## Main statements

* `Analyzer.outcome_next`: a step leaves what is left of the walk as it is.
* `Turn.outcome_leave`: when a block has been left, what is around it remains.
-/

namespace ClosedWorld

/-! ### How far a walk has got -/

/-- A place in a block: the index of the next instruction, and the operand stack, the top of which
is its head. -/
structure Place where
  code : CodeId
  index : Nat
  stack : List Value
  deriving DecidableEq, Repr

namespace Place

/-- The place where a block begins. -/
def start (code : CodeId) : Place := ⟨code, 0, []⟩

/-- The place after the next instruction. -/
def past (place : Place) (stack : List Value) : Place := ⟨place.code, place.index + 1, stack⟩

end Place

/-- An instruction that branches, while its branches are walked. -/
structure Fork where
  /-- Where control continues after the instruction, if it does. -/
  place : Place
  /-- The branches to come. -/
  rest : List Branch
  /-- Control continues after one of the branches before. -/
  continues : Bool
  deriving DecidableEq, Repr

/-- The fork when one more branch has been walked. -/
def Fork.after (fork : Fork) (continues : Bool) : Fork :=
  { fork with continues := fork.continues || continues }

/-- What is to be done next: an instruction, or the rest of one that branches. -/
inductive Focus where
  | instr (place : Place)
  | branching (fork : Fork)
  deriving DecidableEq, Repr

/-- How far the walk of a call has got. -/
structure Course where
  focus : Focus
  /-- The instructions around, the branches of which have been entered, from the inside to the
  outside. -/
  outer : List Fork
  /-- The blocks of the clazz that come after this one. -/
  blocks : List CodeId
  state : Analysis
  deriving DecidableEq, Repr

namespace Course

/-- The course that begins with a block. -/
def start (code : CodeId) (blocks : List CodeId) (s : Analysis) : Course :=
  ⟨.instr (.start code), [], blocks, s⟩

/-- How many blocks are being walked within each other. -/
def depth (c : Course) : Nat := c.outer.length + 1

end Course

/-- What comes of a step. -/
inductive Turn where
  | goesOn (course : Course)
  /-- The walk is over. It yields whether control reaches its end. -/
  | ends (result : Except Fault Bool × Analysis)
  deriving Repr

/-! ### The machine -/

/-- The course after a block has been left: the instruction around it goes on, or the next block of
the clazz begins. -/
def Turn.leave (continues : Bool) (blocks : List CodeId) (s : Analysis) : List Fork → Turn
  | fork :: outer => .goesOn ⟨.branching (fork.after continues), outer, blocks, s⟩
  | [] =>
    match continues, blocks with
    | true, code :: rest => .goesOn (.start code rest s)
    | continues, _ => .ends (.ok continues, s)

namespace Analyzer

variable (z : Analyzer) (act : Activation)

/-- A walk that enters no block. -/
def nowhere : BlockWalk Fault Analysis Value Unit :=
  fun _ code => throw (.walk (.endlessNesting code))

/-- Begins with an instruction: walks it, unless it branches. Yields what is to be done next in the
block, if anything is. -/
def begin (place : Place) (instr : Instr) : Analyzing (Option Focus) :=
  match instr, place.stack with
  | .select m, subject :: stack =>
    return some (.branching
      ⟨place.past stack, m.cases.map (.selected (z.view.isBool m.subject) subject), false⟩)
  | .cond thenCode elseCode, condition :: stack => do
    let codes ← takenBranches condition thenCode elseCode
    return some (.branching ⟨place.past stack, codes.map .block, false⟩)
  | instr, stack => do
    let progress ← walkInstr z.view (z.processor act) nowhere
      ⟨act.key.clazz, place.code, place.index⟩ instr stack
    return progress.stack.map fun stack => .instr (place.past stack)

/-- One step of a walk. -/
def next : Course → Turn
  | ⟨.instr place, outer, blocks, s⟩ =>
    match z.view.instr? place.code place.index with
    | none => .leave true blocks s outer
    | some instr =>
      match (z.begin act place instr).outcome s with
      | (.ok (some focus), s) => .goesOn ⟨focus, outer, blocks, s⟩
      | (.ok none, s) => .leave false blocks s outer
      | (.error fault, s) => .ends (.error fault, s)
  | ⟨.branching ⟨place, branch :: rest, continues⟩, outer, blocks, s⟩ =>
    match (branch.taken act.frame).outcome s with
    | (.ok true, s) =>
      .goesOn ⟨.instr (.start branch.code), ⟨place, rest, continues⟩ :: outer, blocks, s⟩
    | (.ok false, s) => .goesOn ⟨.branching ⟨place, rest, continues⟩, outer, blocks, s⟩
    | (.error fault, s) => .ends (.error fault, s)
  | ⟨.branching ⟨place, [], true⟩, outer, blocks, s⟩ => .goesOn ⟨.instr place, outer, blocks, s⟩
  | ⟨.branching ⟨_, [], false⟩, outer, blocks, s⟩ => .leave false blocks s outer

/-- What comes of so many steps more. -/
def runs : (steps : Nat) → Turn → Turn
  | 0, turn => turn
  | steps + 1, .goesOn c => runs steps (z.next act c)
  | _ + 1, .ends result => .ends result

end Analyzer

/-! ### What is left of a walk -/

section rest

variable (z : Analyzer) (act : Activation)

/-- The walk of a block on behalf of the call. -/
def Analyzer.blockWalk : CodeWalk := walkBlock z.view (z.processor act) act.key.clazz

/-- What is left of a block. -/
def Place.rest (place : Place) : Analyzing Bool :=
  (·.value.isSome) <$> walkInstrs z.view (z.processor act) (walkBlock z.view (z.processor act))
    act.key.clazz place.code (z.view.codeLength place.code - place.index) place.index place.stack []

/-- What is left of an instruction that branches, and of the block after it. -/
def Fork.walkRest (fork : Fork) : Analyzing Bool := do
  let laterContinues ← walkBranches (z.blockWalk act) act.frame fork.rest
  if fork.continues || laterContinues then fork.place.rest z act else return false

/-- What is left of a block. -/
def Focus.rest : Focus → Analyzing Bool
  | .instr place => place.rest z act
  | .branching fork => fork.walkRest z act

/-- Walks blocks up to the first after which control does not continue. -/
def Analyzer.walkBlocks : List CodeId → Analyzing Bool
  | [] => return true
  | code :: rest => do
    if (← z.blockWalk act code).value.isSome then walkBlocks rest else return false

/-- What is left when a block has been left. -/
def Fork.restAround (blocks : List CodeId) : List Fork → (continues : Bool) → Analyzing Bool
  | [], continues => if continues then z.walkBlocks act blocks else return false
  | fork :: outer, continues => do
    restAround blocks outer (← (fork.after continues).walkRest z act)

/-- What is left of the walk of a call. -/
def Course.rest (c : Course) : Analyzing Bool := do
  Fork.restAround z act c.blocks c.outer (← c.focus.rest z act)

/-- What the walk ends with. -/
def Turn.outcome : Turn → Except Fault Bool × Analysis
  | goesOn c => (c.rest z act).outcome c.state
  | ends result => result

end rest

section steps

variable {z : Analyzer} {act : Activation} {place : Place}

/-! ### Single instructions -/

/-- The outputs of an analysis say nothing, so a walk does not depend on those before. -/
theorem walkInstrs_outputs {nested : BlockWalk Fault Analysis Value Unit} {clazz : ClazzId}
    {code : CodeId} {remaining index : Nat} {stack : List Value} (outputs : List Unit) :
    walkInstrs z.view (z.processor act) nested clazz code remaining index stack outputs =
      walkInstrs z.view (z.processor act) nested clazz code remaining index stack [] := by
  induction remaining generalizing index stack outputs with
  | zero => rfl
  | succ remaining ih =>
    unfold walkInstrs
    simp only [ih (outputs ++ _), ih ([] ++ _)]
    rfl

variable (told : ∀ code, z.view.codeLength code = (z.view.block code).length)

include told

/-- Nothing is left at the end of a block. -/
theorem Place.rest_of_end (ended : z.view.instr? place.code place.index = none) :
    place.rest z act = pure true := by
  have none : z.view.codeLength place.code - place.index = 0 := by
    rw [told]
    exact Nat.sub_eq_zero_of_le (List.getElem?_eq_none_iff.1 ended)
  unfold rest
  rw [none]
  rfl

/-- Of a block there is left the next instruction, and what comes after it. -/
theorem Place.rest_of_instr {instr : Instr}
    (found : z.view.instr? place.code place.index = some instr) :
    place.rest z act = (do
      let progress ← walkInstr z.view (z.processor act) (walkBlock z.view (z.processor act))
        ⟨act.key.clazz, place.code, place.index⟩ instr place.stack
      match progress.stack with
      | none => return false
      | some stack => (place.past stack).rest z act) := by
  have more : z.view.codeLength place.code - place.index =
      (z.view.codeLength place.code - (place.index + 1)) + 1 := by
    have inside := (List.getElem?_eq_some_iff.1 found).1
    rw [told]
    omega
  unfold rest
  rw [more, walkInstrs, found]
  simp only [map_bind]
  refine (pure_bind _ _).trans (bind_congr fun progress => ?_)
  cases progress.stack with
  | none => rfl
  | some stack => exact congrArg ((·.value.isSome) <$> ·) (walkInstrs_outputs _)

omit told in
/-- A fork is left of an instruction that takes its subject and walks branches. -/
theorem Place.rest_of_branches (stack : List Value) (branches : List Branch) :
    (do
      let progress ← Progress.keeping stack <$> answerIf <$>
        walkBranches (z.blockWalk act) act.frame branches
      match progress.stack with
      | none => return false
      | some stack => (place.past stack).rest z act) =
        Fork.walkRest z act ⟨place.past stack, branches, false⟩ := by
  unfold Fork.walkRest
  rw [map_eq_pure_bind, map_eq_pure_bind]
  simp only [bind_assoc, pure_bind]
  refine bind_congr fun continues => ?_
  cases continues <;> rfl

/-- The machine begins with an instruction as the walk does. -/
theorem Place.rest_of_begin {instr : Instr}
    (found : z.view.instr? place.code place.index = some instr) :
    place.rest z act = (do
      match ← z.begin act place instr with
      | none => return false
      | some focus => focus.rest z act) := by
  rw [rest_of_instr told found]
  -- what takes no branches is walked in the same way if there are no blocks to enter
  have plain {step : Analyzing (Progress Value Unit)} :
      (do
        match (← step).stack with
        | none => return false
        | some stack => (place.past stack).rest z act) =
      (do
        match ← (do return (← step).stack.map fun stack => Focus.instr (place.past stack)) with
        | none => return false
        | some focus => focus.rest z act) := by
    rw [bind_assoc]
    refine bind_congr fun progress => ?_
    rw [pure_bind]
    cases progress.stack <;> rfl
  obtain ⟨code, index, stack⟩ := place
  cases instr with
  | select m =>
    cases stack with
    | nil => exact plain
    | cons subject stack =>
      dsimp only [Analyzer.begin]
      rw [walkInstr, Analyzer.processor_select, pure_bind]
      exact rest_of_branches stack _
  | cond thenCode elseCode =>
    cases stack with
    | nil => exact plain
    | cons condition stack =>
      dsimp only [Analyzer.begin]
      rw [walkInstr, Analyzer.processor_cond]
      cases takenBranches condition thenCode elseCode with
      | error fault => rfl
      | ok codes => exact rest_of_branches stack (codes.map .block)
  | _ => exact plain

omit told

/-! ### Branches -/

/-- When all branches have been walked, control continues after the instruction or not at all. -/
theorem Fork.walkRest_nil (continues : Bool) :
    Fork.walkRest z act ⟨place, [], continues⟩ =
      if continues then place.rest z act else return false := by
  unfold walkRest
  rw [walkBranches, pure_bind, Bool.or_false]

variable (entered : ∀ code,
  (·.value.isSome) <$> z.blockWalk act code = (Place.start code).rest z act)

include entered

/-- A branch that is taken is walked from the start of its block, and the others come after. -/
theorem Fork.walkRest_cons {branch : Branch} {rest : List Branch} {continues : Bool} :
    Fork.walkRest z act ⟨place, branch :: rest, continues⟩ = (do
      if ← branch.taken act.frame then
        let here ← (Place.start branch.code).rest z act
        (Fork.after ⟨place, rest, continues⟩ here).walkRest z act
      else Fork.walkRest z act ⟨place, rest, continues⟩) := by
  unfold walkRest
  rw [walkBranches, Branch.walk]
  simp only [bind_assoc, pure_bind]
  refine bind_congr fun taken => ?_
  cases taken with
  | true =>
    rw [← entered]
    simp only [after, Bool.or_assoc, if_true, bind_assoc, bind_map_left, pure_bind]
  | false =>
    rw [if_neg Bool.false_ne_true, if_neg Bool.false_ne_true, pure_bind]
    rfl

/-! ### Steps -/

/-- The result of `Turn.leave` is what remains around a block when it has been left. -/
theorem Turn.outcome_leave (continues : Bool) (blocks : List CodeId) (s : Analysis)
    (outer : List Fork) :
    (leave continues blocks s outer).outcome z act =
      (Fork.restAround z act blocks outer continues).outcome s := by
  cases outer with
  | cons fork outer => rfl
  | nil =>
    cases continues with
    | false => rfl
    | true =>
      cases blocks with
      | nil => rfl
      | cons code rest =>
        show ((Place.start code).rest z act >>= Fork.restAround z act rest []).outcome s =
          (z.walkBlocks act (code :: rest)).outcome s
        rw [← entered, bind_map_left]
        rfl

include told

/-- A step of the machine leaves what is left of the walk as it is, or it ends as that does. -/
theorem Analyzer.outcome_next (c : Course) :
    (z.next act c).outcome z act = (c.rest z act).outcome c.state := by
  obtain ⟨focus, outer, blocks, s⟩ := c
  unfold Course.rest
  match focus with
  | .instr place =>
    dsimp only [next, Focus.rest]
    cases found : z.view.instr? place.code place.index with
    | none =>
      rw [Place.rest_of_end told found, pure_bind]
      exact Turn.outcome_leave entered true blocks s outer
    | some instr =>
      rw [Place.rest_of_begin told found, bind_assoc, Attempt.outcome_bind]
      dsimp only
      obtain ⟨fault | _ | focus, s'⟩ := (z.begin act place instr).outcome s
      · rfl
      · exact Turn.outcome_leave entered false blocks s' outer
      · rfl
  | .branching ⟨place, branch :: rest, continues⟩ =>
    dsimp only [next, Focus.rest]
    rw [Fork.walkRest_cons entered, bind_assoc, Attempt.outcome_bind]
    obtain ⟨fault | taken, s'⟩ := (branch.taken act.frame).outcome s
    · rfl
    · cases taken with
      | false => rfl
      | true =>
        dsimp only
        rw [if_pos rfl, bind_assoc]
        rfl
  | .branching ⟨place, [], true⟩ =>
    dsimp only [next, Focus.rest]
    rw [Fork.walkRest_nil]
    rfl
  | .branching ⟨place, [], false⟩ =>
    dsimp only [next, Focus.rest]
    rw [Fork.walkRest_nil]
    exact Turn.outcome_leave entered false blocks s outer

end steps

/-! ### Whole walks -/

namespace Analyzer

variable {z : Analyzer} (act : Activation)

/-- A block is walked from its start. -/
theorem blockWalk_eq (nests : ∀ code, z.view.NestsWithin z.view.nestingLimit code) (code : CodeId) :
    (·.value.isSome) <$> z.blockWalk act code = (Place.start code).rest z act := by
  unfold blockWalk
  rw [Machine.walkBlock_eq (confined_processor z act) nests]
  rfl

/-- Several blocks are walked one after the other. -/
theorem walkContracts_eq (blocks : List CodeId) (outputs : List Unit) :
    walkContracts z.view (z.processor act) act.key.clazz blocks outputs >>=
        Machine.conclude (z.processor act) =
      answerIf <$> z.walkBlocks act blocks := by
  induction blocks generalizing outputs with
  | nil => rfl
  | cons code rest ih =>
    rw [walkContracts, walkBlocks, bind_assoc, map_bind]
    refine bind_congr fun step => ?_
    cases ended : step.value with
    | none => rfl
    | some value => exact ih _

/-- The blocks of a clazz are walked one after the other. -/
theorem walkClazz_eq {pre : Bool} {blocks : List CodeId}
    (found : Machine.blocksOf z.view act.key.clazz pre = .ok blocks) :
    walkClazz z.view (z.processor act) act.key.clazz pre =
      answerIf <$> z.walkBlocks act blocks := by
  rw [Machine.walkClazz_eq, found]
  exact walkContracts_eq act blocks []

end Analyzer

end ClosedWorld
