import ClosedWorld.Attempt
import ClosedWorld.Program.Basic

/-!
# Processors

Walking code means handing its instructions, one after the other, to a processor that gives them a
meaning. What the values on the operand stack are and what a walk puts out is up to the processor:
an analysis has abstract values and no output, a listing has texts for both.

## Main definitions

* `WalkError`: malformed code.
* `Step`: what a processor answers.
* `Processor`: one function for each instruction.
-/

namespace ClosedWorld

/-- What is wrong with code that cannot be walked. -/
inductive WalkError where
  /-- The instruction takes more operands than the stack holds. -/
  | stackUnderflow (code : CodeId) (index : Nat)
  /-- The clazz has no body. -/
  | missingCode (clazz : ClazzId)
  /-- The clazz has no precondition. -/
  | missingPrecondition (clazz : ClazzId)
  /-- The block is announced to be longer than it is. -/
  | missingInstruction (code : CodeId) (index : Nat)
  /-- Blocks contain each other without end. -/
  | endlessNesting (code : CodeId)
  deriving DecidableEq, Repr

/-- What the error says. -/
def WalkError.message : WalkError → String
  | stackUnderflow code index =>
    "operand stack underflow at " ++ code.text ++ "." ++ Nat.repr index
  | missingCode clazz => clazz.text ++ " has no code"
  | missingPrecondition clazz => clazz.text ++ " has no precondition"
  | missingInstruction code index => "no instruction at " ++ code.text ++ "." ++ Nat.repr index
  | endlessNesting code => code.text ++ " is nested without end"

/-- What a processor answers to an instruction. Without a value, control does not continue past the
instruction. -/
structure Step (V O : Type) where
  value : Option V
  output : O
  deriving DecidableEq, Repr

/-- The walk of a block on behalf of a clazz. -/
abbrev BlockWalk (ε σ V O : Type) := ClazzId → CodeId → Attempt ε σ (Step V O)

/-- A meaning of instructions, with a state `σ`, errors `ε`, values `V` and outputs `O`. -/
structure Processor (ε σ V O : Type) where
  /-- An error in the code as an error of the processor. -/
  malformed : WalkError → ε
  /-- Combines the outputs of consecutive instructions. -/
  sequence : List O → StateM σ O
  /-- What a block yields that is walked to its end. -/
  unitValue : StateM σ V
  /-- Comes before each instruction. -/
  header : Site → StateM σ O
  comment : String → StateM σ O
  /-- The output of an instruction that does nothing. -/
  nop : StateM σ O
  current : ClazzId → Attempt ε σ (Step V O)
  outer : ClazzId → Attempt ε σ (Step V O)
  arg : ClazzId → Nat → Attempt ε σ (Step V O)
  const : Site → ClazzId → List UInt8 → Attempt ε σ (Step V O)
  adrOf : V → Attempt ε σ (Step V O)
  /-- Writes a value into a field of a target. -/
  assign : Site → Access → (target value : V) → Attempt ε σ O
  call : Site → Access → (target : V) → (args : List V) → Attempt ε σ (Step V O)
  box : V → (valueClazz refClazz : ClazzId) → Attempt ε σ (Step V O)
  unbox : V → (refClazz valueClazz : ClazzId) → Attempt ε σ (Step V O)
  tag : ClazzId → V → (valueClazz choice : ClazzId) → Nat → Attempt ε σ (Step V O)
  /-- Reads the installed effect of a type. -/
  env : Site → (effect : ClazzId) → Attempt ε σ (Step V O)
  /-- Branches on a choice; the processor decides which cases are walked. -/
  select : BlockWalk ε σ V O → Site → Match → (subject : V) → Attempt ε σ (Step V O)
  /-- Branches on a boolean; the processor decides which branches are walked. -/
  cond : BlockWalk ε σ V O → Site → (condition : V) → (thenCode elseCode : CodeId) →
    Attempt ε σ (Step V O)
  contract : Site → ContractKind → (condition : V) → Attempt ε σ (Step V O)

end ClosedWorld
