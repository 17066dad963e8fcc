import ClosedWorld.Program.Clazz

/-!
# Instructions

A block is a list of instructions that pass values to each other on an operand stack. The comment
on each instruction gives its effect on the stack, with what it takes before the dashes, the top of
the stack last, and what it leaves after them.

## Main definitions

* `Access`, `MatchCase`, `Match`, `Instr`: instructions and their parts.
* `Instr.references`: the table entries that an instruction mentions.
-/

namespace ClosedWorld

/-- A write of a field or a call. For a dynamic access the targets are all pairs of a receiver type
and the clazz that such a receiver runs. -/
structure Access where
  accessed : ClazzId
  dynamic : Bool := false
  targets : List (ClazzId × ClazzId) := []
  /-- Only the precondition of `accessed` is evaluated. -/
  preOnly : Bool := false
  deriving DecidableEq, Repr

/-- A statically bound access. -/
def Access.fixed (accessed : ClazzId) : Access := { accessed }

/-- An access that is bound by the type of its receiver. -/
def Access.dispatched (accessed : ClazzId) (targets : List (ClazzId × ClazzId)) : Access :=
  { accessed, dynamic := true, targets }

/-- One case of a match. -/
structure MatchCase where
  /-- The tags that select the case. -/
  tags : List Nat
  /-- The field of the current clazz that receives the untagged subject. -/
  field : Option ClazzId
  code : CodeId
  deriving DecidableEq, Repr

/-- An n-way branch on a choice. -/
structure Match where
  /-- The static type of the subject, a choice. -/
  subject : ClazzId
  cases : List MatchCase
  deriving DecidableEq, Repr

/-- One instruction of a block. -/
inductive Instr where
  /-- `-- current` -/
  | current
  /-- `-- outer` -/
  | outer
  /-- `-- arg` -/
  | arg (index : Nat)
  /-- `-- value` -/
  | const (clazz : ClazzId) (data : List UInt8)
  /-- `target value --` -/
  | assign (access : Access)
  /-- `target args.. -- result` -/
  | call (access : Access)
  /-- `value -- boxed` -/
  | box (value reference : ClazzId)
  /-- `boxed -- value` -/
  | unbox (reference value : ClazzId)
  /-- `value -- address` -/
  | adrOf
  /-- `value -- tagged` -/
  | tag (value choice : ClazzId) (tag : Nat)
  /-- `subject --` -/
  | select (branches : Match)
  /-- `condition --` -/
  | cond (thenCode elseCode : CodeId)
  /-- `-- effect` -/
  | env (effect : ClazzId)
  /-- `condition --` -/
  | contract (kind : ContractKind)
  /-- `value --` -/
  | pop
  /-- `--` -/
  | comment (text : String)
  deriving DecidableEq, Repr

namespace Instr

/-- The table entries that the instruction mentions, in order. -/
def references : Instr → List Reference
  | const clazz _ => [.clazz clazz]
  | env effect => [.clazz effect]
  | assign access | call access =>
    .clazz access.accessed :: access.targets.flatMap fun (tt, cc) => [.clazz tt, .clazz cc]
  | box value reference => [.clazz value, .clazz reference]
  | unbox reference value => [.clazz value, .clazz reference]
  | tag value choice _ => [.clazz value, .clazz choice]
  | select m =>
    .clazz m.subject :: m.cases.flatMap fun case =>
      (case.field.toList.map .clazz) ++ [.code case.code]
  | cond thenCode elseCode => [.code thenCode, .code elseCode]
  | current | outer | arg _ | adrOf | contract _ | pop | comment _ => []

/-- The blocks that the instruction may walk. -/
def branches : Instr → List CodeId
  | select m => m.cases.map MatchCase.code
  | cond thenCode elseCode => [thenCode, elseCode]
  | _ => []

end Instr

end ClosedWorld
