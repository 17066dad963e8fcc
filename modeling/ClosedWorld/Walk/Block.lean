import ClosedWorld.Walk.Processor

/-!
# Walking code

A walk owns the operand stack and the order of things: it takes the operands of an instruction off
the stack, has the processor answer, puts the answer on the stack, and leaves the block as soon as
an answer has no value. Each block starts with an empty stack. A clazz is walked by walking its body
and then its postconditions, or its preconditions alone.

## Main definitions

* `walkInstr`: one instruction.
* `walkInstrs`: the rest of a block.
* `walkBlock`, `walkClazz`: a block and a clazz.
-/

namespace ClosedWorld

variable {ε σ V O : Type}

/-- The output of an instruction, and the stack with which its block goes on, if it does. -/
structure Progress (V O : Type) where
  output : O
  stack : Option (List V)
  deriving DecidableEq, Repr

namespace Progress

/-- Goes on with the value of the step on top of the stack. -/
def pushing (stack : List V) (step : Step V O) : Progress V O :=
  ⟨step.output, step.value.map (· :: stack)⟩

/-- Goes on with the same stack if the step has a value. -/
def keeping (stack : List V) (step : Step V O) : Progress V O :=
  ⟨step.output, step.value.map fun _ => stack⟩

end Progress

/-- How many values a call of the accessed clazz takes besides its target. -/
def View.arity (v : View) (access : Access) : Nat := (v.info access.accessed).args.length

/-- Walks one instruction. The top of the stack is the head of the list, and `nested` walks the
blocks that the instruction contains. -/
def walkInstr (v : View) (p : Processor ε σ V O) (nested : BlockWalk ε σ V O) (site : Site)
    (instr : Instr) (stack : List V) : Attempt ε σ (Progress V O) :=
  let underflow := throw (p.malformed (.stackUnderflow site.code site.index))
  match instr with
  | .current => .pushing stack <$> p.current site.clazz
  | .outer => .pushing stack <$> p.outer site.clazz
  | .arg index => .pushing stack <$> p.arg site.clazz index
  | .const clazz data => .pushing stack <$> p.const site clazz data
  | .env effect => .pushing stack <$> p.env site effect
  | .assign access =>
    match stack with
    | value :: target :: rest => do return ⟨← p.assign site access target value, some rest⟩
    | _ => underflow
  | .call access =>
    -- The last argument is on top, and the target is below all of them.
    match stack.drop (v.arity access) with
    | target :: rest =>
      .pushing rest <$> p.call site access target (stack.take (v.arity access)).reverse
    | [] => underflow
  | .box value reference =>
    match stack with
    | x :: rest => .pushing rest <$> p.box x value reference
    | [] => underflow
  | .unbox reference value =>
    match stack with
    | x :: rest => .pushing rest <$> p.unbox x reference value
    | [] => underflow
  | .adrOf =>
    match stack with
    | x :: rest => .pushing rest <$> p.adrOf x
    | [] => underflow
  | .tag value choice tag =>
    match stack with
    | x :: rest => .pushing rest <$> p.tag site.clazz x value choice tag
    | [] => underflow
  | .select m =>
    match stack with
    | subject :: rest => .keeping rest <$> p.select nested site m subject
    | [] => underflow
  | .cond thenCode elseCode =>
    match stack with
    | condition :: rest => .keeping rest <$> p.cond nested site condition thenCode elseCode
    | [] => underflow
  | .contract kind =>
    match stack with
    | condition :: rest => .keeping rest <$> p.contract site kind condition
    | [] => underflow
  | .pop =>
    match stack with
    | _ :: rest => do return ⟨← p.nop, some rest⟩
    | [] => underflow
  | .comment text => do return ⟨← p.comment text, some stack⟩

/-- Walks the next `remaining` instructions of a block from `index` on. The outputs so far are those
of the headers and instructions before. -/
def walkInstrs (v : View) (p : Processor ε σ V O) (nested : BlockWalk ε σ V O) (clazz : ClazzId)
    (code : CodeId) : (remaining index : Nat) → (stack : List V) → (outputs : List O) →
    Attempt ε σ (Step V O)
  | 0, _, _, outputs => do
    let unit ← p.unitValue
    return ⟨some unit, ← p.sequence outputs⟩
  | remaining + 1, index, stack, outputs => do
    match v.instr? code index with
    | none => throw (p.malformed (.missingInstruction code index))
    | some instr =>
      let header ← p.header ⟨clazz, code, index⟩
      let progress ← walkInstr v p nested ⟨clazz, code, index⟩ instr stack
      let outputs := outputs ++ [header, progress.output]
      match progress.stack with
      | none => return ⟨none, ← p.sequence outputs⟩
      | some stack => walkInstrs v p nested clazz code remaining (index + 1) stack outputs

/-- Walks a block in which further blocks are nested at most `levels` deep. -/
def walkNested (v : View) (p : Processor ε σ V O) : (levels : Nat) → BlockWalk ε σ V O
  | 0, _, code => throw (p.malformed (.endlessNesting code))
  | levels + 1, clazz, code =>
    walkInstrs v p (walkNested v p levels) clazz code (v.codeLength code) 0 [] []

/-- How deep blocks can be nested. Where no block contains itself, one level for each block is
enough; beyond that a block may be entered again within itself for each clazz, as what it finds can
change while it is walked. Blocks that nothing mentions count as well. So a program with more of
them is walked deeper, and what is said of all programs is said of walks of any depth. -/
def View.nestingLimit (v : View) : Nat := (v.blocks.length + 1) * (v.clazzCount + 1)

/-- Walks one block on behalf of a clazz. It yields the unit value if control reaches its end. -/
def walkBlock (v : View) (p : Processor ε σ V O) : BlockWalk ε σ V O :=
  walkNested v p v.nestingLimit

/-- Walks contract blocks up to the first that does not continue. Yields whether there was none,
and all outputs. -/
def walkContracts (v : View) (p : Processor ε σ V O) (clazz : ClazzId) :
    List CodeId → (outputs : List O) → Attempt ε σ (Bool × List O)
  | [], outputs => return (true, outputs)
  | code :: rest, outputs => do
    let step ← walkBlock v p clazz code
    let outputs := outputs ++ [step.output]
    if step.value.isNone then return (false, outputs)
    walkContracts v p clazz rest outputs

/-- Walks the body of a clazz and its postconditions, or only its preconditions. -/
def walkClazz (v : View) (p : Processor ε σ V O) (clazz : ClazzId) (pre : Bool) :
    Attempt ε σ (Step V O) := do
  let (continues, outputs) ←
    if pre then
      if !v.hasPrecondition clazz then throw (p.malformed (.missingPrecondition clazz))
      walkContracts v p clazz (v.info clazz).preconditions []
    else
      match (v.info clazz).code with
      | none => throw (p.malformed (.missingCode clazz))
      | some code =>
        let body ← walkBlock v p clazz code
        if body.value.isNone then pure (false, [body.output])
        else walkContracts v p clazz (v.info clazz).postconditions [body.output]
  if continues then
    let unit ← p.unitValue
    return ⟨some unit, ← p.sequence outputs⟩
  else
    return ⟨none, ← p.sequence outputs⟩

end ClosedWorld
