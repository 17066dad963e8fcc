import ClosedWorld.Listing
import ClosedWorld.Proofs.Program

/-!
# A walk is the run of a stack machine

The machine is told by rules. Its operand stack is a list in the order in which values were pushed.
An instruction takes a fixed number of operands off the end of it, and a processor is asked exactly
one thing about them: this is the table of stack effects. From one configuration to the next the
machine asks for a header and then for that answer; it halts at the end of the block, at the first
answer after which control does not continue, and at the first failure. A walk computes what the
machine ends with, for every processor and whatever walk the processor enters nested blocks with.
Where no block contains itself and a processor enters no other blocks than those of its instruction,
there is exactly one such walk.

## Main definitions

* `Instr.takes`, `Machine.callback`: the operands of an instruction, and what is asked about them.
* `Machine.Steps`, `Machine.Halts`, `Machine.Runs`: the machine.
* `Machine.RunsBlocks`, `Machine.RunsClazz`: blocks one after the other, and a clazz.
* `Processor.Confined`: a processor that enters the blocks of its instruction only.
* `Machine.Computes`: a walk that enters nested blocks by itself.

## Main statements

* `Machine.outcome_walkInstrs_iff`: the walk of a block.
* `Machine.outcome_walkClazz_iff`: the walk of a clazz.
* `Machine.computes_walkBlock`, `Machine.Computes.eq`: the walk of nested blocks, and that there is
  no other.
* `Machine.walks_run`: all of this in one statement.
-/

namespace ClosedWorld

variable {ε σ V O : Type}

/-- How many operands the instruction takes off the stack. -/
def Instr.takes (v : View) : Instr → Nat
  | .current | .outer | .arg _ | .const .. | .env _ | .comment _ => 0
  | .box .. | .unbox .. | .adrOf | .tag .. | .select _ | .cond .. | .contract _ | .pop => 1
  | .assign _ => 2
  | .call access => v.arity access + 1

/-- A step that cannot fail, and what comes after it. -/
theorem Attempt.outcome_growing_bind {α β : Type} {step : StateM σ α} {next : α → Attempt ε σ β}
    {s s' : σ} {x : α} (run : step.run s = (x, s')) :
    ((liftM step : Attempt ε σ α) >>= next).outcome s = (next x).outcome s' := by
  rw [outcome_bind, outcome_growing, run]

namespace Machine

/-! ### The machine -/

/-- An answer of a processor, with what it means for the machine. -/
inductive Reply (V O : Type) where
  /-- The value goes on the stack. Without a value, control does not continue. -/
  | yields (step : Step V O)
  /-- Nothing goes on the stack. Without a value, control does not continue. -/
  | decides (step : Step V O)
  /-- Nothing goes on the stack, and control continues. -/
  | passes (output : O)

namespace Reply

/-- The output of the answer. -/
def output : Reply V O → O
  | yields step | decides step => step.output
  | passes output => output

/-- What goes on the stack, if control continues. -/
def pushed : Reply V O → Option (List V)
  | yields step => step.value.map fun x => [x]
  | decides step => step.value.map fun _ => []
  | passes _ => some []

end Reply

/-- What the processor is asked about an instruction, given its operands in the order in which they
were pushed. There is an answer for the number of operands that the instruction takes, and for no
other. -/
def callback (v : View) (p : Processor ε σ V O) (nested : BlockWalk ε σ V O) (site : Site) :
    Instr → (operands : List V) → Option (Attempt ε σ (Reply V O))
  | .current, [] => some (.yields <$> p.current site.clazz)
  | .outer, [] => some (.yields <$> p.outer site.clazz)
  | .arg index, [] => some (.yields <$> p.arg site.clazz index)
  | .const clazz data, [] => some (.yields <$> p.const site clazz data)
  | .env effect, [] => some (.yields <$> p.env site effect)
  | .assign access, [target, value] => some (.passes <$> p.assign site access target value)
  | .call access, target :: args =>
    if args.length = v.arity access then some (.yields <$> p.call site access target args) else none
  | .box value reference, [x] => some (.yields <$> p.box x value reference)
  | .unbox reference value, [x] => some (.yields <$> p.unbox x reference value)
  | .adrOf, [x] => some (.yields <$> p.adrOf x)
  | .tag value choice tag, [x] => some (.yields <$> p.tag site.clazz x value choice tag)
  | .select m, [subject] => some (.decides <$> p.select nested site m subject)
  | .cond thenCode elseCode, [condition] =>
    some (.decides <$> p.cond nested site condition thenCode elseCode)
  | .contract kind, [condition] => some (.decides <$> p.contract site kind condition)
  | .pop, [_] => some (.passes <$> (liftM p.nop : Attempt ε σ O))
  | .comment text, [] => some (.passes <$> (liftM (p.comment text) : Attempt ε σ O))
  | _, _ => none

/-- A state of the machine: the index of the next instruction, the operand stack in the order of
pushes, the outputs so far, and the state of the processor. -/
structure Config (σ V O : Type) where
  index : Nat
  stack : List V
  outputs : List O
  state : σ

/-- The configuration in which a block starts. -/
def Config.start (s : σ) : Config σ V O := ⟨0, [], [], s⟩

section rules

variable (v : View) (p : Processor ε σ V O) (nested : BlockWalk ε σ V O) (clazz : ClazzId)
  (code : CodeId)

/-- The machine is at an instruction and has asked for its header. -/
structure Fetches (c : Config σ V O) (instr : Instr) (header : O) (s : σ) : Prop where
  inside : c.index < v.codeLength code
  found : v.instr? code c.index = some instr
  asked : (p.header ⟨clazz, code, c.index⟩).run c.state = (header, s)

/-- The machine takes the operands of an instruction off the stack, where `rest` stays, and asks for
an answer. -/
def Applies (c : Config σ V O) (instr : Instr) (rest : List V)
    (answer : Attempt ε σ (Reply V O)) : Prop :=
  ∃ operands, c.stack = rest ++ operands ∧
    callback v p nested ⟨clazz, code, c.index⟩ instr operands = some answer

/-- From one configuration to the next: the answer to an instruction lets control continue. -/
inductive Steps : Config σ V O → Config σ V O → Prop where
  | next {c : Config σ V O} {instr : Instr} {header : O} {s s' : σ} {rest pushed : List V}
    {answer : Attempt ε σ (Reply V O)} {reply : Reply V O}
    (fetches : Fetches v p clazz code c instr header s)
    (applies : Applies v p nested clazz code c instr rest answer)
    (answers : answer.outcome s = (.ok reply, s')) (continues : reply.pushed = some pushed) :
    Steps c ⟨c.index + 1, rest ++ pushed, c.outputs ++ [header, reply.output], s'⟩

/-- The machine ends in a configuration with a result, which the processor is left with. -/
inductive Halts : Config σ V O → Except ε (Step V O) × σ → Prop where
  /-- The end of the block is reached. -/
  | finishes {c : Config σ V O} {unit : V} {output : O} {s s' : σ}
    (done : c.index = v.codeLength code) (unitValue : p.unitValue.run c.state = (unit, s))
    (sequence : (p.sequence c.outputs).run s = (output, s')) :
    Halts c (.ok ⟨some unit, output⟩, s')
  /-- Control does not continue after the answer. -/
  | stops {c : Config σ V O} {instr : Instr} {header output : O} {s s' s'' : σ} {rest : List V}
    {answer : Attempt ε σ (Reply V O)} {reply : Reply V O}
    (fetches : Fetches v p clazz code c instr header s)
    (applies : Applies v p nested clazz code c instr rest answer)
    (answers : answer.outcome s = (.ok reply, s')) (ends : reply.pushed = none)
    (sequence : (p.sequence (c.outputs ++ [header, reply.output])).run s' = (output, s'')) :
    Halts c (.ok ⟨none, output⟩, s'')
  /-- The processor fails, and is asked nothing more. -/
  | fails {c : Config σ V O} {instr : Instr} {header : O} {s s' : σ} {rest : List V}
    {answer : Attempt ε σ (Reply V O)} {e : ε}
    (fetches : Fetches v p clazz code c instr header s)
    (applies : Applies v p nested clazz code c instr rest answer)
    (answers : answer.outcome s = (.error e, s')) : Halts c (.error e, s')
  /-- There are fewer operands than the instruction takes. -/
  | underflows {c : Config σ V O} {instr : Instr} {header : O} {s : σ}
    (fetches : Fetches v p clazz code c instr header s)
    (short : c.stack.length < instr.takes v) :
    Halts c (.error (p.malformed (.stackUnderflow code c.index)), s)
  /-- The block is announced to be longer than it is. -/
  | lacks {c : Config σ V O} (inside : c.index < v.codeLength code)
    (missing : v.instr? code c.index = none) :
    Halts c (.error (p.malformed (.missingInstruction code c.index)), c.state)

/-- The machine runs the block, from the empty stack to its end. -/
def Runs (s : σ) (result : Except ε (Step V O) × σ) : Prop :=
  ∃ c, Relation.ReflTransGen (Steps v p nested clazz code) (.start s) c ∧
    Halts v p nested clazz code c result

end rules

/-! ### Single instructions -/

section instructions

variable {v : View} {p : Processor ε σ V O} {nested : BlockWalk ε σ V O} {site : Site}

variable (v p nested site) in
/-- The table of stack effects is complete: for as many operands as an instruction `takes` there is
something to ask. -/
theorem exists_callback (instr : Instr) {operands : List V}
    (enough : operands.length = instr.takes v) :
    ∃ answer, callback v p nested site instr operands = some answer := by
  cases instr with
  | current | outer | arg | const | env | comment =>
    obtain rfl := List.length_eq_zero_iff.1 enough
    exact ⟨_, rfl⟩
  | box | unbox | adrOf | tag | select | cond | contract | pop =>
    obtain ⟨x, rfl⟩ := List.length_eq_one_iff.1 enough
    exact ⟨_, rfl⟩
  | assign access =>
    obtain ⟨target, value, rfl⟩ := List.length_eq_two.1 enough
    exact ⟨_, rfl⟩
  | call access =>
    obtain ⟨target, args, rfl⟩ := List.exists_cons_of_length_eq_add_one enough
    exact ⟨_, if_pos (Nat.succ.inj enough)⟩

variable (v p nested site) in
/-- Where a stack has as many operands as an instruction `takes`, which are its last values,
something is asked about them. -/
theorem exists_asked {instr : Instr} {stack : List V} (enough : instr.takes v ≤ stack.length) :
    ∃ rest operands answer, stack = rest ++ operands ∧
      callback v p nested site instr operands = some answer := by
  have count : (stack.drop (stack.length - instr.takes v)).length = instr.takes v := by
    rw [List.length_drop]
    omega
  obtain ⟨answer, asks⟩ := exists_callback v p nested site instr count
  exact ⟨_, _, answer, (List.take_append_drop _ stack).symm, asks⟩

/-- The progress of a walk that an answer makes on top of the values that stay. -/
def Reply.progress (rest : List V) (reply : Reply V O) : Progress V O :=
  ⟨reply.output, reply.pushed.map fun pushed => (rest ++ pushed).reverse⟩

/-- Putting what an answer yields onto the rest of the stack is the progress of a reply that
`yields` it. -/
theorem pushing_eq (rest : List V) (answer : Attempt ε σ (Step V O)) :
    Progress.pushing rest.reverse <$> answer =
      Reply.progress rest <$> (Reply.yields <$> answer) := by
  rw [← comp_map]
  congr 1
  funext step
  cases h : step.value <;> simp [Progress.pushing, Reply.progress, Reply.pushed, Reply.output, h]

/-- Keeping the rest of the stack after an answer is the progress of a reply that `decides` whether
control continues. -/
theorem keeping_eq (rest : List V) (answer : Attempt ε σ (Step V O)) :
    Progress.keeping rest.reverse <$> answer =
      Reply.progress rest <$> (Reply.decides <$> answer) := by
  rw [← comp_map]
  congr 1
  funext step
  cases h : step.value <;> simp [Progress.keeping, Reply.progress, Reply.pushed, Reply.output, h]

/-- Passing on with the rest of the stack is the progress of a reply that `passes`. -/
theorem passing_eq (rest : List V) (answer : Attempt ε σ O) :
    (do return ⟨← answer, some rest.reverse⟩ : Attempt ε σ (Progress V O)) =
      Reply.progress rest <$> (Reply.passes <$> answer) := by
  rw [bind_pure_comp, ← comp_map]
  congr 1
  funext output
  simp [Reply.progress, Reply.pushed, Reply.output]

/-- The function `walkInstr` finds the operands on top of its stack, and asks what the machine asks.
-/
theorem walkInstr_of_callback {instr : Instr} {rest operands : List V}
    {answer : Attempt ε σ (Reply V O)}
    (asks : callback v p nested site instr operands = some answer) :
    walkInstr v p nested site instr (rest ++ operands).reverse =
      Reply.progress rest <$> answer := by
  rw [List.reverse_append]
  unfold callback at asks
  split at asks
  case h_7 access target args =>
    split at asks
    · rename_i enough
      cases asks
      have taken : (target :: args).reverse ++ rest.reverse =
          args.reverse ++ target :: rest.reverse := by simp
      have drop : (args.reverse ++ target :: rest.reverse).drop (v.arity access) =
          target :: rest.reverse := by
        rw [← enough, ← List.length_reverse, List.drop_left]
      have take : (args.reverse ++ target :: rest.reverse).take (v.arity access) =
          args.reverse := by
        rw [← enough, ← List.length_reverse, List.take_left]
      rw [taken, walkInstr]
      simp only [drop, take, List.reverse_reverse]
      exact pushing_eq rest _
    · cases asks
  case h_17 => cases asks
  all_goals cases asks
  case h_6 | h_15 | h_16 => exact passing_eq rest _
  case h_12 | h_13 | h_14 => exact keeping_eq rest _
  all_goals exact pushing_eq rest _

/-- The function `walkInstr` fails with an underflow where there are too few operands. -/
theorem walkInstr_of_short {instr : Instr} {stack : List V}
    (short : stack.length < instr.takes v) :
    walkInstr v p nested site instr stack =
      throw (p.malformed (.stackUnderflow site.code site.index)) := by
  cases instr with
  | current | outer | arg | const | env | comment => exact absurd short (Nat.not_lt_zero _)
  | box | unbox | adrOf | tag | select | cond | contract | pop =>
    obtain rfl := List.length_eq_zero_iff.1 (Nat.lt_one_iff.1 short)
    rfl
  | assign access =>
    match stack, short with
    | [], _ => rfl
    | [_], _ => rfl
    | _ :: _ :: _, short => exact absurd short (by simp [Instr.takes])
  | call access =>
    unfold walkInstr
    have nothing : stack.drop (v.arity access) = [] :=
      List.drop_eq_nil_of_le (Nat.le_of_lt_succ short)
    simp only [nothing]

end instructions

/-! ### Runs -/

section runs

variable {v : View} {p : Processor ε σ V O} {nested : BlockWalk ε σ V O} {clazz : ClazzId}
  {code : CodeId} {c c' : Config σ V O} {result : Except ε (Step V O) × σ}

variable (v p nested clazz code) in
/-- What is left of a walk that has got to the configuration. -/
def walkFrom (c : Config σ V O) : Except ε (Step V O) × σ :=
  (walkInstrs v p nested clazz code (v.codeLength code - c.index) c.index c.stack.reverse
    c.outputs).outcome c.state

/-- A walk fetches instructions as the machine does. -/
theorem walkFrom_of_fetches {instr : Instr} {header : O} {s : σ}
    (fetches : Fetches v p clazz code c instr header s) :
    walkFrom v p nested clazz code c =
      ((do
        let progress ← walkInstr v p nested ⟨clazz, code, c.index⟩ instr c.stack.reverse
        let outputs := c.outputs ++ [header, progress.output]
        match progress.stack with
        | none => return ⟨none, ← p.sequence outputs⟩
        | some stack =>
          walkInstrs v p nested clazz code (v.codeLength code - (c.index + 1)) (c.index + 1) stack
            outputs : Attempt ε σ (Step V O)).outcome s) := by
  have more : v.codeLength code - c.index = (v.codeLength code - (c.index + 1)) + 1 := by
    have inside := fetches.inside
    omega
  unfold walkFrom
  rw [more, walkInstrs, fetches.found]
  exact Attempt.outcome_growing_bind fetches.asked

/-- What is left of the walk has the same outcome before and after a step of the machine. -/
theorem walkFrom_of_steps (steps : Steps v p nested clazz code c c') :
    walkFrom v p nested clazz code c = walkFrom v p nested clazz code c' := by
  cases steps with
  | next fetches applies answers continues =>
    obtain ⟨operands, split, asks⟩ := applies
    rw [walkFrom_of_fetches fetches, split, walkInstr_of_callback asks, Attempt.outcome_bind,
      Attempt.outcome_map, answers]
    dsimp only [Except.map, Reply.progress]
    rw [continues]
    rfl

/-- Where the machine halts, the walk does, with the same result. -/
theorem walkFrom_of_halts (halts : Halts v p nested clazz code c result) :
    walkFrom v p nested clazz code c = result := by
  cases halts with
  | finishes done unitValue sequence =>
    unfold walkFrom
    rw [done, Nat.sub_self, walkInstrs, Attempt.outcome_growing_bind unitValue]
    exact Attempt.outcome_growing_bind sequence
  | stops fetches applies answers ends sequence =>
    obtain ⟨operands, split, asks⟩ := applies
    rw [walkFrom_of_fetches fetches, split, walkInstr_of_callback asks, Attempt.outcome_bind,
      Attempt.outcome_map, answers]
    dsimp only [Except.map, Reply.progress]
    rw [ends]
    exact Attempt.outcome_growing_bind sequence
  | fails fetches applies answers =>
    obtain ⟨operands, split, asks⟩ := applies
    rw [walkFrom_of_fetches fetches, split, walkInstr_of_callback asks, Attempt.outcome_bind,
      Attempt.outcome_map, answers]
    rfl
  | underflows fetches short =>
    rw [← List.length_reverse] at short
    rw [walkFrom_of_fetches fetches, walkInstr_of_short short, Attempt.outcome_bind]
    rfl
  | lacks inside missing =>
    have more : v.codeLength code - c.index = (v.codeLength code - (c.index + 1)) + 1 := by omega
    unfold walkFrom
    rw [more, walkInstrs, missing]
    rfl

/-- The machine gets on from everywhere in a block, or it halts. -/
theorem halts_or_steps (inside : c.index ≤ v.codeLength code) :
    (∃ result, Halts v p nested clazz code c result) ∨
      ∃ c', Steps v p nested clazz code c c' ∧ c'.index = c.index + 1 := by
  rcases Nat.eq_or_lt_of_le inside with done | inside
  · exact .inl ⟨_, .finishes done rfl rfl⟩
  cases found : v.instr? code c.index with
  | none => exact .inl ⟨_, .lacks inside found⟩
  | some instr =>
    have fetches : Fetches v p clazz code c instr _ _ := ⟨inside, found, rfl⟩
    rcases Nat.lt_or_ge c.stack.length (instr.takes v) with short | enough
    · exact .inl ⟨_, .underflows fetches short⟩
    obtain ⟨rest, operands, answer, split, asks⟩ :=
      exists_asked v p nested ⟨clazz, code, c.index⟩ enough
    have applies : Applies v p nested clazz code c instr rest answer := ⟨operands, split, asks⟩
    rcases answers : answer.outcome ((p.header ⟨clazz, code, c.index⟩).run c.state).2 with
      ⟨e | reply, s'⟩
    · exact .inl ⟨_, .fails fetches applies answers⟩
    · cases pushed : reply.pushed with
      | none => exact .inl ⟨_, .stops fetches applies answers pushed rfl⟩
      | some pushed => exact .inr ⟨_, .next fetches applies answers pushed, rfl⟩

/-- Every block is run to an end. -/
theorem exists_halts (inside : c.index ≤ v.codeLength code) :
    ∃ c' result, Relation.ReflTransGen (Steps v p nested clazz code) c c' ∧
      Halts v p nested clazz code c' result := by
  induction rest : v.codeLength code - c.index generalizing c with
  | zero =>
    have done : c.index = v.codeLength code := by omega
    exact ⟨c, _, .refl, .finishes done rfl rfl⟩
  | succ rest ih =>
    rcases halts_or_steps inside with ⟨result, halts⟩ | ⟨next, steps, index⟩
    · exact ⟨c, result, .refl, halts⟩
    · obtain ⟨last, result, run, halts⟩ := ih (by omega : next.index ≤ _) (by omega)
      exact ⟨last, result, .head steps run, halts⟩

/-- Wherever the machine gets to, what is left of the walk has the outcome of the whole walk. -/
theorem walkFrom_of_run (run : Relation.ReflTransGen (Steps v p nested clazz code) c c') :
    walkFrom v p nested clazz code c = walkFrom v p nested clazz code c' := by
  induction run with
  | refl => rfl
  | tail _ steps ih => exact ih.trans (walkFrom_of_steps steps)

/-- The walk of a block computes what `Runs` says that the machine ends with, whatever walk the
processor is handed for `nested` blocks. -/
theorem outcome_walkInstrs_iff (s : σ) :
    (walkInstrs v p nested clazz code (v.codeLength code) 0 [] []).outcome s = result ↔
      Runs v p nested clazz code s result := by
  have ends {result : Except ε (Step V O) × σ} (runs : Runs v p nested clazz code s result) :
      (walkInstrs v p nested clazz code (v.codeLength code) 0 [] []).outcome s = result := by
    obtain ⟨c, run, halts⟩ := runs
    exact (walkFrom_of_run run).trans (walkFrom_of_halts halts)
  refine ⟨?_, ends⟩
  rintro rfl
  have halting : ∃ c result, Relation.ReflTransGen (Steps v p nested clazz code) (.start s) c ∧
      Halts v p nested clazz code c result := exists_halts (Nat.zero_le _)
  obtain ⟨c, result, run, halts⟩ := halting
  rw [ends ⟨c, run, halts⟩]
  exact ⟨c, run, halts⟩

end runs

/-! ### Clazzes -/

section clazzes

/-- The blocks of a clazz in the order in which they are run: its body and its postconditions, or
its preconditions alone. -/
def blocksOf (v : View) (clazz : ClazzId) (pre : Bool) : Except WalkError (List CodeId) :=
  if pre then
    if v.hasPrecondition clazz then .ok (v.info clazz).preconditions
    else .error (.missingPrecondition clazz)
  else
    match (v.info clazz).code with
    | some code => .ok (code :: (v.info clazz).postconditions)
    | none => .error (.missingCode clazz)

/-- Blocks are run one after the other, up to the first after which control does not continue or
that fails. The outputs before are given. -/
inductive RunsBlocks (p : Processor ε σ V O) (walk : CodeId → Attempt ε σ (Step V O)) :
    (outputs : List O) → List CodeId → σ → Except ε (Step V O) × σ → Prop where
  | finishes {outputs : List O} {unit : V} {output : O} {s s' s'' : σ}
    (unitValue : p.unitValue.run s = (unit, s'))
    (sequence : (p.sequence outputs).run s' = (output, s'')) :
    RunsBlocks p walk outputs [] s (.ok ⟨some unit, output⟩, s'')
  | next {outputs : List O} {code : CodeId} {rest : List CodeId} {s s' : σ} {step : Step V O}
    {result : Except ε (Step V O) × σ} (walks : (walk code).outcome s = (.ok step, s'))
    (continues : step.value.isNone = false)
    (later : RunsBlocks p walk (outputs ++ [step.output]) rest s' result) :
    RunsBlocks p walk outputs (code :: rest) s result
  | stops {outputs : List O} {code : CodeId} {rest : List CodeId} {s s' s'' : σ} {step : Step V O}
    {output : O} (walks : (walk code).outcome s = (.ok step, s'))
    (ends : step.value.isNone = true)
    (sequence : (p.sequence (outputs ++ [step.output])).run s' = (output, s'')) :
    RunsBlocks p walk outputs (code :: rest) s (.ok ⟨none, output⟩, s'')
  | fails {outputs : List O} {code : CodeId} {rest : List CodeId} {s s' : σ} {e : ε}
    (walks : (walk code).outcome s = (.error e, s')) :
    RunsBlocks p walk outputs (code :: rest) s (.error e, s')

/-- The run of a clazz is the run of its blocks, if it has what is to be run. -/
inductive RunsClazz (v : View) (p : Processor ε σ V O) (walk : BlockWalk ε σ V O)
    (clazz : ClazzId) (pre : Bool) (s : σ) : Except ε (Step V O) × σ → Prop where
  | lacks {e : WalkError} (lacking : blocksOf v clazz pre = .error e) :
    RunsClazz v p walk clazz pre s (.error (p.malformed e), s)
  | runs {blocks : List CodeId} {result : Except ε (Step V O) × σ}
    (found : blocksOf v clazz pre = .ok blocks)
    (run : RunsBlocks p (walk clazz) [] blocks s result) : RunsClazz v p walk clazz pre s result

variable {v : View} {p : Processor ε σ V O} {clazz : ClazzId} {s : σ}
  {result : Except ε (Step V O) × σ}

variable (p) in
/-- The end of the walk of a clazz. -/
def conclude (walked : Bool × List O) : Attempt ε σ (Step V O) :=
  if walked.1 then do
    let unit ← p.unitValue
    return ⟨some unit, ← p.sequence walked.2⟩
  else
    return ⟨none, ← p.sequence walked.2⟩

/-- If control continues behind the last block, `conclude` gives the unit value of the processor. -/
theorem outcome_conclude_continues {outputs : List O} {unit : V} {output : O} {s' s'' : σ}
    (unitValue : p.unitValue.run s = (unit, s'))
    (sequence : (p.sequence outputs).run s' = (output, s'')) :
    (conclude p (true, outputs)).outcome s = (.ok ⟨some unit, output⟩, s'') := by
  unfold conclude
  rw [if_pos rfl, Attempt.outcome_growing_bind unitValue]
  exact Attempt.outcome_growing_bind sequence

/-- If control does not continue behind the last block, `conclude` gives no value. -/
theorem outcome_conclude_ends {outputs : List O} {output : O} {s' : σ}
    (sequence : (p.sequence outputs).run s = (output, s')) :
    (conclude p (false, outputs)).outcome s = (.ok ⟨none, output⟩, s') := by
  unfold conclude
  rw [if_neg Bool.false_ne_true]
  exact Attempt.outcome_growing_bind sequence

/-- The walk of several blocks is that of the first one and, if control continues behind it, of
those after it. -/
theorem outcome_walkContracts_cons {code : CodeId} {rest : List CodeId} {outputs : List O} :
    (walkContracts v p clazz (code :: rest) outputs >>= conclude p).outcome s =
      match (walkBlock v p clazz code).outcome s with
      | (.ok step, s') =>
        if step.value.isNone then (conclude p (false, outputs ++ [step.output])).outcome s'
        else (walkContracts v p clazz rest (outputs ++ [step.output]) >>= conclude p).outcome s'
      | (.error e, s') => (.error e, s') := by
  rw [walkContracts, bind_assoc, Attempt.outcome_bind]
  rcases (walkBlock v p clazz code).outcome s with ⟨e | step, s'⟩
  · rfl
  · dsimp only
    split <;> rfl

/-- The body of a clazz is walked like a contract, as the block or the blocks that `blocksOf` gives.
-/
theorem walkClazz_eq (pre : Bool) :
    walkClazz v p clazz pre =
      match blocksOf v clazz pre with
      | .ok blocks => walkContracts v p clazz blocks [] >>= conclude p
      | .error e => throw (p.malformed e) := by
  unfold walkClazz blocksOf
  cases pre with
  | true => cases v.hasPrecondition clazz <;> rfl
  | false =>
    cases (v.info clazz).code with
    | none => rfl
    | some code =>
      show (walkBlock v p clazz code >>= fun body =>
          if body.value.isNone then conclude p (false, [body.output])
          else walkContracts v p clazz (v.info clazz).postconditions [body.output] >>= conclude p) =
        walkContracts v p clazz (code :: (v.info clazz).postconditions) [] >>= conclude p
      rw [walkContracts, bind_assoc]
      congr 1
      funext body
      dsimp only
      split <;> rfl

/-- The walk of several blocks computes what `RunsBlocks` says that their run ends with. -/
theorem outcome_walkContracts_iff {blocks : List CodeId} {outputs : List O} :
    (walkContracts v p clazz blocks outputs >>= conclude p).outcome s = result ↔
      RunsBlocks p (walkBlock v p clazz) outputs blocks s result := by
  constructor
  · rintro rfl
    induction blocks generalizing outputs s with
    | nil => exact .finishes rfl rfl
    | cons code rest ih =>
      rw [outcome_walkContracts_cons]
      rcases walks : (walkBlock v p clazz code).outcome s with ⟨e | step, s'⟩
      · exact .fails walks
      · dsimp only
        split
        · rename_i ends
          exact .stops walks ends rfl
        · rename_i continues
          exact .next walks (Bool.not_eq_true _ ▸ continues) ih
  · intro runs
    induction runs with
    | finishes unitValue sequence => exact outcome_conclude_continues unitValue sequence
    | next walks continues _ ih =>
      rw [outcome_walkContracts_cons, walks]
      dsimp only
      rw [continues]
      exact ih
    | stops walks ends sequence =>
      rw [outcome_walkContracts_cons, walks]
      dsimp only
      rw [if_pos ends]
      exact outcome_conclude_ends sequence
    | fails walks => rw [outcome_walkContracts_cons, walks]

/-- The walk of a clazz computes what `RunsClazz` says that its run ends with. -/
theorem outcome_walkClazz_iff (pre : Bool) :
    (walkClazz v p clazz pre).outcome s = result ↔
      RunsClazz v p (walkBlock v p) clazz pre s result := by
  rw [walkClazz_eq]
  cases found : blocksOf v clazz pre with
  | error e =>
    constructor
    · rintro rfl
      exact .lacks found
    · intro runs
      cases runs with
      | lacks lacking =>
        cases found.symm.trans lacking
        rfl
      | runs found' => cases found.symm.trans found'
  | ok blocks =>
    refine outcome_walkContracts_iff.trans ⟨.runs found, fun runs => ?_⟩
    cases runs with
    | lacks lacking => cases found.symm.trans lacking
    | runs found' run =>
      cases found.symm.trans found'
      exact run

end clazzes

/-! ### Nested blocks -/

end Machine

/-- The processor enters no other blocks than those of its instruction: its answer is the same for
two walks that do the same with these. -/
structure Processor.Confined (p : Processor ε σ V O) : Prop where
  select : ∀ {walk walk' : BlockWalk ε σ V O} site m subject,
    (∀ code ∈ (Instr.select m).branches, ∀ clazz, walk clazz code = walk' clazz code) →
      p.select walk site m subject = p.select walk' site m subject
  cond : ∀ {walk walk' : BlockWalk ε σ V O} site condition thenCode elseCode,
    (∀ code ∈ (Instr.cond thenCode elseCode).branches, ∀ clazz,
      walk clazz code = walk' clazz code) →
        p.cond walk site condition thenCode elseCode = p.cond walk' site condition thenCode elseCode

namespace Machine

section nesting

variable {v : View} {p : Processor ε σ V O} {nested nested' : BlockWalk ε σ V O}

/-- The walk of an instruction by a `Confined` processor depends on the walks of the blocks in the
instruction only. -/
theorem walkInstr_congr (hp : p.Confined) (site : Site) {instr : Instr}
    (alike : ∀ code ∈ instr.branches, ∀ clazz, nested clazz code = nested' clazz code)
    (stack : List V) :
    walkInstr v p nested site instr stack = walkInstr v p nested' site instr stack := by
  cases instr with
  | select m =>
    cases stack with
    | nil => rfl
    | cons subject rest =>
      unfold walkInstr
      dsimp only
      rw [hp.select site m subject alike]
  | cond thenCode elseCode =>
    cases stack with
    | nil => rfl
    | cons condition rest =>
      unfold walkInstr
      dsimp only
      rw [hp.cond site condition thenCode elseCode alike]
  | _ => rfl

/-- The walk of a block by a `Confined` processor depends on the walks of the blocks that it
`Contains` only. -/
theorem walkInstrs_congr (hp : p.Confined) (clazz : ClazzId) {code : CodeId}
    (alike : ∀ inner, v.Contains code inner → ∀ clazz, nested clazz inner = nested' clazz inner)
    (remaining index : Nat) (stack : List V) (outputs : List O) :
    walkInstrs v p nested clazz code remaining index stack outputs =
      walkInstrs v p nested' clazz code remaining index stack outputs := by
  induction remaining generalizing index stack outputs with
  | zero => rfl
  | succ remaining ih =>
    unfold walkInstrs
    cases found : v.instr? code index with
    | none => rfl
    | some instr =>
      have branches (inner : CodeId) (h : inner ∈ instr.branches) :=
        alike inner (Program.contains_of_instr? found h)
      dsimp only
      simp only [walkInstr_congr hp _ branches, ih]

/-- A walk with more levels than blocks are nested in each other does not depend on the number of
levels. -/
theorem walkNested_eq (hp : p.Confined) {levels : Nat} {code : CodeId}
    (nests : v.NestsWithin levels code) {m n : Nat} (hm : levels ≤ m) (hn : levels ≤ n)
    (clazz : ClazzId) : walkNested v p m clazz code = walkNested v p n clazz code := by
  induction levels generalizing code m n clazz with
  | zero => exact nests.elim
  | succ levels ih =>
    obtain ⟨m, rfl⟩ := Nat.exists_eq_succ_of_ne_zero (by omega : m ≠ 0)
    obtain ⟨n, rfl⟩ := Nat.exists_eq_succ_of_ne_zero (by omega : n ≠ 0)
    unfold walkNested
    refine walkInstrs_congr hp clazz (fun inner inside clazz => ?_) _ _ _ _
    exact ih (nests inner inside) (Nat.le_of_succ_le_succ hm) (Nat.le_of_succ_le_succ hn) clazz

/-- The walk computes what the machine ends with if the processor is handed the walk itself for
nested blocks. -/
def Computes (v : View) (p : Processor ε σ V O) (walk : BlockWalk ε σ V O) : Prop :=
  ∀ clazz code s result,
    (walk clazz code).outcome s = result ↔ Runs v p walk clazz code s result

/-- The walk of a block enters nested blocks by itself if `nestingLimit` is not exceeded. -/
theorem walkBlock_eq (hp : p.Confined) (nests : ∀ code, v.NestsWithin v.nestingLimit code)
    (clazz : ClazzId) (code : CodeId) :
    walkBlock v p clazz code =
      walkInstrs v p (walkBlock v p) clazz code (v.codeLength code) 0 [] [] := by
  obtain ⟨levels, limit⟩ : ∃ levels, v.nestingLimit = levels + 1 :=
    Nat.exists_eq_succ_of_ne_zero (by simp [View.nestingLimit])
  have here := nests code
  rw [limit] at here
  unfold walkBlock
  rw [limit, walkNested]
  refine walkInstrs_congr hp clazz (fun inner inside clazz => ?_) _ _ _ _
  exact walkNested_eq hp (here inner inside) (Nat.le_refl _) (Nat.le_succ _) clazz

/-- The walk of a block `Computes` what the machine does that enters nested blocks by the same walk.
-/
theorem computes_walkBlock (hp : p.Confined)
    (nests : ∀ code, v.NestsWithin v.nestingLimit code) : Computes v p (walkBlock v p) := by
  intro clazz code s result
  rw [← outcome_walkInstrs_iff, ← walkBlock_eq hp nests]

/-- There is no other walk that does: two that do agree on each block, by induction on how deep it
is nested. -/
theorem Computes.eq {walk walk' : BlockWalk ε σ V O} (hp : p.Confined)
    (h : Computes v p walk) (h' : Computes v p walk') {levels : Nat} {code : CodeId}
    (nests : v.NestsWithin levels code) (clazz : ClazzId) : walk clazz code = walk' clazz code := by
  have unrolled {walk : BlockWalk ε σ V O} (h : Computes v p walk) (clazz : ClazzId)
      (code : CodeId) :
      walk clazz code = walkInstrs v p walk clazz code (v.codeLength code) 0 [] [] := by
    funext s
    exact ((h clazz code s _).2 ((outcome_walkInstrs_iff s).1 rfl))
  induction levels generalizing code clazz with
  | zero => exact nests.elim
  | succ levels ih =>
    rw [unrolled h, unrolled h']
    exact walkInstrs_congr hp clazz (fun inner inside clazz => ih (nests inner inside) clazz) _ _ _ _

end nesting

/-! ### The whole -/

/-- Walking is running the stack machine. Let no block of a program contain itself. Then for every
processor the walk of a block is a run of the machine in which nested blocks are entered by a walk
of one level less; the walk of nested blocks by itself is the one walk that does the same with
itself, if the processor enters no other blocks; and the walk of a clazz runs its blocks one after
the other. -/
theorem walks_run (program : Program) (acyclic : program.Acyclic) (p : Processor ε σ V O) :
    (∀ levels clazz code s result,
        (walkNested program.view p (levels + 1) clazz code).outcome s = result ↔
          Runs program.view p (walkNested program.view p levels) clazz code s result) ∧
      (p.Confined → Computes program.view p (walkBlock program.view p) ∧
        ∀ walk, Computes program.view p walk → walk = walkBlock program.view p) ∧
      ∀ clazz pre s result,
        (walkClazz program.view p clazz pre).outcome s = result ↔
          RunsClazz program.view p (walkBlock program.view p) clazz pre s result := by
  have nests := program.nestsWithin_of_acyclic acyclic
  refine ⟨fun _ _ _ s _ => outcome_walkInstrs_iff s, fun hp => ⟨?_, fun walk computes => ?_⟩,
    fun _ pre _ _ => outcome_walkClazz_iff pre⟩
  · exact computes_walkBlock hp nests
  · funext clazz code
    exact computes.eq hp (computes_walkBlock hp nests) (nests code) clazz

/-- What is listed for the cases of a match depends on the walks of their blocks only. -/
theorem listCases_congr {walk walk' : CodeId → Listing.Listed (Step String Listing.Lines)}
    {cases : List MatchCase} (alike : ∀ case ∈ cases, walk case.code = walk' case.code) :
    Listing.listCases walk cases = Listing.listCases walk' cases := by
  induction cases with
  | nil => rfl
  | cons case rest ih =>
    obtain ⟨here, later⟩ := List.forall_mem_cons.1 alike
    unfold Listing.listCases
    rw [here, ih later]

/-- The processor that makes listings is `Confined`: it enters the blocks of its instruction only.
-/
theorem confined_listing (v : View) (options : Listing.Options) :
    (Listing.processor v options).Confined where
  select site m subject alike := by
    have cases : ∀ case ∈ m.cases, _ := fun case listed =>
      alike case.code (List.mem_map_of_mem listed) site.clazz
    unfold Listing.processor
    dsimp only
    rw [listCases_congr cases]
  cond site condition thenCode elseCode alike := by
    have thenAlike := alike thenCode (by simp [Instr.branches]) site.clazz
    have elseAlike := alike elseCode (by simp [Instr.branches]) site.clazz
    unfold Listing.processor
    dsimp only
    rw [thenAlike, elseAlike]

/-- A routine calls a function with two arguments, branches on what it returns, and writes a field.
The first branch does not return. The routine has a postcondition. -/
def branching : Draft where
  clazzes :=
    [ ("main", some { kind := .routine, code := some ⟨0⟩, postconditions := [⟨3⟩] })
    , ("bool", some { kind := .choice, special := some .bool })
    , ("main.flag", some { kind := .field, outer := some ⟨0⟩, result := some ⟨1⟩ })
    , ("both", some { kind := .routine, args := [⟨1⟩, ⟨1⟩], needsCode := false })
    , ("exit", some { kind := .intrinsic }) ]
  blocks :=
    [ [ .current, .const ⟨1⟩ [0], .const ⟨1⟩ [1], .call (.fixed ⟨3⟩), .cond ⟨1⟩ ⟨2⟩
      , .current, .const ⟨1⟩ [1], .assign (.fixed ⟨2⟩) ]
    , [.current, .call (.fixed ⟨4⟩), .pop]
    , [.comment "goes on"]
    , [.const ⟨1⟩ [1], .contract .post] ]
  main := some ⟨0⟩

/-- The listing of the routine is the end of a run of the machine. -/
theorem walks_run_branching :
    let view := branching.toProgram.view
    let p := Listing.processor view { diverging := [⟨4⟩] }
    branching.build = .ok branching.toProgram ∧ branching.toProgram.Acyclic ∧ p.Confined ∧
      Computes view p (walkBlock view p) ∧
      RunsClazz view p (walkBlock view p) ⟨0⟩ false 0
        (.ok ⟨some "()",
          [ "t0 := both(cur<main>, false, true)", "if t0 \x7b", "  t1 := exit(cur<main>)"
          , "\x7d else \x7b", "  // goes on", "\x7d", "cur<main>[main.flag] := true"
          , "check postcondition true" ]⟩, 2) := by
  intro view p
  have acyclic : branching.toProgram.Acyclic := Program.acyclic_of_descends (by decide +kernel)
  have confined : p.Confined := confined_listing _ _
  obtain ⟨-, nested, clazzes⟩ := walks_run branching.toProgram acyclic p
  exact ⟨by decide +kernel, acyclic, confined, (nested confined).1,
    (clazzes ⟨0⟩ false 0 _).1 (by decide +kernel)⟩

end Machine

end ClosedWorld
