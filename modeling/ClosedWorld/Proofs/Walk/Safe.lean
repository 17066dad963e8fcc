import ClosedWorld.Proofs.Program
import ClosedWorld.Proofs.Regime

/-!
# Instructions keep to a regime

What a processor keeps to, the walk of an instruction keeps to, for every processor. The operands
are good values throughout: an instruction finds good operands on the stack and leaves a good answer
there. The walk that is seen beside it has a processor of its own.

## Main definitions

* `Processor.Respects`: what is asked of the processors.

## Main statements

* `safe_walkInstr`: an instruction.
* `safe_conclusion`: the end of a walk.
-/

namespace ClosedWorld

variable {ε σ V O : Type}

/-- The value of the answer, if it has one, is good. -/
def Step.IsGood (Good : σ → V → Prop) (step : Step V O) (a : σ) : Prop :=
  ∀ x, step.value = some x → Good a x

/-- The answers of the processors to the instructions in the code of a clazz keep to the regime,
side by side, and are good values if the operands are. -/
structure Processor.Respects (R : Regime ε σ) (Good : σ → V → Prop) (v : View) (clazz : ClazzId)
    (p p' : Processor ε σ V O) : Prop where
  malformed_eq : p'.malformed = p.malformed
  allowed_stackUnderflow : ∀ code index, R.Allowed (p.malformed (.stackUnderflow code index))
  allowed_missingCode : R.Allowed (p.malformed (.missingCode clazz))
  nests_or_allowed : (∀ code, v.NestsWithin v.nestingLimit code) ∨
    ∀ code, R.Allowed (p.malformed (.endlessNesting code))
  allowed_missingInstruction : ∀ {code index}, v.instr? code index = none →
    index < v.codeLength code → R.Allowed (p.malformed (.missingInstruction code index))
  sequence : ∀ {a b} outputs, R.Alike a b →
    R.Safe (fun _ _ => True) (liftM (p.sequence outputs)) (liftM (p'.sequence outputs)) a b
  unitValue : ∀ {a b}, R.Alike a b →
    R.Safe (fun x a' => Good a' x) (liftM p.unitValue) (liftM p'.unitValue) a b
  header : ∀ {a b} site, R.Alike a b →
    R.Safe (fun _ _ => True) (liftM (p.header site)) (liftM (p'.header site)) a b
  comment : ∀ {a b} text, R.Alike a b →
    R.Safe (fun _ _ => True) (liftM (p.comment text)) (liftM (p'.comment text)) a b
  nop : ∀ {a b}, R.Alike a b → R.Safe (fun _ _ => True) (liftM p.nop) (liftM p'.nop) a b
  current : ∀ {a b}, R.Alike a b →
    R.Safe (Step.IsGood Good) (p.current clazz) (p'.current clazz) a b
  outer : ∀ {a b}, R.Alike a b → R.Safe (Step.IsGood Good) (p.outer clazz) (p'.outer clazz) a b
  arg : ∀ {a b} index, R.Alike a b →
    R.Safe (Step.IsGood Good) (p.arg clazz index) (p'.arg clazz index) a b
  const : ∀ {a b code index c data}, R.Alike a b →
    v.instr? code index = some (.const c data) →
    R.Safe (Step.IsGood Good) (p.const ⟨clazz, code, index⟩ c data)
      (p'.const ⟨clazz, code, index⟩ c data) a b
  adrOf : ∀ {a b x}, R.Alike a b → Good a x →
    R.Safe (Step.IsGood Good) (p.adrOf x) (p'.adrOf x) a b
  assign : ∀ {a b code index access target value}, R.Alike a b →
    v.instr? code index = some (.assign access) → Good a target → Good a value →
    R.Safe (fun _ _ => True) (p.assign ⟨clazz, code, index⟩ access target value)
      (p'.assign ⟨clazz, code, index⟩ access target value) a b
  call : ∀ {a b code index access target args}, R.Alike a b →
    v.instr? code index = some (.call access) → Good a target → (∀ x ∈ args, Good a x) →
    args.length = v.arity access →
    R.Safe (Step.IsGood Good) (p.call ⟨clazz, code, index⟩ access target args)
      (p'.call ⟨clazz, code, index⟩ access target args) a b
  box : ∀ {a b code index x value reference}, R.Alike a b →
    v.instr? code index = some (.box value reference) → Good a x →
    R.Safe (Step.IsGood Good) (p.box x value reference) (p'.box x value reference) a b
  unbox : ∀ {a b x} reference value, R.Alike a b → Good a x →
    R.Safe (Step.IsGood Good) (p.unbox x reference value) (p'.unbox x reference value) a b
  tag : ∀ {a b code index x value choice tag}, R.Alike a b →
    v.instr? code index = some (.tag value choice tag) → Good a x →
    R.Safe (Step.IsGood Good) (p.tag clazz x value choice tag) (p'.tag clazz x value choice tag) a b
  env : ∀ {a b} code index effect, R.Alike a b →
    R.Safe (Step.IsGood Good) (p.env ⟨clazz, code, index⟩ effect)
      (p'.env ⟨clazz, code, index⟩ effect) a b
  select : ∀ {a b walk walk' code index m subject}, R.Alike a b →
    v.instr? code index = some (.select m) → Good a subject →
    (∀ {a b} code, code ∈ (Instr.select m).branches → R.Alike a b →
      R.Safe (fun _ _ => True) (walk clazz code) (walk' clazz code) a b) →
    R.Safe (fun _ _ => True) (p.select walk ⟨clazz, code, index⟩ m subject)
      (p'.select walk' ⟨clazz, code, index⟩ m subject) a b
  cond : ∀ {a b walk walk' condition} code index thenCode elseCode, R.Alike a b →
    Good a condition →
    (∀ {a b} code, code ∈ (Instr.cond thenCode elseCode).branches → R.Alike a b →
      R.Safe (fun _ _ => True) (walk clazz code) (walk' clazz code) a b) →
    R.Safe (fun _ _ => True) (p.cond walk ⟨clazz, code, index⟩ condition thenCode elseCode)
      (p'.cond walk' ⟨clazz, code, index⟩ condition thenCode elseCode) a b
  contract : ∀ {a b condition} code index kind, R.Alike a b → Good a condition →
    R.Safe (fun _ _ => True) (p.contract ⟨clazz, code, index⟩ kind condition)
      (p'.contract ⟨clazz, code, index⟩ kind condition) a b

variable {R : Regime ε σ} {Good : σ → V → Prop} {v : View} {clazz : ClazzId}
  {p p' : Processor ε σ V O} {nested nested' : BlockWalk ε σ V O} {a b : σ}

/-- All operands are good. -/
def Progress.IsGood (Good : σ → V → Prop) (progress : Progress V O) (a : σ) : Prop :=
  ∀ stack, progress.stack = some stack → ∀ x ∈ stack, Good a x

/-- If an instruction puts a good value onto good operands, then these are good operands. -/
theorem Progress.isGood_pushing {stack : List V} {step : Step V O} (hs : ∀ x ∈ stack, Good a x)
    (hv : step.IsGood Good a) : (Progress.pushing stack step).IsGood Good a := by
  intro pushed h
  obtain ⟨x, hx, rfl⟩ := Option.map_eq_some_iff.1 h
  exact List.forall_mem_cons.2 ⟨hv x hx, hs⟩

/-- If an instruction leaves good operands as they are, then these are good operands. -/
theorem Progress.isGood_keeping {stack : List V} {step : Step V O} (hs : ∀ x ∈ stack, Good a x) :
    (Progress.keeping stack step).IsGood Good a := by
  intro kept h
  obtain ⟨x, -, rfl⟩ := Option.map_eq_some_iff.1 h
  exact hs

section operands

variable (mono : ∀ {a a' x}, R.Leads a a' → Good a x → Good a' x) {stack : List V}
  (hs : ∀ x ∈ stack, Good a x)

include mono hs

/-- An instruction that pushes what it gives is `Safe` if it gives good values. -/
theorem safe_pushing {step step' : Attempt ε σ (Step V O)}
    (answers : R.Safe (Step.IsGood Good) step step' a b) :
    R.Safe (Progress.IsGood Good) (.pushing stack <$> step) (.pushing stack <$> step') a b :=
  answers.map fun _ _ leads good => Progress.isGood_pushing (fun x hx => mono leads (hs x hx)) good

/-- An instruction that gives no value, and may end the walk, is `Safe` with the operands that are
left. -/
theorem safe_keeping {step step' : Attempt ε σ (Step V O)}
    (answers : R.Safe (fun _ _ => True) step step' a b) :
    R.Safe (Progress.IsGood Good) (.keeping stack <$> step) (.keeping stack <$> step') a b :=
  answers.map fun _ _ leads _ => Progress.isGood_keeping fun x hx => mono leads (hs x hx)

/-- An instruction without an answer leaves the operands as they are. -/
theorem safe_passing {step step' : Attempt ε σ O} (done : R.Safe (fun _ _ => True) step step' a b) :
    R.Safe (Progress.IsGood Good) (do return ⟨← step, some stack⟩) (do return ⟨← step', some stack⟩)
      a b := by
  apply done.bind
  intro output a' b' h' leads _
  refine .pure h' ?_
  rintro _ ⟨⟩ x hx
  exact mono leads (hs x hx)

/-- A call is `Safe` for a processor that respects the regime: its operands, taken off the stack,
are good. -/
theorem safe_walkInstr_call (hp : p.Respects R Good v clazz p') {access : Access} {code : CodeId}
    {index : Nat} (hi : v.instr? code index = some (.call access)) (h : R.Alike a b) :
    R.Safe (Progress.IsGood Good) (walkInstr v p nested ⟨clazz, code, index⟩ (.call access) stack)
      (walkInstr v p' nested' ⟨clazz, code, index⟩ (.call access) stack) a b := by
  have goodTake : ∀ x ∈ (stack.take (v.arity access)).reverse, Good a x :=
    fun x hx => hs x (List.mem_of_mem_take (List.mem_reverse.1 hx))
  have goodDrop : ∀ x ∈ stack.drop (v.arity access), Good a x :=
    fun x hx => hs x (List.mem_of_mem_drop hx)
  unfold walkInstr
  dsimp only
  cases dropped : stack.drop (v.arity access) with
  | nil =>
    rw [hp.malformed_eq]
    exact .throw h (hp.allowed_stackUnderflow code index)
  | cons target rest =>
    rw [dropped] at goodDrop
    obtain ⟨goodTarget, goodRest⟩ := List.forall_mem_cons.1 goodDrop
    have taken : (stack.take (v.arity access)).reverse.length = v.arity access := by
      have left : stack.length - v.arity access = rest.length + 1 := by
        rw [← List.length_drop, dropped, List.length_cons]
      rw [List.length_reverse, List.length_take]
      omega
    exact safe_pushing @mono goodRest (hp.call h hi goodTarget goodTake taken)

end operands

/-- Every instruction is `Safe` for a processor that respects the regime, if the walks of the blocks
in it are. -/
theorem safe_walkInstr (hp : p.Respects R Good v clazz p')
    (mono : ∀ {a a' x}, R.Leads a a' → Good a x → Good a' x) {instr : Instr}
    (hn : ∀ {a b} code, code ∈ instr.branches → R.Alike a b →
      R.Safe (fun _ _ => True) (nested clazz code) (nested' clazz code) a b)
    {code : CodeId} {index : Nat} (hi : v.instr? code index = some instr)
    (h : R.Alike a b) {stack : List V} (hs : ∀ x ∈ stack, Good a x) :
    R.Safe (Progress.IsGood Good) (walkInstr v p nested ⟨clazz, code, index⟩ instr stack)
      (walkInstr v p' nested' ⟨clazz, code, index⟩ instr stack) a b := by
  have underflow {α : Type} {post : α → σ → Prop} :
      R.Safe post (throw (p.malformed (.stackUnderflow code index)))
        (throw (p'.malformed (.stackUnderflow code index))) a b := by
    rw [hp.malformed_eq]
    exact .throw h (hp.allowed_stackUnderflow code index)
  cases instr with
  | current => exact safe_pushing @mono hs (hp.current h)
  | outer => exact safe_pushing @mono hs (hp.outer h)
  | arg n => exact safe_pushing @mono hs (hp.arg n h)
  | const c data => exact safe_pushing @mono hs (hp.const h hi)
  | env effect => exact safe_pushing @mono hs (hp.env code index effect h)
  | assign access =>
    match stack, hs with
    | [], _ => exact underflow
    | [_], _ => exact underflow
    | value :: target :: rest, hs =>
      obtain ⟨goodValue, hs⟩ := List.forall_mem_cons.1 hs
      obtain ⟨goodTarget, hs⟩ := List.forall_mem_cons.1 hs
      exact safe_passing @mono hs (hp.assign h hi goodTarget goodValue)
  | call access => exact safe_walkInstr_call @mono hs hp hi h
  | box value reference =>
    cases stack with
    | nil => exact underflow
    | cons x rest =>
      obtain ⟨good, hs⟩ := List.forall_mem_cons.1 hs
      exact safe_pushing @mono hs (hp.box h hi good)
  | unbox reference value =>
    cases stack with
    | nil => exact underflow
    | cons x rest =>
      obtain ⟨good, hs⟩ := List.forall_mem_cons.1 hs
      exact safe_pushing @mono hs (hp.unbox reference value h good)
  | adrOf =>
    cases stack with
    | nil => exact underflow
    | cons x rest =>
      obtain ⟨good, hs⟩ := List.forall_mem_cons.1 hs
      exact safe_pushing @mono hs (hp.adrOf h good)
  | tag value choice tag =>
    cases stack with
    | nil => exact underflow
    | cons x rest =>
      obtain ⟨good, hs⟩ := List.forall_mem_cons.1 hs
      exact safe_pushing @mono hs (hp.tag h hi good)
  | select m =>
    cases stack with
    | nil => exact underflow
    | cons subject rest =>
      obtain ⟨good, hs⟩ := List.forall_mem_cons.1 hs
      exact safe_keeping @mono hs (hp.select h hi good hn)
  | cond thenCode elseCode =>
    cases stack with
    | nil => exact underflow
    | cons condition rest =>
      obtain ⟨good, hs⟩ := List.forall_mem_cons.1 hs
      exact safe_keeping @mono hs (hp.cond code index thenCode elseCode h good hn)
  | contract kind =>
    cases stack with
    | nil => exact underflow
    | cons condition rest =>
      obtain ⟨good, hs⟩ := List.forall_mem_cons.1 hs
      exact safe_keeping @mono hs (hp.contract code index kind h good)
  | pop =>
    cases stack with
    | nil => exact underflow
    | cons x rest =>
      obtain ⟨-, hs⟩ := List.forall_mem_cons.1 hs
      exact safe_passing @mono hs (hp.nop h)
  | comment text => exact safe_passing @mono hs (hp.comment text h)

/-- Whatever was walked of a clazz, its walk ends with an answer without more ado. -/
theorem safe_conclusion (hp : p.Respects R Good v clazz p')
    (mono : ∀ {a a' x}, R.Leads a a' → Good a x → Good a' x) (continues : Bool) (outputs : List O)
    (h : R.Alike a b) :
    R.Safe (Step.IsGood Good)
      (if continues = true then do
        return ⟨some (← liftM p.unitValue), ← liftM (p.sequence outputs)⟩
      else do return ⟨none, ← liftM (p.sequence outputs)⟩)
      (if continues = true then do
        return ⟨some (← liftM p'.unitValue), ← liftM (p'.sequence outputs)⟩
      else do return ⟨none, ← liftM (p'.sequence outputs)⟩) a b := by
  cases continues with
  | true =>
    apply (hp.unitValue h).bind
    intro x a' b' h' _ good
    refine (hp.sequence outputs h').bind fun output a'' b'' h'' leads _ => .pure h'' ?_
    rintro _ ⟨⟩
    exact mono leads good
  | false =>
    refine (hp.sequence outputs h).bind fun output a' b' h' _ _ => .pure h' ?_
    rintro _ ⟨⟩

end ClosedWorld
