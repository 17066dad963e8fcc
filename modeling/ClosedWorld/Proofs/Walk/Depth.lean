import ClosedWorld.Analysis.Transfer
import ClosedWorld.Proofs.Regime
import ClosedWorld.Proofs.Walk.Machine

/-!
# Operand stacks have static depths

How many operands an instruction takes off the stack and how many values it leaves there is known
before anything is walked. So the depth of the stack at an instruction can be read off the block:
it is the sum of the effects of the instructions before, whoever the processor is and whatever is
walked inside. Whether there are enough operands for the instruction is known in advance, too, and
two walks that get there cannot disagree about it.

## Main definitions

* `Instr.leaves`, `Instr.effect`, `View.depth`: stack effects, and their sum.
* `Machine.Reaches`, `Machine.advance?`: how far a walk gets.
* `Machine.Starves`: the walk itself fails, for want of operands.

## Main statements

* `Machine.Steps.frame`: a step replaces the operands of its instruction and nothing below them.
* `Machine.Reaches.length_stack`: the depth of the stack.
* `Machine.starves_iff`: when operands are wanting.
* `Machine.depth_of_reaches`: all of this in one statement.
-/

namespace ClosedWorld

variable {ε σ V O : Type}

/-! ### Stack effects -/

/-- How many values the instruction leaves on the stack. -/
def Instr.leaves : Instr → Nat
  | .current | .outer | .arg _ | .const .. | .env _ | .call _ | .box .. | .unbox .. | .adrOf
  | .tag .. => 1
  | .assign _ | .select _ | .cond .. | .contract _ | .pop | .comment _ => 0

/-- By how much the instruction makes the stack deeper. -/
def Instr.effect (v : View) (instr : Instr) : Int := instr.leaves - instr.takes v

/-- Instructions that branch take their subject, and leave nothing. -/
theorem Instr.effect_of_branches {instr : Instr} (branches : instr.branches ≠ []) (v : View) :
    instr.takes v = 1 ∧ instr.leaves = 0 := by
  cases instr with
  | select m => exact ⟨rfl, rfl⟩
  | cond thenCode elseCode => exact ⟨rfl, rfl⟩
  | _ => exact absurd rfl branches

/-- The depth of the stack at an index of a block: the effects of the instructions before, added up.
-/
def View.depth (v : View) (code : CodeId) (index : Nat) : Int :=
  ((v.block code).take index).foldl (fun depth instr => depth + instr.effect v) 0

/-- Behind an instruction the `depth` has changed by the `effect` of the instruction. -/
theorem View.depth_succ {v : View} {code : CodeId} {index : Nat} {instr : Instr}
    (found : v.instr? code index = some instr) :
    v.depth code (index + 1) = v.depth code index + instr.effect v := by
  have found : (v.block code)[index]? = some instr := found
  unfold depth
  rw [List.take_add_one, found, Option.toList_some, List.foldl_concat]

namespace Machine

section steps

variable {v : View} {p : Processor ε σ V O} {nested : BlockWalk ε σ V O} {clazz : ClazzId}
  {code : CodeId} {c c' : Config σ V O} {instr : Instr}

/-- A `callback` asks about as many operands as the instruction `takes`, and about no other number.
-/
theorem length_of_callback {site : Site} {operands : List V} {answer : Attempt ε σ (Reply V O)}
    (asks : callback v p nested site instr operands = some answer) :
    operands.length = instr.takes v := by
  unfold callback at asks
  split at asks
  case h_7 access target args =>
    split at asks
    · rename_i enough
      exact congrArg Nat.succ enough
    · cases asks
  case h_17 => cases asks
  all_goals rfl

/-- An answer that lets control continue has as many values as the instruction `leaves`. -/
theorem length_pushed {site : Site} {operands pushed : List V}
    {answer : Attempt ε σ (Reply V O)} {reply : Reply V O} {s s' : σ}
    (asks : callback v p nested site instr operands = some answer)
    (answers : answer.outcome s = (.ok reply, s')) (continues : reply.pushed = some pushed) :
    pushed.length = instr.leaves := by
  have yields {step : Attempt ε σ (Step V O)} (run : (Reply.yields <$> step).outcome s =
      (.ok reply, s')) : pushed.length = 1 := by
    rw [map_eq_pure_bind] at run
    obtain ⟨x, _, -, ⟨⟩⟩ := Attempt.outcome_bind_eq_ok run
    obtain ⟨_, -, rfl⟩ := Option.map_eq_some_iff.1 continues
    rfl
  have decides {step : Attempt ε σ (Step V O)} (run : (Reply.decides <$> step).outcome s =
      (.ok reply, s')) : pushed.length = 0 := by
    rw [map_eq_pure_bind] at run
    obtain ⟨x, _, -, ⟨⟩⟩ := Attempt.outcome_bind_eq_ok run
    obtain ⟨_, -, rfl⟩ := Option.map_eq_some_iff.1 continues
    rfl
  have passes {output : Attempt ε σ O} (run : (Reply.passes <$> output).outcome s =
      (.ok reply, s')) : pushed.length = 0 := by
    rw [map_eq_pure_bind] at run
    obtain ⟨x, _, -, ⟨⟩⟩ := Attempt.outcome_bind_eq_ok run
    cases continues
    rfl
  unfold callback at asks
  split at asks
  case h_7 access target args =>
    split at asks
    · cases asks
      exact yields answers
    · cases asks
  case h_17 => cases asks
  all_goals cases asks
  case h_6 | h_15 | h_16 => exact passes answers
  case h_12 | h_13 | h_14 => exact decides answers
  all_goals exact yields answers

/-- A step is a step over an instruction, which it leaves at the next index. -/
theorem Steps.exists_instr (steps : Steps v p nested clazz code c c') :
    c'.index = c.index + 1 ∧ ∃ instr, v.instr? code c.index = some instr := by
  cases steps with
  | next fetches applies answers continues => exact ⟨rfl, _, fetches.found⟩

/-- What a step does to the stack: the operands of the instruction are replaced by what it leaves,
and the values below them stay. -/
theorem Steps.frame (steps : Steps v p nested clazz code c c')
    (found : v.instr? code c.index = some instr) :
    ∃ rest operands pushed, c.stack = rest ++ operands ∧ c'.stack = rest ++ pushed ∧
      operands.length = instr.takes v ∧ pushed.length = instr.leaves := by
  cases steps with
  | next fetches applies answers continues =>
    cases fetches.found.symm.trans found
    obtain ⟨operands, split, asks⟩ := applies
    exact ⟨_, operands, _, split, rfl, length_of_callback asks,
      length_pushed asks answers continues⟩

/-- What is walked inside a branching instruction leaves the stack of the block alone, of which the
instruction itself takes its subject. -/
theorem Steps.frame_of_branches (steps : Steps v p nested clazz code c c')
    (found : v.instr? code c.index = some instr) (branches : instr.branches ≠ []) :
    ∃ subject, c.stack = c'.stack ++ [subject] := by
  obtain ⟨rest, operands, pushed, before, after, taken, left⟩ := steps.frame found
  obtain ⟨one, none⟩ := Instr.effect_of_branches branches v
  obtain ⟨subject, rfl⟩ := List.length_eq_one_iff.1 (taken.trans one)
  obtain rfl := List.length_eq_zero_iff.1 (left.trans none)
  exact ⟨subject, by rw [before, after, List.append_nil]⟩

/-- A step changes the depth of the stack by the `effect` of its instruction. -/
theorem Steps.effect (steps : Steps v p nested clazz code c c')
    (found : v.instr? code c.index = some instr) :
    (c'.stack.length : Int) = c.stack.length + instr.effect v := by
  obtain ⟨rest, operands, pushed, before, after, taken, left⟩ := steps.frame found
  rw [before, after, List.length_append, List.length_append, taken, left]
  unfold Instr.effect
  omega

/-! ### Where a walk gets to -/

variable (v p nested clazz code) in
/-- The walk of a block that starts in the state gets to the configuration: it neither stops nor
fails before. -/
def Reaches (s : σ) (c : Config σ V O) : Prop :=
  Relation.ReflTransGen (Steps v p nested clazz code) (.start s) c

variable (v p nested clazz code) in
/-- The configuration after the instruction, if the walk goes on. -/
def advance? (c : Config σ V O) : Option (Config σ V O) := do
  let instr ← (v.instr? code c.index).filter fun _ => c.index < v.codeLength code
  let asked := (p.header ⟨clazz, code, c.index⟩).run c.state
  let below := c.stack.length - instr.takes v
  let answer ← callback v p nested ⟨clazz, code, c.index⟩ instr (c.stack.drop below)
  match answer.outcome asked.2 with
  | (.ok reply, s) => do
    let pushed ← reply.pushed
    return ⟨c.index + 1, c.stack.take below ++ pushed, c.outputs ++ [asked.1, reply.output], s⟩
  | (.error _, _) => none

/-- What `advance?` computes is a step of the machine. -/
theorem steps_of_advance (advances : advance? v p nested clazz code c = some c') :
    Steps v p nested clazz code c c' := by
  unfold advance? at advances
  obtain ⟨instr, found, advances⟩ := Option.bind_eq_some_iff.1 advances
  obtain ⟨found, inside⟩ := Option.filter_eq_some_iff.1 found
  obtain ⟨answer, asks, advances⟩ := Option.bind_eq_some_iff.1 advances
  split at advances
  case h_2 => cases advances
  rename_i reply s answers
  obtain ⟨pushed, continues, ⟨⟩⟩ := Option.bind_eq_some_iff.1 advances
  exact .next ⟨of_decide_eq_true inside, found, rfl⟩
    ⟨_, (List.take_append_drop ..).symm, asks⟩ answers continues

/-- Where a walk gets to after `n` steps can be computed by `advance?`. -/
theorem Reaches.of_advance {s : σ} (n : Nat)
    (advances : (· >>= advance? v p nested clazz code)^[n] (some (.start s)) = some c) :
    Reaches v p nested clazz code s c := by
  induction n generalizing c with
  | zero =>
    cases advances
    exact .refl
  | succ n ih =>
    rw [Function.iterate_succ_apply'] at advances
    obtain ⟨before, earlier, last⟩ := Option.bind_eq_some_iff.1 advances
    exact .tail (ih earlier) (steps_of_advance last)

/-- Wherever the walk of a block gets to, its stack is as deep as `View.depth` says. -/
theorem Reaches.length_stack {s : σ} (reaches : Reaches v p nested clazz code s c) :
    (c.stack.length : Int) = v.depth code c.index := by
  induction reaches with
  | refl => rfl
  | tail _ steps ih =>
    obtain ⟨index, instr, found⟩ := steps.exists_instr
    rw [steps.effect found, ih, index, View.depth_succ found]

end steps

/-! ### Want of operands -/

/-- The instruction cannot be walked with this stack, the top of which is its head: the walk itself
raises the error, no matter what a processor would have to say. -/
def Starves (v : View) (site : Site) (instr : Instr) (stack : List V) : Prop :=
  ∀ {ε σ O : Type} (p : Processor ε σ V O) (nested : BlockWalk ε σ V O),
    walkInstr v p nested site instr stack =
      throw (p.malformed (.stackUnderflow site.code site.index))

/-- A processor that has one value as its answer to everything. -/
def agreeable (x : V) : Processor WalkError Unit V Unit where
  malformed := id
  sequence _ := pure ()
  unitValue := pure x
  header _ := pure ()
  comment _ := pure ()
  nop := pure ()
  current _ := pure ⟨some x, ()⟩
  outer _ := pure ⟨some x, ()⟩
  arg _ _ := pure ⟨some x, ()⟩
  const _ _ _ := pure ⟨some x, ()⟩
  adrOf _ := pure ⟨some x, ()⟩
  assign _ _ _ _ := pure ()
  call _ _ _ _ := pure ⟨some x, ()⟩
  box _ _ _ := pure ⟨some x, ()⟩
  unbox _ _ _ := pure ⟨some x, ()⟩
  tag _ _ _ _ _ := pure ⟨some x, ()⟩
  env _ _ := pure ⟨some x, ()⟩
  select _ _ _ _ := pure ⟨some x, ()⟩
  cond _ _ _ _ _ := pure ⟨some x, ()⟩
  contract _ _ _ := pure ⟨some x, ()⟩

/-- The processor `agreeable x` answers every question about the operands of an instruction, and so
gets on wherever there are enough of them. -/
theorem outcome_of_callback_agreeable {v : View} {x : V} {nested : BlockWalk WalkError Unit V Unit}
    {site : Site} {instr : Instr} {operands : List V}
    {answer : Attempt WalkError Unit (Reply V Unit)}
    (asks : callback v (agreeable x) nested site instr operands = some answer) :
    ∃ reply, answer.outcome () = (.ok reply, ()) := by
  unfold callback at asks
  split at asks
  case h_7 =>
    split at asks
    · cases asks
      exact ⟨_, rfl⟩
    · cases asks
  case h_17 => cases asks
  all_goals
    cases asks
    exact ⟨_, rfl⟩

/-- Operands are wanting if and only if there are fewer than the instruction takes. Where there are
enough, a processor can have the walk go on. -/
theorem starves_iff {v : View} {site : Site} {instr : Instr} {stack : List V} (x : V) :
    Starves v site instr stack ↔ stack.length < instr.takes v := by
  refine ⟨fun starves => ?_, fun short => fun p nested => walkInstr_of_short short⟩
  by_contra enough
  have enough : instr.takes v ≤ stack.reverse.length := by
    rw [List.length_reverse]
    exact Nat.le_of_not_lt enough
  obtain ⟨rest, operands, answer, split, asks⟩ :=
    exists_asked v (agreeable x) (fun _ _ => pure ⟨none, ()⟩) site enough
  obtain ⟨reply, ok⟩ := outcome_of_callback_agreeable asks
  have walks : _ = Reply.progress rest <$> answer := walkInstr_of_callback asks
  rw [← split, List.reverse_reverse, starves (agreeable x)] at walks
  have ends := congrArg (Attempt.outcome · ()) walks
  simp only [Attempt.outcome_throw, Attempt.outcome_map, ok] at ends
  cases ends

/-! ### The whole -/

/-- Stack underflow is a property of the block. Let the walk of a block get to an index. Then what
is left of the walk decides its outcome, and the stack holds as many values as the effects of the
instructions before add up to. For the instruction there, the walk itself raises the underflow if
and only if this number is below what the instruction takes: then it fails after the header, without
an answer of the processor, which otherwise is asked about the topmost operands. If it goes on, it
does so with these replaced and the values below them untouched; a branching instruction takes its
subject and leaves nothing, whatever was walked inside. Every other walk of the block that gets to
the index, by another processor, on behalf of another clazz and as deep inside other blocks as it
may be, has as many values there, and underflows if this one does. -/
theorem depth_of_reaches (program : Program) (p : Processor ε σ V O) (levels : Nat)
    (clazz : ClazzId) (code : CodeId) (s : σ) (c : Config σ V O)
    (reaches : Reaches program.view p (walkNested program.view p levels) clazz code s c) :
    let v := program.view
    let nested := walkNested v p levels
    (walkNested v p (levels + 1) clazz code).outcome s = walkFrom v p nested clazz code c ∧
      (c.stack.length : Int) = v.depth code c.index ∧
      (∀ instr, v.instr? code c.index = some instr →
        (Starves v ⟨clazz, code, c.index⟩ instr c.stack.reverse ↔
          v.depth code c.index < instr.takes v) ∧
        (v.depth code c.index < instr.takes v →
          (walkNested v p (levels + 1) clazz code).outcome s =
            (.error (p.malformed (.stackUnderflow code c.index)),
              ((p.header ⟨clazz, code, c.index⟩).run c.state).2)) ∧
        (instr.takes v ≤ v.depth code c.index → ∃ rest answer,
          Applies v p nested clazz code c instr rest answer ∧
          walkInstr v p nested ⟨clazz, code, c.index⟩ instr c.stack.reverse =
            Reply.progress rest <$> answer) ∧
        ∀ c', Steps v p nested clazz code c c' →
          (∃ rest operands pushed, c.stack = rest ++ operands ∧ c'.stack = rest ++ pushed ∧
            operands.length = instr.takes v ∧ pushed.length = instr.leaves) ∧
          (instr.branches ≠ [] → ∃ subject, c.stack = c'.stack ++ [subject])) ∧
      ∀ {ε' σ' V' O' : Type} (p' : Processor ε' σ' V' O') (levels' : Nat) (clazz' : ClazzId)
        (s' : σ') (c' : Config σ' V' O'),
        Reaches v p' (walkNested v p' levels') clazz' code s' c' → c'.index = c.index →
          c'.stack.length = c.stack.length ∧
          ∀ instr, v.instr? code c.index = some instr →
            (Starves v ⟨clazz', code, c.index⟩ instr c'.stack.reverse ↔
              Starves v ⟨clazz, code, c.index⟩ instr c.stack.reverse) := by
  intro v nested
  have depth := reaches.length_stack
  have rest := walkFrom_of_run reaches
  -- Whether an instruction starves depends on the length of the stack only, and the length is the
  -- depth.
  have starves {ε' σ' V' O' : Type} (p' : Processor ε' σ' V' O') (site : Site) (instr : Instr)
      (c' : Config σ' V' O') : Starves v site instr c'.stack.reverse ↔
        c'.stack.length < instr.takes v := by
    rw [starves_iff (p'.unitValue.run c'.state).1, List.length_reverse]
  refine ⟨rest, depth, fun instr found => ⟨?_, fun short => ?_, fun enough => ?_, ?_⟩,
    fun p' levels' clazz' s' c' reaches' index => ?_⟩
  · rw [starves p, ← depth, Int.ofNat_lt]
  · rw [← depth, Int.ofNat_lt] at short
    have inside := List.getElem?_eq_some_iff.1 found
    exact rest.trans (walkFrom_of_halts (.underflows ⟨inside.1, found, rfl⟩ short))
  · rw [← depth, Int.ofNat_le] at enough
    obtain ⟨rest, operands, answer, split, asks⟩ :=
      exists_asked v p nested ⟨clazz, code, c.index⟩ enough
    exact ⟨rest, answer, ⟨operands, split, asks⟩, split ▸ walkInstr_of_callback asks⟩
  · exact fun c' steps => ⟨steps.frame found, steps.frame_of_branches found⟩
  · have alike : c'.stack.length = c.stack.length := by
      have depth' := reaches'.length_stack
      rw [index, ← depth] at depth'
      exact Int.ofNat_inj.1 depth'
    exact ⟨alike, fun instr _ => by rw [starves p', starves p, alike]⟩

/-- A function of two arguments is called with one, after a branch. -/
def cramped : Draft where
  clazzes :=
    [ ("main", some { kind := .routine, code := some ⟨0⟩ })
    , ("bool", some { kind := .choice, special := some .bool })
    , ("both", some { kind := .routine, args := [⟨1⟩, ⟨1⟩], needsCode := false }) ]
  blocks :=
    [ [.current, .const ⟨1⟩ [1], .cond ⟨1⟩ ⟨2⟩, .const ⟨1⟩ [0], .call (.fixed ⟨2⟩)]
    , [.comment "goes on"]
    , [.const ⟨1⟩ [1], .pop] ]
  main := some ⟨0⟩

/-- A listing and an analysis both get to the call, and both find it short of an operand. -/
theorem depth_of_reaches_cramped :
    let v := cramped.toProgram.view
    let listing := Listing.processor v {}
    let analysis := Analyzer.processor { view := v } ⟨⟨0⟩, ⟨⟨0⟩, false, .unit, [], none⟩, ⟨0⟩⟩
    let site : Site := ⟨⟨0⟩, ⟨0⟩, 4⟩
    let c : Config Nat String Listing.Lines :=
      ⟨4, ["cur<main>", "false"], [[], [], [], [], [],
        ["if true \x7b", "  // goes on", "\x7d else \x7b", "  nop", "\x7d"], [], []], 0⟩
    let c' : Config Analysis Value Unit :=
      ⟨4, [.object ⟨0⟩, .bool .false], List.replicate 8 (), {}⟩
    cramped.build = .ok cramped.toProgram ∧
      Reaches v listing (walkNested v listing 1) ⟨0⟩ ⟨0⟩ 0 c ∧
      Reaches v analysis (walkNested v analysis 1) ⟨0⟩ ⟨0⟩ {} c' ∧
      v.depth ⟨0⟩ 4 = 2 ∧ c.stack.length = 2 ∧ c'.stack.length = 2 ∧
      Starves v site (.call (.fixed ⟨2⟩)) c.stack.reverse ∧
      Starves v site (.call (.fixed ⟨2⟩)) c'.stack.reverse ∧
      (walkNested v listing 2 ⟨0⟩ ⟨0⟩).outcome 0 =
        (.error (.malformed (.stackUnderflow ⟨0⟩ 4)), 0) := by
  intro v listing analysis site c c'
  have lists : Reaches v listing (walkNested v listing 1) ⟨0⟩ ⟨0⟩ 0 c :=
    .of_advance 4 rfl
  have analyses : Reaches v analysis (walkNested v analysis 1) ⟨0⟩ ⟨0⟩ {} c' :=
    .of_advance 4 rfl
  have found : v.instr? ⟨0⟩ 4 = some (.call (.fixed ⟨2⟩)) := rfl
  have short : v.depth ⟨0⟩ 4 < (Instr.call (.fixed ⟨2⟩)).takes v := by decide +kernel
  obtain ⟨-, -, there, others⟩ := depth_of_reaches cramped.toProgram listing 1 ⟨0⟩ ⟨0⟩ 0 c lists
  obtain ⟨starves, raises, -, -⟩ := there _ found
  obtain ⟨alike, agree⟩ := others analysis 1 ⟨0⟩ {} c' analyses rfl
  exact ⟨by decide +kernel, lists, analyses, by decide +kernel, rfl, alike, starves.2 short,
    (agree _ found).2 (starves.2 short), raises short⟩

end Machine

end ClosedWorld
