import ClosedWorld.Proofs.Analysis.Courses
import ClosedWorld.Proofs.Walk.Nesting
import Mathlib.Algebra.Order.BigOperators.Group.List

/-!
# The steps that a program admits

Which steps the walk of a call makes depends on what is found: on the subjects of matches, on the
branches that these select, and on where control ends. The text of a program only tells which steps
there can be. Where no block contains itself, this is enough: each step takes some of the effort
that the text allows for, and blocks that are walked within each other are nested in the program.

## Main definitions

* `Moves`: the steps of all walks that the text of a program admits.
* `Course.effort`: the steps that are enough for what is left of a walk.
* `Course.Nested`: the blocks of a course are nested as the program nests them.

## Main statements

* `Analyzer.moves_of_next`: an analysis makes such steps.
* `Moves.effort_lt`, `length_lt_of_isChain_moves`: steps take effort, so there are only so many.
* `Moves.nested`, `depth_le_of_isChain_moves`: steps keep blocks nested, so they are only so deep.
-/

namespace ClosedWorld

variable {p : Program}

/-! ### Steps -/

/-- From one course to the next as far as the text of a program tells. An instruction leads to the
next one, with any stack, or to some of its branches; each of these is entered or passed over; and a
block may be left at any moment, with control continuing after it or not. -/
inductive Moves (p : Program) : Course → Course → Prop where
  | passes {place : Place} {instr : Instr} {stack : List Value} {outer : List Fork}
    {blocks : List CodeId} {s s' : Analysis}
    (found : p.instr? place.code place.index = some instr) :
    Moves p ⟨.instr place, outer, blocks, s⟩ ⟨.instr (place.past stack), outer, blocks, s'⟩
  | forks {place : Place} {instr : Instr} {stack : List Value} {branches : List Branch}
    {outer : List Fork} {blocks : List CodeId} {s s' : Analysis}
    (found : p.instr? place.code place.index = some instr)
    (among : (branches.map Branch.code).Sublist instr.branches) :
    Moves p ⟨.instr place, outer, blocks, s⟩
      ⟨.branching ⟨place.past stack, branches, false⟩, outer, blocks, s'⟩
  | enters {place : Place} {branch : Branch} {rest : List Branch} {continues : Bool}
    {outer : List Fork} {blocks : List CodeId} {s s' : Analysis} :
    Moves p ⟨.branching ⟨place, branch :: rest, continues⟩, outer, blocks, s⟩
      ⟨.instr (.start branch.code), ⟨place, rest, continues⟩ :: outer, blocks, s'⟩
  | omits {place : Place} {branch : Branch} {rest : List Branch} {continues : Bool}
    {outer : List Fork} {blocks : List CodeId} {s s' : Analysis} :
    Moves p ⟨.branching ⟨place, branch :: rest, continues⟩, outer, blocks, s⟩
      ⟨.branching ⟨place, rest, continues⟩, outer, blocks, s'⟩
  | resumes {place : Place} {continues : Bool} {outer : List Fork} {blocks : List CodeId}
    {s : Analysis} :
    Moves p ⟨.branching ⟨place, [], continues⟩, outer, blocks, s⟩ ⟨.instr place, outer, blocks, s⟩
  | leaves {focus : Focus} {fork : Fork} {continues : Bool} {outer : List Fork}
    {blocks : List CodeId} {s s' : Analysis} :
    Moves p ⟨focus, fork :: outer, blocks, s⟩
      ⟨.branching (fork.after continues), outer, blocks, s'⟩
  | begins {focus : Focus} {code : CodeId} {blocks : List CodeId} {s s' : Analysis} :
    Moves p ⟨focus, [], code :: blocks, s⟩ (.start code blocks s')

/-- Leaving a block is such a step. -/
theorem moves_of_leave {focus : Focus} {continues : Bool} {outer : List Fork}
    {blocks : List CodeId} {s s' : Analysis} {c : Course}
    (left : Turn.leave continues blocks s' outer = .goesOn c) :
    Moves p ⟨focus, outer, blocks, s⟩ c := by
  cases outer with
  | cons fork outer =>
    cases left
    exact .leaves
  | nil =>
    match continues, blocks with
    | true, code :: rest =>
      cases left
      exact .begins
    | true, [] => cases left
    | false, _ => cases left

namespace Analyzer

variable {z : Analyzer} {act : Activation} {place : Place} {instr : Instr} {s s' : Analysis}

/-- What an instruction leads to, within its block. -/
theorem focus_of_begin {focus : Focus}
    (begun : (z.begin act place instr).outcome s = (.ok (some focus), s')) :
    (∃ stack, focus = .instr (place.past stack)) ∨
      ∃ stack branches, focus = .branching ⟨place.past stack, branches, false⟩ ∧
        (branches.map Branch.code).Sublist instr.branches := by
  unfold begin at begun
  split at begun
  · rename_i m subject stack shown
    cases begun
    refine .inr ⟨stack, _, rfl, ?_⟩
    rw [List.map_map]
    exact List.Sublist.refl _
  · rename_i thenCode elseCode condition stack shown
    obtain ⟨codes, taken, begun⟩ := Attempt.outcome_lift_bind_eq_ok begun
    cases begun
    refine .inr ⟨stack, _, rfl, ?_⟩
    have same : codes.map (Branch.code ∘ Branch.block) = codes := List.map_id codes
    rw [List.map_map, same]
    exact takenBranches_sublist taken
  · obtain ⟨progress, s'', -, begun⟩ := Attempt.outcome_bind_eq_ok begun
    rw [Attempt.outcome_pure] at begun
    obtain ⟨stack, -, rfl⟩ := Option.map_eq_some_iff.1 (Except.ok.inj (Prod.mk.inj begun).1)
    exact .inl ⟨stack, rfl⟩

/-- An analysis makes such steps. -/
theorem moves_of_next {c c' : Course} (goes : z.next act c = .goesOn c') :
    Moves z.view.toProgram c c' := by
  unfold next at goes
  split at goes
  · rename_i place outer blocks s
    split at goes
    · exact moves_of_leave goes
    · rename_i instr found
      split at goes
      · rename_i focus s' begun
        cases goes
        obtain ⟨stack, rfl⟩ | ⟨stack, branches, rfl, among⟩ := focus_of_begin begun
        · exact .passes found
        · exact .forks found among
      · exact moves_of_leave goes
      · cases goes
  · split at goes
    · cases goes
      exact .enters
    · cases goes
      exact .omits
    · cases goes
  · cases goes
    exact .resumes
  · exact moves_of_leave goes

end Analyzer

/-! ### Effort -/

section effort

variable (p)

/-- The steps that are enough for what is left of a block. -/
def Place.effort (place : Place) : Nat :=
  Program.effortOf p.effort ((p.block place.code).drop place.index)

/-- The steps that are enough for what is left of an instruction that branches, and of its block. -/
def Fork.effort (fork : Fork) : Nat :=
  (fork.rest.map fun branch => p.effort branch.code + 1).sum + fork.place.effort p + 1

/-- The steps that are enough for what is left of a block. -/
def Focus.effort : Focus → Nat
  | .instr place => place.effort p
  | .branching fork => fork.effort p

/-- The steps that are enough for several blocks. -/
def Program.effortOfBlocks (blocks : List CodeId) : Nat :=
  (blocks.map fun code => p.effort code + 1).sum

/-- The steps that are enough for the walk of a call. -/
def Program.effortOfCall (key : CallKey) : Nat :=
  match Machine.blocksOf p.view key.clazz key.pre with
  | .ok blocks => p.effortOfBlocks blocks
  | .error _ => 0

/-- The steps that are enough for what is left of a walk. -/
def Course.effort (c : Course) : Nat :=
  c.focus.effort p + (c.outer.map (Fork.effort p)).sum + p.effortOfBlocks c.blocks

end effort

/-- The effort for an instruction that comes next is that for the rest of its block. -/
@[simp] theorem Focus.effort_instr (place : Place) : (instr place).effort p = place.effort p := rfl

/-- The effort for branches that are being walked is that for the fork. -/
@[simp] theorem Focus.effort_branching (fork : Fork) :
    (branching fork).effort p = fork.effort p := rfl

/-- The effort for a fork does not depend on whether control continues. -/
@[simp] theorem Fork.effort_after (fork : Fork) (continues : Bool) :
    (fork.after continues).effort p = fork.effort p := rfl

/-- The effort for several blocks is that for each of them, and one step to begin with it. -/
@[simp] theorem Program.effortOfBlocks_cons (code : CodeId) (blocks : List CodeId) :
    p.effortOfBlocks (code :: blocks) = p.effort code + 1 + p.effortOfBlocks blocks :=
  List.sum_cons

/-- The effort for a call is that for its blocks. -/
theorem Program.effortOfCall_eq {key : CallKey} {blocks : List CodeId}
    (found : Machine.blocksOf p.view key.clazz key.pre = .ok blocks) :
    p.effortOfCall key = p.effortOfBlocks blocks := by
  rw [effortOfCall, found]

/-- There is some effort for whatever comes next. -/
theorem Focus.effort_pos (focus : Focus) : 0 < focus.effort p := by
  cases focus with
  | instr place => exact Program.effortOf_pos ..
  | branching fork => exact Nat.succ_pos _

/-- There is some effort left as long as a walk goes on. -/
theorem Course.effort_pos (c : Course) : 0 < c.effort p :=
  Nat.add_pos_left (Nat.add_pos_left c.focus.effort_pos _) _

/-- The effort at the start of a block is that for the block. -/
theorem Place.effort_start (acyclic : p.Acyclic) (code : CodeId) :
    (start code).effort p = p.effort code :=
  (p.effort_eq acyclic code).symm

/-- An instruction takes as much effort as its branches, and two steps more. -/
theorem Place.effort_of_instr {place : Place} {instr : Instr}
    (found : p.instr? place.code place.index = some instr) (stack : List Value) :
    place.effort p =
      2 + (instr.branches.map fun code => p.effort code + 1).sum + (place.past stack).effort p :=
  Program.effortOf_drop _ found

/-- Each step takes effort, so that less is left. -/
theorem Moves.effort_lt (acyclic : p.Acyclic) {c c' : Course} (moves : Moves p c c') :
    c'.effort p < c.effort p := by
  unfold Course.effort
  cases moves with
  | @passes place instr stack _ _ _ _ found =>
    have here := Place.effort_of_instr found stack
    simp only [Focus.effort_instr]
    omega
  -- The branches are among those of the instruction, whose effort pays for all of them.
  | @forks place instr stack branches _ _ _ _ found among =>
    have here := Place.effort_of_instr found stack
    have fewer : (branches.map fun branch => p.effort branch.code + 1).sum ≤
        (instr.branches.map fun code => p.effort code + 1).sum := by
      have sums := (among.map fun code => p.effort code + 1).sum_le_sum fun _ _ => Nat.zero_le _
      rwa [List.map_map] at sums
    simp only [Focus.effort_instr, Focus.effort_branching, Fork.effort]
    omega
  | enters =>
    simp only [Focus.effort_instr, Focus.effort_branching, Fork.effort,
      Place.effort_start acyclic, List.map_cons, List.sum_cons]
    omega
  | omits =>
    simp only [Focus.effort_branching, Fork.effort, List.map_cons, List.sum_cons]
    omega
  | resumes =>
    simp only [Focus.effort_instr, Focus.effort_branching, Fork.effort]
    omega
  | @leaves focus =>
    have here := focus.effort_pos (p := p)
    simp only [Focus.effort_branching, Fork.effort_after, List.map_cons, List.sum_cons]
    omega
  | begins =>
    simp only [Course.start, Focus.effort_instr, Place.effort_start acyclic,
      Program.effortOfBlocks_cons]
    omega

/-- There are fewer steps in a row than there is `effort` at their beginning. -/
theorem length_lt_of_isChain_moves (acyclic : p.Acyclic) {c : Course} {courses : List Course}
    (chain : (c :: courses).IsChain (Moves p)) : courses.length < c.effort p := by
  induction courses generalizing c with
  | nil => exact c.effort_pos
  | cons c' courses ih =>
    obtain ⟨moves, chain⟩ := List.isChain_cons_cons.1 chain
    exact Nat.lt_of_le_of_lt (ih chain) (moves.effort_lt acyclic)

/-! ### Depth -/

/-- The block with the focus. -/
def Focus.code : Focus → CodeId
  | instr place => place.code
  | branching fork => fork.place.code

/-- The branches that are still to come at the focus. -/
def Focus.branches : Focus → List Branch
  | instr _ => []
  | branching fork => fork.rest

/-- The blocks that are being walked, from the inside to the outside. -/
def Course.codes (c : Course) : List CodeId :=
  c.focus.code :: c.outer.map fun fork => fork.place.code

/-- The blocks that are being walked within each other are as many as the course is deep. -/
theorem Course.length_codes (c : Course) : c.codes.length = c.depth := by
  simp [codes, depth]

/-- The blocks that are walked within each other are nested in the program, as are the branches to
come, and all of them are in the table. -/
structure Course.Nested (p : Program) (c : Course) : Prop where
  chain : c.codes.IsChain fun inner outer => p.Contains outer inner
  focus : ∀ branch ∈ c.focus.branches, p.Contains c.focus.code branch.code
  outer : ∀ fork ∈ c.outer, ∀ branch ∈ fork.rest, p.Contains fork.place.code branch.code
  inTable : ∀ code ∈ c.codes, code.index < p.blocks.length
  blocks : ∀ code ∈ c.blocks, code.index < p.blocks.length

/-- A course begins with nothing around it. -/
theorem Course.nested_start {code : CodeId} {blocks : List CodeId} (s : Analysis)
    (inTable : ∀ c ∈ code :: blocks, c.index < p.blocks.length) :
    (start code blocks s).Nested p where
  chain := .singleton _
  focus := List.forall_mem_nil _
  outer := List.forall_mem_nil _
  inTable := List.forall_mem_singleton.2 (inTable code List.mem_cons_self)
  blocks c hc := inTable c (List.mem_cons_of_mem _ hc)

/-- Each step keeps blocks nested. -/
theorem Moves.nested (has : p.HasCodes) {c c' : Course} (moves : Moves p c c') (h : c.Nested p) :
    c'.Nested p := by
  cases moves with
  | passes found => exact ⟨h.chain, List.forall_mem_nil _, h.outer, h.inTable, h.blocks⟩
  | forks found among =>
    refine ⟨h.chain, fun branch listed => ?_, h.outer, h.inTable, h.blocks⟩
    exact Program.contains_of_instr? found (among.subset (List.mem_map_of_mem listed))
  | @enters place branch rest continues =>
    have inside : p.Contains place.code branch.code := h.focus branch List.mem_cons_self
    refine ⟨.cons_cons inside h.chain, List.forall_mem_nil _, ?_, ?_, h.blocks⟩
    · exact List.forall_mem_cons.2
        ⟨fun branch listed => h.focus branch (List.mem_cons_of_mem _ listed), h.outer⟩
    · exact List.forall_mem_cons.2 ⟨has.ofBlock inside, h.inTable⟩
  | omits =>
    exact ⟨h.chain, fun branch listed => h.focus branch (List.mem_cons_of_mem _ listed), h.outer,
      h.inTable, h.blocks⟩
  | resumes => exact ⟨h.chain, List.forall_mem_nil _, h.outer, h.inTable, h.blocks⟩
  | leaves =>
    obtain ⟨here, outer⟩ := List.forall_mem_cons.1 h.outer
    exact ⟨h.chain.tail, here, outer, fun code hc => h.inTable code (List.mem_cons_of_mem _ hc),
      h.blocks⟩
  | begins => exact Course.nested_start _ h.blocks

/-- Blocks are walked no deeper within each other than there are blocks. -/
theorem Course.Nested.depth_le {c : Course} (h : c.Nested p) (acyclic : p.Acyclic) :
    c.depth ≤ p.blocks.length := by
  rw [← c.length_codes]
  exact Program.length_le_of_isChain acyclic h.chain h.inTable

/-- On the way from a course that is `Nested`, blocks are never walked deeper within each other than
there are blocks. -/
theorem depth_le_of_isChain_moves (acyclic : p.Acyclic) (has : p.HasCodes) {c : Course}
    {courses : List Course} (h : c.Nested p) (chain : (c :: courses).IsChain (Moves p)) :
    ∀ c' ∈ c :: courses, c'.depth ≤ p.blocks.length := by
  induction courses generalizing c with
  | nil => exact List.forall_mem_singleton.2 (h.depth_le acyclic)
  | cons c' courses ih =>
    obtain ⟨moves, chain⟩ := List.isChain_cons_cons.1 chain
    exact List.forall_mem_cons.2 ⟨h.depth_le acyclic, ih (moves.nested has h) chain⟩

end ClosedWorld
