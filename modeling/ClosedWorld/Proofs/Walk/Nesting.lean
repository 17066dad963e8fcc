import ClosedWorld.Proofs.Draft.Answers
import ClosedWorld.Proofs.Tables
import Mathlib.Data.List.Perm.Subperm

/-!
# How deep blocks are nested, and how long it takes to walk them

Where no block contains itself, blocks that are nested in each other are different ones, so they are
nested no deeper than there are blocks in the table. And as each branch of an instruction is entered
once at most, the text of a program bounds how many steps are made in a block, whatever happens in
it.

## Main definitions

* `Program.HasCodes`: blocks that are mentioned are in the table.
* `Program.effort`: how many steps are enough for a block.

## Main statements

* `Program.length_le_of_isChain`: how deep blocks are nested.
* `Program.effort_eq`: what the effort of a block is made of.
-/

namespace ClosedWorld

/-- The blocks that clazzes and instructions mention are in the table. -/
structure Program.HasCodes (p : Program) : Prop where
  ofClazz : ∀ {c : ClazzId} {code : CodeId}, (p.info c).MentionsCode code →
    code.index < p.blocks.length
  ofBlock : ∀ {outer inner : CodeId}, p.Contains outer inner → inner.index < p.blocks.length

/-- The blocks that an accepted program mentions are in its table. -/
theorem Draft.hasCodes_of_build {d : Draft} {p : Program} (built : d.build = .ok p) :
    p.HasCodes where
  ofClazz mentions := by
    obtain holds | ⟨_, -, _, -, ⟨⟩⟩ := holds_of_answers built (.codeOfClazz mentions)
    exact holds
  ofBlock contains := by
    obtain ⟨instr, listed, branch⟩ := contains
    obtain ⟨index, found⟩ := List.mem_iff_getElem?.1 listed
    obtain holds | ⟨_, -, _, -, ⟨⟩⟩ := holds_of_answers built (.codeOfInstr found branch)
    exact holds

namespace Program

variable {p : Program}

/-! ### Depth -/

/-- Blocks that are nested in each other are different ones. -/
theorem nodup_of_isChain (acyclic : p.Acyclic) {codes : List CodeId}
    (chain : codes.IsChain fun inner outer => p.Contains outer inner) : codes.Nodup := by
  have around : codes.Pairwise fun inner outer => Relation.TransGen p.Contains outer inner :=
    have trans : IsTrans CodeId fun inner outer => Relation.TransGen p.Contains outer inner :=
      ⟨fun _ _ _ h h' => h'.trans h⟩
    List.isChain_iff_pairwise.1 (chain.imp fun _ _ contains => .single contains)
  refine around.imp fun {inner outer} contains same => ?_
  rw [same] at contains
  exact acyclic outer contains

/-- Blocks are nested no deeper than there are blocks in the table, by the pigeonhole principle. -/
theorem length_le_of_isChain (acyclic : p.Acyclic) {codes : List CodeId}
    (chain : codes.IsChain fun inner outer => p.Contains outer inner)
    (inTable : ∀ code ∈ codes, code.index < p.blocks.length) : codes.length ≤ p.blocks.length := by
  have listed : codes ⊆ Ident.below .code p.blocks.length := fun code hc =>
    Ident.mem_below.2 (inTable code hc)
  calc codes.length
    _ ≤ (Ident.below .code p.blocks.length).length :=
      ((nodup_of_isChain acyclic chain).subperm listed).length_le
    _ = p.blocks.length := Ident.length_below ..

/-! ### Effort -/

/-- The steps that are enough for instructions, where `inner` are enough for the blocks in them: two
for each instruction, one more for each of its branches, and one at the end. -/
def effortOf (inner : CodeId → Nat) (instrs : List Instr) : Nat :=
  (instrs.map fun instr => 2 + (instr.branches.map fun code => inner code + 1).sum).sum + 1

/-- The effort for some instructions depends on that for the blocks in them only. -/
theorem effortOf_congr {inner inner' : CodeId → Nat} {instrs : List Instr}
    (alike : ∀ instr ∈ instrs, ∀ code ∈ instr.branches, inner code = inner' code) :
    effortOf inner instrs = effortOf inner' instrs := by
  have each : ∀ instr ∈ instrs, 2 + (instr.branches.map fun code => inner code + 1).sum =
      2 + (instr.branches.map fun code => inner' code + 1).sum := by
    intro instr listed
    rw [List.map_congr_left fun code branch => congrArg (· + 1) (alike instr listed code branch)]
  unfold effortOf
  rw [List.map_congr_left each]

/-- There is some effort even for a block without instructions: that of finding it at its end. -/
theorem effortOf_pos (inner : CodeId → Nat) (instrs : List Instr) : 0 < effortOf inner instrs :=
  Nat.succ_pos _

/-- From an instruction on, there is the effort for it and that for the instructions after it. -/
theorem effortOf_drop (inner : CodeId → Nat) {instrs : List Instr} {index : Nat} {instr : Instr}
    (found : instrs[index]? = some instr) :
    effortOf inner (instrs.drop index) =
      2 + (instr.branches.map fun code => inner code + 1).sum +
        effortOf inner (instrs.drop (index + 1)) := by
  obtain ⟨inside, here⟩ := List.getElem?_eq_some_iff.1 found
  rw [List.drop_eq_getElem_cons inside, here]
  unfold effortOf
  rw [List.map_cons, List.sum_cons, Nat.add_assoc]

variable (p) in
/-- The steps that are enough for a block and those nested in it less than `levels` deep. -/
def effortWithin : (levels : Nat) → CodeId → Nat
  | 0, _ => 0
  | levels + 1, code => effortOf (effortWithin levels) (p.block code)

variable (p) in
/-- The steps that are enough for a block. -/
def effort (code : CodeId) : Nat := p.effortWithin (p.blocks.length + 1) code

/-- The effort for a block does not depend on the number of levels, if it is nested no deeper than
that. -/
theorem effortWithin_eq {levels : Nat} {code : CodeId} (nests : p.NestsWithin levels code)
    {m n : Nat} (hm : levels ≤ m) (hn : levels ≤ n) :
    p.effortWithin m code = p.effortWithin n code := by
  induction levels generalizing code m n with
  | zero => exact nests.elim
  | succ levels ih =>
    obtain ⟨m, rfl⟩ := Nat.exists_eq_succ_of_ne_zero (by omega : m ≠ 0)
    obtain ⟨n, rfl⟩ := Nat.exists_eq_succ_of_ne_zero (by omega : n ≠ 0)
    refine effortOf_congr fun instr listed inner branch => ?_
    exact ih (nests inner ⟨instr, listed, branch⟩) (Nat.le_of_succ_le_succ hm)
      (Nat.le_of_succ_le_succ hn)

/-- The `effort` for a block is made of that for the blocks in it. -/
theorem effort_eq (acyclic : p.Acyclic) (code : CodeId) :
    p.effort code = effortOf p.effort (p.block code) := by
  have nests : p.NestsWithin (p.blocks.length + 1) code :=
    nestsWithin_of_around acyclic ∅ (fun _ h => absurd h (Finset.notMem_empty _))
      (fun _ h => absurd h (Finset.notMem_empty _)) (by simp)
  refine effortOf_congr fun instr listed inner branch => ?_
  have inside := nests inner ⟨instr, listed, branch⟩
  exact effortWithin_eq inside (Nat.le_refl _) (Nat.le_succ _)

end Program

end ClosedWorld
