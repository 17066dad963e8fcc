import ClosedWorld.Proofs.Draft.Violations

/-!
# What a program answers with is in its tables

A program is asked about its clazzes and blocks, and answers with clazzes and blocks again. If it
was made from a draft, these are in its tables, so they can be asked about in turn. There is one
exception: the layout of constant strings is handed on as it was chosen, whatever it mentions.

## Main definitions

* `Program.Answers`: what a program answers with, one constructor for each kind of question.
* `ConstStringLayout.mentioned`: the clazzes of a layout.

## Main statements

* `Draft.holds_of_answers_iff`: the answers of a program are in its tables if and only if the layout
  of constant strings is.
-/

namespace ClosedWorld

/-- All clazzes that the layout mentions. -/
def ConstStringLayout.mentioned (layout : ConstStringLayout) : List ClazzId :=
  [layout.clazz, layout.internalArray, layout.arrayClazz, layout.data, layout.length,
    layout.element]

namespace Program

variable (p : Program)

/-- The table that the reference is about has an entry for it. -/
def Holds : Reference → Prop
  | .clazz c => c.index < p.clazzCount
  | .code c => c.index < p.blocks.length

/-- What the program answers with. -/
inductive Answers : Reference → Prop where
  | main : Answers (.clazz p.main)
  /-- Outer clazz, result, result field, outer reference, effect type, call, arguments, generics. -/
  | clazzOfClazz {c e : ClazzId} (mentions : (p.info c).MentionsClazz e) : Answers (.clazz e)
  /-- Body and contracts. -/
  | codeOfClazz {c : ClazzId} {e : CodeId} (mentions : (p.info c).MentionsCode e) :
    Answers (.code e)
  | contract {c : ClazzId} {kind : ContractKind} {index : Nat} {e : CodeId}
    (found : p.contract? c kind index = some e) : Answers (.code e)
  | field {c e : ClazzId} (listed : e ∈ p.fields c) : Answers (.clazz e)
  | special {s : Special} {e : ClazzId} (found : p.specialClazz? s = some e) : Answers (.clazz e)
  | named {name : String} {e : ClazzId} (found : p.find? name = some e) : Answers (.clazz e)
  | clazzOfInstr {code : CodeId} {index : Nat} {instr : Instr} {e : ClazzId}
    (found : p.instr? code index = some instr) (mentions : instr.MentionsClazz e) :
    Answers (.clazz e)
  | codeOfInstr {code : CodeId} {index : Nat} {instr : Instr} {e : CodeId}
    (found : p.instr? code index = some instr) (mentions : e ∈ instr.branches) : Answers (.code e)
  | layout {layout : ConstStringLayout} {e : ClazzId} (chosen : p.constString = some layout)
    (mentions : e ∈ layout.mentioned) : Answers (.clazz e)

end Program

namespace Draft

variable {d : Draft} {p : Program}

/-- A draft that is accepted is `Sound`. -/
theorem sound_of_build (built : d.build = .ok p) : d.Sound := by
  rw [sound_iff, ← (inOrder_defects d).nil_iff]
  exact (build_eq_ok_iff.1 built).1

/-- What a program describes, its draft has defined. Of anything else it knows nothing. -/
theorem defines_of_build (built : d.build = .ok p) (c : ClazzId) :
    p.info c = default ∨ ∃ name, d.Defines c name (p.info c) := by
  obtain ⟨sound, rfl⟩ := build_eq_ok_iff.1 built
  have defined : d.undefinedClazzes = [] := by
    unfold defects at sound
    simp only [List.append_eq_nil_iff] at sound
    exact sound.1.1.1
  exact (info_toProgram defined c).imp And.right id

/-- The instructions of a program are those of its draft. -/
theorem hasInstr_of_build (built : d.build = .ok p) {code : CodeId} {index : Nat} {instr : Instr}
    (found : p.instr? code index = some instr) : d.HasInstr code index instr := by
  obtain ⟨-, rfl⟩ := build_eq_ok_iff.1 built
  unfold Program.instr? Program.block at found
  cases entry : d.toProgram.blocks[code.index]? with
  | none =>
    rw [entry] at found
    cases found
  | some instrs =>
    rw [entry] at found
    exact ⟨instrs, entry, found⟩

/-- A clazz that is found at a position of the table is in the table. -/
theorem holds_of_findIdx {test : String × ClazzInfo → Bool} {e : ClazzId}
    (found : (p.clazzes.findIdx? test).map Ident.mk = some e) : p.Holds (.clazz e) := by
  obtain ⟨i, position, rfl⟩ := Option.map_eq_some_iff.1 found
  exact (List.findIdx?_eq_some_iff_getElem.1 position).1

/-- Everything that a program answers with is in its tables, but for the layout of constant
strings. -/
theorem holds_of_answers (built : d.build = .ok p) {r : Reference} (answers : p.Answers r) :
    p.Holds r ∨ ∃ layout, p.constString = some layout ∧ ∃ e ∈ layout.mentioned, r = .clazz e := by
  have sound := sound_of_build built
  have clazzCount : d.clazzes.length = p.clazzCount := by
    rw [← (build_eq_ok_iff.1 built).2, clazzCount_toProgram]
  have blockCount : d.blocks.length = p.blocks.length := by
    rw [← (build_eq_ok_iff.1 built).2]
    rfl
  have code {c : ClazzId} {e : CodeId} (mentions : (p.info c).MentionsCode e) :
      p.Holds (.code e) := by
    obtain unknown | ⟨name, defined⟩ := defines_of_build built c
    · rw [unknown] at mentions
      rcases mentions with h | h | h <;> cases h
    · exact Nat.lt_of_lt_of_eq (sound.code_of_clazz defined mentions) blockCount
  cases answers with
  | main => exact .inl (wellFormed_of_build built).main
  | @clazzOfClazz c e mentions =>
    obtain unknown | ⟨name, defined⟩ := defines_of_build built c
    · rw [unknown] at mentions
      rcases mentions with h | h | h | h | h | h | h | h <;> cases h
    · exact .inl (Nat.lt_of_lt_of_eq (sound.clazz_of_clazz defined mentions) clazzCount)
  | codeOfClazz mentions => exact .inl (code mentions)
  | @contract c kind index e found =>
    have listed := List.mem_of_getElem? found
    cases kind with
    | pre => exact .inl (code (.precondition listed))
    | post => exact .inl (code (.postcondition listed))
  | field listed => exact .inl (Ident.mem_below.1 (List.mem_of_mem_filter listed))
  | special found => exact .inl (holds_of_findIdx found)
  | named found => exact .inl (holds_of_findIdx found)
  | clazzOfInstr found mentions =>
    have inside := sound.clazz_of_instr (hasInstr_of_build built found) mentions
    exact .inl (Nat.lt_of_lt_of_eq inside clazzCount)
  | codeOfInstr found mentions =>
    have inside := sound.code_of_instr (hasInstr_of_build built found) mentions
    exact .inl (Nat.lt_of_lt_of_eq inside blockCount)
  | layout chosen mentions => exact .inr ⟨_, chosen, _, mentions, rfl⟩

/-- Whichever steps a program has come about by, its answers are in its tables if and only if the
layout of constant strings is, which is the one that was chosen last. All other answers are in the
tables in any case. -/
theorem holds_of_answers_iff (steps : List Operation) (p : Program)
    (built : (after steps).build = .ok p) :
    p.constString = (after steps).constString ∧
      ((∀ r, p.Answers r → p.Holds r) ↔
        ∀ layout, p.constString = some layout → ∀ e ∈ layout.mentioned, e.index < p.clazzCount) ∧
      ∀ r, p.Answers r → ¬p.Holds r →
        ∃ layout, p.constString = some layout ∧ ∃ e ∈ layout.mentioned, r = .clazz e := by
  refine ⟨?_, ⟨fun holds layout chosen e mentions => ?_, fun inside r answers => ?_⟩,
    fun r answers dangles => ?_⟩
  · rw [← (build_eq_ok_iff.1 built).2]
    rfl
  · exact holds _ (.layout chosen mentions)
  · obtain holds | ⟨layout, chosen, e, mentions, rfl⟩ := holds_of_answers built answers
    exacts [holds, inside layout chosen e mentions]
  · exact (holds_of_answers built answers).resolve_left dangles

/-- There is one clazz, and constant strings are to be made of others. -/
def adrift : List Operation :=
  [.add { name := some "main", kind := .routine }, .setMain ⟨0⟩,
    .setConstString ⟨⟨0⟩, ⟨0⟩, ⟨0⟩, ⟨0⟩, ⟨0⟩, ⟨9⟩⟩]

/-- The program of the draft `adrift` does not have the clazz that its layout mentions. -/
theorem not_holds_adrift : ¬(after adrift).toProgram.Holds (.clazz ⟨9⟩) := by
  have beyond : ¬9 < (after adrift).toProgram.clazzCount := by decide +kernel
  exact beyond

/-- A program is accepted that answers with a clazz which it does not have, so `Draft.build` does
not check everything that it hands on. -/
theorem not_holds_of_answers :
    ¬∀ (steps : List Operation) (p : Program), (after steps).build = .ok p →
      ∀ r, p.Answers r → p.Holds r := by
  intro holds
  have built : (after adrift).build = .ok (after adrift).toProgram := by decide +kernel
  exact not_holds_adrift (holds adrift _ built (.clazz ⟨9⟩) (.layout rfl (by decide)))

/-- A case of `holds_of_answers_iff`: with the layout an answer is missing from the tables, and
without it all answers are in the tables. -/
theorem holds_of_answers_iff_adrift :
    (after adrift).build = .ok (after adrift).toProgram ∧
      ¬(after adrift).toProgram.Holds (.clazz ⟨9⟩) ∧
      ∀ r, (after (adrift.take 2)).toProgram.Answers r →
        (after (adrift.take 2)).toProgram.Holds r := by
  have built : (after (adrift.take 2)).build = .ok (after (adrift.take 2)).toProgram := by
    decide +kernel
  refine ⟨by decide +kernel, not_holds_adrift, ?_⟩
  obtain ⟨same, inside, -⟩ := holds_of_answers_iff (adrift.take 2) _ built
  refine inside.2 fun layout chosen => ?_
  cases chosen.symm.trans same

end Draft

end ClosedWorld
