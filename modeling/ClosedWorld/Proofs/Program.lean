import ClosedWorld.Analysis.Sweep
import ClosedWorld.Program.Draft
import Mathlib.Data.Finset.Card
import Mathlib.Logic.Relation

/-!
# Programs that are accepted

What can be relied on in a program that was made from a draft, and what can be asked of a program
besides: that no block contains itself, and that no value is ever wrapped up in another one.

## Main definitions

* `Program.WellFormed`: all mentions are of entries of the tables, and results have their fields.
* `Program.Acyclic`, `Program.NestsWithin`: blocks that are nested in each other.
* `View.Boxes`, `View.Tags`, `View.HasIntrinsic`: what wraps values, and what intrinsics there are.
* `View.FirstOrder`: programs that wrap nothing and allocate nothing.
* `Feature`, `Program.features`: what a program has that goes beyond that.
* `View.Occurs`, `View.maxArity`: bounds on the clazzes and on the numbers of arguments.

## Main statements

* `Draft.wellFormed_of_build`: what is accepted is well formed.
* `Program.nestsWithin_of_acyclic`: where no block contains itself, the nesting of blocks is
  bounded.
* `Program.firstOrder_of_features`: a program without these features is first order.
-/

namespace ClosedWorld

/-- The analyzer of a program with all its answers, with the intrinsics of the standard library. -/
def Program.analyzer (p : Program) (config : Config) : Analyzer where
  view := p.view
  config := config

/-- The analyzer of a program has the `standard` table of intrinsics. -/
theorem Program.intrinsics_analyzer (p : Program) (config : Config) :
    (p.analyzer config).intrinsics = .standard := by
  simp only [analyzer]

/-! ### Well-formed programs -/

/-- All mentions of clazzes are of entries of the table, and a routine that produces something has a
field to leave it in. -/
structure Program.WellFormed (p : Program) : Prop where
  main : p.main.index < p.clazzCount
  clazz_reference : ∀ {c d}, .clazz d ∈ (p.info c).references → d.index < p.clazzCount
  instr_reference : ∀ {code index instr d}, p.instr? code index = some instr →
    .clazz d ∈ instr.references → d.index < p.clazzCount
  resultField : ∀ {c result}, (p.info c).kind = .routine → (p.info c).result = some result →
    p.isUnit result = false → result ≠ c → (p.info c).resultField ≠ none

namespace Draft

variable {d : Draft} {p : Program}

/-- A draft is accepted if it has no `defects`, and its program is then `d.toProgram`. -/
theorem build_eq_ok_iff : d.build = .ok p ↔ d.defects = [] ∧ d.toProgram = p := by
  unfold build
  cases d.defects <;> simp

/-- The program of a draft has as many clazzes as the draft declares. -/
theorem clazzCount_toProgram (d : Draft) : d.toProgram.clazzCount = d.clazzes.length := by
  unfold Program.clazzCount toProgram
  exact List.length_map _

/-- A reference to a clazz is no defect only if the clazz is in the table. -/
theorem index_lt_of_defectOf {referrer : String} {c : ClazzId}
    (h : d.defectOf referrer (.clazz c) = none) : c.index < d.toProgram.clazzCount := by
  rw [clazzCount_toProgram]
  by_contra beyond
  simp [defectOf, beyond] at h

/-- A clazz of the program is one that was defined, with the description it was given, or there is
nothing to say of it. -/
theorem info_toProgram (defined : d.undefinedClazzes = []) (c : ClazzId) :
    (d.clazzes[c.index]? = none ∧ d.toProgram.info c = default) ∨
      ∃ name, d.clazzes[c.index]? = some (name, some (d.toProgram.info c)) := by
  unfold Program.info Program.entry toProgram
  dsimp only
  rw [List.getElem?_map]
  cases entry : d.clazzes[c.index]? with
  | none => exact .inl ⟨rfl, rfl⟩
  | some e =>
    obtain ⟨name, info⟩ := e
    cases info with
    | some info => exact .inr ⟨name, rfl⟩
    | none =>
      have listed : ((name, none), c.index) ∈ d.clazzes.zipIdx :=
        List.mem_zipIdx_iff_getElem?.2 entry
      cases List.filterMap_eq_nil_iff.1 defined _ listed

/-- A clazz is the unit type of the program exactly if it is the one of the draft. -/
theorem isUnit_toProgram (defined : d.undefinedClazzes = []) (c : ClazzId) :
    d.toProgram.isUnit c = d.isUnit c := by
  unfold Program.isUnit isUnit
  obtain ⟨unknown, info⟩ | ⟨name, known⟩ := info_toProgram defined c
  · rw [unknown, info]
    rfl
  · rw [known]
    rfl

/-- What `Draft.build` accepts is well formed: this is all that proofs about accepted programs rely
on. -/
theorem wellFormed_of_build (built : d.build = .ok p) : p.WellFormed := by
  obtain ⟨sound, rfl⟩ := build_eq_ok_iff.1 built
  unfold defects at sound
  simp only [List.append_eq_nil_iff, List.flatMap_eq_nil_iff] at sound
  obtain ⟨⟨⟨defined, clazzes⟩, blocks⟩, main⟩ := sound
  have clazzSound {c : ClazzId} {name : String}
      (known : d.clazzes[c.index]? = some (name, some (d.toProgram.info c))) :
      d.clazzDefects c name (d.toProgram.info c) = [] := by
    have listed : ((name, some (d.toProgram.info c)), c.index) ∈ d.clazzes.zipIdx :=
      List.mem_zipIdx_iff_getElem?.2 known
    exact clazzes _ listed
  refine ⟨?_, ?_, ?_, ?_⟩
  · unfold mainDefects at main
    unfold toProgram
    cases chosen : d.main with
    | none =>
      rw [chosen] at main
      cases main
    | some c =>
      rw [chosen] at main
      exact index_lt_of_defectOf (Option.toList_eq_nil_iff.1 main)
  · intro c e mentioned
    -- A clazz that is not in the table has the default entry, which mentions nothing.
    obtain ⟨-, info⟩ | ⟨name, known⟩ := info_toProgram defined c
    · rw [info] at mentioned
      cases mentioned
    · have none := (List.append_eq_nil_iff.1 (clazzSound known)).1
      exact index_lt_of_defectOf (List.filterMap_eq_nil_iff.1 none _ mentioned)
  · intro code index instr e found mentioned
    unfold Program.instr? Program.block toProgram at found
    dsimp only at found
    cases block : d.blocks[code.index]? with
    | none =>
      rw [block] at found
      cases found
    | some instrs =>
      rw [block] at found
      have listed : (instrs, code.index) ∈ d.blocks.zipIdx := List.mem_zipIdx_iff_getElem?.2 block
      have sound := blocks _ listed
      unfold blockDefects at sound
      have none := List.flatMap_eq_nil_iff.1 sound instr (List.mem_of_getElem? found)
      exact index_lt_of_defectOf (List.filterMap_eq_nil_iff.1 none _ mentioned)
  · intro c result routine produces notUnit other lacking
    obtain ⟨-, info⟩ | ⟨name, known⟩ := info_toProgram defined c
    · rw [info] at produces
      cases produces
    · have none := (List.append_eq_nil_iff.1 (clazzSound known)).2
      have needed : d.needsResultField c (d.toProgram.info c) = true := by
        unfold needsResultField
        rw [isUnit_toProgram defined] at notUnit
        simp [routine, lacking, produces, other, notUnit]
      rw [if_pos needed] at none
      cases none

end Draft

/-! ### Nested blocks -/

namespace Program

variable (p : Program)

/-- An instruction of the first block may walk the second one. -/
def Contains (outer inner : CodeId) : Prop := ∃ instr ∈ p.block outer, inner ∈ instr.branches

/-- No block contains itself, neither at once nor through other blocks. -/
def Acyclic : Prop := ∀ code, ¬Relation.TransGen p.Contains code code

/-- Blocks are nested in the block less than `levels` deep. -/
def NestsWithin : (levels : Nat) → CodeId → Prop
  | 0, _ => False
  | levels + 1, code => ∀ inner, p.Contains code inner → NestsWithin levels inner

variable {p}

/-- A block that contains another one is in the table. -/
theorem index_lt_of_contains {outer inner : CodeId} (h : p.Contains outer inner) :
    outer.index < p.blocks.length := by
  obtain ⟨instr, listed, -⟩ := h
  unfold block at listed
  by_contra beyond
  rw [List.getElem?_eq_none (Nat.le_of_not_lt beyond)] at listed
  cases listed

/-- A block contains the blocks that its instructions branch to. -/
theorem contains_of_instr? {code inner : CodeId} {index : Nat} {instr : Instr}
    (found : p.instr? code index = some instr) (h : inner ∈ instr.branches) :
    p.Contains code inner :=
  ⟨instr, List.mem_of_getElem? found, h⟩

variable (p) in
/-- Blocks are nested only in blocks that come earlier in the table. -/
def descends : Bool :=
  p.blocks.zipIdx.all fun e => e.1.all fun instr =>
    instr.branches.all fun inner => e.2 < inner.index

/-- If blocks are nested only in earlier ones, which can be computed, then no block contains itself.
-/
theorem acyclic_of_descends (h : p.descends = true) : p.Acyclic := by
  have step {outer inner : CodeId} (contains : p.Contains outer inner) :
      outer.index < inner.index := by
    obtain ⟨instr, listed, branch⟩ := contains
    unfold block at listed
    cases entry : p.blocks[outer.index]? with
    | none =>
      rw [entry] at listed
      cases listed
    | some block =>
      rw [entry] at listed
      have here := List.all_eq_true.1 h (block, outer.index) (List.mem_zipIdx_iff_getElem?.2 entry)
      have later := List.all_eq_true.1 (List.all_eq_true.1 here instr listed) inner branch
      exact of_decide_eq_true later
  have later {outer inner : CodeId} (around : Relation.TransGen p.Contains outer inner) :
      outer.index < inner.index := by
    induction around with
    | single contains => exact step contains
    | tail _ contains ih => exact Nat.lt_trans ih (step contains)
  exact fun code around => Nat.lt_irrefl _ (later around)

/-- The blocks `around` a block are different ones, so there are no more than the table holds, and
the levels that are left are enough for what is inside. -/
theorem nestsWithin_of_around (acyclic : p.Acyclic) {levels : Nat} {code : CodeId}
    (around : Finset CodeId)
    (inTable : ∀ outer ∈ around, outer.index < p.blocks.length)
    (contain : ∀ outer ∈ around, Relation.TransGen p.Contains outer code)
    (many : p.blocks.length < around.card + levels) : p.NestsWithin levels code := by
  induction levels generalizing code around with
  | zero =>
    have few : around.card ≤ (Finset.range p.blocks.length).card :=
      Finset.card_le_card_of_injOn Ident.index (fun outer h => Finset.mem_range.2 (inTable outer h))
        fun i _ j _ => Ident.eq_of_index_eq i j
    rw [Finset.card_range] at few
    omega
  | succ levels ih =>
    intro inner inside
    have new : code ∉ around := fun h => acyclic code (contain code h)
    refine ih (insert code around) ?_ ?_ ?_
    · exact Finset.forall_mem_insert _ _ _ |>.2 ⟨index_lt_of_contains inside, inTable⟩
    · exact Finset.forall_mem_insert _ _ _ |>.2
        ⟨.single inside, fun outer h => (contain outer h).tail inside⟩
    · rw [Finset.card_insert_of_notMem new]
      omega

/-- Where no block contains itself, blocks are nested less deep than `View.nestingLimit`, so no walk
fails for being nested too deep. -/
theorem nestsWithin_of_acyclic (acyclic : p.Acyclic) (code : CodeId) :
    p.NestsWithin p.view.nestingLimit code := by
  have enough : p.blocks.length < p.view.nestingLimit := by
    unfold View.nestingLimit
    exact Nat.lt_of_lt_of_le (Nat.lt_succ_self _) (Nat.le_mul_of_pos_right _ (Nat.succ_pos _))
  refine nestsWithin_of_around acyclic ∅ ?_ ?_ ?_
  · exact fun _ h => absurd h (Finset.notMem_empty _)
  · exact fun _ h => absurd h (Finset.notMem_empty _)
  · rwa [Finset.card_empty, Nat.zero_add]

end Program

/-! ### Wrapped values, arrays and nodes -/

/-- The clazzes of which constant strings have instances, and the fields in these. -/
def ConstStringLayout.clazzes (layout : ConstStringLayout) : List ClazzId :=
  [layout.clazz, layout.arrayClazz, layout.internalArray, layout.data, layout.length]

namespace View

variable (v : View)

/-- An instruction puts values of the clazz into boxes. What is a reference already needs none. -/
structure Boxes (valueClazz refClazz : ClazzId) : Prop where
  instr : ∃ code index, v.instr? code index = some (.box valueClazz refClazz)
  isValue : (v.info valueClazz).isRef = false

/-- Values are tagged for the choice, by an instruction or when they are written into a field.
Booleans have a representation of their own. -/
structure Tags (choice : ClazzId) : Prop where
  tagged : (∃ code index value tag, v.instr? code index = some (.tag value choice tag)) ∨
    ∃ field, (v.info field).result = some choice ∧ v.isChoice choice
  notBool : v.isBool choice = false

/-- A clazz stands for the intrinsic of that name. -/
def HasIntrinsic (name : String) : Prop :=
  ∃ clazz, (v.info clazz).kind = .intrinsic ∧
    (v.info clazz).intrinsic.getD (v.name clazz) = name

/-- No value is ever wrapped up in another one, no raw array is allocated, and no effect is
installed for the time of a call. -/
structure FirstOrder : Prop where
  not_boxes : ∀ {valueClazz refClazz}, ¬v.Boxes valueClazz refClazz
  not_tags : ∀ {choice}, ¬v.Tags choice
  not_alloc : ¬v.HasIntrinsic "fuzion.sys.array.alloc"
  not_abortable : ¬v.HasIntrinsic "effect.abortable"

end View

/-! ### Features -/

/-- What makes values, arrays or nodes out of others. -/
inductive Feature where
  /-- An instruction boxes values. -/
  | box
  /-- An instruction tags values. -/
  | tag
  /-- Something has a type that is a choice, other than the booleans. -/
  | choice
  /-- An intrinsic allocates raw arrays. -/
  | alloc
  /-- An intrinsic installs effects for the time of a call. -/
  | abortable
  deriving DecidableEq, Repr

namespace Program

variable (p : Program)

/-- Some instruction passes the test. -/
def hasInstr (test : Instr → Bool) : Bool := p.blocks.any fun block => block.any test

/-- Some clazz of the table stands for the intrinsic of that name. -/
def hasIntrinsic (name : String) : Bool :=
  p.clazzes.any fun e => e.2.kind = .intrinsic && e.2.intrinsic.getD e.1 = name

/-- The program has the feature. -/
def has : Feature → Bool
  | .box => p.hasInstr fun | .box .. => true | _ => false
  | .tag => p.hasInstr fun | .tag .. => true | _ => false
  | .choice => p.clazzes.any fun e => e.2.result.any fun c => p.isChoice c && !p.isBool c
  | .alloc => p.hasIntrinsic "fuzion.sys.array.alloc"
  | .abortable => p.hasIntrinsic "effect.abortable"

/-- The features of the program. -/
def features : List Feature := [.box, .tag, .choice, .alloc, .abortable].filter p.has

variable {p}

/-- An instruction of some block that passes a test is found by `hasInstr`. -/
theorem hasInstr_of_instr? {code : CodeId} {index : Nat} {instr : Instr} {test : Instr → Bool}
    (found : p.instr? code index = some instr) (passes : test instr = true) :
    p.hasInstr test = true := by
  have listed : instr ∈ p.block code := List.mem_of_getElem? found
  unfold block at listed
  cases entry : p.blocks[code.index]? with
  | none =>
    rw [entry] at listed
    cases listed
  | some block =>
    rw [entry] at listed
    exact List.any_eq_true.2
      ⟨block, List.mem_of_getElem? entry, List.any_eq_true.2 ⟨instr, listed, passes⟩⟩

/-- What differs from the `default`, a clazz of which nothing is known, is in the table. -/
theorem entry_mem_of_ne {c : ClazzId} (known : p.entry c ≠ default) : p.entry c ∈ p.clazzes := by
  unfold entry at *
  cases found : p.clazzes[c.index]? with
  | none =>
    rw [found] at known
    exact absurd rfl known
  | some e => exact List.mem_of_getElem? found

/-- If a clazz stands for an intrinsic, then `hasIntrinsic` finds it in the table. -/
theorem hasIntrinsic_of_hasIntrinsic {name : String} (h : p.view.HasIntrinsic name) :
    p.hasIntrinsic name = true := by
  obtain ⟨clazz, intrinsic, named⟩ := h
  have intrinsic : (p.entry clazz).2.kind = .intrinsic := intrinsic
  have known : p.entry clazz ∈ p.clazzes := entry_mem_of_ne fun unknown => by
    rw [unknown] at intrinsic
    cases intrinsic
  exact List.any_eq_true.2 ⟨p.entry clazz, known, by simpa using ⟨intrinsic, named⟩⟩

/-- A program without `features` wraps nothing and allocates nothing. -/
theorem firstOrder_of_features (none : p.features = []) : p.view.FirstOrder := by
  have lacks (feature : Feature) : p.has feature ≠ true := by
    have all := List.filter_eq_nil_iff.1 none
    cases feature <;> exact all _ (by simp)
  refine ⟨?_, ?_, ?_, ?_⟩
  · rintro valueClazz refClazz ⟨⟨code, index, found⟩, -⟩
    exact lacks .box (hasInstr_of_instr? found rfl)
  · rintro choice ⟨⟨code, index, value, tag, found⟩ | ⟨field, result, isChoice⟩, notBool⟩
    · exact lacks .tag (hasInstr_of_instr? found rfl)
    · have result : (p.entry field).2.result = some choice := result
      have known : p.entry field ∈ p.clazzes := entry_mem_of_ne fun unknown => by
        rw [unknown] at result
        cases result
      refine lacks .choice (List.any_eq_true.2 ⟨p.entry field, known, ?_⟩)
      have isChoice : p.isChoice choice = true := isChoice
      have notBool : p.isBool choice = false := notBool
      rw [result, Option.any_some, isChoice, notBool]
      rfl
  · exact fun h => lacks .alloc (hasIntrinsic_of_hasIntrinsic h)
  · exact fun h => lacks .abortable (hasIntrinsic_of_hasIntrinsic h)

end Program

/-! ### Bounds -/

namespace View

variable (v : View)

/-- The clazz is in the table, or constant strings are made of it. -/
def Occurs (c : ClazzId) : Prop :=
  c.index < v.clazzCount ∨ ∃ layout, v.stringLayout? = some layout ∧ c ∈ layout.clazzes

/-- The greatest number of arguments that a clazz takes. -/
def maxArity : Nat := (v.clazzes.map fun e => e.2.args.length).max?.getD 0

/-- No access takes more arguments than the greatest number that a clazz of the table takes. -/
theorem arity_le_maxArity (access : Access) : v.arity access ≤ v.maxArity := by
  unfold arity Program.info Program.entry maxArity
  cases entry : v.clazzes[access.accessed.index]? with
  | none => exact Nat.zero_le _
  | some e =>
    refine List.le_max?_getD_of_mem (List.mem_map.2 ⟨e, List.mem_of_getElem? entry, ?_⟩)
    rw [Option.getD_some]

end View

end ClosedWorld
