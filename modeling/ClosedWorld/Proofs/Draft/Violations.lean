import ClosedWorld.Proofs.Program

/-!
# What keeps a draft from being a program

The requirements on a draft are told here by themselves, apart from how they are looked into: what
the description of a clazz and an instruction mention, which requirement is violated, and where. A
place is a list of numbers, the first of which is the stage at which a draft is examined: whether
clazzes are defined, then clazz by clazz, then instruction by instruction, then the clazz to start
with. Places are ordered as lists are. The defects of a draft are its violations in the order of
their places, so the first of them, with which a draft is refused, is one before which there is no
other.

## Main definitions

* `ClazzInfo.MentionsClazz`, `ClazzInfo.MentionsCode`, `Instr.MentionsClazz`: mentions.
* `Draft.Sound`: the requirements.
* `Draft.Violation`: what violates them, and where.
* `InOrder`: a list of what there is at places, in their order.
* `Draft.Operation`, `Draft.after`: how drafts come about.

## Main statements

* `Draft.sound_iff`: a draft is sound if it has no violations.
* `Draft.inOrder_defects`: the defects of a draft are its violations, in order.
-/

namespace ClosedWorld

/-! ### Mentions -/

/-- The description of a clazz mentions a clazz. -/
inductive ClazzInfo.MentionsClazz (info : ClazzInfo) (c : ClazzId) : Prop where
  | outer (mentioned : info.outer = some c)
  | result (mentioned : info.result = some c)
  | resultField (mentioned : info.resultField = some c)
  | outerRef (mentioned : info.outerRef = some c)
  | effectType (mentioned : info.effectType = some c)
  | call (mentioned : info.call = some c)
  | arg (mentioned : c ∈ info.args)
  | generic (mentioned : c ∈ info.generics)

/-- The description of a clazz mentions a block. -/
inductive ClazzInfo.MentionsCode (info : ClazzInfo) (c : CodeId) : Prop where
  | body (mentioned : info.code = some c)
  | precondition (mentioned : c ∈ info.preconditions)
  | postcondition (mentioned : c ∈ info.postconditions)

/-- An access mentions a clazz. Targets are mentioned whether the access is dynamic or not. -/
inductive Access.MentionsClazz (access : Access) (c : ClazzId) : Prop where
  | accessed (mentioned : access.accessed = c)
  | receiver {target : ClazzId} (mentioned : (c, target) ∈ access.targets)
  | target {receiver : ClazzId} (mentioned : (receiver, c) ∈ access.targets)

/-- An instruction mentions a clazz. The blocks that it mentions are its branches. -/
inductive Instr.MentionsClazz : Instr → ClazzId → Prop where
  | const {c : ClazzId} {data : List UInt8} : MentionsClazz (.const c data) c
  | env {c : ClazzId} : MentionsClazz (.env c) c
  | assign {access : Access} {c : ClazzId} (mentioned : access.MentionsClazz c) :
    MentionsClazz (.assign access) c
  | call {access : Access} {c : ClazzId} (mentioned : access.MentionsClazz c) :
    MentionsClazz (.call access) c
  | boxValue {value reference : ClazzId} : MentionsClazz (.box value reference) value
  | boxReference {value reference : ClazzId} : MentionsClazz (.box value reference) reference
  | unboxReference {reference value : ClazzId} : MentionsClazz (.unbox reference value) reference
  | unboxValue {reference value : ClazzId} : MentionsClazz (.unbox reference value) value
  | tagValue {value choice : ClazzId} {tag : Nat} : MentionsClazz (.tag value choice tag) value
  | tagChoice {value choice : ClazzId} {tag : Nat} : MentionsClazz (.tag value choice tag) choice
  | subject {m : Match} : MentionsClazz (.select m) m.subject
  | caseField {m : Match} {case : MatchCase} {c : ClazzId} (listed : case ∈ m.cases)
    (mentioned : case.field = some c) : MentionsClazz (.select m) c

/-- The clazzes among the references of a description are those that it mentions. -/
theorem ClazzInfo.clazz_mem_references {info : ClazzInfo} {c : ClazzId} :
    .clazz c ∈ info.references ↔ info.MentionsClazz c := by
  constructor
  · intro mentioned
    simp only [references, List.mem_append, List.mem_map, Reference.clazz.injEq,
      exists_eq_right, reduceCtorEq, and_false, exists_false, or_false, List.mem_filterMap, id,
      List.mem_cons, List.not_mem_nil] at mentioned
    rcases mentioned with ((h | h | h | h | h | h) | h) | h
    · exact .outer h.symm
    · exact .result h.symm
    · exact .resultField h.symm
    · exact .outerRef h.symm
    · exact .effectType h.symm
    · exact .call h.symm
    · exact .arg h
    · exact .generic h
  · intro mentioned
    cases mentioned <;> simp_all [references]

/-- The blocks among the references of a description are those that it mentions. -/
theorem ClazzInfo.code_mem_references {info : ClazzInfo} {c : CodeId} :
    .code c ∈ info.references ↔ info.MentionsCode c := by
  constructor
  · intro mentioned
    simp only [references, List.mem_append, List.mem_map, reduceCtorEq, and_false, exists_false,
      false_or, Reference.code.injEq, exists_eq_right, Option.mem_toList] at mentioned
    rcases mentioned with (h | h) | h
    · exact .body h
    · exact .precondition h
    · exact .postcondition h
  · intro mentioned
    cases mentioned <;> simp_all [references]

/-- A way to call mentions the clazz that it accesses, and the clazzes of its targets. -/
theorem Access.mentionsClazz_iff {access : Access} {c : ClazzId} :
    access.MentionsClazz c ↔ c = access.accessed ∨
      ∃ target ∈ access.targets, c = target.1 ∨ c = target.2 := by
  constructor
  · rintro (h | h | h)
    · exact .inl h.symm
    · exact .inr ⟨_, h, .inl rfl⟩
    · exact .inr ⟨_, h, .inr rfl⟩
  · rintro (rfl | ⟨target, listed, rfl | rfl⟩)
    · exact .accessed rfl
    · exact .receiver listed
    · exact .target listed

/-- The clazzes among the references of a way to call are those that it mentions. -/
theorem Access.clazz_mem_references {access : Access} {c : ClazzId} :
    (.clazz c ∈ Reference.clazz access.accessed ::
      access.targets.flatMap fun (tt, cc) => [.clazz tt, .clazz cc]) ↔ access.MentionsClazz c := by
  simp [Access.mentionsClazz_iff]

/-- The clazzes among the references of an instruction are those that it mentions. -/
theorem Instr.clazz_mem_references {instr : Instr} {c : ClazzId} :
    .clazz c ∈ instr.references ↔ instr.MentionsClazz c := by
  cases instr with
  | current | outer | arg | adrOf | contract | pop | comment =>
    refine ⟨fun h => ?_, fun h => ?_⟩ <;> cases h
  | const d data =>
    refine ⟨fun h => ?_, fun h => ?_⟩
    · cases List.mem_singleton.1 h
      exact .const
    · cases h
      exact List.mem_singleton_self _
  | env d =>
    refine ⟨fun h => ?_, fun h => ?_⟩
    · cases List.mem_singleton.1 h
      exact .env
    · cases h
      exact List.mem_singleton_self _
  | assign access =>
    refine Access.clazz_mem_references.trans ⟨.assign, fun h => ?_⟩
    cases h with
    | assign mentioned => exact mentioned
  | call access =>
    refine Access.clazz_mem_references.trans ⟨.call, fun h => ?_⟩
    cases h with
    | call mentioned => exact mentioned
  | box value reference =>
    simp only [references, List.mem_cons, Reference.clazz.injEq, List.not_mem_nil, or_false]
    refine ⟨?_, fun h => ?_⟩
    · rintro (rfl | rfl)
      exacts [.boxValue, .boxReference]
    · cases h <;> simp
  | unbox reference value =>
    simp only [references, List.mem_cons, Reference.clazz.injEq, List.not_mem_nil, or_false]
    refine ⟨?_, fun h => ?_⟩
    · rintro (rfl | rfl)
      exacts [.unboxValue, .unboxReference]
    · cases h <;> simp
  | tag value choice tag =>
    simp only [references, List.mem_cons, Reference.clazz.injEq, List.not_mem_nil, or_false]
    refine ⟨?_, fun h => ?_⟩
    · rintro (rfl | rfl)
      exacts [.tagValue, .tagChoice]
    · cases h <;> simp
  | select m =>
    simp only [references, List.mem_cons, Reference.clazz.injEq, List.mem_flatMap,
      List.mem_append, List.mem_map, Option.mem_toList, exists_eq_right, reduceCtorEq,
      List.not_mem_nil, or_false]
    refine ⟨?_, fun h => ?_⟩
    · rintro (rfl | ⟨case, listed, mentioned⟩)
      exacts [.subject, .caseField listed mentioned]
    · cases h with
      | subject => exact .inl rfl
      | caseField listed mentioned => exact .inr ⟨_, listed, mentioned⟩
  | cond thenCode elseCode =>
    refine ⟨fun h => ?_, fun h => ?_⟩
    · simp [references] at h
    · cases h

/-- The blocks among the references of an instruction are its `branches`. -/
theorem Instr.code_mem_references {instr : Instr} {c : CodeId} :
    .code c ∈ instr.references ↔ c ∈ instr.branches := by
  cases instr <;> simp [references, branches, eq_comm]

/-! ### Requirements -/

namespace Draft

variable (d : Draft)

/-- The draft defines the clazz, under the name and by the description. -/
def Defines (c : ClazzId) (name : String) (info : ClazzInfo) : Prop :=
  d.clazzes[c.index]? = some (name, some info)

/-- The instruction is at the index of the block. -/
def HasInstr (code : CodeId) (index : Nat) (instr : Instr) : Prop :=
  ∃ instrs, d.blocks[code.index]? = some instrs ∧ instrs[index]? = some instr

/-- The clazz is defined to be the unit type. -/
def DefinesUnit (c : ClazzId) : Prop :=
  ∃ name info, d.Defines c name info ∧ info.special = some .unit

/-- A routine has a result to leave somewhere: one that is neither the routine itself, which returns
its own frame, nor the unit type. It has no field for it. -/
structure LacksField (c : ClazzId) (info : ClazzInfo) : Prop where
  routine : info.kind = .routine
  lacking : info.resultField = none
  result : ∃ result, info.result = some result ∧ result ≠ c ∧ ¬d.DefinesUnit result

/-- What is required of a draft. -/
structure Sound : Prop where
  /-- Every declared clazz is defined. -/
  defined : ∀ name, (name, none) ∉ d.clazzes
  clazz_of_clazz : ∀ {c name info e}, d.Defines c name info → info.MentionsClazz e →
    e.index < d.clazzes.length
  code_of_clazz : ∀ {c name info e}, d.Defines c name info → info.MentionsCode e →
    e.index < d.blocks.length
  clazz_of_instr : ∀ {code index instr e}, d.HasInstr code index instr → instr.MentionsClazz e →
    e.index < d.clazzes.length
  code_of_instr : ∀ {code index instr e}, d.HasInstr code index instr → e ∈ instr.branches →
    e.index < d.blocks.length
  resultField : ∀ {c name info}, d.Defines c name info → ¬d.LacksField c info
  main : ∃ c, d.main = some c ∧ c.index < d.clazzes.length

/-- What violates the requirements, and where. -/
inductive Violation : (place : List Nat) → Defect → Prop where
  | undefined {i : Nat} {name : String} (declared : d.clazzes[i]? = some (name, none)) :
    Violation [0, i] (.undefinedClazz ⟨i⟩ name)
  | clazzOfClazz {c : ClazzId} {name : String} {info : ClazzInfo} {e : ClazzId}
    (defined : d.Defines c name info) (mentions : info.MentionsClazz e)
    (beyond : d.clazzes.length ≤ e.index) : Violation [1, c.index, 0] (.unknownClazz name e)
  | codeOfClazz {c : ClazzId} {name : String} {info : ClazzInfo} {e : CodeId}
    (defined : d.Defines c name info) (mentions : info.MentionsCode e)
    (beyond : d.blocks.length ≤ e.index) : Violation [1, c.index, 1] (.unknownCode name e)
  | resultField {c : ClazzId} {name : String} {info : ClazzInfo}
    (defined : d.Defines c name info) (lacks : d.LacksField c info) :
    Violation [1, c.index, 2] (.missingResultField name)
  | clazzOfInstr {code : CodeId} {index : Nat} {instr : Instr} {e : ClazzId}
    (found : d.HasInstr code index instr) (mentions : instr.MentionsClazz e)
    (beyond : d.clazzes.length ≤ e.index) :
    Violation [2, code.index, index] (.unknownClazz code.text e)
  | codeOfInstr {code : CodeId} {index : Nat} {instr : Instr} {e : CodeId}
    (found : d.HasInstr code index instr) (mentions : e ∈ instr.branches)
    (beyond : d.blocks.length ≤ e.index) :
    Violation [2, code.index, index] (.unknownCode code.text e)
  | noMain (none : d.main = none) : Violation [3] .missingMain
  | unknownMain {c : ClazzId} (chosen : d.main = some c) (beyond : d.clazzes.length ≤ c.index) :
    Violation [3] (.unknownClazz "main" c)

variable {d}

/-- A draft is sound if nothing violates the requirements. -/
theorem sound_iff : d.Sound ↔ ∀ place e, ¬d.Violation place e := by
  constructor
  · intro sound place e violation
    cases violation with
    | undefined declared => exact sound.defined _ (List.mem_of_getElem? declared)
    | clazzOfClazz defined mentions beyond =>
      exact Nat.not_lt_of_le beyond (sound.clazz_of_clazz defined mentions)
    | codeOfClazz defined mentions beyond =>
      exact Nat.not_lt_of_le beyond (sound.code_of_clazz defined mentions)
    | resultField defined lacks => exact sound.resultField defined lacks
    | clazzOfInstr found mentions beyond =>
      exact Nat.not_lt_of_le beyond (sound.clazz_of_instr found mentions)
    | codeOfInstr found mentions beyond =>
      exact Nat.not_lt_of_le beyond (sound.code_of_instr found mentions)
    | noMain none =>
      obtain ⟨c, chosen, -⟩ := sound.main
      cases none.symm.trans chosen
    | unknownMain chosen beyond =>
      obtain ⟨c, chosen', inside⟩ := sound.main
      cases chosen.symm.trans chosen'
      exact Nat.not_lt_of_le beyond inside
  · intro none
    refine ⟨fun name declared => ?_, fun defined mentions => ?_, fun defined mentions => ?_,
      fun found mentions => ?_, fun found mentions => ?_, fun defined lacks => ?_, ?_⟩
    · obtain ⟨i, declared⟩ := List.mem_iff_getElem?.1 declared
      exact none _ _ (.undefined declared)
    · exact Nat.lt_of_not_le fun beyond => none _ _ (.clazzOfClazz defined mentions beyond)
    · exact Nat.lt_of_not_le fun beyond => none _ _ (.codeOfClazz defined mentions beyond)
    · exact Nat.lt_of_not_le fun beyond => none _ _ (.clazzOfInstr found mentions beyond)
    · exact Nat.lt_of_not_le fun beyond => none _ _ (.codeOfInstr found mentions beyond)
    · exact none _ _ (.resultField defined lacks)
    · cases chosen : d.main with
      | none => exact absurd (.noMain chosen) (none _ _)
      | some c =>
        exact ⟨c, rfl, Nat.lt_of_not_le fun beyond => none _ _ (.unknownMain chosen beyond)⟩

end Draft

/-! ### Lists in the order of places -/

/-- A place is not before another one that has a smaller number first. -/
theorem not_lt_of_head {m n : Nat} {rest rest' : List Nat} (below : m < n) :
    ¬n :: rest' < m :: rest := by
  rw [List.cons_lt_cons_iff]
  omega

/-- Places with the same first number are ordered as what comes after it. -/
theorem not_lt_of_tail {n : Nat} {rest rest' : List Nat} (later : ¬rest' < rest) :
    ¬n :: rest' < n :: rest := by
  rw [List.cons_lt_cons_iff]
  rintro (below | ⟨-, below⟩)
  exacts [Nat.lt_irrefl n below, later below]

/-- The list has what there is at places, in their order. -/
def InOrder {α : Type} (l : List α) (There : List Nat → α → Prop) : Prop :=
  ∃ placed : List (List Nat × α), placed.map Prod.snd = l ∧
    placed.Pairwise (fun x y => ¬y.1 < x.1) ∧ ∀ place a, (place, a) ∈ placed ↔ There place a

namespace InOrder

variable {α β : Type} {There There' : List Nat → α → Prop} {l l' : List α}

/-- Being `InOrder` depends only on what there is at which place. -/
theorem congr (h : InOrder l There) (same : ∀ place a, There place a ↔ There' place a) :
    InOrder l There' := by
  obtain ⟨placed, listed, ordered, mem⟩ := h
  exact ⟨placed, listed, ordered, fun place a => (mem place a).trans (same place a)⟩

/-- Where everything is at one `place`, every order will do. -/
theorem at_place (l : List α) (place : List Nat) :
    InOrder l fun place' a => place' = place ∧ a ∈ l := by
  refine ⟨l.map (place, ·), ?_, ?_, fun place' a => ?_⟩
  · rw [List.map_map]
    exact List.map_id l
  · rw [List.pairwise_map]
    exact List.pairwise_of_forall fun _ _ => List.lt_irrefl place
  · simp only [List.mem_map, Prod.mk.injEq]
    exact ⟨fun ⟨_, listed, same, e⟩ => ⟨same.symm, e ▸ listed⟩,
      fun ⟨same, listed⟩ => ⟨a, listed, same.symm, rfl⟩⟩

/-- Two lists are in order, one after the other, if what the second one lists is at later places. -/
theorem append (h : InOrder l There) (h' : InOrder l' There')
    (later : ∀ {place a place' a'}, There place a → There' place' a' → ¬place' < place) :
    InOrder (l ++ l') fun place a => There place a ∨ There' place a := by
  obtain ⟨placed, rfl, ordered, mem⟩ := h
  obtain ⟨placed', rfl, ordered', mem'⟩ := h'
  refine ⟨placed ++ placed', List.map_append .., ?_, fun place a => ?_⟩
  · refine List.pairwise_append.2 ⟨ordered, ordered', fun x hx y hy => ?_⟩
    exact later ((mem _ _).1 hx) ((mem' _ _).1 hy)
  · rw [List.mem_append, mem, mem']

/-- One list after the other, for what is at increasing indices. -/
theorem flatMap {f : β → List α} {xs : List β} (There : Nat → β → List Nat → α → Prop)
    (each : ∀ i x, xs[i]? = some x → InOrder (f x) (There i x))
    (later : ∀ {i j x y place a place' a'}, i < j → There i x place a → There j y place' a' →
      ¬place' < place) :
    InOrder (xs.flatMap f) fun place a => ∃ i x, xs[i]? = some x ∧ There i x place a := by
  induction xs generalizing There with
  | nil => exact ⟨[], rfl, .nil, by simp⟩
  | cons x rest ih =>
    have here := each 0 x rfl
    have there := ih (fun i => There (i + 1)) (fun i x => each (i + 1) x)
      fun below => later (Nat.succ_lt_succ below)
    refine (here.append there ?_).congr fun place a => ?_
    · rintro place a place' a' first ⟨i, y, -, second⟩
      exact later (Nat.succ_pos i) first second
    · constructor
      · rintro (first | ⟨i, y, listed, second⟩)
        exacts [⟨0, x, rfl, first⟩, ⟨i + 1, y, listed, second⟩]
      · rintro ⟨i, y, listed, h⟩
        cases i with
        | zero =>
          cases listed
          exact .inl h
        | succ i => exact .inr ⟨i, y, listed, h⟩

/-- The form of `flatMap` that also tells the index of each member. -/
theorem flatMap_zipIdx {f : β × Nat → List α} {xs : List β}
    (There : Nat → β → List Nat → α → Prop)
    (each : ∀ i x, xs[i]? = some x → InOrder (f (x, i)) (There i x))
    (later : ∀ {i j x y place a place' a'}, i < j → There i x place a → There j y place' a' →
      ¬place' < place) :
    InOrder (xs.zipIdx.flatMap f) fun place a => ∃ i x, xs[i]? = some x ∧ There i x place a := by
  have entry {i : Nat} {y : β × Nat} : xs.zipIdx[i]? = some y ↔ xs[i]? = some y.1 ∧ y.2 = i := by
    rw [List.getElem?_zipIdx, Option.map_eq_some_iff]
    constructor
    · rintro ⟨x, listed, rfl⟩
      exact ⟨listed, Nat.zero_add i⟩
    · rintro ⟨listed, rfl⟩
      exact ⟨y.1, listed, by rw [Nat.zero_add]⟩
  have indexed : InOrder (xs.zipIdx.flatMap f) _ :=
    InOrder.flatMap (fun i y => There i y.1)
      (fun i y listed => by
        obtain ⟨listed, rfl⟩ := entry.1 listed
        exact each y.2 y.1 listed) later
  refine indexed.congr fun place a => ⟨?_, ?_⟩
  · rintro ⟨i, y, listed, there⟩
    exact ⟨i, y.1, (entry.1 listed).1, there⟩
  · rintro ⟨i, x, listed, there⟩
    exact ⟨i, (x, i), entry.2 ⟨listed, rfl⟩, there⟩

/-- The first of a list that is `InOrder` is at a place before which there is nothing. -/
theorem first {a : α} (h : InOrder (a :: l) There) :
    ∃ place, There place a ∧ ∀ place' a', There place' a' → ¬place' < place := by
  obtain ⟨placed, listed, ordered, mem⟩ := h
  cases placed with
  | nil => cases listed
  | cons x rest =>
    cases listed
    refine ⟨x.1, (mem _ _).1 List.mem_cons_self, fun place' a' there => ?_⟩
    rcases List.mem_cons.1 ((mem _ _).2 there) with here | later
    · cases here
      exact List.lt_irrefl _
    · exact (List.pairwise_cons.1 ordered).1 _ later

/-- A list that is `InOrder` is empty just if there is nothing at any place. -/
theorem nil_iff (h : InOrder l There) : l = [] ↔ ∀ place a, ¬There place a := by
  obtain ⟨placed, rfl, -, mem⟩ := h
  rw [List.map_eq_nil_iff, List.eq_nil_iff_forall_not_mem]
  exact ⟨fun none place a there => none (place, a) ((mem place a).2 there),
    fun none x listed => none x.1 x.2 ((mem x.1 x.2).1 listed)⟩

end InOrder

/-! ### The defects of a draft -/

namespace Draft

variable {d : Draft}

/-- The defects of some references: clazzes that are beyond the table of clazzes, and blocks that
are beyond that of blocks. -/
theorem mem_defectsOf {referrer : String} {references : List Reference} {e : Defect} :
    e ∈ references.filterMap (d.defectOf referrer) ↔
      (∃ c, .clazz c ∈ references ∧ d.clazzes.length ≤ c.index ∧ e = .unknownClazz referrer c) ∨
        ∃ c, .code c ∈ references ∧ d.blocks.length ≤ c.index ∧ e = .unknownCode referrer c := by
  rw [List.mem_filterMap]
  constructor
  · rintro ⟨c | c, mentioned, found⟩ <;> unfold defectOf at found <;> dsimp only at found <;>
      split at found
    case clazz.isTrue | code.isTrue => cases found
    case clazz.isFalse beyond =>
      exact .inl ⟨c, mentioned, Nat.le_of_not_lt beyond, (Option.some.inj found).symm⟩
    case code.isFalse beyond =>
      exact .inr ⟨c, mentioned, Nat.le_of_not_lt beyond, (Option.some.inj found).symm⟩
  · rintro (⟨c, mentioned, beyond, rfl⟩ | ⟨c, mentioned, beyond, rfl⟩)
    · exact ⟨_, mentioned, if_neg (Nat.not_lt_of_le beyond)⟩
    · exact ⟨_, mentioned, if_neg (Nat.not_lt_of_le beyond)⟩

/-- A clazz is the unit clazz for a draft just if the draft defines it so. -/
theorem isUnit_iff {c : ClazzId} : d.isUnit c = true ↔ d.DefinesUnit c := by
  unfold isUnit DefinesUnit Defines
  rw [decide_eq_true_iff, Option.bind_eq_some_iff]
  constructor
  · rintro ⟨info, found, special⟩
    obtain ⟨⟨name, _⟩, entry, rfl⟩ := Option.bind_eq_some_iff.1 found
    exact ⟨name, info, entry, special⟩
  · rintro ⟨name, info, entry, special⟩
    exact ⟨info, by rw [entry]; rfl, special⟩

/-- A clazz needs a field for its result, as the draft computes it, just if it lacks one. -/
theorem needsResultField_iff {c : ClazzId} {info : ClazzInfo} :
    d.needsResultField c info = true ↔ d.LacksField c info := by
  unfold needsResultField
  simp only [Bool.and_eq_true, decide_eq_true_eq, Option.isNone_iff_eq_none, Option.any_eq_true,
    Bool.not_eq_true', ← Bool.not_eq_true, isUnit_iff]
  constructor
  · rintro ⟨⟨routine, lacking⟩, result, produces, other, notUnit⟩
    exact ⟨routine, lacking, result, produces, other, notUnit⟩
  · rintro ⟨routine, lacking, result, produces, other, notUnit⟩
    exact ⟨⟨routine, lacking⟩, result, produces, other, notUnit⟩

/-- What can be wrong at the places of a clazz. -/
theorem violation_clazz_iff {i part : Nat} {e : Defect} : d.Violation [1, i, part] e ↔
    ∃ name info, d.Defines ⟨i⟩ name info ∧
      ((part = 0 ∧ ∃ c, info.MentionsClazz c ∧ d.clazzes.length ≤ c.index ∧
          e = .unknownClazz name c) ∨
        (part = 1 ∧ ∃ c, info.MentionsCode c ∧ d.blocks.length ≤ c.index ∧
          e = .unknownCode name c) ∨
        (part = 2 ∧ d.LacksField ⟨i⟩ info ∧ e = .missingResultField name)) := by
  constructor
  · intro violation
    cases violation with
    | clazzOfClazz defined mentions beyond =>
      exact ⟨_, _, defined, .inl ⟨rfl, _, mentions, beyond, rfl⟩⟩
    | codeOfClazz defined mentions beyond =>
      exact ⟨_, _, defined, .inr (.inl ⟨rfl, _, mentions, beyond, rfl⟩)⟩
    | resultField defined lacks => exact ⟨_, _, defined, .inr (.inr ⟨rfl, lacks, rfl⟩)⟩
  · rintro ⟨name, info, defined, ⟨rfl, c, mentions, beyond, rfl⟩ |
      ⟨rfl, c, mentions, beyond, rfl⟩ | ⟨rfl, lacks, rfl⟩⟩
    · exact .clazzOfClazz defined mentions beyond
    · exact .codeOfClazz defined mentions beyond
    · exact .resultField defined lacks

/-- What can be wrong at the place of an instruction. -/
theorem violation_instr_iff {i index : Nat} {e : Defect} : d.Violation [2, i, index] e ↔
    ∃ instr, d.HasInstr ⟨i⟩ index instr ∧
      e ∈ instr.references.filterMap (d.defectOf (⟨i⟩ : CodeId).text) := by
  simp only [mem_defectsOf, Instr.clazz_mem_references, Instr.code_mem_references]
  constructor
  · intro violation
    cases violation with
    | clazzOfInstr found mentions beyond =>
      exact ⟨_, found, .inl ⟨_, mentions, beyond, rfl⟩⟩
    | codeOfInstr found mentions beyond => exact ⟨_, found, .inr ⟨_, mentions, beyond, rfl⟩⟩
  · rintro ⟨instr, found, ⟨c, mentions, beyond, rfl⟩ | ⟨c, mentions, beyond, rfl⟩⟩
    · exact .clazzOfInstr found mentions beyond
    · exact .codeOfInstr found mentions beyond

/-- The clazzes without a description are violations in the order of their numbers. -/
theorem inOrder_undefinedClazzes : InOrder d.undefinedClazzes fun place e =>
    ∃ i, place = [0, i] ∧ d.Violation place e := by
  unfold undefinedClazzes
  rw [List.filterMap_eq_flatMap_toList]
  refine (InOrder.flatMap_zipIdx (fun i _ place e => place = [0, i] ∧ d.Violation place e)
    (fun i entry listed => ?_) ?_).congr fun place e => ⟨?_, ?_⟩
  · refine (InOrder.at_place _ [0, i]).congr fun place e => and_congr_right ?_
    rintro rfl
    obtain ⟨name, info⟩ := entry
    constructor
    · intro found
      cases info with
      | some info => cases found
      | none =>
        cases List.mem_singleton.1 found
        exact .undefined listed
    · intro violation
      cases violation with
      | undefined declared =>
        cases declared.symm.trans listed
        exact List.mem_singleton_self _
  · rintro i j _ _ _ _ _ _ below ⟨rfl, -⟩ ⟨rfl, -⟩
    exact not_lt_of_tail (not_lt_of_head below)
  · rintro ⟨i, _, -, here, violation⟩
    exact ⟨i, here, violation⟩
  · rintro ⟨i, rfl, violation⟩
    cases violation with
    | undefined declared => exact ⟨i, _, declared, rfl, .undefined declared⟩

/-- What is wrong with one clazz is in order: its clazzes first, then its blocks, then its missing
field. -/
theorem inOrder_clazzDefects {i : Nat} {name : String} {info : ClazzInfo}
    (defined : d.Defines ⟨i⟩ name info) : InOrder (d.clazzDefects ⟨i⟩ name info) fun place e =>
      ∃ part, place = [1, i, part] ∧ d.Violation place e := by
  obtain ⟨clazzes, codes, split⟩ : ∃ (clazzes : List ClazzId) (codes : List CodeId),
      info.references = clazzes.map .clazz ++ codes.map .code := ⟨_, _, rfl⟩
  have ofClazz {e : Defect} : e ∈ (clazzes.map .clazz).filterMap (d.defectOf name) ↔
      ∃ c, info.MentionsClazz c ∧ d.clazzes.length ≤ c.index ∧ e = .unknownClazz name c := by
    rw [mem_defectsOf]
    simp [← ClazzInfo.clazz_mem_references, split]
  have ofCode {e : Defect} : e ∈ (codes.map .code).filterMap (d.defectOf name) ↔
      ∃ c, info.MentionsCode c ∧ d.blocks.length ≤ c.index ∧ e = .unknownCode name c := by
    rw [mem_defectsOf]
    simp [← ClazzInfo.code_mem_references, split]
  have ofField {e : Defect} :
      (e ∈ if d.needsResultField ⟨i⟩ info then [Defect.missingResultField name] else []) ↔
        d.LacksField ⟨i⟩ info ∧ e = .missingResultField name := by
    rw [← needsResultField_iff]
    split <;> simp_all
  unfold clazzDefects
  rw [split, List.filterMap_append]
  refine (((InOrder.at_place _ [1, i, 0]).append (InOrder.at_place _ [1, i, 1]) ?_).append
    (InOrder.at_place _ [1, i, 2]) ?_).congr fun place e => ?_
  · rintro _ _ _ _ ⟨rfl, -⟩ ⟨rfl, -⟩
    exact not_lt_of_tail (not_lt_of_tail (not_lt_of_head Nat.one_pos))
  · rintro _ _ _ _ (⟨rfl, -⟩ | ⟨rfl, -⟩) ⟨rfl, -⟩
    · exact not_lt_of_tail (not_lt_of_tail (not_lt_of_head Nat.two_pos))
    · exact not_lt_of_tail (not_lt_of_tail (not_lt_of_head Nat.one_lt_two))
  rw [ofClazz, ofCode, ofField]
  constructor
  · rintro ((⟨rfl, wrong⟩ | ⟨rfl, wrong⟩) | ⟨rfl, wrong⟩)
    · exact ⟨0, rfl, violation_clazz_iff.2 ⟨name, info, defined, .inl ⟨rfl, wrong⟩⟩⟩
    · exact ⟨1, rfl, violation_clazz_iff.2 ⟨name, info, defined, .inr (.inl ⟨rfl, wrong⟩)⟩⟩
    · exact ⟨2, rfl, violation_clazz_iff.2 ⟨name, info, defined, .inr (.inr ⟨rfl, wrong⟩)⟩⟩
  · rintro ⟨part, rfl, violation⟩
    obtain ⟨name', info', defined', wrong⟩ := violation_clazz_iff.1 violation
    cases defined.symm.trans defined'
    rcases wrong with ⟨rfl, wrong⟩ | ⟨rfl, wrong⟩ | ⟨rfl, wrong⟩
    · exact .inl (.inl ⟨rfl, wrong⟩)
    · exact .inl (.inr ⟨rfl, wrong⟩)
    · exact .inr ⟨rfl, wrong⟩

/-- What is wrong with one block is in the order of its instructions. -/
theorem inOrder_blockDefects {i : Nat} {instrs : List Instr} (listed : d.blocks[i]? = some instrs) :
    InOrder (d.blockDefects ⟨i⟩ instrs) fun place e =>
      ∃ index, place = [2, i, index] ∧ d.Violation place e := by
  refine (InOrder.flatMap
    (fun index _ place e => place = [2, i, index] ∧ d.Violation place e)
    (fun index instr found => ?_) ?_).congr fun place e => ⟨?_, ?_⟩
  · refine (InOrder.at_place _ [2, i, index]).congr fun place e => and_congr_right ?_
    rintro rfl
    rw [violation_instr_iff]
    constructor
    · exact fun wrong => ⟨instr, ⟨instrs, listed, found⟩, wrong⟩
    · rintro ⟨instr', ⟨instrs', listed', found'⟩, wrong⟩
      cases listed.symm.trans listed'
      cases found.symm.trans found'
      exact wrong
  · rintro j k _ _ _ _ _ _ below ⟨rfl, -⟩ ⟨rfl, -⟩
    exact not_lt_of_tail (not_lt_of_tail (not_lt_of_head below))
  · rintro ⟨index, _, -, here, violation⟩
    exact ⟨index, here, violation⟩
  · rintro ⟨index, rfl, violation⟩
    obtain ⟨instr, ⟨instrs', listed', found⟩, -⟩ := violation_instr_iff.1 violation
    cases listed.symm.trans listed'
    exact ⟨index, instr, found, rfl, violation⟩

/-- What is wrong with the clazzes is in the order of the clazzes. -/
theorem inOrder_allClazzDefects : InOrder
    (d.clazzes.zipIdx.flatMap fun entry => entry.1.2.elim [] (d.clazzDefects ⟨entry.2⟩ entry.1.1))
    fun place e => ∃ i part, place = [1, i, part] ∧ d.Violation place e := by
  refine (InOrder.flatMap_zipIdx
    (fun i _ place e => ∃ part, place = [1, i, part] ∧ d.Violation place e)
    (fun i entry listed => ?_) ?_).congr fun place e => ⟨?_, ?_⟩
  · obtain ⟨name, info⟩ := entry
    cases info with
    | some info => exact inOrder_clazzDefects listed
    | none =>
      refine (InOrder.at_place [] []).congr fun place e => ⟨?_, ?_⟩
      · rintro ⟨-, ⟨⟩⟩
      · rintro ⟨part, rfl, violation⟩
        obtain ⟨name', info', defined, -⟩ := violation_clazz_iff.1 violation
        cases listed.symm.trans defined
  · rintro i j _ _ _ _ _ _ below ⟨_, rfl, -⟩ ⟨_, rfl, -⟩
    exact not_lt_of_tail (not_lt_of_head below)
  · rintro ⟨i, _, -, part, here, violation⟩
    exact ⟨i, part, here, violation⟩
  · rintro ⟨i, part, rfl, violation⟩
    obtain ⟨name, info, defined, -⟩ := violation_clazz_iff.1 violation
    exact ⟨i, _, defined, part, rfl, violation⟩

/-- What is wrong with the blocks is in the order of the blocks. -/
theorem inOrder_allBlockDefects : InOrder
    (d.blocks.zipIdx.flatMap fun entry => d.blockDefects ⟨entry.2⟩ entry.1)
    fun place e => ∃ i index, place = [2, i, index] ∧ d.Violation place e := by
  refine (InOrder.flatMap_zipIdx
    (fun i _ place e => ∃ index, place = [2, i, index] ∧ d.Violation place e)
    (fun i instrs listed => inOrder_blockDefects listed) ?_).congr fun place e => ⟨?_, ?_⟩
  · rintro i j _ _ _ _ _ _ below ⟨_, rfl, -⟩ ⟨_, rfl, -⟩
    exact not_lt_of_tail (not_lt_of_head below)
  · rintro ⟨i, _, -, index, here, violation⟩
    exact ⟨i, index, here, violation⟩
  · rintro ⟨i, index, rfl, violation⟩
    obtain ⟨instr, ⟨instrs, listed, -⟩, -⟩ := violation_instr_iff.1 violation
    exact ⟨i, instrs, listed, index, rfl, violation⟩

/-- What is wrong with the clazz to start with has one place. -/
theorem inOrder_mainDefects : InOrder d.mainDefects fun place e =>
    place = [3] ∧ d.Violation place e := by
  refine (InOrder.at_place _ [3]).congr fun place e => and_congr_right ?_
  rintro rfl
  unfold mainDefects
  constructor
  · intro wrong
    cases chosen : d.main with
    | none =>
      rw [chosen] at wrong
      cases List.mem_singleton.1 wrong
      exact .noMain chosen
    | some c =>
      rw [chosen] at wrong
      dsimp only [defectOf] at wrong
      split at wrong
      · cases wrong
      · rename_i beyond
        cases List.mem_singleton.1 wrong
        exact .unknownMain chosen (Nat.le_of_not_lt beyond)
  · intro violation
    cases violation with
    | noMain none => simp [none]
    | unknownMain chosen beyond => simp [chosen, defectOf, beyond]

/-- The defects of a draft are its violations, in order. -/
theorem inOrder_defects (d : Draft) : InOrder d.defects d.Violation := by
  refine (((inOrder_undefinedClazzes.append inOrder_allClazzDefects ?_).append
    inOrder_allBlockDefects ?_).append inOrder_mainDefects ?_).congr fun place e => ⟨?_, ?_⟩
  · rintro _ _ _ _ ⟨_, rfl, -⟩ ⟨_, _, rfl, -⟩
    exact not_lt_of_head Nat.one_pos
  · rintro _ _ _ _ (⟨_, rfl, -⟩ | ⟨_, _, rfl, -⟩) ⟨_, _, rfl, -⟩
    · exact not_lt_of_head Nat.two_pos
    · exact not_lt_of_head Nat.one_lt_two
  · rintro _ _ _ _ ((⟨_, rfl, -⟩ | ⟨_, _, rfl, -⟩) | ⟨_, _, rfl, -⟩) ⟨rfl, -⟩ <;>
      exact not_lt_of_head (by decide)
  · rintro (((⟨_, -, wrong⟩ | ⟨_, _, -, wrong⟩) | ⟨_, _, -, wrong⟩) | ⟨-, wrong⟩) <;>
      exact wrong
  · intro violation
    cases violation with
    | undefined declared => exact .inl (.inl (.inl ⟨_, rfl, .undefined declared⟩))
    | clazzOfClazz defined mentions beyond =>
      exact .inl (.inl (.inr ⟨_, _, rfl, .clazzOfClazz defined mentions beyond⟩))
    | codeOfClazz defined mentions beyond =>
      exact .inl (.inl (.inr ⟨_, _, rfl, .codeOfClazz defined mentions beyond⟩))
    | resultField defined lacks =>
      exact .inl (.inl (.inr ⟨_, _, rfl, .resultField defined lacks⟩))
    | clazzOfInstr found mentions beyond =>
      exact .inl (.inr ⟨_, _, rfl, .clazzOfInstr found mentions beyond⟩)
    | codeOfInstr found mentions beyond =>
      exact .inl (.inr ⟨_, _, rfl, .codeOfInstr found mentions beyond⟩)
    | noMain none => exact .inr ⟨rfl, .noMain none⟩
    | unknownMain chosen beyond => exact .inr ⟨rfl, .unknownMain chosen beyond⟩

/-! ### How drafts come about -/

/-- One step in putting a draft together. -/
inductive Operation where
  | declare (name : String)
  | define (c : ClazzId) (info : ClazzInfo)
  | add (info : ClazzInfo)
  | addField (owner : ClazzId) (name : String) (type : ClazzId)
  | addCode (instrs : List Instr)
  | setMain (c : ClazzId)
  | setConstString (layout : ConstStringLayout)

/-- What the step does. -/
def Operation.perform : Operation → StateM Draft Unit
  | declare name => do let _ ← Draft.declare name
  | define c info => Draft.define c info
  | add info => do let _ ← Draft.add info
  | addField owner name type => do let _ ← Draft.addField owner name type
  | addCode instrs => do let _ ← Draft.addCode instrs
  | setMain c => Draft.setMain c
  | setConstString layout => Draft.setConstString layout

/-- The draft after some steps from the empty one. -/
def after (steps : List Operation) : Draft := ((steps.forM Operation.perform).run {}).2

end Draft

end ClosedWorld
