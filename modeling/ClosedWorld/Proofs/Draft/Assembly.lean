import ClosedWorld.Proofs.Draft.Violations

/-!
# Putting programs together

A draft is examined in one go: its tables are read by index, entry by entry, and the first defect
ends everything. An index is read before anything is known about it only if it has been checked
earlier; reading beyond the end of a table would be the end, too, but of another kind. This is
written out here, and told to be the same as asking for the first one of all defects. So nothing is
ever read beyond the end of a table, and a draft is accepted if and only if it is sound.

## Main definitions

* `Draft.Halt`, `Draft.entryAt`: what ends everything, and reading by index.
* `Draft.assemble`: the program of a draft with the fields of its clazzes, put together in one go.

## Main statements

* `Draft.assemble_eq`: this is how a program is built.
* `Draft.build_of_operations`: which drafts are accepted, and what the others are refused with.
-/

namespace ClosedWorld

namespace Draft

/-! ### In one go -/

/-- What ends everything. -/
inductive Halt where
  /-- A table is read beyond its end. -/
  | beyond (index : Nat)
  | defect (defect : Defect)
  deriving DecidableEq, Repr

variable {α : Type}

/-- Reads a table. -/
def entryAt (table : List α) (index : Nat) : Except Halt α :=
  match table[index]? with
  | some entry => .ok entry
  | none => .error (.beyond index)

/-- Does the same for each entry of a table from an index on. -/
def forEach (step : Nat → α → Except Halt Unit) : (first : Nat) → List α → Except Halt Unit
  | _, [] => .ok ()
  | i, entry :: rest => do
    step i entry
    forEach step (i + 1) rest

/-- The descriptions of the clazzes, if they all have been given. -/
def collect (names : List String) : (first : Nat) → List (Option ClazzInfo) →
    Except Halt (List ClazzInfo)
  | _, [] => .ok []
  | i, some info :: rest => do return info :: (← collect names (i + 1) rest)
  | i, none :: _ => do
    let name ← entryAt names i
    .error (.defect (.undefinedClazz ⟨i⟩ name))

variable (d : Draft)

/-- Checks one mention. -/
def checkReference (referrer : String) (reference : Reference) : Except Halt Unit :=
  match d.defectOf referrer reference with
  | some defect => .error (.defect defect)
  | none => .ok ()

/-- Checks that a routine has a field for its result, whose description is read for that. -/
def checkResult (names : List String) (infos : List ClazzInfo) (i : Nat) (info : ClazzInfo) :
    Except Halt Unit :=
  if info.kind = .routine ∧ info.resultField = none then
    match info.result with
    | none => .ok ()
    | some result =>
      if result = ⟨i⟩ then .ok ()
      else do
        let described ← entryAt infos result.index
        if described.special = some .unit then return
        let name ← entryAt names i
        .error (.defect (.missingResultField name))
  else .ok ()

/-- Checks the description of one clazz. -/
def checkClazz (names : List String) (infos : List ClazzInfo) (i : Nat) (info : ClazzInfo) :
    Except Halt Unit := do
  let name ← entryAt names i
  info.references.forM (d.checkReference name)
  checkResult names infos i info

/-- Checks one block. -/
def checkBlock (i : Nat) (instrs : List Instr) : Except Halt Unit :=
  instrs.forM fun instr =>
    instr.references.forM (d.checkReference (⟨i⟩ : CodeId).text)

/-- Enters the fields from an index on at their owners. -/
def enterFields (table : List (List ClazzId)) : (first : Nat) → List ClazzInfo →
    Except Halt (List (List ClazzId))
  | _, [] => .ok table
  | i, info :: rest =>
    match info.kind, info.outer with
    | .field, some owner => do
      let fields ← entryAt table owner.index
      enterFields (table.set owner.index (fields ++ [⟨i⟩])) (i + 1) rest
    | _, _ => enterFields table (i + 1) rest

/-- The program of the draft, and the fields of its clazzes. -/
def assemble : Except Halt (Program × List (List ClazzId)) := do
  let names := d.clazzes.map Prod.fst
  let infos ← collect names 0 (d.clazzes.map Prod.snd)
  forEach (d.checkClazz names infos) 0 infos
  forEach d.checkBlock 0 d.blocks
  match d.main with
  | none => .error (.defect .missingMain)
  | some main =>
    d.checkReference "main" (.clazz main)
    let fields ← enterFields (List.replicate infos.length []) 0 infos
    return (⟨names.zip infos, d.blocks, main, d.constString⟩, fields)

/-! ### The first defect -/

/-- The first defect ends everything. -/
def refuse : List Defect → Except Halt Unit
  | [] => .ok ()
  | defect :: _ => .error (.defect defect)

/-- Defects of two lists are refused one list after the other. -/
theorem refuse_append (l l' : List Defect) :
    refuse (l ++ l') = (do refuse l; refuse l') := by
  cases l <;> rfl

/-- Refusing the defects of all members of a list is refusing those of one member after the other.
-/
theorem refuse_flatMap (f : α → List Defect) (xs : List α) :
    refuse (xs.flatMap f) = xs.forM (refuse ∘ f) := by
  induction xs with
  | nil => rfl
  | cons x rest ih =>
    rw [List.flatMap_cons, refuse_append, ih]
    rfl

variable {d}

/-- Checking references one by one refuses the defects that `defectOf` finds in them. -/
theorem forM_checkReference (referrer : String) (references : List Reference) :
    references.forM (d.checkReference referrer) =
      refuse (references.filterMap (d.defectOf referrer)) := by
  rw [List.filterMap_eq_flatMap_toList, refuse_flatMap]
  congr 1
  funext reference
  unfold checkReference
  cases h : d.defectOf referrer reference <;> simp [h, refuse]

/-- Checking a block, instruction by instruction, refuses its `blockDefects`. -/
theorem checkBlock_eq (i : Nat) (instrs : List Instr) :
    d.checkBlock i instrs = refuse (d.blockDefects ⟨i⟩ instrs) := by
  unfold checkBlock blockDefects
  rw [refuse_flatMap]
  congr 1
  funext instr
  exact forM_checkReference _ _

/-- Where each entry is refused for its defects, all are refused for theirs. -/
theorem forEach_eq {step : Nat → α → Except Halt Unit} {f : α × Nat → List Defect} {first : Nat}
    {xs : List α} (each : ∀ i x, xs[i]? = some x → step (first + i) x = refuse (f (x, first + i))) :
    forEach step first xs = refuse ((xs.zipIdx first).flatMap f) := by
  induction xs generalizing first with
  | nil => rfl
  | cons x rest ih =>
    have later := @ih (first + 1) fun i y listed => by
      rw [Nat.add_right_comm]
      exact each (i + 1) y listed
    have here : step first x = refuse (f (x, first)) := each 0 x rfl
    rw [List.zipIdx_cons, List.flatMap_cons, refuse_append, forEach, later, here]

/-- Reading a table at an index that is in the table gives the entry there. -/
theorem entryAt_eq {table : List α} {i : Nat} {entry : α} (found : table[i]? = some entry) :
    entryAt table i = .ok entry := by
  unfold entryAt
  rw [found]

/-- Collecting the descriptions refuses the clazzes that have none, and gives those that there are.
-/
theorem collect_eq {names : List String} {first : Nat} {entries : List (String × Option ClazzInfo)}
    (named : ∀ i entry, entries[i]? = some entry → names[first + i]? = some entry.1) :
    collect names first (entries.map Prod.snd) = (do
      refuse ((entries.zipIdx first).filterMap fun ((name, info), i) =>
        if info.isNone then some (.undefinedClazz ⟨i⟩ name) else none)
      return entries.map fun entry => entry.2.getD default) := by
  induction entries generalizing first with
  | nil => rfl
  | cons entry rest ih =>
    obtain ⟨name, info⟩ := entry
    cases info with
    | none =>
      have here : names[first]? = some name := named 0 _ rfl
      rw [List.map_cons, collect, entryAt_eq here, List.zipIdx_cons]
      rfl
    | some info =>
      have later := @ih (first + 1) fun i entry listed => by
        rw [Nat.add_right_comm]
        exact named (i + 1) entry listed
      rw [List.map_cons, collect, later, List.zipIdx_cons, List.filterMap_cons_none rfl]
      cases (rest.zipIdx (first + 1)).filterMap _ <;> rfl

/-- Only clazzes that are declared but not defined are in the way of collecting all descriptions. -/
theorem collect_clazzes (d : Draft) :
    collect (d.clazzes.map Prod.fst) 0 (d.clazzes.map Prod.snd) = (do
      refuse d.undefinedClazzes
      return d.clazzes.map fun entry => entry.2.getD default) := by
  refine collect_eq fun i entry listed => ?_
  rw [Nat.zero_add, List.getElem?_map, listed]
  rfl

/-- The description of the result is read only if the result is in the table, and then the clazz is
refused if it `needsResultField`. -/
theorem checkResult_eq {i : Nat} {name : String} {info : ClazzInfo}
    (defined : d.Defines ⟨i⟩ name info)
    (inside : ∀ result, info.result = some result → result.index < d.clazzes.length) :
    checkResult (d.clazzes.map Prod.fst) (d.clazzes.map fun entry => entry.2.getD default) i info =
      refuse (if d.needsResultField ⟨i⟩ info then [.missingResultField name] else []) := by
  have named : (d.clazzes.map Prod.fst)[i]? = some name := by
    rw [List.getElem?_map, defined]
    rfl
  unfold checkResult needsResultField
  by_cases lacking : info.kind = .routine ∧ info.resultField = none
  case neg =>
    have fine : (decide (info.kind = .routine) && info.resultField.isNone) = false := by
      rw [← Bool.not_eq_true, Bool.and_eq_true, decide_eq_true_iff, Option.isNone_iff_eq_none]
      exact lacking
    rw [if_neg lacking, fine, Bool.false_and]
    rfl
  rw [if_pos lacking, lacking.1, lacking.2]
  cases produces : info.result with
  | none => rfl
  | some result =>
    dsimp only
    by_cases own : result = ⟨i⟩
    · rw [if_pos own]
      simp [own, refuse]
    · rw [if_neg own]
      obtain ⟨⟨name', described⟩, entry⟩ : ∃ entry, d.clazzes[result.index]? = some entry :=
        ⟨_, List.getElem?_eq_getElem (inside result produces)⟩
      have found : (d.clazzes.map fun entry => entry.2.getD default)[result.index]? =
          some (described.getD default) := by
        rw [List.getElem?_map, entry]
        rfl
      have unit : d.isUnit result = decide ((described.getD default).special = some .unit) := by
        unfold isUnit
        rw [entry]
        cases described <;> rfl
      rw [entryAt_eq found, entryAt_eq named]
      simp only [Option.any_some, unit, own, ne_eq, not_false_eq_true, decide_true, Bool.true_and,
        Option.isNone_none]
      by_cases isUnit : (described.getD default).special = some .unit <;>
        simp [bind, Except.bind, pure, Except.pure, isUnit, refuse]

/-- Checking a clazz refuses its `clazzDefects`: its references are checked before its result is
read. -/
theorem checkClazz_eq {i : Nat} {name : String} {info : ClazzInfo}
    (defined : d.Defines ⟨i⟩ name info) :
    d.checkClazz (d.clazzes.map Prod.fst) (d.clazzes.map fun entry => entry.2.getD default) i info =
      refuse (d.clazzDefects ⟨i⟩ name info) := by
  have named : (d.clazzes.map Prod.fst)[i]? = some name := by
    rw [List.getElem?_map, defined]
    rfl
  unfold checkClazz clazzDefects
  rw [entryAt_eq named, refuse_append]
  show (do
    info.references.forM (d.checkReference name)
    checkResult _ _ i info) = _
  rw [forM_checkReference]
  cases wrong : info.references.filterMap (d.defectOf name) with
  | cons e rest => rfl
  | nil =>
    refine checkResult_eq defined fun result produces => Nat.lt_of_not_le fun beyond => ?_
    have mentioned : .clazz result ∈ info.references :=
      ClazzInfo.clazz_mem_references.2 (.result produces)
    have found : Defect.unknownClazz name result ∈ info.references.filterMap (d.defectOf name) :=
      mem_defectsOf.2 (.inl ⟨result, mentioned, beyond, rfl⟩)
    rw [wrong] at found
    cases found

/-- The fields that are entered for a clazz. -/
def entered (infos : List ClazzInfo) (first : Nat) (owner : ClazzId) : List ClazzId :=
  ((infos.zipIdx first).filter fun e => e.1.kind = .field ∧ e.1.outer = some owner).map
    fun e => ⟨e.2⟩

/-- The fields that are entered for an owner, the first clazz of the list being one of them or not.
-/
theorem entered_cons (info : ClazzInfo) (rest : List ClazzInfo) (first : Nat) (owner : ClazzId) :
    entered (info :: rest) first owner =
      (if info.kind = .field ∧ info.outer = some owner then [⟨first⟩] else []) ++
        entered rest (first + 1) owner := by
  unfold entered
  rw [List.zipIdx_cons, List.filter_cons]
  split <;> simp_all

/-- Fields are entered where their owners are in the table. -/
theorem enterFields_eq {table : List (List ClazzId)} {first : Nat} {infos : List ClazzInfo}
    (inside : ∀ info ∈ infos, ∀ owner, info.outer = some owner → owner.index < table.length) :
    enterFields table first infos =
      .ok (table.mapIdx fun c fields => fields ++ entered infos first ⟨c⟩) := by
  induction infos generalizing table first with
  | nil =>
    refine congrArg Except.ok (List.ext_getElem? fun c => ?_)
    simp [entered]
  | cons info rest ih =>
    obtain ⟨here, later⟩ := List.forall_mem_cons.1 inside
    unfold enterFields
    split
    case h_1 owner field outer =>
      have found := List.getElem?_eq_getElem (here owner outer)
      rw [entryAt_eq found]
      refine (ih fun info listed owner' outer' => ?_).trans (congrArg Except.ok ?_)
      · rw [List.length_set]
        exact later info listed owner' outer'
      · refine List.ext_getElem? fun c => ?_
        rw [List.getElem?_mapIdx, List.getElem?_mapIdx, List.getElem?_set]
        by_cases own : owner.index = c
        · cases own
          rw [if_pos rfl, if_pos (here owner outer), found]
          simp [entered_cons, field, outer]
        · have other : owner ≠ ⟨c⟩ := fun same => own (congrArg Ident.index same)
          rw [if_neg own]
          simp [entered_cons, outer, other]
    case h_2 other =>
      have none (owner : ClazzId) : ¬(info.kind = .field ∧ info.outer = some owner) :=
        fun h => other owner h.1 h.2
      simp only [entered_cons, if_neg (none _), List.nil_append]
      exact ih later

/-- What is entered for an owner in the end are its `fields`. -/
theorem entered_eq_fields (p : Program) (owner : ClazzId) :
    entered (p.clazzes.map Prod.snd) 0 owner = p.fields owner := by
  have ids : p.clazzIds = ((p.clazzes.map Prod.snd).zipIdx 0).map fun e => ⟨e.2⟩ := by
    have indices := List.zipIdx_map_snd 0 (p.clazzes.map Prod.snd)
    rw [List.length_map, ← List.range_eq_range'] at indices
    unfold Program.clazzIds Ident.below Program.clazzCount
    rw [← indices, List.map_map]
    rfl
  unfold Program.fields entered
  rw [ids, List.filter_map]
  congr 1
  refine List.filter_congr fun e listed => ?_
  have entry := List.mem_zipIdx_iff_getElem?.1 listed
  rw [List.getElem?_map] at entry
  obtain ⟨named, found, same⟩ := Option.map_eq_some_iff.1 entry
  have info : p.info ⟨e.2⟩ = e.1 := by
    unfold Program.info Program.entry
    rw [found]
    exact same
  simp only [Function.comp, info]

/-- Checking what `f` makes of the entries of a list is checking the list in that way. -/
theorem forEach_map {β : Type} (step : Nat → α → Except Halt Unit) (f : β → α) (first : Nat)
    (xs : List β) :
    forEach step first (xs.map f) = forEach (fun i x => step i (f x)) first xs := by
  induction xs generalizing first with
  | nil => rfl
  | cons x rest ih => rw [List.map_cons, forEach, forEach, ih]

/-- Checking all clazzes, once they are known to be defined. -/
theorem forEach_checkClazz (defined : d.undefinedClazzes = []) :
    forEach (d.checkClazz (d.clazzes.map Prod.fst)
        (d.clazzes.map fun entry => entry.2.getD default)) 0
      (d.clazzes.map fun entry => entry.2.getD default) =
        refuse (d.clazzes.zipIdx.flatMap fun ((name, info), i) =>
          info.elim [] (d.clazzDefects ⟨i⟩ name)) := by
  rw [forEach_map]
  refine forEach_eq fun i entry listed => ?_
  rw [Nat.zero_add]
  obtain ⟨name, info⟩ := entry
  cases info with
  | some info => exact checkClazz_eq listed
  | none =>
    have undefined : ((name, none), i) ∈ d.clazzes.zipIdx := List.mem_zipIdx_iff_getElem?.2 listed
    cases List.filterMap_eq_nil_iff.1 defined _ undefined

/-- Checking all blocks refuses their `blockDefects`, block by block. -/
theorem forEach_checkBlock (d : Draft) : forEach d.checkBlock 0 d.blocks =
    refuse (d.blocks.zipIdx.flatMap fun (instrs, i) => d.blockDefects ⟨i⟩ instrs) :=
  forEach_eq fun i instrs _ => by
    rw [Nat.zero_add]
    exact checkBlock_eq i instrs

/-- The fields of an accepted program can all be entered, as their owners are in the table, and make
the lists of `fields`. -/
theorem enterFields_of_build {p : Program} (built : d.build = .ok p) :
    enterFields (List.replicate d.clazzes.length []) 0
      (d.clazzes.map fun entry => entry.2.getD default) = .ok (p.clazzIds.map p.fields) := by
  have wellFormed := wellFormed_of_build built
  obtain ⟨-, rfl⟩ := build_eq_ok_iff.1 built
  have infos : (d.clazzes.map fun entry => entry.2.getD default) =
      d.toProgram.clazzes.map Prod.snd := by
    unfold toProgram
    rw [List.map_map]
    rfl
  rw [infos, enterFields_eq]
  · refine congrArg Except.ok (List.ext_getElem? fun c => ?_)
    rw [List.getElem?_mapIdx, List.getElem?_replicate, List.getElem?_map, ← clazzCount_toProgram]
    unfold Program.clazzIds Ident.below
    rw [List.getElem?_map]
    split
    · rename_i inside
      simp [List.getElem?_range inside, entered_eq_fields]
    · rename_i beyond
      simp [beyond]
  · intro info listed owner outer
    obtain ⟨⟨name, info⟩, entry, rfl⟩ := List.mem_map.1 listed
    obtain ⟨i, entry⟩ := List.mem_iff_getElem?.1 entry
    have described : d.toProgram.info ⟨i⟩ = info := by
      unfold Program.info Program.entry
      rw [entry]
      rfl
    have mentioned : .clazz owner ∈ (d.toProgram.info ⟨i⟩).references := by
      rw [described]
      exact ClazzInfo.clazz_mem_references.2 (.outer outer)
    rw [List.length_replicate, ← clazzCount_toProgram]
    exact wellFormed.clazz_reference mentioned

/-- A draft is refused with the first of its `defects`. -/
theorem build_eq_error {defect : Defect} {rest : List Defect} (h : d.defects = defect :: rest) :
    d.build = .error defect := by
  unfold build
  rw [h]

/-- Putting a program together in one go comes to the same as looking for the first of all defects:
tables are never read beyond their end. -/
theorem assemble_eq (d : Draft) : d.assemble =
    match d.build with
    | .ok p => .ok (p, p.clazzIds.map p.fields)
    | .error defect => .error (.defect defect) := by
  -- The checks stop at the first defect, so the list of all defects is taken apart in the order in
  -- which they are made: as long as a part is empty, the next one decides.
  have inOrder : d.defects = d.undefinedClazzes ++
    (d.clazzes.zipIdx.flatMap fun ((name, info), i) => info.elim [] (d.clazzDefects ⟨i⟩ name)) ++
    (d.blocks.zipIdx.flatMap fun (instrs, i) => d.blockDefects ⟨i⟩ instrs) ++ d.mainDefects := rfl
  unfold assemble
  dsimp only
  rw [collect_clazzes]
  cases undefined : d.undefinedClazzes with
  | cons defect rest =>
    rw [undefined] at inOrder
    rw [build_eq_error inOrder]
    rfl
  | nil =>
    show (do
      forEach (d.checkClazz _ _) 0 _
      forEach d.checkBlock 0 d.blocks
      _) = _
    rw [forEach_checkClazz undefined, forEach_checkBlock, ← bind_assoc, ← refuse_append]
    rw [undefined, List.nil_append] at inOrder
    cases earlier : (d.clazzes.zipIdx.flatMap fun ((name, info), i) =>
        info.elim [] (d.clazzDefects ⟨i⟩ name)) ++
      d.blocks.zipIdx.flatMap fun (instrs, i) => d.blockDefects ⟨i⟩ instrs with
    | cons defect rest =>
      rw [earlier] at inOrder
      rw [build_eq_error inOrder]
      rfl
    | nil =>
      rw [earlier, List.nil_append] at inOrder
      unfold mainDefects at inOrder
      cases chosen : d.main with
      | none =>
        rw [chosen] at inOrder
        rw [build_eq_error inOrder]
        rfl
      | some main =>
        rw [chosen] at inOrder
        show (do
          d.checkReference "main" (.clazz main)
          _) = _
        unfold checkReference
        dsimp only at inOrder
        cases wrong : d.defectOf "main" (.clazz main) with
        | some defect =>
          rw [wrong] at inOrder
          rw [build_eq_error inOrder]
          rfl
        | none =>
          rw [wrong] at inOrder
          have built : d.build = .ok d.toProgram := build_eq_ok_iff.2 ⟨inOrder, rfl⟩
          have program : d.toProgram =
              ⟨(d.clazzes.map Prod.fst).zip (d.clazzes.map fun entry => entry.2.getD default),
                d.blocks, main, d.constString⟩ := by
            unfold toProgram
            rw [chosen, List.zip_map']
            rfl
          show (do
            let fields ← enterFields _ 0 _
            return (_, fields)) = _
          rw [built, List.length_map, enterFields_of_build built, program]
          rfl

/-- Whichever steps a draft has come about by, it is accepted if and only if it is sound. Otherwise
it is refused with a violation before which there is no other. Putting it together in one go comes
to the same, and never reads a table beyond its end. -/
theorem build_of_operations (steps : List Operation) :
    let d := after steps
    ((∃ p, d.build = .ok p) ↔ d.Sound) ∧
      (∀ defect, d.build = .error defect → ∃ place, d.Violation place defect ∧
        ∀ place' defect', d.Violation place' defect' → ¬place' < place) ∧
      (d.assemble = match d.build with
        | .ok p => .ok (p, p.clazzIds.map p.fields)
        | .error defect => .error (.defect defect)) ∧
      ∀ index, d.assemble ≠ .error (.beyond index) := by
  intro d
  have violations := inOrder_defects d
  refine ⟨?_, fun defect refused => ?_, assemble_eq d, fun index beyond => ?_⟩
  · rw [sound_iff, ← violations.nil_iff]
    simp [build_eq_ok_iff]
  · unfold build at refused
    split at refused
    · cases refused
    · rename_i found
      cases refused
      rw [found] at violations
      exact violations.first
  · rw [assemble_eq] at beyond
    split at beyond <;> cases beyond

end Draft

end ClosedWorld
