import ClosedWorld.Proofs.Analysis.Accesses
import ClosedWorld.Proofs.Walk.Visits

/-!
# Instructions keep to a discipline

## Main definitions

* `Analyzer.visitsOfCases`, `Analyzer.visitsOfBranches`: the visits in the blocks that a match or a
  condition selects.
* `Analyzer.walkCase`, `Analyzer.visitsOfCase`: a single case of a match.
* `Setting.linkString`, `Setting.fillString`: the later parts of making a constant string.

## Main statements

* `Analyzer.walkCases_cons`, `Analyzer.visitsOfCases_cons`: cases are walked one by one.
* `AnalysisDiscipline.seen_visitsOfCases`, `AnalysisDiscipline.seen_visitsOfBranches`: what is said
  of the visits in blocks is said of those that are selected.
* `AnalysisDiscipline.respects_processor`: all instructions in the code of a call.
-/

namespace ClosedWorld

namespace Analyzer

/-- The visits in the cases of a match that the subject selects. -/
def visitsOfCases (walk : CodeWalk) (visits : CodeId → Analysis → List (Visit Analysis Value))
    (frame : InstanceId) (subjectIsBool : Bool) (subject : Value) :
    List MatchCase → Analysis → List (Visit Analysis Value)
  | [], _ => []
  | case :: rest, a =>
    let later := visitsOfCases walk visits frame subjectIsBool subject rest
    let taken (a : Analysis) : List (Visit Analysis Value) :=
      visits case.code a ++ (walk case.code).follow (fun _ => later) a
    let selected (bound : Option Value) (a : Analysis) : List (Visit Analysis Value) :=
      match bound with
      | none => later a
      | some bound =>
        match case.field with
        | none => taken a
        | some field =>
          (onStore (Store.setField field bound (.object frame))).follow (fun _ => taken) a
    (liftM (case.boundBy subjectIsBool subject) : Analyzing (Option Value)).follow selected a

/-- The walk of the code of a case, if the subject selects it. Yields whether control continues
after it. -/
def walkCase (walk : CodeWalk) (frame : InstanceId) (subjectIsBool : Bool) (subject : Value)
    (case : MatchCase) : Analyzing Bool := do
  match ← case.boundBy subjectIsBool subject with
  | none => pure false
  | some bound => do
    if let some field := case.field then
      onStore (Store.setField field bound (.object frame))
    pure (← walk case.code).value.isSome

/-- The visits in the code of a case, if the subject selects it. -/
def visitsOfCase (visits : CodeId → Analysis → List (Visit Analysis Value)) (frame : InstanceId)
    (subjectIsBool : Bool) (subject : Value) (case : MatchCase) :
    Analysis → List (Visit Analysis Value) :=
  let selected (bound : Option Value) : Analysis → List (Visit Analysis Value) :=
    match bound with
    | none => fun _ => []
    | some bound =>
      match case.field with
      | none => visits case.code
      | some field =>
        (onStore (Store.setField field bound (.object frame))).follow fun _ => visits case.code
  (liftM (case.boundBy subjectIsBool subject) : Analyzing (Option Value)).follow selected

/-- The visits of a case that binds a value are those of its block, after the value has been written
to the field of the case, if it has one. -/
theorem visitsOfCase_of_bound {visits : CodeId → Analysis → List (Visit Analysis Value)}
    {frame : InstanceId} {subjectIsBool : Bool} {subject bound : Value} {case : MatchCase}
    (selected : case.boundBy subjectIsBool subject = .ok (some bound)) :
    visitsOfCase visits frame subjectIsBool subject case = case.field.elim (visits case.code)
      fun field =>
        (onStore (Store.setField field bound (.object frame))).follow fun _ => visits case.code := by
  unfold visitsOfCase
  rw [selected]
  cases case.field <;> rfl

/-- The cases of a match are walked one by one, and control continues if it does behind one of them.
-/
theorem walkCases_cons (walk : CodeWalk) (frame : InstanceId) (subjectIsBool : Bool)
    (subject : Value) (case : MatchCase) (rest : List MatchCase) :
    walkCases walk frame subjectIsBool subject (case :: rest) = (do
      let continues ← walkCase walk frame subjectIsBool subject case
      let laterContinues ← walkCases walk frame subjectIsBool subject rest
      return continues || laterContinues) := by
  unfold walkCase
  rw [walkCases, bind_assoc]
  refine bind_congr fun bound => ?_
  cases bound with
  | none => rfl
  | some bound =>
    dsimp only
    cases case.field <;> simp

/-- The visits of the cases of a match are those of one case after the other. -/
theorem visitsOfCases_cons (walk : CodeWalk)
    (visits : CodeId → Analysis → List (Visit Analysis Value)) (frame : InstanceId)
    (subjectIsBool : Bool) (subject : Value) (case : MatchCase) (rest : List MatchCase) :
    visitsOfCases walk visits frame subjectIsBool subject (case :: rest) = fun a =>
      visitsOfCase visits frame subjectIsBool subject case a ++
        (walkCase walk frame subjectIsBool subject case).follow
          (fun _ => visitsOfCases walk visits frame subjectIsBool subject rest) a := by
  funext a
  unfold visitsOfCase walkCase
  rw [visitsOfCases, Attempt.follow_bind, ← Attempt.follow_append]
  congr 1
  funext bound a'
  cases bound with
  | none => rfl
  | some bound =>
    dsimp only
    cases case.field with
    | none => simp only [Attempt.follow_bind, Attempt.follow_pure]
    | some field => simp only [Attempt.follow_bind, Attempt.follow_pure, Attempt.follow_append]

/-- The visits in blocks that are walked in order. -/
def visitsOfBranches (walk : CodeWalk)
    (visits : CodeId → Analysis → List (Visit Analysis Value)) :
    List CodeId → Analysis → List (Visit Analysis Value)
  | [], _ => []
  | code :: rest, a =>
    visits code a ++ (walk code).follow (fun _ => visitsOfBranches walk visits rest) a

end Analyzer

/-! ### Constant strings -/

namespace Setting

variable (g : Setting)

/-- The instances and the array of a constant string are put together. -/
def linkString (layout : ConstStringLayout) (data : List UInt8) (string array : InstanceId)
    (bytes : ArrayId) : Analyzing Value :=
  match (g.view.info layout.length).result with
  | none => throw (g.malformed layout.length .noType)
  | some lengthType => do
    let length ← g.anyNumber lengthType
    let count := Value.number { length with bits := some (UInt64.ofNat data.length) }
    onStore (Store.setField layout.length count (.object array))
    onStore (Store.setField layout.data (.array bytes) (.object array))
    onStore (Store.setField layout.internalArray (.object array) (.object string))
    return .object string

/-- The bytes of a constant string are written, if there are any, before it is put together. -/
def fillString (layout : ConstStringLayout) (data : List UInt8) (string array : InstanceId)
    (bytes : ArrayId) : Analyzing Value :=
  if !data.isEmpty then do
    let element ← g.anyNumber layout.element
    onStore (Store.arraySet bytes (.number element))
    g.linkString layout data string array bytes
  else g.linkString layout data string array bytes

/-- Making a constant string begins with its instance, its array and the bytes, which `fillString`
fills and puts together. -/
theorem constString_eq (creator : ClazzId) (site : Site) (data : List UInt8) :
    g.constString creator site data =
      (match g.view.stringLayout? with
      | none => throw .missingConstString
      | some layout => do
        let string ← onStore (Store.internInstance layout.clazz (g.contextOf creator))
        let array ← onStore (Store.internInstance layout.arrayClazz (g.contextOf creator))
        let bytes ← onStore (Store.internArray (.const site))
        g.fillString layout data string array bytes) := rfl

end Setting

namespace AnalysisDiscipline

variable {z : Analyzer} (D : AnalysisDiscipline z) {a b : Analysis} {act : Activation}

/-! ### Constants -/

/-- The last part of making a constant string: its instance, its array and the bytes are there, and
are put together. -/
theorem safe_linkString {layout : ConstStringLayout} {site : Site} {clazz : ClazzId}
    {data : List UInt8} {string array : InstanceId} {bytes : ArrayId} (h : D.runs.Alike a b)
    (told : z.view.stringLayout? = some layout)
    (hi : z.view.instr? site.code site.index = some (.const clazz data))
    (special : (z.view.info clazz).special = some .constString)
    (hs : D.Good a.store (.object string)) (ha : D.Good a.store (.object array))
    (hb : D.Good a.store (.array bytes)) :
    D.Sound (fun v a' => D.Good a'.store v)
      (z.linkString layout data string array bytes) a b := by
  unfold Setting.linkString
  cases typed : (z.view.info layout.length).result with
  | none => exact .throw h (D.allowed (D.allowed_of_isPlain rfl))
  | some lengthType =>
    apply safe_lift_bind h (D.gives_anyNumber a.store lengthType)
    intro length good
    obtain ⟨-, numeric, clazz⟩ := good
    have goodCount := D.good_count told typed numeric hi special a.store
    rw [← clazz] at goodCount
    have known := D.known_layout told
    have knownLength := known layout.length (by simp [ConstStringLayout.clazzes])
    have knownData := known layout.data (by simp [ConstStringLayout.clazzes])
    have knownArray := known layout.internalArray (by simp [ConstStringLayout.clazzes])
    refine (D.safe_onStore h (D.safe_setField knownLength (.object array) (D.inv h) goodCount
      ha)).bind fun _ a₁ b₁ h₁ leads₁ _ => ?_
    have ha := D.good_mono (D.leads_store leads₁) ha
    have hb := D.good_mono (D.leads_store leads₁) hb
    have hs := D.good_mono (D.leads_store leads₁) hs
    refine (D.safe_onStore h₁ (D.safe_setField knownData (.object array) (D.inv h₁) hb
      ha)).bind fun _ a₂ b₂ h₂ leads₂ _ => ?_
    have ha := D.good_mono (D.leads_store leads₂) ha
    have hs := D.good_mono (D.leads_store leads₂) hs
    refine (D.safe_onStore h₂ (D.safe_setField knownArray (.object string) (D.inv h₂) ha
      hs)).bind fun _ a₃ b₃ h₃ leads₃ _ => ?_
    exact .pure h₃ (D.good_mono (D.leads_store leads₃) hs)

/-- Making a constant string keeps to the discipline and gives a good value. -/
theorem safe_constString {creator : ClazzId} {site : Site} {clazz : ClazzId} {data : List UInt8}
    (h : D.runs.Alike a b) (hk : D.Known creator) (hs : D.Known site.clazz)
    (hi : z.view.instr? site.code site.index = some (.const clazz data))
    (special : (z.view.info clazz).special = some .constString) :
    D.Sound (fun v a' => D.Good a'.store v) (z.constString creator site data) a b := by
  unfold Setting.constString
  cases told : z.view.stringLayout? with
  | none => exact .throw h (D.allowed (D.allowed_of_isPlain rfl))
  | some layout =>
    have knownString := D.known_layout told layout.clazz (by simp [ConstStringLayout.clazzes])
    have knownArray := D.known_layout told layout.arrayClazz (by simp [ConstStringLayout.clazzes])
    have context := D.goodContext hk
    refine (D.safe_onStore h (D.safe_internInstance (D.inv h) knownString context)).bind ?_
    rintro string a₁ b₁ h₁ - ⟨-, goodString⟩
    refine (D.safe_onStore h₁ (D.safe_internInstance (D.inv h₁) knownArray context)).bind ?_
    rintro array a₂ b₂ h₂ leads₂ ⟨-, goodArray⟩
    have goodString := D.good_mono (D.leads_store leads₂) goodString
    have goodKey : D.GoodArrayKey z.view a₂.store (.const site) := ⟨hs, by rw [hi]; rfl⟩
    refine (D.safe_onStore h₂ (D.safe_internArray (D.inv h₂) goodKey)).bind ?_
    rintro bytes a₃ b₃ h₃ leads₃ goodBytes
    have goodString := D.good_mono (D.leads_store leads₃) goodString
    have goodArray := D.good_mono (D.leads_store leads₃) goodArray
    cases data.isEmpty with
    | true => exact D.safe_linkString h₃ told hi special goodString goodArray goodBytes
    | false =>
      apply safe_lift_bind h₃ (D.gives_anyNumber a₃.store layout.element)
      intro element good
      refine (D.safe_onStore h₃ (D.safe_arraySet (D.inv h₃) goodBytes good.1)).bind ?_
      intro _ a₄ b₄ h₄ leads₄ _
      have leads₄ := D.leads_store leads₄
      exact D.safe_linkString h₄ told hi special (D.good_mono leads₄ goodString)
        (D.good_mono leads₄ goodArray) (D.good_mono leads₄ goodBytes)

/-- A constant keeps to the discipline, be it a boolean, a number or a string. -/
theorem safe_constant {creator : ClazzId} {site : Site} {clazz : ClazzId} {data : List UInt8}
    (h : D.runs.Alike a b) (hk : D.Known creator) (hs : D.Known site.clazz)
    (hi : z.view.instr? site.code site.index = some (.const clazz data)) :
    D.Sound D.GoodAnswer (z.constant? creator site clazz data) a b := by
  have good {a : Analysis} {v : Value} (hv : D.Good a.store v) : D.GoodAnswer (some v) a := by
    rintro _ ⟨⟩
    exact hv
  have unsupported : D.Sound D.GoodAnswer (do
      diagnose (.unsupportedConstant site (z.view.name clazz))
      return none) a b := by
    refine (D.safe_diagnose _ h).bind fun _ a' b' h' _ _ => .pure h' ?_
    rintro _ ⟨⟩
  unfold Setting.constant?
  cases special : (z.view.info clazz).special with
  | none => exact unsupported
  | some special' =>
    cases special' with
    | bool => exact .pure h (good (D.good_bool _ _))
    | numeric kind => exact .pure h (good (D.good_constant special data _))
    | constString =>
      apply (D.safe_constString h hk hs hi special).bind
      intro v a' b' h' _ hv
      exact .pure h' (good hv)
    | unit => exact .pure h (good (D.good_unit _))
    | universal => exact unsupported

/-! ### Boxes -/

/-- What is taken out of the boxes of a good value is good. -/
theorem good_unboxed {s : Store} {v : Value} (hv : D.Good s v) : D.Good s v.unboxed := by
  have goodAtom {atom : Value} (ha : D.Good s atom) : D.Good s atom.unboxedAtom := by
    cases atom with
    | boxed content valueClazz refClazz => exact D.good_of_boxed ha
    | _ => exact ha
  have goodFold (atoms : List Value) : ∀ sofar, D.Good s sofar → (∀ a ∈ atoms, D.Good s a) →
      D.Good s ((atoms.map Value.unboxedAtom).foldl Value.join sofar) := by
    induction atoms with
    | nil => exact fun sofar hs _ => hs
    | cons atom rest ih =>
      intro sofar hs ha
      obtain ⟨good, goodRest⟩ := List.forall_mem_cons.1 ha
      exact ih _ (D.good_join hs (goodAtom good)) goodRest
  have goodAtoms : ∀ a ∈ v.atoms, D.Good s a := fun a ha => D.good_atom hv ha
  unfold Value.unboxed Value.joinAll
  cases atoms : v.atoms with
  | nil => exact D.good_of_atoms_eq_nil hv atoms
  | cons atom rest =>
    rw [atoms] at goodAtoms
    obtain ⟨good, goodRest⟩ := List.forall_mem_cons.1 goodAtoms
    rw [List.map_cons, List.foldl_cons, Value.noValue_join]
    exact goodFold rest _ (goodAtom good) goodRest

/-! ### Branches -/

/-- What a tag selects of a good atom is nothing or good. -/
theorem gives_selectedBy {s : Store} (subjectIsBool : Bool) (tag : Nat) {atom : Value}
    (ha : D.Good s atom) :
    Gives D.Allowed (D.GoodResult s) (selectedBy subjectIsBool tag atom) := by
  have nothing : D.GoodResult s none := by
    rintro _ ⟨⟩
  unfold selectedBy
  split
  · refine .ok ?_
    split
    · rintro _ ⟨⟩
      exact D.good_of_tagged ha
    · exact nothing
  · exact .ok nothing
  · exact .ok nothing
  · split
    · refine .ok ?_
      split
      · rintro _ ⟨⟩
        exact D.good_bool _ _
      · exact nothing
    · exact .error (D.allowed_of_isPlain rfl)
  · exact .error (D.allowed_of_isPlain rfl)

/-- What is bound by several tags and good atoms is nothing or good. -/
theorem gives_boundByEach {s : Store} (subjectIsBool : Bool) {pairs : List (Nat × Value)}
    (hp : ∀ p ∈ pairs, D.Good s p.2) {sofar : Option Value} (hs : D.GoodResult s sofar) :
    Gives D.Allowed (D.GoodResult s) (boundByEach subjectIsBool sofar pairs) := by
  induction pairs generalizing sofar with
  | nil => exact .ok hs
  | cons pair rest ih =>
    obtain ⟨good, goodRest⟩ := List.forall_mem_cons.1 hp
    unfold boundByEach
    apply (D.gives_selectedBy subjectIsBool pair.1 good).bind
    intro bound _ hb
    exact ih goodRest (D.goodResult_joinResults hs hb)

/-- What a case binds of a good subject is nothing or good. -/
theorem gives_boundBy {s : Store} (case : MatchCase) (subjectIsBool : Bool) {subject : Value}
    (hs : D.Good s subject) :
    Gives D.Allowed (D.GoodResult s) (case.boundBy subjectIsBool subject) := by
  refine D.gives_boundByEach subjectIsBool ?_ (by rintro _ ⟨⟩)
  intro p hp
  obtain ⟨tag, -, hp⟩ := List.mem_flatMap.1 hp
  obtain ⟨atom, hatom, rfl⟩ := List.mem_map.1 hp
  exact D.good_atom hs hatom

/-- Which branches some atoms admit can be told, or the fault is `Allowed`. -/
theorem gives_admittedBranches (thenTaken elseTaken : Bool) (atoms : List Value) :
    Gives D.Allowed (fun _ => True) (admittedBranches thenTaken elseTaken atoms) := by
  induction atoms generalizing thenTaken elseTaken with
  | nil => exact .ok trivial
  | cons atom rest ih =>
    have asBool : Gives D.Allowed (fun _ => True) atom.asBool := by
      cases atom with
      | bool truth => exact .ok trivial
      | _ => exact .error (D.allowed_of_isPlain rfl)
    unfold admittedBranches
    exact asBool.bind fun truth _ _ => ih _ _

/-- The branches that a condition takes are those of its instruction, or the fault is `Allowed`. -/
theorem gives_takenBranches (condition : Value) (thenCode elseCode : CodeId) :
    Gives D.Allowed (fun codes => codes ⊆ (Instr.cond thenCode elseCode).branches)
      (takenBranches condition thenCode elseCode) := by
  unfold takenBranches
  refine (D.gives_admittedBranches false false _).bind fun taken _ _ => .ok ?_
  obtain ⟨thenTaken, elseTaken⟩ := taken
  cases thenTaken <;> cases elseTaken <;> simp [Instr.branches]

/-- What is said of the visits in the block of a case is said of those of the case. -/
theorem seen_visitsOfCase {S : D.runs.Sight (Visit Analysis Value)} {walk walk' : CodeWalk}
    {visits : CodeId → Analysis → List (Visit Analysis Value)} {frame : InstanceId}
    {subjectIsBool : Bool} {subject : Value} {case : MatchCase}
    (hk : ∀ field, case.field = some field → D.Known field)
    (hw : ∀ {a b}, D.runs.Alike a b →
      S.Seen (fun _ _ => True) (walk case.code) (walk' case.code) (visits case.code a) a b)
    (h : D.runs.Alike a b) (hf : D.Good a.store (.object frame)) (hs : D.Good a.store subject) :
    S.Seen (fun _ _ => True) (Analyzer.walkCase walk frame subjectIsBool subject case)
      (Analyzer.walkCase walk' frame subjectIsBool subject case)
      (Analyzer.visitsOfCase visits frame subjectIsBool subject case a) a b := by
  have taken {a b : Analysis} (h : D.runs.Alike a b) : S.Seen (fun _ _ => True)
      (do return (← walk case.code).value.isSome) (do return (← walk' case.code).value.isSome)
      (visits case.code a) a b :=
    (hw h).bind_nothing fun _ _ _ h' _ _ => .pure h' trivial
  unfold Analyzer.walkCase Analyzer.visitsOfCase
  refine .lift_bind h (gives_allowed (D.gives_boundBy case subjectIsBool hs)) ?_
  intro bound good
  cases bound with
  | none => exact .nothing (.pure h trivial)
  | some bound =>
    dsimp only
    cases bind : case.field with
    | none => exact taken h
    | some field =>
      have written := D.safe_setField (hk field bind) (.object frame) (D.inv h) (good bound rfl) hf
      exact .after (D.safe_onStore h written) fun _ _ _ h' _ _ => taken h'

/-- What is said of the visits in the blocks of a match is said of those of its cases, by induction
on the cases. -/
theorem seen_visitsOfCases {S : D.runs.Sight (Visit Analysis Value)} {walk walk' : CodeWalk}
    {visits : CodeId → Analysis → List (Visit Analysis Value)} {frame : InstanceId}
    {subjectIsBool : Bool} {subject : Value} {cases : List MatchCase}
    (hk : ∀ case ∈ cases, ∀ field, case.field = some field → D.Known field)
    (hw : ∀ {a b}, ∀ code ∈ cases.map MatchCase.code, D.runs.Alike a b →
      S.Seen (fun _ _ => True) (walk code) (walk' code) (visits code a) a b)
    (h : D.runs.Alike a b) (hf : D.Good a.store (.object frame)) (hs : D.Good a.store subject) :
    S.Seen (fun _ _ => True) (walkCases walk frame subjectIsBool subject cases)
      (walkCases walk' frame subjectIsBool subject cases)
      (Analyzer.visitsOfCases walk visits frame subjectIsBool subject cases a) a b := by
  induction cases generalizing a b with
  | nil => exact .nothing (.pure h trivial)
  | cons case rest ih =>
    obtain ⟨known, knownRest⟩ := List.forall_mem_cons.1 hk
    rw [Analyzer.walkCases_cons, Analyzer.walkCases_cons, Analyzer.visitsOfCases_cons]
    apply (D.seen_visitsOfCase known (hw case.code List.mem_cons_self) h hf hs).bind
    intro continues a' b' h' leads _
    have leads := D.leads_store leads
    exact (ih knownRest (fun code listed h => hw code (List.mem_cons_of_mem _ listed) h) h'
      (D.good_mono leads hf) (D.good_mono leads hs)).bind_nothing
        fun _ _ _ h'' _ _ => .pure h'' trivial

/-- What is said of the visits in the blocks of a condition is said of those of the branches that
are taken. -/
theorem seen_visitsOfBranches {S : D.runs.Sight (Visit Analysis Value)} {walk walk' : CodeWalk}
    {visits : CodeId → Analysis → List (Visit Analysis Value)} {codes : List CodeId}
    (hw : ∀ {a b}, ∀ code ∈ codes, D.runs.Alike a b →
      S.Seen (fun _ _ => True) (walk code) (walk' code) (visits code a) a b)
    (h : D.runs.Alike a b) :
    S.Seen (fun _ _ => True) (walkAll walk codes) (walkAll walk' codes)
      (Analyzer.visitsOfBranches walk visits codes a) a b := by
  induction codes generalizing a b with
  | nil => exact .nothing (.pure h trivial)
  | cons code rest ih =>
    unfold walkAll Analyzer.visitsOfBranches
    apply (hw code List.mem_cons_self h).bind
    intro step a' b' h' _ _
    exact (ih (fun code listed h => hw code (List.mem_cons_of_mem _ listed) h) h').bind_nothing
      fun _ a'' b'' h'' _ _ => .pure h'' trivial

/-- Walking the cases of a match keeps to the discipline if the walks of their blocks do. -/
theorem safe_walkCases {walk walk' : CodeWalk} {frame : InstanceId} {subjectIsBool : Bool}
    {subject : Value} {cases : List MatchCase}
    (hk : ∀ case ∈ cases, ∀ field, case.field = some field → D.Known field)
    (hw : ∀ {a b}, ∀ code ∈ cases.map MatchCase.code, D.runs.Alike a b →
      D.runs.Safe (fun _ _ => True) (walk code) (walk' code) a b)
    (h : D.runs.Alike a b) (hf : D.Good a.store (.object frame)) (hs : D.Good a.store subject) :
    D.runs.Safe (fun _ _ => True) (walkCases walk frame subjectIsBool subject cases)
      (walkCases walk' frame subjectIsBool subject cases) a b :=
  (D.seen_visitsOfCases (S := default) hk (fun code listed h => .nothing (hw code listed h)) h hf
    hs).safe

/-- Walking some blocks keeps to the discipline if the walks of them do. -/
theorem safe_walkAll {walk walk' : CodeWalk} {codes : List CodeId}
    (hw : ∀ {a b}, ∀ code ∈ codes, D.runs.Alike a b →
      D.runs.Safe (fun _ _ => True) (walk code) (walk' code) a b)
    (h : D.runs.Alike a b) :
    D.runs.Safe (fun _ _ => True) (walkAll walk codes) (walkAll walk' codes) a b :=
  (D.seen_visitsOfBranches (S := default) (fun code listed h => .nothing (hw code listed h)) h).safe

/-! ### The processor -/

/-- The answer of an instruction with a good value is good. -/
theorem goodValue {v : Value} (hv : D.Good a.store v) :
    (answer (some v)).IsGood (fun a => D.Good a.store) a := by
  rintro _ ⟨⟩
  exact hv

/-- The clazzes that the access of an instruction mentions are known. -/
theorem knownAccess {code : CodeId} {index : Nat} {instr : Instr}
    {access : Access} (hi : z.view.instr? code index = some instr)
    (hr : instr.references =
      .clazz access.accessed :: access.targets.flatMap fun t => [.clazz t.1, .clazz t.2]) :
    D.KnownAccess access where
  accessed := D.known_reference hi (by rw [hr]; exact List.mem_cons_self)
  targets t ht := by
    refine D.known_reference hi ?_
    rw [hr]
    exact List.mem_cons_of_mem _ (List.mem_flatMap.2 ⟨t, ht, by simp⟩)

/-- The fields that the cases of a match bind are known. -/
theorem knownCases {code : CodeId} {index : Nat} {m : Match}
    (hi : z.view.instr? code index = some (.select m)) :
    ∀ case ∈ m.cases, ∀ field, case.field = some field → D.Known field := by
  intro case listed field bind
  refine D.known_reference hi (List.mem_cons_of_mem _ (List.mem_flatMap.2 ⟨case, listed, ?_⟩))
  simp [bind]

/-- The processor of an analysis respects every discipline, one case per instruction. -/
theorem respects_processor (hz : z.intrinsics = .standard) {act : Activation}
    (hact : ∀ {a b}, D.runs.Alike a b → D.GoodActivation z.view a.store act) :
    (z.processor act).Respects D.runs (fun a => D.Good a.store) z.view act.key.clazz
      ((z.beside D.reports).processor act) where
  malformed_eq := rfl
  allowed_stackUnderflow _ _ := D.allowed (D.allowed_of_isPlain rfl)
  allowed_missingCode := D.allowed (D.allowed_of_isPlain rfl)
  nests_or_allowed := D.nests_or_allowed.imp_right fun allowed code => D.allowed (allowed code)
  allowed_missingInstruction hi hl := D.allowed (D.allowed_missingInstruction hi hl)
  sequence outputs h := .pure h trivial
  unitValue h := .pure h (D.good_unit _)
  header site h := .pure h trivial
  comment text h := .pure h trivial
  nop h := .pure h trivial
  current h := .pure h (D.goodValue (hact h).frame)
  outer h := .pure h (D.goodValue (hact h).key.target)
  arg index h := by
    apply safe_lift_bind h (D.gives_argument (hact h).key.args index)
    intro v hv
    exact .pure h (D.goodValue hv)
  const h hi := by
    have known := (hact h).key.known
    exact (D.safe_constant h known known hi).bind fun r a' b' h' _ hr => .pure h' hr
  adrOf h hx := .pure h (D.goodValue hx)
  assign {a b code index access target value} h hi ht hv := by
    have mode : D.GoodMode a.store (.assign [value]) :=
      ⟨List.forall_mem_singleton.2 hv, fun none => absurd none (List.cons_ne_nil _ _)⟩
    exact (D.safe_access hz _ h (hact h) (D.knownAccess hi rfl) ht mode
      (D.readyAccess_assign ..)).bind
      fun _ a' b' h' _ _ => .pure h' trivial
  call {a b code index access target args} h hi ht hargs taken := by
    have arity : D.GoodArity args.length := by
      rw [taken]
      exact D.goodArity access
    exact (D.safe_call hz _ ⟨code, index, hi⟩ h (hact h) (D.knownAccess hi rfl) ht
      ⟨hargs, arity⟩).bind
      fun _ a' b' h' _ hr => .pure h' hr
  box {a b code index x value reference} h hi hx := by
    have known : D.Known reference := D.known_reference hi (by simp [Instr.references])
    show D.runs.Safe _ (if (z.view.info value).isRef then _ else _)
      (if (z.view.info value).isRef then _ else _) a b
    cases isRef : (z.view.info value).isRef with
    | true => exact .pure h (D.goodValue hx)
    | false =>
      have boxes : z.view.Boxes value reference := ⟨⟨code, index, hi⟩, isRef⟩
      refine (D.safe_onStore h (D.safe_boxValue (D.inv h) hx boxes known)).bind ?_
      exact fun boxed a' b' h' _ hb => .pure h' (D.goodValue hb)
  unbox reference value h hx := .pure h (D.goodValue (D.good_unboxed hx))
  tag {a b code index x value choice tag} h hi hx := by
    have tagged : D.Good a.store
        (if z.view.isBool choice then .bool (.ofTag tag) else .tagged x choice tag) := by
      cases isBool : z.view.isBool choice with
      | true => exact D.good_bool _ _
      | false => exact D.good_tagged hx ⟨.inl ⟨code, index, value, tag, hi⟩, isBool⟩ tag
    exact .pure h (D.goodValue tagged)
  env code index effect h := by
    refine safe_currentStore_bind h ?_
    have looked := D.gives_lookupEffect (D.inv h) (hact h).key.env effect
    apply safe_lift_bind h looked
    intro value hv
    cases value with
    | some v => exact .pure h hv
    | none =>
      refine (D.safe_diagnose _ h).bind fun _ a' b' h' _ _ => .pure h' ?_
      rintro _ ⟨⟩
  select h hi hs hw :=
    (D.safe_walkCases (D.knownCases hi) hw h (hact h).frame hs).bind
      fun _ a' b' h' _ _ => .pure h' trivial
  cond code index thenCode elseCode h hc hw :=
    safe_lift_bind h (D.gives_takenBranches _ thenCode elseCode) fun codes taken =>
      (D.safe_walkAll (fun code listed h => hw code (taken listed) h) h).bind
        fun _ a' b' h' _ _ => .pure h' trivial
  contract {a b condition} code index kind h _ := by
    show D.runs.Safe _ (if condition = .bool .false then _ else _)
      (if condition = .bool .false then _ else _) a b
    by_cases never : condition = .bool .false
    · rw [if_pos never, if_pos never]
      exact (D.safe_diagnose _ h).bind fun _ a' b' h' _ _ => .pure h' trivial
    · rw [if_neg never, if_neg never]
      exact .pure h trivial

end AnalysisDiscipline

end ClosedWorld
