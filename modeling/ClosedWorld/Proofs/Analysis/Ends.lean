import ClosedWorld.Proofs.Analysis.Closed
import ClosedWorld.Proofs.Analysis.Moves
import ClosedWorld.Proofs.Store.Chains

/-!
# The analysis of a call ends

Where no block contains itself, the analysis of a call is what a machine makes of it that knows no
depth at which to give up, and it ends after a number of steps that the text of the program bounds.
This does not depend on what is found, nor on the state of the analysis.

## Main definitions

* `Analyzer.analyzeWithin`: the analysis of a call, step by step.

## Main statements

* `Analyzer.runs_of_effort`: how many steps are enough.
* `Analyzer.analyzeWithin_eq`: step by step, the analysis of a call is what it is as a whole.
* `Analyzer.analyze_ends_of_reaches`: all of this in one statement.
-/

namespace ClosedWorld

variable {p : Program}

/-- The blocks of a call are in the table. -/
theorem Program.HasCodes.ofCall (has : p.HasCodes) {clazz : ClazzId} {pre : Bool}
    {blocks : List CodeId} (found : Machine.blocksOf p.view clazz pre = .ok blocks) {code : CodeId}
    (listed : code ∈ blocks) : code.index < p.blocks.length := by
  unfold Machine.blocksOf at found
  split at found
  · split at found
    · cases found
      exact has.ofClazz (.precondition listed)
    · cases found
  · split at found
    · rename_i body told
      cases found
      obtain rfl | listed := List.mem_cons.1 listed
      · exact has.ofClazz (.body told)
      · exact has.ofClazz (.postcondition listed)
    · cases found

/-! ### Runs -/

/-- The steps that are enough for what comes of a step. -/
def Turn.effort (p : Program) : Turn → Nat
  | goesOn c => c.effort p
  | ends _ => 0

/-- When a block has been left, the effort for the blocks to come is enough. -/
theorem Turn.effort_leave (acyclic : p.Acyclic) (blocks : List CodeId) (s : Analysis) :
    (leave true blocks s []).effort p ≤ p.effortOfBlocks blocks := by
  cases blocks with
  | nil => exact Nat.zero_le _
  | cons code blocks =>
    show (Place.start code).effort p + 0 + p.effortOfBlocks blocks ≤ _
    rw [Place.effort_start acyclic, Program.effortOfBlocks_cons]
    omega

namespace Analyzer

variable {config : Config} {act : Activation}

/-- With as many steps as there is effort, the end is reached, and it is that of the walk. -/
theorem runs_of_effort (acyclic : p.Acyclic) {steps : Nat} {turn : Turn}
    (enough : turn.effort p ≤ steps) :
    (p.analyzer config).runs act steps turn = .ends (turn.outcome (p.analyzer config) act) := by
  induction steps generalizing turn with
  | zero =>
    cases turn with
    | ends result => rfl
    | goesOn c => exact absurd enough (Nat.not_le_of_lt c.effort_pos)
  | succ steps ih =>
    cases turn with
    | ends result => rfl
    | goesOn c =>
      have step := outcome_next (z := p.analyzer config) (fun _ => rfl)
        (blockWalk_eq act (p.nestsWithin_of_acyclic acyclic)) c
      rw [runs, ih, step]
      · rfl
      · cases goes : (p.analyzer config).next act c with
        | ends result => exact Nat.zero_le _
        | goesOn c' =>
          have less : c'.effort p < c.effort p := (moves_of_next goes).effort_lt acyclic
          exact Nat.le_of_lt_succ (Nat.lt_of_lt_of_le less enough)

/-! ### The analysis of a call -/

/-- The analysis of a call, with its code walked step by step. There is no result if so many steps
are not enough. -/
def analyzeWithin (z : Analyzer) (id : CallId) (steps : Nat) (a : Analysis) :
    Option (Except Fault Unit × Analysis) :=
  match (z.prepare id).outcome a with
  | (.error fault, s) => some (.error fault, s)
  | (.ok none, s) => some (.ok (), s)
  | (.ok (some act), s) =>
    match Machine.blocksOf z.view act.key.clazz act.key.pre with
    | .error e => some (.error (.walk e), s)
    | .ok blocks =>
      match z.runs act steps (.leave true blocks s []) with
      | .goesOn _ => none
      | .ends (.error fault, s) => some (.error fault, s)
      | .ends (.ok ended, s) => some ((markIf id ended).outcome s)

variable {id : CallId} {key : CallKey} {a : Analysis}

/-- Code is walked on behalf of the call that is analysed. -/
theorem key_of_prepare {z : Analyzer} {s : Analysis}
    (prepared : (z.prepare id).outcome a = (.ok (some act), s)) :
    a.store.calls.key? id = some act.key := by
  unfold prepare at prepared
  obtain ⟨_, _, ⟨⟩, prepared⟩ := Attempt.outcome_bind_eq_ok prepared
  obtain ⟨key, called, prepared⟩ := Attempt.outcome_lift_bind_eq_ok prepared
  have known := Store.key?_of_callKey called
  dsimp only at prepared
  split at prepared
  · split at prepared
    · cases prepared
    · obtain ⟨_, _, ⟨⟩, prepared⟩ := Attempt.outcome_bind_eq_ok prepared
      obtain ⟨state, framed, prepared⟩ := Attempt.outcome_lift_bind_eq_ok prepared
      obtain ⟨_, _, -, prepared⟩ := Attempt.outcome_bind_eq_ok prepared
      split at prepared
      · obtain ⟨_, _, -, prepared⟩ := Attempt.outcome_bind_eq_ok prepared
        cases prepared
        exact known
      · cases prepared
        exact known
  · cases prepared

/-- With so many steps the analysis of a call is what it is if it is made as a whole. -/
theorem analyzeWithin_eq (acyclic : p.Acyclic) (known : a.store.calls.key? id = some key)
    {steps : Nat} (enough : p.effortOfCall key ≤ steps) :
    (p.analyzer config).analyzeWithin id steps a =
      some (((p.analyzer config).analyze id).outcome a) := by
  rw [analyze_eq, walkOfCall_eq, bind_assoc, Attempt.outcome_bind]
  unfold analyzeWithin
  rcases prepared : ((p.analyzer config).prepare id).outcome a with ⟨fault | _ | act, s⟩
  · rfl
  · rfl
  · cases known.symm.trans (key_of_prepare prepared)
    dsimp only
    cases found : Machine.blocksOf (p.analyzer config).view act.key.clazz act.key.pre with
    | error e =>
      rw [Machine.walkClazz_eq, found]
      rfl
    | ok blocks =>
      rw [p.effortOfCall_eq found] at enough
      have enough := (Turn.effort_leave acyclic blocks s).trans enough
      have left := Turn.outcome_leave (z := p.analyzer config)
        (blockWalk_eq act (p.nestsWithin_of_acyclic acyclic)) true blocks s []
      -- The steps are enough for the machine to run to the end of all blocks of the call.
      dsimp only
      rw [runs_of_effort acyclic enough, left, walkClazz_eq act found, Fork.restAround, if_pos rfl,
        map_eq_pure_bind]
      simp only [bind_assoc, pure_bind, Attempt.outcome_bind]
      obtain ⟨fault | ended, s'⟩ := ((p.analyzer config).walkBlocks act blocks).outcome s
      · rfl
      · cases ended <;> rfl

/-- The analysis of a call that there is does not fail for blocks that are nested without end. -/
theorem isEndless_of_analyze (hp : p.WellFormed) (acyclic : p.Acyclic)
    (reached : (p.analyzer config).Reaches a) (known : a.store.calls.key? id = some key)
    {fault : Fault} {a' : Analysis}
    (failed : ((p.analyzer config).analyze id).outcome a = (.error fault, a')) :
    fault.isEndless = false := by
  have inv := inv_closed_of_reaches hp reached
  have safe := (AnalysisDiscipline.ofStore (z := p.analyzer config) (StoreDiscipline.closed hp)
    config.reportIntrinsics).safe_analyze (p.intrinsics_analyzer config) (a := a) (b := a)
      ⟨rfl, inv⟩ ((StoreDiscipline.closed hp).goodCall_of_key inv known)
  cases safe with
  | ok run =>
    cases failed.symm.trans run
  | error run _ _ _ allowed =>
    cases failed.symm.trans run
    exact allowed.2 (p.nestsWithin_of_acyclic acyclic)

/-- Wherever an analysis is, the environments of its calls are `Chained`. -/
theorem chained_of_reaches {z : Analyzer} (hz : z.intrinsics = .standard) (reached : z.Reaches a) :
    a.store.Chained :=
  inv_of_reaches hz (StoreDiscipline.chains z.view) trivial (fun h => ⟨h.older, h.calls⟩)
    Store.chained_empty reached

/-- The analysis of a call ends. Let no block of an accepted program contain itself. Wherever the
analysis of the program is, the analysis of a call that there is yields what a machine yields that
knows no depth at which to give up, after so many steps as the text of the program allows for the
call. It never fails because blocks are nested too deep, and the environment of the call has
finitely many nodes to look through. All this does not depend on what is found: the machine makes
only steps which the text of the program admits, and whatever stacks there are and whichever
branches are taken, these soon come to an end and never walk more blocks within each other than
there are. -/
theorem analyze_ends_of_reaches {d : Draft} (built : d.build = .ok p) (acyclic : p.Acyclic)
    (reached : (p.analyzer config).Reaches a) (known : a.store.calls.key? id = some key) :
    let z := p.analyzer config
    (∀ steps, p.effortOfCall key ≤ steps →
        z.analyzeWithin id steps a = some ((z.analyze id).outcome a)) ∧
      (∀ fault a', (z.analyze id).outcome a = (.error fault, a') → fault.isEndless = false) ∧
      (∃ nodes, a.store.Scope key.env nodes ∧ nodes.length ≤ a.store.envs.size) ∧
      (∀ act c c', z.next act c = .goesOn c' → Moves p c c') ∧
      ∀ code blocks, Machine.blocksOf p.view key.clazz key.pre = .ok (code :: blocks) →
        ∀ s courses, (Course.start code blocks s :: courses).IsChain (Moves p) →
          courses.length < p.effortOfCall key ∧
            ∀ c ∈ Course.start code blocks s :: courses, c.depth ≤ p.blocks.length := by
  intro z
  have hp := Draft.wellFormed_of_build built
  have has := Draft.hasCodes_of_build built
  have chained := chained_of_reaches (p.intrinsics_analyzer config) reached
  refine ⟨fun steps => analyzeWithin_eq acyclic known,
    fun fault a' => isEndless_of_analyze hp acyclic reached known, chained.exists_scope known,
    fun act c c' => moves_of_next, fun code blocks found s courses chain => ⟨?_, ?_⟩⟩
  · have few := length_lt_of_isChain_moves acyclic chain
    rw [p.effortOfCall_eq found]
    exact few.trans_le (Turn.effort_leave acyclic (code :: blocks) s)
  · have inTable : ∀ c ∈ code :: blocks, c.index < p.blocks.length := fun _ => has.ofCall found
    exact depth_le_of_isChain_moves acyclic has (Course.nested_start s inTable) chain

/-- A routine matches on a boolean, and in one of the cases there is a condition with the same block
for both of its branches. -/
def stacking : Draft where
  clazzes :=
    [ ("main", some { kind := .routine, code := some ⟨0⟩, postconditions := [⟨3⟩] })
    , ("bool", some { kind := .choice, special := some .bool }) ]
  blocks :=
    [ [ .const ⟨1⟩ [0], .select ⟨⟨1⟩, [⟨[1], none, ⟨2⟩⟩, ⟨[0], none, ⟨1⟩⟩]⟩ ]
    , [.const ⟨1⟩ [1], .cond ⟨2⟩ ⟨2⟩]
    , [.comment "deep down"]
    , [.const ⟨1⟩ [1], .contract .post] ]
  main := some ⟨0⟩

/-- Three of four blocks are walked within each other. -/
theorem analyze_ends_of_reaches_stacking :
    ∃ p, stacking.build = .ok p ∧ p.Acyclic ∧
      let z := p.analyzer {}
      let a := z.afterSweeps 1 {}
      let key : CallKey := ⟨⟨0⟩, false, .unit, [], none⟩
      a.store.calls.key? ⟨0⟩ = some key ∧
        (match z.runs ⟨⟨0⟩, key, ⟨0⟩⟩ 7 (.leave true [⟨0⟩, ⟨3⟩] a []) with
          | .goesOn c => c.depth = 3
          | .ends _ => False) ∧
        z.analyzeWithin ⟨0⟩ 7 a = none ∧ p.effortOfCall key = 30 ∧
        z.analyzeWithin ⟨0⟩ 30 a = some ((z.analyze ⟨0⟩).outcome a) := by
  have built : stacking.build = .ok stacking.toProgram := rfl
  have acyclic : stacking.toProgram.Acyclic := Program.acyclic_of_descends (by decide +kernel)
  have known : ((stacking.toProgram.analyzer {}).afterSweeps 1 {}).store.calls.key? ⟨0⟩ =
      some ⟨⟨0⟩, false, .unit, [], none⟩ := by decide +kernel
  have effort : stacking.toProgram.effortOfCall ⟨⟨0⟩, false, .unit, [], none⟩ = 30 := by
    decide +kernel
  obtain ⟨stepwise, -⟩ := analyze_ends_of_reaches built acyclic (reaches_afterSweeps _ 1) known
  exact ⟨_, built, acyclic, known, rfl, by decide +kernel, effort,
    stepwise 30 (Nat.le_of_eq effort)⟩

end Analyzer

end ClosedWorld
