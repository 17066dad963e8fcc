import ClosedWorld.Proofs.Analysis.Retagging

/-!
# Programs whose analysis has no end

Each feature that first-order programs lack is enough to keep an analysis going for ever. For each
one there is a program with this feature only, whose routine calls itself with more and more of what
the feature makes: values in boxes or under tags, arrays that are allocated for one another, or
nodes on top of one another.

## Main definitions

* `Feature.runaway`: the programs.

## Main statements

* `Program.cascade_wrapping`, `Program.cascade_allocating`, `Program.cascade_installing`,
  `Program.cascade_crossing`: their calls lead to each other without end.
* `Program.outgrows_of_feature`: their analyses outgrow every bound.
-/

namespace ClosedWorld

open Attempt

/-! ### The programs -/

/-- A program whose routine calls itself with what an instruction makes of its target. -/
def Draft.wrapping (instr : Instr) : Draft where
  clazzes := [("main", some { kind := .routine, code := some ⟨0⟩ })]
  blocks := [[.outer, instr, .call (.fixed ⟨0⟩)]]
  main := some ⟨0⟩

/-- A program whose routine calls itself with an array that is allocated for its target. -/
def Draft.allocating : Draft where
  clazzes :=
    [ ("main", some { kind := .routine, code := some ⟨0⟩ })
    , ("fuzion.sys.array.alloc", some { kind := .intrinsic }) ]
  blocks := [[.outer, .call (.fixed ⟨1⟩), .call (.fixed ⟨0⟩)]]
  main := some ⟨0⟩

/-- A program whose routine installs its target as an effect and has itself called under it. -/
def Draft.installing : Draft where
  clazzes :=
    [ ("main", some { kind := .routine, code := some ⟨0⟩ })
    , ("effect.abortable", some
        { kind := .intrinsic, effectType := some ⟨0⟩, args := [⟨3⟩], generics := [⟨2⟩] })
    , ("again", some { kind := .routine, call := some ⟨0⟩, needsCode := false })
    , ("effect.abortable.code", some { kind := .field, outer := some ⟨1⟩, result := some ⟨2⟩ }) ]
  blocks := [[.outer, .outer, .call (.fixed ⟨1⟩)]]
  main := some ⟨0⟩

/-- A program whose routine calls itself with its target after it has gone through the fields of two
choices, each of which is an alternative of the other. -/
def Draft.crossing : Draft where
  clazzes :=
    [ ("main", some { kind := .routine, code := some ⟨0⟩ })
    , ("unit", some { kind := .routine, special := some .unit, needsCode := false })
    , ("left", some { kind := .choice, generics := [⟨3⟩, ⟨1⟩], needsCode := false })
    , ("right", some { kind := .choice, generics := [⟨2⟩, ⟨1⟩], needsCode := false })
    , ("main.left", some { kind := .field, outer := some ⟨0⟩, result := some ⟨2⟩ })
    , ("main.right", some { kind := .field, outer := some ⟨0⟩, result := some ⟨3⟩ }) ]
  blocks :=
    [[ .current, .current, .outer, .assign (.fixed ⟨4⟩), .current, .call (.fixed ⟨4⟩)
     , .assign (.fixed ⟨5⟩), .current, .call (.fixed ⟨5⟩), .call (.fixed ⟨0⟩) ]]
  main := some ⟨0⟩

/-- The call of a clazz without arguments, outside of all effects. -/
def CallKey.plain (clazz : ClazzId) (target : Value) : CallKey :=
  { clazz, pre := false, target, args := [], env := none }

/-- Two such calls of one clazz are equal if their targets are, and only then. -/
theorem CallKey.plain_inj {clazz : ClazzId} {v w : Value} :
    plain clazz v = plain clazz w ↔ v = w := by
  unfold plain
  simp

namespace Program

variable {a : Analysis} {config : Config}

/-! ### Values in values -/

/-- The routine of `Draft.wrapping` is nothing but its block. -/
theorem isBlock_wrapping (instr : Instr) : (Draft.wrapping instr).toProgram.IsBlock ⟨0⟩ ⟨0⟩ :=
  ⟨rfl, rfl, rfl, rfl, rfl, rfl, rfl, rfl⟩

/-- An instruction that wraps values keeps the analysis going. -/
theorem cascade_wrapping (instr : Instr) (wrap : Value → Value) (Plain : Value → Prop)
    (unit : Plain .unit) (plain : ∀ {v}, Plain v → Plain (wrap v))
    (deeper : ∀ v, v.depth < (wrap v).depth)
    (wraps : ∀ {config act nested site v a}, Plain v →
      (walkInstr (Draft.wrapping instr).toProgram.view
        (((Draft.wrapping instr).toProgram.analyzer config).processor act) nested site instr
        [v]).outcome a = (.ok ⟨(), some [wrap v]⟩, a)) :
    (Draft.wrapping instr).toProgram.Cascade (fun key => ∃ v, Plain v ∧ key = .plain ⟨0⟩ v)
      (fun _ => True) (fun _ key key' => key' = .plain ⟨0⟩ (wrap key.target)) where
  expected_main := ⟨.unit, unit, rfl⟩
  link_main := trivial
  analyze config a id key _ expected known := by
    obtain ⟨v, hv, rfl⟩ := expected key (Interned.mem_keys.2 ⟨id, known⟩)
    have next : ((Draft.wrapping instr).toProgram.analyzer config).analyze id |>.Attains a
        fun _ a' => ∃ new, a.store.Adds new a'.store ∧ new = [.plain ⟨0⟩ (wrap v)] := by
      refine Analyzer.attains_analyze known rfl rfl (isBlock_wrapping instr) ?_ fun state _ => ?_
      · exact fun _ same => same
      refine .instr rfl fun nested => ⟨_, a, rfl, ?_⟩
      refine .instr rfl fun nested => ⟨_, a, wraps hv, ?_⟩
      exact .tailCall rfl rfl (isBlock_wrapping instr) known fun a' adds => ⟨_, adds, rfl⟩
    refine next.mono ?_
    rintro _ a' ⟨_, adds, rfl⟩
    refine ⟨_, adds, ?_, fun _ => ⟨_, List.mem_cons_self, trivial, rfl⟩⟩
    exact List.forall_mem_singleton.2 ⟨_, plain hv, rfl⟩
  next_of_adds _ next := next
  not_closed s keys := by
    refine not_closed_of_levels (fun k key => k ≤ key.target.depth) (fun key => key.target.depth)
      (Nat.zero_le _) ?_ id
    rintro k key _ rfl deep
    exact Nat.lt_of_le_of_lt deep (deeper key.target)

/-- The unit value and boxes are put into boxes as they are. -/
theorem walkInstr_box {config : Config} {act : Activation} {site : Site} {v : Value}
    {nested : BlockWalk Fault Analysis Value Unit}
    (plain : v = .unit ∨ ∃ w, v = .boxed w ⟨0⟩ ⟨0⟩) :
    (walkInstr (Draft.wrapping (.box ⟨0⟩ ⟨0⟩)).toProgram.view
      (((Draft.wrapping (.box ⟨0⟩ ⟨0⟩)).toProgram.analyzer config).processor act) nested site
      (.box ⟨0⟩ ⟨0⟩) [v]).outcome a = (.ok ⟨(), some [.boxed v ⟨0⟩ ⟨0⟩]⟩, a) := by
  have boxed : (boxValue v ⟨0⟩ ⟨0⟩).outcome a.store = (.ok (.boxed v ⟨0⟩ ⟨0⟩), a.store) := by
    rw [← Value.noValue_join (.boxed v ⟨0⟩ ⟨0⟩)]
    obtain rfl | ⟨w, rfl⟩ := plain <;> rfl
  have put : (onStore (boxValue v ⟨0⟩ ⟨0⟩)).outcome a = (.ok (.boxed v ⟨0⟩ ⟨0⟩), a) := by
    unfold onStore
    rw [outcome_within, boxed]
  show (Progress.pushing [] <$> do
    return answer (some (← onStore (boxValue v ⟨0⟩ ⟨0⟩)))).outcome a = _
  rw [outcome_map, outcome_bind, put]
  rfl

/-! ### Arrays -/

/-- The routine of `Draft.allocating` is nothing but its block. -/
theorem isBlock_allocating : Draft.allocating.toProgram.IsBlock ⟨0⟩ ⟨0⟩ :=
  ⟨rfl, rfl, rfl, rfl, rfl, rfl, rfl, rfl⟩

/-- In `Draft.allocating`, the second clazz means `Handler.arrayAlloc`. -/
theorem hasMeaning_allocating : Draft.allocating.toProgram.HasMeaning ⟨1⟩ Handler.arrayAlloc :=
  ⟨rfl, rfl, rfl, IntrinsicTable.find?_standard (by decide) rfl⟩

/-- The array is allocated for the value. -/
def AllocatedFor (v w : Value) (s : Store) : Prop :=
  ∃ array call, w = .array array ∧ s.arrays.key? array = some (.alloc call) ∧
    s.calls.key? call = some (.plain ⟨1⟩ v)

/-- An array stays allocated for its value when calls are added. -/
theorem AllocatedFor.of_adds {v w : Value} {s t : Store} {new : List CallKey} (adds : s.Adds new t)
    (h : AllocatedFor v w s) : AllocatedFor v w t := by
  obtain ⟨array, call, rfl, allocated, called⟩ := h
  exact ⟨array, call, rfl, adds.arrays _ _ allocated, adds.calls _ _ called⟩

/-- Arrays that are allocated for different values are different. -/
theorem AllocatedFor.injective {v v' w : Value} {s : Store} (h : AllocatedFor v w s)
    (h' : AllocatedFor v' w s) : v = v' := by
  obtain ⟨array, call, rfl, allocated, called⟩ := h
  obtain ⟨array', call', same, allocated', called'⟩ := h'
  obtain rfl : array = array' := Value.array.inj same
  have key : some (ArrayKey.alloc call) = some (.alloc call') := allocated.symm.trans allocated'
  obtain rfl : call = call' := ArrayKey.alloc.inj (Option.some.inj key)
  exact CallKey.plain_inj.1 (Option.some.inj (called.symm.trans called'))

/-- The call that `Draft.allocating` makes for the target `v` yields an array that is allocated for
`v`. -/
theorem attains_call_allocating {act : Activation} {site : Site} {v : Value}
    (known : a.store.calls.key? act.call = some (.plain ⟨0⟩ v)) (outside : act.key.env = none) :
    ((Draft.allocating.toProgram.analyzer config).call act site (.fixed ⟨1⟩) v []).Attains a
      fun result a' => ∃ w, result = some w ∧ a.store.Adds [.plain ⟨1⟩ v] a'.store ∧
        AllocatedFor v w a'.store := by
  have called : Analyzer.keyFor act ⟨1⟩ v [] = .plain ⟨1⟩ v := by
    unfold Analyzer.keyFor
    rw [outside]
    rfl
  refine (Analyzer.attains_call_intrinsic known hasMeaning_allocating
    (fun new w b => new = [] ∧ AllocatedFor v w b.store)
    (fun adds holds => ⟨holds.1, holds.2.of_adds adds⟩) fun id a' made => ?_).mono ?_
  · rw [called] at made
    refine (Analyzer.attains_arrayAlloc _ id).mono ?_
    rintro _ a'' ⟨array, rfl, adds, allocated⟩
    exact ⟨[], _, rfl, nofun, adds, rfl, array, id, rfl, allocated, adds.calls _ _ made⟩
  · rintro _ a' ⟨_, w, rfl, adds, rfl, allocated⟩
    rw [called] at adds
    exact ⟨w, rfl, adds, allocated⟩

/-- The calls of `Draft.allocating` lead to each other without end: each one passes on an array that
is allocated for what it is called with. -/
theorem cascade_allocating :
    Draft.allocating.toProgram.Cascade (fun key => ∃ v, key = .plain ⟨0⟩ v ∨ key = .plain ⟨1⟩ v)
      (fun key => ∃ v, key = .plain ⟨0⟩ v)
      (fun s key key' => ∃ v w, key = .plain ⟨0⟩ v ∧ key' = .plain ⟨0⟩ w ∧ AllocatedFor v w s) := by
  refine cascade_of_injective .unit rfl (fun _ _ => CallKey.plain_inj.1) nofun ?_ ?_
    AllocatedFor.of_adds AllocatedFor.injective nofun
  · intro config a id v known
    refine Analyzer.attains_analyze known rfl rfl isBlock_allocating ?_ fun state _ => ?_
    · exact fun adds ⟨w, same, allocated⟩ => ⟨w, same, allocated.of_adds adds⟩
    refine .instr rfl fun nested => ⟨_, a, rfl, ?_⟩
    refine .call [] rfl rfl ((attains_call_allocating known rfl).mono ?_)
    rintro _ a' ⟨w, rfl, adds, allocated⟩
    refine .tailCall rfl rfl isBlock_allocating (adds.calls _ _ known) fun a'' adds' => ?_
    exact ⟨_, adds.trans adds', w, rfl, allocated.of_adds adds'⟩
  · intro config a id v known
    exact Analyzer.attains_analyze_of_ne known rfl (show FeatureKind.intrinsic ≠ .routine by decide)

/-! ### Nodes -/

/-- The routine of `Draft.installing` is nothing but its block. -/
theorem isBlock_installing : Draft.installing.toProgram.IsBlock ⟨0⟩ ⟨0⟩ :=
  ⟨rfl, rfl, rfl, rfl, rfl, rfl, rfl, rfl⟩

/-- In `Draft.installing`, the second clazz means `Handler.effectAbortable`. -/
theorem hasMeaning_installing : Draft.installing.toProgram.HasMeaning ⟨1⟩ Handler.effectAbortable :=
  ⟨rfl, rfl, rfl, IntrinsicTable.find?_standard (by decide) rfl⟩

/-- The call of the routine in an environment. -/
def again (env : Option EnvId) : CallKey :=
  { clazz := ⟨0⟩, pre := false, target := .unit, args := [], env }

/-- The call that installs an effect in an environment. -/
def install (env : Option EnvId) : CallKey :=
  { clazz := ⟨1⟩, pre := false, target := .unit, args := [.unit], env }

/-- The environment is made by installing an effect on top of the other one. -/
def InstalledOn (outer env : Option EnvId) (s : Store) : Prop :=
  ∃ id key, env = some id ∧ s.envs.key? id = some key ∧ key.outer = outer

/-- A node stays installed on top of another one when calls are added. -/
theorem InstalledOn.of_adds {outer env : Option EnvId} {s t : Store} {new : List CallKey}
    (adds : s.Adds new t) (h : InstalledOn outer env s) : InstalledOn outer env t := by
  obtain ⟨id, key, rfl, known, rfl⟩ := h
  exact ⟨id, key, rfl, adds.envs _ _ known, rfl⟩

/-- A node is installed on top of one other node only. -/
theorem InstalledOn.injective {outer outer' env : Option EnvId} {s : Store}
    (h : InstalledOn outer env s) (h' : InstalledOn outer' env s) : outer = outer' := by
  obtain ⟨id, key, rfl, known, rfl⟩ := h
  obtain ⟨_, key', ⟨⟩, known', rfl⟩ := h'
  rw [Option.some.inj (known.symm.trans known')]

/-- The call that `Draft.installing` makes under `env` has the routine called again, under a node
that is installed on top of `env`. -/
theorem attains_call_installing {act : Activation} {site : Site} {env : Option EnvId}
    (known : a.store.calls.key? act.call = some (again env)) (inside : act.key.env = env) :
    ((Draft.installing.toProgram.analyzer config).call act site (.fixed ⟨1⟩) .unit
      [.unit]).Attains a fun result a' => ∃ v env', result = some v ∧
        a.store.Adds [install env, again env'] a'.store ∧ InstalledOn env env' a'.store := by
  have called : Analyzer.keyFor act ⟨1⟩ .unit [.unit] = install env := by
    unfold Analyzer.keyFor
    rw [inside]
    rfl
  refine (Analyzer.attains_call_intrinsic known hasMeaning_installing
    (fun new _ b => ∃ env', new = [again env'] ∧ InstalledOn env env' b.store)
    (fun adds ⟨env', same, installed⟩ => ⟨env', same, installed.of_adds adds⟩)
    fun id a' made => ?_).mono ?_
  · rw [called] at made
    refine (Analyzer.attains_effectAbortable made rfl rfl rfl rfl).mono ?_
    rintro _ a'' ⟨rfl, env', adds, installed⟩
    exact ⟨_, .unit, rfl, nofun, adds, some env', rfl, env', _, rfl, installed, rfl⟩
  · rintro _ a' ⟨_, v, rfl, adds, env', rfl, installed⟩
    rw [called] at adds
    exact ⟨v, env', rfl, adds, installed⟩

/-- The calls of `Draft.installing` lead to each other without end: each one is followed by a call
under one more node. -/
theorem cascade_installing :
    Draft.installing.toProgram.Cascade (fun key => ∃ env, key = again env ∨ key = install env)
      (fun key => ∃ env, key = again env)
      (fun s key key' => ∃ env env', key = again env ∧ key' = again env' ∧
        InstalledOn env env' s) := by
  refine cascade_of_injective none rfl (fun _ _ same => (CallKey.mk.inj same).2.2.2.2)
    nofun ?_ ?_ InstalledOn.of_adds InstalledOn.injective nofun
  · intro config a id env known
    refine Analyzer.attains_analyze known rfl rfl isBlock_installing ?_ fun state _ => ?_
    · exact fun adds ⟨env', same, installed⟩ => ⟨env', same, installed.of_adds adds⟩
    refine .instr rfl fun nested => ⟨_, a, rfl, ?_⟩
    refine .instr rfl fun nested => ⟨_, a, rfl, ?_⟩
    refine .call [.unit] rfl rfl ((attains_call_installing known rfl).mono ?_)
    rintro _ a' ⟨v, env', rfl, adds, installed⟩
    exact .finish rfl ⟨_, adds, env', rfl, installed⟩
  · intro config a id env known
    exact Analyzer.attains_analyze_of_ne known rfl (show FeatureKind.intrinsic ≠ .routine by decide)

/-! ### Fields of choice types -/

/-- The routine of `Draft.crossing` is nothing but its block. -/
theorem isBlock_crossing : Draft.crossing.toProgram.IsBlock ⟨0⟩ ⟨0⟩ :=
  ⟨rfl, rfl, rfl, rfl, rfl, rfl, rfl, rfl⟩

/-- The first field of `Draft.crossing` has the left choice for its type. -/
theorem isChoiceField_left : Draft.crossing.toProgram.IsChoiceField ⟨4⟩ ⟨2⟩ where
  toIsField := ⟨rfl, rfl, rfl, rfl, rfl⟩
  occurs := .inl (by decide)
  typed := rfl
  isChoice := rfl
  notBool := rfl

/-- The second field of `Draft.crossing` has the right choice for its type. -/
theorem isChoiceField_right : Draft.crossing.toProgram.IsChoiceField ⟨5⟩ ⟨3⟩ where
  toIsField := ⟨rfl, rfl, rfl, rfl, rfl⟩
  occurs := .inl (by decide)
  typed := rfl
  isChoice := rfl
  notBool := rfl

/-- The choices of a value that has gone through both fields so many times. -/
def crossings : Nat → List ClazzId
  | 0 => []
  | k + 1 => ⟨3⟩ :: ⟨2⟩ :: crossings k

/-- There are at least `k` tags in the `k`-th list of `crossings`. -/
theorem le_length_crossings (k : Nat) : k ≤ (crossings k).length := by
  induction k with
  | zero => exact Nat.le_refl _
  | succ k ih => exact Nat.le_succ_of_le (Nat.succ_le_succ ih)

/-- A value that has crossed `k` times is tagged for the left choice next. -/
theorem tagsNext_left (config : Config) (k : Nat) :
    (Draft.crossing.toProgram.analyzer config).TagsNext ⟨2⟩ (crossings k) := by
  cases k <;> exact ⟨nofun, nofun⟩

/-- A value that has just been tagged for the left choice is tagged for the right one next. -/
theorem tagsNext_right (config : Config) (choices : List ClazzId) :
    (Draft.crossing.toProgram.analyzer config).TagsNext ⟨3⟩ (⟨2⟩ :: choices) :=
  ⟨nofun, nofun⟩

/-- The calls of `Draft.crossing` lead to each other without end: with each one, what the target
reaches lies one crossing deeper. -/
theorem cascade_crossing (hp : Draft.crossing.toProgram.WellFormed) :
    Draft.crossing.toProgram.Cascade
      (fun key => ∃ v k, key = .plain ⟨0⟩ v ∧ v.Reaches (crossings k))
      (fun _ => True)
      (fun _ key key' => ∀ k, key.target.Reaches (crossings k) →
        key'.target.Reaches (crossings (k + 1))) where
  expected_main := ⟨.unit, 0, rfl, List.mem_singleton_self _⟩
  link_main := trivial
  analyze config a id key sound expected known := by
    obtain ⟨v, k, rfl, reaches⟩ := expected key (Interned.mem_keys.2 ⟨id, known⟩)
    have next : (Draft.crossing.toProgram.analyzer config).analyze id |>.Attains a
        fun _ a' => ∃ new, a.store.Adds new a'.store ∧ ∃ w, new = [.plain ⟨0⟩ w] ∧
          ∀ k, v.Reaches (crossings k) → w.Reaches (crossings (k + 1)) := by
      refine Analyzer.attains_analyze known rfl rfl isBlock_crossing ?_ fun state held => ?_
      · exact fun _ holds => holds
      have inside := sound.frame held
      -- The frame is pushed twice and then the target, which goes through the field of one choice
      -- and through that of the other. The call is made with what comes out of them.
      refine .instr rfl fun nested => ⟨_, a, rfl, ?_⟩
      refine .instr rfl fun nested => ⟨_, a, rfl, ?_⟩
      refine .instr rfl fun nested => ⟨_, a, rfl, ?_⟩
      refine .passing hp sound isChoiceField_left inside (sound.target known)
        (tagsNext_left config k) reaches rfl rfl rfl fun x b adds soundb hx left => ?_
      refine .passing hp soundb isChoiceField_right (adds.instances.has inside) hx
        (tagsNext_right config _) (left _ (tagsNext_left config k) reaches) rfl rfl rfl
        fun w c adds' soundc hw right => ?_
      refine .tailCall rfl rfl isBlock_crossing (adds'.calls _ _ (adds.calls _ _ known))
        fun d adds'' => ⟨_, (adds.trans adds').trans adds'', w, rfl, fun k reaches => ?_⟩
      exact right _ (tagsNext_right config _) (left _ (tagsNext_left config k) reaches)
    refine next.mono ?_
    rintro _ a' ⟨_, adds, w, rfl, deeper⟩
    refine ⟨_, adds, ?_, fun _ => ⟨_, List.mem_cons_self, trivial, deeper⟩⟩
    exact List.forall_mem_singleton.2 ⟨w, k + 1, rfl, deeper k reaches⟩
  next_of_adds _ next := next
  not_closed s keys := by
    -- The depth of a value bounds how many crossings it can reach.
    refine not_closed_of_levels (fun k key => key.target.Reaches (crossings k))
      (fun key => key.target.depth) (List.mem_singleton_self _) (fun next => next _) ?_
    exact fun {k key} reaches => Nat.le_trans (le_length_crossings k) reaches.length_le_depth

end Program

/-! ### All of them -/

/-- A program that has the feature and whose analysis has no end. -/
def Feature.runaway : Feature → Draft
  | .box => .wrapping (.box ⟨0⟩ ⟨0⟩)
  | .tag => .wrapping (.tag ⟨0⟩ ⟨0⟩ 0)
  | .choice => .crossing
  | .alloc => .allocating
  | .abortable => .installing

/-- The program for each feature is accepted. -/
theorem Feature.build_runaway (feature : Feature) :
    feature.runaway.build = .ok feature.runaway.toProgram := by
  cases feature <;> rfl

/-- The analysis of the program for each feature outgrows every bound. -/
theorem Program.outgrows_of_feature (feature : Feature) : feature.runaway.toProgram.Outgrows := by
  have hp := Draft.wellFormed_of_build feature.build_runaway
  cases feature with
  | box =>
    refine (cascade_wrapping _ (.boxed · ⟨0⟩ ⟨0⟩) (fun v => v = .unit ∨ ∃ w, v = .boxed w ⟨0⟩ ⟨0⟩)
      (.inl rfl) (fun _ => .inr ⟨_, rfl⟩) (fun v => Nat.lt_succ_self v.depth) ?_).outgrows hp
    exact walkInstr_box
  | tag =>
    exact (cascade_wrapping _ (.tagged · ⟨0⟩ 0) (fun _ => True) trivial (fun _ => trivial)
      (fun v => Nat.lt_succ_self v.depth) fun _ => rfl).outgrows hp
  | choice => exact (cascade_crossing hp).outgrows hp
  | alloc => exact cascade_allocating.outgrows hp
  | abortable => exact cascade_installing.outgrows hp

end ClosedWorld
