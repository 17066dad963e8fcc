import ClosedWorld.Proofs.Program
import ClosedWorld.Proofs.Store.Changes

/-!
# Straight code that does not fail

A discipline tells how an analysis may fail. Of straight code, in which nothing branches, it can be
told instruction by instruction that it does not fail, and which calls the store has after it.

## Main definitions

* `Attempt.Attains`: a step that succeeds and leads to what is wanted.
* `Store.Adds`: a store has certain calls besides those of another one.
* `Analyzer.Continues`: the rest of a block is walked and leads to what is wanted.

## Main statements

* `Analyzer.attains_call_block`, `Analyzer.attains_call_intrinsic`: what calls add to a store.
* `Analyzer.Continues.instr` and the others: the next instruction of a block.
* `Analyzer.attains_analyze`: the analysis of a routine that is nothing but its block.
-/

namespace ClosedWorld

/-! ### Steps that succeed -/

namespace Attempt

variable {ε σ τ α β : Type} {mid : α → σ → Prop} {post : β → σ → Prop} {a : σ}

/-- The step succeeds, and what is wanted holds of what it yields and of the state that it leaves.
-/
def Attains (step : Attempt ε σ α) (a : σ) (post : α → σ → Prop) : Prop :=
  ∃ x a', step.outcome a = (.ok x, a') ∧ post x a'

/-- A step that attains `mid`, followed by one that attains `post` from there, attains `post`. -/
theorem Attains.bind {step : Attempt ε σ α} {next : α → Attempt ε σ β} (h : step.Attains a mid)
    (hn : ∀ x a', mid x a' → (next x).Attains a' post) : (step >>= next).Attains a post := by
  obtain ⟨x, a', run, holds⟩ := h
  obtain ⟨y, a'', run', holds'⟩ := hn x a' holds
  refine ⟨y, a'', ?_, holds'⟩
  rw [outcome_bind, run]
  exact run'

/-- A step attains whatever follows from what it attains. -/
theorem Attains.mono {step : Attempt ε σ β} {post' : β → σ → Prop} (h : step.Attains a post)
    (hp : ∀ x a', post x a' → post' x a') : step.Attains a post' := by
  obtain ⟨x, a', run, holds⟩ := h
  exact ⟨x, a', run, hp x a' holds⟩

/-- A step that does nothing but give `x` attains what holds of `x` in the state as it is. -/
theorem attains_pure {x : β} (h : post x a) : (pure x : Attempt ε σ β).Attains a post :=
  ⟨x, a, rfl, h⟩

/-- A result that was computed without the state, and what is done with it. -/
theorem attains_lift_bind {r : Except ε α} {x : α} {next : α → Attempt ε σ β} (found : r = .ok x)
    (h : (next x).Attains a post) : ((liftM r : Attempt ε σ α) >>= next).Attains a post := by
  obtain ⟨y, a', run, holds⟩ := h
  refine ⟨y, a', ?_, holds⟩
  rw [outcome_bind, found]
  exact run

end Attempt

open Attempt

variable {α : Type} {a : Analysis}

/-- Looking at the current store changes nothing, so what follows may be looked at with `a.store`.
-/
theorem attains_currentStore_bind {next : Store → Analyzing α} {post : α → Analysis → Prop}
    (h : (next a.store).Attains a post) : (currentStore >>= next).Attains a post := by
  obtain ⟨y, a', run, holds⟩ := h
  exact ⟨y, a', by rw [outcome_bind]; exact run, holds⟩

/-- A step on the store attains in the analysis what it attains in the store. -/
theorem attains_onStore {step : Updating α} {post : α → Store → Prop}
    (h : step.Attains a.store post) : (onStore step).Attains a fun x a' => post x a'.store := by
  obtain ⟨x, s, run, holds⟩ := h
  refine ⟨x, { a with store := s }, ?_, holds⟩
  unfold onStore
  rw [outcome_within, run]

/-! ### Calls that become known -/

namespace Store

/-- All identifiers keep their keys, and the calls of the second store are those of the first one
and the given ones. -/
structure Adds (new : List CallKey) (s t : Store) : Prop where
  instances : s.instances.KeepsKeys t.instances
  calls : s.calls.KeepsKeys t.calls
  envs : s.envs.KeepsKeys t.envs
  arrays : s.arrays.KeepsKeys t.arrays
  mem : ∀ key ∈ new, key ∈ t.calls.keys
  mem_or_mem : ∀ key ∈ t.calls.keys, key ∈ new ∨ key ∈ s.calls.keys

variable {s t u : Store} {new new' : List CallKey}

/-- Where nothing happens, no call is added. -/
theorem Adds.refl (s : Store) : s.Adds [] s where
  instances := Interned.keepsKeys_refl _
  calls := Interned.keepsKeys_refl _
  envs := Interned.keepsKeys_refl _
  arrays := Interned.keepsKeys_refl _
  mem := List.forall_mem_nil _
  mem_or_mem _ known := .inr known

/-- No key of a call is lost when calls are added. -/
theorem Adds.keys_subset (h : s.Adds new t) : s.calls.keys ⊆ t.calls.keys := by
  intro key known
  obtain ⟨id, known⟩ := Interned.mem_keys.1 known
  exact Interned.mem_keys.2 ⟨id, h.calls id key known⟩

/-- Calls that are added one after the other are added together. -/
theorem Adds.trans (h : s.Adds new t) (h' : t.Adds new' u) : s.Adds (new ++ new') u where
  instances := h.instances.trans h'.instances
  calls := h.calls.trans h'.calls
  envs := h.envs.trans h'.envs
  arrays := h.arrays.trans h'.arrays
  mem key known := (List.mem_append.1 known).elim (fun known => h'.keys_subset (h.mem key known))
    (h'.mem key)
  mem_or_mem key known := by
    obtain added | known := h'.mem_or_mem key known
    · exact .inl (List.mem_append_right _ added)
    · exact (h.mem_or_mem key known).imp_left (List.mem_append_left _)

/-- Entering a call in the table adds this call. -/
theorem adds_addCall (s : Store) (key : CallKey) (frame : InstanceId) (origin : Option CallId) :
    s.Adds [key] (s.addCall key frame origin) := by
  refine { Adds.refl s with
    calls := Interned.keepsKeys_push _ _ _
    mem := List.forall_mem_singleton.2 (Interned.mem_keys_push ..)
    mem_or_mem := fun key' known => ?_ }
  obtain ⟨id, known⟩ := Interned.mem_keys.1 known
  have known : (s.calls.push key ⟨frame, false, origin⟩).key? id = some key' := known
  rw [Interned.key?_push] at known
  split at known
  · cases known
    exact .inl List.mem_cons_self
  · exact .inr (Interned.mem_keys.2 ⟨id, known⟩)

/-- Interning a call adds it, known or not, and gives the id under which its key is found. -/
theorem adds_internCall (s : Store) (key : CallKey) (context : Option ClazzId)
    (origin : Option CallId) :
    s.Adds [key] ((internCall key context origin).run s).2 ∧
      ((internCall key context origin).run s).2.calls.key?
        ((internCall key context origin).run s).1 = some key := by
  obtain ⟨id, known, run⟩ | ⟨-, run⟩ := s.internCall_cases key context origin
  · rw [run]
    have known := Interned.key?_of_idOf? known
    have listed := Interned.mem_keys.2 ⟨id, known⟩
    exact ⟨{ Adds.refl s with
      mem := List.forall_mem_singleton.2 listed
      mem_or_mem := fun _ => .inr }, known⟩
  · rw [run]
    have framed : s.Adds [] ((internInstance key.clazz context).run s).2 := by
      obtain ⟨id, -, run⟩ | ⟨-, run⟩ := s.internInstance_cases key.clazz context <;> rw [run]
      · exact .refl s
      · exact { Adds.refl s with instances := Interned.keepsKeys_push _ _ _ }
    rw [← s.calls_internInstance key.clazz context]
    generalize ((internInstance key.clazz context).run s).1 = frame
    generalize ((internInstance key.clazz context).run s).2 = t at framed
    exact ⟨framed.trans (t.adds_addCall key frame origin), Interned.key?_push_nextId ..⟩

/-- Marking a known call adds no call. -/
theorem attains_markReturns {id : CallId} {key : CallKey} (known : s.calls.key? id = some key) :
    (markReturns id).Attains s fun _ t => s.Adds [] t := by
  obtain ⟨state, held⟩ := Interned.exists_state?_of_key? known
  obtain ⟨unknown, -⟩ | ⟨state, held, ⟨-, run⟩ | ⟨-, run⟩⟩ := s.markReturns_cases id
  · cases held.symm.trans unknown
  · exact ⟨(), _, run, .refl s⟩
  · refine ⟨(), _, run, { Adds.refl s with
      calls := Interned.keepsKeys_set _ _ _
      mem := List.forall_mem_nil _
      mem_or_mem := fun key known => .inr ?_ }⟩
    have known : key ∈ (s.calls.set id { state with returns := true }).keys := known
    rwa [Interned.keys_set] at known

/-- Interning an array adds no call, and gives the id under which its key is found. -/
theorem adds_internArray (s : Store) (key : ArrayKey) :
    s.Adds [] ((internArray key).run s).2 ∧
      ((internArray key).run s).2.arrays.key? ((internArray key).run s).1 = some key := by
  obtain ⟨id, known, run⟩ | ⟨-, run⟩ := s.internArray_cases key
  · rw [run]
    exact ⟨.refl s, Interned.key?_of_idOf? known⟩
  · rw [run]
    exact ⟨{ Adds.refl s with arrays := Interned.keepsKeys_push _ _ _ },
      Interned.key?_push_nextId ..⟩

/-- Extending an environment adds no call, and gives a node with the `effect` and `value` on top of
`outer`. -/
theorem adds_extendEnv (s : Store) (outer : Option EnvId) (effect : ClazzId) (value : Value) :
    s.Adds [] ((extendEnv outer effect value).run s).2 ∧
      ((extendEnv outer effect value).run s).2.envs.key? ((extendEnv outer effect value).run s).1 =
        some ⟨outer, effect, value⟩ := by
  obtain ⟨id, known, run⟩ | ⟨-, run⟩ := s.extendEnv_cases outer effect value
  · rw [run]
    exact ⟨.refl s, Interned.key?_of_idOf? known⟩
  · rw [run]
    exact ⟨{ Adds.refl s with envs := Interned.keepsKeys_push _ _ _ }, Interned.key?_push_nextId ..⟩

end Store

namespace Analyzer

variable {z : Analyzer} {key creator : CallKey}

/-- The call is made, and no other one. -/
theorem attains_newCall {origin : CallId} (known : a.store.calls.key? origin = some creator)
    (key : CallKey) : (z.newCall key origin).Attains a fun id a' =>
      a.store.Adds [key] a'.store ∧ a'.store.calls.key? id = some key := by
  have found : a.store.callKey origin = .ok creator := by
    unfold Store.callKey
    rw [known]
  obtain ⟨adds, made⟩ := a.store.adds_internCall key (z.contextOf creator.clazz) (some origin)
  unfold Setting.newCall
  refine attains_currentStore_bind (attains_lift_bind found ?_)
  exact ⟨_, { a with store := _, edges := _ }, rfl, adds, made⟩

/-- A statically bound call of something without a precondition is made at once. -/
theorem call_fixed {clazz : ClazzId} (act : Activation) (site : Site) (target : Value)
    (args : List Value) (needed : (z.view.info clazz).needsCode = true)
    (unchecked : z.view.hasPrecondition clazz = false) :
    z.call act site (.fixed clazz) target args = z.callOne act site target args clazz := by
  have unchecked : z.view.hasPrecondition (Access.fixed clazz).accessed = false := unchecked
  have needed : (z.view.info (Access.fixed clazz).accessed).needsCode = true := needed
  unfold call
  rw [unchecked]
  show z.access act site (.fixed clazz) target (.call args) = _
  unfold access
  rw [needed]
  rfl

/-- The call of an intrinsic that produces something returns. -/
theorem attains_intrinsicResult {clazz : ClazzId} {meaning : Handler} {id : CallId}
    (known : a.store.calls.key? id = some key)
    (found : z.intrinsics.find? (z.intrinsicName clazz) = some (.handler meaning))
    {post : List CallKey → Value → Analysis → Prop}
    (lasting : ∀ {new v b c}, b.store.Adds [] c.store → post new v b → post new v c)
    (produces : (meaning z.toSetting id).Attains a fun result a' => ∃ new v, result = some v ∧
      v ≠ .noValue ∧ a.store.Adds new a'.store ∧ post new v a') :
    (z.intrinsicResult id clazz).Attains a fun result a' => ∃ new v, result = some v ∧
      v ≠ .noValue ∧ a.store.Adds new a'.store ∧ post new v a' := by
  unfold intrinsicResult
  dsimp only
  rw [found]
  refine produces.bind ?_
  rintro _ b ⟨new, v, rfl, there, adds, holds⟩
  have marked := attains_onStore (a := b) (Store.attains_markReturns (adds.calls id _ known))
  refine marked.bind fun _ b' kept => attains_pure ⟨new, v, rfl, there, ?_, lasting kept holds⟩
  simpa using adds.trans kept

end Analyzer

/-- The clazz is a routine that takes and produces nothing, and its code is a single block. -/
structure Program.IsBlock (p : Program) (clazz : ClazzId) (code : CodeId) : Prop where
  kind : (p.info clazz).kind = .routine
  needed : (p.info clazz).needsCode = true
  args : (p.info clazz).args = []
  result : (p.info clazz).result = none
  outerRef : (p.info clazz).outerRef = none
  code : (p.info clazz).code = some code
  unchecked : p.hasPrecondition clazz = false
  postconditions : (p.info clazz).postconditions = []

/-- The clazz stands for an intrinsic of the standard library that has this meaning. -/
structure Program.HasMeaning (p : Program) (clazz : ClazzId) (meaning : Handler) : Prop where
  kind : (p.info clazz).kind = .intrinsic
  needed : (p.info clazz).needsCode = true
  unchecked : p.hasPrecondition clazz = false
  found : IntrinsicTable.standard.find? ((p.info clazz).intrinsic.getD (p.name clazz)) =
    some (.handler meaning)

/-- The clazz is a field that there is something to write to. -/
structure Program.IsField (p : Program) (field : ClazzId) : Prop where
  kind : (p.info field).kind = .field
  needed : (p.info field).needsCode = true
  args : (p.info field).args = []
  unchecked : p.hasPrecondition field = false
  notUnit : p.resultIsUnit field = false

namespace Analyzer

variable {p : Program} {config : Config} {key creator : CallKey} {act : Activation} {code : CodeId}
  {index : Nat} {site : Site} {stack args : List Value} {target : Value} {clazz : ClazzId}
  {meaning : Handler}

/-- The key of the call that is made on behalf of an activation. -/
def keyFor (act : Activation) (clazz : ClazzId) (target : Value) (args : List Value) : CallKey :=
  { clazz, pre := false, target, args, env := act.key.env }

/-- The key of a known call can be looked up without a failure. -/
theorem callKey_of_key? {s : Store} {id : CallId} (known : s.calls.key? id = some key) :
    s.callKey id = .ok key := by
  unfold Store.callKey
  rw [known]

/-- The state of a known call can be looked up without a failure. -/
theorem callState_of_state? {s : Store} {id : CallId} {state : CallState}
    (held : s.calls.state? id = some state) : s.callState id = .ok state := by
  unfold Store.callState
  rw [held]

/-- An array is allocated for the call. -/
theorem attains_arrayAlloc (g : Setting) (id : CallId) :
    (Handler.arrayAlloc g id).Attains a fun result a' => ∃ array, result = some (.array array) ∧
      a.store.Adds [] a'.store ∧ a'.store.arrays.key? array = some (.alloc id) := by
  obtain ⟨adds, allocated⟩ := a.store.adds_internArray (.alloc id)
  exact ⟨_, { a with store := _ }, rfl, _, rfl, adds, allocated⟩

/-- The target of the call is installed on top of its environment, and the function is called. -/
theorem attains_effectAbortable {g : Setting} {id : CallId}
    (known : a.store.calls.key? id = some key) {effect fn call : ClazzId}
    (effectType : (g.view.info key.clazz).effectType = some effect)
    (function : (g.view.info key.clazz).generics.head? = some fn)
    (routine : (g.view.info fn).call = some call) (passed : key.args[0]? = some target) :
    (Handler.effectAbortable g id).Attains a fun result a' => result = some .unit ∧ ∃ env,
      a.store.Adds [⟨call, false, target, [], some env⟩] a'.store ∧
      a'.store.envs.key? env = some ⟨key.env, effect, key.target⟩ := by
  have typed : Handler.effectType g key.clazz = .ok effect := by
    unfold Handler.effectType
    rw [effectType]
  have argument : g.argument key.clazz key.args 0 = .ok target := by
    unfold Setting.argument
    rw [passed]
  have extended : (onStore (Store.extendEnv key.env effect key.target)).Attains a fun env a' =>
      a.store.Adds [] a'.store ∧ a'.store.envs.key? env = some ⟨key.env, effect, key.target⟩ :=
    ⟨_, { a with store := _ }, rfl, a.store.adds_extendEnv key.env effect key.target⟩
  unfold Handler.effectAbortable
  refine attains_currentStore_bind (attains_lift_bind (callKey_of_key? known) ?_)
  refine attains_lift_bind typed ?_
  rw [function]
  dsimp only
  rw [routine]
  refine attains_lift_bind argument (extended.bind fun env b ⟨adds, installed⟩ => ?_)
  refine (attains_newCall (z := ⟨g, {}⟩) (adds.calls _ _ known) _).bind fun _ c ⟨adds', _⟩ => ?_
  exact attains_pure ⟨rfl, env, adds.trans adds', adds'.envs _ _ installed⟩

/-- A block is called. -/
theorem attains_call_block (known : a.store.calls.key? act.call = some creator)
    (block : p.IsBlock clazz code) :
    ((p.analyzer config).call act site (.fixed clazz) target args).Attains a fun _ a' =>
      a.store.Adds [keyFor act clazz target args] a'.store := by
  have kind : ((p.analyzer config).view.info clazz).kind = .routine := block.kind
  have needed : ((p.analyzer config).view.info clazz).needsCode = true := block.needed
  rw [call_fixed act site target args needed block.unchecked]
  unfold callOne enter
  rw [kind, needed]
  refine (attains_newCall known _).bind fun id a' ⟨adds, made⟩ => ?_
  have answered : ((p.analyzer config).callResult id).Attains a' fun _ a'' => a'' = a' := by
    obtain ⟨state, held⟩ := Interned.exists_state?_of_key? made
    unfold callResult
    refine attains_currentStore_bind (attains_lift_bind (callKey_of_key? made) ?_)
    rw [kind]
    refine attains_lift_bind (callState_of_state? held) ?_
    cases state.returns with
    | false => exact attains_pure rfl
    | true =>
      refine attains_lift_bind (x := .unit) ?_ (attains_pure rfl)
      have nothing : ((p.analyzer config).view.info clazz).result = none := block.result
      unfold Setting.routineResult
      rw [nothing]
  refine answered.bind fun _ _ same => attains_pure ?_
  rw [same]
  exact adds

/-- An intrinsic is called that produces something. -/
theorem attains_call_intrinsic (known : a.store.calls.key? act.call = some creator)
    (means : p.HasMeaning clazz meaning) (post : List CallKey → Value → Analysis → Prop)
    (lasting : ∀ {new v b c}, b.store.Adds [] c.store → post new v b → post new v c)
    (produces : ∀ id a', a'.store.calls.key? id = some (keyFor act clazz target args) →
      (meaning (p.analyzer config).toSetting id).Attains a' fun result a'' => ∃ new v,
        result = some v ∧ v ≠ .noValue ∧ a'.store.Adds new a''.store ∧ post new v a'') :
    ((p.analyzer config).call act site (.fixed clazz) target args).Attains a fun result a' =>
      ∃ new v, result = some v ∧ a.store.Adds (keyFor act clazz target args :: new) a'.store ∧
        post new v a' := by
  have kind : ((p.analyzer config).view.info clazz).kind = .intrinsic := means.kind
  have needed : ((p.analyzer config).view.info clazz).needsCode = true := means.needed
  have found : (p.analyzer config).intrinsics.find? ((p.analyzer config).intrinsicName clazz) =
      some (.handler meaning) := by
    rw [p.intrinsics_analyzer config]
    exact means.found
  rw [call_fixed act site target args needed means.unchecked]
  unfold callOne enter
  rw [kind, needed]
  refine (attains_newCall known _).bind fun id a' ⟨adds, made⟩ => ?_
  have answered : ((p.analyzer config).callResult id).Attains a' fun result a'' => ∃ new v,
      result = some v ∧ v ≠ .noValue ∧ a'.store.Adds new a''.store ∧ post new v a'' := by
    unfold callResult
    refine attains_currentStore_bind (attains_lift_bind (callKey_of_key? made) ?_)
    rw [kind]
    rw [if_pos (by rfl)]
    exact attains_intrinsicResult made found lasting (produces id a' made)
  refine answered.bind ?_
  rintro _ a'' ⟨new, v, rfl, there, adds', holds⟩
  refine attains_pure ⟨new, v, ?_, adds.trans adds', holds⟩
  simp [Option.filter, there]

end Analyzer

/-! ### Straight code -/

namespace Analyzer

variable {p : Program} {config : Config} {act : Activation} {code : CodeId} {index : Nat}
  {stack args : List Value} {target : Value} {post : Analysis → Prop}

/-- Walked from this position on, with these operands, the block is walked without a fault, and what
is wanted holds in the end, wherever control gets to. -/
def Continues (p : Program) (config : Config) (act : Activation) (code : CodeId) (index : Nat)
    (stack : List Value) (a : Analysis) (post : Analysis → Prop) : Prop :=
  ∀ nested remaining outputs, index + remaining = (p.block code).length →
    (walkInstrs p.view ((p.analyzer config).processor act) nested act.key.clazz code remaining index
      stack outputs).Attains a fun _ a' => post a'

/-- The walk goes on after an instruction as the rest of the block does, or it ends there. -/
def GoesOn (p : Program) (config : Config) (act : Activation) (code : CodeId) (index : Nat)
    (post : Analysis → Prop) (stack : Option (List Value)) (a : Analysis) : Prop :=
  match stack with
  | some stack => Continues p config act code (index + 1) stack a post
  | none => post a

namespace Continues

/-- At the end of a block, what is wanted has to hold of the state as it is. -/
theorem finish (last : index = (p.block code).length) (h : post a) :
    Continues p config act code index stack a post := by
  intro nested remaining outputs length
  obtain rfl : remaining = 0 := by omega
  exact ⟨_, a, rfl, h⟩

/-- An instruction of a block is walked, and the rest of the block goes on with the stack that it
leaves. -/
theorem instr {instr : Instr} (found : p.instr? code index = some instr)
    (h : ∀ nested, (walkInstr p.view ((p.analyzer config).processor act) nested
      ⟨act.key.clazz, code, index⟩ instr stack).Attains a fun progress =>
        GoesOn p config act code index post progress.stack) :
    Continues p config act code index stack a post := by
  intro nested remaining outputs length
  have inside : index < (p.block code).length := (List.getElem?_eq_some_iff.1 found).1
  obtain ⟨rest, rfl⟩ : ∃ rest, remaining = rest + 1 := ⟨remaining - 1, by omega⟩
  unfold walkInstrs
  have found : p.view.instr? code index = some instr := found
  rw [found]
  have header : (liftM (((p.analyzer config).processor act).header ⟨act.key.clazz, code, index⟩) :
      Analyzing Unit).Attains a fun _ a' => a' = a := ⟨(), a, rfl, rfl⟩
  refine header.bind ?_
  rintro output _ rfl
  refine (h nested).bind fun progress a' goesOn => ?_
  obtain ⟨output', stack'⟩ := progress
  cases stack' with
  | none => exact ⟨_, a', rfl, goesOn⟩
  | some stack' => exact goesOn nested rest _ (by omega)

variable (args) in
/-- A call, wherever it leads. -/
theorem call {access : Access} (found : p.instr? code index = some (.call access))
    (arity : p.view.arity access = args.length)
    (h : ((p.analyzer config).call act ⟨act.key.clazz, code, index⟩ access target args).Attains a
      fun result => GoesOn p config act code index post (result.map (· :: stack))) :
    Continues p config act code index (args.reverse ++ target :: stack) a post := by
  refine instr found fun nested => ?_
  obtain ⟨result, a', run, goesOn⟩ := h
  have called : (((p.analyzer config).processor act).call ⟨act.key.clazz, code, index⟩ access target
      args).outcome a = (.ok (answer result), a') := by
    unfold processor
    dsimp only
    rw [outcome_bind, run]
    rfl
  refine ⟨.pushing stack (answer result), a', ?_, goesOn⟩
  unfold walkInstr
  dsimp only
  rw [arity, ← List.length_reverse, List.drop_left, List.take_left, List.reverse_reverse]
  show (Progress.pushing stack <$> ((p.analyzer config).processor act).call _ access target
    args).outcome a = _
  rw [outcome_map, called]
  rfl

/-- A write of a field, as far as it succeeds. -/
theorem assign {field : ClazzId} {value : Value}
    (found : p.instr? code index = some (.assign (.fixed field))) (isField : p.IsField field)
    (h : ((p.analyzer config).assignOne target [value] field).Attains a fun _ a' =>
      Continues p config act code (index + 1) stack a' post) :
    Continues p config act code index (value :: target :: stack) a post := by
  refine instr found fun nested => ?_
  obtain ⟨result, a', run, goesOn⟩ := h
  have needed : ((p.analyzer config).view.info (Access.fixed field).accessed).needsCode = true :=
    isField.needed
  have written : (p.analyzer config).access act ⟨act.key.clazz, code, index⟩ (.fixed field) target
      (.assign [value]) = (p.analyzer config).assignOne target [value] field := by
    unfold access
    rw [needed]
    rfl
  have assigned : (((p.analyzer config).processor act).assign ⟨act.key.clazz, code, index⟩
      (.fixed field) target value).outcome a = (.ok (), a') := by
    unfold processor
    dsimp only
    rw [outcome_bind, written, run]
    rfl
  refine ⟨⟨(), some stack⟩, a', ?_, goesOn⟩
  unfold walkInstr
  dsimp only
  rw [outcome_bind, assigned]
  rfl

/-- A read of a field that holds something. -/
theorem read {field : ClazzId} {v : Value}
    (found : p.instr? code index = some (.call (.fixed field))) (isField : p.IsField field)
    (held : a.store.readField field target = .ok v) (there : v ≠ .noValue)
    (h : Continues p config act code (index + 1) (v :: stack) a post) :
    Continues p config act code index (target :: stack) a post := by
  have kind : ((p.analyzer config).view.info field).kind = .field := isField.kind
  refine call [] found (congrArg List.length isField.args) ?_
  rw [call_fixed act _ target [] isField.needed isField.unchecked]
  unfold callOne
  rw [kind]
  refine attains_currentStore_bind (attains_lift_bind held ?_)
  rw [if_neg there]
  exact attains_pure h

/-- The call of a block at the end of a block. -/
theorem tailCall {creator : CallKey} {clazz : ClazzId} {code' : CodeId}
    (found : p.instr? code index = some (.call (.fixed clazz)))
    (last : index + 1 = (p.block code).length) (block : p.IsBlock clazz code')
    (known : a.store.calls.key? act.call = some creator)
    (h : ∀ a', a.store.Adds [keyFor act clazz target []] a'.store → post a') :
    Continues p config act code index (target :: stack) a post := by
  have arity : p.view.arity (.fixed clazz) = ([] : List Value).length :=
    congrArg List.length block.args
  refine call [] found arity ((attains_call_block known block).mono fun result a' adds => ?_)
  cases result with
  | none => exact h _ adds
  | some v => exact finish last (h _ adds)

end Continues

/-- What has no code of its own needs no analysis. -/
theorem attains_analyze_of_ne {z : Analyzer} {id : CallId} {key : CallKey}
    (known : a.store.calls.key? id = some key) (body : key.pre = false)
    (other : (z.view.info key.clazz).kind ≠ .routine) :
    (z.analyze id).Attains a fun _ a' => a' = a := by
  unfold analyze
  refine attains_currentStore_bind (attains_lift_bind (callKey_of_key? known) ?_)
  dsimp only
  rw [if_neg (by simp [body, other])]
  exact attains_pure rfl

/-- A clazz that is nothing but its block is walked by walking the block from its start, with no
operands. -/
theorem attains_walkClazz {clazz : ClazzId} (block : p.IsBlock clazz code)
    (here : act.key.clazz = clazz) (h : Continues p config act code 0 [] a post) :
    (walkClazz p.view ((p.analyzer config).processor act) clazz false).Attains a fun _ => post := by
  have code : (p.view.info clazz).code = some code := block.code
  have postconditions : (p.view.info clazz).postconditions = [] := block.postconditions
  obtain ⟨levels, limit⟩ : ∃ levels, p.view.nestingLimit = levels + 1 :=
    Nat.exists_eq_succ_of_ne_zero (by simp [View.nestingLimit])
  rw [← here] at *
  unfold walkClazz walkBlock
  rw [if_neg Bool.false_ne_true, code, postconditions, limit]
  refine Attains.bind (h _ _ [] (Nat.zero_add _)) fun step a' holds => ?_
  cases step.value.isNone with
  | true => exact ⟨_, a', rfl, holds⟩
  | false => exact ⟨_, a', rfl, holds⟩

/-- A block is analysed by walking it. -/
theorem attains_analyze {id : CallId} {key : CallKey} (known : a.store.calls.key? id = some key)
    (body : key.pre = false) (noArgs : key.args = []) (block : p.IsBlock key.clazz code)
    {post : List CallKey → Analysis → Prop}
    (lasting : ∀ {new b c}, b.store.Adds [] c.store → post new b → post new c)
    (h : ∀ state, a.store.calls.state? id = some state →
      Continues p config ⟨id, key, state.frame⟩ code 0 [] a fun a' =>
        ∃ new, a.store.Adds new a'.store ∧ post new a') :
    ((p.analyzer config).analyze id).Attains a fun _ a' =>
      ∃ new, a.store.Adds new a'.store ∧ post new a' := by
  obtain ⟨state, held⟩ := Interned.exists_state?_of_key? known
  have kind : ((p.analyzer config).view.info key.clazz).kind = .routine := block.kind
  have noFields : ((p.analyzer config).view.info key.clazz).args = [] := block.args
  have noOuter : ((p.analyzer config).view.info key.clazz).outerRef = none := block.outerRef
  unfold analyze
  refine attains_currentStore_bind (attains_lift_bind (callKey_of_key? known) ?_)
  dsimp only
  rw [if_pos (by rw [kind]; simp), noFields, noArgs, noOuter, body, if_neg (by simp)]
  refine attains_currentStore_bind (attains_lift_bind (callState_of_state? held) ?_)
  have passed (act : Activation) : (onStore (passArguments act.current ([].zip []))).Attains a
      fun _ a' => a' = a := ⟨(), a, rfl, rfl⟩
  refine (passed _).bind ?_
  rintro _ _ rfl
  refine Attains.bind (attains_walkClazz block rfl (h state held)) ?_
  rintro step b ⟨new, adds, holds⟩
  cases step.value with
  | none => exact attains_pure ⟨new, adds, holds⟩
  | some v =>
    have marked := attains_onStore (a := b) (Store.attains_markReturns (adds.calls id _ known))
    exact marked.mono fun _ c kept => ⟨new, by simpa using adds.trans kept, lasting kept holds⟩

end Analyzer

end ClosedWorld
