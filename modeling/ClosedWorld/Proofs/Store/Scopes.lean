import ClosedWorld.Proofs.Store.Frames
import ClosedWorld.Proofs.Store.Histories
import ClosedWorld.Proofs.Store.Writes
import Mathlib.Data.List.Find

/-!
# Scoped bindings

An environment is meant to be a scope: a binding of one effect inside another scope. Nothing in the
table of nodes says so. Nodes are shared between all environments that were made the same way, a
node is changed in place, and it names its outer environment by a number, so that a walk from node
to node could go round in circles. It does not if an environment is only ever extended that was
given out before. A node is then older than all nodes inside of it, each environment has finitely
many nodes, and effects are bound in it as in a list of scopes.

## Main definitions

* `Store.ScopedHistory`: histories that only extend environments that were given out.
* `Store.OuterOlder`: nodes are older than what is inside of them.
* `Store.Scope`: the nodes of an environment, from the inside to the outside.
* `Store.ScopedBindings`: environments are scopes.

## Main statements

* `Store.OuterOlder.exists_scope`, `Store.Scope.findWithin`: the walk through an environment ends.
* `Store.scopedBindings_of_history`: environments are scopes after every such history.
-/

namespace ClosedWorld

namespace Store

variable {kinds : ClazzId → NumericKind} {P : Value → Prop} {s t : Store} {env : Option EnvId}
  {ids : List EnvId} {effect effect' : ClazzId} {value : Value}

/-- The environment is empty, or it is a node of the store. -/
def HasEnv (s : Store) (env : Option EnvId) : Prop := ∀ id ∈ env, id ∈ s.envs.ids

/-- A history of requests that write values with the property, of which any may have failed, with
the environments that it has given out and the store that it leads to. It only extends the empty
environment and environments that it has given out. -/
inductive ScopedHistory (P : Value → Prop) : List EnvId → Store → Prop where
  | start : ScopedHistory P [] {}
  | extend {given : List EnvId} {s : Store} {outer : Option EnvId} {effect : ClazzId}
    {value : Value} (before : ScopedHistory P given s) (given_before : ∀ id ∈ outer, id ∈ given)
    (written : P value) :
    ScopedHistory P (given ++ [((extendEnv outer effect value).run s).1])
      ((extendEnv outer effect value).run s).2
  | request {given : List EnvId} {s : Store} {request : Request} (before : ScopedHistory P given s)
    (carries : request.Carries P)
    (other : ∀ outer effect value, request ≠ .extendEnv outer effect value) :
    ScopedHistory P given (request.perform.outcome s).2

/-- The outer environment of each node is empty, or it is an older node. -/
def OuterOlder (s : Store) : Prop :=
  ∀ id key, s.envs.key? id = some key → ∀ o ∈ key.outer, o.index < id.index

/-- The nodes of an environment, from the inside to the outside. -/
inductive Scope (s : Store) : Option EnvId → List EnvId → Prop where
  | nil : Scope s none []
  | cons {id : EnvId} {key : EnvKey} {ids : List EnvId} (known : s.envs.key? id = some key)
    (outer : Scope s key.outer ids) : Scope s (some id) (id :: ids)

/-- The node binds the effect. -/
def binds (s : Store) (effect : ClazzId) (id : EnvId) : Bool :=
  (s.envs.key? id).any (·.effect = effect)

/-- A node binds an effect if its key names the effect. -/
theorem binds_iff {id : EnvId} :
    s.binds effect id = true ↔ ∃ key, s.envs.key? id = some key ∧ key.effect = effect := by
  simp [binds, Option.any_eq_true]

/-! ### The nodes of an environment -/

/-- What a node is added around is an environment that the store has. -/
theorem HasEnv.of_outer (older : s.OuterOlder) {id : EnvId} {key : EnvKey}
    (known : s.envs.key? id = some key) : s.HasEnv key.outer := by
  intro o ho
  have before := older id key known o ho
  have here := Interned.index_lt_size_of_key? known
  exact Interned.mem_ids_iff_lt.2 (before.trans here)

/-- Every environment of a store has a `Scope`: its nodes are listed after finitely many steps, as
each is older than the one before. -/
theorem OuterOlder.exists_scope (older : s.OuterOlder) (has : s.HasEnv env) :
    ∃ ids, s.Scope env ids := by
  suffices bounded : ∀ n, ∀ env : Option EnvId, s.HasEnv env → (∀ id ∈ env, id.index < n) →
      ∃ ids, s.Scope env ids from
    bounded s.envs.size env has fun id hid => Interned.mem_ids_iff_lt.1 (has id hid)
  intro n
  induction n with
  | zero =>
    intro env _ bound
    cases env with
    | none => exact ⟨[], .nil⟩
    | some id => exact absurd (bound id rfl) (Nat.not_lt_zero _)
  | succ n ih =>
    intro env has bound
    cases env with
    | none => exact ⟨[], .nil⟩
    | some id =>
      obtain ⟨key, known⟩ := Interned.mem_ids.1 (has id rfl)
      obtain ⟨ids, scope⟩ := ih key.outer (.of_outer older known) fun o ho =>
        Nat.lt_of_lt_of_le (older id key known o ho) (Nat.le_of_lt_succ (bound id rfl))
      exact ⟨id :: ids, .cons known scope⟩

/-- No node of an environment is younger than the first one, which is `env` itself. -/
theorem Scope.index_le (older : s.OuterOlder) (scope : s.Scope env ids) :
    ∀ inner ∈ ids, ∃ id ∈ env, inner.index ≤ id.index := by
  induction scope with
  | nil => exact List.forall_mem_nil _
  | @cons id key ids known _ ih =>
    refine List.forall_mem_cons.2 ⟨⟨id, rfl, Nat.le_refl _⟩, fun inner listed => ⟨id, rfl, ?_⟩⟩
    obtain ⟨o, ho, below⟩ := ih inner listed
    exact below.trans (Nat.le_of_lt (older id key known o ho))

/-- The nodes of an environment get older and older. -/
theorem Scope.pairwise (older : s.OuterOlder) (scope : s.Scope env ids) :
    ids.Pairwise fun inner outer => outer.index < inner.index := by
  induction scope with
  | nil => exact .nil
  | @cons id key ids known scope ih =>
    refine .cons (fun inner listed => ?_) ih
    obtain ⟨o, ho, below⟩ := scope.index_le older inner listed
    exact Nat.lt_of_le_of_lt below (older id key known o ho)

/-- The nodes of an environment are nodes of the store. -/
theorem Scope.mem_ids (scope : s.Scope env ids) : ∀ id ∈ ids, id ∈ s.envs.ids := by
  induction scope with
  | nil => exact List.forall_mem_nil _
  | cons known _ ih => exact List.forall_mem_cons.2 ⟨Interned.mem_ids.2 ⟨_, known⟩, ih⟩

/-- An environment with an index below `n` has at most `n` nodes, since indices decrease from the
inside to the outside. -/
theorem Scope.length_le (older : s.OuterOlder) (scope : s.Scope env ids) {n : Nat}
    (bound : ∀ id ∈ env, id.index < n) : ids.length ≤ n := by
  induction scope generalizing n with
  | nil => exact Nat.zero_le n
  | @cons id key ids known _ ih =>
    have inner := ih fun o ho => older id key known o ho
    exact (Nat.succ_le_succ inner).trans (bound id rfl)

/-- A walk with as many `steps` as there are nodes finds the innermost node that binds the effect.
-/
theorem Scope.findWithin (scope : s.Scope env ids) (effect : ClazzId) {steps : Nat}
    (enough : ids.length ≤ steps) :
    s.findWithin effect steps env = .ok (ids.find? (s.binds effect)) := by
  induction scope generalizing steps with
  | nil => cases steps <;> rfl
  | @cons id key ids known _ ih =>
    cases steps with
    | zero => cases enough
    | succ steps =>
      rw [findWithin_succ known]
      by_cases here : key.effect = effect
      · rw [if_pos here, List.find?_cons_of_pos (by simp [binds, known, here])]
      · rw [if_neg here, List.find?_cons_of_neg (by simp [binds, known, here])]
        exact ih (Nat.le_of_succ_le_succ enough)

/-- The walk of `findBinding` is long enough, as it may take as many steps as the store has nodes.
-/
theorem Scope.findBinding (older : s.OuterOlder) (scope : s.Scope env ids) (effect : ClazzId) :
    s.findBinding env effect = .ok (ids.find? (s.binds effect)) := by
  refine scope.findWithin effect (scope.length_le older fun id here => ?_)
  have listed : id ∈ ids := by
    cases scope with
    | nil => cases here
    | cons => exact Option.some.inj here ▸ List.mem_cons_self
  exact (Interned.mem_ids_iff_lt.1 (scope.mem_ids id listed)).trans (Nat.lt_succ_self _)

/-! ### Where an effect is held -/

/-- The cell that a lookup of the effect reads, if it ends at this place. -/
def cellOf (effect : ClazzId) : (place : Option EnvId) → Cell
  | some id => .binding id
  | none => .default effect

/-- A lookup reads the cell at which its search ends. -/
theorem lookupEffect_eq {place : Option EnvId} (found : s.findBinding env effect = .ok place) :
    s.lookupEffect env effect = .ok (s.held (cellOf effect place)) := by
  unfold lookupEffect
  rw [found]
  cases place <;> rfl

/-- Every lookup ends at the default of the effect, or at a node that binds it. -/
theorem OuterOlder.exists_place (older : s.OuterOlder) (has : s.HasEnv env) (effect : ClazzId) :
    ∃ place, s.findBinding env effect = .ok place ∧ ∀ id ∈ place, s.binds effect id = true := by
  obtain ⟨ids, scope⟩ := older.exists_scope has
  exact ⟨_, scope.findBinding older effect, fun id here => List.find?_some here⟩

/-- A node that binds an effect holds a value. -/
theorem exists_state?_of_binds {id : EnvId} (binds : s.binds effect id = true) :
    ∃ v, s.envs.state? id = some v := by
  obtain ⟨key, known, -⟩ := binds_iff.1 binds
  exact Interned.exists_state?_of_key? known

/-- A node binds one effect only. -/
theorem eq_of_binds {id : EnvId} (binds : s.binds effect id = true)
    (binds' : s.binds effect' id = true) : effect = effect' := by
  obtain ⟨key, known, rfl⟩ := binds_iff.1 binds
  obtain ⟨key', known', rfl⟩ := binds_iff.1 binds'
  cases known.symm.trans known'
  rfl

/-- Two lookups read the same cell if they are for one effect and end at the same place. -/
theorem eq_of_cellOf_eq {place place' : Option EnvId}
    (binds : ∀ id ∈ place, s.binds effect id = true)
    (binds' : ∀ id ∈ place', s.binds effect' id = true)
    (same : cellOf effect' place' = cellOf effect place) : effect' = effect ∧ place' = place := by
  cases place with
  | none =>
    cases place' with
    | none => exact ⟨Cell.default.inj same, rfl⟩
    | some id' => cases same
  | some id =>
    cases place' with
    | none => cases same
    | some id' =>
      obtain rfl := Cell.binding.inj same
      exact ⟨eq_of_binds (binds' _ rfl) (binds _ rfl), rfl⟩

/-! ### Replacing an effect -/

/-- Where one cell has received a value, that value has been joined to what the cell held, and the
others are as they were. -/
theorem Receives.held_single {cell : Cell} {value : Value} (h : s.Receives t [(cell, value)])
    (other : Cell) :
    t.held other = if other = cell then some (.joinedTo (s.held cell) value) else s.held other := by
  rw [h.held]
  by_cases same : other = cell
  · simp [valuesAt, Value.joinedAll, same]
  · simp [valuesAt, Value.joinedAll, same, Ne.symm same]

/-- A write to the cell that one lookup reads changes only lookups that read the same cell. -/
theorem Receives.lookupEffect_ne {place : Option EnvId} (older : s.OuterOlder)
    (h : s.Receives t [(cellOf effect place, value)])
    (binds : ∀ id ∈ place, s.binds effect id = true) (has : s.HasEnv env)
    (changed : t.lookupEffect env effect' ≠ s.lookupEffect env effect') :
    effect' = effect ∧ s.findBinding env effect' = .ok place := by
  obtain ⟨place', found, binds'⟩ := older.exists_place has effect'
  rw [lookupEffect_eq found, lookupEffect_eq ((h.keys.findBinding env effect').trans found),
    h.held_single] at changed
  by_cases same : cellOf effect' place' = cellOf effect place
  · obtain ⟨rfl, rfl⟩ := eq_of_cellOf_eq binds binds' same
    exact ⟨rfl, found⟩
  · rw [if_neg same] at changed
    exact absurd rfl changed

/-- Replacing an effect writes to the cell that a lookup reads, or fails if nothing is there. -/
theorem replaceEffect_of_place {place : Option EnvId} (value : Value)
    (found : s.findBinding env effect = .ok place)
    (binds : ∀ id ∈ place, s.binds effect id = true) :
    (s.held (cellOf effect place) = none ∧
        (replaceEffect env effect value).outcome s = (.error (.noEffectToReplace effect), s)) ∨
      ∃ old t, s.held (cellOf effect place) = some old ∧
        (replaceEffect env effect value).outcome s = (.ok (), t) ∧
        s.Receives t [(cellOf effect place, value)] := by
  cases place with
  | none =>
    obtain ⟨_, found', -⟩ | ⟨-, unset, run⟩ | ⟨-, set, run⟩ | ⟨_, found', -⟩ | ⟨_, _, found', -⟩ :=
      s.replaceEffect_cases env effect value
    · cases found.symm.trans found'
    · exact .inl ⟨unset, run⟩
    · obtain ⟨old, held⟩ := Option.isSome_iff_exists.1 set
      exact .inr ⟨old, _, held, run, receives_installDefault effect value⟩
    · cases found.symm.trans found'
    · cases found.symm.trans found'
  | some id =>
    obtain ⟨old, held⟩ := exists_state?_of_binds (binds id rfl)
    obtain ⟨t, run, receives⟩ := receives_replaceEffect value found held
    exact .inr ⟨old, t, held, run, receives⟩

/-! ### Extending an environment -/

/-- The nodes of an environment are the same as long as the keys are kept. -/
theorem Scope.mono (keeps : s.envs.KeepsKeys t.envs) (scope : s.Scope env ids) :
    t.Scope env ids := by
  induction scope with
  | nil => exact .nil
  | cons known _ ih => exact .cons (keeps _ _ known) ih

/-- The node that binds an effect in an environment is the same as long as the keys are kept. -/
theorem Scope.find?_binds (keeps : s.envs.KeepsKeys t.envs) (scope : s.Scope env ids)
    (effect : ClazzId) : ids.find? (t.binds effect) = ids.find? (s.binds effect) := by
  refine List.find?_congr fun id listed => ?_
  obtain ⟨key, known⟩ := Interned.mem_ids.1 (scope.mem_ids id listed)
  unfold binds
  rw [known, keeps id key known]

/-- Adding a node around an environment of the store keeps nodes older than what is inside of them.
-/
theorem OuterOlder.addBinding (older : s.OuterOlder) {key : EnvKey} (has : s.HasEnv key.outer) :
    (s.addBinding key).OuterOlder := by
  intro id key' known o ho
  replace known : (s.envs.push key key.initial).key? id = some key' := known
  rw [Interned.key?_push] at known
  split at known
  · rename_i new
    cases known
    rw [new]
    exact Interned.mem_ids_iff_lt.1 (has o ho)
  · exact older id key' known o ho

/-- A lookup in an environment that was there gives the same after a node has been added. -/
theorem lookupEffect_addBinding (older : s.OuterOlder) {key : EnvKey} (inside : s.HasEnv key.outer)
    (has : s.HasEnv env) (effect : ClazzId) :
    (s.addBinding key).lookupEffect env effect = s.lookupEffect env effect := by
  have keeps : s.envs.KeepsKeys (s.addBinding key).envs := Interned.keepsKeys_push _ _ _
  obtain ⟨ids, scope⟩ := older.exists_scope has
  have found := scope.findBinding older effect
  have found' := (scope.mono keeps).findBinding (older.addBinding inside) effect
  rw [scope.find?_binds keeps] at found'
  rw [lookupEffect_eq found, lookupEffect_eq found']
  cases place : ids.find? (s.binds effect) with
  | none => rfl
  | some id =>
    have known := Interned.mem_ids_iff_lt.1 (scope.mem_ids id (List.mem_of_find?_eq_some place))
    have old : id ≠ s.envs.nextId := by
      rintro rfl
      exact Nat.lt_irrefl _ known
    show Except.ok ((s.envs.push key key.initial).state? id) = .ok (s.envs.state? id)
    unfold Interned.state?
    rw [Interned.get?_push, if_neg old]

/-- Looking up the effect of a node in the node gives what the node holds. -/
theorem lookupEffect_node {node : EnvId} {key : EnvKey} (bound : s.envs.key? node = some key) :
    s.lookupEffect (some node) key.effect = .ok (s.envs.state? node) := by
  have keyed : s.envKey node = .ok key := by
    unfold envKey
    rw [bound]
  have found : s.findBinding (some node) key.effect = .ok (some node) := by
    unfold findBinding findWithin
    rw [keyed]
    exact if_pos rfl
  unfold lookupEffect
  rw [found]
  rfl

/-- Looking up the effect of a node in the node gives what was installed, or more. -/
theorem BindsAbove.lookupEffect (hb : s.BindsAbove) {node : EnvId} {key : EnvKey}
    (bound : s.envs.key? node = some key) :
    ∃ v, s.lookupEffect (some node) key.effect = .ok (some v) ∧ key.initial.Below v := by
  obtain ⟨v, entry⟩ := Interned.exists_get?_of_key? bound
  refine ⟨v, ?_, hb _ _ _ entry⟩
  rw [lookupEffect_node bound, Interned.state?_of_get? entry]

/-- Inside a node, all effects but the one that it binds are what they are outside. -/
theorem lookupEffect_node_of_ne (older : s.OuterOlder) {id : EnvId} {key : EnvKey}
    (known : s.envs.key? id = some key) (other : key.effect ≠ effect) :
    s.lookupEffect (some id) effect = s.lookupEffect key.outer effect := by
  obtain ⟨ids, scope⟩ := older.exists_scope (.of_outer older known)
  have skipped : ¬s.binds effect id = true := by simp [binds, known, other]
  rw [lookupEffect_eq (scope.findBinding older effect),
    lookupEffect_eq ((Scope.cons known scope).findBinding older effect),
    List.find?_cons_of_neg skipped]

/-! ### Histories -/

/-- Only one kind of request adds nodes. -/
theorem keepsNodes_perform {request : Request}
    (other : ∀ outer effect value, request ≠ .extendEnv outer effect value) :
    KeepsPart (fun s => s.envs.keys) request.perform := by
  have outside : IsOutside fun s => s.envs.keys := fun _ => rfl
  cases request with
  | internInstance clazz context =>
    exact (keepsPart_internInstance outside clazz context).answer _
  | instanceKey id => exact keepsPart_ask (·.instanceKey id) .instanceKey
  | instanceClazz id => exact keepsPart_ask (·.instanceKey id) fun key => .ident key.clazz
  | fields id => exact keepsPart_ask (·.fields id) .fields
  | setField target field value =>
    exact (keepsPart_setField outside field value target).answer fun _ => .done
  | readField target field => exact keepsPart_ask (·.readField field target) .value
  | boxInstance id refClazz => exact (keepsPart_boxInstance outside id refClazz).answer _
  | internArray key =>
    refine KeepsPart.answer (fun s => ?_) _
    rw [Attempt.outcome_growing]
    obtain ⟨_, -, run⟩ | ⟨-, run⟩ := s.internArray_cases key <;> rw [run]
    rfl
  | arraySet id value =>
    refine KeepsPart.answer (fun s => ?_) fun _ => .done
    obtain ⟨-, run⟩ | ⟨_, -, ⟨-, run⟩ | ⟨-, run⟩⟩ := s.arraySet_cases id value <;> rw [run]
    rfl
  | arrayGet id => exact keepsPart_ask (·.arrayGet id) .value
  | extendEnv outer effect value => exact absurd rfl (other outer effect value)
  | envKey id => exact keepsPart_ask (·.envKey id) .envKey
  | lookupEffect env effect => exact keepsPart_ask (·.lookupEffect env effect) .value?
  | replaceEffect env effect value =>
    refine KeepsPart.answer (fun s => ?_) fun _ => .done
    obtain ⟨_, -, run⟩ | ⟨-, -, run⟩ | ⟨-, -, run⟩ | ⟨_, -, -, run⟩ |
        ⟨_, _, -, -, ⟨-, run⟩ | ⟨-, run⟩⟩ := s.replaceEffect_cases env effect value <;> rw [run]
    · exact (receives_installDefault effect value).keys.envs
    · exact Interned.keys_set _ _ _
  | installDefault effect value =>
    refine KeepsPart.answer (fun s => ?_) _
    exact (receives_installDefault effect value).keys.envs
  | defaultEffect effect => exact keepsPart_look fun s => .value? (s.defaults.find? effect)
  | generation => exact keepsPart_look fun s => .number s.generation
  | internCall key context origin =>
    refine KeepsPart.answer (fun s => ?_) _
    rw [Attempt.outcome_growing]
    exact congrArg Interned.keys (s.envs_internCall key context origin)
  | callKey id => exact keepsPart_ask (·.callKey id) .callKey
  | callState id => exact keepsPart_ask (·.callState id) .callState
  | markReturns id =>
    refine KeepsPart.answer (fun s => ?_) fun _ => .done
    obtain ⟨-, run⟩ | ⟨_, -, ⟨-, run⟩ | ⟨-, run⟩⟩ := s.markReturns_cases id <;> rw [run]
    rfl
  | counts =>
    exact keepsPart_look fun s =>
      .counts s.instances.size s.calls.size s.envs.size s.arrays.size
  | takeChange => exact fun _ => rfl
  | snapshot => exact keepsPart_look .store

/-- Whether nodes are older than what is inside of them depends on their keys only. -/
theorem OuterOlder.of_keys (older : s.OuterOlder) (keys : t.envs.keys = s.envs.keys) :
    t.OuterOlder := by
  intro id key known
  rw [Interned.key?_eq_getElem?, keys, ← Interned.key?_eq_getElem?] at known
  exact older id key known

/-- What holds of a store after a history that only extends environments that it has given out:
these are the nodes, and nodes are older than what is inside of them. -/
structure KeepsScopes (kinds : ClazzId → NumericKind) (given : List EnvId) (s : Store) : Prop where
  regular : s.IsRegular kinds
  binds : s.BindsAbove
  older : s.OuterOlder
  given : ∀ id, id ∈ given ↔ id ∈ s.envs.ids

/-- The induction behind `scopedBindings_of_history`: each request keeps what `KeepsScopes` says. -/
theorem keepsScopes_of_history {given : List EnvId}
    (history : ScopedHistory (Value.Regular kinds) given s) : KeepsScopes kinds given s := by
  induction history with
  | start =>
    refine ⟨allValues_empty _, bindsAbove_empty, ?_, ?_⟩
    · rintro id key ⟨⟩
    · simp [Interned.mem_ids_iff_lt, Interned.size]
  | @extend given s outer effect value before given_before written ih =>
    have evolves := s.evolves_extendEnv (M := fun _ => True) outer effect written
    have regular := (evolves.growsRegularly ih.regular).regular
    have binds := evolves.bindsAbove ih.regular ih.binds
    obtain ⟨id, found, run⟩ | ⟨-, run⟩ := s.extendEnv_cases outer effect value
    · rw [run] at regular binds ⊢
      have known : id ∈ s.envs.ids := Interned.mem_ids.2 ⟨_, Interned.key?_of_idOf? found⟩
      refine ⟨regular, binds, ih.older, fun other => ?_⟩
      rw [List.mem_append, List.mem_singleton, ih.given]
      constructor
      · rintro (before | rfl) <;> assumption
      · exact .inl
    · rw [run] at regular binds ⊢
      have has : s.HasEnv outer := fun id here => (ih.given id).1 (given_before id here)
      refine ⟨regular, binds, ih.older.addBinding has, fun other => ?_⟩
      rw [List.mem_append, List.mem_singleton, ih.given]
      exact Interned.mem_ids_push.symm
  | @request given s request before carries other ih =>
    have keys := keepsNodes_perform other s
    have given := ih.given
    rw [← Interned.ids_eq_of_keys_eq keys] at given
    by_cases asked : request = .takeChange
    · rw [asked]
      exact ⟨AllValues.unnoted ih.regular, ih.binds, ih.older, ih.given⟩
    · have evolves := evolves_perform ih.regular carries asked
      exact ⟨(evolves.growsRegularly ih.regular).regular, evolves.bindsAbove ih.regular ih.binds,
        ih.older.of_keys keys, given⟩

/-! ### Environments as scopes -/

/-- The environments of a store are scopes. -/
structure ScopedBindings (s : Store) : Prop where
  /-- An environment has finitely many nodes, each older than those inside of it. A walk that is
  long enough ends at the innermost one that binds the effect, and what this node holds now is
  looked up. If there is none, the default of the effect is looked up. -/
  scope : ∀ env, s.HasEnv env → ∃ ids, s.Scope env ids ∧
    (ids.Pairwise fun inner outer => outer.index < inner.index) ∧ ∀ effect,
      (∀ steps, ids.length ≤ steps →
        s.findWithin effect steps env = .ok (ids.find? (s.binds effect))) ∧
      (∀ id, ids.find? (s.binds effect) = some id →
        ∃ v, s.envs.state? id = some v ∧ s.lookupEffect env effect = .ok (some v)) ∧
      (ids.find? (s.binds effect) = none →
        s.lookupEffect env effect = .ok (s.defaults.find? effect))
  /-- In an extended environment, the other effects are what they are in the outer one. The effect
  that is bound is no less than what it is bound to, and just that if the node is new. In no
  environment that was there before, an effect is another one. -/
  extend : ∀ outer effect value id t, s.HasEnv outer →
    (extendEnv outer effect value).run s = (id, t) →
    (∀ other, other ≠ effect → t.lookupEffect (some id) other = t.lookupEffect outer other) ∧
      (∃ v, t.lookupEffect (some id) effect = .ok (some v) ∧ value.Below v ∧
        (id ∉ s.envs.ids → v = value)) ∧
      ∀ env, s.HasEnv env → ∀ other, t.lookupEffect env other = s.lookupEffect env other
  /-- An effect cannot be replaced if nothing is looked up, and then the store stays as it is.
  Otherwise the value is joined to what is looked up, which makes a difference to lookups of the
  effect that end at the same node, or at its default as well. -/
  replace : ∀ env effect value, s.HasEnv env →
    (((replaceEffect env effect value).outcome s).1 = .error (.noEffectToReplace effect) ↔
        s.lookupEffect env effect = .ok none) ∧
      (s.lookupEffect env effect = .ok none →
        ((replaceEffect env effect value).outcome s).2 = s) ∧
      ∀ old, s.lookupEffect env effect = .ok (some old) →
        ∃ t, (replaceEffect env effect value).outcome s = (.ok (), t) ∧
          t.lookupEffect env effect = .ok (some (old.join value)) ∧
          ∀ env', s.HasEnv env' → ∀ other,
            t.lookupEffect env' other ≠ s.lookupEffect env' other →
            other = effect ∧ s.findBinding env' other = s.findBinding env effect
  /-- Installing a default makes a difference to lookups of the effect that end at the default. -/
  install : ∀ effect value env, s.HasEnv env → ∀ other,
    ((installDefault effect value).run s).2.lookupEffect env other ≠ s.lookupEffect env other →
    other = effect ∧ s.findBinding env other = .ok none

/-- The environments of a store that has kept its scopes are scopes. -/
theorem KeepsScopes.scopedBindings {given : List EnvId} (h : KeepsScopes kinds given s) :
    s.ScopedBindings where
  scope env has := by
    obtain ⟨ids, scope⟩ := h.older.exists_scope has
    -- A lookup comes by the nodes of the scope, from the inside to the outside.
    refine ⟨ids, scope, scope.pairwise h.older, fun effect => ?_⟩
    have found := scope.findBinding h.older effect
    refine ⟨fun steps => scope.findWithin effect, fun id here => ?_, fun nowhere => ?_⟩
    · obtain ⟨v, held⟩ := exists_state?_of_binds (List.find?_some here)
      rw [here] at found
      exact ⟨v, held, (lookupEffect_eq found).trans (congrArg Except.ok held)⟩
    · rw [nowhere] at found
      exact lookupEffect_eq found
  extend outer effect value id t has run := by
    obtain ⟨id', found, run'⟩ | ⟨new, run'⟩ := s.extendEnv_cases outer effect value
    · cases run.symm.trans run'
      have known := Interned.key?_of_idOf? found
      refine ⟨fun other differs => lookupEffect_node_of_ne h.older known (Ne.symm differs), ?_,
        fun _ _ _ => rfl⟩
      obtain ⟨v, looked, below⟩ := h.binds.lookupEffect known
      exact ⟨v, looked, below, fun new => absurd (Interned.mem_ids.2 ⟨_, known⟩) new⟩
    · cases run.symm.trans run'
      have known : (s.addBinding ⟨outer, effect, value⟩).envs.key? s.envs.nextId =
          some ⟨outer, effect, value⟩ := Interned.key?_push_nextId ..
      refine ⟨fun other differs => ?_, ⟨value, ?_, Value.below_refl _, fun _ => rfl⟩, ?_⟩
      · exact lookupEffect_node_of_ne (h.older.addBinding has) known (Ne.symm differs)
      · rw [lookupEffect_node known]
        have entry := (Interned.get?_push s.envs ⟨outer, effect, value⟩ value _).trans (if_pos rfl)
        exact congrArg Except.ok (Interned.state?_of_get? entry)
      · exact fun env has' other => lookupEffect_addBinding h.older has has' other
  replace env effect value has := by
    obtain ⟨place, found, binds⟩ := h.older.exists_place has effect
    rw [lookupEffect_eq found]
    obtain ⟨nothing, run⟩ | ⟨old, t, held, run, receives⟩ :=
      replaceEffect_of_place value found binds
    · rw [nothing, run]
      exact ⟨iff_of_true rfl rfl, fun _ => rfl, fun _ h => by cases h⟩
    · rw [held, run]
      refine ⟨iff_of_false (by simp) (by simp), by simp, ?_⟩
      rintro _ ⟨⟩
      refine ⟨t, rfl, ?_, fun env' has' other changed => ?_⟩
      · rw [lookupEffect_eq ((receives.keys.findBinding env effect).trans found),
          receives.held_single, if_pos rfl, held]
        rfl
      · obtain ⟨same, found'⟩ := receives.lookupEffect_ne h.older binds has' changed
        exact ⟨same, found'.trans found.symm⟩
  install effect value env has other changed := by
    have receives : s.Receives ((installDefault effect value).run s).2
        [(cellOf effect none, value)] := receives_installDefault effect value
    exact receives.lookupEffect_ne h.older (by simp) has changed

/-- Environments are scopes. Let a history write regular values, and let it only extend the empty
environment and environments that it has given out; any request in it may fail. The environments
that it has given out are the nodes, and effects are bound in them as in a list of scopes, whatever
is shared between them. -/
theorem scopedBindings_of_history {kinds : ClazzId → NumericKind} {given : List EnvId} {s : Store}
    (history : ScopedHistory (Value.Regular kinds) given s) :
    (∀ id, id ∈ given ↔ id ∈ s.envs.ids) ∧ s.ScopedBindings :=
  have keeps := keepsScopes_of_history history
  ⟨keeps.given, keeps.scopedBindings⟩

/-- Two environments extend a third one, and one of them binds its effect again. Where the effect is
replaced in the other one, it is the shared node that grows, and nothing has changed where that node
is hidden. -/
theorem scopedBindings_of_history_sharing :
    let first := (extendEnv none ⟨3⟩ (.bool .true)).run {}
    let second := (extendEnv (some ⟨0⟩) ⟨4⟩ .unit).run first.2
    let third := (extendEnv (some ⟨0⟩) ⟨3⟩ .unit).run second.2
    let fourth := (extendEnv none ⟨3⟩ (.bool .true)).run third.2
    let s := ((Request.installDefault ⟨5⟩ .unit).perform.outcome fourth.2).2
    let given := [] ++ [first.1] ++ [second.1] ++ [third.1] ++ [fourth.1]
    ScopedHistory (Value.Regular fun _ => .i32) given s ∧ given = [⟨0⟩, ⟨1⟩, ⟨2⟩, ⟨0⟩] ∧
      (replaceEffect (some ⟨2⟩) ⟨9⟩ .unit).outcome s = (.error (.noEffectToReplace ⟨9⟩), s) ∧
      ∃ t, (replaceEffect (some ⟨1⟩) ⟨3⟩ (.bool .false)).outcome s = (.ok (), t) ∧
        t.lookupEffect (some ⟨1⟩) ⟨3⟩ = .ok (some (.bool .any)) ∧
        t.lookupEffect (some ⟨2⟩) ⟨3⟩ = .ok (some .unit) ∧
        t.lookupEffect (some ⟨2⟩) ⟨5⟩ = .ok (some .unit) := by
  intro first second third fourth s given
  have history : ScopedHistory (Value.Regular fun _ => .i32) given s := by
    refine .request (.extend (.extend (.extend (.extend .start ?_ ?_) ?_ ?_) ?_ ?_) ?_ ?_) ?_ ?_
    all_goals first | exact ⟨trivial, trivial⟩ | decide +kernel | simp
  obtain ⟨nodes, bindings⟩ := scopedBindings_of_history history
  have has (id : EnvId) (among : id ∈ given) : s.HasEnv (some id) := by
    rintro _ ⟨⟩
    exact (nodes id).1 among
  have inner := has ⟨1⟩ (by decide +kernel)
  have covering := has ⟨2⟩ (by decide +kernel)
  obtain ⟨fails, still, -⟩ := bindings.replace (some ⟨2⟩) ⟨9⟩ .unit covering
  have unbound : s.lookupEffect (some ⟨2⟩) ⟨9⟩ = .ok none := by decide +kernel
  have bound : s.lookupEffect (some ⟨1⟩) ⟨3⟩ = .ok (some (.bool .true)) := by decide +kernel
  obtain ⟨-, -, joins⟩ := bindings.replace (some ⟨1⟩) ⟨3⟩ (.bool .false) inner
  obtain ⟨t, run, looked, others⟩ := joins _ bound
  -- in the environment that hides the shared node, lookups end elsewhere
  have kept (effect : ClazzId) (elsewhere : effect = ⟨3⟩ →
      s.findBinding (some ⟨2⟩) effect ≠ s.findBinding (some ⟨1⟩) ⟨3⟩) :
      t.lookupEffect (some ⟨2⟩) effect = s.lookupEffect (some ⟨2⟩) effect := by
    by_contra changed
    obtain ⟨same, ends⟩ := others _ covering effect changed
    exact elsewhere same ends
  refine ⟨history, by decide +kernel, Prod.ext (fails.2 unbound) (still unbound), t, run, looked,
    ?_, ?_⟩
  · exact (kept ⟨3⟩ fun _ => by decide +kernel).trans (by decide +kernel)
  · exact (kept ⟨5⟩ (by decide +kernel)).trans (by decide +kernel)

end Store

end ClosedWorld
