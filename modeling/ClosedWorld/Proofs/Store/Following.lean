import ClosedWorld.Proofs.Store.Shadowing

/-!
# Effects and calls of a store and of one that covers it

Environments that bind the same effects in the same order find their bindings in the same way. In a
coarse store no effect is bound twice in an environment, so the search comes to its end.

## Main statements

* `Store.findBinding_of_chain`: what is found in an environment.
* `Store.mirrors_lookupEffect`, `Store.proceeds_replaceEffect` and the others: effects.
* `Store.proceeds_internCall`, `Store.proceeds_markReturns`: calls.
-/

namespace ClosedWorld

namespace Store

variable {view : View} {s s' t t' : Store} {v value value' : Value}
  {env env' outer outer' : Option EnvId}
  {effect : ClazzId} {effects : List ClazzId}

/-! ### Environments -/

/-- The effects that an environment binds are bound by nodes of the store. -/
theorem Chain.subset (chain : s.Chain env effects) :
    effects ⊆ s.envs.keys.map EnvKey.effect := by
  induction chain with
  | nil => exact List.nil_subset _
  | cons known _ ih =>
    exact List.cons_subset.2 ⟨List.mem_map_of_mem (Interned.mem_keys.2 ⟨_, known⟩), ih⟩

/-- An effect is bound by a node with an environment of its own. -/
theorem Chain.exists_node (chain : s.Chain env effects) (bound : effect ∈ effects) :
    ∃ id key effects', s.envs.key? id = some key ∧ key.effect = effect ∧
      s.Chain (some id) (effect :: effects') ∧ effects'.length < effects.length := by
  induction chain with
  | nil => cases bound
  | @cons id key effects known outer ih =>
    by_cases here : key.effect = effect
    · subst here
      exact ⟨id, key, effects, known, rfl, .cons known outer, Nat.lt_succ_self _⟩
    · have there := (List.mem_cons.1 bound).resolve_left fun same => here same.symm
      obtain ⟨id, key, effects', known, same, chain, shorter⟩ := ih there
      exact ⟨id, key, effects', known, same, chain, Nat.lt_succ_of_lt shorter⟩

/-- In a coarse store, no environment binds an effect twice. -/
theorem IsCoarse.nodup_of_chain (ht : t.IsCoarse) (chain : t.Chain env effects) : effects.Nodup := by
  induction chain with
  | nil => exact List.nodup_nil
  | @cons id key effects known outer ih =>
    refine List.nodup_cons.2 ⟨fun bound => ?_, ih⟩
    obtain ⟨id', key', effects', known', same, chain, shorter⟩ := outer.exists_node bound
    obtain rfl := Interned.eq_of_nodup_map ht.envs known' known same
    obtain rfl := List.tail_eq_of_cons_eq (chain.unique (.cons known outer))
    exact Nat.lt_irrefl _ shorter

/-- What a search finds in an environment if it may take as many `steps` as there are nodes: a node
for every effect that is bound, and nothing for the others. -/
theorem findWithin_of_chain (chain : s.Chain env effects) {steps : Nat}
    (enough : effects.length ≤ steps) (effect : ClazzId) :
    (effect ∈ effects → ∃ id key, s.findWithin effect steps env = .ok (some id) ∧
        s.envs.key? id = some key ∧ key.effect = effect) ∧
      (effect ∉ effects → s.findWithin effect steps env = .ok none) := by
  induction chain generalizing steps with
  | nil => cases steps <;> exact ⟨by rintro ⟨⟩, fun _ => rfl⟩
  | @cons id key effects known outer ih =>
    cases steps with
    | zero => cases enough
    | succ steps =>
      rw [findWithin_succ known]
      by_cases here : key.effect = effect
      · rw [if_pos here]
        exact ⟨fun _ => ⟨id, key, rfl, known, here⟩,
          fun absent => absurd (here ▸ List.mem_cons_self) absent⟩
      · rw [if_neg here, List.mem_cons, or_iff_right (Ne.symm here)]
        exact ih (Nat.le_of_succ_le_succ enough)

/-- What is found in an environment that binds no effect twice. -/
theorem findBinding_of_chain (chain : s.Chain env effects) (nodup : effects.Nodup)
    (effect : ClazzId) :
    (effect ∈ effects → ∃ id key, s.findBinding env effect = .ok (some id) ∧
        s.envs.key? id = some key ∧ key.effect = effect) ∧
      (effect ∉ effects → s.findBinding env effect = .ok none) := by
  refine findWithin_of_chain chain (Nat.le_succ_of_le ?_) effect
  have listed := (List.subperm_of_subset nodup chain.subset).length_le
  rwa [List.length_map, Interned.keys, List.length_map] at listed

/-- Environments that mirror each other both bind an effect, or neither does. -/
theorem EnvMirrors.findBinding (ht : t.IsCoarse) (he : EnvMirrors s t env env') (effect : ClazzId) :
    (s.findBinding env effect = .ok none ∧ t.findBinding env' effect = .ok none) ∨
      ∃ id key id' key', s.findBinding env effect = .ok (some id) ∧ s.envs.key? id = some key ∧
        key.effect = effect ∧ t.findBinding env' effect = .ok (some id') ∧
        t.envs.key? id' = some key' ∧ key'.effect = effect := by
  obtain ⟨effects, chain, chain'⟩ := he
  have nodup := ht.nodup_of_chain chain'
  obtain ⟨bound, unbound⟩ := findBinding_of_chain chain nodup effect
  obtain ⟨bound', unbound'⟩ := findBinding_of_chain chain' nodup effect
  by_cases listed : effect ∈ effects
  · obtain ⟨id, key, found, known, same⟩ := bound listed
    obtain ⟨id', key', found', known', same'⟩ := bound' listed
    exact .inr ⟨id, key, id', key', found, known, same, found', known', same'⟩
  · exact .inl ⟨unbound listed, unbound' listed⟩

/-- An effect that is visible is visible in the other store. -/
theorem mirrors_lookupEffect (ht : t.IsCoarse) (hs : Covered view t s)
    (he : EnvMirrors s t env env') {found found' : Option Value}
    (look : s.lookupEffect env effect = .ok found) (look' : t.lookupEffect env' effect = .ok found')
    (visible : found = some v) : ∃ w, found' = some w ∧ Mirrors view s t v w := by
  unfold lookupEffect at look look'
  obtain ⟨none, none'⟩ | ⟨id, key, id', key', bound, known, rfl, bound', known', same⟩ :=
    he.findBinding ht effect
  · rw [none] at look
    rw [none'] at look'
    have held : s.defaults.find? effect = found := Except.ok.inj look
    have held' : t.defaults.find? effect = found' := Except.ok.inj look'
    rw [visible] at held
    obtain ⟨w, at_w, mirrors⟩ := hs.defaults _ (OrderedMap.mem_entries_of_find? held)
    exact ⟨w, held'.symm.trans at_w, mirrors⟩
  · rw [bound] at look
    rw [bound'] at look'
    have held : s.envs.state? id = found := Except.ok.inj look
    have held' : t.envs.state? id' = found' := Except.ok.inj look'
    rw [visible] at held
    obtain ⟨w, at_w, mirrors⟩ :=
      (hs.envs id key v (Interned.get?_of_key?_of_state? known held)).2
    obtain ⟨w', entry'⟩ := Interned.exists_get?_of_key? known'
    obtain rfl := ht.eq_of_at at_w ⟨id', key', entry', same⟩
    exact ⟨w, held'.symm.trans (Interned.state?_of_get? entry'), mirrors⟩

/-! ### Changing effects -/

/-- An installation without a change has left the store alone, and the default `Absorbs` the value.
-/
theorem rests_installDefault
    (quiet : ((installDefault effect value).run t).2.change = none) :
    ((installDefault effect value).run t).2 = t ∧ t.Absorbs (.default effect) value := by
  obtain ⟨same, run⟩ | ⟨-, run⟩ := t.installDefault_cases effect value
  · rw [run]
    exact ⟨rfl, absorbs_of_joinedTo same fun w held => held⟩
  · rw [run] at quiet
    exact absurd quiet (change_noting_ne_none _ _)

/-- Installing a default keeps a store covered if the value is `Mirrored` at the default. -/
theorem proceeds_installDefault (ht : t.IsCoarse) (hs : Covered view t s)
    (hv : Mirrored view t s (.default effect) value) :
    Proceeds view t s ((installDefault effect value).run s).2 := by
  obtain ⟨-, run⟩ | ⟨-, run⟩ := s.installDefault_cases effect value
  · rw [run]
    exact .refl hs
  · rw [run]
    exact proceeds_putDefault ht hs hv

/-- A replacement without a change has left the store alone, and what it would have written to
`Absorbs` the value. -/
theorem rests_replaceEffect (run : (replaceEffect env effect value).outcome t = (.ok (), t'))
    (quiet : t'.change = none) :
    t' = t ∧ (t.findBinding env effect = .ok none → t.Absorbs (.default effect) value) ∧
      ∀ id key, t.findBinding env effect = .ok (some id) → t.envs.key? id = some key →
        t.Absorbs (.binding key.effect) value := by
  obtain ⟨_, -, failed⟩ | ⟨-, -, failed⟩ | ⟨found, -, installs⟩ | ⟨_, -, -, failed⟩ |
      ⟨id, current, found, held, ⟨same, kept⟩ | ⟨-, grown⟩⟩ := t.replaceEffect_cases env effect value
  · cases failed.symm.trans run
  · cases failed.symm.trans run
  · cases installs.symm.trans run
    obtain ⟨same, absorbs⟩ := rests_installDefault quiet
    exact ⟨same, fun _ => absorbs, fun _ _ found' => (by cases found.symm.trans found')⟩
  · cases failed.symm.trans run
  · cases kept.symm.trans run
    refine ⟨rfl, fun found' => (by cases found.symm.trans found'), fun id' key found' known => ?_⟩
    cases found.symm.trans found'
    have entry := Interned.get?_of_key?_of_state? known held
    exact absorbs_of_join_eq ⟨id, key, entry, rfl⟩ same
  · cases grown.symm.trans run
    exact absurd quiet (change_noting_ne_none _ _)

/-- Replacing an effect keeps a store covered if the same in the other store, with a value that
mirrors this one, changes nothing. -/
theorem proceeds_replaceEffect (ht : t.IsCoarse) (hs : Covered view t s)
    (he : EnvMirrors s t env env') (hv : Mirrors view s t value value')
    (rests : (replaceEffect env' effect value').outcome t = (.ok (), t'))
    (quiet : t'.change = none) :
    Proceeds view t s ((replaceEffect env effect value).outcome s).2 := by
  obtain ⟨-, absorbsDefault, absorbs⟩ := rests_replaceEffect rests quiet
  obtain ⟨none, none'⟩ | ⟨id, key, id', key', bound, known, rfl, bound', known', same⟩ :=
    -- Both sides look the effect up in nodes that mirror each other, so both find one or neither.
    he.findBinding ht effect
  · obtain ⟨_, -, run⟩ | ⟨-, -, run⟩ | ⟨-, -, run⟩ | ⟨id, found, -⟩ | ⟨id, _, found, -⟩ :=
      s.replaceEffect_cases env effect value
    · rw [run]
      exact .refl hs
    · rw [run]
      exact .refl hs
    · rw [run]
      exact proceeds_installDefault ht hs (hv.mirrored (absorbsDefault none'))
    · cases none.symm.trans found
    · cases none.symm.trans found
  · obtain ⟨_, -, run⟩ | ⟨found, -⟩ | ⟨found, -⟩ | ⟨_, -, -, run⟩ |
        ⟨_, current, found, held, ⟨-, run⟩ | ⟨-, run⟩⟩ := s.replaceEffect_cases env key.effect value
    · rw [run]
      exact .refl hs
    · cases bound.symm.trans found
    · cases bound.symm.trans found
    · rw [run]
      exact .refl hs
    · rw [run]
      exact .refl hs
    · rw [run]
      cases bound.symm.trans found
      have entry := Interned.get?_of_key?_of_state? known held
      exact proceeds_putBinding ht hs key.effect entry
        (hv.mirrored (same ▸ absorbs id' key' bound' known'))

/-- An extension without a change has found its node, which holds what is bound. -/
theorem rests_extendEnv (binds : t.BindsAbove)
    (quiet : ((extendEnv outer effect value).run t).2.change = none) :
    ((extendEnv outer effect value).run t).2 = t ∧
      t.envs.key? ((extendEnv outer effect value).run t).1 = some ⟨outer, effect, value⟩ ∧
      t.Absorbs (.binding effect) value := by
  obtain ⟨id, found, run⟩ | ⟨-, run⟩ := t.extendEnv_cases outer effect value
  · rw [run]
    have known := Interned.key?_of_idOf? found
    obtain ⟨w, entry⟩ := Interned.exists_get?_of_key? known
    have below : value.join w = w := Value.below_iff.1 (binds id _ w entry)
    exact ⟨rfl, known, w, ⟨id, _, entry, rfl⟩,
      fun _ _ shown => below ▸ Value.shows_join.2 (.inl shown)⟩
  · rw [run] at quiet
    exact absurd quiet (change_noting_ne_none _ _)

/-- Environments that mirror each other still do when the same effect is bound on top of them. -/
theorem proceeds_extendEnv (hs : Covered view t s) (he : EnvMirrors s t outer outer')
    (hv : Mirrors view s t value value') (binds : t.BindsAbove)
    (quiet : ((extendEnv outer' effect value').run t).2.change = none) :
    Proceeds view t s ((extendEnv outer effect value).run s).2 ∧
      EnvMirrors ((extendEnv outer effect value).run s).2 t
        (some ((extendEnv outer effect value).run s).1)
        (some ((extendEnv outer' effect value').run t).1) := by
  obtain ⟨-, known', absorbs⟩ := rests_extendEnv binds quiet
  have extended {u : Store} {id : EnvId} (keeps : s.Keeps u)
      (known : u.envs.key? id = some ⟨outer, effect, value⟩) :
      EnvMirrors u t (some id) (some ((extendEnv outer' effect value').run t).1) := by
    obtain ⟨effects, chain, chain'⟩ := he.mono keeps
    exact ⟨effect :: effects, .cons known chain, .cons known' chain'⟩
  obtain ⟨id, found, run⟩ | ⟨-, run⟩ := s.extendEnv_cases outer effect value
  · rw [run]
    exact ⟨.refl hs, extended (.refl s) (Interned.key?_of_idOf? found)⟩
  · rw [run]
    exact ⟨proceeds_addBinding hs (hv.mirrored absorbs),
      extended (keeps_addBinding s _) (Interned.key?_push_nextId ..)⟩

/-! ### Calls -/

variable {key key' : CallKey}

/-- A call is made where there is one that mirrors it. -/
theorem proceeds_internCall (hs : Covered view t s) {id' : CallId}
    (mirrors : KeyMirrors view s t key key') (known' : t.calls.key? id' = some key')
    (context : Option ClazzId) (origin : Option CallId) :
    Proceeds view t s ((internCall key context origin).run s).2 := by
  obtain ⟨id, -, run⟩ | ⟨-, run⟩ := s.internCall_cases key context origin
  · rw [run]
    exact .refl hs
  · rw [run]
    have proceeds := proceeds_internInstance hs key.clazz context
    exact proceeds.trans (proceeds_addCall proceeds.covered
      (s.provenance?_internInstance key.clazz context) known' (mirrors.mono proceeds.keeps) origin)

/-- A call is marked where all calls that mirror it are, if it has code. -/
theorem proceeds_markReturns (hs : Covered view t s) {id : CallId}
    (known : s.calls.key? id = some key)
    (returns : (key.pre = true ∨ (view.info key.clazz).kind = .routine) →
      ∀ {id' key' state'}, t.calls.get? id' = some (key', state') → KeyMirrors view s t key key' →
        state'.returns = true) : Proceeds view t s ((markReturns id).outcome s).2 := by
  obtain ⟨-, run⟩ | ⟨state, held, ⟨-, run⟩ | ⟨-, run⟩⟩ := s.markReturns_cases id
  · rw [run]
    exact .refl hs
  · rw [run]
    exact .refl hs
  · rw [run]
    exact proceeds_putReturns hs (Interned.get?_of_key?_of_state? known held) returns

end Store

end ClosedWorld
