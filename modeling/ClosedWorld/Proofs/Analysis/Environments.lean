import ClosedWorld.Proofs.Analysis.Invariants
import ClosedWorld.Proofs.Analysis.Meanings
import ClosedWorld.Proofs.Store.Scopes

/-!
# Effect environments follow the call graph

A call hands its environment on to the calls that it discovers. There is one exception: the
intrinsic that installs an effect hands on a node that binds its target on top of its own
environment. This holds of every edge of the call graph, in whatever state an analysis is, so what
was installed around a call is what the call finds.

## Main definitions

* `Store.HandsOn`: how the environments of two calls are related.
* `Analysis.HandsOnEnvs`: they are so along every edge of the call graph.

## Main statements

* `Analyzer.maintains_handsOnEnvs`: every elementary step maintains this.
* `Analyzer.handsOn_of_reaches`: environments are handed on along the call graph.
-/

namespace ClosedWorld

namespace Store

variable {view : View} {s t : Store} {caller callee : CallKey}

/-- The callee has the environment of the caller, or the caller is of the intrinsic that installs
its target, and the environment of the callee is the node for that. -/
inductive HandsOn (view : View) (s : Store) (caller callee : CallKey) : Prop where
  | own (env : callee.env = caller.env)
  | installed {effect : ClazzId} {node : EnvId}
      (installs : view.CallsIntrinsic "effect.abortable" caller)
      (typed : (view.info caller.clazz).effectType = some effect) (env : callee.env = some node)
      (bound : s.envs.key? node = some ⟨caller.env, effect, caller.target⟩)

/-- What a caller hands on it hands on in a later store too, as nodes keep their keys. -/
theorem HandsOn.mono (envs : s.envs.KeepsKeys t.envs) (h : s.HandsOn view caller callee) :
    t.HandsOn view caller callee := by
  cases h with
  | own env => exact .own env
  | installed installs typed env bound => exact .installed installs typed env (envs _ _ bound)

end Store

namespace Analysis

variable {view : View} {a a' : Analysis}

/-- Along every edge of the call graph, the environment is handed on. -/
def HandsOnEnvs (view : View) (a : Analysis) : Prop :=
  ∀ e ∈ a.edges, ∃ caller callee, a.store.calls.key? e.caller = some caller ∧
    a.store.calls.key? e.callee = some callee ∧ a.store.HandsOn view caller callee

/-- Environments are handed on along the edges of a later state that has no more of them. -/
theorem HandsOnEnvs.mono (h : a.HandsOnEnvs view) (edges : a'.edges = a.edges)
    (calls : a.store.calls.KeepsKeys a'.store.calls) (envs : a.store.envs.KeepsKeys a'.store.envs) :
    a'.HandsOnEnvs view := by
  intro e he
  rw [edges] at he
  obtain ⟨caller, callee, called, discovered, handsOn⟩ := h e he
  exact ⟨caller, callee, calls _ _ called, calls _ _ discovered, handsOn.mono envs⟩

end Analysis

namespace Analyzer

variable {z : Analyzer}

/-! ### Edges -/

/-- Whoever discovers a call hands its environment on, or installs one. -/
theorem handsOn_of_discovers {s t : Store} {key : CallKey} {origin : CallId}
    (discovers : (StoreDiscipline.evolving z.view).Discovers z.view s origin key)
    (envs : t.envs = s.envs) :
    ∃ own, s.calls.key? origin = some own ∧ t.HandsOn z.view own key := by
  cases discovers with
  | access called env => exact ⟨_, called, .own env⟩
  | install called installs typed env bound =>
    exact ⟨_, called, .installed installs typed env (envs ▸ bound)⟩

/-- Every elementary step of an analysis keeps environments handed on along the edges. -/
theorem maintains_handsOnEnvs : z.Maintains (Analysis.HandsOnEnvs z.view) where
  start := List.forall_mem_nil _
  continues handsOn h := handsOn.mono h.edges h.keepsKeys h.envs
  seeds {a} handsOn unknown := by
    obtain ⟨main, known, -⟩ | ⟨-, seeded⟩ := z.seed_cases a
    · cases unknown.symm.trans known
    · rw [seeded]
      have envs := a.store.envs_internCall z.mainKey none none
      refine handsOn.mono rfl (a.store.extendsCalls_internCall z.mainKey none none).keepsKeys ?_
      dsimp only
      rw [envs]
      exact Interned.keepsKeys_refl _
  discovers {a key origin} context handsOn discovers := by
    have keeps := (a.store.extendsCalls_internCall key context (some origin)).keepsKeys
    have envs := a.store.envs_internCall key context (some origin)
    have found := a.store.key?_internCall key context (some origin)
    intro e he
    rcases Ascending.mem_insert.1 he with rfl | he
    · obtain ⟨own, called, handed⟩ := handsOn_of_discovers discovers envs
      exact ⟨own, key, keeps _ _ called, found, handed⟩
    · obtain ⟨caller, callee, called, discovered, handed⟩ := handsOn e he
      refine ⟨caller, callee, keeps _ _ called, keeps _ _ discovered, handed.mono ?_⟩
      dsimp only [Analysis.discovering]
      rw [envs]
      exact Interned.keepsKeys_refl _

variable (hz : z.intrinsics = .standard)

include hz

/-- Wherever an analysis is, its store is sound and environments are handed on. -/
theorem tracing_of_reaches {a : Analysis} (reached : z.Reaches a) :
    a.store.Sound z.view ∧ a.HandsOnEnvs z.view :=
  maintains_handsOnEnvs.of_reaches hz reached

/-- Environments are handed on along the call graph. Wherever an analysis is, the callee of an edge
has the environment of the caller, or the caller is of the intrinsic that installs its target, and
the environment of the callee is the node that binds the target on top of the environment of the
caller. What is found of the effect there is the target, or more, whatever is bound further out. -/
theorem handsOn_of_reaches {a : Analysis} (reached : z.Reaches a) {e : Edge} (he : e ∈ a.edges) :
    ∃ caller callee, a.store.calls.key? e.caller = some caller ∧
      a.store.calls.key? e.callee = some callee ∧
      (callee.env = caller.env ∨
        ∃ effect node v, z.view.CallsIntrinsic "effect.abortable" caller ∧
          (z.view.info caller.clazz).effectType = some effect ∧ callee.env = some node ∧
          a.store.envs.key? node = some ⟨caller.env, effect, caller.target⟩ ∧
          a.store.lookupEffect callee.env effect = .ok (some v) ∧ caller.target.Below v) := by
  obtain ⟨sound, handsOn⟩ := tracing_of_reaches hz reached
  obtain ⟨caller, callee, called, discovered, handed⟩ := handsOn e he
  refine ⟨caller, callee, called, discovered, ?_⟩
  cases handed with
  | own env => exact .inl env
  | @installed effect node installs typed env bound =>
    obtain ⟨v, found, below⟩ := sound.binds.lookupEffect bound
    exact .inr ⟨effect, node, v, installs, typed, env, bound, env ▸ found, below⟩

omit hz

/-- An analysis of a program whose default logger is a quiet one. A function is called with a loud
one installed, and replaces that by a quiet one. -/
def shielding : Analyzer where
  view := Program.view
    { clazzes :=
        [ ("main", { kind := .routine, code := some ⟨0⟩ })
        , ("Logger", { kind := .routine, isRef := true, needsCode := false })
        , ("Quiet", { kind := .routine, result := some ⟨2⟩, code := some ⟨1⟩, isRef := true })
        , ("Loud", { kind := .routine, result := some ⟨3⟩, code := some ⟨1⟩, isRef := true })
        , ("effect.default", { kind := .intrinsic, outer := some ⟨1⟩, effectType := some ⟨1⟩ })
        , ("effect.replace", { kind := .intrinsic, outer := some ⟨1⟩, effectType := some ⟨1⟩ })
        , ("effect.abortable",
            { kind := .intrinsic, outer := some ⟨1⟩, effectType := some ⟨1⟩, generics := [⟨8⟩]
              args := [⟨7⟩] })
        , ("effect.abortable.code", { kind := .field, outer := some ⟨6⟩, result := some ⟨8⟩ })
        , ("Fun", { kind := .routine, result := some ⟨8⟩, code := some ⟨1⟩, isRef := true,
                    call := some ⟨9⟩ })
        , ("Fun.call", { kind := .routine, outer := some ⟨8⟩, code := some ⟨2⟩ }) ]
      blocks :=
        [ [ .current, .call (.fixed ⟨2⟩), .call (.fixed ⟨4⟩), .pop
          , .current, .call (.fixed ⟨3⟩), .current, .call (.fixed ⟨8⟩), .call (.fixed ⟨6⟩) ]
        , []
        , [.current, .call (.fixed ⟨2⟩), .call (.fixed ⟨5⟩)] ]
      main := ⟨0⟩
      constString := none }

/-- The function finds the loud logger, next to the one that replaces it, rather than the default.
-/
theorem handsOn_of_reaches_shielding :
    ∃ final, shielding.run 12 {} = some (.ok final) ∧
      final.store.defaults.find? ⟨1⟩ = some (.object ⟨1⟩) ∧ ⟨⟨5⟩, ⟨6⟩⟩ ∈ final.edges ∧
      ∃ callee, final.store.calls.key? ⟨6⟩ = some callee ∧ ∃ v,
        final.store.lookupEffect callee.env ⟨1⟩ = .ok (some v) ∧ (Value.object ⟨3⟩).Below v := by
  have table : shielding.intrinsics = .standard := by simp only [shielding]
  obtain ⟨final, run, default, edge, installs, wrapped⟩ :
      ∃ final, shielding.run 12 {} = some (.ok final) ∧
        final.store.defaults.find? ⟨1⟩ = some (.object ⟨1⟩) ∧ ⟨⟨5⟩, ⟨6⟩⟩ ∈ final.edges ∧
        final.store.calls.key? ⟨5⟩ =
          some ⟨⟨6⟩, false, .object ⟨3⟩, [.object ⟨4⟩], none⟩ ∧
        final.store.calls.key? ⟨6⟩ = some ⟨⟨9⟩, false, .object ⟨4⟩, [], some ⟨0⟩⟩ := by
    rw [← (agrees_own table (by decide +kernel)).run]
    exact exists_run (by decide +kernel)
  have logger : (shielding.view.info ⟨6⟩).effectType = some ⟨1⟩ := by decide +kernel
  refine ⟨final, run, default, edge, _, wrapped, ?_⟩
  obtain ⟨caller, callee, called, discovered, own | ⟨effect, node, v, -, typed, -, -, found, below⟩⟩ :=
    handsOn_of_reaches table (reaches_run run) edge
  · cases installs.symm.trans called
    cases wrapped.symm.trans discovered
    cases own
  · cases installs.symm.trans called
    cases wrapped.symm.trans discovered
    cases logger.symm.trans typed
    exact ⟨v, found, below⟩

end Analyzer

end ClosedWorld
