import ClosedWorld.Proofs.Analysis.Closed
import ClosedWorld.Proofs.Analysis.Runaway
import ClosedWorld.Proofs.Store.Contexts
import Mathlib.Data.List.ProdSigma

/-!
# How many instances there are

Instances are told apart by their clazz and by their context, and both come from the table of
clazzes. So the configuration alone bounds how many there are, also of a program whose calls, nodes
or arrays become more and more.

## Main definitions

* `Program.HasLayout`: what constant strings are made of is in the table.

## Main statements

* `Analyzer.contextsIn_of_reaches`: instances are in the contexts that the configuration asks for.
* `Analyzer.instances_bounded_of_reaches`: the bounds.
-/

namespace ClosedWorld

/-! ### Keys -/

/-- The key of an instance is its clazz and its context. -/
theorem InstanceKey.eq_of_clazz_of_context {k l : InstanceKey} (clazz : k.clazz = l.clazz)
    (context : k.context = l.context) : k = l := by
  cases k
  cases l
  simp_all

namespace Store

variable {s : Store} (nodup : s.instances.keys.Nodup)

include nodup

/-- Instances of one context are told apart by their clazzes. -/
theorem nodup_clazz_of_context {context : Option ClazzId}
    (same : ∀ key ∈ s.instances.keys, key.context = context) :
    (s.instances.keys.map InstanceKey.clazz).Nodup := by
  refine nodup.map_on fun k hk l hl clazz => ?_
  exact InstanceKey.eq_of_clazz_of_context clazz ((same k hk).trans (same l hl).symm)

/-- There are no more instances than clazzes in contexts. -/
theorem size_instances_le_mul {clazzes : List ClazzId} {contexts : List (Option ClazzId)}
    (supplied : ∀ key ∈ s.instances.keys, key.clazz ∈ clazzes ∧ key.context ∈ contexts) :
    s.instances.size ≤ clazzes.length * contexts.length := by
  have apart : (s.instances.keys.map fun key => (key.clazz, key.context)).Nodup := by
    refine nodup.map_on fun k _ l _ same => ?_
    obtain ⟨clazz, context⟩ := Prod.mk.inj same
    exact InstanceKey.eq_of_clazz_of_context clazz context
  have listed : (s.instances.keys.map fun key => (key.clazz, key.context)) ⊆
      clazzes ×ˢ contexts := by
    intro _ told
    obtain ⟨key, known, rfl⟩ := List.mem_map.1 told
    exact List.mem_product.2 (supplied key known)
  calc s.instances.size
    _ = (s.instances.keys.map fun key => (key.clazz, key.context)).length := by
      rw [List.length_map, Interned.keys, List.length_map, Interned.size]
    _ ≤ (clazzes ×ˢ contexts).length := (apart.subperm listed).length_le
    _ = clazzes.length * contexts.length := List.length_product ..

end Store

/-! ### Programs -/

/-- The clazzes of which constant strings have instances, and the fields in these, are in the table.
-/
def Program.HasLayout (p : Program) : Prop :=
  ∀ layout, p.constString = some layout → ∀ c ∈ layout.clazzes, c.index < p.clazzCount

/-- The clazzes that occur in a program are in its table, if those of its layout are. -/
theorem Program.HasLayout.mem_below_of_occurs {p : Program} (h : p.HasLayout) {c : ClazzId}
    (occurs : p.view.Occurs c) : c ∈ Ident.below .clazz p.clazzCount := by
  rw [Ident.mem_below]
  obtain inTable | ⟨layout, told, listed⟩ := occurs
  · exact inTable
  · exact h layout told c listed

/-- The contexts that instances of a program can be in. -/
def Program.contexts (p : Program) : InstanceContext → List (Option ClazzId)
  | .clazz => [none]
  | .creatingClazz => none :: (Ident.below .clazz p.clazzCount).map some

namespace Analyzer

variable {p : Program} {config : Config} {a : Analysis}

/-- Wherever an analysis is, its store fits the program. -/
theorem fits_of_reaches (hp : p.WellFormed) (reached : (p.analyzer config).Reaches a) :
    a.store.Fits p.view :=
  (inv_closed_of_reaches hp reached).2

/-- Instances are in admitted contexts as long as no context and those that the configuration asks
for are admitted. -/
theorem contextsIn_of_reaches {z : Analyzer} (hz : z.intrinsics = .standard)
    {admitted : Option ClazzId → Prop} (plain : admitted none)
    (asked : ∀ creator, admitted (z.contextOf creator)) (reached : z.Reaches a) :
    a.store.ContextsIn admitted :=
  inv_of_reaches hz (StoreDiscipline.contexts z.view admitted plain) trivial (fun h => h)
    .empty reached ⟨fun _ => trivial, fun _ => asked _⟩

/-- The clazzes of instances are in the table, and their contexts are among those of the program. -/
theorem supplied_of_reaches (hp : p.WellFormed) (layout : p.HasLayout)
    (reached : (p.analyzer config).Reaches a) {key : InstanceKey}
    (listed : key ∈ a.store.instances.keys) :
    key.clazz ∈ Ident.below .clazz p.clazzCount ∧
      key.context ∈ p.contexts config.instanceContext := by
  obtain ⟨id, held⟩ := Interned.mem_keys.1 listed
  obtain ⟨fields, entry⟩ := Interned.exists_get?_of_key? held
  obtain ⟨clazz, context, -⟩ := (fits_of_reaches hp reached).instances id key fields entry
  refine ⟨layout.mem_below_of_occurs clazz, ?_⟩
  cases mode : config.instanceContext with
  | clazz =>
    have asked (creator : ClazzId) : (p.analyzer config).contextOf creator = none := by
      simp only [Setting.contextOf, Program.analyzer, mode]
    have contexts : a.store.ContextsIn (· = none) :=
      contextsIn_of_reaches (p.intrinsics_analyzer config) rfl asked reached
    rw [contexts.context held]
    exact List.mem_singleton_self none
  | creatingClazz =>
    cases made : key.context with
    | none => exact List.mem_cons_self
    | some c =>
      have known := layout.mem_below_of_occurs (context c made)
      exact List.mem_cons_of_mem _ (List.mem_map_of_mem known)

/-- However many sweeps the analysis of an accepted program has made, and wherever it is in one,
there are only so many instances, as long as constant strings are made of clazzes of the table. If
instances are told apart by their clazz alone, none has a context, and each clazz has one instance
at most. Otherwise their contexts are clazzes of the table. -/
theorem instances_bounded_of_reaches {d : Draft} (built : d.build = .ok p) (layout : p.HasLayout)
    (reached : (p.analyzer config).Reaches a) :
    (∀ key ∈ a.store.instances.keys, key.clazz.index < p.clazzCount) ∧
      (config.instanceContext = .clazz →
        (∀ key ∈ a.store.instances.keys, key.context = none) ∧
          (a.store.instances.keys.map InstanceKey.clazz).Nodup ∧
          a.store.instances.size ≤ p.clazzCount) ∧
      (config.instanceContext = .creatingClazz →
        (∀ key ∈ a.store.instances.keys, ∀ c, key.context = some c → c.index < p.clazzCount) ∧
          a.store.instances.size ≤ p.clazzCount * (p.clazzCount + 1)) := by
  have hp := Draft.wellFormed_of_build built
  have nodup := (fits_of_reaches hp reached).instances_nodup
  have supplied : ∀ key ∈ a.store.instances.keys,
      key.clazz ∈ Ident.below .clazz p.clazzCount ∧
        key.context ∈ p.contexts config.instanceContext :=
    fun _ => supplied_of_reaches hp layout reached
  have bound := Store.size_instances_le_mul nodup supplied
  rw [Ident.length_below] at bound
  refine ⟨fun key listed => Ident.mem_below.1 (supplied key listed).1, fun mode => ?_,
    fun mode => ?_⟩
  · rw [mode] at supplied bound
    have without : ∀ key ∈ a.store.instances.keys, key.context = none := fun key listed =>
      List.mem_singleton.1 (supplied key listed).2
    refine ⟨without, Store.nodup_clazz_of_context nodup without, ?_⟩
    simpa [Program.contexts] using bound
  · rw [mode] at supplied bound
    refine ⟨fun key listed c made => ?_, ?_⟩
    · have known := (supplied key listed).2
      rw [made] at known
      simpa [Program.contexts, Ident.mem_below] using known
    · simpa [Program.contexts] using bound

/-- The analysis of a program makes more and more calls, and has all instances there can be, whether
these are told apart by their clazz alone or not. -/
theorem instances_bounded_of_reaches_runaway :
    ∃ p, Feature.tag.runaway.build = .ok p ∧ p.clazzCount = 1 ∧
      (let s := ((p.analyzer {}).afterSweeps 5 {}).store
       s.calls.size = 6 ∧ s.instances.keys.map InstanceKey.context = [none] ∧
         s.instances.size ≤ 1) ∧
      let s := ((p.analyzer { instanceContext := .creatingClazz }).afterSweeps 5 {}).store
      s.calls.size = 6 ∧ s.instances.keys.map InstanceKey.context = [none, some ⟨0⟩] ∧
        s.instances.size ≤ 1 * (1 + 1) := by
  have built : Feature.tag.runaway.build = .ok Feature.tag.runaway.toProgram :=
    Feature.build_runaway .tag
  have layout : Feature.tag.runaway.toProgram.HasLayout := by
    rintro _ ⟨⟩
  obtain ⟨-, ofClazz, -⟩ := instances_bounded_of_reaches built layout (reaches_afterSweeps _ 5)
  obtain ⟨-, -, ofCreator⟩ := instances_bounded_of_reaches built layout (reaches_afterSweeps _ 5)
  exact ⟨_, built, by decide, ⟨by decide +kernel, by decide +kernel, (ofClazz rfl).2.2⟩,
    by decide +kernel, by decide +kernel, (ofCreator rfl).2⟩

end Analyzer

end ClosedWorld
