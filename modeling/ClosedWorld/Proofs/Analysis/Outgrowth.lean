import ClosedWorld.Proofs.Analysis.Closed
import ClosedWorld.Proofs.Analysis.Growth
import ClosedWorld.Proofs.Analysis.Straight
import Mathlib.Data.Set.Finite.Lemmas

/-!
# Analyses that go on for ever

If each call of some kind leads to another one when it is analysed, and no finite number of calls
can all lead to each other, then every sweep finds new calls. So the analysis never comes to rest,
and its tables outgrow every bound.

## Main definitions

* `Store.size`, `Program.Outgrows`: how much there is in a store, and that there is no bound for it.
* `Program.Cascade`: calls that lead to each other without end.

## Main statements

* `Program.Cascade.sweep`: every sweep succeeds and finds a new call.
* `Program.Cascade.outgrows`: the analysis of such a program outgrows every bound.
* `Program.not_closed_of_levels`, `Program.not_closed_of_injective`: why there is no end.
* `Program.cascade_of_injective`: a routine that calls itself with something that is made for the
  call.
-/

namespace ClosedWorld

open Attempt

/-- The number of instances, calls, nodes and arrays. -/
def Store.size (s : Store) : Nat :=
  s.instances.size + s.calls.size + s.envs.size + s.arrays.size

/-- A table without repetition that has all keys of another one and one more is larger. -/
theorem Interned.size_lt_of_keys_subset {space : Space} {κ α : Type} {t t' : Interned space κ α}
    (nodup : t.keys.Nodup) (subset : t.keys ⊆ t'.keys) {k : κ} (new : k ∉ t.keys)
    (known : k ∈ t'.keys) : t.size < t'.size := by
  have more : (k :: t.keys).Subperm t'.keys :=
    (List.nodup_cons.2 ⟨new, nodup⟩).subperm (List.cons_subset.2 ⟨known, subset⟩)
  have length : t.keys.length + 1 ≤ t'.keys.length := more.length_le
  rwa [keys, keys, List.length_map, List.length_map] at length

/-- A table without repetition that has all keys of another one is at least as large. -/
theorem Interned.size_le_of_keys_subset {space : Space} {κ α : Type} {t t' : Interned space κ α}
    (nodup : t.keys.Nodup) (subset : t.keys ⊆ t'.keys) : t.size ≤ t'.size := by
  have length : t.keys.length ≤ t'.keys.length := (nodup.subperm subset).length_le
  rwa [keys, keys, List.length_map, List.length_map] at length

namespace Program

/-- Whatever the configuration and the bound, some number of sweeps succeed one after the other and
leave more entries in the store. -/
def Outgrows (p : Program) : Prop :=
  ∀ (config : Config) (bound : Nat), ∃ count,
    (∀ k < count, ∃ change,
      ((p.analyzer config).sweep.outcome ((p.analyzer config).afterSweeps k {})).1 = .ok change) ∧
    bound < ((p.analyzer config).afterSweeps count {}).store.size

/-- What holds of all stores of an analysis of the program. -/
structure Sound (p : Program) (s : Store) : Prop where
  closed : s.Closed
  fits : s.Fits p.view
  regular : s.IsRegular p.view.numericKind

/-- The key of the call to start with. -/
def mainKey (p : Program) : CallKey :=
  { clazz := p.main, pre := false, target := .unit, args := [], env := none }

/-- Calls that lead to each other without end. All calls are of the expected kind and can be
analysed without a fault; among them are links, and the analysis of a link finds another one. -/
structure Cascade (p : Program) (Expected Link : CallKey → Prop)
    (Next : Store → CallKey → CallKey → Prop) : Prop where
  expected_main : Expected p.mainKey
  link_main : Link p.mainKey
  analyze : ∀ config {a id key}, p.Sound a.store → (∀ key ∈ a.store.calls.keys, Expected key) →
    a.store.calls.key? id = some key →
    ((p.analyzer config).analyze id).Attains a fun _ a' => ∃ new, a.store.Adds new a'.store ∧
      (∀ key' ∈ new, Expected key') ∧
      (Link key → ∃ key' ∈ new, Link key' ∧ Next a'.store key key')
  next_of_adds : ∀ {s t new key key'}, Store.Adds new s t → Next s key key' → Next t key key'
  not_closed : ∀ (s : Store) (keys : Set CallKey), keys.Finite → p.mainKey ∈ keys →
    ¬∀ key ∈ keys, ∃ key' ∈ keys, Next s key key'

variable {p : Program} {a a' : Analysis}

namespace Sound

variable (hp : p.WellFormed) {config : Config}

include hp

/-- The analysis of a known call leaves a store `Sound` if it succeeds. -/
theorem analyze (sound : p.Sound a.store) {id : CallId} {key : CallKey}
    (known : a.store.calls.key? id = some key)
    (run : ((p.analyzer config).analyze id).outcome a = (.ok (), a')) : p.Sound a'.store := by
  have hz := p.intrinsics_analyzer config
  have inv : (StoreDiscipline.closed hp).Inv a.store := ⟨sound.closed, sound.fits⟩
  have inv' : (StoreDiscipline.growing p.view).Inv a.store := sound.regular
  have closed := (AnalysisDiscipline.ofStore (z := p.analyzer config) (StoreDiscipline.closed hp)
    true).safe_analyze hz ⟨rfl, inv⟩ ((StoreDiscipline.closed hp).goodCall_of_key inv known)
  have goodCall : (StoreDiscipline.growing p.view).GoodCall a.store id := trivial
  have growing := (AnalysisDiscipline.ofStore (z := p.analyzer config)
    (StoreDiscipline.growing p.view) true).safe_analyze hz ⟨rfl, inv'⟩ goodCall
  obtain ⟨-, -, ⟨-, ⟨closed, fits⟩⟩, -⟩ := closed.of_ok run
  obtain ⟨-, -, ⟨-, regular⟩, -⟩ := growing.of_ok run
  exact ⟨closed, fits, regular⟩

/-- A store stays `Sound` when a sweep makes sure that the call to start with is known. -/
theorem begun (sound : p.Sound a.store) (config : Config) :
    p.Sound ((p.analyzer config).begun a).store := by
  have goodKey {D : StoreDiscipline p.view} (main : D.Known p.main) :
      D.GoodKey p.view a.store (p.analyzer config).mainKey :=
    AnalysisDiscipline.goodKey_mainKey (z := p.analyzer config) D main a.store
  have inv : (StoreDiscipline.closed hp).Inv a.store := ⟨sound.closed, sound.fits⟩
  obtain ⟨⟨closed, fits⟩, -⟩ := AnalysisDiscipline.safe_begun (z := p.analyzer config)
    (StoreDiscipline.closed hp) inv (goodKey (.inl hp.main))
  obtain ⟨regular, -⟩ := AnalysisDiscipline.safe_begun (z := p.analyzer config)
    (StoreDiscipline.growing p.view) sound.regular (goodKey trivial)
  exact ⟨closed, fits, regular⟩

end Sound

/-- Where a sweep begins, the store has either stayed as it is, or got the call to start with and no
other one. -/
theorem begun_cases (config : Config) (a : Analysis) :
    (a.main ≠ none ∧ ((p.analyzer config).begun a).store = a.store) ∨
      (a.main = none ∧ a.store.Adds [p.mainKey] ((p.analyzer config).begun a).store) := by
  unfold Analyzer.begun
  obtain ⟨main, known, seeded⟩ | ⟨unknown, seeded⟩ := (p.analyzer config).seed_cases a
  · rw [seeded, known]
    exact .inl ⟨Option.some_ne_none _, rfl⟩
  · rw [seeded]
    exact .inr ⟨unknown, (a.store.adds_internCall p.mainKey none none).1⟩

namespace Cascade

variable {Expected Link : CallKey → Prop} {Next : Store → CallKey → CallKey → Prop}
  (cascade : p.Cascade Expected Link Next) (hp : p.WellFormed) (config : Config)

/-- What holds between the sweeps. -/
structure Ready (p : Program) (Expected : CallKey → Prop) (a : Analysis) : Prop where
  sound : p.Sound a.store
  expected : ∀ key ∈ a.store.calls.keys, Expected key
  main_mem : a.main ≠ none → p.mainKey ∈ a.store.calls.keys

include cascade hp

/-- Each of the calls that are analysed leads to another one, if it is a link. -/
theorem attains_analyzeAll {ids : List CallId} (sound : p.Sound a.store)
    (expected : ∀ key ∈ a.store.calls.keys, Expected key)
    (known : ∀ id ∈ ids, ∃ key, a.store.calls.key? id = some key) :
    ((p.analyzer config).analyzeAll ids).Attains a fun _ a' => p.Sound a'.store ∧
      (∀ key ∈ a'.store.calls.keys, Expected key) ∧ (∃ new, a.store.Adds new a'.store) ∧
      ∀ id ∈ ids, ∀ key, a.store.calls.key? id = some key → Link key →
        ∃ key' ∈ a'.store.calls.keys, Link key' ∧ Next a'.store key key' := by
  induction ids generalizing a with
  | nil => exact attains_pure ⟨sound, expected, ⟨[], .refl _⟩, by rintro _ ⟨⟩⟩
  | cons id rest ih =>
    obtain ⟨⟨key, here⟩, known⟩ := List.forall_mem_cons.1 known
    obtain ⟨_, b, run, new, adds, expected', next⟩ :=
      cascade.analyze config sound expected here
    have later := ih (a := b) (sound.analyze hp here run)
      (fun key' known' => (adds.mem_or_mem key' known').elim (expected' key') (expected key'))
      fun id hid => (known id hid).imp fun key known => adds.calls id key known
    unfold Analyzer.analyzeAll
    have here' : ((p.analyzer config).analyze id).Attains a fun _ b' => b' = b := ⟨_, b, run, rfl⟩
    refine here'.bind ?_
    rintro _ _ rfl
    refine later.mono ?_
    rintro _ c ⟨soundc, expectedc, ⟨new', adds'⟩, nexts⟩
    refine ⟨soundc, expectedc, ⟨_, adds.trans adds'⟩, List.forall_mem_cons.2 ⟨?_, ?_⟩⟩
    · intro key' known' link
      cases known'.symm.trans here
      obtain ⟨key', added, link', next⟩ := next link
      exact ⟨key', adds'.keys_subset (adds.mem key' added), link', cascade.next_of_adds adds' next⟩
    · exact fun id hid key known' => nexts id hid key (adds.calls id key known')

/-- Every sweep succeeds and finds a new call. -/
theorem sweep (ready : Ready p Expected a) :
    ∃ change a', (p.analyzer config).sweep.outcome a = (.ok change, a') ∧ Ready p Expected a' ∧
      a.store.calls.size < a'.store.calls.size := by
  have sound := ready.sound.begun hp config
  obtain ⟨main, expected, subset⟩ : p.mainKey ∈ ((p.analyzer config).begun a).store.calls.keys ∧
      (∀ key ∈ ((p.analyzer config).begun a).store.calls.keys, Expected key) ∧
      a.store.calls.keys ⊆ ((p.analyzer config).begun a).store.calls.keys := by
    obtain ⟨known, same⟩ | ⟨-, adds⟩ := begun_cases (p := p) config a
    · rw [same]
      exact ⟨ready.main_mem known, ready.expected, fun _ h => h⟩
    · refine ⟨adds.mem _ List.mem_cons_self, fun key known => ?_, adds.keys_subset⟩
      obtain added | known := adds.mem_or_mem key known
      · exact List.mem_singleton.1 added ▸ cascade.expected_main
      · exact ready.expected key known
  have grown := Interned.size_le_of_keys_subset ready.sound.fits.calls_nodup subset
  rw [Analyzer.sweep_outcome]
  generalize (p.analyzer config).begun a = b at *
  obtain ⟨_, c, run, soundc, expectedc, ⟨new, adds⟩, nexts⟩ :=
    cascade.attains_analyzeAll hp config sound expected fun id => Interned.mem_ids.1
  rw [run]
  refine ⟨_, _, rfl, ⟨⟨soundc.closed.unnoted, soundc.fits.unnoted, soundc.regular.unnoted⟩,
    expectedc, fun _ => adds.keys_subset main⟩, Nat.lt_of_le_of_lt grown ?_⟩
  -- Otherwise the links that were known when the sweep began would all lead to each other.
  by_contra stuck
  refine cascade.not_closed c.store {key | key ∈ b.store.calls.keys ∧ Link key}
    ((List.finite_toSet b.store.calls.keys).subset fun _ h => h.1) ⟨main, cascade.link_main⟩ ?_
  rintro key ⟨known, link⟩
  obtain ⟨id, known⟩ := Interned.mem_keys.1 known
  obtain ⟨key', known', link', next⟩ := nexts id (Interned.mem_ids.2 ⟨key, known⟩) key known link
  refine ⟨key', ⟨?_, link'⟩, next⟩
  by_contra new
  exact stuck (Interned.size_lt_of_keys_subset sound.fits.calls_nodup adds.keys_subset new known')

/-- After each number of sweeps there are at least as many calls. -/
theorem ready_afterSweeps (count : Nat) :
    Ready p Expected ((p.analyzer config).afterSweeps count {}) ∧
      (∀ k < count, ∃ change,
        ((p.analyzer config).sweep.outcome ((p.analyzer config).afterSweeps k {})).1 = .ok change) ∧
      count ≤ ((p.analyzer config).afterSweeps count {}).store.calls.size := by
  induction count with
  | zero =>
    have sound : p.Sound {} :=
      ⟨Store.closed_empty, Store.fits_empty _, Store.isRegular_empty _⟩
    have ready : Ready p Expected {} := ⟨sound, List.forall_mem_nil _, fun known => absurd rfl known⟩
    exact ⟨ready, by rintro k ⟨⟩, Nat.zero_le _⟩
  | succ count ih =>
    obtain ⟨ready, succeeded, many⟩ := ih
    obtain ⟨change, a', run, ready', more⟩ := cascade.sweep hp config ready
    have next : (p.analyzer config).afterSweeps (count + 1) {} = a' := congrArg Prod.snd run
    rw [next]
    refine ⟨ready', fun k hk => ?_, Nat.lt_of_le_of_lt many more⟩
    obtain hk | rfl := Nat.lt_succ_iff_lt_or_eq.1 hk
    · exact succeeded k hk
    · exact ⟨change, congrArg Prod.fst run⟩

omit config in
/-- The analysis of the program outgrows every bound. -/
theorem outgrows : p.Outgrows := by
  intro config bound
  obtain ⟨-, succeeded, many⟩ := cascade.ready_afterSweeps hp config (bound + 1)
  refine ⟨bound + 1, succeeded, Nat.lt_of_lt_of_le (Nat.lt_succ_self bound) (Nat.le_trans many ?_)⟩
  unfold Store.size
  omega

end Cascade

/-! ### Why there is no end -/

variable {Next : CallKey → CallKey → Prop} {keys : Set CallKey} {start : CallKey}

/-- If calls lead to calls one level up, and none is on levels without end, there is no end. -/
theorem not_closed_of_levels (Level : Nat → CallKey → Prop) (rank : CallKey → Nat)
    (lowest : Level 0 start)
    (higher : ∀ {k key key'}, Next key key' → Level k key → Level (k + 1) key')
    (bounded : ∀ {k key}, Level k key → k ≤ rank key) (finite : keys.Finite) (mem : start ∈ keys) :
    ¬∀ key ∈ keys, ∃ key' ∈ keys, Next key key' := by
  intro closed
  have reached (k : Nat) : ∃ key ∈ keys, Level k key := by
    induction k with
    | zero => exact ⟨start, mem, lowest⟩
    | succ k ih =>
      obtain ⟨key, hkey, level⟩ := ih
      obtain ⟨next, hnext, leads⟩ := closed key hkey
      exact ⟨next, hnext, higher leads level⟩
  obtain ⟨last, -, greatest⟩ := Set.exists_max_image keys rank finite ⟨start, mem⟩
  obtain ⟨key, hkey, level⟩ := reached (rank last + 1)
  exact Nat.not_lt_of_le (greatest key hkey) (bounded level)

/-- If different calls lead to different ones, and none leads back to the start, there is no end. -/
theorem not_closed_of_injective
    (injective : ∀ {key₁ key₂ key'}, key₁ ∈ keys → key₂ ∈ keys → Next key₁ key' → Next key₂ key' →
      key₁ = key₂)
    (not_start : ∀ {key}, ¬Next key start) (finite : keys.Finite) (mem : start ∈ keys) :
    ¬∀ key ∈ keys, ∃ key' ∈ keys, Next key key' := by
  intro closed
  choose! next inside leads using closed
  have injOn : Set.InjOn next keys := fun key₁ h₁ key₂ h₂ same =>
    injective h₁ h₂ (leads key₁ h₁) (same ▸ leads key₂ h₂)
  have bijOn := (finite.injOn_iff_bijOn_of_mapsTo inside).1 injOn
  obtain ⟨key, hkey, leadsBack⟩ := bijOn.surjOn mem
  exact not_start (leadsBack ▸ leads key hkey)

/-- Calls of a routine that each make two calls, one of them again of the routine. What the routine
is called with differs, and that tells the calls apart from which the others come. -/
theorem cascade_of_injective {p : Program} {ι : Type} {link aside : ι → CallKey}
    {Leads : ι → ι → Store → Prop} (first : ι) (main : p.mainKey = link first)
    (link_injective : Function.Injective link) (ne_link : ∀ {x y}, aside x ≠ link y)
    (linked : ∀ {config a id x}, a.store.calls.key? id = some (link x) →
      ((p.analyzer config).analyze id).Attains a fun _ a' => ∃ new, a.store.Adds new a'.store ∧
        ∃ y, new = [aside x, link y] ∧ Leads x y a'.store)
    (idle : ∀ {config a id x}, a.store.calls.key? id = some (aside x) →
      ((p.analyzer config).analyze id).Attains a fun _ a' => a' = a)
    (of_adds : ∀ {s t new x y}, Store.Adds new s t → Leads x y s → Leads x y t)
    (injective : ∀ {s x x' y}, Leads x y s → Leads x' y s → x = x')
    (not_first : ∀ {s x}, ¬Leads x first s) :
    p.Cascade (fun key => ∃ x, key = link x ∨ key = aside x) (fun key => ∃ x, key = link x)
      (fun s key key' => ∃ x y, key = link x ∧ key' = link y ∧ Leads x y s) where
  expected_main := ⟨first, .inl main⟩
  link_main := ⟨first, main⟩
  analyze config a id key _ expected known := by
    obtain ⟨x, rfl | rfl⟩ := expected key (Interned.mem_keys.2 ⟨id, known⟩)
    · refine (linked known).mono ?_
      rintro _ a' ⟨_, adds, y, rfl, leads⟩
      refine ⟨_, adds, ?_, fun _ => ⟨_, List.mem_cons_of_mem _ List.mem_cons_self, ⟨y, rfl⟩, x, y,
        rfl, rfl, leads⟩⟩
      exact List.forall_mem_cons.2 ⟨⟨x, .inr rfl⟩, List.forall_mem_singleton.2 ⟨y, .inl rfl⟩⟩
    · refine (idle known).mono ?_
      rintro _ _ rfl
      exact ⟨[], .refl _, List.forall_mem_nil _, fun ⟨_, same⟩ => absurd same ne_link⟩
  next_of_adds := by
    rintro s t new key key' adds ⟨x, y, hkey, hkey', leads⟩
    exact ⟨x, y, hkey, hkey', of_adds adds leads⟩
  not_closed s keys := by
    refine not_closed_of_injective ?_ ?_
    · rintro _ _ _ _ _ ⟨x, y, rfl, rfl, leads⟩ ⟨x', y', rfl, same, leads'⟩
      rw [← link_injective same] at leads'
      rw [injective leads leads']
    · rintro _ ⟨x, y, -, same, leads⟩
      rw [← link_injective (main.symm.trans same)] at leads
      exact not_first leads

end Program

end ClosedWorld
