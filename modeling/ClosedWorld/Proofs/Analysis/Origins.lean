import ClosedWorld.Analysis.Report
import ClosedWorld.Proofs.Analysis.Invariants
import ClosedWorld.Proofs.Analysis.Meanings

/-!
# Where calls come from

A call keeps as its origin the call that discovered it first, and the call graph has an edge from
there. The one that discovers is in the table already, so it is older, and following origins from a
call leads back to the call to start with. In a table whose origins are arbitrary, the search for
them stops all the same, since it does not go on to a call that it has come by.

## Main definitions

* `Store.origin?`: the call that discovered a call first.
* `Store.Traces`: a chain of first discoveries.
* `Analysis.HasOrigins`: every call but the first one has an older origin.
* `Report.Explains`: a chain of calls that explains one from the call to start with.

## Main statements

* `Store.traces_discoveries`: what the search for origins finds, in any table.
* `Analyzer.maintains_hasOrigins`: every elementary step maintains that calls have origins.
* `Analyzer.run_explains`: every call in a report is explained.
-/

namespace ClosedWorld

namespace Store

variable {s : Store} {p q c : CallId} {chain rest : List CallId}

/-- The call that discovered a call first, if both the call and that are known. -/
def origin? (s : Store) (call : CallId) : Option CallId :=
  (s.calls.state? call).bind CallState.origin

/-- A call with an `origin?` is in the table of calls. -/
theorem mem_ids_of_origin? (h : s.origin? q = some p) : q ∈ s.calls.ids := by
  obtain ⟨state, held, -⟩ := Option.bind_eq_some_iff.1 h
  obtain ⟨key, entry⟩ := Interned.exists_get?_of_state? held
  exact Interned.mem_ids.2 ⟨key, Interned.key?_of_get? entry⟩

/-! ### Chains of discoveries -/

/-- The calls of the chain have discovered each the next one, and the last one is the call. -/
structure Traces (s : Store) (call : CallId) (chain : List CallId) : Prop where
  nodup : chain.Nodup
  last : chain.getLast? = some call
  steps : chain.IsChain fun p q => s.origin? q = some p

namespace Traces

/-- A chain that consists of one call alone is traced, since nothing in it has an origin to give. -/
theorem single (s : Store) (call : CallId) : s.Traces call [call] :=
  ⟨List.nodup_singleton call, rfl, .singleton call⟩

/-- A chain is traced further by putting the `origin?` of its first call in front, if this call is
`new` to it. -/
theorem cons (h : s.Traces c (q :: rest)) (origin : s.origin? q = some p) (new : p ∉ q :: rest) :
    s.Traces c (p :: q :: rest) where
  nodup := List.nodup_cons.2 ⟨new, h.nodup⟩
  last := h.last
  steps := .cons_cons origin h.steps

/-- Every call of a chain of discoveries but the first one is in the table, as it has an `origin?`.
-/
theorem mem_ids_of_isChain (h : (q :: rest).IsChain fun p q => s.origin? q = some p) :
    ∀ call ∈ rest, call ∈ s.calls.ids := by
  induction rest generalizing q with
  | nil => exact List.forall_mem_nil _
  | cons next rest ih =>
    obtain ⟨origin, steps⟩ := List.isChain_cons_cons.1 h
    exact List.forall_mem_cons.2 ⟨mem_ids_of_origin? origin, ih steps⟩

/-- All but the first call of a chain are in the table, so the chain is no longer than that. -/
theorem length_le (h : s.Traces c (q :: rest)) : rest.length ≤ s.calls.size := by
  have listed : rest ⊆ s.calls.ids := mem_ids_of_isChain h.steps
  calc rest.length ≤ s.calls.ids.length := (h.nodup.of_cons.subperm listed).length_le
    _ = s.calls.size := by simp [Interned.ids, Ident.below]

end Traces

/-- The search for origins finds a chain of discoveries that leads as far back as it can without
coming by a call twice, if it may look at one call more than there are in the table. -/
theorem traces_discoveries {steps : Nat} (h : s.Traces c (q :: rest))
    (enough : s.calls.size + 1 ≤ steps + rest.length) :
    s.Traces c (Report.discoveries s steps q (q :: rest)) ∧
      ∀ p, (Report.discoveries s steps q (q :: rest)).head?.bind s.origin? = some p →
        p ∈ Report.discoveries s steps q (q :: rest) := by
  -- A chain without repetition is no longer than there are calls, so the steps do not run out.
  induction steps generalizing q rest with
  | zero =>
    have bound := h.length_le
    omega
  | succ steps ih =>
    unfold Report.discoveries
    cases found : (s.calls.state? q).bind CallState.origin with
    | none =>
      refine ⟨h, fun p origin => ?_⟩
      cases found.symm.trans origin
    | some p =>
      dsimp only
      split
      · rename_i known
        refine ⟨h, fun p' origin => ?_⟩
        cases found.symm.trans origin
        exact known
      · rename_i new
        refine ih (h.cons found new) ?_
        rw [List.length_cons]
        omega

/-- More steps than that find the same chain. -/
theorem discoveries_add {steps : Nat} (h : s.Traces c (q :: rest))
    (enough : s.calls.size + 1 ≤ steps + rest.length) (more : Nat) :
    Report.discoveries s (steps + more) q (q :: rest) =
      Report.discoveries s steps q (q :: rest) := by
  induction steps generalizing q rest with
  | zero =>
    have bound := h.length_le
    omega
  | succ steps ih =>
    rw [Nat.add_right_comm]
    unfold Report.discoveries
    cases found : (s.calls.state? q).bind CallState.origin with
    | none => rfl
    | some p =>
      dsimp only
      split
      · rfl
      · rename_i new
        refine ih (h.cons found new) ?_
        rw [List.length_cons]
        omega

end Store

/-! ### Origins in an analysis -/

/-- The call to start with is the first one and has no origin, and every other call has an older one
and an edge from there. Without a call to start with there are none. -/
structure Analysis.HasOrigins (a : Analysis) : Prop where
  unstarted : a.main = none → a.store.calls.size = 0
  started : ∀ main, a.main = some main → main = ⟨0⟩
  origins : ∀ q key state, a.store.calls.get? q = some (key, state) →
    q = ⟨0⟩ ∧ state.origin = none ∨
      ∃ p, state.origin = some p ∧ p.index < q.index ∧ ⟨p, q⟩ ∈ a.edges

namespace Analyzer

variable {z : Analyzer}

/-- A call is only discovered by one that is known already, so its `origin` has a key. -/
theorem known_of_discovers {s : Store} {key : CallKey} {origin : CallId}
    (discovers : (StoreDiscipline.evolving z.view).Discovers z.view s origin key) :
    ∃ own, s.calls.key? origin = some own := by
  cases discovers with
  | access called => exact ⟨_, called⟩
  | install called => exact ⟨_, called⟩

/-- Every elementary step maintains `HasOrigins`: a call that is made gets an older origin, and
origins of known calls stay. -/
theorem maintains_hasOrigins : z.Maintains Analysis.HasOrigins where
  start := ⟨fun _ => rfl, (by rintro _ ⟨⟩), by rintro _ _ _ ⟨⟩⟩
  continues {a a'} has h := by
    refine ⟨?_, ?_, fun q key state' known => ?_⟩
    · rw [h.main, h.size]
      exact has.unstarted
    · rw [h.main]
      exact has.started
    · obtain ⟨state, held, below⟩ := h.exists_get? known
      rw [below.origin, h.edges]
      exact has.origins q key state held
  seeds {a} has unknown := by
    have empty := has.unstarted unknown
    obtain ⟨main, known, -⟩ | ⟨-, seeded⟩ := z.seed_cases a
    · cases unknown.symm.trans known
    · rw [seeded]
      obtain ⟨id, known, -⟩ | ⟨-, made, frame, calls⟩ :=
        a.store.calls_internCall_cases z.mainKey none none
      -- Without a call to start with there is none in the table, so that one is new and comes
      -- first.
      · have there := Interned.index_lt_size_of_key? (Interned.key?_of_idOf? known)
        omega
      · have first : a.store.calls.nextId = ⟨0⟩ := congrArg Ident.mk empty
        rw [first] at made
        refine ⟨(by rintro ⟨⟩), ?_, fun q key state known => ?_⟩
        · rintro _ ⟨⟩
          exact made
        · dsimp only at known
          rw [calls, Interned.get?_push, first] at known
          split at known
          · rename_i same
            cases known
            exact .inl ⟨same, rfl⟩
          · have there := Interned.index_lt_size_of_key? (Interned.key?_of_get? known)
            omega
  discovers {a key origin} context has discovers := by
    obtain ⟨own, called⟩ := known_of_discovers discovers
    have older := Interned.index_lt_size_of_key? called
    have old (q : CallId) (key' : CallKey) (state : CallState) (e : Edge)
        (known : a.store.calls.get? q = some (key', state)) :
        q = ⟨0⟩ ∧ state.origin = none ∨
          ∃ p, state.origin = some p ∧ p.index < q.index ∧ ⟨p, q⟩ ∈ Ascending.insert e a.edges :=
      (has.origins q key' state known).imp_right fun ⟨p, origin, older, edge⟩ =>
        ⟨p, origin, older, Ascending.mem_insert.2 (.inr edge)⟩
    refine ⟨fun unknown => ?_, has.started, fun q key' state known => ?_⟩
    · have empty := has.unstarted unknown
      omega
    -- A call that is new has the one that discovers it for its origin, and that is older.
    · dsimp only [Analysis.discovering] at known
      obtain ⟨id, -, run⟩ | ⟨-, made, frame, calls⟩ :=
        a.store.calls_internCall_cases key context (some origin)
      · rw [run] at known
        exact old q key' state _ known
      · rw [calls, Interned.get?_push] at known
        split at known
        · rename_i same
          cases known
          refine .inr ⟨origin, rfl, ?_, ?_⟩
          · rw [same]
            exact older
          · rw [same, ← made]
            exact Ascending.mem_insert.2 (.inl rfl)
        · exact old q key' state _ known

end Analyzer

/-! ### Reports -/

namespace Report

variable {r : Report} {p q c : CallId} {chain : List CallId}

/-- The `callers` of a call in a report are those that the call graph has an edge from. -/
theorem mem_callers : p ∈ r.callers q ↔ ⟨p, q⟩ ∈ r.analysis.edges := by
  unfold callers
  rw [List.mem_filterMap]
  constructor
  · rintro ⟨⟨caller, callee⟩, edge, found⟩
    dsimp only at found
    split at found
    · rename_i same
      cases found
      cases same
      exact edge
    · cases found
  · intro edge
    exact ⟨_, edge, if_pos rfl⟩

/-- The chain explains the call: it starts with the call that the analysis started with, each call
in it is the origin of the next one, a younger one, and calls it, and it ends with the call. -/
structure Explains (r : Report) (call : CallId) (chain : List CallId) : Prop where
  first : chain.head? = some r.main
  last : chain.getLast? = some call
  increasing : chain.Pairwise fun p q => p.index < q.index
  steps : chain.IsChain fun p q =>
    r.store.origin? q = some p ∧ ⟨p, q⟩ ∈ r.analysis.edges ∧ p ∈ r.callers q
  reachable : Relation.ReflTransGen (fun p q => p ∈ r.callers q) r.main call

variable (has : r.analysis.HasOrigins)

include has

/-- In an analysis in which calls have origins, the call to start with is the first one of the
table. -/
theorem main_of_hasOrigins : r.main = ⟨0⟩ := by
  unfold main
  cases known : r.analysis.main with
  | none => rfl
  | some main => exact has.started main known

/-- An `origin?` in a report is older than what it discovered, and the call graph has an edge
between the two. -/
theorem older_of_origin? (origin : r.store.origin? q = some p) :
    p.index < q.index ∧ ⟨p, q⟩ ∈ r.analysis.edges := by
  obtain ⟨state, held, origin⟩ := Option.bind_eq_some_iff.1 origin
  obtain ⟨key, entry⟩ := Interned.exists_get?_of_state? held
  obtain ⟨-, none⟩ | ⟨p', origin', older, edge⟩ := has.origins q key state entry
  · cases none.symm.trans origin
  · cases origin'.symm.trans origin
    exact ⟨older, edge⟩

/-- A known call without an origin is the one to start with. -/
theorem eq_main_of_origin? (known : q.index < r.store.calls.size) (none : r.store.origin? q = none) :
    q = r.main := by
  obtain ⟨⟨key, state⟩, entry⟩ : ∃ e, r.store.calls.get? q = some e :=
    ⟨_, List.getElem?_eq_getElem known⟩
  rw [main_of_hasOrigins has]
  obtain ⟨first, -⟩ | ⟨p, origin, -⟩ := has.origins q key state entry
  · exact first
  · unfold Store.origin? at none
    rw [Interned.state?_of_get? entry] at none
    cases none.symm.trans origin

/-- A chain of discoveries that leads as far back as it can leads back to the call to start with. -/
theorem explains_of_traces (known : c ∈ r.store.calls.ids) (traces : r.store.Traces c chain)
    (whole : ∀ p, chain.head?.bind r.store.origin? = some p → p ∈ chain) : r.Explains c chain := by
  have transitive : Trans (fun p q : CallId => p.index < q.index)
    (fun p q : CallId => p.index < q.index) (fun p q : CallId => p.index < q.index) :=
    ⟨Nat.lt_trans⟩
  have steps : chain.IsChain fun p q =>
      r.store.origin? q = some p ∧ ⟨p, q⟩ ∈ r.analysis.edges ∧ p ∈ r.callers q :=
    traces.steps.imp fun p q origin =>
      have edge := (older_of_origin? has origin).2
      ⟨origin, edge, mem_callers.2 edge⟩
  have increasing : chain.Pairwise fun p q => p.index < q.index :=
    (traces.steps.imp fun p q origin => (older_of_origin? has origin).1).pairwise
  have last := traces.last
  cases chain with
  | nil => cases last
  | cons q rest =>
    -- an older call than the first one of the chain would stand before it
    have none : r.store.origin? q = none := by
      cases origin : r.store.origin? q with
      | none => rfl
      | some p =>
        have older := (older_of_origin? has origin).1
        rcases List.mem_cons.1 (whole p origin) with rfl | later
        · omega
        · have younger := List.rel_of_pairwise_cons increasing later
          omega
    have there : q.index < r.store.calls.size := by
      cases rest with
      | nil =>
        cases last
        exact Interned.mem_ids_iff_lt.1 known
      | cons next rest =>
        have origin := (List.isChain_cons_cons.1 traces.steps).1
        have younger := Interned.mem_ids_iff_lt.1 (Store.mem_ids_of_origin? origin)
        exact Nat.lt_trans (older_of_origin? has origin).1 younger
    have first := eq_main_of_origin? has there none
    have reached := List.relationReflTransGen_of_exists_isChain (q :: rest)
      (steps.imp fun p q step => step.2.2) (List.cons_ne_nil q rest)
    rw [List.getLast?_eq_some_getLast (List.cons_ne_nil q rest)] at last
    rw [Option.some.inj last, List.head_cons, first] at reached
    exact ⟨congrArg some first, traces.last, increasing, steps, reached⟩

end Report

namespace Analyzer

/-- Every call in a report is explained by the chain that is found for it. And whatever the origins
in a table are, the search for them ends for every call with a chain of discoveries of that call
that comes by no call twice and leads as far back as that allows; more steps change nothing. -/
theorem run_explains {z : Analyzer} (hz : z.intrinsics = .standard) :
    (∀ patience final, z.run patience {} = some (.ok final) → ∀ c ∈ final.store.calls.ids,
      Report.Explains ⟨z.view, final⟩ c (Report.why ⟨z.view, final⟩ c)) ∧
    ∀ (r : Report) (c : CallId), r.store.Traces c (r.why c) ∧
      (∀ p, (r.why c).head?.bind r.store.origin? = some p → p ∈ r.why c) ∧
      ∀ more, Report.discoveries r.store (r.store.calls.size + 1 + more) c [c] = r.why c := by
  have single (r : Report) (c : CallId) := Store.Traces.single r.store c
  refine ⟨fun patience final run c known => ?_, fun r c => ?_⟩
  · obtain ⟨-, has⟩ := maintains_hasOrigins.of_reaches hz (reaches_run run)
    obtain ⟨traces, whole⟩ :=
      Store.traces_discoveries (single ⟨z.view, final⟩ c) (Nat.le_refl _)
    exact Report.explains_of_traces has known traces whole
  · obtain ⟨traces, whole⟩ := Store.traces_discoveries (single r c) (Nat.le_refl _)
    exact ⟨traces, whole, Store.discoveries_add (single r c) (Nat.le_refl _)⟩

/-- An analysis of a program in which the function that is called calls another one. -/
def nesting : Analyzer where
  view := Program.view
    { clazzes :=
        [ ("main", { kind := .routine, code := some ⟨0⟩ })
        , ("outer", { kind := .routine, code := some ⟨1⟩ })
        , ("inner", { kind := .routine, code := some ⟨2⟩ }) ]
      blocks := [[.current, .call (.fixed ⟨1⟩)], [.current, .call (.fixed ⟨2⟩)], []]
      main := ⟨0⟩
      constString := none }

/-- The inner function is called from the outer one there, and that from the call to start with. -/
theorem run_explains_nesting :
    ∃ final, nesting.run 12 {} = some (.ok final) ∧
      Report.why ⟨nesting.view, final⟩ ⟨2⟩ = [⟨0⟩, ⟨1⟩, ⟨2⟩] ∧
      Report.Explains ⟨nesting.view, final⟩ ⟨2⟩ [⟨0⟩, ⟨1⟩, ⟨2⟩] := by
  have table : nesting.intrinsics = .standard := by simp only [nesting]
  obtain ⟨final, run, known, why⟩ : ∃ final, nesting.run 12 {} = some (.ok final) ∧
      ⟨2⟩ ∈ final.store.calls.ids ∧
      Report.why ⟨nesting.view, final⟩ ⟨2⟩ = [⟨0⟩, ⟨1⟩, ⟨2⟩] := by
    rw [← (agrees_own table (by decide +kernel)).run]
    exact exists_run (by decide +kernel)
  have explained := (run_explains table).1 12 final run ⟨2⟩ known
  rw [why] at explained
  exact ⟨final, run, why, explained⟩

end Analyzer

end ClosedWorld
