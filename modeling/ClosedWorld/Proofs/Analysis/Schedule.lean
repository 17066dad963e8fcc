import ClosedWorld.Proofs.Analysis.Limits
import ClosedWorld.Proofs.Analysis.Marking
import ClosedWorld.Proofs.Analysis.Origins

/-!
# What a sweep analyses

A sweep analyses the calls that are known at its start, in the order in which they were made, until
one fails. The calls that are made meanwhile have to wait for the next sweep: none of them is marked
as returning before that, and so nobody is told what it yields before it has been analysed.

## Main definitions

* `Analyzer.analyses`, `Analyzer.analysesOfSweep`: the analyses that are made, with the states in
  which they begin.
* `Analyzer.Scheduled`: how analyses follow each other.
* `Analyzer.Analysed`, `Analyzer.AnalysedBefore`: the calls that have been analysed.
* `Analyzer.SweepsKnown`: what a sweep does with the calls that are known and with the others.

## Main statements

* `Analyzer.marksWithin_afterSweeps`: the calls that are marked after some sweeps have been
  analysed, or are of intrinsics.
* `Analyzer.sweepsKnown_afterSweeps`: every sweep analyses the known calls, and all others wait.
-/

namespace ClosedWorld

namespace Analyzer

section definitions

variable (z : Analyzer)

/-- The analyses of calls in order up to the first that fails, each with the state in which it
begins. -/
def analyses : List CallId → Analysis → List (CallId × Analysis)
  | [], _ => []
  | id :: rest, a => (id, a) :: (z.analyze id).follow (fun _ => analyses rest) a

/-- The analyses that a sweep makes. -/
def analysesOfSweep (a : Analysis) : List (CallId × Analysis) :=
  z.analyses (z.begun a).store.calls.ids (z.begun a)

/-- The analysis succeeds. -/
def Finishes (p : CallId × Analysis) : Prop := ((z.analyze p.1).outcome p.2).1 = .ok ()

/-- One of the analyses is of the call, and it succeeds. -/
def Analysed (made : List (CallId × Analysis)) (id : CallId) : Prop :=
  ∃ p ∈ made, p.1 = id ∧ z.Finishes p

/-- One of the first sweeps, so many of them, has analysed the call. -/
def AnalysedBefore (count : Nat) (id : CallId) : Prop :=
  ∃ i < count, z.Analysed (z.analysesOfSweep (z.afterSweeps i {})) id

/-- The calls are analysed in order. Each analysis begins where the one before it has come to, and
the first that fails is the last one. -/
inductive Scheduled : List CallId → Analysis → List (CallId × Analysis) →
    Except Fault Unit × Analysis → Prop where
  | done (a : Analysis) : Scheduled [] a [] (.ok (), a)
  | failed {id : CallId} (rest : List CallId) {a a' : Analysis} {fault : Fault}
      (run : (z.analyze id).outcome a = (.error fault, a')) :
      Scheduled (id :: rest) a [(id, a)] (.error fault, a')
  | next {id : CallId} {rest : List CallId} {a a' : Analysis} {made : List (CallId × Analysis)}
      {result : Except Fault Unit × Analysis} (run : (z.analyze id).outcome a = (.ok (), a'))
      (later : Scheduled rest a' made result) : Scheduled (id :: rest) a ((id, a) :: made) result

end definitions

variable {z : Analyzer}

/-! ### Analyses in order -/

/-- A call that is analysed in the course of some analyses is so if there is one more before them.
-/
theorem Analysed.of_cons {made : List (CallId × Analysis)} {p : CallId × Analysis} {id : CallId}
    (h : z.Analysed made id) : z.Analysed (p :: made) id := by
  obtain ⟨q, hq, same, finishes⟩ := h
  exact ⟨q, List.mem_cons_of_mem p hq, same, finishes⟩

/-- A call that is analysed is among those that analyses are made of. -/
theorem Analysed.mem {made : List (CallId × Analysis)} {id : CallId} (h : z.Analysed made id) :
    id ∈ made.map Prod.fst := by
  obtain ⟨p, hp, rfl, -⟩ := h
  exact List.mem_map_of_mem hp

/-- The analyses that are made of `ids`, one after the other, are `Scheduled`. -/
theorem scheduled_analyses (z : Analyzer) (ids : List CallId) (a : Analysis) :
    z.Scheduled ids a (z.analyses ids a) ((z.analyzeAll ids).outcome a) := by
  induction ids generalizing a with
  | nil => exact .done a
  | cons id rest ih =>
    unfold analyses Attempt.follow analyzeAll
    rw [Attempt.outcome_bind]
    cases run : (z.analyze id).outcome a with
    | mk result a' =>
      cases result with
      | ok _ => exact .next run (ih a')
      | error fault => exact .failed rest run

/-- The visits of the analyses are those of the calls. -/
theorem visitsOfCalls_eq (ids : List CallId) (a : Analysis) :
    z.visitsOfCalls ids a = (z.analyses ids a).flatMap fun p => z.visitsOfCall p.1 p.2 := by
  induction ids generalizing a with
  | nil => rfl
  | cons id rest ih =>
    unfold visitsOfCalls analyses Attempt.follow
    rw [List.flatMap_cons]
    cases (z.analyze id).outcome a with
    | mk result a' =>
      cases result with
      | ok _ => exact congrArg (z.visitsOfCall id a ++ ·) (ih a')
      | error fault => rfl

namespace Scheduled

variable {ids : List CallId} {a : Analysis} {made : List (CallId × Analysis)}
  {result : Except Fault Unit × Analysis}

/-- Analyses are made in the order of the calls, and of no others. -/
theorem order (h : z.Scheduled ids a made result) : made.map Prod.fst <+: ids := by
  induction h with
  | done => exact List.prefix_rfl
  | failed rest => exact List.prefix_append [_] rest
  | next _ _ ih => exact (List.prefix_cons_inj _).2 ih

/-- The first analysis is that of the first call, and it begins in the state in which all begin. -/
theorem first (h : z.Scheduled ids a made result) :
    made.head? = ids.head?.map fun id => (id, a) := by
  cases h <;> rfl

/-- Each analysis begins where the one before it has succeeded. -/
theorem next_eq (h : z.Scheduled ids a made result) :
    made.IsChain fun p q => (z.analyze p.1).outcome p.2 = (.ok (), q.2) := by
  induction h with
  | done => exact .nil
  | failed => exact .singleton _
  | @next id rest a a' made result run later ih =>
    refine List.isChain_cons.2 ⟨fun q hq => ?_, ih⟩
    have first := later.first
    rw [hq] at first
    obtain ⟨_, -, rfl⟩ := Option.map_eq_some_iff.1 first.symm
    exact run

/-- If all goes well, every call is analysed, and each analysis `Finishes`. -/
theorem whole (h : z.Scheduled ids a made result) (ok : result.1 = .ok ()) :
    made.map Prod.fst = ids ∧ ∀ p ∈ made, z.Finishes p := by
  induction h with
  | done => exact ⟨rfl, List.forall_mem_nil _⟩
  | failed => cases ok
  | next run _ ih =>
    obtain ⟨all, finish⟩ := ih ok
    exact ⟨congrArg (_ :: ·) all, List.forall_mem_cons.2 ⟨congrArg Prod.fst run, finish⟩⟩

/-- The last analysis that is made gives the result of all. -/
theorem last (h : z.Scheduled ids a made result) {p : CallId × Analysis}
    (hp : made.getLast? = some p) : (z.analyze p.1).outcome p.2 = result := by
  induction h with
  | done => cases hp
  | failed _ run =>
    cases hp
    exact run
  | @next _ _ _ _ made _ run later ih =>
    cases made with
    | nil =>
      cases hp
      cases later
      exact run
    | cons q rest => exact ih (by rwa [List.getLast?_cons_cons] at hp)

section marks

variable (hz : z.intrinsics = .standard)

include hz

/-- What is marked by the analysis of a call. -/
theorem marks_cons {id : CallId} {a a' : Analysis} {result : Except Fault Unit}
    (run : (z.analyze id).outcome a = (result, a')) (made : List (CallId × Analysis)) :
    a.store.MarksWithin z.view (z.Analysed ((id, a) :: made)) a'.store := by
  have marks := marksWithin_analyze hz id a
  rw [run] at marks
  refine marks.mono ?_
  rintro _ ⟨rfl, ok⟩
  exact ⟨_, List.mem_cons_self, rfl, (congrArg Prod.fst run).trans ok⟩

/-- Only calls whose analysis succeeds are marked by analyses. -/
theorem marks (h : z.Scheduled ids a made result) :
    a.store.MarksWithin z.view (z.Analysed made) result.2.store := by
  induction h with
  | done a => exact .refl a.store
  | failed _ run => exact marks_cons hz run []
  | next run _ ih => exact (marks_cons hz run _).trans (ih.mono fun _ => .of_cons)

/-- So are those that are marked when one of the analyses begins, by the ones before it. -/
theorem marks_at (h : z.Scheduled ids a made result) {n : Nat} {p : CallId × Analysis}
    (hp : made[n]? = some p) :
    a.store.MarksWithin z.view (z.Analysed (made.take n)) p.2.store := by
  induction h generalizing n with
  | done => cases hp
  | @failed _ _ a =>
    cases n with
    | zero =>
      cases hp
      exact .refl a.store
    | succ n => cases hp
  | @next _ _ a _ _ _ run _ ih =>
    cases n with
    | zero =>
      cases hp
      exact .refl a.store
    | succ n => exact (marks_cons hz run _).trans ((ih hp).mono fun _ => .of_cons)

end marks

end Scheduled

/-! ### Sweeps -/

/-- The analyses of a sweep come to its end, but for the change that is taken there. -/
theorem exists_scheduled_of_sweep (z : Analyzer) (a : Analysis) :
    ∃ result, z.Scheduled (z.begun a).store.calls.ids (z.begun a) (z.analysesOfSweep a) result ∧
      (z.sweep.outcome a).2.store.calls = result.2.store.calls ∧
      (∀ change a', z.sweep.outcome a = (.ok change, a') →
        ∃ c, result = (.ok (), c) ∧ a' = { c with store := c.store.unnoted }) ∧
      ∀ fault a', z.sweep.outcome a = (.error fault, a') → result = (.error fault, a') := by
  refine ⟨_, z.scheduled_analyses _ _, ?_⟩
  rw [sweep_outcome]
  obtain ⟨_ | _, c⟩ := (z.analyzeAll (z.begun a).store.calls.ids).outcome (z.begun a)
  · refine ⟨rfl, ?_, fun _ _ failed => ?_⟩
    · rintro _ _ ⟨⟩
    · cases failed
      rfl
  · refine ⟨rfl, fun _ _ succeeded => ?_, ?_⟩
    · cases succeeded
      exact ⟨c, rfl, rfl⟩
    · rintro _ _ ⟨⟩

/-- What a sweep does with the calls that are known at its start and with the others, when `earlier`
are the calls that have been analysed before. -/
structure SweepsKnown (z : Analyzer) (a : Analysis) (earlier : CallId → Prop) : Prop where
  /-- The call to start with is made before anything else. -/
  main : (z.begun a).main = some ⟨0⟩ ∧ (z.begun a).store.calls.key? ⟨0⟩ = some z.mainKey
  /-- No other calls are made before the sweep knows what to analyse. -/
  known : ∀ id, id ∈ (z.begun a).store.calls.ids ↔ id = ⟨0⟩ ∨ id ∈ a.store.calls.ids
  /-- The known calls are analysed in order, each of them at most once. -/
  order : (z.analysesOfSweep a).map Prod.fst <+: (z.begun a).store.calls.ids
  ascending : (z.begun a).store.calls.ids.Pairwise fun p q => p.index < q.index
  /-- The analyses follow each other. -/
  first : (z.analysesOfSweep a).head? = some (⟨0⟩, z.begun a)
  next : (z.analysesOfSweep a).IsChain fun p q => (z.analyze p.1).outcome p.2 = (.ok (), q.2)
  /-- If the sweep succeeds, all known calls have been analysed, all of this has succeeded, and the
  last analysis has come to where the sweep ends. -/
  succeeds : ∀ change a', z.sweep.outcome a = (.ok change, a') →
    (z.analysesOfSweep a).map Prod.fst = (z.begun a).store.calls.ids ∧
      (∀ p ∈ z.analysesOfSweep a, z.Finishes p) ∧
      ∃ p c, (z.analysesOfSweep a).getLast? = some p ∧
        (z.analyze p.1).outcome p.2 = (.ok (), c) ∧ a' = { c with store := c.store.unnoted }
  /-- If the sweep fails, it does so with the last analysis. -/
  fails : ∀ fault a', z.sweep.outcome a = (.error fault, a') →
    ∃ p, (z.analysesOfSweep a).getLast? = some p ∧
      (z.analyze p.1).outcome p.2 = (.error fault, a')
  /-- The calls that are made during the sweep are not marked at its end, but for those of
  intrinsics. -/
  waits : ∀ id key state, id ∉ (z.begun a).store.calls.ids →
    (z.sweep.outcome a).2.store.calls.get? id = some (key, state) → ¬z.view.CallsBody key →
      state.returns = false
  /-- The analyses come by all instructions that the sweep visits. -/
  visits : z.visitsOfSweep a = (z.analysesOfSweep a).flatMap fun p => z.visitsOfCall p.1 p.2
  /-- What a call yields to its caller has been found out by an analysis of it that was finished
  before that of the caller began, unless the call is of an intrinsic. -/
  observes : ∀ (n : Nat) (p : CallId × Analysis), (z.analysesOfSweep a)[n]? = some p →
    ∀ t ∈ z.visitsOfCall p.1 p.2, ∀ e ∈ z.entriesOfVisit t.1 t.2, ∀ v c,
      z.outcomeOf e = (.ok (some v), c) →
        z.view.CallsBody e.key ∨ ∃ callee, p.2.store.calls.key? callee = some e.key ∧
          (earlier callee ∨ z.Analysed ((z.analysesOfSweep a).take n) callee)

variable (hz : z.intrinsics = .standard)

include hz

/-- The calls that are marked after some sweeps have been analysed, or are of intrinsics. -/
theorem marksWithin_afterSweeps (count : Nat) :
    ({} : Store).MarksWithin z.view (z.AnalysedBefore count) (z.afterSweeps count {}).store := by
  induction count with
  | zero => exact .refl {}
  | succ count ih =>
    obtain ⟨result, scheduled, calls, -⟩ := z.exists_scheduled_of_sweep (z.afterSweeps count {})
    have before : ∀ id, z.AnalysedBefore count id → z.AnalysedBefore (count + 1) id :=
      fun id ⟨i, hi, analysed⟩ => ⟨i, Nat.lt_succ_of_lt hi, analysed⟩
    have within : ∀ id, z.Analysed (z.analysesOfSweep (z.afterSweeps count {})) id →
        z.AnalysedBefore (count + 1) id :=
      fun id analysed => ⟨count, Nat.lt_succ_self count, analysed⟩
    exact ((ih.mono before).trans (marksWithin_begun z _ _)).trans
      (((scheduled.marks hz).mono within).trans (.of_calls calls))

/-- The call to start with is the first one, and besides it the calls that were there are known when
a sweep has its calls before it. -/
theorem begun_of_reaches {a : Analysis} (reached : z.Reaches a) :
    ((z.begun a).main = some ⟨0⟩ ∧ (z.begun a).store.calls.key? ⟨0⟩ = some z.mainKey) ∧
      ∀ id, id ∈ (z.begun a).store.calls.ids ↔ id = ⟨0⟩ ∨ id ∈ a.store.calls.ids := by
  obtain ⟨-, has⟩ := maintains_hasOrigins.of_reaches hz reached
  obtain ⟨-, knows⟩ := (maintains_knowsMain z).of_reaches hz reached
  obtain ⟨main, begun⟩ := z.exists_main_begun a
  obtain rfl := ((maintains_hasOrigins (z := z)).begun has).started main begun
  have there := (maintains_knowsMain z).begun knows ⟨0⟩ begun
  refine ⟨⟨begun, there⟩, fun id => ⟨fun listed => ?_, ?_⟩⟩
  · unfold Analyzer.begun at listed
    obtain ⟨main, -, seeded⟩ | ⟨unknown, seeded⟩ := z.seed_cases a <;> rw [seeded] at listed
    · exact .inr listed
    · -- the table is empty before, so the only call in it is the one that has been made
      have empty := has.unstarted unknown
      have listed := Interned.mem_ids_iff_lt.1 listed
      obtain ⟨_, held, -⟩ | ⟨-, -, _, calls⟩ :=
        a.store.calls_internCall_cases z.mainKey none none
      · have there := Interned.index_lt_size_of_key? (Interned.key?_of_idOf? held)
        omega
      · dsimp only at listed
        rw [calls, Interned.size_push, empty] at listed
        exact .inl (Ident.eq_of_index_eq _ _ (Nat.lt_one_iff.1 listed))
  · rintro (rfl | listed)
    · exact Interned.mem_ids.2 ⟨_, there⟩
    · obtain ⟨key, held⟩ := Interned.mem_ids.1 listed
      exact Interned.mem_ids.2 ⟨key, (marksWithin_begun z (fun _ => False) a).keys id key held⟩

section reached

variable {a : Analysis} {earlier : CallId → Prop}
  (marked : ({} : Store).MarksWithin z.view earlier a.store)

include marked

/-- A call that is marked when an analysis of the sweep begins has been analysed before that. -/
theorem analysed_of_marked {n : Nat} {p : CallId × Analysis}
    (hp : (z.analysesOfSweep a)[n]? = some p) {id : CallId} {key : CallKey}
    (known : p.2.store.calls.key? id = some key) (marks : p.2.store.Marked id) :
    z.view.CallsBody key ∨ earlier id ∨ z.Analysed ((z.analysesOfSweep a).take n) id := by
  have before : ∀ id, earlier id → earlier id ∨ z.Analysed ((z.analysesOfSweep a).take n) id :=
    fun _ => .inl
  have within := ((z.scheduled_analyses _ _).marks_at hz hp).mono fun id analysed =>
    show earlier id ∨ _ from .inr analysed
  obtain ⟨_, _, ⟨⟩, -⟩ | analysed | ⟨_, known', body⟩ :=
    (((marked.trans (marksWithin_begun z _ a)).mono before).trans within).marked id marks
  · exact .inr analysed
  · cases known.symm.trans known'
    exact .inl body

/-- A sweep from a state that is reached analyses what is known at its start, and all other calls
wait, if those that are marked by then have been analysed earlier. -/
theorem sweepsKnown_of_reaches (reached : z.Reaches a) : z.SweepsKnown a earlier := by
  obtain ⟨main, known⟩ := begun_of_reaches hz reached
  obtain ⟨result, scheduled, calls, ok, error⟩ := z.exists_scheduled_of_sweep a
  have swept := (scheduled.marks hz).trans (.of_calls calls)
  have first : (z.analysesOfSweep a).head? = some (⟨0⟩, z.begun a) := by
    rw [scheduled.first, Interned.head?_ids_of_mem ((known ⟨0⟩).2 (.inl rfl))]
    rfl
  obtain ⟨p, last⟩ : ∃ p, (z.analysesOfSweep a).getLast? = some p :=
    ⟨_, List.getLast?_eq_some_getLast (List.ne_nil_of_mem (List.mem_of_head? first))⟩
  exact
    { main, known, first
      order := scheduled.order
      ascending := List.pairwise_map.2 List.pairwise_lt_range
      next := scheduled.next_eq
      succeeds := fun change a' succeeded => by
        obtain ⟨c, rfl, ends⟩ := ok change a' succeeded
        obtain ⟨all, finish⟩ := scheduled.whole rfl
        exact ⟨all, finish, p, c, last, scheduled.last last, ends⟩
      fails := fun fault a' failed =>
        ⟨p, last, (scheduled.last last).trans (error fault a' failed)⟩
      waits := fun id key state unknown held notBody => by
        -- If the call were marked, it would have been marked before, or analysed in this sweep, or
        -- be one of an intrinsic. But it was not known, and only known calls are analysed.
        by_contra returns
        obtain ⟨_, _, before, -⟩ | analysed | ⟨key', known', body⟩ :=
          swept.marked id ⟨key, state, held, Bool.eq_true_of_not_eq_false returns⟩
        · exact unknown (Interned.mem_ids.2 ⟨_, Interned.key?_of_get? before⟩)
        · exact unknown (scheduled.order.subset analysed.mem)
        · cases known'.symm.trans (Interned.key?_of_get? held)
          exact notBody body
      visits := visitsOfCalls_eq _ _
      observes := fun n p hp t ht e he v c run => by
        obtain body | ⟨callee, held, marks⟩ := marked_of_outcomeOf hz ht he run
        · exact .inl body
        · exact (analysed_of_marked hz marked hp held marks).imp_right fun analysed =>
            ⟨callee, held, analysed⟩ }

end reached

/-- Every sweep analyses the calls that are known at its start, with the one to start with made
first, each of them once and in order, up to the first that fails. The calls that are made during
the sweep are not marked at its end, whether it succeeds or not, unless they are of intrinsics. And
what a call yields to its caller has been found out by an analysis of the call before. The same
holds of the pass that records findings. -/
theorem sweepsKnown_afterSweeps (count : Nat) :
    z.SweepsKnown (z.afterSweeps count {}) (z.AnalysedBefore count) ∧
      z.SweepsKnown { z.afterSweeps count {} with reporting := true } (z.AnalysedBefore count) := by
  have reached := z.reaches_afterSweeps count
  have marked := marksWithin_afterSweeps hz count
  exact ⟨sweepsKnown_of_reaches hz marked reached,
    sweepsKnown_of_reaches hz (a := { z.afterSweeps count {} with reporting := true }) marked
      (reached.setting true (z.afterSweeps count {}).iterations)⟩

omit hz

/-- The routine that is called there waits for the second sweep, which analyses both calls, and the
third one fails with the first of them. By then the call to start with is told that the other one
returns, and this has been analysed before. -/
theorem sweepsKnown_afterSweeps_stumbling :
    (⟨1⟩ ∈ (stumbling.sweep.outcome {}).2.store.calls.ids ∧
      ¬(stumbling.sweep.outcome {}).2.store.Marked ⟨1⟩) ∧
    (stumbling.analysesOfSweep (stumbling.afterSweeps 1 {})).map Prod.fst = [⟨0⟩, ⟨1⟩] ∧
    (∃ p, (stumbling.analysesOfSweep (stumbling.afterSweeps 2 {})).getLast? = some p ∧
      ((stumbling.analyze p.1).outcome p.2).1 = .error (.unexpectedValue .bool (.object ⟨0⟩))) ∧
    ∃ callee e, (stumbling.outcomeOf e).1 = .ok (some .unit) ∧
      (stumbling.begun (stumbling.afterSweeps 2 {})).store.calls.key? callee = some e.key ∧
      stumbling.AnalysedBefore 2 callee := by
  have table : stumbling.intrinsics = .standard := by simp only [stumbling]
  have first := (sweepsKnown_afterSweeps table 0).1
  have second := (sweepsKnown_afterSweeps table 1).1
  have third := (sweepsKnown_afterSweeps table 2).1
  refine ⟨⟨by decide +kernel, ?_⟩, ?_, ?_, ?_⟩
  · rintro ⟨key, state, held, returns⟩
    have routine : ((stumbling.sweep.outcome {}).2.store.calls.key? ⟨1⟩).all
        fun key => decide ¬stumbling.view.CallsBody key := by decide +kernel
    rw [Interned.key?_of_get? held] at routine
    have waits := first.waits ⟨1⟩ key state (by decide +kernel) held (of_decide_eq_true routine)
    cases waits.symm.trans returns
  · have swept : (stumbling.sweep.outcome (stumbling.afterSweeps 1 {})).1 =
        .ok (some (.callReturns ⟨1⟩)) := by decide +kernel
    rw [(second.succeeds _ _ (Prod.ext swept rfl)).1]
    decide +kernel
  · have swept : (stumbling.sweep.outcome (stumbling.afterSweeps 2 {})).1 =
        .error (.unexpectedValue .bool (.object ⟨0⟩)) := by decide +kernel
    obtain ⟨p, last, run⟩ := third.fails _ _ (Prod.ext swept rfl)
    exact ⟨p, last, congrArg Prod.fst run⟩
  · have begins : (stumbling.analysesOfSweep (stumbling.afterSweeps 2 {}))[0]? =
        some (⟨0⟩, stumbling.begun (stumbling.afterSweeps 2 {})) :=
      List.head?_eq_getElem?.symm.trans third.first
    have told : ((stumbling.visitsOfCall ⟨0⟩ (stumbling.begun (stumbling.afterSweeps 2 {}))).flatMap
        fun t => stumbling.entriesOfVisit t.1 t.2).any (fun e =>
          decide ((stumbling.outcomeOf e).1 = .ok (some .unit) ∧ ¬stumbling.view.CallsBody e.key)) =
        true := by
      decide +kernel
    obtain ⟨e, he, told⟩ := List.any_eq_true.1 told
    obtain ⟨t, ht, he⟩ := List.mem_flatMap.1 he
    obtain ⟨told, routine⟩ := of_decide_eq_true told
    obtain body | ⟨callee, held, before | ⟨_, ⟨⟩, -⟩⟩ :=
      third.observes 0 _ begins t ht e he .unit _ (Prod.ext told rfl)
    · exact absurd body routine
    · exact ⟨callee, e, told, held, before⟩
end Analyzer

end ClosedWorld
