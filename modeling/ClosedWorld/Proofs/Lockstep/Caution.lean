import ClosedWorld.Analysis.Report
import ClosedWorld.Proofs.Analysis.Meanings
import ClosedWorld.Proofs.Lockstep.Runs

/-!
# Intrinsics without a meaning

An intrinsic without a meaning produces the undefined value. A condition or the subject of a match
that is undefined selects nothing, and a join forgets that one of its arguments is undefined, so
code that would be reached if the intrinsic produced a boolean can be missed. It is not missed where
nothing is decided: if no way is left out in the sweep that records the findings, and instances,
arrays and nodes are told apart by where they come from alone.

## Main definitions

* `Analyzer.IsCautious`: nothing is missed for lack of a meaning.
* `Analyzer.MissesAlthough`: something is missed, although a condition holds.

## Main statements

* `Analyzer.reachable_of_answering`: nothing is missed where nothing is decided.
* `Analyzer.not_isCautious`: programs for which something is missed.
-/

namespace ClosedWorld

namespace Analyzer

/-- Whatever is reachable where the intrinsic answers with a boolean is reachable. -/
def IsCautious (z : Analyzer) (name : String) : Prop :=
  ∀ (truth : Truth) (patience patience' : Nat) (final final' : Analysis),
    z.run patience {} = some (.ok final) →
    (z.answering name truth).run patience' {} = some (.ok final') →
    ∀ clazz ∈ (Report.mk z.view final').reachable, clazz ∈ (Report.mk z.view final).reachable

/-- Nothing is missed where nothing is decided: if the store of a report is coarse
(`Store.IsCoarse`), and all visits of the sweep that records its findings go all ways, then all
clazzes are reachable that are reachable where an intrinsic without a meaning answers with a
boolean. -/
theorem reachable_of_answering {z : Analyzer} (hz : z.intrinsics = .standard) {name : String}
    (unsupported : ∀ meaning, IntrinsicTable.standard.find? name ≠ some (.handler meaning))
    (truth : Truth) {patience patience' : Nat} {final final' : Analysis}
    (run : z.run patience {} = some (.ok final))
    (run' : (z.answering name truth).run patience' {} = some (.ok final'))
    (coarse : final.store.IsCoarse)
    (allWays : ∀ p ∈ z.reportVisits patience {}, p.2.GoesAllWays z.view) :
    ∀ clazz ∈ (Report.mk z.view final').reachable, clazz ∈ (Report.mk z.view final).reachable := by
  have covered := covered_run hz unsupported (rests_of_run hz run coarse)
    (allOpen_of_run hz run allWays) (exists_main_of_run hz run) run'
  intro clazz reached
  obtain ⟨key, listed, rfl⟩ := List.mem_map.1 (Ascending.mem_ofList.1 reached)
  obtain ⟨id, known⟩ := Interned.mem_keys.1 listed
  obtain ⟨state, held⟩ := Interned.exists_get?_of_key? known
  obtain ⟨id', key', known', mirrors⟩ := (covered.calls id key state held).mirrored
  exact Ascending.mem_ofList.2
    (List.mem_map.2 ⟨key', Interned.mem_keys.2 ⟨id', known'⟩, mirrors.clazz⟩)

/-- Another table that means the same does so when one intrinsic answers with a boolean. -/
theorem Agrees.answering {z : Analyzer} {table : IntrinsicTable} (h : z.Agrees table)
    (name : String) (truth : Truth) :
    (z.answering name truth).Agrees (table.insert name (.handler (.always truth))) := by
  intro called has
  unfold Analyzer.answering
  dsimp only
  rw [OrderedMap.find?_insert, OrderedMap.find?_insert]
  split
  · rfl
  · exact h called has

/-- The standard table has no meaning for `safety`. -/
theorem find?_standard_safety (meaning : Handler) :
    IntrinsicTable.standard.find? "safety" ≠ some (.handler meaning) := by
  rw [← IntrinsicTable.find?_own (by decide +kernel)]
  rintro ⟨⟩

/-- An analysis of a program that writes what the intrinsic answers to a field, and then true and
false, calls a routine if the field is true and another one if it is false, and keeps their frames
in a field. -/
def undecided : Analyzer where
  view := Program.view
    { clazzes :=
        [ ("main", { kind := .routine, code := some ⟨0⟩ })
        , ("bool", { kind := .choice, special := some .bool, needsCode := false })
        , ("safety", { kind := .intrinsic, result := some ⟨1⟩ })
        , ("main.field", { kind := .field, outer := some ⟨0⟩, result := some ⟨1⟩ })
        , ("here", { kind := .routine, result := some ⟨4⟩, args := [⟨5⟩], code := some ⟨3⟩ })
        , ("here.what", { kind := .field, outer := some ⟨4⟩, result := some ⟨1⟩ })
        , ("there", { kind := .routine, code := some ⟨3⟩ }) ]
      blocks :=
        [ [ .current, .current, .call (.fixed ⟨2⟩), .assign (.fixed ⟨3⟩)
          , .current, .const ⟨1⟩ [1], .assign (.fixed ⟨3⟩)
          , .current, .const ⟨1⟩ [0], .assign (.fixed ⟨3⟩)
          , .current, .call (.fixed ⟨3⟩), .cond ⟨1⟩ ⟨2⟩ ]
        , [ .current, .current, .call (.fixed ⟨2⟩), .call (.fixed ⟨4⟩)
          , .call (.dispatched ⟨6⟩ [(⟨4⟩, ⟨6⟩)]), .pop ]
        , [.current, .call (.fixed ⟨6⟩), .pop]
        , [] ]
      main := ⟨0⟩
      constString := none }

/-- The field is either there, so that both routines are reachable with and without a meaning. -/
theorem reachable_of_answering_undecided :
    ∃ final final', undecided.run 12 {} = some (.ok final) ∧
      (undecided.answering "safety" .true).run 12 {} = some (.ok final') ∧
      (Report.mk undecided.view final').reachable = [⟨0⟩, ⟨2⟩, ⟨4⟩, ⟨6⟩] ∧
      ∀ clazz ∈ (Report.mk undecided.view final').reachable,
        clazz ∈ (Report.mk undecided.view final).reachable := by
  have table : undecided.intrinsics = .standard := by simp only [undecided]
  have agrees : undecided.Agrees .own := agrees_own table (by decide +kernel)
  obtain ⟨final, run, coarse⟩ : ∃ final, undecided.run 12 {} = some (.ok final) ∧
      final.store.IsCoarse := by
    rw [← agrees.run]
    exact exists_run (by decide +kernel)
  obtain ⟨final', run', reached⟩ : ∃ final',
      (undecided.answering "safety" .true).run 12 {} = some (.ok final') ∧
        (Report.mk undecided.view final').reachable = [⟨0⟩, ⟨2⟩, ⟨4⟩, ⟨6⟩] := by
    rw [← (agrees.answering "safety" .true).run]
    exact exists_run (by decide +kernel)
  have allWays : ∀ p ∈ undecided.reportVisits 12 {}, p.2.GoesAllWays undecided.view := by
    rw [← agrees.reportVisits]
    decide +kernel
  exact ⟨final, final', run, run', reached,
    reachable_of_answering table find?_standard_safety .true run run' coarse allWays⟩

/-! ### Where something is missed -/

/-- If the run of `z` does not find `clazz` and the run in which the intrinsic answers with `truth`
does, then `z` is not `IsCautious` about the intrinsic. -/
theorem not_isCautious_of_run {z : Analyzer} {name : String} (truth : Truth)
    {patience patience' : Nat} {clazz : ClazzId} {final final' : Analysis}
    (run : z.run patience {} = some (.ok final))
    (missed : clazz ∉ (Report.mk z.view final).reachable)
    (run' : (z.answering name truth).run patience' {} = some (.ok final'))
    (reached : clazz ∈ (Report.mk z.view final').reachable) : ¬z.IsCautious name := by
  intro cautious
  exact missed (cautious truth patience patience' final final' run run' clazz reached)

/-- The draft is accepted, and its analysis under `config` misses something for lack of a meaning of
`safety`, although `others` holds of the store and `ways` of all visits of the sweep that records
the findings. -/
def MissesAlthough (d : Draft) (config : Config) (others : Store → Prop)
    (ways : View → Visit Analysis Value → Prop) : Prop :=
  ∃ p, d.build = .ok p ∧ ¬(p.analyzer config).IsCautious "safety" ∧
    (∃ final, (p.analyzer config).run 12 {} = some (.ok final) ∧ others final.store) ∧
      ∀ t ∈ (p.analyzer config).reportVisits 12 {}, ways p.view t.2

/-- The property `MissesAlthough` can be found out by two runs that consult a `table` which means
the same by the intrinsics of the draft. -/
theorem missesAlthough_of_reportsAs {d : Draft} {config : Config} {others : Store → Prop}
    {ways : View → Visit Analysis Value → Prop} [DecidablePred others] {table : IntrinsicTable}
    (built : d.build = .ok d.toProgram) (h : (d.toProgram.analyzer config).Agrees table)
    (truth : Truth) (clazz : ClazzId)
    (missed : ((d.toProgram.analyzer config).consulting table).reportsAs 12 {} (fun final =>
      decide (clazz ∉ (Report.mk d.toProgram.view final).reachable ∧ others final.store)) = true)
    (reached : (((d.toProgram.analyzer config).answering "safety" truth).consulting
      (table.insert "safety" (.handler (.always truth)))).reportsAs 12 {} (fun final =>
        decide (clazz ∈ (Report.mk d.toProgram.view final).reachable)) = true)
    (visited : ∀ t ∈ ((d.toProgram.analyzer config).consulting table).reportVisits 12 {},
      ways d.toProgram.view t.2) :
    MissesAlthough d config others ways := by
  obtain ⟨final, run, missed, holds⟩ := exists_run missed
  obtain ⟨final', run', reached⟩ := exists_run reached
  rw [h.run] at run
  rw [(h.answering "safety" truth).run] at run'
  rw [h.reportVisits] at visited
  exact ⟨_, built, not_isCautious_of_run truth run missed run' reached, ⟨final, run, holds⟩, visited⟩

/-- A program that calls a routine if an intrinsic answers with true. -/
def deciding : Draft where
  clazzes :=
    [ ("main", some { kind := .routine, code := some ⟨0⟩ })
    , ("bool", some { kind := .choice, special := some .bool, needsCode := false })
    , ("safety", some { kind := .intrinsic, result := some ⟨1⟩ })
    , ("missed", some { kind := .routine, code := some ⟨2⟩ }) ]
  blocks :=
    [ [.current, .call (.fixed ⟨2⟩), .cond ⟨1⟩ ⟨2⟩]
    , [.current, .call (.fixed ⟨3⟩), .pop]
    , [] ]
  main := some ⟨0⟩

/-- A program that writes what the intrinsic answers and then true to a field, and calls a routine
if the field is false. -/
def forgetting : Draft where
  clazzes := deciding.clazzes ++
    [("main.field", some { kind := .field, outer := some ⟨0⟩, result := some ⟨1⟩ })]
  blocks :=
    [ [ .current, .current, .call (.fixed ⟨2⟩), .assign (.fixed ⟨4⟩)
      , .current, .const ⟨1⟩ [1], .assign (.fixed ⟨4⟩)
      , .current, .call (.fixed ⟨4⟩), .cond ⟨2⟩ ⟨1⟩ ]
    , [.current, .call (.fixed ⟨3⟩), .pop]
    , [] ]
  main := some ⟨0⟩

/-- A program that allocates one array with what the intrinsic answers and one with true, writes its
frame to the first one, and calls a routine of what it reads in the second one. -/
def aliasing : Draft where
  clazzes := deciding.clazzes ++
    [ ("main.first", some { kind := .field, outer := some ⟨0⟩, result := some ⟨0⟩ })
    , ("main.second", some { kind := .field, outer := some ⟨0⟩, result := some ⟨0⟩ })
    , ("fuzion.sys.array.alloc", some { kind := .intrinsic, args := [⟨4⟩] })
    , ("fuzion.sys.array.setel", some { kind := .intrinsic, args := [⟨4⟩, ⟨4⟩, ⟨4⟩] })
    , ("fuzion.sys.array.get", some { kind := .intrinsic, args := [⟨4⟩, ⟨4⟩] }) ]
  blocks :=
    [ [ .current, .current, .current, .call (.fixed ⟨2⟩), .call (.fixed ⟨6⟩), .assign (.fixed ⟨4⟩)
      , .current, .current, .const ⟨1⟩ [1], .call (.fixed ⟨6⟩), .assign (.fixed ⟨5⟩)
      , .current, .current, .call (.fixed ⟨4⟩), .const ⟨1⟩ [1], .current, .call (.fixed ⟨7⟩), .pop
      , .current, .current, .call (.fixed ⟨5⟩), .const ⟨1⟩ [1], .call (.fixed ⟨8⟩)
      , .call (.dispatched ⟨3⟩ [(⟨0⟩, ⟨3⟩)]), .pop ]
    , []
    , [] ]
  main := some ⟨0⟩

/-- A program that calls one routine twice on its own frame: itself, with what the intrinsic
answers, and in another routine, with true. It writes its frame to a field of the frame that it gets
back, and the other routine calls a routine of what it reads in that field. -/
def separating : Draft where
  clazzes := deciding.clazzes ++
    [ ("made", some { kind := .routine, result := some ⟨4⟩, args := [⟨5⟩], code := some ⟨2⟩ })
    , ("made.what", some { kind := .field, outer := some ⟨4⟩, result := some ⟨1⟩ })
    , ("made.held", some { kind := .field, outer := some ⟨4⟩, result := some ⟨0⟩ })
    , ("other", some { kind := .routine, code := some ⟨1⟩ }) ]
  blocks :=
    [ [ .current, .current, .call (.fixed ⟨2⟩), .call (.fixed ⟨4⟩), .current, .assign (.fixed ⟨6⟩)
      , .current, .call (.fixed ⟨7⟩), .pop ]
    , [ .outer, .const ⟨1⟩ [1], .call (.fixed ⟨4⟩), .call (.fixed ⟨6⟩)
      , .call (.dispatched ⟨3⟩ [(⟨0⟩, ⟨3⟩)]), .pop ]
    , [] ]
  main := some ⟨0⟩

/-- A program that installs an effect twice: with what the intrinsic answers, for a function that
replaces it by the frame of main, and with true, for a function that calls a routine of what it
finds installed. -/
def relaying : Draft where
  clazzes := deciding.clazzes ++
    [ ("effect", some { kind := .routine, needsCode := false })
    , ("writer", some { kind := .routine, call := some ⟨6⟩, needsCode := false })
    , ("writer.call", some { kind := .routine, code := some ⟨1⟩ })
    , ("reader", some { kind := .routine, call := some ⟨8⟩, needsCode := false })
    , ("reader.call", some { kind := .routine, code := some ⟨3⟩ })
    , ("effect.replace", some { kind := .intrinsic, effectType := some ⟨4⟩ })
    , ("writing", some
        { kind := .intrinsic, intrinsic := some "effect.abortable", effectType := some ⟨4⟩
          args := [⟨0⟩], generics := [⟨5⟩] })
    , ("reading", some
        { kind := .intrinsic, intrinsic := some "effect.abortable", effectType := some ⟨4⟩
          args := [⟨0⟩], generics := [⟨7⟩] }) ]
  blocks :=
    [ [ .current, .call (.fixed ⟨2⟩), .current, .call (.fixed ⟨10⟩), .pop
      , .const ⟨1⟩ [1], .current, .call (.fixed ⟨11⟩), .pop ]
    , [.outer, .call (.fixed ⟨9⟩), .pop]
    , []
    , [.env ⟨4⟩, .call (.dispatched ⟨3⟩ [(⟨0⟩, ⟨3⟩)]), .pop] ]
  main := some ⟨0⟩

/-- Not all analyses of accepted programs are cautious: the one of `deciding` is not. It is not
enough that no undefined value is decided on, as `forgetting` shows, whose store `IsCoarse`. Nor is
it enough that nothing is decided: each of the three parts of `Store.IsCoarse` is needed beside the
other two, the one about arrays for `aliasing`, the one about instances for `separating` and the one
about nodes for `relaying`. -/
theorem not_isCautious :
    (¬∀ (d : Draft) (p : Program), d.build = .ok p → ∀ (config : Config) (name : String),
      (∀ meaning, IntrinsicTable.standard.find? name ≠ some (.handler meaning)) →
        (p.analyzer config).IsCautious name) ∧
    MissesAlthough forgetting {} Store.IsCoarse (fun _ visit =>
      visit.instr.branches ≠ [] → visit.stack = [.bool .true]) ∧
    MissesAlthough aliasing {} (fun s =>
      (s.instances.keys.map InstanceKey.clazz).Nodup ∧ (s.envs.keys.map EnvKey.effect).Nodup)
      Visit.GoesAllWays ∧
    MissesAlthough separating { instanceContext := .creatingClazz } (fun s =>
      (s.arrays.keys.map s.arrayProvenance?).Nodup ∧ (s.envs.keys.map EnvKey.effect).Nodup)
      Visit.GoesAllWays ∧
    MissesAlthough relaying {} (fun s =>
      (s.instances.keys.map InstanceKey.clazz).Nodup ∧ (s.arrays.keys.map s.arrayProvenance?).Nodup)
      Visit.GoesAllWays := by
  have agrees {d : Draft} {config : Config} (listed : ∀ e ∈ d.toProgram.clazzes,
      e.2.kind = .intrinsic → e.2.intrinsic.getD e.1 ∈ IntrinsicTable.ownEntries.map Prod.fst) :
      (d.toProgram.analyzer config).Agrees .own :=
    agrees_own (Program.intrinsics_analyzer ..) listed
  refine ⟨fun cautious => ?_, ?_, ?_, ?_, ?_⟩
  · have misses : MissesAlthough deciding {} (fun _ => True) fun _ _ => True :=
      missesAlthough_of_reportsAs (by decide +kernel) (agrees (by decide +kernel)) .true ⟨3⟩
        (by decide +kernel) (by decide +kernel) fun _ _ => trivial
    obtain ⟨p, built, misses, -⟩ := misses
    exact misses (cautious deciding p built {} "safety" find?_standard_safety)
  · exact missesAlthough_of_reportsAs (by decide +kernel) (agrees (by decide +kernel)) .false ⟨3⟩
      (by decide +kernel) (by decide +kernel) (by decide +kernel)
  · exact missesAlthough_of_reportsAs (by decide +kernel) (agrees (by decide +kernel)) .true ⟨3⟩
      (by decide +kernel) (by decide +kernel) (by decide +kernel)
  · exact missesAlthough_of_reportsAs (by decide +kernel) (agrees (by decide +kernel)) .true ⟨3⟩
      (by decide +kernel) (by decide +kernel) (by decide +kernel)
  · exact missesAlthough_of_reportsAs (by decide +kernel) (agrees (by decide +kernel)) .true ⟨3⟩
      (by decide +kernel) (by decide +kernel) (by decide +kernel)

end Analyzer

end ClosedWorld
