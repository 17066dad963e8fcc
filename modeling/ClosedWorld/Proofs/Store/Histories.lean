import ClosedWorld.Proofs.Store.Evolution
import ClosedWorld.Store.Request

/-!
# The memory of changes is exact

Every request either evolves the store or asks it to forget that it has changed. A history without
such a question therefore ends with a change remembered just if it has made a difference: no
elementary change goes unnoted, also none before a failure, and what the first one has taught the
store is not unlearned.

## Main definitions

* `Store.Request.Carries`: a property of the values that a request writes.
* `Store.after`: the store after a history of requests.
* `Store.content`: a store without its memory of changes.

## Main statements

* `Store.evolves_perform`: requests evolve the store.
* `Store.isChanged_after_iff`: the memory of changes, and the count of grown defaults, are exact.
-/

namespace ClosedWorld

namespace Store

variable {P : Value → Prop} {M : CallKey → Prop} {s t : Store} {α β : Type}

variable (s)

/-! ### Requests -/

/-- The property holds of the values that the request writes. -/
def Request.Carries (P : Value → Prop) : Request → Prop
  | .setField _ _ value | .arraySet _ value | .extendEnv _ _ value | .replaceEffect _ _ value
  | .installDefault _ value => P value
  | .internCall key _ _ => P key.target ∧ ∀ v ∈ key.args, P v
  | _ => True

/-- A query that cannot fail evolves a store, in no steps. -/
theorem evolves_look (answer : Store → Answer) :
    s.Evolves P M ((do return answer (← get) : Updating Answer).outcome s).2 := .refl s

/-- A query that may fail evolves a store, in no steps. -/
theorem evolves_ask (ask : Store → Except Fault α) (answer : α → Answer) :
    s.Evolves P M ((do return answer (← ask (← get)) : Updating Answer).outcome s).2 := by
  apply evolves_bind (.refl s)
  rintro _ _ ⟨⟩
  exact evolves_except_bind fun _ _ => .refl s

/-- Wrapping what a step gives into an `Answer` does not change how it evolves a store. -/
theorem evolves_answer {step : Updating α} (h : s.Evolves P M (step.outcome s).2)
    (answer : α → Answer) :
    s.Evolves P M ((do return answer (← step) : Updating Answer).outcome s).2 :=
  evolves_bind h fun _ t _ => .refl t

variable {s}

/-- A request evolves the store, whether it fails or not, if it does not ask for the memory of
changes. -/
theorem evolves_perform (hs : s.AllValues P) {request : Request} (carries : request.Carries P)
    (keeps : request ≠ .takeChange) :
    s.Evolves P (fun _ => True) (request.perform.outcome s).2 := by
  cases request with
  | internInstance clazz context => exact s.evolves_answer (s.evolves_internInstance clazz context) _
  | setField target field value =>
    exact s.evolves_answer (evolves_setField field carries target s) fun _ => .done
  | boxInstance id refClazz => exact s.evolves_answer (evolves_boxInstance hs id refClazz) _
  | internArray key => exact s.evolves_answer (s.evolves_internArray key) _
  | arraySet id value => exact s.evolves_answer (s.evolves_arraySet id carries) fun _ => .done
  | extendEnv outer effect value =>
    exact s.evolves_answer (s.evolves_extendEnv outer effect carries) _
  | replaceEffect env effect value =>
    exact s.evolves_answer (s.evolves_replaceEffect env effect carries) fun _ => .done
  | installDefault effect value =>
    exact s.evolves_answer (s.evolves_installDefault effect carries) _
  | internCall key context origin =>
    exact s.evolves_answer (s.evolves_internCall carries.1 carries.2 context origin) _
  | markReturns id =>
    exact s.evolves_answer (s.evolves_markReturns fun _ _ => trivial) fun _ => .done
  | takeChange => exact absurd rfl keeps
  | instanceKey id => exact s.evolves_ask (·.instanceKey id) .instanceKey
  | instanceClazz id => exact s.evolves_ask (·.instanceKey id) fun key => .ident key.clazz
  | fields id => exact s.evolves_ask (·.fields id) .fields
  | readField target field => exact s.evolves_ask (·.readField field target) .value
  | arrayGet id => exact s.evolves_ask (·.arrayGet id) .value
  | envKey id => exact s.evolves_ask (·.envKey id) .envKey
  | lookupEffect env effect => exact s.evolves_ask (·.lookupEffect env effect) .value?
  | callKey id => exact s.evolves_ask (·.callKey id) .callKey
  | callState id => exact s.evolves_ask (·.callState id) .callState
  | defaultEffect effect => exact s.evolves_look fun s => .value? (s.defaults.find? effect)
  | generation => exact s.evolves_look fun s => .number s.generation
  | counts =>
    exact s.evolves_look fun s =>
      .counts s.instances.size s.calls.size s.envs.size s.arrays.size
  | snapshot => exact s.evolves_look .store

/-! ### Histories -/

/-- The store after the requests, of which any may have failed. -/
def after (s : Store) (requests : List Request) : Store :=
  requests.foldl (fun s request => (request.perform.outcome s).2) s

variable {kinds : ClazzId → NumericKind} {requests : List Request}

/-- A property that survives the `join` holds of all values after a history of requests that carry
such values. -/
theorem allValues_after (join : ∀ {v w}, P v → P w → P (v.join w)) (hs : s.AllValues P)
    (carries : ∀ r ∈ requests, r.Carries P) : (s.after requests).AllValues P := by
  induction requests generalizing s with
  | nil => exact hs
  | cons request rest ih =>
    obtain ⟨first, carries⟩ := List.forall_mem_cons.1 carries
    refine ih ?_ carries
    by_cases asked : request = .takeChange
    · rw [asked]
      exact AllValues.unnoted hs
    · exact (evolves_perform hs first asked).allValues join hs

/-- A store stays regular in a history of requests that carry regular values. -/
theorem isRegular_after (hs : s.IsRegular kinds)
    (carries : ∀ r ∈ requests, r.Carries (Value.Regular kinds)) :
    (s.after requests).IsRegular kinds :=
  allValues_after Value.regular_join hs carries

/-- A history that does not ask for the memory of changes evolves the store. -/
theorem evolves_after (hs : s.IsRegular kinds)
    (carries : ∀ r ∈ requests, r.Carries (Value.Regular kinds)) (keeps : .takeChange ∉ requests) :
    s.Evolves (Value.Regular kinds) (fun _ => True) (s.after requests) := by
  induction requests generalizing s with
  | nil => exact .refl s
  | cons request rest ih =>
    obtain ⟨first, carries⟩ := List.forall_mem_cons.1 carries
    obtain ⟨other, keeps⟩ := not_or.1 (mt List.mem_cons.2 keeps)
    have step := evolves_perform hs first (Ne.symm other)
    exact step.trans (ih (step.growsRegularly hs).regular carries keeps)

/-! ### Exactness -/

/-- All that the store holds, without its memory of changes. -/
def content (s : Store) : Store := { s with generation := 0, change := none }

/-- What a store knows does not depend on its memory of changes. -/
theorem knows_content {fact : Fact} : s.content.Knows kinds fact ↔ s.Knows kinds fact := by
  cases fact <;> exact Iff.rfl

/-- A store without a change remembers one just if it comes to hold something else. -/
theorem Evolves.isChanged_iff (hs : s.IsRegular kinds) (clear : s.change = none)
    (h : s.Evolves (Value.Regular kinds) M t) : t.isChanged = true ↔ t.content ≠ s.content := by
  unfold isChanged
  rw [Option.isSome_iff_ne_none]
  constructor
  · intro noted same
    obtain ⟨fact, known, new⟩ := (h.growsRegularly hs).learns clear noted
    rw [← knows_content, same, knows_content] at known
    exact new known
  · intro differs quiet
    obtain rfl | noted := h.eq_or_noted
    · exact differs rfl
    · exact noted quiet

/-- Either the defaults and their generation are as they were, or both have changed. -/
theorem Alters.defaults (hs : s.IsRegular kinds) (h : s.Alters (Value.Regular kinds) M t) :
    (t.generation = s.generation ∧ t.defaults = s.defaults) ∨
      s.generation < t.generation ∧
        ∃ effect v, t.Knows kinds (.default effect v) ∧ ¬s.Knows kinds (.default effect v) := by
  cases h with
  | putDefault grown written =>
    exact .inr ⟨Nat.lt_succ_self _, _, _, knows_putDefault hs grown written⟩
  | _ => exact .inl ⟨rfl, rfl⟩

/-- Either the defaults and their generation are as they were, or both have changed, also in an
evolution: a generation that has risen never falls, and what was learned stays known. -/
theorem Evolves.defaults (hs : s.IsRegular kinds) (h : s.Evolves (Value.Regular kinds) M t) :
    (t.generation = s.generation ∧ t.defaults = s.defaults) ∨
      s.generation < t.generation ∧
        ∃ effect v, t.Knows kinds (.default effect v) ∧ ¬s.Knows kinds (.default effect v) := by
  induction h with
  | refl => exact .inl ⟨rfl, rfl⟩
  | @tail t u first last ih =>
    have grown := Evolves.growsRegularly hs first
    have last' := last.growsRegularly grown.regular
    obtain ⟨generation, defaults⟩ | ⟨later, effect, v, known, new⟩ := last.defaults grown.regular
    · -- The last change leaves the defaults alone, so whatever holds before it holds after it.
      rw [generation, defaults]
      refine ih.imp_right fun ⟨later, effect, v, known, new⟩ => ⟨later, effect, v, ?_, new⟩
      exact knows_mono grown.regular last'.regular last'.grows known
    · refine .inr ⟨Nat.lt_of_le_of_lt grown.grows.generation later, effect, v, known, fun old => ?_⟩
      exact new (knows_mono hs grown.regular grown.grows old)

/-- The generation of the defaults tells just whether they have changed. -/
theorem Evolves.generation_ne_iff (hs : s.IsRegular kinds)
    (h : s.Evolves (Value.Regular kinds) M t) :
    t.generation ≠ s.generation ↔ t.defaults ≠ s.defaults := by
  obtain ⟨generation, defaults⟩ | ⟨later, effect, v, known, new⟩ := h.defaults hs
  · exact iff_of_false (not_not_intro generation) (not_not_intro defaults)
  · refine iff_of_true (Nat.ne_of_gt later) fun same => new ?_
    unfold Knows at known ⊢
    rwa [same] at known

/-- The memory of changes is exact. Let a history that writes regular values start at any store that
such a history leads to, with no change remembered, and let it not ask for the memory; any request
in it may fail, also after it has begun to write. Then a change is remembered in the end just if the
store holds something else than at the start, and the generation of the defaults is another one just
if the defaults are. -/
theorem isChanged_after_iff (kinds : ClazzId → NumericKind) (earlier later : List Request)
    (earlierRegular : ∀ r ∈ earlier, r.Carries (Value.Regular kinds))
    (laterRegular : ∀ r ∈ later, r.Carries (Value.Regular kinds))
    (clear : (after {} earlier).isChanged = false) (keeps : .takeChange ∉ later) :
    (((after {} earlier).after later).isChanged = true ↔
        ((after {} earlier).after later).content ≠ (after {} earlier).content) ∧
      (((after {} earlier).after later).generation ≠ (after {} earlier).generation ↔
        ((after {} earlier).after later).defaults ≠ (after {} earlier).defaults) := by
  have hs : (after {} earlier).IsRegular kinds :=
    isRegular_after (allValues_empty _) earlierRegular
  have unnoted : (after {} earlier).change = none :=
    Option.isNone_iff_eq_none.1 (Option.isSome_eq_false_iff.1 clear)
  have evolves := evolves_after hs laterRegular keeps
  exact ⟨evolves.isChanged_iff hs unnoted, evolves.generation_ne_iff hs⟩

/-- A field is written in two instances, of which the second one is unknown. The request fails, but
not before it has changed the first one. Of the two defaults that are installed then, one is new. -/
theorem isChanged_after_iff_halfway :
    let target := Value.set [.object ⟨0⟩, .object ⟨5⟩]
    let s := after {} [.internInstance ⟨0⟩ none, .takeChange]
    let t := s.after
      [.setField target ⟨1⟩ .unit, .installDefault ⟨2⟩ .unit, .installDefault ⟨2⟩ .undefined]
    ((setField ⟨1⟩ .unit target).outcome s).1 = .error (.unknownInstance ⟨5⟩) ∧
      t.isChanged = true ∧ t.content ≠ s.content ∧ t.generation = s.generation + 1 ∧
      t.defaults ≠ s.defaults := by
  intro target s t
  have exactness := isChanged_after_iff (fun _ => .i32)
    [.internInstance ⟨0⟩ none, .takeChange]
    [.setField target ⟨1⟩ .unit, .installDefault ⟨2⟩ .unit, .installDefault ⟨2⟩ .undefined]
    (List.forall_mem_cons.2 ⟨trivial, List.forall_mem_singleton.2 trivial⟩)
    (List.forall_mem_cons.2 ⟨⟨trivial, trivial⟩,
      List.forall_mem_cons.2 ⟨⟨trivial, trivial⟩, List.forall_mem_singleton.2 ⟨trivial, trivial⟩⟩⟩)
    (by decide +kernel) (by decide +kernel)
  have changed : t.isChanged = true := by decide +kernel
  have counted : t.generation = s.generation + 1 := by decide +kernel
  have differs : t.generation ≠ s.generation := by
    rw [counted]
    exact Nat.succ_ne_self _
  exact ⟨rfl, changed, exactness.1.1 changed, counted, exactness.2.1 differs⟩

end Store

end ClosedWorld
