import ClosedWorld.Proofs.Store.Growth
import Mathlib.Logic.Relation

/-!
# How stores evolve

A store evolves by elementary changes, each of which adds something that is not there yet or makes
something grow that is there. What holds of stores throughout is shown for one elementary change
after another.

## Main definitions

* `Store.Alters`: one elementary change.
* `Store.Evolves`: any number of elementary changes.
* `Store.BindsAbove`: nodes hold what was installed, or more.
* `Store.MarksOnly`: only calls with certain keys are marked as returning.

## Main statements

* `Store.Evolves.eq_or_noted`: a store that has evolved is the same, or has noted a change.
* `Store.evolves_setField` and the others: operations evolve a store.
* `Store.Evolves.growsRegularly`, `Store.Evolves.bindsAbove`: what stores keep to as they evolve.
* `Store.Alters.marksOnly`: what one change keeps to.
-/

namespace ClosedWorld

namespace Store

/-- One elementary change. What is added has a new key, what is replaced grows, `P` holds of the
values that are written, and `M` of the keys of calls that are marked as returning. -/
inductive Alters (P : Value → Prop) (M : CallKey → Prop) : Store → Store → Prop where
  | addInstance {s : Store} {key : InstanceKey} (new : s.instances.idOf? key = none) :
    Alters P M s (s.addInstance key)
  | putField {s : Store} {id : InstanceId} {field : ClazzId} {fields : Fields} {value : Value}
    (held : s.instances.state? id = some fields)
    (grown : fields.find? field ≠ some (.joinedTo (fields.find? field) value))
    (written : P value) :
    Alters P M s (s.putField id field fields (.joinedTo (fields.find? field) value) value)
  | addArray {s : Store} {key : ArrayKey} (new : s.arrays.idOf? key = none) :
    Alters P M s (s.addArray key)
  | putElements {s : Store} {id : ArrayId} {elements value : Value}
    (held : s.arrays.state? id = some elements) (grown : elements.join value ≠ elements)
    (written : P value) :
    Alters P M s (s.putElements id (elements.join value) value)
  | addBinding {s : Store} {key : EnvKey} (new : s.envs.idOf? key = none)
    (written : P key.initial) :
    Alters P M s (s.addBinding key)
  | putBinding {s : Store} {id : EnvId} {effect : ClazzId} {current value : Value}
    (held : s.envs.state? id = some current) (grown : current.join value ≠ current)
    (written : P value) :
    Alters P M s (s.putBinding id effect (current.join value))
  | putDefault {s : Store} {effect : ClazzId} {value : Value}
    (grown : s.defaults.find? effect ≠ some (.joinedTo (s.defaults.find? effect) value))
    (written : P value) :
    Alters P M s (s.putDefault effect (.joinedTo (s.defaults.find? effect) value))
  | addCall {s : Store} {key : CallKey} {frame : InstanceId} {context : Option ClazzId}
    {origin : Option CallId} (new : s.calls.idOf? key = none) (target : P key.target)
    (args : ∀ v ∈ key.args, P v) (framed : s.instances.key? frame = some ⟨key.clazz, context⟩) :
    Alters P M s (s.addCall key frame origin)
  | putReturns {s : Store} {id : CallId} {key : CallKey} {state : CallState}
    (held : s.calls.get? id = some (key, state)) (unmarked : state.returns = false)
    (marks : M key) :
    Alters P M s (s.putReturns id state)

/-- One elementary change after another. -/
def Evolves (P : Value → Prop) (M : CallKey → Prop) : Store → Store → Prop :=
  Relation.ReflTransGen (Alters P M)

variable {P : Value → Prop} {M : CallKey → Prop} {s t u : Store}

/-- A store evolves to itself, in no steps. -/
theorem Evolves.refl (s : Store) : s.Evolves P M s := Relation.ReflTransGen.refl

/-- A store that has evolved twice has evolved. -/
theorem Evolves.trans (h : s.Evolves P M t) (h' : t.Evolves P M u) : s.Evolves P M u :=
  Relation.ReflTransGen.trans h h'

/-- One elementary change is an evolution. -/
theorem Alters.evolves (h : s.Alters P M t) : s.Evolves P M t := Relation.ReflTransGen.single h

/-- A change that writes values with the property `P` writes values with the property `Q` if that
follows. -/
theorem Alters.mono {Q : Value → Prop} (hPQ : ∀ v, P v → Q v) (h : s.Alters P M t) :
    s.Alters Q M t := by
  cases h with
  | addInstance new => exact .addInstance new
  | putField held grown written => exact .putField held grown (hPQ _ written)
  | addArray new => exact .addArray new
  | putElements held grown written => exact .putElements held grown (hPQ _ written)
  | addBinding new written => exact .addBinding new (hPQ _ written)
  | putBinding held grown written => exact .putBinding held grown (hPQ _ written)
  | putDefault grown written => exact .putDefault grown (hPQ _ written)
  | addCall new target args framed =>
    exact .addCall new (hPQ _ target) (fun v hv => hPQ v (args v hv)) framed
  | putReturns held unmarked marks => exact .putReturns held unmarked marks

/-- Every elementary change is noted. -/
theorem Alters.noted (h : s.Alters P M t) : t.change ≠ none := by
  cases h <;> exact change_noting_ne_none _ _

/-- A store that has evolved is the same, or has noted a change. -/
theorem Evolves.eq_or_noted (h : s.Evolves P M t) : t = s ∨ t.change ≠ none := by
  cases Relation.ReflTransGen.cases_tail h with
  | inl same => exact .inl same
  | inr last =>
    obtain ⟨_, -, altered⟩ := last
    exact .inr altered.noted

/-- A store in which no change is noted has not evolved. -/
theorem Evolves.eq_of_quiet (h : s.Evolves P M t) (quiet : t.change = none) : t = s :=
  h.eq_or_noted.resolve_right (not_not_intro quiet)

section operations

variable {α β : Type}

/-! ### Operations -/

/-- Two steps, one after the other, evolve a store if the first one does, and the second one does
from every store that the first one may leave. -/
theorem evolves_bind {step : Updating α} {next : α → Updating β}
    (first : s.Evolves P M (step.outcome s).2)
    (rest : ∀ a t, step.outcome s = (.ok a, t) → t.Evolves P M ((next a).outcome t).2) :
    s.Evolves P M ((step >>= next).outcome s).2 := by
  rw [Attempt.outcome_bind]
  cases run : step.outcome s with
  | mk result t =>
    rw [run] at first
    cases result with
    | ok a => exact first.trans (rest a t run)
    | error e => exact first

/-- A step that begins with a result, which may be a fault, evolves a store if what follows does. -/
theorem evolves_except_bind {result : Except Fault α} {next : α → Updating β}
    (rest : ∀ a, result = .ok a → s.Evolves P M ((next a).outcome s).2) :
    s.Evolves P M ((liftM result >>= next).outcome s).2 := by
  apply evolves_bind (.refl s)
  intro a t run
  cases run
  exact rest a rfl

variable (s)

/-- Interning an instance evolves a store. -/
theorem evolves_internInstance (clazz : ClazzId) (context : Option ClazzId) :
    s.Evolves P M ((internInstance clazz context).run s).2 := by
  obtain ⟨id, -, run⟩ | ⟨new, run⟩ := s.internInstance_cases clazz context
  · rw [run]
    exact .refl s
  · rw [run]
    exact (Alters.addInstance new).evolves

/-- Writing a field evolves a store. -/
theorem evolves_joinField (id : InstanceId) (field : ClazzId) {value : Value} (hv : P value) :
    s.Evolves P M ((joinField id field value).outcome s).2 := by
  obtain ⟨-, run⟩ | ⟨fields, held, ⟨-, run⟩ | ⟨grown, run⟩⟩ := s.joinField_cases id field value
  · rw [run]
    exact .refl s
  · rw [run]
    exact .refl s
  · rw [run]
    exact (Alters.putField held grown hv).evolves

mutual

/-- Writing a field of everything a target may be evolves a store, also if it fails halfway: the
store has evolved up to there. -/
theorem evolves_setField (field : ClazzId) {value : Value} (hv : P value) : (target : Value) →
    ∀ s : Store, s.Evolves P M ((setField field value target).outcome s).2
  | .set atoms, s => by
    unfold setField
    exact evolves_setFieldOfAtoms field hv atoms s
  | .object id, s => by
    unfold setField
    exact s.evolves_joinField id field hv
  | .boxed content _ _, s => by
    unfold setField
    exact evolves_setField field hv content s
  | .noValue, s | .undefined, s | .unit, s | .bool _, s | .number _, s | .tagged .., s
  | .array _, s => .refl s

/-- The part of `evolves_setField` for the atoms of a target. -/
theorem evolves_setFieldOfAtoms (field : ClazzId) {value : Value} (hv : P value) :
    (atoms : List Value) →
    ∀ s : Store, s.Evolves P M ((setFieldOfAtoms field value atoms).outcome s).2
  | [], s => .refl s
  | atom :: rest, s => by
    unfold setFieldOfAtoms
    split
    · exact .refl s
    · exact .refl s
    · rename_i h
      cases h
      apply evolves_bind (evolves_setField field hv atom s)
      intro _ t _
      exact evolves_setFieldOfAtoms field hv rest t

end

/-- Copying entries into an instance evolves a store. -/
theorem evolves_joinFields (id : InstanceId) {fields : List (ClazzId × Value)}
    (hf : ∀ e ∈ fields, P e.2) : s.Evolves P M ((joinFields id fields).outcome s).2 := by
  induction fields generalizing s with
  | nil => exact .refl s
  | cons e rest ih =>
    obtain ⟨hv, hf⟩ := List.forall_mem_cons.1 hf
    unfold joinFields
    apply evolves_bind (s.evolves_joinField id e.1 hv)
    intro _ t _
    exact ih t hf

variable {s} in
/-- Boxing an instance evolves a store, with values that are in the store already. -/
theorem evolves_boxInstance (hs : s.AllValues P) (id : InstanceId) (refClazz : ClazzId) :
    s.Evolves P M ((boxInstance id refClazz).outcome s).2 := by
  unfold boxInstance
  apply evolves_bind (.refl s)
  rintro _ _ ⟨⟩
  apply evolves_except_bind
  intro key _
  apply evolves_bind (s.evolves_internInstance refClazz key.context)
  intro boxed t made
  have ht : t.AllValues P := by
    obtain ⟨_, -, run⟩ | ⟨-, run⟩ := s.internInstance_cases refClazz key.context
    · rw [Attempt.outcome_growing, run] at made
      cases made
      exact hs
    · rw [Attempt.outcome_growing, run] at made
      cases made
      exact hs.addInstance _
  apply evolves_bind (.refl t)
  rintro _ _ ⟨⟩
  apply evolves_except_bind
  intro fields found
  apply evolves_bind (t.evolves_joinFields boxed fun e he => ht.field (state?_of_fields found) he)
  intro _ u _
  exact .refl u

/-- Interning an array evolves a store. -/
theorem evolves_internArray (key : ArrayKey) : s.Evolves P M ((internArray key).run s).2 := by
  obtain ⟨id, -, run⟩ | ⟨new, run⟩ := s.internArray_cases key
  · rw [run]
    exact .refl s
  · rw [run]
    exact (Alters.addArray new).evolves

/-- Writing to an array evolves a store. -/
theorem evolves_arraySet (id : ArrayId) {value : Value} (hv : P value) :
    s.Evolves P M ((arraySet id value).outcome s).2 := by
  obtain ⟨-, run⟩ | ⟨elements, held, ⟨-, run⟩ | ⟨grown, run⟩⟩ := s.arraySet_cases id value
  · rw [run]
    exact .refl s
  · rw [run]
    exact .refl s
  · rw [run]
    exact (Alters.putElements held grown hv).evolves

/-- Extending an environment evolves a store. -/
theorem evolves_extendEnv (outer : Option EnvId) (effect : ClazzId) {value : Value} (hv : P value) :
    s.Evolves P M ((extendEnv outer effect value).run s).2 := by
  obtain ⟨id, -, run⟩ | ⟨new, run⟩ := s.extendEnv_cases outer effect value
  · rw [run]
    exact .refl s
  · rw [run]
    exact (Alters.addBinding new hv).evolves

/-- Installing a default evolves a store. -/
theorem evolves_installDefault (effect : ClazzId) {value : Value} (hv : P value) :
    s.Evolves P M ((installDefault effect value).run s).2 := by
  obtain ⟨-, run⟩ | ⟨grown, run⟩ := s.installDefault_cases effect value
  · rw [run]
    exact .refl s
  · rw [run]
    exact (Alters.putDefault grown hv).evolves

/-- Replacing an effect evolves a store, whether it is a node or a default that is written. -/
theorem evolves_replaceEffect (env : Option EnvId) (effect : ClazzId) {value : Value}
    (hv : P value) : s.Evolves P M ((replaceEffect env effect value).outcome s).2 := by
  obtain ⟨e, -, run⟩ | ⟨-, -, run⟩ | ⟨-, -, run⟩ | ⟨id, -, -, run⟩ |
      ⟨id, current, -, held, ⟨-, run⟩ | ⟨grown, run⟩⟩ := s.replaceEffect_cases env effect value
  · rw [run]
    exact .refl s
  · rw [run]
    exact .refl s
  · rw [run]
    exact s.evolves_installDefault effect hv
  · rw [run]
    exact .refl s
  · rw [run]
    exact .refl s
  · rw [run]
    exact (Alters.putBinding held grown hv).evolves

/-- Interning a call evolves a store, by its frame first and then by the call. -/
theorem evolves_internCall {key : CallKey} (ht : P key.target) (ha : ∀ v ∈ key.args, P v)
    (context : Option ClazzId) (origin : Option CallId) :
    s.Evolves P M ((internCall key context origin).run s).2 := by
  obtain ⟨id, -, run⟩ | ⟨new, run⟩ := s.internCall_cases key context origin
  · rw [run]
    exact .refl s
  · rw [run]
    rw [← s.calls_internInstance key.clazz context] at new
    exact (s.evolves_internInstance key.clazz context).trans
      (Alters.addCall new ht ha (s.key?_internInstance key.clazz context)).evolves

/-- Marking a call evolves a store if `M` holds of the key of the call. -/
theorem evolves_markReturns {id : CallId} (marks : ∀ key, s.calls.key? id = some key → M key) :
    s.Evolves P M ((markReturns id).outcome s).2 := by
  obtain ⟨-, run⟩ | ⟨state, held, ⟨-, run⟩ | ⟨unmarked, run⟩⟩ := s.markReturns_cases id
  · rw [run]
    exact .refl s
  · rw [run]
    exact .refl s
  · rw [run]
    obtain ⟨key, entry⟩ := Interned.exists_get?_of_state? held
    exact (Alters.putReturns entry unmarked (marks key (Interned.key?_of_get? entry))).evolves

end operations

/-! ### Keys -/

/-- No elementary change takes a call away or gives it another key. -/
theorem Alters.keepsCalls (h : s.Alters P M t) : s.calls.KeepsKeys t.calls := by
  cases h with
  | addCall => exact Interned.keepsKeys_push _ _ _
  | putReturns => exact Interned.keepsKeys_set _ _ _
  | _ => exact Interned.keepsKeys_refl _

/-- No elementary change takes a node away or gives it another key. -/
theorem Alters.keepsEnvs (h : s.Alters P M t) : s.envs.KeepsKeys t.envs := by
  cases h with
  | addBinding => exact Interned.keepsKeys_push _ _ _
  | putBinding => exact Interned.keepsKeys_set _ _ _
  | _ => exact Interned.keepsKeys_refl _

/-- Calls keep their frame and their origin, and are still marked if they were. -/
theorem Alters.extendsCalls (h : s.Alters P M t) : s.calls.Extends CallState.Below t.calls := by
  cases h with
  | addCall => exact Interned.extends_push CallState.below_refl _ _ _
  | putReturns held =>
    refine Interned.extends_set CallState.below_refl fun key state held' => ?_
    cases held.symm.trans held'
    exact ⟨rfl, rfl, fun _ => rfl⟩
  | _ => exact Interned.extends_refl CallState.below_refl _

/-- Calls keep their frame and their origin as the store evolves, and are still marked if they were.
-/
theorem Evolves.extendsCalls (h : s.Evolves P M t) : s.calls.Extends CallState.Below t.calls := by
  induction h with
  | refl => exact Interned.extends_refl CallState.below_refl _
  | tail _ last ih => exact ih.trans last.extendsCalls fun _ _ _ _ _ _ _ _ h h' => h.trans h'

/-- Calls keep their keys as the store evolves. -/
theorem Evolves.keepsCalls (h : s.Evolves P M t) : s.calls.KeepsKeys t.calls := by
  induction h with
  | refl => exact Interned.keepsKeys_refl _
  | tail _ last ih => exact ih.trans last.keepsCalls

/-- Nodes keep their keys as the store evolves. -/
theorem Evolves.keepsEnvs (h : s.Evolves P M t) : s.envs.KeepsKeys t.envs := by
  induction h with
  | refl => exact Interned.keepsKeys_refl _
  | tail _ last ih => exact ih.trans last.keepsEnvs

/-! ### Values -/

/-- A property that survives the `join` still holds of all values after an elementary change. -/
theorem Alters.allValues (join : ∀ {v w}, P v → P w → P (v.join w)) (hs : s.AllValues P)
    (h : s.Alters P M t) : t.AllValues P := by
  cases h with
  | addInstance => exact hs.addInstance _
  | putField held grown written => exact hs.putField join held _ written
  | addArray => exact hs.addArray _
  | putElements held grown written => exact hs.putElements join held written
  | addBinding new written => exact hs.addBinding written
  | putBinding held grown written => exact hs.putBinding join _ held written
  | putDefault grown written => exact hs.putDefault join _ written
  | addCall new target args => exact hs.addCall target args _ _
  | putReturns => exact hs.putReturns _ _

/-- A property that survives the `join` still holds of all values after the store has evolved. -/
theorem Evolves.allValues (join : ∀ {v w}, P v → P w → P (v.join w)) (hs : s.AllValues P)
    (h : s.Evolves P M t) : t.AllValues P := by
  induction h with
  | refl => exact hs
  | tail _ last ih => exact last.allValues join ih

/-! ### Growth -/

variable {kinds : ClazzId → NumericKind}

/-- An elementary change makes a regular store grow, and keeps it regular. -/
theorem Alters.growsRegularly (hs : s.IsRegular kinds) (h : s.Alters (Value.Regular kinds) M t) :
    s.GrowsRegularly kinds t := by
  cases h with
  | addInstance new => exact growsRegularly_addInstance hs new
  | putField held grown written => exact growsRegularly_putField hs held grown written
  | addArray new => exact growsRegularly_addArray hs new
  | putElements held grown written => exact growsRegularly_putElements hs held grown written
  | addBinding new written => exact growsRegularly_addBinding hs new written
  | putBinding held grown written => exact growsRegularly_putBinding hs _ held grown written
  | putDefault grown written => exact growsRegularly_putDefault hs grown written
  | addCall new target args => exact growsRegularly_addCall hs new target args _ _
  | putReturns held unmarked =>
    exact growsRegularly_putReturns hs (Interned.state?_of_get? held) unmarked

/-- A regular store grows as it evolves, and stays regular. -/
theorem Evolves.growsRegularly (hs : s.IsRegular kinds)
    (h : s.Evolves (Value.Regular kinds) M t) : s.GrowsRegularly kinds t := by
  induction h with
  | refl => exact .refl hs
  | tail _ last ih => exact ih.trans hs (last.growsRegularly ih.regular)

/-! ### Bindings -/

/-- Every node holds what was installed, or more. -/
def BindsAbove (s : Store) : Prop := s.envs.All fun key v => key.initial.Below v

/-- In the empty store there is no node that could hold less than was installed. -/
theorem bindsAbove_empty : BindsAbove {} := by
  intro _ _ _ held
  cases held

/-- After an elementary change, nodes hold what was installed, or more. -/
theorem Alters.bindsAbove (hs : s.IsRegular kinds) (hb : s.BindsAbove)
    (h : s.Alters (Value.Regular kinds) M t) : t.BindsAbove := by
  cases h with
  | addBinding new written => exact Interned.all_push hb (Value.below_refl _)
  | putBinding held grown written =>
    refine Interned.all_set hb fun key old entry => ?_
    cases held.symm.trans (Interned.state?_of_get? entry)
    have ⟨initial, current⟩ := hs.envs _ _ _ entry
    exact Value.below_trans initial current (Value.regular_join current written) (hb _ _ _ entry)
      (Value.below_join current written)
  | _ => exact hb

/-- As a regular store evolves, nodes hold what was installed, or more. -/
theorem Evolves.bindsAbove (hs : s.IsRegular kinds) (hb : s.BindsAbove)
    (h : s.Evolves (Value.Regular kinds) M t) : t.BindsAbove := by
  induction h with
  | refl => exact hb
  | tail first last ih => exact last.bindsAbove (Evolves.growsRegularly hs first).regular ih

/-! ### Marks -/

/-- Only calls with these keys are marked as returning. -/
def MarksOnly (M : CallKey → Prop) (s : Store) : Prop :=
  s.calls.All fun key state => state.returns = true → M key

/-- In the empty store no call is marked. -/
theorem marksOnly_empty (M : CallKey → Prop) : MarksOnly M {} := by
  intro _ _ _ held
  cases held

/-- An elementary change marks only calls of which `M` holds. -/
theorem Alters.marksOnly (hm : s.MarksOnly M) (h : s.Alters P M t) : t.MarksOnly M := by
  cases h with
  | addCall => exact Interned.all_push hm (by rintro ⟨⟩)
  | putReturns held unmarked marks =>
    refine Interned.all_set hm fun key old entry _ => ?_
    cases held.symm.trans entry
    exact marks
  | _ => exact hm

end Store

end ClosedWorld
