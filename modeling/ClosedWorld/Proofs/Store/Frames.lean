import ClosedWorld.Proofs.Store.Changes
import ClosedWorld.Store.Request

/-!
# What an operation leaves alone

An operation concerns one or two of the tables in a store. The others it leaves as they are, and it
does so also if it fails. Writing fields and boxing instances concerns instances only.

## Main definitions

* `Store.KeepsPart`: a part of a store is not changed by a step.
* `Store.outside`: what a store has besides its instances.

## Main statements

* `Store.KeepsPart.bind`: steps one after the other.
* `Store.keepsPart_setField`, `Store.keepsPart_boxInstance`: the operations on instances.
-/

namespace ClosedWorld

namespace Store

variable {α β : Type}

/-- The step leaves a part of the store as it is, also if it fails. -/
def KeepsPart (part : Store → β) (step : Updating α) : Prop :=
  ∀ s : Store, part (step.outcome s).2 = part s

/-! ### Steps -/

section steps

variable {γ : Type} {part : Store → β}

/-- Giving an answer leaves every part of a store alone. -/
theorem keepsPart_pure (a : α) : KeepsPart part (pure a) := fun _ => rfl

/-- Looking at a store leaves every part of it alone. -/
theorem keepsPart_get : KeepsPart part get := fun _ => rfl

/-- A result, which may be a fault, leaves every part of a store alone. -/
theorem keepsPart_except (result : Except Fault α) : KeepsPart part (liftM result) := fun _ => rfl

/-- Two steps, one after the other, leave alone what both of them do. -/
theorem KeepsPart.bind {step : Updating α} {next : α → Updating γ} (h : KeepsPart part step)
    (h' : ∀ a, KeepsPart part (next a)) : KeepsPart part (step >>= next) := by
  intro s
  rw [Attempt.outcome_bind]
  have first := h s
  cases run : step.outcome s with
  | mk result t =>
    rw [run] at first
    cases result with
    | ok a => exact (h' a t).trans first
    | error e => exact first

/-- A query that may fail leaves every part of a store alone. -/
theorem keepsPart_ask (ask : Store → Except Fault α) (answer : α → Answer) :
    KeepsPart part (do return answer (← ask (← get))) :=
  keepsPart_get.bind fun _ => (keepsPart_except _).bind fun _ => keepsPart_pure _

/-- A query that cannot fail leaves every part of a store alone. -/
theorem keepsPart_look (answer : Store → Answer) : KeepsPart part (do return answer (← get)) :=
  keepsPart_get.bind fun _ => keepsPart_pure _

/-- Wrapping what a step gives into an `Answer` changes nothing about what it leaves alone. -/
theorem KeepsPart.answer {step : Updating α} (h : KeepsPart part step) (answer : α → Answer) :
    KeepsPart part (do return answer (← step)) :=
  h.bind fun _ => keepsPart_pure _

end steps

/-! ### Operations on instances -/

/-- What the store has besides its instances and the note of a change. -/
def outside (s : Store) : Store := { s with instances := {}, change := none }

/-- Stores that are the same `outside` differ in their instances and in the note of a change at
most. -/
theorem eq_of_outside_eq {s t : Store} (same : t.outside = s.outside) :
    t = { s with instances := t.instances, change := t.change } := by
  obtain ⟨_, _, _, _, _, _, _⟩ := s
  obtain ⟨_, _, _, _, _, _, _⟩ := t
  simpa [outside] using same

/-- The part of a store has nothing to do with its instances. -/
def IsOutside (part : Store → β) : Prop := ∀ s : Store, part s = part s.outside

/-- The `outside` of a store has nothing to do with its instances. -/
theorem isOutside_outside : IsOutside outside := fun _ => rfl

section instances

variable {part : Store → β}

/-- Interning an instance leaves alone what has nothing to do with instances. -/
theorem keepsPart_internInstance (outside : IsOutside part) (clazz : ClazzId)
    (context : Option ClazzId) : KeepsPart part (internInstance clazz context) := by
  intro s
  rw [Attempt.outcome_growing, outside, outside s]
  obtain ⟨id, -, run⟩ | ⟨-, run⟩ := s.internInstance_cases clazz context <;> rw [run]
  rfl

/-- Writing a field of an instance leaves alone what has nothing to do with instances. -/
theorem keepsPart_joinField (outside : IsOutside part) (id : InstanceId) (field : ClazzId)
    (value : Value) : KeepsPart part (joinField id field value) := by
  intro s
  rw [outside, outside s]
  obtain ⟨-, run⟩ | ⟨_, -, ⟨-, run⟩ | ⟨-, run⟩⟩ := s.joinField_cases id field value <;> rw [run]
  rfl

mutual

/-- Writing a field of everything a target may be leaves alone what has nothing to do with
instances. The recursion is that of `setField`. -/
theorem keepsPart_setField (outside : IsOutside part) (field : ClazzId) (value : Value) :
    (target : Value) → KeepsPart part (setField field value target)
  | .set atoms => by
    unfold setField
    exact keepsPart_setFieldOfAtoms outside field value atoms
  | .object id => by
    unfold setField
    exact keepsPart_joinField outside id field value
  | .boxed content _ _ => by
    unfold setField
    exact keepsPart_setField outside field value content
  | .noValue | .undefined | .unit | .bool _ | .number _ | .tagged .. | .array _ => fun _ => rfl

/-- The part of `keepsPart_setField` for the atoms of a target. -/
theorem keepsPart_setFieldOfAtoms (outside : IsOutside part) (field : ClazzId) (value : Value) :
    (atoms : List Value) → KeepsPart part (setFieldOfAtoms field value atoms)
  | [] => keepsPart_pure _
  | atom :: rest => by
    unfold setFieldOfAtoms
    split
    · exact keepsPart_pure _
    · exact fun _ => rfl
    · rename_i h
      cases h
      exact (keepsPart_setField outside field value _).bind fun _ =>
        keepsPart_setFieldOfAtoms outside field value _

end

/-- Copying entries into an instance leaves alone what has nothing to do with instances. -/
theorem keepsPart_joinFields (outside : IsOutside part) (id : InstanceId)
    (fields : List (ClazzId × Value)) : KeepsPart part (joinFields id fields) := by
  induction fields with
  | nil => exact keepsPart_pure _
  | cons e rest ih => exact (keepsPart_joinField outside id e.1 e.2).bind fun _ => ih

/-- Boxing an instance leaves alone what has nothing to do with instances. -/
theorem keepsPart_boxInstance (outside : IsOutside part) (id : InstanceId) (refClazz : ClazzId) :
    KeepsPart part (boxInstance id refClazz) := by
  refine keepsPart_get.bind fun _ => (keepsPart_except _).bind fun key => ?_
  refine (keepsPart_internInstance outside refClazz key.context).bind fun boxed => ?_
  refine keepsPart_get.bind fun _ => (keepsPart_except _).bind fun fields => ?_
  exact (keepsPart_joinFields outside boxed fields.entries).bind fun _ => keepsPart_pure _

end instances

end Store

end ClosedWorld
