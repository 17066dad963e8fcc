/-!
# Steps that may fail

A step reads and writes a state and either succeeds or fails. What it wrote before it failed stays
written: the state after a failure is an answer like any other.

## Main definitions

* `Attempt ε σ α`: a step on the state `σ` that yields an `α` or fails with an `ε`.
* `Attempt.within`: a step on a part of the state, as a step on the whole.

## Main statements

* `Attempt.outcome_bind`, `Attempt.outcome_within`: outcomes of composed steps.
-/

namespace ClosedWorld

/-- A step on the state `σ` that yields an `α` or fails with an `ε`, and keeps its writes either
way. -/
abbrev Attempt (ε σ α : Type) := ExceptT ε (StateM σ) α

namespace Attempt

variable {ε σ τ α : Type}

/-- The result of the step on a given state, and the state it leaves. -/
def outcome (step : Attempt ε σ α) (s : σ) : Except ε α × σ := StateT.run (ExceptT.run step) s

/-- The step with the given result function. -/
def ofOutcome (f : σ → Except ε α × σ) : Attempt ε σ α := ExceptT.mk f

/-- The step on the part of the state that `get` shows and `put` replaces. -/
def within (get : τ → σ) (put : τ → σ → τ) (step : Attempt ε σ α) : Attempt ε τ α :=
  ofOutcome fun whole =>
    let (result, part) := step.outcome (get whole)
    (result, put whole part)

/-! ### Outcomes -/

variable {β : Type}

/-- The step `pure a` yields `a` and leaves the state as it is. -/
@[simp] theorem outcome_pure (a : α) (s : σ) :
    (pure a : Attempt ε σ α).outcome s = (.ok a, s) := rfl

/-- A failure leaves the state as it is. What was written before it stays written. -/
@[simp] theorem outcome_throw (e : ε) (s : σ) :
    (throw e : Attempt ε σ α).outcome s = (.error e, s) := rfl

/-- The step `get` yields the state. -/
@[simp] theorem outcome_get (s : σ) : (get : Attempt ε σ σ).outcome s = (.ok s, s) := rfl

/-- The step `set s'` leaves `s'`, whatever the state was. -/
@[simp] theorem outcome_set (s s' : σ) : (set s' : Attempt ε σ PUnit).outcome s = (.ok ⟨⟩, s') :=
  rfl

/-- The step `modify f` cannot fail and leaves `f s`. -/
@[simp] theorem outcome_modify (f : σ → σ) (s : σ) :
    (modify f : Attempt ε σ PUnit).outcome s = (.ok ⟨⟩, f s) := rfl

/-- A step that cannot fail, lifted to an `Attempt`, succeeds with what it yields and leaves. -/
@[simp] theorem outcome_growing (step : StateM σ α) (s : σ) :
    (liftM step : Attempt ε σ α).outcome s = (.ok (step.run s).1, (step.run s).2) := rfl

/-- A result that was computed without the state is the outcome, and the state stays as it is. -/
@[simp] theorem outcome_except (result : Except ε α) (s : σ) :
    (liftM result : Attempt ε σ α).outcome s = (result, s) := rfl

/-- The `outcome` of a step with another after it: `next` starts in the state that `step` leaves,
unless `step` fails. -/
theorem outcome_bind (step : Attempt ε σ α) (next : α → Attempt ε σ β) (s : σ) :
    (step >>= next).outcome s =
      match step.outcome s with
      | (.ok a, s') => (next a).outcome s'
      | (.error e, s') => (.error e, s') := by
  simp only [outcome, ExceptT.run, StateT.run, bind, ExceptT.bind, ExceptT.mk, StateT.bind,
    ExceptT.bindCont]
  cases step s with
  | mk result s' => cases result <;> rfl

/-- What a step yields is mapped under `f <$> step`, and the state it leaves is the same, failed or
not. -/
theorem outcome_map (f : α → β) (step : Attempt ε σ α) (s : σ) :
    (f <$> step).outcome s = ((step.outcome s).1.map f, (step.outcome s).2) := by
  simp only [outcome, ExceptT.run, StateT.run, Functor.map, ExceptT.map, ExceptT.mk, bind,
    StateT.bind]
  cases step s with
  | mk result s' => cases result <;> rfl

/-- A step `within` a whole changes the part as `step` says, and the rest of the whole stays. -/
@[simp] theorem outcome_within (get : τ → σ) (put : τ → σ → τ) (step : Attempt ε σ α) (whole : τ) :
    (within get put step).outcome whole =
      ((step.outcome (get whole)).1, put whole (step.outcome (get whole)).2) := rfl

end Attempt

end ClosedWorld
