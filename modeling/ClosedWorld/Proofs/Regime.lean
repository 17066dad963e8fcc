import ClosedWorld.Attempt

/-!
# Steps that keep to a regime

Most of what can be said of an analysis is said of its elementary steps first and carried over to
everything that is composed of them. What is said is called a regime: which states may two runs of
a step be in side by side, how may a step change its state, and with what may it fail. A step keeps
to a regime if two runs of it, begun side by side, end alike and side by side. Where a regime puts
only equal states side by side, this is an invariant, and where it does not, it says in addition
that a run does not depend on what the two states have apart.

## Main definitions

* `Gives`: a result that is as wanted or fails as allowed.
* `Regime`: what steps are held to.
* `Regime.Safe`: two steps that keep to a regime, side by side.
* `Regime.since`, `Regime.relating`, `Regime.keeping`: regimes that say more about the states.

## Main statements

* `Regime.Safe.bind`: steps after one another.
* `Regime.Safe.lift_bind`, `Regime.Safe.mono`, `Regime.Safe.map`: the other rules.
-/

namespace ClosedWorld

variable {ε σ α β : Type}

/-! ### Results -/

/-- The result is a wanted one, or it fails with an allowed error. -/
inductive Gives (Allowed : ε → Prop) (post : α → Prop) : Except ε α → Prop where
  | ok {x : α} (holds : post x) : Gives Allowed post (.ok x)
  | error {e : ε} (allowed : Allowed e) : Gives Allowed post (.error e)

namespace Gives

variable {Allowed : ε → Prop} {mid : α → Prop} {post : β → Prop} {r : Except ε α}

/-- Results after one another give what is wanted if the first gives `mid` and the next, from there,
gives `post`. -/
theorem bind {next : α → Except ε β} (hr : Gives Allowed mid r)
    (hn : ∀ x, r = .ok x → mid x → Gives Allowed post (next x)) :
    Gives Allowed post (r >>= next) := by
  cases hr with
  | ok holds => exact hn _ rfl holds
  | error allowed => exact .error allowed

end Gives

/-- After a step that succeeds, `next` runs on what it yields, in the state where it ends. -/
theorem Attempt.outcome_bind_of_ok {step : Attempt ε σ α} {next : α → Attempt ε σ β} {a b : σ} {x : α}
    (h : step.outcome a = (.ok x, b)) : (step >>= next).outcome a = (next x).outcome b := by
  rw [Attempt.outcome_bind, h]

/-- Steps after one another succeed only if both do. This takes a run of `step >>= next` apart. -/
theorem Attempt.outcome_bind_eq_ok {step : Attempt ε σ α} {next : α → Attempt ε σ β} {a c : σ} {y : β}
    (h : (step >>= next).outcome a = (.ok y, c)) :
    ∃ x b, step.outcome a = (.ok x, b) ∧ (next x).outcome b = (.ok y, c) := by
  rw [Attempt.outcome_bind] at h
  cases run : step.outcome a with
  | mk result b =>
    rw [run] at h
    cases result with
    | ok x => exact ⟨x, b, rfl, h⟩
    | error e => cases h

/-- A result that was computed without the state leaves it as it is, so a run of `liftM r >>= next`
is one of `next` from the same state. -/
theorem Attempt.outcome_lift_bind_eq_ok {r : Except ε α} {next : α → Attempt ε σ β} {a c : σ} {y : β}
    (h : (liftM r >>= next).outcome a = (.ok y, c)) :
    ∃ x, r = .ok x ∧ (next x).outcome a = (.ok y, c) := by
  obtain ⟨x, b, lifted, rest⟩ := outcome_bind_eq_ok h
  rw [outcome_except] at lifted
  obtain ⟨given, rfl⟩ := Prod.mk.inj lifted
  exact ⟨x, given, rest⟩

/-- Results after one another are there only if both are. -/
theorem exists_of_bind_eq_ok {r : Except ε α} {next : α → Except ε β} {y : β}
    (h : r >>= next = .ok y) : ∃ x, r = .ok x ∧ next x = .ok y := by
  cases r with
  | ok x => exact ⟨x, rfl, h⟩
  | error e => cases h

/-! ### Regimes -/

/-- What steps on the state `σ` are held to. -/
structure Regime (ε σ : Type) where
  /-- Two runs may be in these states at the same point. -/
  Alike : σ → σ → Prop
  /-- A step may change its state so. -/
  Leads : σ → σ → Prop
  /-- A step may fail so. -/
  Allowed : ε → Prop
  leads_refl : ∀ a, Leads a a
  leads_trans : ∀ {a b c}, Leads a b → Leads b c → Leads a c

namespace Regime

variable {R : Regime ε σ}

/-- Begun in `a` and `b`, the steps keep to the regime side by side: they end with the same result,
for which `post` holds, or with the same allowed error. -/
inductive Safe (R : Regime ε σ) (post : α → σ → Prop) (step step' : Attempt ε σ α) (a b : σ) :
    Prop where
  | ok {x : α} {a' b' : σ} (run : step.outcome a = (.ok x, a')) (run' : step'.outcome b = (.ok x, b'))
      (alike : R.Alike a' b') (leads : R.Leads a a') (holds : post x a')
  | error {e : ε} {a' b' : σ} (run : step.outcome a = (.error e, a'))
      (run' : step'.outcome b = (.error e, b')) (alike : R.Alike a' b') (leads : R.Leads a a')
      (allowed : R.Allowed e)

namespace Safe

variable {mid : α → σ → Prop} {post : β → σ → Prop} {step step' : Attempt ε σ α} {a b : σ}

/-- A step that only yields `x` keeps to every regime, if `x` is as wanted. -/
theorem pure {x : β} (h : R.Alike a b) (hp : post x a) :
    R.Safe post (pure x) (pure x) a b :=
  .ok rfl rfl h (R.leads_refl a) hp

/-- A step that fails at once keeps to a regime if the fault is allowed. -/
theorem throw {e : ε} (h : R.Alike a b) (he : R.Allowed e) :
    R.Safe post (throw e) (throw e) a b :=
  .error rfl rfl h (R.leads_refl a) he

/-- Steps after one another keep to a regime, side by side, if the second is safe wherever the first
one may end. -/
theorem bind {next next' : α → Attempt ε σ β} (hs : R.Safe mid step step' a b)
    (hn : ∀ x a' b', R.Alike a' b' → R.Leads a a' → mid x a' →
      R.Safe post (next x) (next' x) a' b') :
    R.Safe post (step >>= next) (step' >>= next') a b := by
  cases hs with
  | ok run run' alike leads holds =>
    have bound := Attempt.outcome_bind step next a
    have bound' := Attempt.outcome_bind step' next' b
    rw [run] at bound
    rw [run'] at bound'
    cases hn _ _ _ alike leads holds with
    | ok later later' alike' leads' holds' =>
      exact .ok (bound.trans later) (bound'.trans later') alike' (R.leads_trans leads leads') holds'
    | error later later' alike' leads' allowed =>
      exact .error (bound.trans later) (bound'.trans later') alike' (R.leads_trans leads leads')
        allowed
  | error run run' alike leads allowed =>
    have bound := Attempt.outcome_bind step next a
    have bound' := Attempt.outcome_bind step' next' b
    rw [run] at bound
    rw [run'] at bound'
    exact .error bound bound' alike leads allowed

/-- What comes after a step that fails at once does not matter. -/
theorem throw_bind {e : ε} {next next' : α → Attempt ε σ β} (h : R.Alike a b)
    (he : R.Allowed e) :
    R.Safe post (MonadExcept.throw e >>= next) (MonadExcept.throw e >>= next') a b :=
  .error rfl rfl h (R.leads_refl a) he

/-- A result that was computed without the state leaves it as it is, so what comes next is begun in
the same two states. -/
theorem lift_bind {r : Except ε α} {wanted : α → Prop} {next next' : α → Attempt ε σ β}
    (h : R.Alike a b) (hr : Gives R.Allowed wanted r)
    (hn : ∀ x, wanted x → R.Safe post (next x) (next' x) a b) :
    R.Safe post (liftM r >>= next) (liftM r >>= next') a b := by
  cases hr with
  | ok holds => exact hn _ holds
  | error allowed => exact .error rfl rfl h (R.leads_refl a) allowed

/-- What is known of the results of a safe step can be replaced by what follows from it. -/
theorem mono {mid' : α → σ → Prop} (hs : R.Safe mid step step' a b)
    (h : ∀ x a', R.Leads a a' → mid x a' → mid' x a') : R.Safe mid' step step' a b := by
  cases hs with
  | ok run run' alike leads holds => exact .ok run run' alike leads (h _ _ leads holds)
  | error run run' alike leads allowed => exact .error run run' alike leads allowed

/-- What is known of the first step when its run succeeds: the second one succeeds with the same
result, in a state that is alike. -/
theorem of_ok {x : α} {a' : σ} (hs : R.Safe mid step step' a b)
    (run : step.outcome a = (.ok x, a')) :
    ∃ b', step'.outcome b = (.ok x, b') ∧ R.Alike a' b' ∧ R.Leads a a' ∧ mid x a' := by
  cases hs with
  | ok run₁ run' alike leads holds =>
    cases run.symm.trans run₁
    exact ⟨_, run', alike, leads, holds⟩
  | error run₁ => cases run.symm.trans run₁

/-- What is known of the first step when its run fails: the second one fails with the same fault,
and the fault is allowed. -/
theorem of_error {e : ε} {a' : σ} (hs : R.Safe mid step step' a b)
    (run : step.outcome a = (.error e, a')) :
    ∃ b', step'.outcome b = (.error e, b') ∧ R.Alike a' b' ∧ R.Leads a a' ∧ R.Allowed e := by
  cases hs with
  | ok run₁ => cases run.symm.trans run₁
  | error run₁ run' alike leads allowed =>
    cases run.symm.trans run₁
    exact ⟨_, run', alike, leads, allowed⟩

/-- However the run of the first step ends, its state has changed as the regime says. -/
theorem leads_of_outcome {result : Except ε α} {a' : σ} (hs : R.Safe mid step step' a b)
    (run : step.outcome a = (result, a')) : R.Leads a a' := by
  cases hs with
  | ok run₁ _ _ leads =>
    cases run.symm.trans run₁
    exact leads
  | error run₁ _ _ leads =>
    cases run.symm.trans run₁
    exact leads

/-- The outcome of the first step may be assumed besides, where its result is used. -/
theorem remember (hs : R.Safe mid step step' a b) :
    R.Safe (fun x a' => mid x a' ∧ step.outcome a = (.ok x, a')) step step' a b := by
  cases hs with
  | ok run run' alike leads holds => exact .ok run run' alike leads ⟨holds, run⟩
  | error run run' alike leads allowed => exact .error run run' alike leads allowed

/-- A safe step whose results are mapped by `f` is safe if `f` makes what is wanted of what is
known. -/
theorem map {f : α → β} (hs : R.Safe mid step step' a b)
    (h : ∀ x a', R.Leads a a' → mid x a' → post (f x) a') :
    R.Safe post (f <$> step) (f <$> step') a b := by
  have mapped := Attempt.outcome_map f step a
  have mapped' := Attempt.outcome_map f step' b
  cases hs with
  | ok run run' alike leads holds =>
    rw [run] at mapped
    rw [run'] at mapped'
    exact .ok mapped mapped' alike leads (h _ _ leads holds)
  | error run run' alike leads allowed =>
    rw [run] at mapped
    rw [run'] at mapped'
    exact .error mapped mapped' alike leads allowed

end Safe

/-! ### From a state on -/

/-- The regime, for states that may be reached from `start`. -/
def since (R : Regime ε σ) (start : σ) : Regime ε σ where
  Alike a b := R.Alike a b ∧ R.Leads start a
  Leads := R.Leads
  Allowed := R.Allowed
  leads_refl := R.leads_refl
  leads_trans := R.leads_trans

variable {start a b : σ} {post : α → σ → Prop} {step step' : Attempt ε σ α}

/-- In the regime `R.since start`, a step that is safe in `R` is safe, as long as it is begun in a
state that `start` leads to. -/
theorem Safe.since (hs : R.Safe post step step' a b) (leads : R.Leads start a) :
    (R.since start).Safe post step step' a b := by
  cases hs with
  | ok run run' alike leads' holds =>
    exact .ok run run' ⟨alike, R.leads_trans leads leads'⟩ leads' holds
  | error run run' alike leads' allowed =>
    exact .error run run' ⟨alike, R.leads_trans leads leads'⟩ leads' allowed

/-- What is safe in `R.since start` is safe in `R`, which asks for less. -/
theorem Safe.of_since (hs : (R.since start).Safe post step step' a b) :
    R.Safe post step step' a b := by
  cases hs with
  | ok run run' alike leads holds => exact .ok run run' alike.1 leads holds
  | error run run' alike leads allowed => exact .error run run' alike.1 leads allowed

/-! ### Invariants -/

/-- The regime, for states that are related besides. -/
def relating (R : Regime ε σ) (Rel : σ → σ → Prop) : Regime ε σ where
  Alike a b := R.Alike a b ∧ Rel a b
  Leads := R.Leads
  Allowed := R.Allowed
  leads_refl := R.leads_refl
  leads_trans := R.leads_trans

/-- A safe step is safe in `R.relating Rel` if the states where its two runs end are related by
`Rel`. -/
theorem Safe.relating {Rel : σ → σ → Prop} (hs : R.Safe post step step' a b)
    (kept : ∀ result a' b', step.outcome a = (result, a') → step'.outcome b = (result, b') →
      R.Leads a a' → Rel a' b') :
    (R.relating Rel).Safe post step step' a b := by
  cases hs with
  | ok run run' alike leads holds =>
    exact .ok run run' ⟨alike, kept _ _ _ run run' leads⟩ leads holds
  | error run run' alike leads allowed =>
    exact .error run run' ⟨alike, kept _ _ _ run run' leads⟩ leads allowed

/-- The regime, for states that have the property. -/
def keeping (R : Regime ε σ) (Inv : σ → Prop) : Regime ε σ := R.relating fun a _ => Inv a

/-- A safe step is safe in `R.keeping Inv` if it keeps the invariant `Inv` wherever it ends. -/
theorem Safe.keeping {Inv : σ → Prop} (hs : R.Safe post step step' a b)
    (kept : ∀ result a', step.outcome a = (result, a') → R.Leads a a' → Inv a') :
    (R.keeping Inv).Safe post step step' a b :=
  hs.relating fun result a' _ run _ leads => kept result a' run leads

end Regime

end ClosedWorld
