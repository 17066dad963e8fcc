import ClosedWorld.Proofs.Walk.Visits

/-!
# Accounting for a walk

What is seen during a step may account for what the step does: a ledger says when the items of a
list, one after the other, account for what lies between two states. Where the visits of a walk
account for the instructions, they account for the walk. Nothing is asked of the steps themselves,
and nothing is said of a step that fails.

## Main definitions

* `Ledger`: what it is that items account for.
* `Ledger.Accounts`: what is seen during a step accounts for the step.

## Main statements

* `Ledger.Accounts.bind`: steps after one another.
* `Ledger.accounts_visitsOfNested`, `Ledger.accounts_visitsOfClazz`: the visits of a walk account
  for it.
-/

namespace ClosedWorld

variable {ε σ τ υ V O α β : Type}

/-- Items account for what lies between two states. Nothing has to be accounted for where nothing
happens, and lists can be put together. -/
structure Ledger (σ τ : Type) where
  Balances : σ → List τ → σ → Prop
  refl : ∀ a, Balances a [] a
  trans : ∀ {a b c l l'}, Balances a l b → Balances b l' c → Balances a (l ++ l') c

namespace Ledger

/-- A ledger in which each item stands for several ones of another. -/
def via (L : Ledger σ υ) (f : τ → List υ) : Ledger σ τ where
  Balances a l b := L.Balances a (l.flatMap f) b
  refl a := L.refl a
  trans h h' := by
    rw [List.flatMap_append]
    exact L.trans h h'

variable (L : Ledger σ τ)

/-- If the step succeeds in the state, the items account for what it does. -/
def Accounts (step : Attempt ε σ α) (items : List τ) (a : σ) : Prop :=
  ∀ x a', step.outcome a = (.ok x, a') → L.Balances a items a'

/-- What the step does needs no accounting for. -/
abbrev Overlooks (step : Attempt ε σ α) (a : σ) : Prop := L.Accounts step [] a

namespace Accounts

variable {L} {step : Attempt ε σ α} {items : List τ} {a : σ}

/-- Giving an answer changes nothing and needs no accounting for. -/
theorem pure (x : α) : L.Overlooks (Pure.pure x : Attempt ε σ α) a := by
  rintro _ _ ⟨⟩
  exact L.refl a

/-- A step that fails at once is accounted for by anything. -/
theorem throw (e : ε) : L.Accounts (throw e : Attempt ε σ α) items a := by
  rintro _ _ ⟨⟩

/-- A step that fails at once is accounted for by anything, whatever would come next. -/
theorem throw_bind (e : ε) (next : α → Attempt ε σ β) :
    L.Accounts ((MonadExcept.throw e : Attempt ε σ α) >>= next) items a := by
  rintro _ _ ⟨⟩

/-- A result that was computed without the state changes nothing and needs no accounting for. -/
theorem lift (r : Except ε α) : L.Overlooks (liftM r : Attempt ε σ α) a := by
  intro x a' run
  rw [Attempt.outcome_except] at run
  cases run
  exact L.refl a

/-- A step that uses such a result is accounted for if what it does with the result is. -/
theorem lift_bind {r : Except ε α} {next : α → Attempt ε σ β}
    (h : ∀ x, r = .ok x → L.Accounts (next x) items a) : L.Accounts (liftM r >>= next) items a := by
  intro y a' run
  obtain ⟨x, given, rest⟩ := Attempt.outcome_lift_bind_eq_ok run
  exact h x given y a' rest

/-- Steps after one another are accounted for by what is seen during the first one and then, as
`follow` says, during the second one. -/
theorem bind {next : α → Attempt ε σ β} {later : α → σ → List τ} (h : L.Accounts step items a)
    (hn : ∀ x a', step.outcome a = (.ok x, a') → L.Accounts (next x) (later x a') a') :
    L.Accounts (step >>= next) (items ++ step.follow later a) a := by
  intro y c run
  obtain ⟨x, b, first, rest⟩ := Attempt.outcome_bind_eq_ok run
  have follows : step.follow later a = later x b := by
    unfold Attempt.follow
    rw [first]
  rw [follows]
  exact L.trans (h x b first) (hn x b first y c rest)

/-- If the first step needs no accounting for, then what is seen during the second one accounts for
both. -/
theorem after {next : α → Attempt ε σ β} {later : α → σ → List τ} (h : L.Overlooks step a)
    (hn : ∀ x a', step.outcome a = (.ok x, a') → L.Accounts (next x) (later x a') a') :
    L.Accounts (step >>= next) (step.follow later a) a :=
  h.bind hn

/-- If the second step needs no accounting for, then what is seen during the first one accounts for
both. -/
theorem bind_nothing {next : α → Attempt ε σ β} (h : L.Accounts step items a)
    (hn : ∀ x a', L.Overlooks (next x) a') : L.Accounts (step >>= next) items a := by
  intro y c run
  obtain ⟨x, b, first, rest⟩ := Attempt.outcome_bind_eq_ok run
  have both := L.trans (h x b first) (hn x b y c rest)
  rwa [List.append_nil] at both

/-- Changing what a step gives does not change what accounts for it. -/
theorem map {f : α → β} (h : L.Accounts step items a) : L.Accounts (f <$> step) items a := by
  rw [map_eq_pure_bind]
  exact h.bind_nothing fun x _ => pure (f x)

/-- Items account for what the items that they stand for account for. -/
theorem via {L : Ledger σ υ} {f : τ → List υ} (h : L.Accounts step (items.flatMap f) a) :
    (L.via f).Accounts step items a := h

end Accounts

/-- What needs no accounting for in one ledger needs none in the one `via` other items. -/
theorem Overlooks.via {L : Ledger σ υ} {f : τ → List υ} {step : Attempt ε σ α} {a : σ}
    (h : L.Overlooks step a) : (L.via f).Overlooks step a := h

/-! ### Walks -/

/-- What a processor does besides its instructions needs no accounting for. -/
structure Passes (p : Processor ε σ V O) : Prop where
  header : ∀ site a, L.Overlooks (liftM (p.header site) : Attempt ε σ O) a
  unitValue : ∀ a, L.Overlooks (liftM p.unitValue : Attempt ε σ V) a
  sequence : ∀ outputs a, L.Overlooks (liftM (p.sequence outputs) : Attempt ε σ O) a

variable {L : Ledger σ (Visit σ V)} {v : View} {p : Processor ε σ V O} {clazz : ClazzId}
  {inside : Inside ε σ V O} {a : σ}

/-- The visit of an instruction accounts for it, together with the visits inside of it, if the
visits of the blocks in it account for these. -/
def AccountsInstrs (L : Ledger σ (Visit σ V)) (v : View) (p : Processor ε σ V O)
    (inside : Inside ε σ V O) : Prop :=
  ∀ {nested : BlockWalk ε σ V O} {visits : BlockVisits σ V},
    (∀ clazz code a, L.Accounts (nested clazz code) (visits clazz code a) a) →
      ∀ visit : Visit σ V, L.Accounts (walkInstr v p nested visit.site visit.instr visit.stack)
        (visit :: inside nested visits visit) visit.before

/-- What is put out in the end needs no accounting for. -/
theorem overlooks_conclusion (hp : L.Passes p) (continues : Bool) (outputs : List O) :
    L.Overlooks (if continues = true then do
        let unit ← p.unitValue
        return ⟨some unit, ← p.sequence outputs⟩
      else do
        return ⟨none, ← p.sequence outputs⟩ : Attempt ε σ (Step V O)) a := by
  cases continues with
  | true =>
    exact (hp.unitValue _).bind_nothing fun _ _ =>
      (hp.sequence outputs _).bind_nothing fun _ _ => .pure _
  | false => exact (hp.sequence outputs _).bind_nothing fun _ _ => .pure _

/-- The induction on the remaining instructions of a block: their visits, each with what is visited
`within`, account for the rest of the walk. -/
theorem accounts_visitsOfInstrs (hp : L.Passes p) {nested : BlockWalk ε σ V O}
    {within : Visit σ V → List (Visit σ V)}
    (hi : ∀ visit : Visit σ V, L.Accounts
      (walkInstr v p nested visit.site visit.instr visit.stack) (visit :: within visit)
      visit.before)
    (code : CodeId) (remaining index : Nat) (stack : List V) (outputs : List O) :
    L.Accounts (walkInstrs v p nested clazz code remaining index stack outputs)
      (visitsOfInstrs v p nested within clazz code remaining index stack a) a := by
  induction remaining generalizing index stack outputs a with
  | zero => exact overlooks_conclusion hp true outputs
  | succ remaining ih =>
    unfold walkInstrs visitsOfInstrs
    cases v.instr? code index with
    | none => exact .throw _
    | some instr =>
      refine .after (hp.header _ a) fun header a₁ _ =>
        (hi ⟨⟨clazz, code, index⟩, instr, stack, a₁⟩).bind fun progress a₂ _ => ?_
      cases progress.stack with
      | none => exact (hp.sequence _ a₂).bind_nothing fun _ _ => .pure _
      | some stack => exact ih (index + 1) stack _

/-- The visits of the walk of a block, with those of the blocks nested in it, account for it. -/
theorem accounts_visitsOfNested (hp : L.Passes p) (hi : L.AccountsInstrs v p inside) (levels : Nat)
    (clazz : ClazzId) (code : CodeId) (a : σ) :
    L.Accounts (walkNested v p levels clazz code) (visitsOfNested v p inside levels clazz code a)
      a := by
  induction levels generalizing clazz code a with
  | zero => exact .throw _
  | succ levels ih => exact accounts_visitsOfInstrs hp (hi ih) code _ 0 [] []

/-- The visits of the walk of several blocks, one after the other, account for it. -/
theorem accounts_visitsOfContracts (hp : L.Passes p) (hi : L.AccountsInstrs v p inside)
    (codes : List CodeId) (outputs : List O) :
    L.Accounts (walkContracts v p clazz codes outputs)
      (visitsOfContracts v p inside clazz codes a) a := by
  induction codes generalizing outputs a with
  | nil => exact .pure _
  | cons code rest ih =>
    refine (accounts_visitsOfNested hp hi _ clazz code a).bind fun step a' _ => ?_
    cases step.value with
    | none => exact .pure _
    | some x => exact ih _

/-- The visits of the walk of a clazz, or of its preconditions, account for it. -/
theorem accounts_visitsOfClazz (hp : L.Passes p) (hi : L.AccountsInstrs v p inside)
    (clazz : ClazzId) (pre : Bool) :
    L.Accounts (walkClazz v p clazz pre) (visitsOfClazz v p inside clazz pre a) a := by
  unfold walkClazz visitsOfClazz
  dsimp only
  cases pre with
  | true =>
    rw [if_pos rfl, if_pos rfl]
    cases v.hasPrecondition clazz with
    | false => exact .throw_bind _ _
    | true =>
      exact (accounts_visitsOfContracts hp hi _ []).bind_nothing fun walked _ =>
        overlooks_conclusion hp walked.1 walked.2
  | false =>
    rw [if_neg Bool.false_ne_true, if_neg Bool.false_ne_true]
    cases (v.info clazz).code with
    | none => exact .throw_bind _ _
    | some code =>
      refine (accounts_visitsOfNested hp hi _ clazz code a).bind fun body a' _ => ?_
      cases body.value with
      | none => exact overlooks_conclusion hp false _
      | some x =>
        exact (accounts_visitsOfContracts hp hi _ _).bind_nothing fun walked _ =>
          overlooks_conclusion hp walked.1 walked.2

end Ledger

end ClosedWorld
