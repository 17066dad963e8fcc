import ClosedWorld.Proofs.Analysis.Invariants
import ClosedWorld.Proofs.Analysis.Meanings

/-!
# Bodies are entered behind their preconditions

A call instruction calls the precondition of the accessed clazz first, and goes on only if that can
return. The precondition is called with what the body is called with, keys never change, and a mark
stays, so the table tells of every body that is called why it may be. What a dynamic call selects,
what calling a function means and what the program starts with is called without such a check.

## Main definitions

* `Program.isEnteredUnchecked`: the clazzes that are called without such a check.
* `Analyzer.EntersChecked`: every call but the first one may be made.

## Main statements

* `Analyzer.maintains_entersChecked`: every elementary step maintains this.
* `Analyzer.returns_precondition_of_reaches`: the precondition of a body that is called can return.
-/

namespace ClosedWorld

/-! ### Clazzes that are called without a check -/

namespace Program

/-- The body of the clazz may be called without a check of its precondition: the program starts with
it, a dynamic call selects it, or calling a function means to call it. -/
def isEnteredUnchecked (p : Program) (c : ClazzId) : Bool :=
  c = p.main ||
    p.hasInstr (fun
      | .call access => access.dynamic && access.targets.any fun t => t.2 = c
      | _ => false) ||
    p.clazzes.any fun e => e.2.call = some c

variable {p : Program} {c : ClazzId}

/-- A clazz that a dynamic access of some instruction may select for a type is entered unchecked. -/
theorem isEnteredUnchecked_of_selected {access : Access} (calls : p.view.Calls access)
    (dynamic : access.dynamic = true) {type : ClazzId} (target : (type, c) ∈ access.targets) :
    p.isEnteredUnchecked c = true := by
  obtain ⟨code, index, found⟩ := calls
  have selects : p.hasInstr (fun
      | .call access => access.dynamic && access.targets.any fun t => t.2 = c
      | _ => false) = true := by
    refine hasInstr_of_instr? found ?_
    simp only [dynamic, Bool.true_and, List.any_eq_true, decide_eq_true_eq]
    exact ⟨(type, c), target, rfl⟩
  simp [isEnteredUnchecked, selects]

/-- The routine that calling a function means is entered unchecked. -/
theorem isEnteredUnchecked_of_function {fn : ClazzId} (routine : (p.info fn).call = some c) :
    p.isEnteredUnchecked c = true := by
  have known : p.entry fn ∈ p.clazzes := entry_mem_of_ne fun unknown => by
    unfold info at routine
    rw [unknown] at routine
    cases routine
  have means : p.clazzes.any (fun e => e.2.call = some c) = true :=
    List.any_eq_true.2 ⟨p.entry fn, known, decide_eq_true routine⟩
  simp [isEnteredUnchecked, means]

end Program

namespace Store

variable {view : View} {s t : Store} {key : CallKey}

/-- The calls that allow a call stay, and stay marked. -/
theorem MayEnter.mono (calls : s.calls.Extends CallState.Below t.calls)
    (h : s.MayEnter view key) : t.MayEnter view key := by
  cases h with
  | precondition pre => exact .precondition pre
  | unguarded free => exact .unguarded free
  | checked called returns =>
    obtain ⟨state, called', below⟩ := calls _ _ _ called
    exact .checked called' (below.returns returns)
  | selected calls dynamic target => exact .selected calls dynamic target
  | function routine => exact .function routine

end Store

namespace Analyzer

variable {z : Analyzer}

variable (z) in
/-- Every call is the one to start with or may be made as far as preconditions go. -/
def EntersChecked (a : Analysis) : Prop :=
  ∀ id key, a.store.calls.key? id = some key →
    key = z.mainKey ∨ a.store.MayEnter z.view key

/-- A call is only discovered where it may be made. -/
theorem mayEnter_of_discovers {s : Store} {key : CallKey} {origin : CallId}
    (discovers : (StoreDiscipline.evolving z.view).Discovers z.view s origin key) :
    s.MayEnter z.view key := by
  cases discovers with
  | access _ _ ready => exact ready
  | install _ _ _ _ _ routine => exact .function routine

/-- Every elementary step maintains `EntersChecked`: a call is only made where it may be made, and
what allows it stays. -/
theorem maintains_entersChecked : z.Maintains z.EntersChecked where
  start := by rintro _ _ ⟨⟩
  continues {a a'} checked h id key known := by
    obtain ⟨state', entry⟩ := Interned.exists_get?_of_key? known
    obtain ⟨state, entry, -⟩ := h.exists_get? entry
    exact (checked id key (Interned.key?_of_get? entry)).imp_right (.mono h.calls)
  seeds {a} checked unknown := by
    obtain ⟨main, known, -⟩ | ⟨-, seeded⟩ := z.seed_cases a
    · cases unknown.symm.trans known
    · rw [seeded]
      intro id key known
      rcases a.store.key?_of_internCall known with known | rfl
      · exact (checked id key known).imp_right
          (.mono (a.store.extendsCalls_internCall z.mainKey none none))
      · exact .inl rfl
  discovers {a key origin} context checked discovers := by
    have grows := a.store.extendsCalls_internCall key context (some origin)
    intro id' key' known
    rcases a.store.key?_of_internCall known with known | rfl
    · exact (checked id' key' known).imp_right (.mono grows)
    · exact .inr ((mayEnter_of_discovers discovers).mono grows)

/-- No body is called before its precondition can return. Wherever an analysis is, if a clazz has a
precondition and is not one that is called without a check, then for every call of its body there is
the call of its precondition with the same target, arguments and environment, and it is marked as
returning. -/
theorem returns_precondition_of_reaches (hz : z.intrinsics = .standard) {a : Analysis}
    (reached : z.Reaches a) {id : CallId} {key : CallKey}
    (known : a.store.calls.key? id = some key) (body : key.pre = false)
    (guarded : z.view.hasPrecondition key.clazz = true)
    (checked : z.view.isEnteredUnchecked key.clazz = false) :
    ∃ pre state, a.store.calls.get? pre = some ({ key with pre := true }, state) ∧
      state.returns = true := by
  have lacks {c : ClazzId} (same : key.clazz = c) (unchecked : z.view.isEnteredUnchecked c = true) :
      False := by
    rw [← same, checked] at unchecked
    cases unchecked
  obtain ⟨-, enters⟩ := maintains_entersChecked.of_reaches hz reached
  rcases enters id key known with rfl | enters
  · exact (lacks rfl (by simp [Program.isEnteredUnchecked, mainKey])).elim
  · cases enters with
    | precondition pre => cases body.symm.trans pre
    | unguarded free => cases guarded.symm.trans free
    | checked called returns => exact ⟨_, _, called, returns⟩
    | selected calls dynamic target =>
      exact (lacks rfl (Program.isEnteredUnchecked_of_selected calls dynamic target)).elim
    | function routine => exact (lacks rfl (Program.isEnteredUnchecked_of_function routine)).elim

/-- An analysis of a program with a routine whose precondition holds. -/
def guarding : Analyzer where
  view := Program.view
    { clazzes :=
        [ ("main", { kind := .routine, code := some ⟨0⟩ })
        , ("bool", { kind := .choice, special := some .bool, needsCode := false })
        , ("checked", { kind := .routine, code := some ⟨1⟩, preconditions := [⟨2⟩] }) ]
      blocks := [[.current, .call (.fixed ⟨2⟩)], [], [.const ⟨1⟩ [1], .contract .pre]]
      main := ⟨0⟩
      constString := none }

/-- The precondition is the second call there, and the body, which is found by the next sweep, is
the third. -/
theorem returns_precondition_of_reaches_guarding :
    ∃ final, guarding.run 12 {} = some (.ok final) ∧
      final.store.calls.key? ⟨2⟩ = some ⟨⟨2⟩, false, .object ⟨0⟩, [], none⟩ ∧
      ∃ pre state, final.store.calls.get? pre = some (⟨⟨2⟩, true, .object ⟨0⟩, [], none⟩, state) ∧
        state.returns = true := by
  have table : guarding.intrinsics = .standard := by simp only [guarding]
  obtain ⟨final, run, known⟩ : ∃ final, guarding.run 12 {} = some (.ok final) ∧
      final.store.calls.key? ⟨2⟩ = some ⟨⟨2⟩, false, .object ⟨0⟩, [], none⟩ := by
    rw [← (agrees_own table (by decide +kernel)).run]
    exact exists_run (by decide +kernel)
  exact ⟨final, run, known, returns_precondition_of_reaches table (reaches_run run) known rfl
    (by decide +kernel) (by decide +kernel)⟩

end Analyzer

end ClosedWorld
