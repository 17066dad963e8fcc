import ClosedWorld.Proofs.Analysis.Dispatching

/-!
# Which branches are taken

A branch on a choice looks at its subject atom by atom, and so does a conditional. A join may merge
atoms before a branch sees them, two booleans into any boolean and two tagged values into one. But
any boolean selects what either boolean selects, and where the contents of a tag are joined, so is
what a case binds. So it does not matter to which cases are taken, and to what they bind, whether
the subject is joined first or each side is looked at alone.

## Main definitions

* `Match.selection`: what each case of a match binds, if it is taken.
* `walkSelected`: the walk of the cases that are taken.
* `Value.isSelectable`, `Value.boundUnder?`, `MatchCase.bindings`: the same atom by atom.

## Main statements

* `walkCases_eq`: a match first selects its cases, and then walks them.
* `MatchCase.distributive_bindings`: merged atoms bind what their parts bind.
* `Match.selection_join`, `takenBranches_join`: the branches that a joined subject takes.
* `branches_of_join`: all of it.
-/

namespace ClosedWorld

open Value

/-! ### Lists of steps that may fail -/

section lists

variable {ε α β : Type} {f : α → Except ε β}

/-- A function can be applied to all members of a list without a failure if this is so of each of
them. -/
theorem isOk_mapM {xs : List α} : (xs.mapM f).isOk = true ↔ ∀ x ∈ xs, (f x).isOk = true := by
  induction xs with
  | nil => simp [Except.isOk, Except.toBool, pure, Except.pure]
  | cons x xs ih =>
    rw [List.mapM_cons, List.forall_mem_cons, ← ih]
    cases f x with
    | error e => simp [bind, Except.bind, Except.isOk, Except.toBool]
    | ok y =>
      cases xs.mapM f <;> simp [bind, Except.bind, Except.isOk, Except.toBool, pure, Except.pure]

/-- If `f` gives `g x` for each member `x` of a list, it gives `xs.map g` for the list. -/
theorem mapM_eq_ok {xs : List α} {g : α → β} (h : ∀ x ∈ xs, f x = .ok (g x)) :
    xs.mapM f = .ok (xs.map g) := by
  induction xs with
  | nil => rfl
  | cons x xs ih =>
    rw [List.forall_mem_cons] at h
    rw [List.mapM_cons, h.1, ih h.2]
    rfl

end lists

/-! ### Atoms -/

namespace Value

variable {b : Bool} {tag : Nat} {a : Value}

/-- A match can have the atom as a subject; the flag says whether it is a match on a boolean. -/
def isSelectable (subjectIsBool : Bool) : Value → Bool
  | tagged .. | noValue | undefined => true
  | bool _ => subjectIsBool
  | _ => false

/-- What is bound in a case for one of its tags, if the atom selects the tag. -/
def boundUnder? (subjectIsBool : Bool) (tag : Nat) : Value → Option Value
  | tagged content _ tag' => if tag' = tag then some content else none
  | bool truth => if subjectIsBool && truth.admits tag then some (bool (.ofTag tag)) else none
  | _ => none

/-- What one tag selects of an atom, told without failures: the content or nothing, if the atom is
selectable. -/
theorem selectedBy_eq (b : Bool) (tag : Nat) (a : Value) :
    selectedBy b tag a =
      if a.isSelectable b then .ok (a.boundUnder? b tag)
      else .error (.unexpectedValue .tagged a) := by
  cases a <;> cases b <;> simp [selectedBy, isSelectable, boundUnder?]

/-- An absent atom is selectable: it selects nothing, but does not fail. -/
theorem isSelectable_of_isAbsent (absent : a.isAbsent) : a.isSelectable b = true := by
  obtain rfl | rfl := isAbsent_iff.1 absent <;> rfl

/-- A merged atom is selectable if both of its parts are, and only then. -/
theorem MergedFrom.isSelectable_iff {x y z : Value} (into : MergedFrom y z x) :
    x.isSelectable b = true ↔ y.isSelectable b = true ∧ z.isSelectable b = true := by
  cases into <;> simp [isSelectable]

end Value

/-! ### Cases -/

namespace MatchCase

variable {kinds : ClazzId → NumericKind} {case : MatchCase} {b : Bool} {a v w x y z : Value}

/-- What an atom is bound to in a case, for each tag that it selects. -/
def bindings (case : MatchCase) (subjectIsBool : Bool) (atom : Value) : List Value :=
  case.tags.filterMap fun tag => atom.boundUnder? subjectIsBool tag

/-- Looking at atoms tag by tag does not fail if all of them are selectable, and only then. -/
theorem isOk_boundByEach {sofar : Option Value} {pairs : List (Nat × Value)} :
    (boundByEach b sofar pairs).isOk = true ↔ ∀ p ∈ pairs, p.2.isSelectable b = true := by
  induction pairs generalizing sofar with
  | nil => simp [boundByEach, Except.isOk, Except.toBool, pure, Except.pure]
  | cons p rest ih =>
    unfold boundByEach
    rw [selectedBy_eq, List.forall_mem_cons]
    split
    · rename_i here
      simpa [bind, Except.bind, here] using ih
    · rename_i here
      simp [bind, Except.bind, here, Except.isOk, Except.toBool]

/-- If all atoms are selectable, what they are bound to is joined, one after the other. -/
theorem boundByEach_eq {sofar : Option Value} {pairs : List (Nat × Value)}
    (selectable : ∀ p ∈ pairs, p.2.isSelectable b = true) :
    boundByEach b sofar pairs =
      .ok (joinedAll sofar (pairs.filterMap fun p => p.2.boundUnder? b p.1)) := by
  induction pairs generalizing sofar with
  | nil => rfl
  | cons p rest ih =>
    rw [List.forall_mem_cons] at selectable
    unfold boundByEach
    rw [selectedBy_eq, if_pos selectable.1, Analyzer.joinedAll_filterMap_cons]
    exact ih selectable.2

/-- A case without tags is not taken, whatever the subject is. -/
theorem isOk_boundBy : (case.boundBy b v).isOk = true ↔
    case.tags = [] ∨ ∀ a ∈ v.atoms, a.isSelectable b = true := by
  unfold boundBy
  rw [isOk_boundByEach]
  constructor
  · intro each
    rw [or_iff_not_imp_left]
    intro some_tag a ha
    obtain ⟨tag, listed⟩ := List.exists_mem_of_ne_nil _ some_tag
    exact each (tag, a) (List.mem_flatMap.2 ⟨tag, listed, List.mem_map_of_mem ha⟩)
  · rintro (no_tag | selectable) p hp
    · simp [no_tag] at hp
    · obtain ⟨tag, -, hp⟩ := List.mem_flatMap.1 hp
      obtain ⟨a, ha, rfl⟩ := List.mem_map.1 hp
      exact selectable a ha

/-- What a case binds of a regular atom is regular. -/
theorem regular_bindings (ha : a.Regular kinds) : ∀ x ∈ case.bindings b a, x.Regular kinds := by
  intro x hx
  obtain ⟨tag, -, bound⟩ := List.mem_filterMap.1 hx
  cases a <;> simp only [boundUnder?, reduceCtorEq, Option.ite_none_right_eq_some,
    Option.some.injEq] at bound
  case bool => exact bound.2 ▸ ⟨trivial, trivial⟩
  case tagged => exact bound.2 ▸ ⟨ha.canonical, ha.coherent⟩

/-- A case that does not fail binds the join of what the atoms are bound to. -/
theorem boundBy_eq (hv : v.Regular kinds) (succeeds : (case.boundBy b v).isOk = true) :
    case.boundBy b v = .ok (joinedAll none (v.atoms.flatMap (case.bindings b))) := by
  unfold boundBy at succeeds ⊢
  rw [boundByEach_eq (isOk_boundByEach.1 succeeds)]
  congr 1
  have same : ∀ x, (x ∈ (case.tags.flatMap fun tag => v.atoms.map fun a => (tag, a)).filterMap
      fun p => p.2.boundUnder? b p.1) ↔ x ∈ v.atoms.flatMap (case.bindings b) := by
    intro x
    simp only [bindings, List.mem_filterMap, List.mem_flatMap, List.mem_map]
    constructor
    · rintro ⟨_, ⟨tag, listed, a, ha, rfl⟩, bound⟩
      exact ⟨a, ha, tag, listed, bound⟩
    · rintro ⟨a, ha, tag, listed, bound⟩
      exact ⟨_, ⟨tag, listed, a, ha, rfl⟩, bound⟩
  refine joinedAll_eq_of_mem_iff nofun (fun x hx => (?_ : x.Regular kinds)) same
  obtain ⟨a, ha, hx⟩ := List.mem_flatMap.1 ((same x).1 hx)
  exact regular_bindings (hv.of_mem_atoms ha) x hx

/-! ### Atoms that are merged -/

/-- An absent atom is bound nowhere. -/
theorem bindings_of_isAbsent (absent : a.isAbsent) : case.bindings b a = [] := by
  obtain rfl | rfl := isAbsent_iff.1 absent <;> simp [bindings, boundUnder?]

/-- Of a tagged atom a case binds the content, if it lists the tag, and nothing else. -/
theorem mem_bindings_tagged {content : Value} {choice : ClazzId} {tag : Nat} :
    x ∈ case.bindings b (.tagged content choice tag) ↔ tag ∈ case.tags ∧ x = content := by
  simp [bindings, boundUnder?, eq_comm]

/-- The case lists only the tags of booleans, if it is one of a match on a boolean. -/
def TagsFit (case : MatchCase) (subjectIsBool : Bool) : Prop :=
  subjectIsBool = true → ∀ tag ∈ case.tags, tag = 0 ∨ tag = 1

/-- Any boolean selects what either boolean selects. -/
theorem mem_bindings_any (fits : case.TagsFit b) {s t : Truth} (differ : s ≠ t) :
    x ∈ case.bindings b (.bool .any) ↔
      x ∈ case.bindings b (.bool s) ∨ x ∈ case.bindings b (.bool t) := by
  cases b with
  | false => simp [bindings, boundUnder?]
  | true =>
    simp only [bindings, boundUnder?, List.mem_filterMap, Bool.true_and,
      Option.ite_none_right_eq_some, Option.some.injEq, ← exists_or]
    refine exists_congr fun tag => ?_
    rw [← and_or_left]
    refine and_congr_right fun listed => ?_
    obtain rfl | rfl := fits rfl tag listed
    all_goals cases s <;> cases t <;> simp_all [Truth.admits]

/-- Merged atoms bind what their parts bind. -/
theorem distributive_bindings (fits : case.TagsFit b) :
    Distributive kinds (case.bindings b) where
  regular := regular_bindings
  noValue := by rw [bindings_of_isAbsent rfl, joinAll_nil]
  undefined _ _ := by
    rw [bindings_of_isAbsent rfl, joinAll_nil]
    exact noValue_below _
  merged {y z x} hy hz into := by
    cases into with
    | bool differ =>
      have regular : (bool .any).Regular kinds := ⟨trivial, trivial⟩
      refine joinAll_eq_of_mem_iff (regular_bindings regular) fun x => ?_
      rw [mem_bindings_any fits differ, List.mem_append]
    | number => simp [bindings, boundUnder?]
    | boxed => simp [bindings, boundUnder?]
    | @tagged s t choice tag differ =>
      have hs : s.Regular kinds := ⟨hy.canonical, hy.coherent⟩
      have ht : t.Regular kinds := ⟨hz.canonical, hz.coherent⟩
      have both : ∀ x ∈ [s, t], x.Regular kinds := by simp [hs, ht]
      have joined : (tagged (s.join t) choice tag).Regular kinds :=
        (joinClosed_regular kinds).tagged.2 (regular_join hs ht)
      by_cases listed : tag ∈ case.tags
      · calc joinAll (case.bindings b (.tagged (s.join t) choice tag))
            = joinAll [s.join t] := joinAll_eq_of_mem_iff (regular_bindings joined)
                (by simp [mem_bindings_tagged, listed])
          _ = joinAll [s, t] := by rw [joinAll_singleton, joinAll_pair]
          _ = joinAll (case.bindings b (.tagged s choice tag) ++
                case.bindings b (.tagged t choice tag)) :=
              joinAll_eq_of_mem_iff both (by simp [mem_bindings_tagged, listed])
      · simp only [List.eq_nil_iff_forall_not_mem.2 fun x hx => listed (mem_bindings_tagged.1 hx).1,
          List.append_nil]

/-- A merged atom takes a case if one of its parts does. -/
theorem exists_mem_bindings_iff (fits : case.TagsFit b) (into : MergedFrom y z x) :
    (∃ u, u ∈ case.bindings b x) ↔
      (∃ u, u ∈ case.bindings b y) ∨ ∃ u, u ∈ case.bindings b z := by
  cases into with
  | bool differ => simp only [mem_bindings_any fits differ, exists_or]
  | number => simp [bindings, boundUnder?]
  | boxed => simp [bindings, boundUnder?]
  | tagged => simp [mem_bindings_tagged]

/-- What a case binds for a join is what it binds for both sides, joined. -/
theorem joinedAll_bindings_join (fits : case.TagsFit b) (hv : v.Regular kinds)
    (hw : w.Regular kinds) :
    joinedAll none ((v.join w).atoms.flatMap (case.bindings b)) =
      Analyzer.joinResults (joinedAll none (v.atoms.flatMap (case.bindings b)))
        (joinedAll none (w.atoms.flatMap (case.bindings b))) := by
  have joined : joinAll _ = (joinAll _).join (joinAll _) :=
    (distributive_bindings fits).gather_join hv hw
  have taken : (∃ x ∈ (v.join w).atoms, ∃ u, u ∈ case.bindings b x) ↔
      (∃ x ∈ v.atoms, ∃ u, u ∈ case.bindings b x) ∨ ∃ x ∈ w.atoms, ∃ u, u ∈ case.bindings b x :=
    exists_mem_atoms_join
      (fun a absent => by simp [bindings_of_isAbsent absent])
      (exists_mem_bindings_iff fits) hv hw
  -- Whether anything is bound has to be told apart from what is bound, since the join of nothing is
  -- a value too.
  have empty_iff (u : Value) : u.atoms.flatMap (case.bindings b) = [] ↔
      ¬ ∃ x ∈ u.atoms, ∃ u, u ∈ case.bindings b x := by
    rw [List.flatMap_eq_nil_iff]
    simp [List.eq_nil_iff_forall_not_mem]
  rw [← not_iff_not, not_or, ← empty_iff, ← empty_iff, ← empty_iff] at taken
  by_cases left : v.atoms.flatMap (case.bindings b) = []
  · by_cases right : w.atoms.flatMap (case.bindings b) = []
    · rw [taken.2 ⟨left, right⟩, left, right]
      rfl
    · rw [joinedAll_none fun h => right (taken.1 h).2, joinedAll_none right, joined, left,
        joinAll_nil, noValue_join]
      rfl
  · rw [joinedAll_none fun h => left (taken.1 h).1, joinedAll_none left, joined]
    by_cases right : w.atoms.flatMap (case.bindings b) = []
    · rw [right, joinAll_nil, join_noValue]
      rfl
    · rw [joinedAll_none right]
      rfl

/-- A case fails for a join if it fails for one side. -/
theorem isOk_boundBy_join (hv : v.Regular kinds) (hw : w.Regular kinds) :
    (case.boundBy b (v.join w)).isOk = true ↔
      (case.boundBy b v).isOk = true ∧ (case.boundBy b w).isOk = true := by
  rw [isOk_boundBy, isOk_boundBy, isOk_boundBy,
    forall_mem_atoms_join (fun _ => isSelectable_of_isAbsent) MergedFrom.isSelectable_iff hv hw,
    or_and_left]

/-- A tagged value is bound, as it is, in the cases that list its tag. -/
theorem boundBy_tagged (x : Value) (choice : ClazzId) (tag : Nat) :
    case.boundBy b (.tagged x choice tag) = .ok (if tag ∈ case.tags then some x else none) := by
  have pairs : (case.tags.flatMap fun t => (Value.tagged x choice tag).atoms.map fun a => (t, a)) =
      case.tags.map fun t => (t, .tagged x choice tag) := List.map_eq_flatMap.symm
  have bound : (case.tags.map fun t => (t, Value.tagged x choice tag)).filterMap
      (fun p => p.2.boundUnder? b p.1) = case.bindings b (.tagged x choice tag) :=
    List.filterMap_map
  unfold boundBy
  rw [pairs, boundByEach_eq fun p hp => by obtain ⟨t, -, rfl⟩ := List.mem_map.1 hp; rfl, bound]
  congr 1
  split
  · rename_i listed
    exact joinedAll_of_forall_eq (join_self x)
      (List.ne_nil_of_mem (mem_bindings_tagged.2 ⟨listed, rfl⟩))
      fun u hu => (mem_bindings_tagged.1 hu).2
  · rename_i other
    rw [List.eq_nil_iff_forall_not_mem.2 fun u hu => other (mem_bindings_tagged.1 hu).1]
    rfl

/-- If a case is taken, then no case of the match fails. -/
theorem isOk_of_boundBy_eq_some (taken : case.boundBy b v = .ok (some x)) (other : MatchCase) :
    (other.boundBy b v).isOk = true := by
  refine isOk_boundBy.2 (.inr ?_)
  rcases isOk_boundBy.1 (show (case.boundBy b v).isOk = true by rw [taken]; rfl) with
    no_tag | selectable
  · unfold boundBy at taken
    rw [no_tag] at taken
    cases taken
  · exact selectable

end MatchCase

/-! ### Matches -/

/-- What each case of the match binds, if the subject takes it. -/
def Match.selection (view : View) (m : Match) (subject : Value) :
    Except Fault (List (Option Value)) :=
  m.cases.mapM fun case => case.boundBy (view.isBool m.subject) subject

/-- Walks the cases that are taken, in order, each with what it binds. Yields whether control
continues after one of them. -/
def walkSelected (walk : CodeWalk) (frame : InstanceId) :
    List (MatchCase × Option Value) → Analyzing Bool
  | [] => return false
  | (case, taken) :: rest => do
    let continues ←
      match taken with
      | none => pure false
      | some bound => do
        if let some field := case.field then
          onStore (Store.setField field bound (.object frame))
        pure (← walk case.code).value.isSome
    let laterContinues ← walkSelected walk frame rest
    return continues || laterContinues

/-- All cases are selected before the first one is walked: where selecting a case fails, no case
before it was taken. -/
theorem walkCases_eq (walk : CodeWalk) (frame : InstanceId) (b : Bool) (subject : Value)
    (cases : List MatchCase) :
    walkCases walk frame b subject cases = (do
      let taken ← (liftM (cases.mapM fun case => case.boundBy b subject) : Analyzing _)
      walkSelected walk frame (cases.zip taken)) := by
  induction cases with
  | nil => rfl
  | cons case rest ih =>
    unfold walkCases
    rw [List.mapM_cons, ih]
    cases bound : case.boundBy b subject with
    | error e => rfl
    | ok taken =>
      cases later : rest.mapM fun case => case.boundBy b subject with
      | ok bounds => rfl
      | error e =>
        cases taken with
        | none => rfl
        | some x =>
          have fine := isOk_mapM.2 fun other (_ : other ∈ rest) =>
            MatchCase.isOk_of_boundBy_eq_some bound other
          rw [later] at fine
          cases fine

namespace Match

variable {kinds : ClazzId → NumericKind} {view : View} {m : Match} {v w : Value}

/-- A selection that does not fail gives, for each case, the join of what the atoms are bound to. -/
theorem selection_eq (hv : v.Regular kinds) (succeeds : (m.selection view v).isOk = true) :
    m.selection view v = .ok (m.cases.map fun case =>
      joinedAll none (v.atoms.flatMap (case.bindings (view.isBool m.subject)))) :=
  mapM_eq_ok fun case listed => MatchCase.boundBy_eq hv (isOk_mapM.1 succeeds case listed)

/-- Selection distributes over joins. -/
theorem selection_join (fits : ∀ case ∈ m.cases, case.TagsFit (view.isBool m.subject))
    (hv : v.Regular kinds) (hw : w.Regular kinds) :
    ((m.selection view (v.join w)).isOk = true ↔
        (m.selection view v).isOk = true ∧ (m.selection view w).isOk = true) ∧
      ∀ taken taken', m.selection view v = .ok taken → m.selection view w = .ok taken' →
        m.selection view (v.join w) = .ok (List.zipWith Analyzer.joinResults taken taken') := by
  have succeeds : (m.selection view (v.join w)).isOk = true ↔
      (m.selection view v).isOk = true ∧ (m.selection view w).isOk = true := by
    unfold selection
    simp only [isOk_mapM, MatchCase.isOk_boundBy_join hv hw, imp_and, forall_and]
  refine ⟨succeeds, fun taken taken' ht ht' => ?_⟩
  have left : (m.selection view v).isOk = true := by rw [ht]; rfl
  have right : (m.selection view w).isOk = true := by rw [ht']; rfl
  rw [selection_eq hv left, Except.ok.injEq] at ht
  rw [selection_eq hw right, Except.ok.injEq] at ht'
  rw [selection_eq (regular_join hv hw) (succeeds.2 ⟨left, right⟩), ← ht, ← ht', List.zipWith_map,
    List.zipWith_self]
  congr 1
  exact List.map_congr_left fun case listed =>
    MatchCase.joinedAll_bindings_join (fits case listed) hv hw

end Match

/-! ### Conditionals -/

section conditionals

variable {kinds : ClazzId → NumericKind} {v w a x y z : Value} {tag : Nat}

/-- The value is a boolean. -/
def Value.isTruth : Value → Bool
  | .bool _ => true
  | _ => false

/-- The value is a boolean that admits the tag. -/
def Value.admits (tag : Nat) : Value → Bool
  | .bool truth => truth.admits tag
  | _ => false

/-- Some atom admits the tag. -/
def Value.takes (v : Value) (tag : Nat) : Bool := v.atoms.any (Value.admits tag)

/-- The atoms that pass for a boolean are the booleans. -/
theorem isTruth_iff : a.isTruth = true ↔ ∃ truth, a = .bool truth := by
  cases a <;> simp [isTruth]

/-- Any other atom is an unexpected value where a boolean is asked for. -/
theorem asBool_of_not_isTruth (h : ¬ a.isTruth = true) :
    a.asBool = .error (.unexpectedValue .bool a) := by
  cases a <;> first | rfl | exact absurd rfl h

/-- Looking for the admitted branches does not fail if all atoms are booleans, and only then. -/
theorem isOk_admittedBranches {thenTaken elseTaken : Bool} {atoms : List Value} :
    (admittedBranches thenTaken elseTaken atoms).isOk = true ↔ ∀ a ∈ atoms, a.isTruth = true := by
  induction atoms generalizing thenTaken elseTaken with
  | nil => simp [admittedBranches, Except.isOk, Except.toBool, pure, Except.pure]
  | cons a rest ih =>
    unfold admittedBranches
    rw [List.forall_mem_cons]
    by_cases h : a.isTruth = true
    · obtain ⟨truth, rfl⟩ := isTruth_iff.1 h
      simpa [asBool, bind, Except.bind, h] using ih
    · simp [asBool_of_not_isTruth h, bind, Except.bind, Except.isOk, Except.toBool, h]

/-- If all atoms are booleans, a branch is admitted if it was so before or some atom admits it. -/
theorem admittedBranches_eq {thenTaken elseTaken : Bool} {atoms : List Value}
    (truths : ∀ a ∈ atoms, a.isTruth = true) :
    admittedBranches thenTaken elseTaken atoms =
      .ok (thenTaken || atoms.any (Value.admits 1), elseTaken || atoms.any (Value.admits 0)) := by
  induction atoms generalizing thenTaken elseTaken with
  | nil => simp [admittedBranches, pure, Except.pure]
  | cons a rest ih =>
    rw [List.forall_mem_cons] at truths
    obtain ⟨truth, rfl⟩ := isTruth_iff.1 truths.1
    unfold admittedBranches
    simp only [asBool, bind, Except.bind, ih truths.2, List.any_cons, Value.admits, Bool.or_assoc]

/-- Absent atoms take no branch. -/
theorem any_present (v : Value) (tag : Nat) :
    (Handler.present v).any (Value.admits tag) = v.takes tag := by
  unfold Handler.present takes
  rw [List.any_filter]
  congr 1
  funext a
  cases a <;> simp [isAbsent, Value.admits]

/-- A join takes a branch of a conditional if one of its sides does. -/
theorem takes_join (booleans : tag = 0 ∨ tag = 1) (hv : v.Regular kinds) (hw : w.Regular kinds) :
    (v.join w).takes tag = (v.takes tag || w.takes tag) := by
  rw [Bool.eq_iff_iff, Bool.or_eq_true]
  unfold takes
  simp only [List.any_eq_true]
  refine exists_mem_atoms_join (fun a absent => ?_) (fun into => ?_) hv hw
  · obtain rfl | rfl := isAbsent_iff.1 absent <;> simp [Value.admits]
  · cases into with
    | @bool s t differ =>
      rcases booleans with rfl | rfl <;> cases s <;> cases t <;>
        simp_all [Value.admits, Truth.admits]
    | _ => simp [Value.admits]

/-- Absent atoms are passed over when admitted branches are looked for, and all others have to be
booleans. -/
theorem isOk_admittedBranches_present {thenTaken elseTaken : Bool} :
    (admittedBranches thenTaken elseTaken (Handler.present v)).isOk = true ↔
      ∀ a ∈ v.atoms, a.isAbsent = true ∨ a.isTruth = true := by
  rw [isOk_admittedBranches]
  unfold Handler.present
  simp only [List.mem_filter, Bool.not_eq_true', and_imp, ← Bool.not_eq_true, or_iff_not_imp_left]

/-- Taking branches fails where looking for the admitted ones does, and only there. -/
theorem isOk_takenBranches {thenCode elseCode : CodeId} :
    (takenBranches v thenCode elseCode).isOk = true ↔
      (admittedBranches false false (Handler.present v)).isOk = true := by
  unfold takenBranches
  cases admittedBranches false false (Handler.present v) <;> exact Iff.rfl

/-- A conditional takes those branches of a join that it takes of one side. -/
theorem takenBranches_join (hv : v.Regular kinds) (hw : w.Regular kinds)
    (thenCode elseCode : CodeId) :
    ((takenBranches (v.join w) thenCode elseCode).isOk = true ↔
        (takenBranches v thenCode elseCode).isOk = true ∧
          (takenBranches w thenCode elseCode).isOk = true) ∧
      ∀ t e t' e', admittedBranches false false (Handler.present v) = .ok (t, e) →
        admittedBranches false false (Handler.present w) = .ok (t', e') →
        takenBranches (v.join w) thenCode elseCode =
          .ok ((if t || t' then [thenCode] else []) ++ if e || e' then [elseCode] else []) := by
  have succeeds : (admittedBranches false false (Handler.present (v.join w))).isOk = true ↔
      (admittedBranches false false (Handler.present v)).isOk = true ∧
        (admittedBranches false false (Handler.present w)).isOk = true := by
    simp only [isOk_admittedBranches_present]
    refine forall_mem_atoms_join (fun a absent => .inl absent) (fun into => ?_) hv hw
    cases into <;> simp [isAbsent, isTruth]
  simp only [isOk_takenBranches]
  refine ⟨succeeds, fun t e t' e' ht ht' => ?_⟩
  have left : (admittedBranches false false (Handler.present v)).isOk = true := by rw [ht]; rfl
  have right : (admittedBranches false false (Handler.present w)).isOk = true := by rw [ht']; rfl
  have joined := succeeds.2 ⟨left, right⟩
  rw [admittedBranches_eq (isOk_admittedBranches.1 left)] at ht
  rw [admittedBranches_eq (isOk_admittedBranches.1 right)] at ht'
  cases ht
  cases ht'
  unfold takenBranches
  rw [admittedBranches_eq (isOk_admittedBranches.1 joined)]
  simp only [any_present, Bool.false_or, takes_join (.inl rfl) hv hw, takes_join (.inr rfl) hv hw]
  rfl

end conditionals

/-! ### All of it -/

/-- Which branches are taken distributes over joins. A match whose subject is a join fails if it
fails for one side. Otherwise a case is taken if it is taken for one side, and it binds the join of
what is bound for the sides that take it. The cases of a match on a boolean have to list tags of
booleans only: any other tag is admitted by any boolean, but neither by true nor by false. The same
holds for the branches of a conditional. And what is tagged for a choice other than the booleans
takes the cases that list the tag, and is bound as it was. -/
theorem branches_of_join (kinds : ClazzId → NumericKind) (z : Analyzer) (act : Activation)
    {v w : Value} (hv : v.Canonical) (hw : w.Canonical) (kv : v.Coherent kinds)
    (kw : w.Coherent kinds) :
    (∀ m : Match, (z.view.isBool m.subject = true → ∀ case ∈ m.cases, ∀ tag ∈ case.tags,
        tag = 0 ∨ tag = 1) →
      ((m.selection z.view (v.join w)).isOk = true ↔
          (m.selection z.view v).isOk = true ∧ (m.selection z.view w).isOk = true) ∧
        ∀ taken taken', m.selection z.view v = .ok taken → m.selection z.view w = .ok taken' →
          m.selection z.view (v.join w) = .ok (List.zipWith Analyzer.joinResults taken taken')) ∧
    (∀ walk site (m : Match) subject, (z.processor act).select walk site m subject = (do
      let taken ← (liftM (m.selection z.view subject) : Analyzing _)
      return answerIf (← walkSelected (walk site.clazz) act.frame (m.cases.zip taken)))) ∧
    (∀ thenCode elseCode,
      ((takenBranches (v.join w) thenCode elseCode).isOk = true ↔
          (takenBranches v thenCode elseCode).isOk = true ∧
            (takenBranches w thenCode elseCode).isOk = true) ∧
        ∀ t e t' e', admittedBranches false false (Handler.present v) = .ok (t, e) →
          admittedBranches false false (Handler.present w) = .ok (t', e') →
          takenBranches (v.join w) thenCode elseCode =
            .ok ((if t || t' then [thenCode] else []) ++ if e || e' then [elseCode] else [])) ∧
    ∀ clazz x valueClazz choice tag (m : Match), z.view.isBool choice = false →
      (z.processor act).tag clazz x valueClazz choice tag =
          (do return answer (some (.tagged x choice tag))) ∧
        m.selection z.view (.tagged x choice tag) =
          .ok (m.cases.map fun case => if tag ∈ case.tags then some x else none) := by
  have rv : v.Regular kinds := ⟨hv, kv⟩
  have rw' : w.Regular kinds := ⟨hw, kw⟩
  refine ⟨fun m fits => ?_, fun walk site m subject => ?_, takenBranches_join rv rw', ?_⟩
  · exact Match.selection_join (fun case listed bools => fits bools case listed) rv rw'
  · show (do return answerIf (← walkCases _ _ _ _ _)) = _
    rw [walkCases_eq, bind_assoc]
    rfl
  · intro clazz x valueClazz choice tag m notBool
    refine ⟨?_, mapM_eq_ok fun case _ => MatchCase.boundBy_tagged x choice tag⟩
    show (return answer (some (if z.view.isBool choice then _ else _))) = _
    rw [notBool]
    rfl

/-- One case is taken for one side only; in the other one a boolean is bound, and two numbers are
joined that come with one tag. -/
theorem branches_of_join_boolean :
    let program : Program := {
      clazzes := [("bool", { kind := .choice, special := some .bool, needsCode := false }),
        ("i32", { kind := .routine, special := some (.numeric .i32), needsCode := false }),
        ("main", { kind := .routine, code := some ⟨0⟩ })]
      blocks := [[], []]
      main := ⟨2⟩
      constString := none }
    let z : Analyzer := { view := program.view }
    let m : Match := ⟨⟨0⟩, [⟨[1], none, ⟨0⟩⟩, ⟨[0], none, ⟨1⟩⟩]⟩
    let v : Value := .set [.bool .true, .tagged (.number ⟨⟨1⟩, .i32, some 1⟩) ⟨0⟩ 0]
    let w : Value := .tagged (.number ⟨⟨1⟩, .i32, some 2⟩) ⟨0⟩ 0
    let w' : Value := (Value.bool .false).join w
    ((v.Canonical ∧ w'.Canonical ∧ v.Coherent (fun _ => .i32) ∧ w'.Coherent fun _ => .i32) ∧
        z.view.isBool m.subject = true ∧
        ∀ case ∈ m.cases, ∀ tag ∈ case.tags, tag = 0 ∨ tag = 1) ∧
      m.selection z.view (v.join w') = .ok [some (.bool .true),
        some (.set [.bool .false, .number (.any ⟨1⟩ .i32)])] := by
  intro program z m v w w'
  have hv : v.Canonical := by decide
  have hw : w'.Canonical := by decide
  have kv : v.Coherent fun _ => .i32 := ⟨trivial, rfl, trivial⟩
  have kw : w'.Coherent fun _ => .i32 := ⟨trivial, rfl, trivial⟩
  have fits : ∀ case ∈ m.cases, ∀ tag ∈ case.tags, tag = 0 ∨ tag = 1 := by decide
  refine ⟨⟨⟨hv, hw, kv, kw⟩, rfl, fits⟩, ?_⟩
  have act : Activation := ⟨⟨0⟩, ⟨⟨2⟩, false, .unit, [], none⟩, ⟨0⟩⟩
  have joined := (branches_of_join (fun _ => .i32) z act hv hw kv kw).1 m fun _ => fits
  exact joined.2 [some (.bool .true), some (.number ⟨⟨1⟩, .i32, some 1⟩)]
    [none, some (.set [.bool .false, .number ⟨⟨1⟩, .i32, some 2⟩])] (by decide +kernel)
    (by decide +kernel)

end ClosedWorld
