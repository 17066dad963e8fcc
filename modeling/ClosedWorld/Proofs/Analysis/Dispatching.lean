import ClosedWorld.Proofs.Analysis.Assignments
import ClosedWorld.Proofs.Analysis.Devirtualization

/-!
# Dynamic accesses

A dynamic access pairs each of its targets with each atom of the value that is accessed, and makes
an access of one clazz for each pair whose atom goes to the target. Where none of these would fail
or change the store, they do not get in each other's way: each of them yields what it would yield
alone, and the dynamic access yields the join of that. So the order of the targets does not matter.

## Main definitions

* `Analyzer.Rests`: the access of one clazz that a pair stands for changes nothing.
* `Analyzer.yield?`: what it yields.
* `Analyzer.Tells`: what is noted of it.

## Main statements

* `Analyzer.regular_of_accessOne`: what an access yields that changes nothing.
* `Analyzer.accessEach_of_rests`: one pair after the other.
* `Analyzer.access_of_dynamic`: a dynamic access is the join of the accesses that it makes.
-/

namespace ClosedWorld

namespace Analyzer

variable {z : Analyzer} {act : Activation} {site : Site} {mode : AccessMode} {a a' b : Analysis}
  {target : Value} {clazz : ClazzId} {args : List Value} {r : Option Value}

/-! ### What a dynamic access makes of its pairs -/

variable (z act site mode a) in
/-- The access of one clazz that a pair stands for, if its atom goes to its target, neither fails nor
changes the store. If the clazz needs code, a static access of it is the same (`access_of_static`).
-/
def Rests (p : (ClazzId × ClazzId) × Value) : Prop :=
  a.store.receiverClazz? p.2 = some p.1.1 →
    ∃ r b, (z.accessOne act site p.2 mode p.1.2).outcome a = (.ok r, b) ∧ b.store = a.store

/-- Whether a pair `Rests` can be read off the outcome of its access. -/
theorem rests_iff {p : (ClazzId × ClazzId) × Value} :
    z.Rests act site mode a p ↔ (a.store.receiverClazz? p.2 = some p.1.1 →
      ((z.accessOne act site p.2 mode p.1.2).outcome a).1.isOk = true ∧
        ((z.accessOne act site p.2 mode p.1.2).outcome a).2.store = a.store) := by
  unfold Rests
  generalize (z.accessOne act site p.2 mode p.1.2).outcome a = outcome
  obtain ⟨result, b⟩ := outcome
  cases result <;> simp [Except.isOk, Except.toBool]

instance (p : (ClazzId × ClazzId) × Value) : Decidable (z.Rests act site mode a p) :=
  decidable_of_iff _ rests_iff.symm

variable (z act site mode a) in
/-- What the access of one clazz yields that a pair stands for, if its atom goes to its target. -/
def yield? (p : (ClazzId × ClazzId) × Value) : Option Value :=
  if a.store.receiverClazz? p.2 = some p.1.1 then
    ((z.accessOne act site p.2 mode p.1.2).outcome a).1.toOption.join
  else none

variable (z act site mode) in
/-- The state tells of an access of one clazz: the clazz is resolved at the site, and if it is a
routine or an intrinsic that is called and needs code, then its call is known, with an edge to it
from the call that is walked. -/
structure Tells (p : (ClazzId × ClazzId) × Value) (b : Analysis) : Prop where
  resolved : p.1.2 ∈ b.resolved site
  called : ∀ args, mode = .call args →
    (z.view.info p.1.2).kind = .routine ∨ (z.view.info p.1.2).kind = .intrinsic →
    (z.view.info p.1.2).needsCode = true →
    ∃ id, b.store.calls.key? id =
        some { clazz := p.1.2, pre := false, target := p.2, args, env := act.key.env } ∧
      ⟨act.call, id⟩ ∈ b.edges

/-- What is told of a pair is still told when more has been noted and the store is the same. -/
theorem Tells.mono {p : (ClazzId × ClazzId) × Value} (tells : z.Tells act site mode p b)
    (same : a'.store = b.store) (noted : b.Noted a') : z.Tells act site mode p a' where
  resolved := noted.resolved site tells.resolved
  called args calls kind code := by
    obtain ⟨id, known, edge⟩ := tells.called args calls kind code
    rw [same]
    exact ⟨id, known, noted.edges edge⟩

/-- A pair yields a value just if its atom goes to its target and the access yields the value. -/
theorem yield?_eq_some_iff {p : (ClazzId × ClazzId) × Value} {v : Value} :
    z.yield? act site mode a p = some v ↔ a.store.receiverClazz? p.2 = some p.1.1 ∧
      ((z.accessOne act site p.2 mode p.1.2).outcome a).1 = .ok (some v) := by
  unfold yield?
  split
  · rename_i receiver
    cases ((z.accessOne act site p.2 mode p.1.2).outcome a).1 <;> simp [Except.toOption, receiver]
  · rename_i other
    simp [other]

/-- One step of accessing one clazz after the other: the pair is recorded and its access made, or it
is skipped. -/
theorem outcome_accessEach_cons {type : ClazzId} {atom : Value} {received : Bool}
    (told : receives b.store type atom = .ok received) (rest : List ((ClazzId × ClazzId) × Value))
    (found : Bool) (sofar : Option Value) :
    (z.accessEach act site mode (((type, clazz), atom) :: rest) found sofar).outcome b =
      (if received then do
          recordDispatch site clazz
          let result ← z.accessOne act site atom mode clazz
          z.accessEach act site mode rest true (joinResults sofar result)
        else z.accessEach act site mode rest found sofar).outcome b := by
  have current : currentStore.outcome b = (.ok b.store, b) := rfl
  have looked : (liftM (receives b.store type atom) : Analyzing Bool).outcome b =
      (.ok received, b) := by rw [told]; rfl
  rw [accessEach, Attempt.outcome_bind_of_ok current]
  exact Attempt.outcome_bind_of_ok looked

/-- Joining a result to what there is so far is joining all values of a list with one member at
most. -/
theorem joinResults_eq_joinedAll (sofar result : Option Value) :
    joinResults sofar result = Value.joinedAll sofar result.toList := by
  cases sofar <;> cases result <;> rfl

/-- What the first of several pairs yields is joined to what there is so far. -/
theorem joinedAll_filterMap_cons {α : Type} (sofar : Option Value) (p : α) (rest : List α)
    (f : α → Option Value) :
    Value.joinedAll sofar ((p :: rest).filterMap f) =
      Value.joinedAll (joinResults sofar (f p)) (rest.filterMap f) := by
  rw [joinResults_eq_joinedAll, ← Value.joinedAll_append]
  cases answer : f p <;> simp [answer]

/-! ### Accesses that change nothing -/

variable (hz : z.intrinsics = .standard)

include hz

/-- What a routine or an intrinsic yields that needs code is what its call produces, and the call is
known from then on, with an edge to it. -/
theorem call_of_enter (kind : (z.view.info clazz).kind = .routine ∨
      (z.view.info clazz).kind = .intrinsic) (code : (z.view.info clazz).needsCode = true)
    (run : (z.enter act target args clazz false).outcome a = (.ok r, a')) :
    ∃ id b answer,
      (z.newCall { clazz, pre := false, target, args, env := act.key.env } act.call).outcome a =
        (.ok id, b) ∧
      (z.callResult id).outcome b = (.ok answer, a') ∧ r = answer.filter (· ≠ .noValue) ∧
      a'.store.calls.key? id = some { clazz, pre := false, target, args, env := act.key.env } ∧
      ⟨act.call, id⟩ ∈ a'.edges := by
  unfold enter at run
  rw [code] at run
  obtain ⟨id, b, made, run⟩ := Attempt.outcome_bind_eq_ok run
  obtain ⟨answer, _, answered, run⟩ := Attempt.outcome_bind_eq_ok run
  cases run
  have called := Setting.key?_of_newCall made
  -- the arguments need not be regular, so the discipline here asks nothing of values
  let D := AnalysisDiscipline.ofStore (StoreDiscipline.valued z.view.preserves_true)
    z.config.reportIntrinsics
  obtain ⟨_, -, -, leads, -⟩ := (D.safe_callResult hz (a := b) (b := b)
    ⟨rfl, b.store.allValues_true⟩ trivial called (.inr kind)).of_ok answered
  exact ⟨id, b, answer, made, answered, rfl, leads.1.keepsCalls _ _ called,
    leads.2.edges (Setting.mem_edges_of_newCall made)⟩

/-- In states with the same store, an access of one clazz yields the same. -/
theorem accessOne_of_store_eq (same : b.store = a.store)
    (run : (z.accessOne act site target mode clazz).outcome a = (.ok r, a')) :
    ∃ b', (z.accessOne act site target mode clazz).outcome b = (.ok r, b') ∧
      b'.store = a'.store ∧ b.Noted b' := by
  obtain ⟨b', run', alike, -, -⟩ :=
    (safe_accessOne_quiet hz same site target mode clazz (s := a.store) fun _ => rfl).of_ok run
  obtain ⟨_, -, -, leads, -⟩ :=
    (safe_accessOne_quiet hz rfl site target mode clazz (s := b.store) fun _ => rfl).of_ok run'
  exact ⟨b', run', alike.1, leads.2⟩

/-- What a routine or an intrinsic yields is regular where values are, if the store stays as it is.
-/
theorem regular_of_enter {kinds : ClazzId → NumericKind} (agrees : z.view.AgreesWith kinds)
    (regular : a.store.IsRegular kinds)
    (kind : (z.view.info clazz).kind = .routine ∨ (z.view.info clazz).kind = .intrinsic) {v : Value}
    (run : (z.enter act target args clazz false).outcome a = (.ok (some v), a'))
    (still : a'.store = a.store) : v.Regular kinds := by
  cases code : (z.view.info clazz).needsCode with
  | false =>
    unfold enter at run
    rw [code] at run
    cases run
  | true =>
    obtain ⟨id, b, answer, made, answered, filtered, called, -⟩ := call_of_enter hz kind code run
    rw [still] at called
    have same := Setting.store_of_newCall made called
    let D := AnalysisDiscipline.ofStore (StoreDiscipline.valued (z.view.preserves_regular agrees))
      z.config.reportIntrinsics
    obtain ⟨_, -, -, -, loose⟩ := (D.safe_callResult hz (a := b) (b := b)
      ⟨rfl, same ▸ regular⟩ trivial (Setting.key?_of_newCall made) (.inr kind)).of_ok answered
    obtain ⟨produced, there⟩ := Option.filter_eq_some_iff.1 filtered.symm
    exact (loose v produced).resolve_left (of_decide_eq_true there)

/-- Where values are regular, so is what an access yields that leaves the store as it is. What is
written or passed need not be regular. -/
theorem regular_of_accessOne {kinds : ClazzId → NumericKind} (agrees : z.view.AgreesWith kinds)
    (regular : a.store.IsRegular kinds) {v : Value}
    (run : (z.accessOne act site target mode clazz).outcome a = (.ok (some v), a'))
    (still : a'.store = a.store) : v.Regular kinds := by
  cases mode with
  | assign values =>
    obtain ⟨unit, -⟩ := assignOne_eq_ok run
    cases unit
    exact ⟨trivial, trivial⟩
  | call args =>
    have run : (z.callOne act site target args clazz).outcome a = (.ok (some v), a') := run
    unfold callOne at run
    cases kind : (z.view.info clazz).kind with
    | «abstract» =>
      rw [kind] at run
      obtain ⟨_, _, -, run⟩ := Attempt.outcome_bind_eq_ok run
      cases run
    | routine =>
      rw [kind] at run
      exact regular_of_enter hz agrees regular (.inl kind) run still
    | intrinsic =>
      rw [kind] at run
      exact regular_of_enter hz agrees regular (.inr kind) run still
    | field =>
      rw [kind] at run
      obtain ⟨_, _, current, run⟩ := Attempt.outcome_bind_eq_ok run
      cases current
      obtain ⟨w, read, run⟩ := Attempt.outcome_lift_bind_eq_ok run
      have tops := Store.tops_of_readField regular target read
      split at run
      · cases run
      · cases run
        exact tops.regular
    | choice =>
      rw [kind] at run
      cases run

/-- What a pair yields is regular where values are, if the pair `Rests`. -/
theorem regular_of_yield? {kinds : ClazzId → NumericKind} (agrees : z.view.AgreesWith kinds)
    (regular : a.store.IsRegular kinds) {p : (ClazzId × ClazzId) × Value}
    (rests : z.Rests act site mode a p) {v : Value} (yielded : z.yield? act site mode a p = some v) :
    v.Regular kinds := by
  obtain ⟨receiver, produced⟩ := yield?_eq_some_iff.1 yielded
  obtain ⟨r, b, run, still⟩ := rests receiver
  rw [run] at produced
  cases produced
  exact regular_of_accessOne hz agrees regular run still

/-! ### One access after the other -/

/-- What is told of a pair when its access has been made: its clazz is resolved, and its call is
known. -/
theorem tells_of_accessOne {p : (ClazzId × ClazzId) × Value}
    (resolved : p.1.2 ∈ b.resolved site) (noted : b.Noted a')
    (run : (z.accessOne act site p.2 mode p.1.2).outcome b = (.ok r, a')) :
    z.Tells act site mode p a' where
  resolved := noted.resolved site resolved
  called := by
    rintro args rfl kind code
    have entered : (z.enter act p.2 args p.1.2 false).outcome b = (.ok r, a') := by
      have run : (z.callOne act site p.2 args p.1.2).outcome b = (.ok r, a') := run
      unfold callOne at run
      obtain kind | kind := kind <;> rwa [kind] at run
    obtain ⟨id, _, _, -, -, -, known, edge⟩ := call_of_enter hz kind code entered
    exact ⟨id, known, edge⟩

/-- In a state with the same store, the access that a pair stands for is recorded and yields what it
yields in `a`. -/
theorem record_of_rests {p : (ClazzId × ClazzId) × Value} (rests : z.Rests act site mode a p)
    (receiver : a.store.receiverClazz? p.2 = some p.1.1) (same : b.store = a.store) :
    ∃ b₁ b₂, (recordDispatch site p.1.2).outcome b = (.ok (), b₁) ∧
      (z.accessOne act site p.2 mode p.1.2).outcome b₁ = (.ok (z.yield? act site mode a p), b₂) ∧
      b₂.store = a.store ∧ b.Noted b₂ ∧ z.Tells act site mode p b₂ := by
  obtain ⟨result, c, run, still⟩ := rests receiver
  have yields : z.yield? act site mode a p = result := by
    unfold yield?
    rw [if_pos receiver, run]
    rfl
  -- recording leaves the store as it is, and so the access does what it does in `a`
  obtain ⟨b₁, recorded, same₁⟩ : ∃ b₁, (recordDispatch site p.1.2).outcome b = (.ok (), b₁) ∧
      b₁.store = a.store := ⟨_, rfl, same⟩
  obtain ⟨b₂, accessed, same₂, noted⟩ := accessOne_of_store_eq hz same₁ run
  have before := Analysis.Noted.recordDispatch site p.1.2 b
  have resolved := Analysis.Noted.resolved_recordDispatch b site p.1.2 site
  rw [recorded] at before resolved
  refine ⟨b₁, b₂, recorded, yields ▸ accessed, same₂.trans still, before.trans noted, ?_⟩
  refine tells_of_accessOne hz ?_ noted accessed
  rw [resolved, if_pos rfl]
  exact Ascending.mem_insert.2 (.inl rfl)

/-- The accesses that a dynamic access makes do not get in each other's way, if none of them would
change the store. So each yields what it yields in the state in which the dynamic access begins. -/
theorem accessEach_of_rests {pairs : List ((ClazzId × ClazzId) × Value)}
    (known : ∀ p ∈ pairs, ∀ id, p.2 = .object id → ∃ key, a.store.instances.key? id = some key)
    (rests : ∀ p ∈ pairs, z.Rests act site mode a p) (same : b.store = a.store) (found : Bool)
    (sofar : Option Value) :
    ∃ found' a', (z.accessEach act site mode pairs found sofar).outcome b =
        (.ok (found', Value.joinedAll sofar (pairs.filterMap (z.yield? act site mode a))), a') ∧
      a'.store = a.store ∧ b.Noted a' ∧
      ∀ p ∈ pairs, a.store.receiverClazz? p.2 = some p.1.1 → z.Tells act site mode p a' := by
  -- what is noted grows with each pair, but the store stays that of `a`
  induction pairs generalizing b found sofar with
  | nil => exact ⟨found, b, rfl, same, .refl b, List.forall_mem_nil _⟩
  | cons p rest ih =>
    obtain ⟨knownHere, knownLater⟩ := List.forall_mem_cons.1 known
    obtain ⟨restsHere, restsLater⟩ := List.forall_mem_cons.1 rests
    have told := receives_eq_decide knownHere p.1.1
    rw [← same] at told
    rw [joinedAll_filterMap_cons, outcome_accessEach_cons told, same]
    by_cases receiver : a.store.receiverClazz? p.2 = some p.1.1
    · obtain ⟨b₁, b₂, recorded, accessed, same₂, noted, tells⟩ :=
        record_of_rests hz restsHere receiver same
      obtain ⟨found', a', later, same', noted', tellsLater⟩ :=
        ih knownLater restsLater same₂ true (joinResults sofar (z.yield? act site mode a p))
      refine ⟨found', a', ?_, same', noted.trans noted',
        List.forall_mem_cons.2 ⟨fun _ => ?_, tellsLater⟩⟩
      · rw [if_pos (decide_eq_true receiver), Attempt.outcome_bind_of_ok recorded,
          Attempt.outcome_bind_of_ok accessed]
        exact later
      · exact tells.mono (same'.trans same₂.symm) noted'
    · have nothing : z.yield? act site mode a p = none := if_neg receiver
      obtain ⟨found', a', later, same', noted, tellsLater⟩ := ih knownLater restsLater same found sofar
      refine ⟨found', a', ?_, same', noted,
        List.forall_mem_cons.2 ⟨fun other => absurd other receiver, tellsLater⟩⟩
      rw [if_neg (by simpa using receiver), nothing]
      cases sofar <;> exact later

/-- A dynamic access of which all that it makes neither fails nor changes the store does not fail or
change the store either. -/
theorem access_of_rests {access : Access} (dynamic : access.dynamic = true)
    (known : ∀ id, .object id ∈ target.atoms → ∃ key, a.store.instances.key? id = some key)
    (rests : ∀ p ∈ access.pairs target, z.Rests act site mode a p) :
    ∃ a', (z.access act site access target mode).outcome a =
        (.ok (Value.joinedAll none ((access.pairs target).filterMap (z.yield? act site mode a))), a') ∧
      a'.store = a.store ∧
      ∀ p ∈ access.pairs target, a.store.receiverClazz? p.2 = some p.1.1 →
        z.Tells act site mode p a' := by
  have known : ∀ p ∈ access.pairs target, ∀ id, p.2 = .object id →
      ∃ key, a.store.instances.key? id = some key :=
    fun p hp id object => known id (object ▸ (Access.mem_pairs.1 hp).2)
  obtain ⟨found, b, accessed, same, -, tells⟩ := accessEach_of_rests hz known rests rfl false none
  rw [access_eq_accessEach dynamic, Attempt.outcome_bind_of_ok accessed]
  cases found with
  | true => exact ⟨b, rfl, same, tells⟩
  | false =>
    have kept := AnalysisDiscipline.store_diagnose
      (.noDispatchTarget site (z.view.name access.accessed) target.text) b
    exact ⟨_, rfl, kept.trans same, fun p hp receiver =>
      (tells p hp receiver).mono kept (.diagnose _ b)⟩

/-- A dynamic access is made, in a state where an analysis may be, on a value whose instances are
known. For each target and each atom that goes to it, the access of the clazz of the target on the
atom alone, as a static access makes it, would neither fail nor change the store. Then the dynamic
access does not fail and does not change the store. It yields the join of what these accesses yield,
and nothing if none of them yields anything. Each clazz is resolved at the site, and the calls are
known, with edges to them. What is yielded does not depend on the order of the targets, and not on
how often they are listed. -/
theorem access_of_dynamic (reached : z.Reaches a) {access : Access}
    (dynamic : access.dynamic = true)
    (known : ∀ id, .object id ∈ target.atoms → ∃ key, a.store.instances.key? id = some key)
    (rests : ∀ t ∈ access.targets, ∀ atom ∈ target.atoms, z.Rests act site mode a (t, atom)) :
    ∃ answer a', (z.access act site access target mode).outcome a = (.ok answer, a') ∧
      a'.store = a.store ∧
      (answer = none ↔ ∀ p ∈ access.pairs target, z.yield? act site mode a p = none) ∧
      (∀ v, answer = some v →
        v = Value.joinAll ((access.pairs target).filterMap (z.yield? act site mode a))) ∧
      (∀ t ∈ access.targets, ∀ atom ∈ target.atoms, a.store.receiverClazz? atom = some t.1 →
        z.Tells act site mode (t, atom) a') ∧
      ∀ access' : Access, access'.dynamic = true →
        (∀ t, t ∈ access'.targets ↔ t ∈ access.targets) →
        ((z.access act site access' target mode).outcome a).1 = .ok answer := by
  have agrees : z.view.AgreesWith z.view.numericKind :=
    fun _ _ special => View.numericKind_of_special special
  have regular := isRegular_of_reaches hz agrees reached
  have rests : ∀ p ∈ access.pairs target, z.Rests act site mode a p := by
    rintro ⟨t, atom⟩ hp
    obtain ⟨ht, hatom⟩ := Access.mem_pairs.1 hp
    exact rests t ht atom hatom
  have yields : ∀ v ∈ (access.pairs target).filterMap (z.yield? act site mode a),
      v.Regular z.view.numericKind := by
    intro v hv
    obtain ⟨p, hp, yielded⟩ := List.mem_filterMap.1 hv
    exact regular_of_yield? hz agrees regular (rests p hp) yielded
  obtain ⟨a', run, same, tells⟩ := access_of_rests hz dynamic known rests
  refine ⟨_, a', run, same, ?_, ?_, ?_, ?_⟩
  · rw [Value.joinedAll_none_eq_none_iff, List.filterMap_eq_nil_iff]
  · exact fun v answered => Value.eq_joinAll_of_joinedAll_none answered
  · exact fun t ht atom hatom => tells (t, atom) (Access.mem_pairs.2 ⟨ht, hatom⟩)
  · intro access' dynamic' listed
    have paired : ∀ p, p ∈ access'.pairs target ↔ p ∈ access.pairs target := fun p => by
      rw [Access.mem_pairs, Access.mem_pairs, listed]
    obtain ⟨_, run', -⟩ := access_of_rests hz dynamic' known fun p hp => rests p ((paired p).1 hp)
    rw [run']
    refine congrArg Except.ok (Value.joinedAll_eq_of_mem_iff (by rintro _ ⟨⟩) yields ?_).symm
    intro v
    simp only [List.mem_filterMap, paired]

omit hz

/-- An analysis of a program in which a field holds a dog and a cat that are made to speak. The dog
does so by a routine that returns itself, and of the cat a field is read that holds a number. -/
def choir : Analyzer where
  view := Program.view
    { clazzes :=
        [ ("main", { kind := .routine, code := some ⟨0⟩ })
        , ("Dog", { kind := .routine, result := some ⟨1⟩, code := some ⟨1⟩, isRef := true })
        , ("Cat", { kind := .routine, result := some ⟨2⟩, code := some ⟨1⟩, isRef := true })
        , ("Animal", { kind := .routine, isRef := true, needsCode := false })
        , ("pet", { kind := .field, outer := some ⟨0⟩, result := some ⟨3⟩ })
        , ("Animal.speak", { kind := .abstract, outer := some ⟨3⟩, result := some ⟨3⟩ })
        , ("Dog.speak", { kind := .routine, outer := some ⟨1⟩, result := some ⟨6⟩, code := some ⟨1⟩ })
        , ("Cat.speak", { kind := .field, outer := some ⟨2⟩, result := some ⟨8⟩ })
        , ("i32", { kind := .routine, special := some (.numeric .i32), needsCode := false }) ]
      blocks :=
        [ [ .current, .current, .call (.fixed ⟨1⟩), .assign (.fixed ⟨4⟩)
          , .current, .current, .call (.fixed ⟨2⟩), .assign (.fixed ⟨4⟩)
          , .current, .call (.fixed ⟨2⟩), .const ⟨8⟩ [1, 0, 0, 0], .assign (.fixed ⟨7⟩)
          , .current, .call (.fixed ⟨4⟩)
          , .call (.dispatched ⟨5⟩ [(⟨1⟩, ⟨6⟩), (⟨2⟩, ⟨7⟩)]), .pop ]
        , [] ]
      main := ⟨0⟩
      constString := none }

/-- In the end the dog and the cat are made to speak once more, by the call to start with. -/
theorem access_of_dynamic_choir :
    let act : Activation := ⟨⟨0⟩, choir.mainKey, ⟨0⟩⟩
    let site : Site := ⟨⟨0⟩, ⟨0⟩, 14⟩
    let pets : Value := .set [.object ⟨1⟩, .object ⟨2⟩]
    ∃ final, choir.run 12 {} = some (.ok final) ∧
      ∃ answer a', (choir.access act site (.dispatched ⟨5⟩ [(⟨1⟩, ⟨6⟩), (⟨2⟩, ⟨7⟩)]) pets
          (.call [])).outcome final = (.ok answer, a') ∧
        a'.store = final.store ∧
        answer = some (.set [.number ⟨⟨8⟩, .i32, some 1⟩, .object ⟨3⟩]) ∧
        ⟨6⟩ ∈ a'.resolved site ∧ ⟨7⟩ ∈ a'.resolved site ∧
        (∃ id, a'.store.calls.key? id = some ⟨⟨6⟩, false, .object ⟨1⟩, [], none⟩ ∧
          ⟨⟨0⟩, id⟩ ∈ a'.edges) ∧
        ((choir.access act site (.dispatched ⟨5⟩ [(⟨2⟩, ⟨7⟩), (⟨1⟩, ⟨6⟩), (⟨2⟩, ⟨7⟩)]) pets
          (.call [])).outcome final).1 = .ok answer := by
  intro act site pets
  let speak : Access := .dispatched ⟨5⟩ [(⟨1⟩, ⟨6⟩), (⟨2⟩, ⟨7⟩)]
  have table : choir.intrinsics = .standard := by simp only [choir]
  obtain ⟨final, run, dog, cat, rests, yields⟩ : ∃ final, choir.run 12 {} = some (.ok final) ∧
      final.store.receiverClazz? (.object ⟨1⟩) = some ⟨1⟩ ∧
      final.store.receiverClazz? (.object ⟨2⟩) = some ⟨2⟩ ∧
      (∀ t ∈ speak.targets, ∀ atom ∈ pets.atoms,
        choir.Rests act site (.call []) final (t, atom)) ∧
      (speak.pairs pets).filterMap (choir.yield? act site (.call []) final) =
        [.object ⟨3⟩, .number ⟨⟨8⟩, .i32, some 1⟩] :=
    exists_run (by decide +kernel)
  have known : ∀ id, .object id ∈ pets.atoms →
      ∃ key, final.store.instances.key? id = some key := by
    intro id among
    have receiver : ∃ clazz, final.store.receiverClazz? (.object id) = some clazz := by
      obtain same | same : Value.object id = .object ⟨1⟩ ∨ Value.object id = .object ⟨2⟩ := by
        simpa only [pets, Value.atoms, List.mem_cons, List.not_mem_nil, or_false] using among
      · exact ⟨⟨1⟩, same ▸ dog⟩
      · exact ⟨⟨2⟩, same ▸ cat⟩
    obtain ⟨clazz, dispatched⟩ := receiver
    obtain ⟨key, held, -⟩ := Option.map_eq_some_iff.1 dispatched
    exact ⟨key, held⟩
  obtain ⟨answer, a', accessed, same, nothing, joined, tells, listed⟩ :=
    access_of_dynamic table (reaches_run run) rfl known rests
  rw [← List.filterMap_eq_nil_iff, yields] at nothing
  have spoken := tells (⟨1⟩, ⟨6⟩) (by decide) (.object ⟨1⟩) (by decide) dog
  have purred := tells (⟨2⟩, ⟨7⟩) (by decide) (.object ⟨2⟩) (by decide) cat
  refine ⟨final, run, answer, a', accessed, same, ?_, spoken.resolved, purred.resolved, ?_, ?_⟩
  · cases answer with
    | none => cases nothing.1 rfl
    | some v =>
      have sung := joined v rfl
      rw [yields] at sung
      rw [sung]
      decide +kernel
  · exact spoken.called [] rfl (.inl (by decide)) (by decide)
  · apply listed (.dispatched ⟨5⟩ [(⟨2⟩, ⟨7⟩), (⟨1⟩, ⟨6⟩), (⟨2⟩, ⟨7⟩)]) rfl
    simp only [speak, Access.dispatched, List.mem_cons]
    grind

end Analyzer

end ClosedWorld
