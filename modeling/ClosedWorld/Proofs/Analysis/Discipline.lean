import ClosedWorld.Proofs.Store.Discipline

/-!
# Disciplines of analyses

An analysis works on its store and, besides, takes notes: findings, resolved accesses, the call
graph. A discipline of analyses adds to a discipline of stores what is said of the notes, and what
two analyses may have apart that are in progress side by side. The second one may differ in whether it
reports the intrinsics without a meaning. It is enough to check the elementary steps.

## Main definitions

* `Analyzer.beside`: the analyzer with another choice of reports.
* `AnalysisDiscipline`: a discipline of stores, and a regime that elementary steps keep to.
* `AnalysisDiscipline.ofStore`: the one that says nothing of the notes.

## Main statements

* `AnalysisDiscipline.safe_currentStore_bind`: a step that looks at the store first.
* `Setting.outcome_newCall`: new calls.
-/

namespace ClosedWorld

/-- The analyzer that reports the intrinsics without a meaning or does not. -/
def Analyzer.beside (z : Analyzer) (reports : Bool) : Analyzer :=
  { z with config := { z.config with reportIntrinsics := reports } }

section beside

variable (z : Analyzer) (reports : Bool)

/-- What is reported of intrinsics has no effect on what the program is asked. -/
@[simp] theorem Analyzer.view_beside : (z.beside reports).view = z.view := rfl

/-- What is reported of intrinsics has no effect on what routines leave. -/
@[simp] theorem Analyzer.routineResult_beside (s : Store) (clazz : ClazzId) (frame : InstanceId) :
    (z.beside reports).routineResult s clazz frame = z.routineResult s clazz frame := rfl

/-- What is reported of intrinsics has no effect on new calls. -/
@[simp] theorem Analyzer.newCall_beside (key : CallKey) (origin : CallId) :
    (z.beside reports).newCall key origin = z.newCall key origin := rfl

/-- What is reported of intrinsics has no effect on how atoms are tagged. -/
theorem Analyzer.retagAtoms_beside (s : Store) (choice : ClazzId) (sofar : Value)
    (atoms : List Value) :
    (z.beside reports).retagAtoms s choice sofar atoms = z.retagAtoms s choice sofar atoms := by
  induction atoms generalizing sofar with
  | nil => rfl
  | cons atom rest ih =>
    unfold Setting.retagAtoms
    exact bind_congr fun tagged => ih _

/-- What is reported of intrinsics has no effect on how values are tagged. -/
@[simp] theorem Analyzer.retag_beside (s : Store) (field : ClazzId) (value : Value) :
    (z.beside reports).retag s field value = z.retag s field value := by
  unfold Setting.retag
  rw [Analyzer.view_beside]
  simp only [Analyzer.retagAtoms_beside]

end beside

/-- An operation on the store that succeeds leaves the store that it leaves. -/
theorem outcome_onStore_eq_ok {α : Type} {step : Updating α} {a a' : Analysis} {x : α}
    (h : (onStore step).outcome a = (.ok x, a')) : step.outcome a.store = (.ok x, a'.store) := by
  unfold onStore at h
  rw [Attempt.outcome_within] at h
  obtain ⟨result, rfl⟩ := Prod.mk.inj h
  exact Prod.ext result rfl

/-! ### New calls -/

/-- The context of what a call creates is nothing or the clazz of the call. -/
theorem Setting.known_contextOf {g : Setting} {Known : ClazzId → Prop} {creator : ClazzId}
    (hk : Known creator) (c : ClazzId) (hc : g.contextOf creator = some c) : Known c := by
  unfold Setting.contextOf at hc
  split at hc
  · cases hc
  · cases hc
    exact hk

/-- The terms allow for the marks and the contexts of analyses with these settings. -/
structure StoreTerms.Suits (D : StoreTerms) (g : Setting) : Prop where
  walked : ∀ id, D.Walked id
  goodContext : ∀ {creator}, D.Known creator → D.GoodContext (g.contextOf creator)

/-- Terms that say nothing of marks, and of contexts only that they are known, suit all settings. -/
theorem StoreTerms.Suits.of_known {D : StoreTerms} {g : Setting}
    (walked : ∀ id, D.Walked id := by exact fun _ => trivial)
    (goodContext : ∀ {context}, (∀ c, context = some c → D.Known c) → D.GoodContext context := by
      exact fun h => h) : D.Suits g where
  walked := walked
  goodContext hk := goodContext (Setting.known_contextOf hk)

/-- The state with another store, in which one call has discovered another. -/
def Analysis.discovering (a : Analysis) (t : Store) (e : Edge) : Analysis :=
  { a with store := t, edges := Ascending.insert e a.edges }

/-- A new call is made if the one that discovers it is known. -/
theorem Setting.outcome_newCall (g : Setting) (key : CallKey) (origin : CallId) (a : Analysis) :
    (g.newCall key origin).outcome a =
      match a.store.callKey origin with
      | .error fault => (.error fault, a)
      | .ok creator =>
        let (id, t) :=
          (Store.internCall key (g.contextOf creator.clazz) (some origin)).run a.store
        (.ok id, a.discovering t ⟨origin, id⟩) := by
  unfold newCall
  rw [Attempt.outcome_bind]
  show (liftM (a.store.callKey origin) >>= _ : Analyzing CallId).outcome a = _
  rw [Attempt.outcome_bind, Attempt.outcome_except]
  cases a.store.callKey origin <;> rfl

/-- A new call that is made has the one that discovers it as its origin, and an edge from it. -/
theorem Setting.newCall_eq_ok {g : Setting} {key : CallKey} {origin id : CallId} {a a' : Analysis}
    (made : (g.newCall key origin).outcome a = (.ok id, a')) :
    ∃ creator t, a.store.callKey origin = .ok creator ∧
      (Store.internCall key (g.contextOf creator.clazz) (some origin)).run a.store = (id, t) ∧
      a' = a.discovering t ⟨origin, id⟩ := by
  rw [outcome_newCall] at made
  cases found : a.store.callKey origin with
  | error fault =>
    rw [found] at made
    cases made
  | ok creator =>
    rw [found] at made
    cases made
    exact ⟨creator, _, rfl, rfl, rfl⟩

section newCall

variable {g : Setting} {key : CallKey} {origin id : CallId} {a a' : Analysis}
  (made : (g.newCall key origin).outcome a = (.ok id, a'))

include made

/-- The call that is made has the key that it is made with. -/
theorem Setting.key?_of_newCall : a'.store.calls.key? id = some key := by
  obtain ⟨creator, t, -, interned, rfl⟩ := newCall_eq_ok made
  have known := a.store.key?_internCall key (g.contextOf creator.clazz) (some origin)
  rwa [interned] at known

/-- There is an edge to the call that is made. -/
theorem Setting.mem_edges_of_newCall : ⟨origin, id⟩ ∈ a'.edges := by
  obtain ⟨_, t, -, -, rfl⟩ := newCall_eq_ok made
  exact Ascending.mem_insert.2 (.inl rfl)

/-- A call that is known already is not made again. -/
theorem Setting.store_of_newCall {known : CallId} (held : a.store.calls.key? known = some key) :
    a'.store = a.store := by
  obtain ⟨creator, t, -, interned, rfl⟩ := newCall_eq_ok made
  obtain ⟨_, -, run⟩ | ⟨new, -⟩ :=
    a.store.internCall_cases key (g.contextOf creator.clazz) (some origin)
  · exact congrArg Prod.snd (interned.symm.trans run)
  · exact absurd (Interned.mem_keys.2 ⟨known, held⟩) (Interned.idOf?_eq_none_iff.1 new)

end newCall

/-- Why a call may discover one with this key: both have the same environment, and nothing is
missing that has to be checked first, or the one that discovers is of the intrinsic that installs
its target on top of its own environment and calls a function there. -/
inductive StoreTerms.Discovers (D : StoreTerms) (view : View) (s : Store) (caller : CallId)
    (key : CallKey) : Prop where
  | access {own : CallKey} (called : D.Called s caller own) (env : key.env = own.env)
      (ready : D.Ready s key)
  | install {own : CallKey} {effect fn : ClazzId} {node : EnvId} (called : D.Called s caller own)
      (installs : view.CallsIntrinsic "effect.abortable" own)
      (typed : (view.info own.clazz).effectType = some effect) (env : key.env = some node)
      (bound : s.envs.key? node = some ⟨own.env, effect, own.target⟩)
      (routine : (view.info fn).call = some key.clazz)

/-- Reports that an intrinsic has no meaning, if the configuration says so. -/
def Analyzer.noteUnsupported (z : Analyzer) (name : String) (id : CallId) : Analyzing Unit :=
  if z.config.reportIntrinsics then diagnose (.unsupportedIntrinsic name id) else return ()

/-- A discipline of stores, and a regime of analyses under way that all elementary steps keep to. -/
structure AnalysisDiscipline (z : Analyzer) extends StoreDiscipline z.view where
  /-- What steps of an analysis are held to. -/
  runs : Regime Fault Analysis
  /-- The second analysis reports the intrinsics without a meaning. -/
  reports : Bool
  store_eq : ∀ {a b}, runs.Alike a b → b.store = a.store
  inv : ∀ {a b}, runs.Alike a b → Inv a.store
  leads_store : ∀ {a a'}, runs.Leads a a' → Leads a.store a'.store
  allowed : ∀ {fault}, Allowed fault → runs.Allowed fault
  goodContext : ∀ {creator}, Known creator → GoodContext (z.contextOf creator)
  /- The elementary steps. -/
  safe_onStore : ∀ {α : Type} {post : α → Store → Prop} {step : Updating α} {a b},
    runs.Alike a b → toStoreTerms.Safe post step a.store →
    runs.Safe (fun x a' => post x a'.store) (onStore step) (onStore step) a b
  safe_diagnose : ∀ {a b} d, runs.Alike a b →
    runs.Safe (fun _ _ => True) (diagnose d) (diagnose d) a b
  safe_noteUnsupported : ∀ {a b} name id, runs.Alike a b →
    runs.Safe (fun _ _ => True) (z.noteUnsupported name id)
      ((z.beside reports).noteUnsupported name id) a b
  safe_recordDispatch : ∀ {a b} site clazz, runs.Alike a b →
    runs.Safe (fun _ _ => True) (recordDispatch site clazz) (recordDispatch site clazz) a b
  safe_newCall : ∀ {a b key origin}, runs.Alike a b → toStoreTerms.GoodKey z.view a.store key →
    GoodCall a.store origin → toStoreTerms.Discovers z.view a.store origin key →
    runs.Safe (fun id a' => a'.store.calls.key? id = some key ∧ GoodCall a'.store id)
      (z.newCall key origin) (z.newCall key origin) a b

namespace AnalysisDiscipline

variable {z : Analyzer} (D : AnalysisDiscipline z) {α β : Type} {post : α → Analysis → Prop}
  {a b : Analysis}

/-- The step keeps to the discipline, beside itself. -/
abbrev Sound (post : α → Analysis → Prop) (step : Analyzing α) (a b : Analysis) : Prop :=
  D.runs.Safe post step step a b

/-- The answer, if there is one, is good. -/
def GoodAnswer (r : Option Value) (a : Analysis) : Prop := D.GoodResult a.store r

/-- The answer, if there is one, is nothing or good. -/
def LooseAnswer (r : Option Value) (a : Analysis) : Prop := ∀ v, r = some v → D.Loose a.store v

/-- A good value is a good answer. -/
theorem looseAnswer_some {v : Value} (hv : D.Good a.store v) : D.LooseAnswer (some v) a := by
  rintro _ ⟨⟩
  exact .inr hv

/-- That there is no answer is a good answer. -/
theorem looseAnswer_none : D.LooseAnswer none a := by
  rintro _ ⟨⟩

variable {D}

/-- A step that looks at the store first keeps to the discipline if what comes then does. -/
theorem safe_currentStore_bind {next next' : Store → Analyzing α} (h : D.runs.Alike a b)
    (hn : D.runs.Safe post (next a.store) (next' a.store) a b) :
    D.runs.Safe post (currentStore >>= next) (currentStore >>= next') a b := by
  have bound := Attempt.outcome_bind currentStore next a
  have bound' := Attempt.outcome_bind currentStore next' b
  have shown : currentStore.outcome b = (.ok a.store, b) := by
    rw [← D.store_eq h]
    rfl
  rw [shown] at bound'
  cases hn with
  | ok run run' alike leads holds => exact .ok (bound.trans run) (bound'.trans run') alike leads holds
  | error run run' alike leads allowed =>
    exact .error (bound.trans run) (bound'.trans run') alike leads allowed

/-- What is read off a store and may fail as the store may, may fail as the analysis may. -/
theorem gives_allowed {wanted : α → Prop} {r : Except Fault α} (hr : Gives D.Allowed wanted r) :
    Gives D.runs.Allowed wanted r := by
  cases hr with
  | ok holds => exact .ok holds
  | error allowed => exact .error (D.allowed allowed)

/-- What is read off a store may be used by steps that keep to the discipline for all that can be
read. -/
theorem safe_lift_bind {r : Except Fault β} {wanted : β → Prop} {next next' : β → Analyzing α}
    (h : D.runs.Alike a b) (hr : Gives D.Allowed wanted r)
    (hn : ∀ x, wanted x → D.runs.Safe post (next x) (next' x) a b) :
    D.runs.Safe post (liftM r >>= next) (liftM r >>= next') a b :=
  .lift_bind h (gives_allowed hr) hn

variable (D)

/-! ### Settings -/

/-- An argument that a call is asked for is one of its good arguments, or the fault is `Allowed`. -/
theorem gives_argument {clazz : ClazzId} {args : List Value} (ha : ∀ v ∈ args, D.Good a.store v)
    (index : Nat) : Gives D.Allowed (D.Good a.store) (z.argument clazz args index) := by
  unfold Setting.argument
  cases present : args[index]? with
  | some v => exact .ok (ha v (List.mem_of_getElem? present))
  | none => exact .error (D.allowed_of_isPlain rfl)

/-- Any number of a clazz is good and has its kind, or the fault is `Allowed`. -/
theorem gives_anyNumber (s : Store) (clazz : ClazzId) :
    Gives D.Allowed (fun n => D.Good s (.number n) ∧
      (z.view.info clazz).special = some (.numeric n.kind) ∧ n.clazz = clazz) (z.anyNumber clazz) := by
  unfold Setting.anyNumber
  split
  · rename_i kind special
    exact .ok ⟨D.good_any special s, special, rfl⟩
  · exact .error (D.allowed_of_isPlain rfl)

/-- The clazz of a good atom can be told, or the fault is `Allowed`. -/
theorem gives_clazzOf {s : Store} (hi : D.Inv s) {atom : Value} (ha : D.Good s atom) :
    Gives D.Allowed (fun _ => True) (z.clazzOf? s atom) := by
  unfold Setting.clazzOf?
  split
  · exact (D.gives_instanceKey hi ha).bind fun key _ _ => .ok trivial
  all_goals exact .ok trivial

/-! ### From a state on -/

/-- The discipline, for states that may be reached from `start`. -/
def since (start : Analysis) : AnalysisDiscipline z :=
  { D with
    runs := D.runs.since start
    store_eq := fun h => D.store_eq h.1
    inv := fun h => D.inv h.1
    leads_store := D.leads_store
    allowed := D.allowed
    safe_onStore := fun h hs => (D.safe_onStore h.1 hs).since h.2
    safe_diagnose := fun d h => (D.safe_diagnose d h.1).since h.2
    safe_noteUnsupported := fun name id h => (D.safe_noteUnsupported name id h.1).since h.2
    safe_recordDispatch := fun site clazz h => (D.safe_recordDispatch site clazz h.1).since h.2
    safe_newCall := fun h hk ho discovers => (D.safe_newCall h.1 hk ho discovers).since h.2 }

end AnalysisDiscipline

/-! ### Notes -/

/-- The clazzes to which the accesses at a site have been resolved so far. -/
def Analysis.resolved (a : Analysis) (site : Site) : List ClazzId := (a.dispatch.find? site).getD []

/-- The notes of the second analysis continue those of the first one. -/
structure Analysis.Noted (a a' : Analysis) : Prop where
  main : a'.main = a.main
  iterations : a'.iterations = a.iterations
  reporting : a'.reporting = a.reporting
  diagnostics : a.diagnostics ⊆ a'.diagnostics
  resolved : ∀ site, a.resolved site ⊆ a'.resolved site
  edges : a.edges ⊆ a'.edges

namespace Analysis.Noted

/-- Nothing has been noted between a state and itself. -/
theorem refl (a : Analysis) : a.Noted a := ⟨rfl, rfl, rfl, fun _ h => h, fun _ _ h => h, fun _ h => h⟩

/-- What has been noted twice in a row has been noted. -/
theorem trans {a b c : Analysis} (h : a.Noted b) (h' : b.Noted c) : a.Noted c where
  main := h'.main.trans h.main
  iterations := h'.iterations.trans h.iterations
  reporting := h'.reporting.trans h.reporting
  diagnostics := fun _ hd => h'.diagnostics (h.diagnostics hd)
  resolved site := fun _ hc => h'.resolved site (h.resolved site hc)
  edges := fun _ he => h'.edges (h.edges he)

/-- A finding is noted without losing any other note. -/
theorem diagnose (d : Diagnostic) (a : Analysis) : a.Noted ((diagnose d).outcome a).2 := by
  unfold ClosedWorld.diagnose
  rw [Attempt.outcome_modify]
  dsimp only
  split
  · exact { refl a with diagnostics := List.subset_append_left _ _ }
  · exact refl a

/-- Recording a dispatch adds its clazz to those that are resolved at its site. -/
theorem resolved_recordDispatch (a : Analysis) (site : Site) (clazz : ClazzId) (site' : Site) :
    ((recordDispatch site clazz).outcome a).2.resolved site' =
      if site' = site then Ascending.insert clazz (a.resolved site) else a.resolved site' := by
  unfold recordDispatch Analysis.resolved
  rw [Attempt.outcome_modify]
  dsimp only
  rw [OrderedMap.find?_insert]
  split <;> rfl

/-- Recording a dispatch loses no other note. -/
theorem recordDispatch (site : Site) (clazz : ClazzId) (a : Analysis) :
    a.Noted ((recordDispatch site clazz).outcome a).2 where
  main := rfl
  iterations := rfl
  reporting := rfl
  diagnostics := fun _ h => h
  resolved site' := by
    intro c hc
    rw [resolved_recordDispatch]
    split
    · rename_i same
      rw [same] at hc
      exact Ascending.mem_insert.2 (.inr hc)
    · exact hc
  edges := fun _ h => h

/-- Discovering a call adds an edge and loses no other note. -/
theorem discovering (a : Analysis) (t : Store) (e : Edge) : a.Noted (a.discovering t e) :=
  { refl a with edges := fun _ h => Ascending.mem_insert.2 (.inr h) }

end Analysis.Noted

/-! ### Disciplines of stores -/

/-- What a discipline says of stores, said of the stores of analyses. The notes are not read, and
they only grow. -/
def StoreTerms.runs (D : StoreTerms) : Regime Fault Analysis where
  Alike a b := b.store = a.store ∧ D.Inv a.store
  Leads a a' := D.Leads a.store a'.store ∧ a.Noted a'
  Allowed := D.Allowed
  leads_refl a := ⟨D.leads_refl a.store, .refl a⟩
  leads_trans h h' := ⟨D.leads_trans h.1 h'.1, h.2.trans h'.2⟩

namespace AnalysisDiscipline

/-- A finding leaves the store alone. -/
theorem store_diagnose (d : Diagnostic) (a : Analysis) :
    ((diagnose d).outcome a).2.store = a.store := by
  unfold diagnose
  rw [Attempt.outcome_modify]
  dsimp only
  split <;> rfl

variable {D : StoreTerms} {a b : Analysis}

/-- A step that cannot fail and only takes a note keeps to the discipline. -/
theorem safe_note {step step' : Analyzing Unit} (h : D.runs.Alike a b) {a' b' : Analysis}
    (run : step.outcome a = (.ok (), a')) (run' : step'.outcome b = (.ok (), b'))
    (kept : a'.store = a.store) (kept' : b'.store = b.store) (noted : a.Noted a') :
    D.runs.Safe (fun _ _ => True) step step' a b := by
  obtain ⟨same, inv⟩ := h
  have alike : D.runs.Alike a' b' := ⟨by rw [kept, kept', same], by rw [kept]; exact inv⟩
  have leads : D.Leads a.store a'.store := by
    rw [kept]
    exact D.leads_refl a.store
  exact .ok run run' alike ⟨leads, noted⟩ trivial

/-- Operations on the store keep to the discipline of analyses if they do to that of stores. -/
theorem safe_onStore_store {α : Type} {post : α → Store → Prop} {step : Updating α}
    (h : D.runs.Alike a b) (hs : D.Safe post step a.store) :
    D.runs.Safe (fun x a' => post x a'.store) (onStore step) (onStore step) a b := by
  have outcome : (onStore step).outcome a =
      ((step.outcome a.store).1, { a with store := (step.outcome a.store).2 }) := rfl
  have outcome' : (onStore step).outcome b =
      ((step.outcome a.store).1, { b with store := (step.outcome a.store).2 }) := by
    rw [← h.1]
    rfl
  have noted (s : Store) : a.Noted { a with store := s } := { Analysis.Noted.refl a with }
  cases hs with
  | ok run _ alike leads holds =>
    rw [run] at outcome outcome'
    exact .ok outcome outcome' ⟨rfl, alike.2⟩ ⟨leads.1, noted _⟩ holds
  | error run _ alike leads allowed =>
    rw [run] at outcome outcome'
    exact .error outcome outcome' ⟨rfl, alike.2⟩ ⟨leads.1, noted _⟩ allowed

/-- Making a call with a good key keeps to the discipline, and answers a good call with this key. -/
theorem safe_newCall_store {z : Analyzer} (D : StoreDiscipline z.view) (h : D.runs.Alike a b)
    {key : CallKey} (hk : D.GoodKey z.view a.store key) {origin : CallId}
    (ho : D.GoodCall a.store origin)
    (goodContext : ∀ {creator}, D.Known creator → D.GoodContext (z.contextOf creator) := by
      exact Setting.known_contextOf) :
    D.runs.Safe (fun id a' => a'.store.calls.key? id = some key ∧ D.GoodCall a'.store id)
      (z.newCall key origin) (z.newCall key origin) a b := by
  obtain ⟨same, inv⟩ := h
  have outcome := z.outcome_newCall key origin a
  have outcome' := z.outcome_newCall key origin b
  have keyed := D.gives_callKey inv ho
  rw [same] at outcome'
  generalize a.store.callKey origin = found at outcome outcome' keyed
  cases keyed with
  | error allowed => exact .error outcome outcome' ⟨same, inv⟩ (D.runs.leads_refl a) allowed
  | @ok creator created =>
    have context := goodContext (D.goodKey inv created).known
    have discoverer : ∀ id, some origin = some id → D.GoodCall a.store id := by
      rintro _ ⟨⟩
      exact ho
    have kept := D.kept_internCall inv hk context discoverer
    have made := a.store.key?_internCall key (z.contextOf creator.clazz) (some origin)
    exact .ok outcome outcome' ⟨rfl, kept.inv⟩ ⟨kept.leads, .discovering ..⟩
      ⟨made, D.goodCall_of_key kept.inv made⟩

/-- The discipline that says of analyses what a discipline says of their stores. -/
def ofStore {z : Analyzer} (D : StoreDiscipline z.view) (reports : Bool)
    (goodContext : ∀ {creator}, D.Known creator → D.GoodContext (z.contextOf creator) := by
      exact Setting.known_contextOf) :
    AnalysisDiscipline z where
  toStoreDiscipline := D
  runs := D.runs
  reports := reports
  store_eq h := h.1
  inv h := h.2
  leads_store h := h.1
  allowed h := h
  goodContext := goodContext
  safe_onStore h hs := safe_onStore_store h hs
  safe_diagnose {a b} d h := safe_note h rfl rfl (store_diagnose d a) (store_diagnose d b)
    (.diagnose d a)
  safe_noteUnsupported {a b} name id h := by
    have quiet {z : Analyzer} (a : Analysis) : ∃ a',
        (z.noteUnsupported name id).outcome a = (.ok (), a') ∧ a'.store = a.store ∧ a.Noted a' := by
      unfold Analyzer.noteUnsupported
      cases z.config.reportIntrinsics with
      | false => exact ⟨a, rfl, rfl, .refl a⟩
      | true => exact ⟨_, rfl, store_diagnose _ a, .diagnose _ a⟩
    obtain ⟨a', run, kept, noted⟩ := quiet (z := z) a
    obtain ⟨b', run', kept', -⟩ := quiet (z := z.beside reports) b
    exact safe_note h run run' kept kept' noted
  safe_recordDispatch {a b} site clazz h := safe_note h rfl rfl rfl rfl (.recordDispatch site clazz a)
  safe_newCall h hk ho _ := safe_newCall_store D h hk ho goodContext

end AnalysisDiscipline

end ClosedWorld
