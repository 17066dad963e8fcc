import ClosedWorld.Proofs.Program
import ClosedWorld.Proofs.Regime
import ClosedWorld.Proofs.Store.Changes
import ClosedWorld.Proofs.Value.Semilattice

/-!
# Disciplines of stores

A discipline is an invariant of stores, together with what it needs to be one: which values, calls,
nodes and clazzes are handled, how a store may change, and with what an operation may fail. It is
enough to check it on the elementary changes of a store. What is composed of them, such as writing a
field of everything a value may be, then keeps to the discipline as well.

## Main definitions

* `StoreTerms`: what is said of stores and values, and `StoreTerms.regime`.
* `StoreDiscipline`: terms that every elementary change keeps to.

## Main statements

* `StoreDiscipline.safe_setField`, `StoreDiscipline.gives_readField`: fields.
* `StoreDiscipline.safe_boxValue`: boxes.
* `StoreDiscipline.gives_lookupEffect`, `StoreDiscipline.safe_replaceEffect`: effects.
* `StoreDiscipline.kept_internCall`: calls.
-/

namespace ClosedWorld

/-! ### Which calls return -/

/-- The call is one of the body of an intrinsic of that name. -/
structure View.CallsIntrinsic (view : View) (name : String) (key : CallKey) : Prop where
  body : key.pre = false
  kind : (view.info key.clazz).kind = .intrinsic
  named : (view.info key.clazz).intrinsic.getD (view.name key.clazz) = name

/-- A call of an intrinsic is there only in programs that have the intrinsic. -/
theorem View.CallsIntrinsic.hasIntrinsic {view : View} {name : String} {key : CallKey}
    (h : view.CallsIntrinsic name key) : view.HasIntrinsic name :=
  ⟨key.clazz, h.kind, h.named⟩

/-- The intrinsics of the standard library that never return. -/
def IntrinsicTable.exits : List String := ["fuzion.std.exit", "effect.abort"]

/-- Calls with this key are analysed by a walk: that of a precondition or of the body of a routine.
-/
def View.HasWalk (view : View) (key : CallKey) : Prop :=
  key.pre = true ∨ (view.info key.clazz).kind = .routine

/-- The body of an intrinsic is not walked, nor is it a precondition. -/
theorem View.CallsIntrinsic.not_hasWalk {view : View} {name : String} {key : CallKey}
    (h : view.CallsIntrinsic name key) : ¬view.HasWalk key := by
  unfold View.HasWalk
  rw [h.body, h.kind]
  simp

/-- Calls with this key may be marked as returning: they have code, or they are of an intrinsic that
may return. -/
inductive View.MayReturn (view : View) (key : CallKey) : Prop where
  | code (walked : key.pre = true ∨ (view.info key.clazz).kind = .routine)
  | intrinsic {name : String} (calls : view.CallsIntrinsic name key)
      (returns : name ∉ IntrinsicTable.exits)

/-! ### Which bodies are entered -/

/-- The program has an instruction that calls in this way. -/
def View.Calls (view : View) (access : Access) : Prop :=
  ∃ code index, view.instr? code index = some (.call access)

/-- Why a call with this key may be made: it is one of a precondition, or the precondition of its
clazz need not be checked first, or it has been checked and can return. A precondition need not be
checked first where a clazz has none, where the clazz is what a dynamic call selects, and where it
is what calling a function means. -/
inductive Store.MayEnter (view : View) (s : Store) (key : CallKey) : Prop where
  | precondition (pre : key.pre = true)
  | unguarded (free : view.hasPrecondition key.clazz = false)
  | checked {id : CallId} {state : CallState}
      (called : s.calls.get? id = some ({ key with pre := true }, state))
      (returns : state.returns = true)
  | selected {access : Access} {type : ClazzId} (calls : view.Calls access)
      (dynamic : access.dynamic = true) (target : (type, key.clazz) ∈ access.targets)
  | function {fn : ClazzId} (routine : (view.info fn).call = some key.clazz)

/-! ### Terms -/

/-- What is said of stores, and of what is kept in them. -/
structure StoreTerms where
  /-- Holds of every store. -/
  Inv : Store → Prop
  /-- A store may change so. -/
  Leads : Store → Store → Prop
  /-- An operation may fail so. -/
  Allowed : Fault → Prop
  /-- The value may be handled when the store is this one. -/
  Good : Store → Value → Prop
  GoodCall : Store → CallId → Prop
  GoodEnv : Store → EnvId → Prop
  /-- The call is the one of the key. -/
  Called : Store → CallId → CallKey → Prop
  /-- The call may be made as far as preconditions go. -/
  Ready : Store → CallKey → Prop
  /-- The clazz may be that of an instance or a call, or a field that is written. -/
  Known : ClazzId → Prop
  /-- A call may have so many arguments. -/
  GoodArity : Nat → Prop
  /-- The call may be marked when its code has been walked. -/
  Walked : CallId → Prop := fun _ => True
  /-- An instance may be in the context. -/
  GoodContext : Option ClazzId → Prop := fun context => ∀ c, context = some c → Known c
  leads_refl : ∀ s, Leads s s
  leads_trans : ∀ {s t u}, Leads s t → Leads t u → Leads s u
  good_mono : ∀ {s t v}, Leads s t → Good s v → Good t v
  goodCall_mono : ∀ {s t id}, Leads s t → GoodCall s id → GoodCall t id
  goodEnv_mono : ∀ {s t id}, Leads s t → GoodEnv s id → GoodEnv t id
  called_mono : ∀ {s t id key}, Leads s t → Called s id key → Called t id key

namespace StoreTerms

variable (D : StoreTerms)

/-- The regime of operations on a store: they find stores for which the invariant holds, and leave
such stores. They do not make calls, which are made on behalf of others only. -/
def regime : Regime Fault Store where
  Alike s t := s = t ∧ D.Inv s
  Leads s t := D.Leads s t ∧ t.calls.size = s.calls.size
  Allowed := D.Allowed
  leads_refl s := ⟨D.leads_refl s, rfl⟩
  leads_trans h h' := ⟨D.leads_trans h.1 h'.1, h'.2.trans h.2⟩

/-- The operation keeps to the terms. -/
abbrev Safe {α : Type} (post : α → Store → Prop) (step : Updating α) (s : Store) : Prop :=
  D.regime.Safe post step step s s

/-- The second store may follow the first one. -/
structure Kept (s t : Store) : Prop where
  inv : D.Inv t
  leads : D.Leads s t

/-- What a join over no values yet, or over good ones, can be. -/
def Loose (s : Store) (v : Value) : Prop := v = .noValue ∨ D.Good s v

/-- Nothing, or a good value. -/
def GoodResult (s : Store) (r : Option Value) : Prop := ∀ v, r = some v → D.Good s v

/-- The key is one with which a call may be made. -/
structure GoodKey (view : View) (s : Store) (key : CallKey) : Prop where
  known : D.Known key.clazz
  target : D.Good s key.target
  args : ∀ v ∈ key.args, D.Good s v
  arity : D.GoodArity key.args.length
  env : ∀ id, key.env = some id → D.GoodEnv s id
  /-- Only the precondition of a clazz that has one is called, or one that is missing may be met. -/
  checked : key.pre = true → view.hasPrecondition key.clazz = true ∨
    D.Allowed (.walk (.missingPrecondition key.clazz))

/-- Calls of the body of the clazz may be made as far as preconditions go. -/
def Opens (clazz : ClazzId) : Prop := ∀ s key, key.clazz = clazz → D.Ready s key

/-- The key is one with which an array may be made. -/
def GoodArrayKey (view : View) (s : Store) : ArrayKey → Prop
  | .alloc id => D.GoodCall s id ∧ view.HasIntrinsic "fuzion.sys.array.alloc"
  | .const site => D.Known site.clazz ∧ (view.instr? site.code site.index).isSome

variable {D} {view : View} {s t : Store}

/-- A value that is `Loose` stays so as the store changes. -/
theorem Loose.mono {v : Value} (h : D.Leads s t) (hv : D.Loose s v) : D.Loose t v :=
  hv.imp_right (D.good_mono h)

/-- A key with which a call may be made is such a key for later stores too. -/
theorem GoodKey.mono {key : CallKey} (h : D.Leads s t) (hk : D.GoodKey view s key) :
    D.GoodKey view t key where
  known := hk.known
  target := D.good_mono h hk.target
  args v hv := D.good_mono h (hk.args v hv)
  arity := hk.arity
  env id hid := D.goodEnv_mono h (hk.env id hid)
  checked := hk.checked

/-- A result that is good stays so as the store changes. -/
theorem GoodResult.mono {r : Option Value} (h : D.Leads s t) (hr : D.GoodResult s r) :
    D.GoodResult t r :=
  fun v hv => D.good_mono h (hr v hv)

end StoreTerms

/-- A fault that depends on the program alone, and that no invariant of the store can exclude. -/
def Fault.isPlain : Fault → Bool
  | unexpectedValue .. | arityMismatch .. | noEffectToReplace _ | missingConstString => true
  | malformedClazz _ problem => problem ≠ .noResultField && problem ≠ .noValue
  | walk (.stackUnderflow ..) | walk (.missingCode _) => true
  | _ => false

/-- Terms that every elementary change of a store keeps to, and that hold of all that is made of
good values. -/
structure StoreDiscipline (view : View) extends StoreTerms where
  /- Values that are made of good ones. -/
  good_join : ∀ {s v w}, Good s v → Good s w → Good s (v.join w)
  good_atom : ∀ {s v a}, Good s v → a ∈ v.atoms → Good s a
  /-- A join over the atoms of a good value is good, even if there are none. -/
  good_of_atoms_eq_nil : ∀ {s v}, Good s v → v.atoms = [] → Good s .noValue
  good_of_boxed : ∀ {s v valueClazz refClazz}, Good s (.boxed v valueClazz refClazz) → Good s v
  good_of_tagged : ∀ {s v choice tag}, Good s (.tagged v choice tag) → Good s v
  good_boxed : ∀ {s v valueClazz refClazz}, Good s v → v.isAbsent = false →
    view.Boxes valueClazz refClazz → Good s (.boxed v valueClazz refClazz)
  good_tagged : ∀ {s v choice}, Good s v → view.Tags choice → ∀ tag, Good s (.tagged v choice tag)
  good_undefined : ∀ s, Good s .undefined
  good_unit : ∀ s, Good s .unit
  good_bool : ∀ s truth, Good s (.bool truth)
  good_any : ∀ {clazz kind}, (view.info clazz).special = some (.numeric kind) →
    ∀ s, Good s (.number (.any clazz kind))
  good_constant : ∀ {clazz kind}, (view.info clazz).special = some (.numeric kind) →
    ∀ data s, Good s (.number ⟨clazz, kind, kind.decode data⟩)
  /-- The number of bytes of a constant string. -/
  good_count : ∀ {layout : ConstStringLayout} {lengthType kind} {site : Site} {clazz data},
    view.stringLayout? = some layout → (view.info layout.length).result = some lengthType →
    (view.info lengthType).special = some (.numeric kind) →
    view.instr? site.code site.index = some (.const clazz data) →
    (view.info clazz).special = some .constString →
    ∀ s, Good s (.number ⟨lengthType, kind, some (UInt64.ofNat data.length)⟩)
  /- The program. -/
  known_reference : ∀ {code index instr c}, view.instr? code index = some instr →
    .clazz c ∈ instr.references → Known c
  known_layout : ∀ {layout}, view.stringLayout? = some layout → ∀ c ∈ layout.clazzes, Known c
  known_mentioned : ∀ {clazz c}, Known clazz → .clazz c ∈ (view.info clazz).references → Known c
  goodArity : ∀ access, GoodArity (view.arity access)
  goodArity_zero : GoodArity 0
  ready : ∀ {s key}, s.MayEnter view key → Ready s key
  allowed_noResultField : ∀ {clazz result}, (view.info clazz).kind = .routine →
    (view.info clazz).result = some result → view.isUnit result = false → result ≠ clazz →
    view.resultField? clazz = none → Allowed (.malformedClazz (view.name clazz) .noResultField)
  allowed_missingInstruction : ∀ {code index}, view.instr? code index = none →
    index < view.codeLength code → Allowed (.walk (.missingInstruction code index))
  nests_or_allowed : (∀ code, view.NestsWithin view.nestingLimit code) ∨
    ∀ code, Allowed (.walk (.endlessNesting code))
  /- What is in a store. -/
  good_object : ∀ {s id key}, Inv s → s.instances.key? id = some key → Good s (.object id)
  good_array : ∀ {s id key}, Inv s → s.arrays.key? id = some key → Good s (.array id)
  goodEnv_of_key : ∀ {s id key}, Inv s → s.envs.key? id = some key → GoodEnv s id
  goodCall_of_key : ∀ {s id key}, Inv s → s.calls.key? id = some key → GoodCall s id
  called_of_key : ∀ {s id key}, Inv s → s.calls.key? id = some key → Called s id key
  goodContext_none : GoodContext none
  goodContext_of_key : ∀ {s id key}, Inv s → s.instances.key? id = some key →
    GoodContext key.context
  known_field : ∀ {s id fields field v}, Inv s → s.instances.state? id = some fields →
    (field, v) ∈ fields.entries → Known field
  good_field : ∀ {s id fields field v}, Inv s → s.instances.state? id = some fields →
    (field, v) ∈ fields.entries → Good s v
  loose_elements : ∀ {s id v}, Inv s → s.arrays.state? id = some v → toStoreTerms.Loose s v
  good_binding : ∀ {s id v}, Inv s → s.envs.state? id = some v → Good s v
  goodEnv_outer : ∀ {s id key outer}, Inv s → s.envs.key? id = some key →
    key.outer = some outer → GoodEnv s outer
  good_default : ∀ {s effect v}, Inv s → s.defaults.find? effect = some v → Good s v
  goodKey : ∀ {s id key}, Inv s → s.calls.key? id = some key → toStoreTerms.GoodKey view s key
  good_frame : ∀ {s id state}, Inv s → s.calls.state? id = some state →
    Good s (.object state.frame)
  /- How operations may fail. -/
  allowed_of_isPlain : ∀ {fault}, fault.isPlain = true → Allowed fault
  allowed_unknownInstance : ∀ {s id}, Inv s → Good s (.object id) →
    s.instances.get? id = none → Allowed (.unknownInstance id)
  allowed_unknownArray : ∀ {s id}, Inv s → Good s (.array id) →
    s.arrays.get? id = none → Allowed (.unknownArray id)
  allowed_unknownEnv : ∀ {s id}, Inv s → GoodEnv s id →
    s.envs.get? id = none → Allowed (.unknownEnv id)
  allowed_unknownCall : ∀ {s id}, Inv s → GoodCall s id →
    s.calls.get? id = none → Allowed (.unknownCall id)
  /- The elementary changes. -/
  kept_addInstance : ∀ {s key}, Inv s → s.instances.idOf? key = none → Known key.clazz →
    GoodContext key.context → toStoreTerms.Kept s (s.addInstance key)
  kept_putField : ∀ {s id field fields value}, Inv s → s.instances.state? id = some fields →
    fields.find? field ≠ some (.joinedTo (fields.find? field) value) → Good s (.object id) →
    Known field → Good s value →
    toStoreTerms.Kept s (s.putField id field fields (.joinedTo (fields.find? field) value) value)
  kept_addArray : ∀ {s key}, Inv s → s.arrays.idOf? key = none →
    toStoreTerms.GoodArrayKey view s key → toStoreTerms.Kept s (s.addArray key)
  kept_putElements : ∀ {s id elements value}, Inv s → s.arrays.state? id = some elements →
    elements.join value ≠ elements → Good s (.array id) → Good s value →
    toStoreTerms.Kept s (s.putElements id (elements.join value) value)
  kept_addBinding : ∀ {s key}, Inv s → s.envs.idOf? key = none →
    view.HasIntrinsic "effect.abortable" → (∀ outer, key.outer = some outer → GoodEnv s outer) →
    Good s key.initial →
    toStoreTerms.Kept s (s.addBinding key)
  kept_putBinding : ∀ {s id effect current value}, Inv s → s.envs.state? id = some current →
    current.join value ≠ current → Good s value →
    toStoreTerms.Kept s (s.putBinding id effect (current.join value))
  kept_putDefault : ∀ {s effect value}, Inv s →
    s.defaults.find? effect ≠ some (.joinedTo (s.defaults.find? effect) value) → Known effect →
    Good s value →
    toStoreTerms.Kept s (s.putDefault effect (.joinedTo (s.defaults.find? effect) value))
  kept_addCall : ∀ {s key frame context origin}, Inv s → s.calls.idOf? key = none →
    toStoreTerms.GoodKey view s key → s.instances.key? frame = some ⟨key.clazz, context⟩ →
    (∀ id, origin = some id → GoodCall s id) → toStoreTerms.Kept s (s.addCall key frame origin)
  kept_putReturns : ∀ {s id state key}, Inv s → s.calls.state? id = some state →
    state.returns = false → GoodCall s id → Called s id key → view.MayReturn key →
    (view.HasWalk key → Walked id) → toStoreTerms.Kept s (s.putReturns id state)

namespace StoreTerms

variable {D : StoreTerms} {α : Type} {post : α → Store → Prop} {s t : Store}

/-- An operation that succeeds is `Safe` if the store it leaves is `Kept` and has no call more. -/
theorem safe_of_outcome_ok {step : Updating α} {x : α} (run : step.outcome s = (.ok x, t))
    (hk : D.Kept s t) (calls : t.calls.size = s.calls.size) (hp : post x t) : D.Safe post step s :=
  .ok run run ⟨rfl, hk.inv⟩ ⟨hk.leads, calls⟩ hp

/-- An operation that succeeds without a change is `Safe` if the invariant holds of the store. -/
theorem safe_of_outcome_ok_self {step : Updating α} {x : α} (run : step.outcome s = (.ok x, s))
    (hi : D.Inv s) (hp : post x s) : D.Safe post step s :=
  .ok run run ⟨rfl, hi⟩ (D.regime.leads_refl s) hp

/-- An operation that fails at once is `Safe` if it may fail so. -/
theorem safe_of_outcome_error {step : Updating α} {e : Fault}
    (run : step.outcome s = (.error e, s)) (hi : D.Inv s) (he : D.Allowed e) : D.Safe post step s :=
  .error run run ⟨rfl, hi⟩ (D.regime.leads_refl s) he

/-- A store follows itself. -/
theorem kept_refl (hi : D.Inv s) : D.Kept s s := ⟨hi, D.leads_refl s⟩

/-- Giving an answer is `Safe` where the answer is as it should be. -/
theorem safe_return {x : α} (hi : D.Inv s) (hp : post x s) : D.Safe post (pure x) s :=
  .pure ⟨rfl, hi⟩ hp

/-- Failing with a fault that is `Allowed` is `Safe`. -/
theorem safe_throw {e : Fault} (hi : D.Inv s) (he : D.Allowed e) : D.Safe post (throw e) s :=
  .throw ⟨rfl, hi⟩ he

/-- An operation after the other is `Safe` if the second one is in every store that the first one
may leave. -/
theorem safe_bind {β : Type} {mid : α → Store → Prop} {post : β → Store → Prop}
    {step : Updating α} {next : α → Updating β} (hs : D.Safe mid step s)
    (hn : ∀ x t, D.Inv t → D.Leads s t → mid x t → D.Safe post (next x) t) :
    D.Safe post (step >>= next) s := by
  refine hs.bind ?_
  rintro x t _ ⟨rfl, hi⟩ leads mid
  exact hn x t hi leads.1 mid

/-- What is read off a store may be used by an operation that is `Safe` for all that can be read. -/
theorem safe_lift_bind {β : Type} {r : Except Fault β} {wanted : β → Prop}
    {next : β → Updating α} (hi : D.Inv s) (hr : Gives D.Allowed wanted r)
    (hn : ∀ x, wanted x → D.Safe post (next x) s) : D.Safe post (liftM r >>= next) s :=
  .lift_bind ⟨rfl, hi⟩ hr hn

/-- An operation that looks at the store first is `Safe` if it is for the store it finds. -/
theorem safe_get_bind {next : Store → Updating α} (h : D.Safe post (next s) s) :
    D.Safe post (get >>= next) s := by
  cases h with
  | ok run _ alike leads holds =>
    have bound := Attempt.outcome_bind get next s
    exact .ok (bound.trans run) (bound.trans run) ⟨rfl, alike.2⟩ leads holds
  | error run _ alike leads allowed =>
    have bound := Attempt.outcome_bind get next s
    exact .error (bound.trans run) (bound.trans run) ⟨rfl, alike.2⟩ leads allowed

end StoreTerms

namespace StoreDiscipline

variable {view : View} (D : StoreDiscipline view) {s : Store}

/-! ### Preconditions -/

/-- A dynamic call opens the clazzes that it selects, as it checks no precondition of theirs first.
-/
theorem opens_of_selected {access : Access} (calls : view.Calls access)
    (dynamic : access.dynamic = true) {t : ClazzId × ClazzId} (target : t ∈ access.targets) :
    D.Opens t.2 := by
  rintro s key same
  have listed : (t.1, key.clazz) ∈ access.targets := by
    rw [same]
    exact target
  exact D.ready (.selected calls dynamic listed)

/-! ### Lookups -/

/-- The key of a good instance is there, or the fault is one that is `Allowed`. -/
theorem gives_instanceKey (hi : D.Inv s) {id : InstanceId} (ho : D.Good s (.object id)) :
    Gives D.Allowed (fun key => s.instances.key? id = some key) (s.instanceKey id) := by
  obtain ⟨key, held, found⟩ | ⟨unknown, failed⟩ := s.instanceKey_cases id
  · rw [found]
    exact .ok held
  · rw [failed]
    exact .error (D.allowed_unknownInstance hi ho (Interned.get?_eq_none_of_key? unknown))

/-- The fields of a good instance are there, or the fault is one that is `Allowed`. -/
theorem gives_fields (hi : D.Inv s) {id : InstanceId} (ho : D.Good s (.object id)) :
    Gives D.Allowed (fun fields => s.instances.state? id = some fields) (s.fields id) := by
  obtain ⟨fields, held, found⟩ | ⟨unknown, failed⟩ := s.fields_cases id
  · rw [found]
    exact .ok held
  · rw [failed]
    exact .error (D.allowed_unknownInstance hi ho (Interned.get?_eq_none_of_state? unknown))

/-- The elements of a good array are there, or the fault is one that is `Allowed`. -/
theorem gives_elements (hi : D.Inv s) {id : ArrayId} (ha : D.Good s (.array id)) :
    Gives D.Allowed (fun elements => s.arrays.state? id = some elements) (s.elements id) := by
  obtain ⟨elements, held, found⟩ | ⟨unknown, failed⟩ := s.elements_cases id
  · rw [found]
    exact .ok held
  · rw [failed]
    exact .error (D.allowed_unknownArray hi ha (Interned.get?_eq_none_of_state? unknown))

/-- The key of a good node is there, or the fault is one that is `Allowed`. -/
theorem gives_envKey (hi : D.Inv s) {id : EnvId} (he : D.GoodEnv s id) :
    Gives D.Allowed (fun key => s.envs.key? id = some key) (s.envKey id) := by
  obtain ⟨key, held, found⟩ | ⟨unknown, failed⟩ := s.envKey_cases id
  · rw [found]
    exact .ok held
  · rw [failed]
    exact .error (D.allowed_unknownEnv hi he (Interned.get?_eq_none_of_key? unknown))

/-- The key of a good call is there, or the fault is one that is `Allowed`. -/
theorem gives_callKey (hi : D.Inv s) {id : CallId} (hc : D.GoodCall s id) :
    Gives D.Allowed (fun key => s.calls.key? id = some key) (s.callKey id) := by
  obtain ⟨key, held, found⟩ | ⟨unknown, failed⟩ := s.callKey_cases id
  · rw [found]
    exact .ok held
  · rw [failed]
    exact .error (D.allowed_unknownCall hi hc (Interned.get?_eq_none_of_key? unknown))

/-- The state of a good call is there, or the fault is one that is `Allowed`. -/
theorem gives_callState (hi : D.Inv s) {id : CallId} (hc : D.GoodCall s id) :
    Gives D.Allowed (fun state => s.calls.state? id = some state) (s.callState id) := by
  obtain ⟨state, held, found⟩ | ⟨unknown, failed⟩ := s.callState_cases id
  · rw [found]
    exact .ok held
  · rw [failed]
    exact .error (D.allowed_unknownCall hi hc (Interned.get?_eq_none_of_state? unknown))

/-! ### Operations on one entry -/

/-- Interning an instance of a known clazz in a good context keeps to the discipline. -/
theorem kept_internInstance (hi : D.Inv s) {clazz : ClazzId} (hk : D.Known clazz)
    {context : Option ClazzId} (hc : D.GoodContext context) :
    D.Kept s ((Store.internInstance clazz context).run s).2 := by
  obtain ⟨id, -, run⟩ | ⟨new, run⟩ := s.internInstance_cases clazz context
  · rw [run]
    exact StoreTerms.kept_refl hi
  · rw [run]
    exact D.kept_addInstance hi new hk hc

/-- Interning an instance of a known clazz is `Safe` and answers a good instance with its key. -/
theorem safe_internInstance (hi : D.Inv s) {clazz : ClazzId} (hk : D.Known clazz)
    {context : Option ClazzId} (hc : D.GoodContext context) :
    D.Safe (fun id t => t.instances.key? id = some ⟨clazz, context⟩ ∧ D.Good t (.object id))
      (liftM (Store.internInstance clazz context)) s := by
  have kept := D.kept_internInstance hi hk hc
  have found := s.key?_internInstance clazz context
  have calls := s.calls_internInstance clazz context
  exact StoreTerms.safe_of_outcome_ok (Attempt.outcome_growing ..) kept (by rw [calls])
    ⟨found, D.good_object kept.inv found⟩

/-- Writing a good value to a known field of a good instance is `Safe`. -/
theorem safe_joinField (hi : D.Inv s) {id : InstanceId} (ho : D.Good s (.object id))
    {field : ClazzId} (hf : D.Known field) {value : Value} (hv : D.Good s value) :
    D.Safe (fun _ _ => True) (Store.joinField id field value) s := by
  obtain ⟨unknown, outcome⟩ | ⟨fields, held, ⟨-, outcome⟩ | ⟨grown, outcome⟩⟩ :=
    s.joinField_cases id field value
  · have absent := Interned.get?_eq_none_of_state? unknown
    exact StoreTerms.safe_of_outcome_error outcome hi (D.allowed_unknownInstance hi ho absent)
  · exact StoreTerms.safe_of_outcome_ok_self outcome hi trivial
  · exact StoreTerms.safe_of_outcome_ok outcome (D.kept_putField hi held grown ho hf hv) rfl trivial

/-- Interning an array with a good key is `Safe` and answers a good array. -/
theorem safe_internArray (hi : D.Inv s) {key : ArrayKey} (hk : D.GoodArrayKey view s key) :
    D.Safe (fun id t => D.Good t (.array id)) (liftM (Store.internArray key)) s := by
  have outcome := Attempt.outcome_growing (ε := Fault) (Store.internArray key) s
  obtain ⟨id, known, run⟩ | ⟨new, run⟩ := s.internArray_cases key
  · have found := Interned.key?_of_idOf? known
    rw [run] at outcome
    exact StoreTerms.safe_of_outcome_ok_self outcome hi (D.good_array hi found)
  · have kept := D.kept_addArray hi new hk
    have found : (s.addArray key).arrays.key? s.arrays.nextId = some key :=
      Interned.key?_push_nextId ..
    rw [run] at outcome
    exact StoreTerms.safe_of_outcome_ok outcome kept rfl (D.good_array kept.inv found)

/-- Writing a good value to a good array is `Safe`. -/
theorem safe_arraySet (hi : D.Inv s) {id : ArrayId} (ha : D.Good s (.array id)) {value : Value}
    (hv : D.Good s value) : D.Safe (fun _ _ => True) (Store.arraySet id value) s := by
  obtain ⟨unknown, outcome⟩ | ⟨elements, held, ⟨-, outcome⟩ | ⟨grown, outcome⟩⟩ :=
    s.arraySet_cases id value
  · have absent := Interned.get?_eq_none_of_state? unknown
    exact StoreTerms.safe_of_outcome_error outcome hi (D.allowed_unknownArray hi ha absent)
  · exact StoreTerms.safe_of_outcome_ok_self outcome hi trivial
  · exact StoreTerms.safe_of_outcome_ok outcome (D.kept_putElements hi held grown ha hv) rfl trivial

/-- Extending a good environment is `Safe` in programs with the intrinsic that does so, and answers
a good node with its key. -/
theorem safe_extendEnv (hi : D.Inv s) (installs : view.HasIntrinsic "effect.abortable")
    {outer : Option EnvId} (ho : ∀ id, outer = some id → D.GoodEnv s id) (effect : ClazzId)
    {value : Value}
    (hv : D.Good s value) :
    D.Safe (fun id t => t.envs.key? id = some ⟨outer, effect, value⟩ ∧ D.GoodEnv t id)
      (liftM (Store.extendEnv outer effect value)) s := by
  have outcome := Attempt.outcome_growing (ε := Fault) (Store.extendEnv outer effect value) s
  obtain ⟨id, known, run⟩ | ⟨new, run⟩ := s.extendEnv_cases outer effect value
  · have found := Interned.key?_of_idOf? known
    rw [run] at outcome
    exact StoreTerms.safe_of_outcome_ok_self outcome hi
      ⟨found, D.goodEnv_of_key hi found⟩
  · have kept := D.kept_addBinding hi new installs ho hv
    have found : (s.addBinding ⟨outer, effect, value⟩).envs.key? s.envs.nextId =
        some ⟨outer, effect, value⟩ := Interned.key?_push_nextId ..
    rw [run] at outcome
    exact StoreTerms.safe_of_outcome_ok outcome kept rfl ⟨found, D.goodEnv_of_key kept.inv found⟩

/-- Installing a good value as a default of a known effect keeps to the discipline. -/
theorem kept_installDefault (hi : D.Inv s) {effect : ClazzId} (hk : D.Known effect) {value : Value}
    (hv : D.Good s value) : D.Kept s ((Store.installDefault effect value).run s).2 := by
  obtain ⟨-, run⟩ | ⟨grown, run⟩ := s.installDefault_cases effect value
  · rw [run]
    exact StoreTerms.kept_refl hi
  · rw [run]
    exact D.kept_putDefault hi grown hk hv

/-- Installing a good value as a default of a known effect is `Safe`. -/
theorem safe_installDefault (hi : D.Inv s) {effect : ClazzId} (hk : D.Known effect) {value : Value}
    (hv : D.Good s value) :
    D.Safe (fun _ _ => True) (liftM (Store.installDefault effect value)) s :=
  StoreTerms.safe_of_outcome_ok (Attempt.outcome_growing ..) (D.kept_installDefault hi hk hv)
    (by rw [Store.calls_installDefault]) trivial

/-- Marking a good call is `Safe` if its key may be marked, and if it has been walked in case that
it has a walk. -/
theorem safe_markReturns (hi : D.Inv s) {id : CallId} (hc : D.GoodCall s id) {key : CallKey}
    (called : D.Called s id key) (marks : view.MayReturn key)
    (walked : view.HasWalk key → D.Walked id) :
    D.Safe (fun _ _ => True) (Store.markReturns id) s := by
  obtain ⟨unknown, outcome⟩ | ⟨state, held, ⟨-, outcome⟩ | ⟨unmarked, outcome⟩⟩ :=
    s.markReturns_cases id
  · have absent := Interned.get?_eq_none_of_state? unknown
    exact StoreTerms.safe_of_outcome_error outcome hi (D.allowed_unknownCall hi hc absent)
  · exact StoreTerms.safe_of_outcome_ok_self outcome hi trivial
  · exact StoreTerms.safe_of_outcome_ok outcome
      (D.kept_putReturns hi held unmarked hc called marks walked) (Interned.size_set ..) trivial

/-- Interning a call with a good key keeps to the discipline, whether it is there or is made. -/
theorem kept_internCall (hi : D.Inv s) {key : CallKey} (hk : D.GoodKey view s key)
    {context : Option ClazzId} (hc : D.GoodContext context) {origin : Option CallId}
    (ho : ∀ id, origin = some id → D.GoodCall s id) :
    D.Kept s ((Store.internCall key context origin).run s).2 := by
  obtain ⟨id, -, run⟩ | ⟨new, run⟩ := s.internCall_cases key context origin
  · rw [run]
    exact StoreTerms.kept_refl hi
  · rw [run]
    have framed := D.kept_internInstance hi hk.known hc
    have frame := s.key?_internInstance key.clazz context
    rw [← s.calls_internInstance key.clazz context] at new
    have kept := D.kept_addCall framed.inv new (hk.mono framed.leads) frame
      fun id hid => D.goodCall_mono framed.leads (ho id hid)
    exact ⟨kept.inv, D.leads_trans framed.leads kept.leads⟩

/-! ### Fields -/

mutual

/-- Writing a good value to a known field of whatever a good target may be is `Safe`. The recursion
is that of `setField`. -/
theorem safe_setField {field : ClazzId} (hk : D.Known field) : (target : Value) →
    ∀ {s : Store} {value : Value}, D.Inv s → D.Good s value → D.Good s target →
    D.Safe (fun _ _ => True) (Store.setField field value target) s
  | .set atoms, s, value, hi, hv, ht => by
    unfold Store.setField
    exact safe_setFieldOfAtoms hk atoms hi hv fun a ha => D.good_atom ht ha
  | .object id, s, value, hi, hv, ht => by
    unfold Store.setField
    exact D.safe_joinField hi ht hk hv
  | .boxed content _ _, s, value, hi, hv, ht => by
    unfold Store.setField
    exact safe_setField hk content hi hv (D.good_of_boxed ht)
  | .noValue, s, value, hi, _, _ => StoreTerms.safe_return hi trivial
  | .undefined, s, value, hi, _, _ => StoreTerms.safe_return hi trivial
  | .unit, s, value, hi, _, _ | .bool _, s, value, hi, _, _ | .number _, s, value, hi, _, _
  | .tagged .., s, value, hi, _, _ | .array _, s, value, hi, _, _ =>
    StoreTerms.safe_throw hi (D.allowed_of_isPlain rfl)

/-- The part of `safe_setField` for the atoms of a target. -/
theorem safe_setFieldOfAtoms {field : ClazzId} (hk : D.Known field) : (atoms : List Value) →
    ∀ {s : Store} {value : Value}, D.Inv s → D.Good s value → (∀ a ∈ atoms, D.Good s a) →
    D.Safe (fun _ _ => True) (Store.setFieldOfAtoms field value atoms) s
  | [], s, value, hi, _, _ => StoreTerms.safe_return hi trivial
  | atom :: rest, s, value, hi, hv, ha => by
    obtain ⟨good, goodRest⟩ := List.forall_mem_cons.1 ha
    unfold Store.setFieldOfAtoms
    split
    · rename_i h
      cases h
    · exact StoreTerms.safe_throw hi (D.allowed_of_isPlain rfl)
    · rename_i h
      cases h
      apply StoreTerms.safe_bind (safe_setField hk atom hi hv good)
      intro _ t hi' leads _
      exact safe_setFieldOfAtoms hk rest hi' (D.good_mono leads hv)
        fun a ha => D.good_mono leads (goodRest a ha)

end

/-- The join of two values that are `Loose` is `Loose`. -/
theorem loose_join {v w : Value} (hv : D.Loose s v) (hw : D.Loose s w) :
    D.Loose s (v.join w) := by
  rcases hv with rfl | hv
  · rw [Value.noValue_join]
    exact hw
  · rcases hw with rfl | hw
    · rw [Value.join_noValue]
      exact .inr hv
    · exact .inr (D.good_join hv hw)

mutual

/-- Reading a field of a good target gives a value that is `Loose`: it is good unless the target has
no atoms. -/
theorem gives_readField (hi : D.Inv s) (field : ClazzId) : (target : Value) → D.Good s target →
    Gives D.Allowed (D.Loose s) (s.readField field target)
  | .set atoms, ht => by
    unfold Store.readField
    exact gives_readFieldOfAtoms hi field atoms (fun a ha => D.good_atom ht ha) (.inl rfl)
  | .object id, ht => by
    unfold Store.readField
    refine (D.gives_fields hi ht).bind fun fields _ held => .ok (.inr ?_)
    cases written : fields.find? field with
    | none => exact D.good_undefined s
    | some v => exact D.good_field hi held (OrderedMap.mem_entries_of_find? written)
  | .boxed content _ _, ht => by
    unfold Store.readField
    exact gives_readField hi field content (D.good_of_boxed ht)
  | .noValue, _ => .ok (.inl rfl)
  | .undefined, _ => .ok (.inr (D.good_undefined s))
  | .unit, _ | .bool _, _ | .number _, _ | .tagged .., _ | .array _, _ =>
    .error (D.allowed_of_isPlain rfl)

/-- The part of `gives_readField` for the atoms of a target. -/
theorem gives_readFieldOfAtoms (hi : D.Inv s) (field : ClazzId) : (atoms : List Value) →
    (∀ a ∈ atoms, D.Good s a) → ∀ {sofar : Value}, D.Loose s sofar →
    Gives D.Allowed (D.Loose s) (s.readFieldOfAtoms field sofar atoms)
  | [], _, sofar, hs => .ok hs
  | atom :: rest, ha, sofar, hs => by
    obtain ⟨good, goodRest⟩ := List.forall_mem_cons.1 ha
    unfold Store.readFieldOfAtoms
    split
    · rename_i h
      cases h
    · exact .error (D.allowed_of_isPlain rfl)
    · rename_i h
      cases h
      apply (gives_readField hi field atom good).bind
      intro v _ hv
      exact gives_readFieldOfAtoms hi field rest goodRest (D.loose_join hs hv)

end

/-- Copying good entries into a good instance is `Safe`. -/
theorem safe_joinFields {id : InstanceId} {fields : List (ClazzId × Value)} (hi : D.Inv s)
    (ho : D.Good s (.object id)) (hf : ∀ e ∈ fields, D.Known e.1 ∧ D.Good s e.2) :
    D.Safe (fun _ _ => True) (Store.joinFields id fields) s := by
  induction fields generalizing s with
  | nil => exact StoreTerms.safe_return hi trivial
  | cons e rest ih =>
    obtain ⟨⟨known, good⟩, goodRest⟩ := List.forall_mem_cons.1 hf
    unfold Store.joinFields
    apply StoreTerms.safe_bind (D.safe_joinField hi ho known good)
    intro _ t hi' leads _
    exact ih hi' (D.good_mono leads ho) fun e he =>
      ⟨(goodRest e he).1, D.good_mono leads (goodRest e he).2⟩

/-- Passing good arguments to a good frame is `Safe`. -/
theorem safe_passArguments {frame : Value} {args : List (ClazzId × Value)} (hi : D.Inv s)
    (hf : D.Good s frame) (ha : ∀ e ∈ args, D.Known e.1 ∧ D.Good s e.2) :
    D.Safe (fun _ _ => True) (Analyzer.passArguments frame args) s := by
  induction args generalizing s with
  | nil => exact StoreTerms.safe_return hi trivial
  | cons e rest ih =>
    obtain ⟨⟨known, good⟩, goodRest⟩ := List.forall_mem_cons.1 ha
    unfold Analyzer.passArguments
    apply StoreTerms.safe_bind (D.safe_setField known frame hi good hf)
    intro _ t hi' leads _
    exact ih hi' (D.good_mono leads hf) fun e he =>
      ⟨(goodRest e he).1, D.good_mono leads (goodRest e he).2⟩

/-! ### Boxes -/

/-- Boxing a good instance is `Safe` and answers a good instance. -/
theorem safe_boxInstance (hi : D.Inv s) {id : InstanceId} (ho : D.Good s (.object id))
    {refClazz : ClazzId} (hk : D.Known refClazz) :
    D.Safe (fun boxed t => D.Good t (.object boxed)) (Store.boxInstance id refClazz) s := by
  unfold Store.boxInstance
  refine StoreTerms.safe_get_bind ?_
  apply StoreTerms.safe_lift_bind hi (D.gives_instanceKey hi ho)
  intro key keyed
  refine StoreTerms.safe_bind (D.safe_internInstance hi hk (D.goodContext_of_key hi keyed)) ?_
  rintro boxed t hi leads ⟨-, good⟩
  refine StoreTerms.safe_get_bind ?_
  apply StoreTerms.safe_lift_bind hi (D.gives_fields hi (D.good_mono leads ho))
  intro fields held
  have goodFields : ∀ e ∈ fields.entries, D.Known e.1 ∧ D.Good t e.2 := fun e he =>
    ⟨D.known_field hi held he, D.good_field hi held he⟩
  apply StoreTerms.safe_bind (D.safe_joinFields hi good goodFields)
  intro _ u hi leads _
  exact StoreTerms.safe_return hi (D.good_mono leads good)

/-- Boxing a good atom is `Safe` and answers a good value. -/
theorem safe_boxAtom (hi : D.Inv s) {valueClazz refClazz : ClazzId}
    (hb : view.Boxes valueClazz refClazz) (hk : D.Known refClazz) {atom : Value} (ha : D.Good s atom) :
    D.Safe (fun boxed t => D.Good t boxed) (boxAtom valueClazz refClazz atom) s := by
  cases atom with
  | object id =>
    unfold boxAtom
    apply StoreTerms.safe_bind (D.safe_boxInstance hi ha hk)
    intro boxed t hi _ good
    exact StoreTerms.safe_return hi good
  | noValue => exact StoreTerms.safe_return hi ha
  | undefined => exact StoreTerms.safe_return hi ha
  | _ => exact StoreTerms.safe_return hi (D.good_boxed ha rfl hb)

/-- Boxing good atoms one after the other is `Safe` and answers a good value, which is joined to
what there is so far. -/
theorem safe_boxAtoms {valueClazz refClazz : ClazzId} (hb : view.Boxes valueClazz refClazz)
    (hk : D.Known refClazz) {atoms : List Value} (hi : D.Inv s) {sofar : Value} (hs : D.Good s sofar)
    (ha : ∀ a ∈ atoms, D.Good s a) :
    D.Safe (fun boxed t => D.Good t boxed) (boxAtoms valueClazz refClazz sofar atoms) s := by
  induction atoms generalizing s sofar with
  | nil => exact StoreTerms.safe_return hi hs
  | cons atom rest ih =>
    obtain ⟨good, goodRest⟩ := List.forall_mem_cons.1 ha
    unfold boxAtoms
    apply StoreTerms.safe_bind (D.safe_boxAtom hi hb hk good)
    intro boxed t hi leads goodBoxed
    exact ih hi (D.good_join (D.good_mono leads hs) goodBoxed)
      fun a ha => D.good_mono leads (goodRest a ha)

/-- Boxing a good value is `Safe` and answers a good value. -/
theorem safe_boxValue (hi : D.Inv s) {v : Value} (hv : D.Good s v)
    {valueClazz refClazz : ClazzId} (hb : view.Boxes valueClazz refClazz) (hk : D.Known refClazz) :
    D.Safe (fun boxed t => D.Good t boxed) (boxValue v valueClazz refClazz) s := by
  unfold boxValue
  have goodAtoms : ∀ a ∈ v.atoms, D.Good s a := fun a ha => D.good_atom hv ha
  cases atoms : v.atoms with
  | nil => exact StoreTerms.safe_return hi (D.good_of_atoms_eq_nil hv atoms)
  | cons atom rest =>
    rw [atoms] at goodAtoms
    obtain ⟨good, goodRest⟩ := List.forall_mem_cons.1 goodAtoms
    unfold boxAtoms
    apply StoreTerms.safe_bind (D.safe_boxAtom hi hb hk good)
    intro boxed t hi leads goodBoxed
    rw [Value.noValue_join]
    exact D.safe_boxAtoms hb hk hi goodBoxed fun a ha => D.good_mono leads (goodRest a ha)

/-! ### Effects -/

/-- A search from a good environment ends without a node, or at one that is in the table, or with a
fault that is `Allowed`. -/
theorem gives_findWithin (hi : D.Inv s) (effect : ClazzId) (steps : Nat) {env : Option EnvId}
    (he : ∀ id, env = some id → D.GoodEnv s id) :
    Gives D.Allowed (fun found => ∀ id, found = some id → ∃ v, s.envs.state? id = some v)
      (s.findWithin effect steps env) := by
  induction steps generalizing env with
  | zero => cases env <;> exact .ok (by rintro _ ⟨⟩)
  | succ steps ih =>
    cases env with
    | none => exact .ok (by rintro _ ⟨⟩)
    | some id =>
      unfold Store.findWithin
      apply (D.gives_envKey hi (he id rfl)).bind
      intro key _ keyed
      split
      · refine .ok ?_
        rintro _ ⟨⟩
        exact Interned.exists_state?_of_key? keyed
      · exact ih fun outer ho => D.goodEnv_outer hi keyed ho

/-- Looking up an effect in a good environment gives nothing or a good value. -/
theorem gives_lookupEffect (hi : D.Inv s) {env : Option EnvId}
    (he : ∀ id, env = some id → D.GoodEnv s id) (effect : ClazzId) :
    Gives D.Allowed (fun r => D.GoodResult s r) (s.lookupEffect env effect) := by
  unfold Store.lookupEffect Store.findBinding
  apply (D.gives_findWithin hi effect _ he).bind
  intro found _ _
  cases found with
  | some id => exact .ok fun v bound => D.good_binding hi bound
  | none => exact .ok fun v default => D.good_default hi default

/-- Replacing a known effect in a good environment by a good value is `Safe`. -/
theorem safe_replaceEffect (hi : D.Inv s) {env : Option EnvId}
    (he : ∀ id, env = some id → D.GoodEnv s id) {effect : ClazzId} (hk : D.Known effect)
    {value : Value} (hv : D.Good s value) :
    D.Safe (fun _ _ => True) (Store.replaceEffect env effect value) s := by
  have search : Gives D.Allowed (fun found => ∀ id, found = some id →
      ∃ v, s.envs.state? id = some v) (s.findBinding env effect) :=
    D.gives_findWithin hi effect _ he
  obtain ⟨e, failed, outcome⟩ | ⟨-, -, outcome⟩ | ⟨-, -, outcome⟩ | ⟨id, found, unknown, outcome⟩ |
      ⟨id, current, -, held, ⟨-, outcome⟩ | ⟨grown, outcome⟩⟩ :=
    s.replaceEffect_cases env effect value
  · rw [failed] at search
    cases search with
    | error allowed => exact StoreTerms.safe_of_outcome_error outcome hi allowed
  · exact StoreTerms.safe_of_outcome_error outcome hi (D.allowed_of_isPlain rfl)
  · exact StoreTerms.safe_of_outcome_ok outcome (D.kept_installDefault hi hk hv)
      (by rw [Store.calls_installDefault]) trivial
  · rw [found] at search
    cases search with
    | ok holds =>
      obtain ⟨v, held⟩ := holds id rfl
      rw [unknown] at held
      cases held
  · exact StoreTerms.safe_of_outcome_ok_self outcome hi trivial
  · exact StoreTerms.safe_of_outcome_ok outcome (D.kept_putBinding hi held grown hv) rfl trivial

/-! ### Arrays -/

/-- Reading a good array gives a good value. -/
theorem gives_arrayGet (hi : D.Inv s) {id : ArrayId} (ha : D.Good s (.array id)) :
    Gives D.Allowed (D.Good s) (s.arrayGet id) := by
  unfold Store.arrayGet
  apply (D.gives_elements hi ha).bind
  intro elements _ held
  have loose := D.loose_elements hi held
  split
  · exact .ok (D.good_undefined s)
  · rename_i there
    exact .ok (loose.resolve_left there)

end StoreDiscipline

end ClosedWorld
