import ClosedWorld.Proofs.Store.Made
import ClosedWorld.Proofs.Value.Showing

/-!
# Values of one store that are mirrored in another

Two analyses of one program number what they discover as they come by it, so an instance, an array
or a node of one store has to be found again in the other one by where it comes from. In a coarse
store there is at most one of each provenance. A value is mirrored by one of the other store if that
shows the same instances and arrays under the same boxes and tags; which booleans and numbers there
are besides does not matter, and neither does whether there are any.

## Main definitions

* `Provenance`, `Store.provenance?`: where instances and arrays come from.
* `Store.IsCoarse`: stores with at most one of each kind.
* `Store.Place`, `Store.At`: what is held where.
* `Store.Mirrors`, `Store.KeyMirrors`: values and calls of two stores.

## Main statements

* `Store.IsCoarse.eq_of_at`: a coarse store holds one value at a place.
* `Store.Mirrors.join_of`: a join is mirrored by what mirrors both of its parts.
-/

namespace ClosedWorld

/-- Where an instance or an array comes from. -/
inductive Provenance where
  /-- An instance of the clazz. -/
  | created (clazz : ClazzId)
  /-- An array that calls of the clazz allocate. -/
  | allocated (clazz : ClazzId)
  /-- The array that backs a constant string. -/
  | constant (site : Site)
  deriving DecidableEq, Repr

namespace Interned

variable {space : Space} {κ α β : Type} {t : Interned space κ α} {i j : Ident space} {k k' : κ}

/-- If `f` tells the keys of a table apart, then entries whose keys it takes to the same are the
same. -/
theorem eq_of_nodup_map {f : κ → β} (h : (t.keys.map f).Nodup) (hi : t.key? i = some k)
    (hj : t.key? j = some k') (same : f k = f k') : i = j := by
  have listed {i : Ident space} {k : κ} (hi : t.key? i = some k) :
      (t.keys.map f)[i.index]? = some (f k) := by
    unfold key? get? at hi
    unfold keys
    rw [List.getElem?_map, List.getElem?_map, hi]
    rfl
  have bound : i.index < (t.keys.map f).length := by
    rw [List.length_map, keys, List.length_map]
    exact index_lt_size_of_key? hi
  refine Ident.eq_of_index_eq i j ((List.getElem?_inj bound h).1 ?_)
  rw [listed hi, listed hj, same]

end Interned

namespace Store

/-! ### Provenance -/

/-- Where the array of the key comes from. -/
def arrayProvenance? (s : Store) : ArrayKey → Option Provenance
  | .alloc call => (s.calls.key? call).map fun key => .allocated key.clazz
  | .const site => some (.constant site)

/-- Where an instance or an array comes from, if the store knows it. -/
def provenance? (s : Store) : Item → Option Provenance
  | .object id => (s.instances.key? id).map fun key => .created key.clazz
  | .array id => (s.arrays.key? id).bind s.arrayProvenance?

/-- No two instances are of one clazz, no two arrays have one provenance, and no two nodes bind one
effect. -/
structure IsCoarse (s : Store) : Prop where
  instances : (s.instances.keys.map InstanceKey.clazz).Nodup
  arrays : (s.arrays.keys.map s.arrayProvenance?).Nodup
  envs : (s.envs.keys.map EnvKey.effect).Nodup

instance (s : Store) : Decidable s.IsCoarse :=
  decidable_of_iff ((s.instances.keys.map InstanceKey.clazz).Nodup ∧
      (s.arrays.keys.map s.arrayProvenance?).Nodup ∧ (s.envs.keys.map EnvKey.effect).Nodup)
    ⟨fun ⟨h, h', h''⟩ => ⟨h, h', h''⟩, fun ⟨h, h', h''⟩ => ⟨h, h', h''⟩⟩

variable {s s' s'' t : Store} {item item' : Item} {p : Provenance}

/-- An instance comes from its clazz. -/
theorem provenance?_object {id : InstanceId} {key : InstanceKey}
    (known : s.instances.key? id = some key) :
    s.provenance? (.object id) = some (.created key.clazz) := by
  dsimp only [provenance?]
  rw [known]
  rfl

/-- An array comes from what its key names. -/
theorem provenance?_array {id : ArrayId} {key : ArrayKey} (known : s.arrays.key? id = some key) :
    s.provenance? (.array id) = s.arrayProvenance? key := by
  dsimp only [provenance?]
  rw [known]
  rfl

/-- What comes from a clazz is an instance of that clazz. -/
theorem exists_of_created {clazz : ClazzId} (h : s.provenance? item = some (.created clazz)) :
    ∃ id key, item = .object id ∧ s.instances.key? id = some key ∧ key.clazz = clazz := by
  cases item with
  | object id =>
    obtain ⟨key, known, same⟩ := Option.map_eq_some_iff.1 h
    cases same
    exact ⟨id, key, rfl, known, rfl⟩
  | array id =>
    obtain ⟨key, -, same⟩ := Option.bind_eq_some_iff.1 h
    cases key with
    | alloc call =>
      obtain ⟨_, -, ⟨⟩⟩ := Option.map_eq_some_iff.1 same
    | const site => cases same

/-- The key of an instance that comes from a clazz is there, and names the clazz. -/
theorem exists_instanceKey {id : InstanceId} {clazz : ClazzId}
    (h : s.provenance? (.object id) = some (.created clazz)) :
    ∃ key, s.instanceKey id = .ok key ∧ key.clazz = clazz := by
  obtain ⟨_, key, ⟨⟩, known, same⟩ := exists_of_created h
  obtain ⟨_, known', found⟩ | ⟨unknown, -⟩ := s.instanceKey_cases id
  · cases known.symm.trans known'
    exact ⟨key, found, same⟩
  · cases known.symm.trans unknown

/-- What has the provenance of an array is an array: the provenance tells instances and arrays
apart. -/
theorem exists_array {id : ArrayId} (h : s.provenance? (.array id) = some p)
    (h' : t.provenance? item' = some p) :
    ∃ id' key', item' = .array id' ∧ t.arrays.key? id' = some key' ∧
      t.arrayProvenance? key' = some p := by
  cases item' with
  | array id' =>
    obtain ⟨key', known', same'⟩ := Option.bind_eq_some_iff.1 h'
    exact ⟨id', key', rfl, known', same'⟩
  | object id' =>
    obtain ⟨_, -, rfl⟩ := Option.map_eq_some_iff.1 h'
    obtain ⟨_, _, ⟨⟩, -⟩ := exists_of_created h

/-! ### Stores that keep their keys -/

/-- All identifiers keep their keys. -/
structure Keeps (s s' : Store) : Prop where
  instances : s.instances.KeepsKeys s'.instances
  calls : s.calls.KeepsKeys s'.calls
  envs : s.envs.KeepsKeys s'.envs
  arrays : s.arrays.KeepsKeys s'.arrays

/-- A store keeps its own keys. -/
theorem Keeps.refl (s : Store) : s.Keeps s :=
  ⟨Interned.keepsKeys_refl _, Interned.keepsKeys_refl _, Interned.keepsKeys_refl _,
    Interned.keepsKeys_refl _⟩

/-- A store that keeps its keys twice in a row keeps them. -/
theorem Keeps.trans (h : s.Keeps s') (h' : s'.Keeps s'') : s.Keeps s'' :=
  ⟨h.instances.trans h'.instances, h.calls.trans h'.calls, h.envs.trans h'.envs,
    h.arrays.trans h'.arrays⟩

/-- An array comes from where it came from as long as the keys are kept. -/
theorem Keeps.arrayProvenance? (h : s.Keeps s') {key : ArrayKey}
    (known : s.arrayProvenance? key = some p) : s'.arrayProvenance? key = some p := by
  cases key with
  | alloc call =>
    obtain ⟨key, called, same⟩ := Option.map_eq_some_iff.1 known
    exact Option.map_eq_some_iff.2 ⟨key, h.calls call key called, same⟩
  | const site => exact known

/-- Instances and arrays come from where they came from as long as the keys are kept. -/
theorem Keeps.provenance? (h : s.Keeps s') (known : s.provenance? item = some p) :
    s'.provenance? item = some p := by
  cases item with
  | object id =>
    obtain ⟨key, there, same⟩ := Option.map_eq_some_iff.1 known
    exact Option.map_eq_some_iff.2 ⟨key, h.instances id key there, same⟩
  | array id =>
    obtain ⟨key, there, same⟩ := Option.bind_eq_some_iff.1 known
    exact Option.bind_eq_some_iff.2 ⟨key, h.arrays id key there, h.arrayProvenance? same⟩

/-! ### Places -/

/-- What can hold a value. -/
inductive Place where
  /-- The field, in the instances of the clazz. -/
  | field (clazz field : ClazzId)
  | elements (p : Provenance)
  | binding (effect : ClazzId)
  | default (effect : ClazzId)
  deriving DecidableEq, Repr

/-- The value is held at the place. -/
def At (s : Store) : Place → Value → Prop
  | .field clazz field, v => ∃ id key fields, s.instances.get? id = some (key, fields) ∧
      key.clazz = clazz ∧ fields.find? field = some v
  | .elements p, v =>
      ∃ id key, s.arrays.get? id = some (key, v) ∧ s.arrayProvenance? key = some p
  | .binding effect, v => ∃ id key, s.envs.get? id = some (key, v) ∧ key.effect = effect
  | .default effect, v => s.defaults.find? effect = some v

/-- A coarse store holds one value at a place. -/
theorem IsCoarse.eq_of_at (ht : t.IsCoarse) {place : Place} {v w : Value} (hv : t.At place v)
    (hw : t.At place w) : v = w := by
  -- In a coarse store there is one entry for each place.
  cases place with
  | field clazz field =>
    obtain ⟨id, key, fields, entry, rfl, held⟩ := hv
    obtain ⟨id', key', fields', entry', same, held'⟩ := hw
    obtain rfl := Interned.eq_of_nodup_map ht.instances (Interned.key?_of_get? entry)
      (Interned.key?_of_get? entry') same.symm
    cases entry.symm.trans entry'
    exact Option.some.inj (held.symm.trans held')
  | elements p =>
    obtain ⟨id, key, entry, same⟩ := hv
    obtain ⟨id', key', entry', same'⟩ := hw
    obtain rfl := Interned.eq_of_nodup_map ht.arrays (Interned.key?_of_get? entry)
      (Interned.key?_of_get? entry') (same.trans same'.symm)
    cases entry.symm.trans entry'
    rfl
  | binding effect =>
    obtain ⟨id, key, entry, rfl⟩ := hv
    obtain ⟨id', key', entry', same⟩ := hw
    obtain rfl := Interned.eq_of_nodup_map ht.envs (Interned.key?_of_get? entry)
      (Interned.key?_of_get? entry') same.symm
    cases entry.symm.trans entry'
    rfl
  | default effect => exact Option.some.inj (hv.symm.trans hw)

/-! ### Values -/

/-- The value of the first store is mirrored by that of the second one: its instances and arrays are
in the other value under the same boxes and tags. -/
structure Mirrors (view : View) (s t : Store) (v w : Value) : Prop where
  made : v.Made view
  items : ∀ {path item}, v.Shows path item → ∃ item' p, w.Shows path item' ∧
    s.provenance? item = some p ∧ t.provenance? item' = some p

variable {view : View} {v v' w w' : Value}

namespace Mirrors

/-- What is mirrored stays mirrored when the keys are kept, as it is the provenance that is
compared. -/
theorem mono (h : s.Keeps s') (hv : Mirrors view s t v w) : Mirrors view s' t v w where
  made := hv.made
  items shown := by
    obtain ⟨item', p, shown', known, known'⟩ := hv.items shown
    exact ⟨item', p, shown', h.provenance? known, known'⟩

/-- A value that was mirrored by `w'` before is mirrored by `w` before if it is now: its items were
known already. -/
theorem before (h : s.Keeps s') (known : Mirrors view s t v w') (hv : Mirrors view s' t v w) :
    Mirrors view s t v w where
  made := hv.made
  items shown := by
    obtain ⟨_, q, -, there, -⟩ := known.items shown
    obtain ⟨item', p, shown', there', known'⟩ := hv.items shown
    cases there'.symm.trans (h.provenance? there)
    exact ⟨item', q, shown', there, known'⟩

/-- What shows less is mirrored by the same value. -/
theorem of_shows (hv : Mirrors view s t v w) (made : v'.Made view)
    (less : ∀ path item, v'.Shows path item → v.Shows path item) : Mirrors view s t v' w where
  made := made
  items shown := hv.items (less _ _ shown)

/-- A value is mirrored by what shows more, too. -/
theorem in_shows (hv : Mirrors view s t v w)
    (more : ∀ path item, w.Shows path item → w'.Shows path item) :
    Mirrors view s t v w' where
  made := hv.made
  items shown := by
    obtain ⟨item', p, shown', known⟩ := hv.items shown
    exact ⟨item', p, more _ _ shown', known⟩

/-- A join is mirrored by what mirrors both of its parts. -/
theorem join_of (hv : Mirrors view s t v w) (hv' : Mirrors view s t v' w) :
    Mirrors view s t (v.join v') w where
  made := hv.made.join hv'.made
  items shown := (Value.shows_join.1 shown).elim hv.items hv'.items

/-- The atoms of a value that is mirrored are atoms and not sets, since the value is canonical. -/
theorem isAtom_of_mem_atoms {a : Value} (hv : Mirrors view s t v w) (ha : a ∈ v.atoms)
    (there : a.isAbsent = false) : a.isAtom = true := by
  cases v with
  | set members => exact hv.made.regular.canonical.2.2.2.1 a ha
  | noValue | undefined =>
    cases List.mem_singleton.1 ha
    cases there
  | _ =>
    cases List.mem_singleton.1 ha
    rfl

/-- The atoms of a value are mirrored by what mirrors the value. -/
theorem of_mem_atoms (hv : Mirrors view s t v w) {a : Value} (ha : a ∈ v.atoms) :
    Mirrors view s t a w := by
  refine hv.of_shows (hv.made.of_mem_atoms ha) fun path item shown => ?_
  cases absent : a.isAbsent with
  | true => exact absurd shown (Value.not_shows_of_isAbsent absent)
  | false => exact shown.of_mem_atoms (hv.isAtom_of_mem_atoms ha absent) ha

/-- What has no instances and no arrays is mirrored by anything. -/
theorem of_isPlain (made : v.Made view) (plain : v.isPlain = true) (w : Value) :
    Mirrors view s t v w where
  made := made
  items shown := absurd shown (Value.not_shows_of_isPlain plain)

/-- The value `noValue` is mirrored by anything. -/
theorem of_noValue (w : Value) : Mirrors view s t .noValue w :=
  .of_isPlain .noValue rfl w

/-- The value `undefined` is mirrored by anything. -/
theorem of_undefined (w : Value) : Mirrors view s t .undefined w :=
  .of_isPlain .undefined rfl w

/-- The value `unit` is mirrored by anything. -/
theorem of_unit (w : Value) : Mirrors view s t .unit w :=
  .of_isPlain .unit rfl w

/-- Booleans are mirrored by anything. -/
theorem of_bool (truth : Truth) (w : Value) : Mirrors view s t (.bool truth) w :=
  .of_isPlain (.bool truth) rfl w

/-- Instances and arrays of one provenance mirror each other. -/
theorem of_provenance (item item' : Item) (known : s.provenance? item = some p)
    (known' : t.provenance? item' = some p) :
    Mirrors view s t item.value item'.value where
  made := by
    cases item with
    | object id => exact .object id
    | array id => exact .array id
  items shown := by
    obtain ⟨rfl, rfl⟩ := shown.of_value item
    exact ⟨item', p, Value.shows_value item', known, known'⟩

/-- What is around a value is mirrored by the same around what mirrors the value. -/
theorem around (wrapping : Wrapping) (makes : view.Makes (wrapping.around v))
    (hv : Mirrors view s t v w) : Mirrors view s t (wrapping.around v) (wrapping.around w) where
  made := by
    cases wrapping with
    | boxed valueClazz refClazz => exact hv.made.boxed makes
    | tagged choice tag => exact hv.made.tagged makes tag
  items shown := by
    obtain ⟨rest, rfl, inside⟩ := shown.of_around wrapping
    obtain ⟨item', p, shown', known⟩ := hv.items inside
    exact ⟨item', p, shown'.around wrapping, known⟩

/-- A tagged value is mirrored by one with the same tag, if the contents are. -/
theorem tagged {choice : ClazzId} (tags : view.Tags choice) (hv : Mirrors view s t v w)
    (tag : Nat) : Mirrors view s t (.tagged v choice tag) (.tagged w choice tag) :=
  hv.around (.tagged choice tag) tags

/-- What is in a wrapping is mirrored by all that is in the same wrapping on the other side. -/
theorem of_around (wrapping : Wrapping) (hv : Mirrors view s t (wrapping.around v) w)
    (inside : ∀ path item, w.Shows (wrapping :: path) item → w'.Shows path item) :
    Mirrors view s t v w' where
  made := by
    cases wrapping with
    | boxed valueClazz refClazz => exact hv.made.of_boxed
    | tagged choice tag => exact hv.made.of_tagged
  items shown := by
    obtain ⟨item', p, shown', known⟩ := hv.items (shown.around wrapping)
    exact ⟨item', p, inside _ _ shown', known⟩

end Mirrors

/-! ### Environments -/

/-- The nodes of the environment, from the inside to the outside, bind these effects. -/
inductive Chain (s : Store) : Option EnvId → List ClazzId → Prop where
  | nil : Chain s none []
  | cons {id : EnvId} {key : EnvKey} {effects : List ClazzId} (known : s.envs.key? id = some key)
      (outer : Chain s key.outer effects) : Chain s (some id) (key.effect :: effects)

variable {env env' : Option EnvId} {effects effects' : List ClazzId}

/-- The nodes of an environment bind the same effects as long as the keys are kept. -/
theorem Chain.mono (h : s.Keeps s') (chain : s.Chain env effects) : s'.Chain env effects := by
  induction chain with
  | nil => exact .nil
  | cons known _ ih => exact .cons (h.envs _ _ known) ih

/-- The effects that the nodes of an environment bind are determined by the environment. -/
theorem Chain.unique (chain : s.Chain env effects) (chain' : s.Chain env effects') :
    effects = effects' := by
  induction chain generalizing effects' with
  | nil =>
    cases chain'
    rfl
  | cons known _ ih =>
    cases chain' with
    | cons known' outer' =>
      cases known.symm.trans known'
      rw [ih outer']

/-- The environments bind the same effects in the same order. -/
def EnvMirrors (s t : Store) (env env' : Option EnvId) : Prop :=
  ∃ effects, s.Chain env effects ∧ t.Chain env' effects

/-- Environments still mirror each other when the keys are kept. -/
theorem EnvMirrors.mono (h : s.Keeps s') (he : EnvMirrors s t env env') :
    EnvMirrors s' t env env' := by
  obtain ⟨effects, chain, chain'⟩ := he
  exact ⟨effects, chain.mono h, chain'⟩

/-- An environment that had a chain before has the same chain now, so what mirrors it now mirrored
it before. -/
theorem EnvMirrors.before {env'' : Option EnvId} (h : s.Keeps s')
    (known : EnvMirrors s t env env'') (he : EnvMirrors s' t env env') :
    EnvMirrors s t env env' := by
  obtain ⟨_, chain, -⟩ := known
  obtain ⟨_, chain', other⟩ := he
  cases (chain.mono h).unique chain'
  exact ⟨_, chain, other⟩

/-! ### Calls -/

/-- The calls are of one clazz, and what they are called with is mirrored. -/
structure KeyMirrors (view : View) (s t : Store) (key key' : CallKey) : Prop where
  clazz : key'.clazz = key.clazz
  pre : key'.pre = key.pre
  target : Mirrors view s t key.target key'.target
  args : List.Forall₂ (Mirrors view s t) key.args key'.args
  env : EnvMirrors s t key.env key'.env

variable {key key' key'' : CallKey}

/-- Keys of calls still mirror each other when the keys of the store are kept. -/
theorem KeyMirrors.mono (h : s.Keeps s') (hk : KeyMirrors view s t key key') :
    KeyMirrors view s' t key key' where
  clazz := hk.clazz
  pre := hk.pre
  target := hk.target.mono h
  args := hk.args.imp fun _ _ => Mirrors.mono h
  env := hk.env.mono h

/-- A key of a call that was mirrored before is mirrored before by all that mirror it now. -/
theorem KeyMirrors.before (h : s.Keeps s') (known : KeyMirrors view s t key key'')
    (hk : KeyMirrors view s' t key key') : KeyMirrors view s t key key' where
  clazz := hk.clazz
  pre := hk.pre
  target := known.target.before h hk.target
  args := by
    rw [List.forall₂_iff_get]
    obtain ⟨length, there⟩ := List.forall₂_iff_get.1 known.args
    obtain ⟨length', args⟩ := List.forall₂_iff_get.1 hk.args
    exact ⟨length', fun i hi hi' => (there i hi (by omega)).before h (args i hi hi')⟩
  env := known.env.before h hk.env

end Store

end ClosedWorld
