import ClosedWorld.Interned
import Mathlib.Data.Set.Card

/-!
# Tables and maps, entry by entry

What a table or a map holds after a change, told for each key and each identifier.

## Main definitions

* `Interned.All`: all entries of a table have a property.
* `Interned.KeepsKeys`: keys stay.
* `Interned.Extends`, `OrderedMap.Extends`: keys stay, and what they stand for grows.

## Main statements

* `OrderedMap.mem_entries_insert`: the entries of an updated map.
* `Interned.get?_set`, `Interned.key?_push`: the entries of a changed table.
* `Interned.size_le_ncard`: a table without repetition has no more entries than there are keys.
* `Interned.extends_push`, `Interned.extends_set`, `Interned.Extends.trans`: tables that change
  grow.
-/

namespace ClosedWorld

namespace OrderedMap

variable {κ α : Type} [Ord κ]

/-- An entry of a list after `insertIn k a` is the new one or was there before. -/
theorem mem_insertIn {k : κ} {a : α} {entries : List (κ × α)} {e : κ × α}
    (h : e ∈ insertIn k a entries) : e = (k, a) ∨ e ∈ entries := by
  induction entries with
  | nil => exact .inl (List.mem_singleton.1 h)
  | cons e' rest ih =>
    obtain ⟨k', b⟩ := e'
    unfold insertIn at h
    split at h
    · exact List.mem_cons.1 h
    · rcases List.mem_cons.1 h with rfl | h
      · exact .inl rfl
      · exact .inr (List.mem_cons_of_mem _ h)
    · rcases List.mem_cons.1 h with rfl | h
      · exact .inr List.mem_cons_self
      · exact (ih h).imp_right (List.mem_cons_of_mem _)

/-- An entry of the map `m.insert k a` is `(k, a)` or was an entry of `m`. -/
theorem mem_entries_insert {m : OrderedMap κ α} {k : κ} {a : α} {e : κ × α}
    (h : e ∈ (m.insert k a).entries) : e = (k, a) ∨ e ∈ m.entries :=
  mem_insertIn h

/-- What `findIn` finds under a key stands in the list of entries under this key. -/
theorem mem_of_findIn [Std.LawfulEqOrd κ] {k : κ} {a : α} {entries : List (κ × α)}
    (h : findIn k entries = some a) : (k, a) ∈ entries := by
  induction entries with
  | nil => cases h
  | cons e rest ih =>
    obtain ⟨k', b⟩ := e
    unfold findIn at h
    split at h
    · rename_i same
      cases h
      rw [Std.LawfulEqOrd.eq_of_compare same]
      exact List.mem_cons_self
    · exact List.mem_cons_of_mem _ (ih h)

/-- What a map holds for a key, by `find?`, is one of its `entries`. -/
theorem mem_entries_of_find? [Std.LawfulEqOrd κ] {m : OrderedMap κ α} {k : κ} {a : α}
    (h : m.find? k = some a) : (k, a) ∈ m.entries :=
  mem_of_findIn h

/-- What the first map holds for a key has grown in the second one. -/
def Extends (Below : α → α → Prop) (m m' : OrderedMap κ α) : Prop :=
  ∀ k a, m.find? k = some a → ∃ a', m'.find? k = some a' ∧ Below a a'

/-- A map extends itself, for every reflexive relation `Below`. -/
theorem extends_refl {Below : α → α → Prop} (refl : ∀ a, Below a a) (m : OrderedMap κ α) :
    m.Extends Below m :=
  fun _ a h => ⟨a, h, refl a⟩

/-- A map that is updated extends what it was if the new entry `grown` is above the one it replaces.
-/
theorem extends_insert [Std.LawfulEqOrd κ] [DecidableEq κ] {Below : α → α → Prop}
    (refl : ∀ a, Below a a) {m : OrderedMap κ α} {k : κ} {grown : α}
    (h : ∀ a, m.find? k = some a → Below a grown) : m.Extends Below (m.insert k grown) := by
  intro j a held
  rw [find?_insert]
  by_cases hj : j = k
  · rw [if_pos hj]
    rw [hj] at held
    exact ⟨grown, rfl, h a held⟩
  · rw [if_neg hj]
    exact ⟨a, held, refl a⟩

end OrderedMap

namespace Interned

variable {space : Space} {κ α : Type} {t : Interned space κ α} {i j : Ident space}

/-- An identifier without a key has no entry at all. -/
theorem get?_eq_none_of_key? (h : t.key? i = none) : t.get? i = none := Option.map_eq_none_iff.1 h

/-- An identifier without a state has no entry at all. -/
theorem get?_eq_none_of_state? (h : t.state? i = none) : t.get? i = none :=
  Option.map_eq_none_iff.1 h

/-- An identifier with a key has a state too. -/
theorem exists_state?_of_key? {k : κ} (h : t.key? i = some k) : ∃ a, t.state? i = some a := by
  obtain ⟨e, he, -⟩ := Option.map_eq_some_iff.1 h
  exact ⟨e.2, Option.map_eq_some_iff.2 ⟨e, he, rfl⟩⟩

/-- After a `push`, the next free identifier has the new key, and all others have the keys they had.
-/
theorem key?_push (t : Interned space κ α) (k : κ) (a : α) (i : Ident space) :
    (t.push k a).key? i = if i = t.nextId then some k else t.key? i := by
  unfold key?
  rw [get?_push]
  split <;> rfl

/-- The key that is pushed is found under the identifier that was free. -/
theorem key?_push_nextId (t : Interned space κ α) (k : κ) (a : α) :
    (t.push k a).key? t.nextId = some k := by
  rw [key?_push, if_pos rfl]

/-- The next free identifier has no key yet. -/
theorem key?_nextId (t : Interned space κ α) : t.key? t.nextId = none := by
  unfold key? get? nextId size
  rw [List.getElem?_eq_none (Nat.le_refl _)]
  rfl

/-- After a `set`, the entry of `i`, if there is one, has the new state under its old key. All other
entries are what they were. -/
theorem get?_set (t : Interned space κ α) (i j : Ident space) (a : α) :
    (t.set i a).get? j = if j = i then (t.get? j).map fun e => (e.1, a) else t.get? j := by
  unfold get? set
  dsimp only
  rw [List.getElem?_modify]
  by_cases h : j = i
  · rw [if_pos h, h]
    simp
  · have apart : i.index ≠ j.index := fun e => h (Ident.eq_of_index_eq _ _ e.symm)
    rw [if_neg h]
    simp [apart]

/-- A state stands in an entry, beside some key. -/
theorem exists_get?_of_state? {a : α} (h : t.state? i = some a) : ∃ k, t.get? i = some (k, a) := by
  obtain ⟨⟨k, _⟩, he, rfl⟩ := Option.map_eq_some_iff.1 h
  exact ⟨k, he⟩

/-- A key stands in an entry, beside some state. -/
theorem exists_get?_of_key? {k : κ} (h : t.key? i = some k) : ∃ a, t.get? i = some (k, a) := by
  obtain ⟨⟨_, a⟩, he, rfl⟩ := Option.map_eq_some_iff.1 h
  exact ⟨a, he⟩

/-- The state of an entry is the one that `state?` gives. -/
theorem state?_of_get? {k : κ} {a : α} (h : t.get? i = some (k, a)) : t.state? i = some a := by
  unfold state?
  rw [h]
  rfl

/-- The key of an entry is the one that `key?` gives. -/
theorem key?_of_get? {k : κ} {a : α} (h : t.get? i = some (k, a)) : t.key? i = some k := by
  unfold key?
  rw [h]
  rfl

/-- A key and a state of one identifier make up its entry. -/
theorem get?_of_key?_of_state? {k : κ} {a : α} (hk : t.key? i = some k) (ha : t.state? i = some a) :
    t.get? i = some (k, a) := by
  obtain ⟨a', entry⟩ := exists_get?_of_key? hk
  cases ha.symm.trans (state?_of_get? entry)
  exact entry

/-- An identifier that has a state has the new one after a `set`. -/
theorem state?_set {b : α} (h : t.state? i = some b) (a : α) : (t.set i a).state? i = some a := by
  obtain ⟨k, entry⟩ := exists_get?_of_state? h
  refine state?_of_get? (k := k) ?_
  rw [get?_set, if_pos rfl, entry]
  rfl

/-- What `state?` gives after a `set`, for every identifier: the new state for `i`, unless it had
none, and the old one elsewhere. -/
theorem state?_set_eq (t : Interned space κ α) (i j : Ident space) (a : α) :
    (t.set i a).state? j = if j = i then (t.state? j).map fun _ => a else t.state? j := by
  unfold state?
  rw [get?_set]
  split
  · rw [Option.map_map, Option.map_map]
    rfl
  · rfl

/-- The key of an identifier stands at its position in the list of `keys`. -/
theorem key?_eq_getElem? (t : Interned space κ α) (i : Ident space) :
    t.key? i = t.keys[i.index]? := by
  unfold key? get? keys
  rw [List.getElem?_map]

/-- The size of a table is the length of its list of `keys`. -/
theorem size_eq_length_keys (t : Interned space κ α) : t.size = t.keys.length :=
  (List.length_map _).symm

/-- A table is determined by its `keys` and by what `state?` gives for each identifier. -/
theorem eq_of_keys_of_state? {t t' : Interned space κ α} (keys : t.keys = t'.keys)
    (states : ∀ i, t.state? i = t'.state? i) : t = t' := by
  have entries : t.entries = t'.entries := by
    refine List.ext_getElem? fun n => ?_
    have key : t.key? ⟨n⟩ = t'.key? ⟨n⟩ := by
      rw [key?_eq_getElem?, key?_eq_getElem?, keys]
    have state := states ⟨n⟩
    unfold key? get? at key
    unfold state? get? at state
    cases h : t.entries[n]? with
    | none =>
      rw [h] at key
      exact (Option.map_eq_none_iff.1 key.symm).symm
    | some e =>
      rw [h] at key state
      obtain ⟨e', he', same⟩ := Option.map_eq_some_iff.1 key.symm
      rw [he'] at state
      rw [he', Prod.ext same (Option.some.inj state).symm]
  cases t
  cases t'
  exact congrArg mk entries

/-- An identifier has no entry exactly if it lies beyond the `size` of the table. -/
theorem get?_eq_none_iff : t.get? i = none ↔ t.size ≤ i.index := List.getElem?_eq_none_iff

/-- An identifier with a key lies within the `size` of the table. -/
theorem index_lt_size_of_key? {k : κ} (h : t.key? i = some k) : i.index < t.size := by
  by_contra beyond
  have absent : t.get? i = none := get?_eq_none_iff.2 (Nat.le_of_not_lt beyond)
  unfold key? at h
  rw [absent] at h
  cases h

/-- An identifier with a state lies within the `size` of the table. -/
theorem index_lt_size_of_state? {a : α} (h : t.state? i = some a) : i.index < t.size := by
  obtain ⟨k, held⟩ := exists_get?_of_state? h
  exact index_lt_size_of_key? (key?_of_get? held)

/-- A `push` makes a table larger by one. -/
theorem size_push (t : Interned space κ α) (k : κ) (a : α) : (t.push k a).size = t.size + 1 :=
  List.length_append

/-- A `set` does not change the `size` of a table. -/
theorem size_set (t : Interned space κ α) (i : Ident space) (a : α) : (t.set i a).size = t.size :=
  List.length_modify ..

/-- A table does not shrink by a `push`. -/
theorem size_le_push (t : Interned space κ α) (k : κ) (a : α) : t.size ≤ (t.push k a).size := by
  rw [size_push]
  exact Nat.le_succ _

/-- A table does not shrink by a `set`. -/
theorem size_le_set (t : Interned space κ α) (i : Ident space) (a : α) :
    t.size ≤ (t.set i a).size := by
  rw [size_set]

/-! ### Keys without repetition -/

/-- The `keys` of a table are the keys of its identifiers. -/
theorem mem_keys {k : κ} : k ∈ t.keys ↔ ∃ i, t.key? i = some k := by
  unfold keys key? get?
  rw [List.mem_map]
  constructor
  · rintro ⟨e, he, rfl⟩
    obtain ⟨n, hn⟩ := List.mem_iff_getElem?.1 he
    exact ⟨⟨n⟩, by rw [hn]; rfl⟩
  · rintro ⟨i, h⟩
    obtain ⟨e, he, rfl⟩ := Option.map_eq_some_iff.1 h
    exact ⟨e, List.mem_of_getElem? he, rfl⟩

/-- The key that is pushed is one of the `keys` afterwards. -/
theorem mem_keys_push (t : Interned space κ α) (k : κ) (a : α) : k ∈ (t.push k a).keys :=
  mem_keys.2 ⟨t.nextId, key?_push_nextId t k a⟩

/-- A `set` does not change the `keys` of a table. -/
theorem keys_set (t : Interned space κ α) (i : Ident space) (a : α) :
    (t.set i a).keys = t.keys := by
  unfold keys set
  refine List.ext_getElem? fun n => ?_
  rw [List.getElem?_map, List.getElem?_map, List.getElem?_modify]
  cases t.entries[n]? <;> split <;> rfl

/-- No key occurs twice after a `push` if none did before and `idOf?` did not find the new one. -/
theorem nodup_push [DecidableEq κ] (h : t.keys.Nodup) {k : κ} (new : t.idOf? k = none) (a : α) :
    (t.push k a).keys.Nodup := by
  have fresh : k ∉ t.keys := idOf?_eq_none_iff.1 new
  unfold keys push at *
  rw [List.map_append, List.map_singleton]
  exact h.append (List.nodup_singleton k) (List.disjoint_singleton.2 fresh)

/-- No key occurs twice after a `set` if none did before. -/
theorem nodup_set (h : t.keys.Nodup) (i : Ident space) (a : α) : (t.set i a).keys.Nodup := by
  rwa [keys_set]

/-- A table without repetition has no more entries than there are keys in a finite set `known` that
has all of its keys. -/
theorem size_le_ncard (h : t.keys.Nodup) {known : Set κ} (finite : known.Finite)
    (hk : ∀ k ∈ t.keys, k ∈ known) : t.size ≤ known.ncard := by
  classical
  have listed : (t.keys.toFinset : Set κ) ⊆ known := fun k hk' => hk k (List.mem_toFinset.1 hk')
  calc t.size = t.keys.length := (List.length_map _).symm
    _ = t.keys.toFinset.card := (List.toFinset_card_of_nodup h).symm
    _ = (t.keys.toFinset : Set κ).ncard := (Set.ncard_coe_finset _).symm
    _ ≤ known.ncard := Set.ncard_le_ncard listed finite

/-! ### Properties of all entries, and growth -/

/-- All entries of the table have the property. -/
def All (P : κ → α → Prop) (t : Interned space κ α) : Prop :=
  ∀ i k a, t.get? i = some (k, a) → P k a

/-- A property of all entries is kept by a `push` if the new entry has it. -/
theorem all_push {P : κ → α → Prop} (h : t.All P) {k : κ} {a : α} (ha : P k a) :
    (t.push k a).All P := by
  intro i k' a' held
  rw [get?_push] at held
  split at held
  · cases held
    exact ha
  · exact h i k' a' held

/-- A property of all entries is kept by a `set` if the new state has it beside the key of `i`. -/
theorem all_set {P : κ → α → Prop} (h : t.All P) {a : α}
    (ha : ∀ k b, t.get? i = some (k, b) → P k a) : (t.set i a).All P := by
  intro j k' a' held
  rw [get?_set] at held
  split at held
  · rename_i same
    rw [same] at held
    obtain ⟨⟨k, b⟩, before, now⟩ := Option.map_eq_some_iff.1 held
    cases now
    exact ha k b before
  · exact h j k' a' held

/-- Every identifier keeps its key. -/
def KeepsKeys (t t' : Interned space κ α) : Prop := ∀ i k, t.key? i = some k → t'.key? i = some k

/-- A table keeps its own keys. -/
theorem keepsKeys_refl (t : Interned space κ α) : t.KeepsKeys t := fun _ _ h => h

/-- Tables that keep the keys of each other in turn keep them from the first to the last. -/
theorem KeepsKeys.trans {t t' t'' : Interned space κ α} (h : t.KeepsKeys t')
    (h' : t'.KeepsKeys t'') : t.KeepsKeys t'' :=
  fun i k known => h' i k (h i k known)

/-- A `push` keeps all keys. -/
theorem keepsKeys_push (t : Interned space κ α) (k : κ) (a : α) : t.KeepsKeys (t.push k a) :=
  fun _ _ known => key?_push_of_key? k a known

/-- A `set` keeps all keys. -/
theorem keepsKeys_set (t : Interned space κ α) (i : Ident space) (a : α) :
    t.KeepsKeys (t.set i a) :=
  fun j _ known => (key?_set t i j a).trans known

/-- Every identifier keeps its key, and the state grows. -/
def Extends (Below : α → α → Prop) (t t' : Interned space κ α) : Prop :=
  ∀ i k a, t.get? i = some (k, a) → ∃ a', t'.get? i = some (k, a') ∧ Below a a'

/-- A table extends itself, for every reflexive relation `Below` of states. -/
theorem extends_refl {Below : α → α → Prop} (refl : ∀ a, Below a a) (t : Interned space κ α) :
    t.Extends Below t :=
  fun _ _ a h => ⟨a, h, refl a⟩

/-- The keys of a table are among those of a table that extends it. -/
theorem Extends.keys_subset {Below : α → α → Prop} {t t' : Interned space κ α}
    (h : t.Extends Below t') : t.keys ⊆ t'.keys := by
  intro k known
  obtain ⟨i, known⟩ := mem_keys.1 known
  obtain ⟨a, held⟩ := exists_get?_of_key? known
  obtain ⟨a', held', -⟩ := h i k a held
  exact mem_keys.2 ⟨i, key?_of_get? held'⟩

/-- A table that extends another one keeps its keys. -/
theorem Extends.keepsKeys {Below : α → α → Prop} {t t' : Interned space κ α}
    (h : t.Extends Below t') : t.KeepsKeys t' := by
  intro i k known
  obtain ⟨a, held⟩ := exists_get?_of_key? known
  obtain ⟨a', held', -⟩ := h i k a held
  exact key?_of_get? held'

/-- Where a table extends another one, each state that was known has a state above it under the same
identifier. -/
theorem Extends.state? {Below : α → α → Prop} {t t' : Interned space κ α} (h : t.Extends Below t')
    {a : α} (known : t.state? i = some a) : ∃ a', t'.state? i = some a' ∧ Below a a' := by
  obtain ⟨k, held⟩ := exists_get?_of_state? known
  obtain ⟨a', held', below⟩ := h i k a held
  exact ⟨a', state?_of_get? held', below⟩

/-- The relation `Extends` is transitive as far as `Below` is on the states that the three tables
have under one identifier. -/
theorem Extends.trans {Below : α → α → Prop} {t t' t'' : Interned space κ α}
    (h : t.Extends Below t') (h' : t'.Extends Below t'')
    (trans : ∀ i k a a' a'', t.get? i = some (k, a) → t'.get? i = some (k, a') →
      t''.get? i = some (k, a'') → Below a a' → Below a' a'' → Below a a'') :
    t.Extends Below t'' := by
  intro i k a held
  obtain ⟨a', held', below⟩ := h i k a held
  obtain ⟨a'', held'', below'⟩ := h' i k a' held'
  exact ⟨a'', held'', trans i k a a' a'' held held' held'' below below'⟩

/-- A table that a `push` adds to extends what it was. -/
theorem extends_push {Below : α → α → Prop} (refl : ∀ a, Below a a) (t : Interned space κ α)
    (k : κ) (a : α) : t.Extends Below (t.push k a) := by
  intro i k' a' held
  have old : i ≠ t.nextId := by
    rintro rfl
    have fresh := key?_nextId t
    unfold key? at fresh
    rw [held] at fresh
    cases fresh
  refine ⟨a', ?_, refl a'⟩
  rw [get?_push, if_neg old]
  exact held

/-- A table that a `set` changes extends what it was if the new state is above the one it replaces.
-/
theorem extends_set {Below : α → α → Prop} (refl : ∀ a, Below a a) {a : α}
    (h : ∀ k b, t.get? i = some (k, b) → Below b a) : t.Extends Below (t.set i a) := by
  intro j k b held
  rw [get?_set]
  by_cases hj : j = i
  · rw [if_pos hj, held]
    rw [hj] at held
    exact ⟨a, rfl, h k b held⟩
  · rw [if_neg hj]
    exact ⟨b, held, refl b⟩

/-- The identifiers in use are those within the `size` of the table. -/
theorem mem_ids_iff_lt {t : Interned space κ α} {i : Ident space} :
    i ∈ t.ids ↔ i.index < t.size := Ident.mem_below

/-- The identifiers in use begin with the first one, if that is in use. -/
theorem head?_ids_of_mem {t : Interned space κ α} (listed : ⟨0⟩ ∈ t.ids) :
    t.ids.head? = some ⟨0⟩ := by
  have nonempty := mem_ids_iff_lt.1 listed
  unfold ids Ident.below
  rw [List.head?_map, List.head?_range, if_neg (Nat.ne_of_gt nonempty)]
  rfl

/-- Tables with the same `keys` use the same identifiers. -/
theorem ids_eq_of_keys_eq {t t' : Interned space κ α} (same : t'.keys = t.keys) :
    t'.ids = t.ids := by
  unfold ids
  rw [size_eq_length_keys, same, ← size_eq_length_keys]

/-- A `push` takes the next free identifier into use and no other. -/
theorem mem_ids_push {t : Interned space κ α} {k : κ} {a : α} {i : Ident space} :
    i ∈ (t.push k a).ids ↔ i ∈ t.ids ∨ i = t.nextId := by
  rw [mem_ids_iff_lt, mem_ids_iff_lt, size_push, Nat.lt_succ_iff_lt_or_eq]
  exact or_congr_right ⟨Ident.eq_of_index_eq i _, fun same => same ▸ rfl⟩

/-- The identifiers in use are those that have a key. -/
theorem mem_ids {t : Interned space κ α} {i : Ident space} :
    i ∈ t.ids ↔ ∃ k, t.key? i = some k := by
  rw [mem_ids_iff_lt]
  unfold key? get? size
  constructor
  · intro h
    exact ⟨_, by rw [List.getElem?_eq_getElem h]; rfl⟩
  · rintro ⟨k, h⟩
    obtain ⟨e, he, -⟩ := Option.map_eq_some_iff.1 h
    exact (List.getElem?_eq_some_iff.1 he).1

end Interned

end ClosedWorld
