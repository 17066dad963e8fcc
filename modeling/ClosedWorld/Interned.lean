import ClosedWorld.Ident

/-!
# Interning tables

An interning table maps keys to mutable states. A key gets the next free position when it is first
added, and that position is its identifier: entries are never removed or moved, so an identifier
means the same key for ever.

## Main definitions

* `Interned space κ α`: a table of keys `κ` and states `α` whose positions are `Ident space`.
* `idOf?`, `get?`, `key?`: from keys to identifiers and back.
* `push`, `set`: the two ways a table changes.

## Main statements

* `key?_of_idOf?`: the identifier of a key names that key.
* `key?_push_of_key?`, `key?_set`: no change touches the key of an identifier.
-/

namespace ClosedWorld

/-- A table of keys and states in order of insertion. -/
structure Interned (space : Space) (κ α : Type) where
  entries : List (κ × α) := []
  deriving DecidableEq, Repr

namespace Interned

variable {space : Space} {κ α : Type}

/-- The table without entries. -/
def empty : Interned space κ α := {}

instance : Inhabited (Interned space κ α) := ⟨empty⟩

/-- The number of entries, which is also the position of the next new key. -/
def size (t : Interned space κ α) : Nat := t.entries.length

/-- The identifiers in use, in order. -/
def ids (t : Interned space κ α) : List (Ident space) := Ident.below space t.size

/-- The keys in order of insertion. -/
def keys (t : Interned space κ α) : List κ := t.entries.map Prod.fst

/-- The key and the state at `i`. -/
def get? (t : Interned space κ α) (i : Ident space) : Option (κ × α) := t.entries[i.index]?

/-- The key at `i`. -/
def key? (t : Interned space κ α) (i : Ident space) : Option κ := (t.get? i).map Prod.fst

/-- The state at `i`. -/
def state? (t : Interned space κ α) (i : Ident space) : Option α := (t.get? i).map Prod.snd

/-- The identifiers with their keys and states, in order. -/
def toList (t : Interned space κ α) : List (Ident space × κ × α) :=
  t.entries.zipIdx.map fun (e, i) => (⟨i⟩, e)

/-- The identifier of `k`, if `k` is in the table. -/
def idOf? [DecidableEq κ] (t : Interned space κ α) (k : κ) : Option (Ident space) :=
  (t.entries.findIdx? fun e => decide (e.1 = k)).map Ident.mk

/-- The identifier that the next new key gets. -/
def nextId (t : Interned space κ α) : Ident space := ⟨t.size⟩

/-- Adds an entry at the end. -/
def push (t : Interned space κ α) (k : κ) (a : α) : Interned space κ α := ⟨t.entries ++ [(k, a)]⟩

/-- Replaces the state at `i`; a table without `i` stays as it is. -/
def set (t : Interned space κ α) (i : Ident space) (a : α) : Interned space κ α :=
  ⟨t.entries.modify i.index fun e => (e.1, a)⟩

/-! ### Keys and identifiers -/

/-- After a `push`, the next free identifier has the new entry, and all others have what they had.
-/
theorem get?_push (t : Interned space κ α) (k : κ) (a : α) (i : Ident space) :
    (t.push k a).get? i = if i = t.nextId then some (k, a) else t.get? i := by
  obtain ⟨i⟩ := i
  simp only [get?, push, nextId, size, Ident.mk.injEq]
  rcases Nat.lt_trichotomy i t.entries.length with h | h | h
  · rw [List.getElem?_append_left h, if_neg (by omega)]
  · simp [h]
  · rw [if_neg (by omega), List.getElem?_eq_none (by simp; omega), List.getElem?_eq_none (by omega)]

/-- A `push` leaves the key of every identifier that has one. -/
theorem key?_push_of_key? {t : Interned space κ α} {i : Ident space} {k' : κ} (k : κ) (a : α)
    (h : t.key? i = some k') : (t.push k a).key? i = some k' := by
  obtain ⟨e, he, rfl⟩ := Option.map_eq_some_iff.1 h
  have hi : i ≠ t.nextId := by
    rintro rfl
    simp [get?, nextId, size] at he
  simp [key?, get?_push, hi, he]

/-- A `set` replaces a state and leaves all keys. -/
theorem key?_set (t : Interned space κ α) (i j : Ident space) (a : α) :
    (t.set i a).key? j = t.key? j := by
  simp only [key?, get?, set, List.getElem?_modify]
  split <;> simp [Function.comp_def]

variable [DecidableEq κ]

/-- The identifier that `idOf?` gives for a key has that key. -/
theorem key?_of_idOf? {t : Interned space κ α} {k : κ} {i : Ident space}
    (h : t.idOf? k = some i) : t.key? i = some k := by
  obtain ⟨n, hn, rfl⟩ := Option.map_eq_some_iff.1 h
  obtain ⟨hlt, hk, -⟩ := List.findIdx?_eq_some_iff_getElem.1 hn
  simp only [key?, get?, List.getElem?_eq_getElem hlt, Option.map_some]
  exact congrArg some (of_decide_eq_true hk)

/-- Only keys that the table lacks have no identifier. -/
theorem idOf?_eq_none_iff {t : Interned space κ α} {k : κ} : t.idOf? k = none ↔ k ∉ t.keys := by
  simp only [idOf?, keys, Option.map_eq_none_iff, List.findIdx?_eq_none_iff, List.mem_map,
    decide_eq_false_iff_not]
  exact ⟨fun h ⟨e, he, hk⟩ => h e he hk, fun h e he hk => h ⟨e, he, hk⟩⟩

end Interned

end ClosedWorld
