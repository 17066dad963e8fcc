/-!
# Ascending lists as sets and maps

A finite set over an ordered type is its list of members in strictly ascending order, and a finite
map the list of its entries with strictly ascending keys. Both forms are unique, so equality of
sets and maps is equality of lists.

## Main definitions

* `Ascending`: strictly ascending lists, `Ascending.insert` and `Ascending.ofList`.
* `OrderedMap`: maps with `find?`, `insert` and `keys`.

## Main statements

* `Ascending.mem_insert`: inserting adds one member.
* `Ascending.mem_ofList`, `Ascending.ofList_ascending`: a list as a set.
* `OrderedMap.find?_insert`: what an updated map holds, for every key.
-/

namespace ClosedWorld

/-- An order that is read off an injective `key` tells different things apart. -/
theorem lawfulEqCmp_compareOn {α κ : Type} [Ord κ] [Std.LawfulEqOrd κ] {key : α → κ}
    (inj : ∀ a b, key a = key b → a = b) : Std.LawfulEqCmp (compareOn key) where
  compare_self := Std.ReflCmp.compare_self (α := κ)
  eq_of_compare h := inj _ _ (Std.LawfulEqOrd.eq_of_compare (α := κ) h)

/-! ### Sets -/

/-- Each element of the list is below all later ones. -/
def Ascending {α : Type} [Ord α] (xs : List α) : Prop :=
  xs.Pairwise fun a b => compare a b = .lt

namespace Ascending

variable {α : Type} [Ord α]

/-- Adds `x` at its place, unless it is there already. -/
def insert (x : α) : List α → List α
  | [] => [x]
  | y :: ys =>
    match compare x y with
    | .lt => x :: y :: ys
    | .eq => y :: ys
    | .gt => y :: insert x ys

/-- The set of the elements of a list. -/
def ofList (xs : List α) : List α := xs.foldl (fun set x => insert x set) []

/-- Inserting `x` with `Ascending.insert` adds `x` as a member and no other. -/
theorem mem_insert [Std.LawfulEqOrd α] {x a : α} {ys : List α} :
    a ∈ insert x ys ↔ a = x ∨ a ∈ ys := by
  induction ys with
  | nil => simp [insert]
  | cons y ys ih =>
    simp only [insert]
    split
    · simp
    · rename_i h
      rw [Std.LawfulEqOrd.eq_of_compare h]
      simp
    · simp only [List.mem_cons, ih]
      exact or_left_comm

/-- Inserting with `Ascending.insert` keeps a list strictly ascending, whether the member is new or
not. -/
theorem insert_ascending [Std.TransOrd α] [Std.LawfulEqOrd α] (x : α) {ys : List α}
    (h : Ascending ys) : Ascending (insert x ys) := by
  induction ys with
  | nil => exact List.pairwise_singleton ..
  | cons y ys ih =>
    obtain ⟨hy, hys⟩ := List.pairwise_cons.1 h
    simp only [insert]
    split
    · rename_i hxy
      refine h.cons fun a ha => ?_
      rcases List.mem_cons.1 ha with rfl | ha
      · exact hxy
      · exact Std.TransCmp.lt_trans hxy (hy a ha)
    · exact h
    · rename_i hxy
      refine (ih hys).cons fun a ha => ?_
      rcases mem_insert.1 ha with rfl | ha
      · exact Std.OrientedCmp.lt_of_gt hxy
      · exact hy a ha

/-- The set `Ascending.ofList xs` has the members of `xs`. -/
theorem mem_ofList [Std.LawfulEqOrd α] {a : α} {xs : List α} : a ∈ ofList xs ↔ a ∈ xs := by
  suffices h : ∀ set : List α, a ∈ xs.foldl (fun set x => insert x set) set ↔ a ∈ set ∨ a ∈ xs by
    simpa [ofList] using h []
  induction xs with
  | nil => simp
  | cons x xs ih =>
    intro set
    rw [List.foldl_cons, ih, mem_insert, List.mem_cons, or_comm (a := a = x), or_assoc]

/-- The members of `Ascending.ofList xs` are strictly ascending, whatever the order of `xs`. -/
theorem ofList_ascending [Std.TransOrd α] [Std.LawfulEqOrd α] (xs : List α) :
    Ascending (ofList xs) := by
  suffices h : ∀ set : List α, Ascending set →
      Ascending (xs.foldl (fun set x => insert x set) set) from h [] List.Pairwise.nil
  induction xs with
  | nil => exact fun _ h => h
  | cons x xs ih => exact fun set h => ih _ (insert_ascending x h)

end Ascending

/-! ### Maps -/

/-- A finite map, as the list of its entries with ascending keys. -/
structure OrderedMap (κ α : Type) where
  entries : List (κ × α) := []
  deriving DecidableEq, Repr

namespace OrderedMap

variable {κ α : Type}

/-- The map without entries. -/
def empty : OrderedMap κ α := {}

instance : Inhabited (OrderedMap κ α) := ⟨empty⟩

/-- The keys, in ascending order. -/
def keys (m : OrderedMap κ α) : List κ := m.entries.map Prod.fst

/-- The number of entries. -/
def size (m : OrderedMap κ α) : Nat := m.entries.length

variable [Ord κ]

/-- What a list of entries holds for the key `k`. -/
def findIn (k : κ) : List (κ × α) → Option α
  | [] => none
  | (k', a) :: rest => if compare k k' = .eq then some a else findIn k rest

/-- What the map holds for `k`. -/
def find? (m : OrderedMap κ α) (k : κ) : Option α := findIn k m.entries

/-- Puts `a` under the key `k` at its place, instead of what is there. -/
def insertIn (k : κ) (a : α) : List (κ × α) → List (κ × α)
  | [] => [(k, a)]
  | (k', b) :: rest =>
    match compare k k' with
    | .lt => (k, a) :: (k', b) :: rest
    | .eq => (k, a) :: rest
    | .gt => (k', b) :: insertIn k a rest

/-- The map that holds `a` for `k` and is unchanged elsewhere. -/
def insert (m : OrderedMap κ α) (k : κ) (a : α) : OrderedMap κ α := ⟨insertIn k a m.entries⟩

/-- What `findIn` finds in a list of entries after an update. The list need not be ascending. -/
theorem findIn_insertIn [Std.LawfulEqOrd κ] [DecidableEq κ] (k : κ) (a : α)
    (entries : List (κ × α)) (j : κ) :
    findIn j (insertIn k a entries) = if j = k then some a else findIn j entries := by
  have eq_iff (x y : κ) : compare x y = .eq ↔ x = y := Std.LawfulEqOrd.compare_eq_iff_eq
  induction entries with
  | nil => simp [insertIn, findIn, eq_iff]
  | cons e rest ih =>
    obtain ⟨k', b⟩ := e
    simp only [insertIn]
    split
    · simp [findIn, eq_iff]
    · rename_i h
      have h := (eq_iff _ _).1 h
      subst h
      by_cases hj : j = k <;> simp [findIn, eq_iff, hj]
    · rename_i h
      have hne : k ≠ k' := fun e => by
        rw [(eq_iff _ _).2 e] at h
        cases h
      by_cases hj : j = k'
      · subst hj
        simp [findIn, Ne.symm hne]
      · simp [findIn, eq_iff, hj, ih]

/-- An updated map holds the new entry under its key and what it held before elsewhere. -/
theorem find?_insert [Std.LawfulEqOrd κ] [DecidableEq κ] (m : OrderedMap κ α) (k : κ) (a : α)
    (j : κ) : (m.insert k a).find? j = if j = k then some a else m.find? j :=
  findIn_insertIn k a m.entries j

end OrderedMap

end ClosedWorld
