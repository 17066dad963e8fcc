import ClosedWorld.Ordered

/-!
# Identifiers

Everything a program or an analysis knows sits in a table and is named by its position there. One
type `Ident` serves all tables; its parameter says which table an identifier belongs to, so that a
call is never taken for an instance.

## Main definitions

* `Ident space`: a position in the table `space`, with a short text (`clazz#5`) and an expanded
  one (`Clazz(5)`).
* `Site`: the position of one instruction.
-/

namespace ClosedWorld

/-- The tables whose positions are identifiers. -/
inductive Space where
  /-- Fully resolved concrete types and features. -/
  | clazz
  /-- Instruction blocks. -/
  | code
  /-- Abstract objects. -/
  | object
  /-- Abstract activation records. -/
  | call
  /-- Nodes of the effect environment chains. -/
  | env
  /-- Abstract raw arrays. -/
  | array
  deriving DecidableEq, Repr

/-- The word that stands before the number in the short text of an identifier. -/
def Space.word : Space → String
  | .clazz => "clazz"
  | .code => "code"
  | .object => "instance"
  | .call => "call"
  | .env => "env"
  | .array => "array"

/-- The name of the identifier type in expanded texts. -/
def Space.typeName : Space → String
  | .clazz => "Clazz"
  | .code => "Code"
  | .object => "InstanceId"
  | .call => "CallId"
  | .env => "EnvId"
  | .array => "ArrayId"

/-- A position in the table `space`. -/
structure Ident (space : Space) where
  index : Nat
  deriving DecidableEq, Repr

/-- A clazz: a fully resolved concrete type or feature. -/
abbrev ClazzId := Ident .clazz

/-- An instruction block. -/
abbrev CodeId := Ident .code

/-- An abstract object. -/
abbrev InstanceId := Ident .object

/-- An abstract call. -/
abbrev CallId := Ident .call

/-- A node of an effect environment chain. -/
abbrev EnvId := Ident .env

/-- An abstract raw array. -/
abbrev ArrayId := Ident .array

namespace Ident

variable {space : Space}

/-- The short text: the word of the table and the position, as in `clazz#5`. -/
def text (i : Ident space) : String := space.word ++ "#" ++ Nat.repr i.index

/-- The expanded text: the type and the position, as in `Clazz(5)`. -/
def expanded (i : Ident space) : String := space.typeName ++ "(" ++ Nat.repr i.index ++ ")"

/-- The identifiers of a table with `n` entries, in order. -/
def below (space : Space) (n : Nat) : List (Ident space) := (List.range n).map Ident.mk

instance : Ord (Ident space) := ⟨compareOn index⟩

instance : Std.TransOrd (Ident space) := inferInstanceAs (Std.TransCmp (compareOn index))

/-- Identifiers of one table are told apart by their `index`. -/
theorem eq_of_index_eq (i j : Ident space) (h : i.index = j.index) : i = j := by
  cases i
  exact congrArg Ident.mk h

instance : Std.LawfulEqOrd (Ident space) := lawfulEqCmp_compareOn eq_of_index_eq

/-- There are `n` identifiers `below` position `n`. -/
@[simp] theorem length_below (space : Space) (n : Nat) : (below space n).length = n := by
  rw [below, List.length_map, List.length_range]

/-- The identifiers `below` position `n` are those whose `index` is less than `n`. -/
theorem mem_below {n : Nat} {i : Ident space} : i ∈ below space n ↔ i.index < n := by
  simp only [below, List.mem_map, List.mem_range]
  exact ⟨fun ⟨_, h, e⟩ => e ▸ h, fun h => ⟨i.index, h, rfl⟩⟩

end Ident

/-- The position of one instruction: the clazz whose code is walked, the block, and the index
inside the block. -/
structure Site where
  clazz : ClazzId
  code : CodeId
  index : Nat
  deriving DecidableEq, Repr

namespace Site

/-- The short text, as in `clazz#1@2.3`. -/
def text (s : Site) : String :=
  s.clazz.text ++ "@" ++ Nat.repr s.code.index ++ "." ++ Nat.repr s.index

/-- The expanded text, which names every part. -/
def expanded (s : Site) : String :=
  "Site \x7b clazz: " ++ s.clazz.expanded ++ ", code: " ++ s.code.expanded ++
    ", index: " ++ Nat.repr s.index ++ " \x7d"

/-- The numbers by which sites are ordered: clazz, then block, then index. -/
def sortKey (s : Site) : List Nat := [s.clazz.index, s.code.index, s.index]

/-- The `sortKey` of a site tells it apart from all others, so sites of equal rank are equal. -/
theorem eq_of_sortKey_eq (s t : Site) (h : s.sortKey = t.sortKey) : s = t := by
  obtain ⟨⟨_⟩, ⟨_⟩, _⟩ := s
  obtain ⟨⟨_⟩, ⟨_⟩, _⟩ := t
  simp_all [sortKey]

instance : Ord Site := ⟨compareOn sortKey⟩

instance : Std.TransOrd Site := inferInstanceAs (Std.TransCmp (compareOn sortKey))

instance : Std.LawfulEqOrd Site := lawfulEqCmp_compareOn eq_of_sortKey_eq

end Site

end ClosedWorld
