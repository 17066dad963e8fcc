import ClosedWorld.Store.Basic

/-!
# Raw arrays

An array stands for all that are allocated by one call or that back one constant string. Its
elements are not told apart.

## Main definitions

* `Store.internArray`, `Store.arraySet`, `Store.arrayGet`.
-/

namespace ClosedWorld

namespace Store

/-- The array of a key, new and without elements if there is none yet. -/
def internArray (key : ArrayKey) : Growing ArrayId := do
  let s ← get
  match s.arrays.idOf? key with
  | some id => return id
  | none =>
    set { s with arrays := s.arrays.push key .noValue }
    noteChange (.newArray key)
    return s.arrays.nextId

/-- The join of the elements of an array. -/
def elements (s : Store) (id : ArrayId) : Except Fault Value :=
  match s.arrays.state? id with
  | some elements => .ok elements
  | none => .error (.unknownArray id)

/-- Joins `value` into the elements of an array. -/
def arraySet (id : ArrayId) (value : Value) : Updating Unit := do
  let s ← get
  let elements ← s.elements id
  let grown := elements.join value
  if grown ≠ elements then
    set { s with arrays := s.arrays.set id grown }
    noteChange (.elementsGrew id value)

/-- What reading an array yields: the join of its elements, undefined if it has none. -/
def arrayGet (s : Store) (id : ArrayId) : Except Fault Value := do
  match ← s.elements id with
  | .noValue => return .undefined
  | elements => return elements

end Store

end ClosedWorld
