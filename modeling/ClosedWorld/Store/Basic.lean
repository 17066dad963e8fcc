import ClosedWorld.Interned
import ClosedWorld.Store.Fault
import ClosedWorld.Value.Join

/-!
# The store

The store holds all that an analysis has discovered, in four interning tables, and the default
effects. It only grows: keys are never removed, and values are only ever joined to. It also
remembers the first change since it was last asked, which is what keeps an analysis going.

## Main definitions

* `Store`: the tables.
* `Updating`, `Store.Growing`: operations on a store that may fail, and that cannot.
* `Store.noteChange`, `Store.takeChange`: the memory of changes.
-/

namespace ClosedWorld

/-- The fields of an instance that have been written, with their values. -/
abbrev Fields := OrderedMap ClazzId Value

/-- All that an analysis has discovered. -/
structure Store where
  instances : Interned .object InstanceKey Fields := {}
  calls : Interned .call CallKey CallState := {}
  /-- The state of a node is the value that its effect has now. -/
  envs : Interned .env EnvKey Value := {}
  /-- The state of an array is the join of its elements. -/
  arrays : Interned .array ArrayKey Value := {}
  defaults : OrderedMap ClazzId Value := {}
  /-- How often a default effect has grown. -/
  generation : Nat := 0
  /-- The first change since the last `takeChange`. -/
  change : Option Change := none
  deriving DecidableEq, Repr

/-- An operation on a store that may fail. -/
abbrev Updating (α : Type) := Attempt Fault Store α

namespace Store

instance : Inhabited Store := ⟨{}⟩

/-- An operation on a store that cannot fail. -/
abbrev Growing (α : Type) := StateM Store α

/-- Something has changed since the last `takeChange`. -/
def isChanged (s : Store) : Bool := s.change.isSome

/-- Remembers a change, unless an earlier one is remembered. -/
def noteChange (change : Change) : Growing Unit :=
  modify fun s => { s with change := s.change.or (some change) }

/-- Forgets the remembered change and returns it. -/
def takeChange : Growing (Option Change) := fun s => (s.change, { s with change := none })

end Store

end ClosedWorld
