import ClosedWorld.Ident
import ClosedWorld.Numeric

/-!
# Abstract values

A value over-approximates what can be at some program point at run time. Most values are atoms:
one boolean, one number, one instance and so on, each possibly known only in part. A set holds
several atoms.

## Main definitions

* `Truth`, `Number`, `Value`: the values.
* `Value.atoms`: the members of a set, or the value itself.
* `Value.leaves`: the atoms under all boxes.
-/

namespace ClosedWorld

/-- An abstract boolean. -/
inductive Truth where
  | false
  | true
  /-- Either. -/
  | any
  deriving DecidableEq, Repr

namespace Truth

/-- Tag one is true, any other tag false. -/
def ofTag (tag : Nat) : Truth := if tag = 1 then .true else .false

/-- A match case that selects `tag` can be taken. -/
def admits : Truth → Nat → Bool
  | .any, _ => Bool.true
  | .true, tag => tag = 1
  | .false, tag => tag = 0

/-- The position in ascending order. -/
def rank : Truth → Nat
  | .false => 0
  | .true => 1
  | .any => 2

/-- The `rank` of a truth tells it apart from the others. -/
theorem eq_of_rank_eq {a b : Truth} (h : a.rank = b.rank) : a = b := by
  cases a <;> cases b <;> first | rfl | cases h

/-- The name where values are written out in full. -/
def expanded : Truth → String
  | .false => "False"
  | .true => "True"
  | .any => "Any"

end Truth

/-- A number of a fixed-width kind; without bits it is any number of that kind. -/
structure Number where
  clazz : ClazzId
  kind : NumericKind
  bits : Option UInt64
  deriving DecidableEq, Repr

/-- Any number of the kind. -/
def Number.any (clazz : ClazzId) (kind : NumericKind) : Number := ⟨clazz, kind, none⟩

/-- An over-approximation of the values at some program point. -/
inductive Value where
  /-- Nothing: the path that would produce it never returns. -/
  | noValue
  /-- What was never constructed, such as a field that is read before it is written. -/
  | undefined
  | unit
  | bool (truth : Truth)
  | number (number : Number)
  | object (id : InstanceId)
  /-- A value of `valueClazz` behind a reference of `refClazz`. -/
  | boxed (content : Value) (valueClazz refClazz : ClazzId)
  /-- The alternative number `tag` of the choice `choice`. -/
  | tagged (content : Value) (choice : ClazzId) (tag : Nat)
  | array (id : ArrayId)
  /-- One of several atoms, listed in ascending order. -/
  | set (members : List Value)
  deriving Repr

namespace Value

instance : Inhabited Value := ⟨noValue⟩

/-- The boolean `b`. -/
def ofBool (b : Bool) : Value := .bool (if b then .true else .false)

/-- The members of a set, or the value itself. -/
def atoms : Value → List Value
  | set members => members
  | v => [v]

/-- Nothing is there: the two values that a join ignores. -/
def isAbsent : Value → Bool
  | noValue | undefined => true
  | _ => false

mutual

/-- The atoms under all boxes, in order, without the absent ones. -/
def leaves : Value → List Value
  | set members => leavesOfAtoms members
  | boxed content _ _ => leaves content
  | noValue | undefined => []
  | v => [v]

/-- The leaves of a list of atoms; a set among atoms is a leaf. -/
def leavesOfAtoms : List Value → List Value
  | [] => []
  | set members :: rest => set members :: leavesOfAtoms rest
  | v :: rest => leaves v ++ leavesOfAtoms rest

end

mutual

/-- How deep boxes and tags are nested. -/
def depth : Value → Nat
  | boxed content _ _ => depth content + 1
  | tagged content _ _ => depth content + 1
  | set members => depthOfAtoms members
  | _ => 0

/-- The greatest depth in a list. -/
def depthOfAtoms : List Value → Nat
  | [] => 0
  | v :: rest => max (depth v) (depthOfAtoms rest)

end

end Value

end ClosedWorld
