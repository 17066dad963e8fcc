import ClosedWorld.Value.Order

/-!
# Joining values

The join of two values describes whatever either of them describes. Atoms have merge keys, and of
each key a joined value holds at most one atom: two booleans become any boolean, two different
numbers of one clazz any number of its kind, and what is boxed or tagged alike is joined inside.

## Main definitions

* `MergeKey`, `Value.mergeKey?`: which atoms merge.
* `Value.join`, `Value.joinAll`: the join.
* `Value.isBelow`: a join that adds nothing.
-/

namespace ClosedWorld

/-- What two atoms have in common that are merged into one. -/
inductive MergeKey where
  | unit
  | bool
  | number (clazz : ClazzId)
  | object (id : InstanceId)
  | boxed (valueClazz refClazz : ClazzId)
  | tagged (choice : ClazzId) (tag : Nat)
  | array (id : ArrayId)
  deriving DecidableEq, Repr

namespace Value

/-- The merge key of an atom; absent values and sets have none. -/
def mergeKey? : Value → Option MergeKey
  | noValue | undefined | set _ => none
  | unit => some .unit
  | bool _ => some .bool
  | number n => some (.number n.clazz)
  | object id => some (.object id)
  | boxed _ valueClazz refClazz => some (.boxed valueClazz refClazz)
  | tagged _ choice tag => some (.tagged choice tag)
  | array id => some (.array id)

/-- Merges two atoms with one merge key; `inner` joins what they wrap. -/
def mergeAtoms (inner : Value → Value → Value) : Value → Value → Value
  | bool x, bool y => if x = y then bool x else bool .any
  -- Numbers of one clazz should be of one kind; the kind of the left one is kept.
  | number x, number y => if x.bits = y.bits then number x else number (.any x.clazz x.kind)
  | boxed x valueClazz refClazz, boxed y _ _ => boxed (inner x y) valueClazz refClazz
  | tagged x choice tag, tagged y _ _ => tagged (inner x y) choice tag
  | x, _ => x

/-- Adds the atom `v` to atoms with different merge keys: it is merged with the atom of its key, or
comes last if there is none. -/
def absorb (inner : Value → Value → Value) (v : Value) : List Value → List Value
  | [] => [v]
  | w :: rest =>
    if w.mergeKey? = v.mergeKey? then mergeAtoms inner w v :: rest else w :: absorb inner v rest

/-- One atom for each merge key that occurs in the list. -/
def mergeAll (inner : Value → Value → Value) (vs : List Value) : List Value :=
  (vs.filter fun v => v.mergeKey?.isSome).foldl (fun merged v => absorb inner v merged) []

/-- The value with the given atoms: a single atom stands for itself. -/
def ofAtoms : List Value → Value
  | [v] => v
  | vs => set (Ascending.ofList vs)

/-- One level of a join; `inner` joins what the atoms wrap. Nothing and the undefined value add
nothing to another value. -/
def joinBy (inner : Value → Value → Value) (v w : Value) : Value :=
  if v = w then v
  else
    match v, w with
    | noValue, x | x, noValue => x
    | undefined, x | x, undefined => x
    | _, _ => ofAtoms (mergeAll inner (v.atoms ++ w.atoms))

/-- The join of values that nest at most `depth` deep. -/
def joinWithin : (depth : Nat) → Value → Value → Value
  | 0 => joinBy fun v _ => v
  | depth + 1 => joinBy (joinWithin depth)

/-- The join of two values: what describes everything that either of them describes. -/
def join (v w : Value) : Value := joinWithin (max v.depth w.depth) v w

/-- The join of a list of values, from left to right. -/
def joinAll (vs : List Value) : Value := vs.foldl join noValue

/-- Everything that `v` describes is described by `w`: joining `v` adds nothing to `w`. -/
def isBelow (v w : Value) : Bool := v.join w = w

end Value

end ClosedWorld
