import ClosedWorld.Store.Basic

/-!
# Instances and their fields

An instance stands for all objects of a clazz that are created in one context. Writing a field joins
a value to what the field holds, in every instance that the target may be; reading joins what the
field holds in each of them.

## Main definitions

* `Store.internInstance`, `Store.instanceKey`, `Store.fields`.
* `Store.joinField`, `Store.setField`, `Store.readField`.
* `Store.boxInstance`.
-/

namespace ClosedWorld

namespace Store

/-- The instance of a clazz in a context, new if there is none yet. -/
def internInstance (clazz : ClazzId) (context : Option ClazzId) : Growing InstanceId := do
  let s ← get
  match s.instances.idOf? ⟨clazz, context⟩ with
  | some id => return id
  | none =>
    set { s with instances := s.instances.push ⟨clazz, context⟩ .empty }
    noteChange (.newInstance clazz)
    return s.instances.nextId

/-- The key of an instance. -/
def instanceKey (s : Store) (id : InstanceId) : Except Fault InstanceKey :=
  match s.instances.key? id with
  | some key => .ok key
  | none => .error (.unknownInstance id)

/-- The written fields of an instance. -/
def fields (s : Store) (id : InstanceId) : Except Fault Fields :=
  match s.instances.state? id with
  | some fields => .ok fields
  | none => .error (.unknownInstance id)

/-- Joins `value` into a field of one instance. -/
def joinField (id : InstanceId) (field : ClazzId) (value : Value) : Updating Unit := do
  let s ← get
  let fields ← s.fields id
  let held := fields.find? field
  let grown := held.elim value (·.join value)
  if held ≠ some grown then
    set { s with instances := s.instances.set id (fields.insert field grown) }
    noteChange (.fieldGrew field id value)

mutual

/-- Joins `value` into a field of every instance that the target may be. Boxes are looked into, and
absent values passed over. -/
def setField (field : ClazzId) (value : Value) : (target : Value) → Updating Unit
  | .set atoms => setFieldOfAtoms field value atoms
  | .object id => joinField id field value
  | .boxed content _ _ => setField field value content
  | .noValue | .undefined => return ()
  | target => throw (.unexpectedValue .object target)

/-- Joins `value` into a field of every instance that one of the atoms may be. -/
def setFieldOfAtoms (field : ClazzId) (value : Value) : (atoms : List Value) → Updating Unit
  | [] => return ()
  | .set atoms :: _ => throw (.unexpectedValue .object (.set atoms))
  | atom :: rest => do
    setField field value atom
    setFieldOfAtoms field value rest

end

mutual

/-- The join of what a field holds in every instance that the target may be. A field that was not
written holds the undefined value. -/
def readField (s : Store) (field : ClazzId) : (target : Value) → Except Fault Value
  | .set atoms => readFieldOfAtoms s field .noValue atoms
  | .object id => do return ((← s.fields id).find? field).getD .undefined
  | .boxed content _ _ => readField s field content
  | .noValue => return .noValue
  | .undefined => return .undefined
  | target => throw (.unexpectedValue .object target)

/-- The join of `sofar` and what a field holds in every instance that one of the atoms may be. -/
def readFieldOfAtoms (s : Store) (field : ClazzId) (sofar : Value) :
    (atoms : List Value) → Except Fault Value
  | [] => return sofar
  | .set atoms :: _ => throw (.unexpectedValue .object (.set atoms))
  | atom :: rest => do
    readFieldOfAtoms s field (sofar.join (← readField s field atom)) rest

end

/-- Joins fields with given values into an instance. -/
def joinFields (id : InstanceId) : List (ClazzId × Value) → Updating Unit
  | [] => return ()
  | (field, value) :: rest => do
    joinField id field value
    joinFields id rest

/-- The instance of `refClazz` into which a value instance is boxed: it has the same context and
receives every field of the value instance. -/
def boxInstance (id : InstanceId) (refClazz : ClazzId) : Updating InstanceId := do
  let key ← (← get).instanceKey id
  let boxed ← internInstance refClazz key.context
  let fields ← (← get).fields id
  joinFields boxed fields.entries
  return boxed

end Store

end ClosedWorld
