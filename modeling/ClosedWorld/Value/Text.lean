import ClosedWorld.Value.Basic

/-!
# Texts of values

The short text of a value is what reports and messages show. The expanded text names every part and
tells any two values apart.

## Main definitions

* `Value.text`: the short text.
* `Value.expanded`: the expanded text.
-/

namespace ClosedWorld

/-- The name of a structure and its fields in braces. -/
def recordText (name : String) (fields : List (String × String)) : String :=
  name ++ " \x7b " ++ String.intercalate ", " (fields.map fun (k, v) => k ++ ": " ++ v) ++ " \x7d"

namespace Truth

/-- The short text. -/
def text : Truth → String
  | .false => "false"
  | .true => "true"
  | .any => "bool"

end Truth

namespace Number

/-- The kind, and the number after a colon if it is known. -/
def text (n : Number) : String :=
  match n.bits with
  | none => n.kind.name
  | some b => n.kind.name ++ ":" ++ n.kind.formatBits b

/-- All parts by name. -/
def expanded (n : Number) : String :=
  recordText "NumericValue"
    [("clazz", n.clazz.expanded), ("kind", n.kind.expanded),
      ("bits", match n.bits with
        | none => "None"
        | some b => "Some(" ++ Nat.repr b.toNat ++ ")")]

end Number

namespace Value

mutual

/-- The short text. -/
def text : Value → String
  | noValue => "void"
  | undefined => "undefined"
  | unit => "unit"
  | bool truth => truth.text
  | number n => n.text
  | object id => id.text
  | boxed content _ _ => "boxed(" ++ text content ++ ")"
  | tagged content _ tag => "tagged" ++ Nat.repr tag ++ "(" ++ text content ++ ")"
  | array id => id.text
  | set members => "\x7b" ++ String.intercalate ", " (texts members) ++ "\x7d"

/-- The short texts of the members. -/
def texts : List Value → List String
  | [] => []
  | v :: rest => text v :: texts rest

end

mutual

/-- The expanded text. -/
def expanded : Value → String
  | noValue => "NoValue"
  | undefined => "Undefined"
  | unit => "Unit"
  | bool truth => "Bool(" ++ truth.expanded ++ ")"
  | number n => "Numeric(" ++ n.expanded ++ ")"
  | object id => "Instance(" ++ id.expanded ++ ")"
  | boxed content valueClazz refClazz =>
    "Boxed(" ++ recordText "BoxedValue"
      [("original", expanded content), ("value_clazz", valueClazz.expanded),
        ("ref_clazz", refClazz.expanded)] ++ ")"
  | tagged content choice tag =>
    "Tagged(" ++ recordText "TaggedValue"
      [("original", expanded content), ("clazz", choice.expanded), ("tag", Nat.repr tag)] ++ ")"
  | array id => "SysArray(" ++ id.expanded ++ ")"
  | set members => "Set(\x7b" ++ String.intercalate ", " (expandedAll members) ++ "\x7d)"

/-- The expanded texts of the members. -/
def expandedAll : List Value → List String
  | [] => []
  | v :: rest => expanded v :: expandedAll rest

end

end Value

end ClosedWorld
