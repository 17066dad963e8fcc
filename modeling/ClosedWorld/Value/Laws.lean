import ClosedWorld.Value.Join
import ClosedWorld.Value.Text

/-!
# Checking the laws of the join

Values that obey the rules of their representation form a join semilattice with nothing at the
bottom. The checks here run through samples of values, all pairs and all triples of them, and
collect every broken instance of a law.

## Main definitions

* `LawViolation`: a broken instance, with its `message`.
* `joinViolations`, `orderingViolations`, `bottomViolations`, `semilatticeViolations`: the checks.
* `violationReport?`: the text about the violations, if there are any.
-/

namespace ClosedWorld

/-- An instance of a law of the join that does not hold. -/
inductive LawViolation where
  | idempotence (a : Value)
  | commutativity (a b : Value)
  | associativity (a b c : Value)
  /-- The order says `below`, and whether `a` joined to `b` is `b` says `absorbed`. -/
  | consistency (a b : Value) (below absorbed : Bool)
  | antisymmetry (a b : Value)
  | bottomBelow (bottom x : Value)
  | bottomIdentity (bottom x : Value)
  deriving Repr

/-- The word for a truth value. -/
def truthWord (b : Bool) : String := if b then "true" else "false"

/-- The call of `join` on two texts. -/
def joinText (a b : String) : String := a ++ ".join(" ++ b ++ ")"

/-- The call of `is_subseteq` on two values. -/
def belowText (a b : Value) : String := a.expanded ++ ".is_subseteq(" ++ b.expanded ++ ")"

/-- What the violation says. -/
def LawViolation.message : LawViolation → String
  | idempotence a =>
    "join not idempotent: " ++ joinText a.expanded a.expanded ++ " != " ++ a.expanded
  | commutativity a b =>
    "join not commutative: " ++ joinText a.expanded b.expanded ++ " != " ++
      joinText b.expanded a.expanded
  | associativity a b c =>
    "join not associative: " ++
      joinText ("(" ++ joinText a.expanded b.expanded ++ ")") c.expanded ++ " != " ++
      joinText a.expanded (joinText b.expanded c.expanded)
  | consistency a b below absorbed =>
    "ordering inconsistent with join: " ++ belowText a b ++ " = " ++ truthWord below ++ ", but " ++
      joinText a.expanded b.expanded ++ " == " ++ b.expanded ++ " is " ++ truthWord absorbed
  | antisymmetry a b => "ordering not antisymmetric: " ++ a.expanded ++ " and " ++ b.expanded
  | bottomBelow bottom x => "bottom not below element: " ++ belowText bottom x ++ " = false"
  | bottomIdentity bottom x =>
    "bottom identity violated: " ++ joinText bottom.expanded x.expanded ++ " != " ++ x.expanded

/-- The single violation `v` if the law does not hold. -/
def brokenUnless (holds : Bool) (v : LawViolation) : List LawViolation := if holds then [] else [v]

/-- Where the join of sample values is not idempotent, commutative and associative. -/
def joinViolations (xs : List Value) : List LawViolation :=
  xs.flatMap fun a =>
    brokenUnless (a.join a = a) (.idempotence a) ++
      xs.flatMap fun b =>
        brokenUnless (a.join b = b.join a) (.commutativity a b) ++
          xs.flatMap fun c =>
            brokenUnless ((a.join b).join c = a.join (b.join c)) (.associativity a b c)

/-- Where the order of sample values disagrees with the join or is not antisymmetric. -/
def orderingViolations (xs : List Value) : List LawViolation :=
  xs.flatMap fun a =>
    xs.flatMap fun b =>
      let below := a.isBelow b
      let absorbed := decide (a.join b = b)
      brokenUnless (below = absorbed) (.consistency a b below absorbed) ++
        brokenUnless (!(below && b.isBelow a && a ≠ b)) (.antisymmetry a b)

/-- Where `bottom` is not below a sample value, or not an identity for it. -/
def bottomViolations (bottom : Value) (xs : List Value) : List LawViolation :=
  xs.flatMap fun x =>
    brokenUnless (bottom.isBelow x) (.bottomBelow bottom x) ++
      brokenUnless (bottom.join x = x) (.bottomIdentity bottom x)

/-- The violations of all laws of a join semilattice. -/
def semilatticeViolations (xs : List Value) : List LawViolation :=
  joinViolations xs ++ orderingViolations xs

/-- The number of violations, and each of them on a line of its own. -/
def violationReport? : List LawViolation → Option String
  | [] => none
  | vs =>
    let lines := vs.zipIdx.map fun (v, i) => "  " ++ Nat.repr (i + 1) ++ ". " ++ v.message ++ "\n"
    some (Nat.repr vs.length ++ " lattice law violation(s):\n" ++ String.join lines)

end ClosedWorld
