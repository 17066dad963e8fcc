import ClosedWorld.Walk.Block

/-!
# Listings

A listing writes code out as text. Values are expressions, and each instruction that does something
is a line. Some clazzes can be declared off limits: one that is refused ends the listing, and after
one that does not return nothing more is listed.

## Main definitions

* `Listing.Options`: what is listed, and where it ends.
* `Listing.processor`: the processor that lists.
-/

namespace ClosedWorld

namespace Listing

/-- What is listed, and where a listing ends. -/
structure Options where
  /-- Write the position of each instruction. -/
  headers : Bool := false
  /-- Clazzes that never return. -/
  diverging : List ClazzId := []
  /-- Clazzes that end the listing. -/
  refused : List ClazzId := []
  deriving DecidableEq, Repr

/-- Why there is no listing. -/
inductive Failure where
  /-- A refused clazz, by name, was met. -/
  | refused (name : String)
  | malformed (error : WalkError)
  deriving DecidableEq, Repr

/-- What the failure says. -/
def Failure.message : Failure → String
  | refused name => name
  | malformed error => error.message

/-- The lines of a listing. -/
abbrev Lines := List String

/-- What the processor remembers: the number of calls so far. -/
abbrev Listed := Attempt Failure Nat

variable (v : View) (options : Options)

/-- An expression about the clazz `guard`, after some lines. -/
def express (guard : ClazzId) (text : String) (lines : Lines := []) :
    Listed (Step String Lines) :=
  if options.refused.contains guard then throw (.refused (v.name guard))
  else if options.diverging.contains guard then return ⟨none, lines⟩
  else return ⟨some text, lines⟩

/-- The text of a constant: a truth value or a number where the clazz says so, and the payload
otherwise. -/
def constText (clazz : ClazzId) (data : List UInt8) : String :=
  match (v.info clazz).special with
  | some .bool => if data.head? = some 1 then "true" else "false"
  | some (.numeric kind) => ((kind.decode data).map kind.formatBits).getD "?"
  | _ => "[" ++ String.intercalate ", " (data.map fun b => Nat.repr b.toNat) ++ "]"

/-- The lines one level further in. -/
def indented (lines : Lines) : Lines := lines.map ("  " ++ ·)

/-- The lines of all cases, and whether control continues after one of them. -/
def listCases (walk : CodeId → Listed (Step String Lines)) :
    List MatchCase → Listed (Bool × Lines)
  | [] => return (false, [])
  | case :: rest => do
    let step ← walk case.code
    let (continues, lines) ← listCases walk rest
    let tags := String.intercalate ", " (case.tags.map Nat.repr)
    return (step.value.isSome || continues,
      ("case [" ++ tags ++ "]:") :: indented step.output ++ lines)

/-- The answer of a branch: `()` if control continues after it. -/
def branched (continues : Bool) (lines : Lines) : Step String Lines :=
  ⟨if continues then some "()" else none, lines⟩

/-- The processor that lists code. -/
def processor : Processor Failure Nat String Lines where
  malformed := .malformed
  sequence outputs := return outputs.flatten
  unitValue := return "()"
  header site := return if options.headers then ["@" ++ site.text] else []
  comment text := return ["// " ++ text]
  nop := return ["nop"]
  current clazz := express v options clazz ("cur<" ++ v.name clazz ++ ">")
  outer clazz := express v options clazz ("outer<" ++ v.name clazz ++ ">")
  arg clazz index := express v options clazz ("arg" ++ Nat.repr index)
  const _ clazz data := express v options clazz (constText v clazz data)
  adrOf x := return ⟨some ("&" ++ x), []⟩
  assign _ access target value :=
    return [target ++ "[" ++ v.name access.accessed ++ "] := " ++ value]
  call _ access target args := do
    let number ← get
    set (number + 1)
    let result := "t" ++ Nat.repr number
    let line := result ++ " := " ++ v.name access.accessed ++ "(" ++
      String.intercalate ", " (target :: args) ++ ")"
    express v options access.accessed result [line]
  box x valueClazz refClazz :=
    express v options refClazz
      ("box<" ++ v.name valueClazz ++ "," ++ v.name refClazz ++ ">(" ++ x ++ ")")
  unbox x refClazz valueClazz :=
    express v options refClazz
      ("unbox<" ++ v.name refClazz ++ "," ++ v.name valueClazz ++ ">(" ++ x ++ ")")
  tag _ x valueClazz choice tag :=
    express v options choice
      ("tag" ++ Nat.repr tag ++ "<" ++ v.name valueClazz ++ "," ++ v.name choice ++ ">(" ++ x ++
        ")")
  env _ effect := express v options effect ("env<" ++ v.name effect ++ ">")
  select walk site m subject := do
    let (continues, lines) ← listCases (walk site.clazz) m.cases
    return branched continues (("match " ++ subject ++ " \x7b") :: lines ++ ["\x7d"])
  cond walk site condition thenCode elseCode := do
    let thenStep ← walk site.clazz thenCode
    let elseStep ← walk site.clazz elseCode
    return branched (thenStep.value.isSome || elseStep.value.isSome)
      (("if " ++ condition ++ " \x7b") :: indented thenStep.output ++ "\x7d else \x7b" ::
        indented elseStep.output ++ ["\x7d"])
  contract _ kind condition :=
    return branched (condition ≠ "false") ["check " ++ kind.text ++ " " ++ condition]

end Listing

end ClosedWorld
