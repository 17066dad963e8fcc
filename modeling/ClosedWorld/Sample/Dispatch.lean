import ClosedWorld.Sample.Basic

/-!
# Samples about calls

Dynamic dispatch between two animals, calls that lead nowhere, and calls in different contexts.

## Main definitions

* `Sample.dispatch`, `Sample.noDispatchTarget`, `Sample.abstractCall`, `Sample.noCode`.
* `Sample.counter`.
-/

namespace ClosedWorld

namespace Sample

/-- Two animals that speak differently. -/
structure Animals where
  animal : ClazzId
  dog : ClazzId
  cat : ClazzId
  speak : ClazzId
  dogSpeak : ClazzId
  catSpeak : ClazzId

namespace Animals

/-- Adds the animals to a draft. -/
def install (p : Prelude) : StateM Draft Animals := do
  let animal ← addRefType "Animal"
  let speak ← Draft.add
    { name := some "Animal.speak", kind := .abstract, outer := some animal, result := some p.i32 }
  let dog ← addConstructor "Dog"
  let cat ← addConstructor "Cat"
  let dogSpeak ← addConstantRoutine p dog "speak" 1
  let catSpeak ← addConstantRoutine p cat "speak" 2
  return { animal, dog, cat, speak, dogSpeak, catSpeak }

/-- Has an animal speak, whichever it is. -/
def speakDynamically (a : Animals) : Instr :=
  .call (.dispatched a.speak [(a.dog, a.dogSpeak), (a.cat, a.catSpeak)])

end Animals

/-- A dog and a cat in fields of their own, where it is known who speaks, and both in one field.
```text
d := Dog; c := Cat
a := d.speak
pet := d; pet := c
b := pet.speak
``` -/
def dispatch : Sample := ofDraft do
  let p ← Prelude.install
  let animals ← Animals.install p
  let main ← Draft.declare "main"
  let d ← Draft.addField main "d" animals.dog
  let c ← Draft.addField main "c" animals.cat
  let a ← Draft.addField main "a" p.i32
  let pet ← Draft.addField main "pet" animals.animal
  let b ← Draft.addField main "b" p.i32
  let beforeA : List Instr :=
    [.current, .current, callOf animals.dog, assignTo d, .current, .current, callOf animals.cat,
      assignTo c, .current] ++ readOf d
  let beforeB : List Instr :=
    beforeA ++ [animals.speakDynamically, assignTo a] ++
      (([d, c].flatMap fun field => .current :: readOf field ++ [assignTo pet]) ++
        .current :: readOf pet)
  let body ← Draft.addCode (beforeB ++ [animals.speakDynamically, assignTo b])
  defineMain main body
  return clazzLabels
      [("animal", animals.animal), ("dog", animals.dog), ("cat", animals.cat),
        ("speak", animals.speak), ("dog_speak", animals.dogSpeak), ("cat_speak", animals.catSpeak),
        ("main", main), ("a", a), ("b", b), ("pet", pet)] ++
    [("monomorphic", .site ⟨main, body, beforeA.length⟩),
      ("polymorphic", .site ⟨main, body, beforeB.length⟩)]

/-- The labels of a sample in which one instruction leads nowhere. -/
def failureLabels (main : ClazzId) (body : CodeId) (index : Nat) : List (String × Label) :=
  [("main", .clazz main), ("site", .site ⟨main, body, index⟩)]

/-- A dynamic access whose only target type is that of dogs, on a cat. -/
def noDispatchTarget : Sample := ofDraft do
  let p ← Prelude.install
  let animals ← Animals.install p
  let main ← Draft.declare "main"
  let body ← Draft.addCode
    [.current, callOf animals.cat,
      .call (.dispatched animals.speak [(animals.dog, animals.dogSpeak)]), .pop]
  defineMain main body
  return failureLabels main body 2

/-- A static call of an abstract feature. -/
def abstractCall : Sample := ofDraft do
  let p ← Prelude.install
  let animals ← Animals.install p
  let main ← Draft.declare "main"
  let body ← Draft.addCode [.current, callOf animals.dog, callOf animals.speak, .pop]
  defineMain main body
  return failureLabels main body 2

/-- A static call of a routine without code. -/
def noCode : Sample := ofDraft do
  let p ← Prelude.install
  let ghost ← Draft.add
    { name := some "ghost", kind := .routine, outer := some p.universal, needsCode := false }
  let main ← Draft.declare "main"
  let body ← Draft.addCode [.current, callOf ghost, .pop]
  defineMain main body
  return failureLabels main body 1

/-- Two counters of one clazz, one of which is changed.
```text
Counter(init i32) ref is value := init
  set(v i32) is value := v
c1 := Counter 0; c2 := Counter 0
c2.set 5
seen := c2.value
``` -/
def counter : Sample := ofDraft do
  let p ← Prelude.install
  let counter ← Draft.declare "Counter"
  let init ← Draft.addField counter "init" p.i32
  let value ← Draft.addField counter "value" p.i32
  let counterBody ← Draft.addCode [.current, .arg 0, assignTo value]
  Draft.define counter
    { name := some "Counter", kind := .routine, result := some counter, args := [init],
      code := some counterBody, isRef := true }
  let set ← Draft.declare "Counter.set"
  let v ← Draft.addField set "v" p.i32
  let setBody ← Draft.addCode [.outer, .arg 0, assignTo value]
  Draft.define set
    { name := some "Counter.set", kind := .routine, outer := some counter, args := [v],
      code := some setBody }
  let main ← Draft.declare "main"
  let c1 ← Draft.addField main "c1" counter
  let c2 ← Draft.addField main "c2" counter
  let seen ← Draft.addField main "seen" p.i32
  let body ← Draft.addCode
    (([c1, c2].flatMap fun field =>
        [.current, .current, p.i32Const 0, callOf counter, assignTo field]) ++
      readOf c2 ++ [p.i32Const 5, callOf set, .pop, .current] ++
      readOf c2 ++ [callOf value, assignTo seen])
  defineMain main body
  return clazzLabels
    [("main", main), ("counter", counter), ("value", value), ("set", set), ("c1", c1), ("c2", c2),
      ("seen", seen)]

end Sample

end ClosedWorld
