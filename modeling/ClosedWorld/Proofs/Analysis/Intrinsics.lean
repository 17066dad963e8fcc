import ClosedWorld.Proofs.Analysis.Discipline

/-!
# Intrinsics keep to a discipline

## Main statements

* `IntrinsicTable.mem_individual_of_standard`, `IntrinsicTable.find?_standard`: the meanings in the
  table of the standard library.
* `AnalysisDiscipline.safe_handler`: each of them keeps to every discipline.
-/

namespace ClosedWorld

namespace IntrinsicTable

/-- The entries of a table after some have been added were there or are among those. -/
theorem mem_of_mem_foldl_insert {entries : List (String × Intrinsic)} {table : IntrinsicTable}
    {e : String × Intrinsic}
    (h : e ∈ (entries.foldl (fun table (name, intrinsic) => table.insert name intrinsic)
      table).entries) : e ∈ table.entries ∨ e ∈ entries := by
  induction entries generalizing table with
  | nil => exact .inl h
  | cons first rest ih =>
    rw [List.foldl_cons] at h
    rcases ih h with h | h
    · rcases OrderedMap.mem_entries_insert h with rfl | h
      · exact .inr List.mem_cons_self
      · exact .inl h
    · exact .inr (List.mem_cons_of_mem _ h)

/-- The last entry of a name counts. -/
theorem find?_foldl_insert (entries : List (String × Intrinsic)) (table : IntrinsicTable)
    (name : String) :
    (entries.foldl (fun table (name, intrinsic) => table.insert name intrinsic) table).find? name =
      (entries.reverse.lookup name).or (table.find? name) := by
  induction entries generalizing table with
  | nil => rfl
  | cons first rest ih =>
    obtain ⟨name', intrinsic⟩ := first
    rw [List.foldl_cons, ih, OrderedMap.find?_insert, List.reverse_cons, List.lookup_append,
      Option.or_assoc]
    by_cases same : name = name'
    · simp [same]
    · simp [List.lookup_cons, same, beq_eq_false_iff_ne.2 same]

/-- The names that `members` lists have the meaning that is given for all of them. -/
theorem eq_of_mem_members {types names : List String} {dot name : String}
    {meaning : Handler} {intrinsic : Intrinsic}
    (h : (name, intrinsic) ∈ members types dot names meaning) : intrinsic = .handler meaning := by
  unfold members at h
  obtain ⟨type, -, h⟩ := List.mem_flatMap.1 h
  obtain ⟨member, -, h⟩ := List.mem_map.1 h
  cases h
  rfl

/-- An intrinsic of the standard library yields any number or any boolean, or it has a meaning of
its own. -/
theorem mem_individual_of_standard {name : String} {meaning : Handler}
    (h : standard.find? name = some (.handler meaning)) :
    meaning = Handler.anyResult ∨ meaning = Handler.anyBool ∨ (name, meaning) ∈ individual := by
  have listed := OrderedMap.mem_entries_of_find? h
  unfold standard at listed
  have listed := (mem_of_mem_foldl_insert listed).resolve_left List.not_mem_nil
  unfold standardEntries at listed
  simp only [List.mem_append, List.mem_map, or_assoc] at listed
  have eq_of_members {types names : List String} {dot : String} {meaning' : Handler}
      (h : (name, .handler meaning) ∈ members types dot names meaning') : meaning = meaning' := by
    cases eq_of_mem_members h
    rfl
  rcases listed with h | h | h | h | h | h | ⟨_, -, h⟩ | ⟨e, he, h⟩ | ⟨_, -, h⟩
  · exact .inl (eq_of_members h)
  · exact .inr (.inl (eq_of_members h))
  · exact .inl (eq_of_members h)
  · exact .inr (.inl (eq_of_members h))
  · exact .inl (eq_of_members h)
  · exact .inr (.inl (eq_of_members h))
  · cases h
    exact .inl rfl
  · cases h
    exact .inr (.inr he)
  · cases h

/-- Looking up a name among meanings that are tagged as such is looking it up among the meanings. -/
theorem lookup_map_handler (entries : List (String × Handler)) (name : String) :
    (entries.map fun (name, meaning) => (name, Intrinsic.handler meaning)).lookup name =
      (entries.lookup name).map .handler := by
  induction entries with
  | nil => rfl
  | cons first rest ih =>
    rw [List.map_cons, List.lookup_cons, List.lookup_cons, ih]
    cases name == first.1 <;> rfl

/-- What has a meaning of its own has it in the table of the standard library. -/
theorem find?_standard {name : String} {meaning : Handler} (meant : name ∉ unsupported)
    (listed : individual.reverse.lookup name = some meaning) :
    standard.find? name = some (.handler meaning) := by
  have later : (unsupported.map fun name => (name, Intrinsic.unsupported)).reverse.lookup name =
      none := by
    refine List.lookup_eq_none_iff.2 fun e he => ?_
    obtain ⟨other, unmeant, rfl⟩ := List.mem_map.1 (List.mem_reverse.1 he)
    exact bne_iff_ne.2 fun same : name = other => meant (same ▸ unmeant)
  have own := lookup_map_handler individual.reverse name
  rw [listed, List.map_reverse] at own
  unfold standard standardEntries
  rw [find?_foldl_insert]
  simp only [List.reverse_append, List.lookup_append]
  rw [later, own]
  rfl

end IntrinsicTable

namespace AnalysisDiscipline

variable {z : Analyzer} (D : AnalysisDiscipline z) {a b : Analysis} {id : CallId}

/-! ### Plain results -/

/-- The meaning `anyResult` keeps to every discipline. -/
theorem safe_anyResult (h : D.runs.Alike a b) (hc : D.GoodCall a.store id) :
    D.Sound D.LooseAnswer (Handler.anyResult z.toSetting id) a b := by
  unfold Handler.anyResult
  refine safe_currentStore_bind h ?_
  apply safe_lift_bind h (D.gives_callKey (D.inv h) hc)
  intro key called
  cases (z.view.info key.clazz).result with
  | none => exact .throw h (D.allowed (D.allowed_of_isPlain rfl))
  | some result =>
    apply safe_lift_bind h (D.gives_anyNumber a.store result)
    intro n good
    exact .pure h (D.looseAnswer_some good.1)

/-! ### Arrays -/

/-- The meaning `arrayAlloc` keeps to every discipline: its array belongs to a good call. -/
theorem safe_arrayAlloc (allocates : z.view.HasIntrinsic "fuzion.sys.array.alloc")
    (h : D.runs.Alike a b) (hc : D.GoodCall a.store id) :
    D.Sound D.LooseAnswer (Handler.arrayAlloc z.toSetting id) a b := by
  unfold Handler.arrayAlloc
  have goodKey : D.GoodArrayKey z.view a.store (.alloc id) := ⟨hc, allocates⟩
  have interned := D.safe_internArray (D.inv h) goodKey
  apply (D.safe_onStore h interned).bind
  intro array a' b' h' _ good
  exact .pure h' (D.looseAnswer_some good)

/-- What is `present` in a good value is good. -/
theorem good_present {s : Store} {v : Value} (hv : D.Good s v) :
    ∀ atom ∈ Handler.present v, D.Good s atom :=
  fun _ ha => D.good_atom hv (List.mem_filter.1 ha).1

/-- A good value that is an array is a good array, and otherwise the fault is `Allowed`. -/
theorem gives_asArray {s : Store} {v : Value} (hv : D.Good s v) :
    Gives D.Allowed (fun array => D.Good s (.array array)) v.asArray := by
  cases v with
  | array array => exact .ok hv
  | _ => exact .error (D.allowed_of_isPlain rfl)

/-- Writing a good value into good arrays keeps to the discipline. -/
theorem safe_writeElements {value : Value} {arrays : List Value} (h : D.runs.Alike a b)
    (hv : D.Good a.store value) (ha : ∀ atom ∈ arrays, D.Good a.store atom) :
    D.Sound (fun _ _ => True) (Handler.writeElements value arrays) a b := by
  induction arrays generalizing a b with
  | nil => exact .pure h trivial
  | cons atom rest ih =>
    obtain ⟨good, goodRest⟩ := List.forall_mem_cons.1 ha
    unfold Handler.writeElements
    apply safe_lift_bind h (D.gives_asArray good)
    intro array goodArray
    have written := D.safe_arraySet (D.inv h) goodArray hv
    apply (D.safe_onStore h written).bind
    intro _ a' b' h' leads _
    have leads := D.leads_store leads
    exact ih h' (D.good_mono leads hv) fun atom ha => D.good_mono leads (goodRest atom ha)

/-- Reading the elements of good arrays gives a value that is `Loose`. -/
theorem gives_readElements {s : Store} (hi : D.Inv s) {arrays : List Value}
    (ha : ∀ atom ∈ arrays, D.Good s atom) {sofar : Value} (hs : D.Loose s sofar) :
    Gives D.Allowed (D.Loose s) (Handler.readElements s sofar arrays) := by
  induction arrays generalizing sofar with
  | nil => exact .ok hs
  | cons atom rest ih =>
    obtain ⟨good, goodRest⟩ := List.forall_mem_cons.1 ha
    unfold Handler.readElements
    apply (D.gives_asArray good).bind
    intro array _ goodArray
    apply (D.gives_arrayGet hi goodArray).bind
    intro held _ goodHeld
    exact ih goodRest (D.loose_join hs (.inr goodHeld))

/-- The meaning `arraySetel` keeps to every discipline. -/
theorem safe_arraySetel (h : D.runs.Alike a b) (hc : D.GoodCall a.store id) :
    D.Sound D.LooseAnswer (Handler.arraySetel z.toSetting id) a b := by
  unfold Handler.arraySetel
  refine safe_currentStore_bind h ?_
  apply safe_lift_bind h (D.gives_callKey (D.inv h) hc)
  intro key called
  have goodArgs := (D.goodKey (D.inv h) called).args
  apply safe_lift_bind h (D.gives_argument goodArgs 0)
  intro array goodArray
  apply safe_lift_bind h (D.gives_argument goodArgs 2)
  intro value goodValue
  refine (D.safe_writeElements h goodValue (D.good_present goodArray)).bind ?_
  exact fun _ a' b' h' _ _ => .pure h' (D.looseAnswer_some (D.good_unit _))

/-- The meaning `arrayGet` keeps to every discipline. -/
theorem safe_arrayGet (h : D.runs.Alike a b) (hc : D.GoodCall a.store id) :
    D.Sound D.LooseAnswer (Handler.arrayGet z.toSetting id) a b := by
  unfold Handler.arrayGet
  refine safe_currentStore_bind h ?_
  apply safe_lift_bind h (D.gives_callKey (D.inv h) hc)
  intro key called
  have goodArgs := (D.goodKey (D.inv h) called).args
  apply safe_lift_bind h (D.gives_argument goodArgs 0)
  intro array goodArray
  have read := D.gives_readElements (D.inv h) (D.good_present goodArray) (.inl rfl)
  refine safe_lift_bind h read fun v loose => .pure h ?_
  rintro _ ⟨⟩
  exact loose

/-! ### Effects -/

/-- The type of an effect is a known clazz, or the fault is `Allowed`. -/
theorem gives_effectType {clazz : ClazzId} (hk : D.Known clazz) :
    Gives D.Allowed (fun effect => D.Known effect ∧ (z.view.info clazz).effectType = some effect)
      (Handler.effectType z.toSetting clazz) := by
  unfold Handler.effectType
  split
  · rename_i effect typed
    exact .ok ⟨D.known_mentioned hk (by simp [ClazzInfo.references, typed]), typed⟩
  · exact .error (D.allowed_of_isPlain rfl)

/-- The meaning `effectDefault` keeps to every discipline. -/
theorem safe_effectDefault (h : D.runs.Alike a b) (hc : D.GoodCall a.store id) :
    D.Sound D.LooseAnswer (Handler.effectDefault z.toSetting id) a b := by
  unfold Handler.effectDefault
  refine safe_currentStore_bind h ?_
  apply safe_lift_bind h (D.gives_callKey (D.inv h) hc)
  intro key called
  have good := D.goodKey (D.inv h) called
  apply safe_lift_bind h (D.gives_effectType good.known)
  intro effect ⟨known, _⟩
  have installed := D.safe_installDefault (D.inv h) known good.target
  refine (D.safe_onStore h installed).bind ?_
  exact fun _ a' b' h' _ _ => .pure h' (D.looseAnswer_some (D.good_unit _))

/-- The meaning `effectReplace` keeps to every discipline. -/
theorem safe_effectReplace (h : D.runs.Alike a b) (hc : D.GoodCall a.store id) :
    D.Sound D.LooseAnswer (Handler.effectReplace z.toSetting id) a b := by
  unfold Handler.effectReplace
  refine safe_currentStore_bind h ?_
  apply safe_lift_bind h (D.gives_callKey (D.inv h) hc)
  intro key called
  have good := D.goodKey (D.inv h) called
  apply safe_lift_bind h (D.gives_effectType good.known)
  intro effect ⟨known, _⟩
  have replaced := D.safe_replaceEffect (D.inv h) good.env known good.target
  refine (D.safe_onStore h replaced).bind ?_
  exact fun _ a' b' h' _ _ => .pure h' (D.looseAnswer_some (D.good_unit _))

/-- The meaning `effectAbortable` keeps to every discipline: its node is good, and the call in it
has a good key. -/
theorem safe_effectAbortable {own : CallKey}
    (installs : z.view.CallsIntrinsic "effect.abortable" own) (h : D.runs.Alike a b)
    (hc : D.GoodCall a.store id) (hk : a.store.calls.key? id = some own) :
    D.Sound D.LooseAnswer (Handler.effectAbortable z.toSetting id) a b := by
  unfold Handler.effectAbortable
  refine safe_currentStore_bind h ?_
  apply safe_lift_bind h (D.gives_callKey (D.inv h) hc)
  intro key called
  obtain rfl : key = own := Option.some.inj (called.symm.trans hk)
  have good := D.goodKey (D.inv h) called
  apply safe_lift_bind h (D.gives_effectType good.known)
  intro effect ⟨_, typed⟩
  cases first : (z.view.info key.clazz).generics.head? with
  | none => exact .throw h (D.allowed (D.allowed_of_isPlain rfl))
  | some fn =>
    dsimp only
    cases routine : (z.view.info fn).call with
    | none => exact .throw h (D.allowed (D.allowed_of_isPlain rfl))
    | some call =>
      apply safe_lift_bind h (D.gives_argument good.args 0)
      intro target goodTarget
      have extended := D.safe_extendEnv (D.inv h) installs.hasIntrinsic good.env effect good.target
      apply (D.safe_onStore h extended).bind
      intro env a' b' h' leads ⟨bound, goodEnv⟩
      have leads := D.leads_store leads
      have knownFn : D.Known fn := by
        have listed := List.mem_of_mem_head? first
        exact D.known_mentioned good.known (by simp [ClazzInfo.references, listed])
      have goodKey : D.GoodKey z.view a'.store
          { clazz := call, pre := false, target, args := [], env := some env } :=
        { known := D.known_mentioned knownFn (by simp [ClazzInfo.references, routine])
          target := D.good_mono leads goodTarget
          args := List.forall_mem_nil _
          arity := D.goodArity_zero
          env := by rintro _ ⟨⟩; exact goodEnv
          checked := by rintro ⟨⟩ }
      have discovers : D.Discovers z.view a'.store id
          { clazz := call, pre := false, target, args := [], env := some env } :=
        .install (D.called_mono leads (D.called_of_key (D.inv h) hk)) installs typed rfl bound
          routine
      refine (D.safe_newCall h' goodKey (D.goodCall_mono leads hc) discovers).bind ?_
      exact fun _ a'' b'' h'' _ _ => .pure h'' (D.looseAnswer_some (D.good_unit _))

/-- The meaning `effectExists` keeps to every discipline. -/
theorem safe_effectExists (h : D.runs.Alike a b) (hc : D.GoodCall a.store id) :
    D.Sound D.LooseAnswer (Handler.effectExists z.toSetting id) a b := by
  unfold Handler.effectExists
  refine safe_currentStore_bind h ?_
  apply safe_lift_bind h (D.gives_callKey (D.inv h) hc)
  intro key called
  cases (z.view.info key.clazz).generics.head? with
  | none => exact .throw h (D.allowed (D.allowed_of_isPlain rfl))
  | some effect =>
    have good := D.goodKey (D.inv h) called
    apply safe_lift_bind h (D.gives_lookupEffect (D.inv h) good.env effect)
    intro installed _
    exact .pure h (D.looseAnswer_some (D.good_bool _ _))

/-- Every meaning keeps to the discipline, whatever the second analysis reports. -/
theorem safe_handler {name : String} {meaning : Handler} {key : CallKey}
    (hn : z.view.CallsIntrinsic name key)
    (hm : IntrinsicTable.standard.find? name = some (.handler meaning)) (h : D.runs.Alike a b)
    (hc : D.GoodCall a.store id) (hk : a.store.calls.key? id = some key) :
    D.runs.Safe D.LooseAnswer (meaning z.toSetting id)
      (meaning (z.beside D.reports).toSetting id) a b := by
  have unit : D.Sound D.LooseAnswer (Handler.unit z.toSetting id) a b :=
    .pure h (D.looseAnswer_some (D.good_unit _))
  have exit : D.Sound D.LooseAnswer (Handler.exit z.toSetting id) a b :=
    .pure h D.looseAnswer_none
  obtain rfl | rfl | listed := IntrinsicTable.mem_individual_of_standard hm
  · exact D.safe_anyResult h hc
  · exact .pure h (D.looseAnswer_some (D.good_bool _ _))
  · simp only [IntrinsicTable.individual, List.mem_cons, List.not_mem_nil, or_false,
      Prod.mk.injEq] at listed
    rcases listed with ⟨rfl, rfl⟩ | ⟨rfl, rfl⟩ | ⟨rfl, rfl⟩ | ⟨rfl, rfl⟩ | ⟨rfl, rfl⟩ | ⟨rfl, rfl⟩ |
      ⟨rfl, rfl⟩ | ⟨rfl, rfl⟩ | ⟨rfl, rfl⟩ | ⟨rfl, rfl⟩ | ⟨rfl, rfl⟩
    · exact exit
    · exact unit
    · exact unit
    · exact D.safe_arrayAlloc hn.hasIntrinsic h hc
    · exact D.safe_arraySetel h hc
    · exact D.safe_arrayGet h hc
    · exact D.safe_effectDefault h hc
    · exact D.safe_effectReplace h hc
    · exact D.safe_effectAbortable hn h hc hk
    · exact exit
    · exact D.safe_effectExists h hc

end AnalysisDiscipline

end ClosedWorld
