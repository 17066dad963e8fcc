import ClosedWorld.Proofs.Value.Semilattice

/-!
# What holds of a value at every depth

A value can be inside another one: as a member of a set, in a box or under a tag. What is said of
the value and of everything inside of it, at every depth, survives a join as long as it survives the
merging of two atoms.

## Main definitions

* `Value.parts`, `Value.Everywhere`: the value with everything inside of it.
* `Value.JoinStable`: properties that the merging of atoms keeps.

## Main statements

* `Value.JoinStable.everywhere_join`: such a property holds everywhere in a join.
-/

namespace ClosedWorld

namespace Value

mutual

/-- The value, and everything inside of it. -/
@[simp] def parts : Value → List Value
  | boxed content valueClazz refClazz => boxed content valueClazz refClazz :: parts content
  | tagged content choice tag => tagged content choice tag :: parts content
  | set members => set members :: partsOfAll members
  | v => [v]

/-- The values of a list, and everything inside of them. -/
@[simp] def partsOfAll : List Value → List Value
  | [] => []
  | v :: rest => parts v ++ partsOfAll rest

end

/-- The property holds of the value and of everything inside of it. -/
def Everywhere (P : Value → Prop) (v : Value) : Prop := ∀ part ∈ v.parts, P part

variable {P Q : Value → Prop} {v w : Value}

/-- What is in one of several values is listed in `partsOfAll`, and nothing else is. -/
theorem mem_partsOfAll {vs : List Value} {part : Value} :
    part ∈ partsOfAll vs ↔ ∃ v ∈ vs, part ∈ v.parts := by
  induction vs with
  | nil => simp
  | cons v vs ih => simp [ih]

/-- A property holds `Everywhere` in a box if it holds of the box and everywhere in its content. -/
@[simp] theorem everywhere_boxed {valueClazz refClazz : ClazzId} :
    (boxed v valueClazz refClazz).Everywhere P ↔
      P (boxed v valueClazz refClazz) ∧ v.Everywhere P := by
  simp [Everywhere]

/-- A property holds `Everywhere` in a tagged value if it holds of it and everywhere under the tag.
-/
@[simp] theorem everywhere_tagged {choice : ClazzId} {tag : Nat} :
    (tagged v choice tag).Everywhere P ↔ P (tagged v choice tag) ∧ v.Everywhere P := by
  simp [Everywhere]

/-- A property holds `Everywhere` in a set if it holds of the set and everywhere in its members. -/
@[simp] theorem everywhere_set {members : List Value} :
    (set members).Everywhere P ↔ P (set members) ∧ ∀ v ∈ members, v.Everywhere P := by
  unfold Everywhere
  simp only [parts, List.forall_mem_cons, mem_partsOfAll, forall_exists_index, and_imp]
  exact and_congr_right fun _ => ⟨fun h v hv part hp => h part v hv hp,
    fun h part v hv hp => h v hv part hp⟩

/-- In `noValue` there is nothing else, so `Everywhere` is about the value itself. -/
@[simp] theorem everywhere_noValue : noValue.Everywhere P ↔ P noValue := by
  simp [Everywhere]

/-- In `undefined` there is nothing else, so `Everywhere` is about the value itself. -/
@[simp] theorem everywhere_undefined : undefined.Everywhere P ↔ P undefined := by
  simp [Everywhere]

/-- In `unit` there is nothing else, so `Everywhere` is about the value itself. -/
@[simp] theorem everywhere_unit : unit.Everywhere P ↔ P unit := by
  simp [Everywhere]

/-- In a boolean there is nothing else, so `Everywhere` is about the value itself. -/
@[simp] theorem everywhere_bool {truth : Truth} :
    (bool truth).Everywhere P ↔ P (bool truth) := by
  simp [Everywhere]

/-- In a number there is nothing else, so `Everywhere` is about the value itself. -/
@[simp] theorem everywhere_number {n : Number} : (number n).Everywhere P ↔ P (number n) := by
  simp [Everywhere]

/-- An instance is named by an `InstanceId` and not in the value, so `Everywhere` is about the value
itself. -/
@[simp] theorem everywhere_object {id : InstanceId} :
    (object id).Everywhere P ↔ P (object id) := by
  simp [Everywhere]

/-- An array is named by an `ArrayId` and not in the value, so `Everywhere` is about the value
itself. -/
@[simp] theorem everywhere_array {id : ArrayId} : (array id).Everywhere P ↔ P (array id) := by
  simp [Everywhere]

/-- A value is the first of its own `parts`. -/
theorem mem_parts_self (v : Value) : v ∈ v.parts := by
  cases v <;> simp

/-- What holds `Everywhere` in a value holds of the value. -/
theorem Everywhere.self (h : v.Everywhere P) : P v := h v (mem_parts_self v)

/-- What follows from a property holds `Everywhere` where the property does. -/
theorem Everywhere.mono (hPQ : ∀ v, P v → Q v) (h : v.Everywhere P) : v.Everywhere Q :=
  fun part hp => hPQ part (h part hp)

/-- What holds `Everywhere` in a value holds everywhere in each of its `atoms`. -/
theorem Everywhere.of_mem_atoms {a : Value} (h : v.Everywhere P) (ha : a ∈ v.atoms) :
    a.Everywhere P := by
  cases v with
  | set members => exact (everywhere_set.1 h).2 a ha
  | _ => exact List.mem_singleton.1 ha ▸ h

/-! ### Joins -/

section mergeAll

variable {inner : Value → Value → Value}

/-- What survives merging holds of all atoms after one more was taken in by `absorb`. -/
theorem forall_mem_absorb (merge : ∀ x y, P x → P y → P (mergeAtoms inner x y)) (hv : P v)
    {vs : List Value} (hvs : ∀ w ∈ vs, P w) : ∀ w ∈ absorb inner v vs, P w := by
  induction vs with
  | nil => exact fun w hw => List.mem_singleton.1 hw ▸ hv
  | cons w vs ih =>
    obtain ⟨hw, hvs⟩ := List.forall_mem_cons.1 hvs
    unfold absorb
    split
    · exact List.forall_mem_cons.2 ⟨merge w v hw hv, hvs⟩
    · exact List.forall_mem_cons.2 ⟨hw, ih hvs⟩

/-- What survives merging holds of all atoms that `mergeAll` makes of atoms with the property. -/
theorem forall_mem_mergeAll (merge : ∀ x y, P x → P y → P (mergeAtoms inner x y))
    {vs : List Value} (hvs : ∀ v ∈ vs, P v) : ∀ w ∈ mergeAll inner vs, P w := by
  suffices h : ∀ vs : List Value, (∀ v ∈ vs, P v) → ∀ merged : List Value, (∀ w ∈ merged, P w) →
      ∀ w ∈ vs.foldl (fun merged v => absorb inner v merged) merged, P w from
    h _ (fun v hv => hvs v (List.mem_filter.1 hv).1) [] (List.forall_mem_nil _)
  intro vs
  induction vs with
  | nil => exact fun _ _ hm => hm
  | cons v vs ih =>
    intro hvs merged hm
    obtain ⟨hv, hvs⟩ := List.forall_mem_cons.1 hvs
    exact ih hvs _ (forall_mem_absorb merge hv hm)

end mergeAll

/-- The property is one of atoms, and it survives that two of them are merged. -/
structure JoinStable (P : Value → Prop) : Prop where
  set : ∀ members, P (set members)
  bool : P (bool .any)
  number : ∀ n, P (number n) → P (number (.any n.clazz n.kind))
  boxed : ∀ {v w valueClazz refClazz valueClazz' refClazz'}, P (boxed v valueClazz refClazz) →
    P (boxed w valueClazz' refClazz') → P (boxed (v.join w) valueClazz refClazz)
  tagged : ∀ {v w choice tag choice' tag'}, P (tagged v choice tag) → P (tagged w choice' tag') →
    P (tagged (v.join w) choice tag)

namespace JoinStable

variable (hP : JoinStable P)

include hP

/-- What holds `Everywhere` in some atoms, and of sets, holds everywhere in the value that `ofAtoms`
makes of them. -/
theorem everywhere_ofAtoms {vs : List Value} (h : ∀ v ∈ vs, v.Everywhere P) :
    (ofAtoms vs).Everywhere P := by
  unfold ofAtoms
  split
  · exact h _ (List.mem_singleton_self _)
  · exact everywhere_set.2 ⟨hP.set _, fun v hv => h v (Ascending.mem_ofList.1 hv)⟩

/-- Atoms are merged by joining what is in them, which is nested less deep, so the induction
hypothesis about `join` is enough for `mergeAtoms`. -/
theorem everywhere_mergeAtoms {n : Nat}
    (ih : ∀ v w : Value, v.depth < n → w.depth < n → v.Everywhere P → w.Everywhere P →
      (v.join w).Everywhere P)
    (hvn : v.depth ≤ n) (hwn : w.depth ≤ n) (hv : v.Everywhere P) (hw : w.Everywhere P) :
    (mergeAtoms join v w).Everywhere P := by
  unfold mergeAtoms
  split
  · split
    · exact hv
    · exact everywhere_bool.2 hP.bool
  · split
    · exact hv
    · exact everywhere_number.2 (hP.number _ hv.self)
  · obtain ⟨here, inside⟩ := everywhere_boxed.1 hv
    obtain ⟨here', inside'⟩ := everywhere_boxed.1 hw
    exact everywhere_boxed.2 ⟨hP.boxed here here', ih _ _ hvn hwn inside inside'⟩
  · obtain ⟨here, inside⟩ := everywhere_tagged.1 hv
    obtain ⟨here', inside'⟩ := everywhere_tagged.1 hw
    exact everywhere_tagged.2 ⟨hP.tagged here here', ih _ _ hvn hwn inside inside'⟩
  · exact hv

/-- The induction behind `everywhere_join`, on a bound `n` of the depth of both values. -/
theorem everywhere_join_of_depth_lt (n : Nat) : ∀ v w : Value, v.depth < n → w.depth < n →
    v.Everywhere P → w.Everywhere P → (v.join w).Everywhere P := by
  induction n with
  | zero => exact fun v w hvn => absurd hvn (Nat.not_lt_zero _)
  | succ n ih =>
    intro v w hvn hwn hv hw
    by_cases habs : v.isAbsent ∨ w.isAbsent
    · rcases join_eq_or_eq habs with he | he <;> rw [he] <;> assumption
    by_cases hne : v = w
    · rwa [hne, join_self]
    obtain ⟨hv', hw'⟩ : v.isAbsent = false ∧ w.isAbsent = false := by simpa using habs
    rw [join_eq_ofAtoms hv' hw' hne]
    -- What is merged may be merged again, so the bound on the depth is carried along.
    let Fits (a : Value) : Prop := a.depth ≤ n ∧ a.Everywhere P
    have fits_mergeAtoms (x y : Value) (hx : Fits x) (hy : Fits y) : Fits (mergeAtoms join x y) :=
      ⟨depth_mergeAtoms_le depth_join_le hx.1 hy.1,
        hP.everywhere_mergeAtoms ih hx.1 hy.1 hx.2 hy.2⟩
    have fits : ∀ a ∈ v.atoms ++ w.atoms, Fits a := by
      intro a ha
      rcases List.mem_append.1 ha with ha | ha
      · exact ⟨Nat.le_trans (depth_le_of_mem_atoms ha) (by omega), hv.of_mem_atoms ha⟩
      · exact ⟨Nat.le_trans (depth_le_of_mem_atoms ha) (by omega), hw.of_mem_atoms ha⟩
    have merged := forall_mem_mergeAll fits_mergeAtoms fits
    exact hP.everywhere_ofAtoms fun a ha => (merged a ha).2

/-- What holds `Everywhere` in two values holds everywhere in their join, for a property that is
`JoinStable`. -/
theorem everywhere_join (hv : v.Everywhere P) (hw : w.Everywhere P) : (v.join w).Everywhere P :=
  hP.everywhere_join_of_depth_lt (max v.depth w.depth + 1) v w (by omega) (by omega) hv hw

end JoinStable

end Value

end ClosedWorld
