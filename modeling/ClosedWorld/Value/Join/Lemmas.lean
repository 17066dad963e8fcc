import ClosedWorld.Value.Join

/-!
# The join as a recursion

A join goes down as deep as its arguments are nested. What it finds there is never nested deeper
than they are, so going down further would not change it, and the values inside boxes and tags are
joined by the join itself.

## Main statements

* `Value.depth_join_le`: a join is not nested deeper than what is joined.
* `Value.joinWithin_eq_join`: any depth that is enough gives the join.
* `Value.join_eq`: the join is one level of a join, with the join inside.
-/

namespace ClosedWorld

namespace Value

/-! ### Depths of atoms -/

/-- The depth of a list of atoms is the least bound on the `depth` of each. -/
theorem depthOfAtoms_le_iff {vs : List Value} {n : Nat} :
    depthOfAtoms vs ≤ n ↔ ∀ v ∈ vs, v.depth ≤ n := by
  induction vs with
  | nil => simp [depthOfAtoms]
  | cons v vs ih => simp only [depthOfAtoms, Nat.max_le, List.forall_mem_cons, ih]

/-- An atom of a value is not nested deeper than the value. -/
theorem depth_le_of_mem_atoms {v a : Value} (h : a ∈ v.atoms) : a.depth ≤ v.depth := by
  cases v with
  | set members => exact depthOfAtoms_le_iff.1 (Nat.le_refl _) a h
  | _ => exact Nat.le_of_eq (congrArg depth (List.mem_singleton.1 h))

/-- The value `ofAtoms vs` is not nested deeper than the deepest of `vs`. -/
theorem depth_ofAtoms_le {vs : List Value} {n : Nat} (h : ∀ v ∈ vs, v.depth ≤ n) :
    (ofAtoms vs).depth ≤ n := by
  have set_le : (set (Ascending.ofList vs)).depth ≤ n := by
    rw [depth, depthOfAtoms_le_iff]
    exact fun v hv => h v (Ascending.mem_ofList.1 hv)
  unfold ofAtoms
  split
  · exact h _ (List.mem_singleton_self _)
  · exact set_le

/-! ### One level -/

/-- The function does not nest its arguments deeper. -/
def KeepsDepth (inner : Value → Value → Value) : Prop :=
  ∀ v w, (inner v w).depth ≤ max v.depth w.depth

section level

variable {inner inner' : Value → Value → Value} {n : Nat}

/-- If `inner` keeps depths, then two atoms that are merged by `mergeAtoms inner` are not nested
deeper than before. -/
theorem depth_mergeAtoms_le (hi : KeepsDepth inner) {v w : Value} (hv : v.depth ≤ n)
    (hw : w.depth ≤ n) : (mergeAtoms inner v w).depth ≤ n := by
  unfold mergeAtoms
  split
  · split <;> simp [depth]
  · split <;> simp [depth]
  · rename_i x _ _ y _ _
    have := hi x y
    simp only [depth] at hv hw ⊢
    omega
  · rename_i x _ _ y _ _
    have := hi x y
    simp only [depth] at hv hw ⊢
    omega
  · exact hv

/-- The atoms after `absorb inner v` are nested no deeper than `v` and the atoms before. -/
theorem depth_absorb_le (hi : KeepsDepth inner) {v : Value} (hv : v.depth ≤ n) {vs : List Value}
    (hvs : ∀ w ∈ vs, w.depth ≤ n) : ∀ w ∈ absorb inner v vs, w.depth ≤ n := by
  induction vs with
  | nil => simpa [absorb] using hv
  | cons w vs ih =>
    obtain ⟨hw, hvs⟩ := List.forall_mem_cons.1 hvs
    unfold absorb
    split
    · exact List.forall_mem_cons.2 ⟨depth_mergeAtoms_le hi hw hv, hvs⟩
    · exact List.forall_mem_cons.2 ⟨hw, ih hvs⟩

/-- Merging a list of atoms by `mergeAll inner` nests none of them deeper. -/
theorem depth_mergeAll_le (hi : KeepsDepth inner) {vs : List Value} (hvs : ∀ v ∈ vs, v.depth ≤ n) :
    ∀ w ∈ mergeAll inner vs, w.depth ≤ n := by
  suffices h : ∀ vs : List Value, (∀ v ∈ vs, v.depth ≤ n) → ∀ merged : List Value,
      (∀ w ∈ merged, w.depth ≤ n) →
      ∀ w ∈ vs.foldl (fun merged v => absorb inner v merged) merged, w.depth ≤ n from
    h _ (fun v hv => hvs v (List.mem_filter.1 hv).1) [] (by simp)
  intro vs
  induction vs with
  | nil => exact fun _ _ hm => hm
  | cons v vs ih =>
    intro hvs merged hm
    obtain ⟨hv, hvs⟩ := List.forall_mem_cons.1 hvs
    exact ih hvs _ (depth_absorb_le hi hv hm)

/-- One level of a join keeps depths if the join `inner` of what is inside does. This is the step of
`keepsDepth_joinWithin`. -/
theorem keepsDepth_joinBy (hi : KeepsDepth inner) : KeepsDepth (joinBy inner) := by
  intro v w
  have merged_le : (ofAtoms (mergeAll inner (v.atoms ++ w.atoms))).depth ≤ max v.depth w.depth := by
    refine depth_ofAtoms_le (depth_mergeAll_le hi fun a ha => ?_)
    rcases List.mem_append.1 ha with ha | ha
    · exact Nat.le_trans (depth_le_of_mem_atoms ha) (Nat.le_max_left ..)
    · exact Nat.le_trans (depth_le_of_mem_atoms ha) (Nat.le_max_right ..)
  unfold joinBy
  split
  · exact Nat.le_max_left ..
  · split
    · exact Nat.le_max_right ..
    · exact Nat.le_max_left ..
    · exact Nat.le_max_right ..
    · exact Nat.le_max_left ..
    · exact merged_le

/-- The functions agree on values that are nested less than `n` deep. -/
def AgreeBelow (n : Nat) (inner inner' : Value → Value → Value) : Prop :=
  ∀ v w, v.depth < n → w.depth < n → inner v w = inner' v w

/-- Where `inner` and `inner'` agree below depth `n`, they merge atoms of that depth in the same
way. -/
theorem mergeAtoms_congr (h : AgreeBelow n inner inner') {v w : Value} (hv : v.depth ≤ n)
    (hw : w.depth ≤ n) : mergeAtoms inner v w = mergeAtoms inner' v w := by
  unfold mergeAtoms
  split
  · rfl
  · rfl
  · simp only [depth] at hv hw
    rw [h _ _ hv hw]
  · simp only [depth] at hv hw
    rw [h _ _ hv hw]
  · rfl

/-- Where `inner` and `inner'` agree below depth `n`, an atom is absorbed in the same way by either.
-/
theorem absorb_congr (h : AgreeBelow n inner inner') {v : Value} (hv : v.depth ≤ n)
    {vs : List Value} (hvs : ∀ w ∈ vs, w.depth ≤ n) : absorb inner v vs = absorb inner' v vs := by
  induction vs with
  | nil => rfl
  | cons w vs ih =>
    obtain ⟨hw, hvs⟩ := List.forall_mem_cons.1 hvs
    simp only [absorb, mergeAtoms_congr h hw hv, ih hvs]

/-- Where `inner` and `inner'` agree below depth `n`, a list of atoms is merged in the same way by
either. The atoms met on the way stay within `n`, since `inner` keeps depths. -/
theorem mergeAll_congr (h : AgreeBelow n inner inner') (hi : KeepsDepth inner) {vs : List Value}
    (hvs : ∀ v ∈ vs, v.depth ≤ n) : mergeAll inner vs = mergeAll inner' vs := by
  suffices hf : ∀ vs : List Value, (∀ v ∈ vs, v.depth ≤ n) → ∀ merged : List Value,
      (∀ w ∈ merged, w.depth ≤ n) →
      vs.foldl (fun merged v => absorb inner v merged) merged =
        vs.foldl (fun merged v => absorb inner' v merged) merged from
    hf _ (fun v hv => hvs v (List.mem_filter.1 hv).1) [] (by simp)
  intro vs
  induction vs with
  | nil => exact fun _ _ _ => rfl
  | cons v vs ih =>
    intro hvs merged hm
    obtain ⟨hv, hvs⟩ := List.forall_mem_cons.1 hvs
    rw [List.foldl_cons, List.foldl_cons, ← absorb_congr h hv hm]
    exact ih hvs _ (depth_absorb_le hi hv hm)

/-- Where `inner` and `inner'` agree below depth `n`, one level of a join with either inside is the
same. -/
theorem joinBy_congr (h : AgreeBelow n inner inner') (hi : KeepsDepth inner) {v w : Value}
    (hv : v.depth ≤ n) (hw : w.depth ≤ n) : joinBy inner v w = joinBy inner' v w := by
  have merged_eq : mergeAll inner (v.atoms ++ w.atoms) = mergeAll inner' (v.atoms ++ w.atoms) := by
    refine mergeAll_congr h hi fun a ha => ?_
    rcases List.mem_append.1 ha with ha | ha
    · exact Nat.le_trans (depth_le_of_mem_atoms ha) hv
    · exact Nat.le_trans (depth_le_of_mem_atoms ha) hw
  simp only [joinBy, merged_eq]

end level

/-! ### All levels -/

/-- A join that goes down to depth `d` keeps depths, by induction on `d`. -/
theorem keepsDepth_joinWithin (d : Nat) : KeepsDepth (joinWithin d) := by
  induction d with
  | zero => exact keepsDepth_joinBy fun v w => Nat.le_max_left ..
  | succ d ih => exact keepsDepth_joinBy ih

/-- The join of two values is nested no deeper than the deeper of them. -/
theorem depth_join_le (v w : Value) : (v.join w).depth ≤ max v.depth w.depth :=
  keepsDepth_joinWithin _ v w

/-- Going down one level more than the values are nested makes no difference. -/
theorem joinWithin_succ {d : Nat} {v w : Value} (hv : v.depth ≤ d) (hw : w.depth ≤ d) :
    joinWithin (d + 1) v w = joinWithin d v w := by
  induction d generalizing v w with
  | zero =>
    refine joinBy_congr (n := 0) (fun x y hx _ => ?_) (keepsDepth_joinWithin 0) hv hw
    exact absurd hx (Nat.not_lt_zero _)
  | succ d ih =>
    refine joinBy_congr (n := d + 1) (fun x y hx hy => ?_) (keepsDepth_joinWithin (d + 1)) hv hw
    exact ih (Nat.le_of_lt_succ hx) (Nat.le_of_lt_succ hy)

/-- Every depth `d` that both values keep within gives their join. -/
theorem joinWithin_eq_join {d : Nat} {v w : Value} (hv : v.depth ≤ d) (hw : w.depth ≤ d) :
    joinWithin d v w = v.join w := by
  suffices h : ∀ extra, joinWithin (max v.depth w.depth + extra) v w = v.join w by
    have hd : max v.depth w.depth ≤ d := Nat.max_le.2 ⟨hv, hw⟩
    rw [← h (d - max v.depth w.depth), Nat.add_sub_cancel' hd]
  intro extra
  induction extra with
  | zero => rfl
  | succ extra ih =>
    rw [← ih, ← Nat.add_assoc]
    exact joinWithin_succ (by omega) (by omega)

/-- The join is one level of a join, with the join itself inside boxes and tags. -/
theorem join_eq (v w : Value) : v.join w = joinBy join v w := by
  have hv : v.depth ≤ max v.depth w.depth := Nat.le_max_left ..
  have hw : w.depth ≤ max v.depth w.depth := Nat.le_max_right ..
  rw [← joinWithin_eq_join (d := max v.depth w.depth + 1) (by omega) (by omega)]
  refine joinBy_congr (n := max v.depth w.depth) (fun x y hx hy => ?_) (keepsDepth_joinWithin _)
    hv hw
  exact joinWithin_eq_join (Nat.le_of_lt hx) (Nat.le_of_lt hy)

end Value

end ClosedWorld
