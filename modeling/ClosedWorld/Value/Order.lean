import ClosedWorld.Value.Basic

/-!
# The order of values

Values are ordered by their form first and by their parts after that, from left to right. The order
is read off a code: the list of the numbers met on the way, in which each list of members says
where it ends. Codes are compared as lists of numbers are, so the order is transitive for free, and
since the code determines the value, only equal values compare as equal.

## Main definitions

* `Value.code`: the numbers by which values are ordered.
* The instances `Ord Value` and `DecidableEq Value`.

## Main statements

* `Value.code_injective`: the code determines the value.
-/

namespace ClosedWorld

namespace Number

/-- The parts of a number in order; unknown bits come before known ones. -/
def code (n : Number) : List Nat :=
  n.clazz.index :: n.kind.rank ::
    match n.bits with
    | none => [0]
    | some b => [1, b.toNat]

/-- The code of a number can be read off the front of a list, so nothing is lost when codes are
appended. -/
theorem code_append_inj {m n : Number} {r s : List Nat} (h : m.code ++ r = n.code ++ s) :
    m = n ∧ r = s := by
  obtain ⟨⟨c⟩, k, b⟩ := m
  obtain ⟨⟨d⟩, l, b'⟩ := n
  simp only [code, List.cons_append, List.cons.injEq] at h
  obtain ⟨rfl, hk, h⟩ := h
  obtain rfl := NumericKind.eq_of_rank_eq hk
  cases b <;> cases b' <;>
    simp_all [UInt64.toNat_inj]

end Number

namespace Value

mutual

/-- The numbers by which values are ordered: the rank of the form, then the parts. -/
def code : Value → List Nat
  | noValue => [0]
  | undefined => [1]
  | unit => [2]
  | bool truth => [3, truth.rank]
  | number n => 4 :: n.code
  | object id => [5, id.index]
  | boxed content valueClazz refClazz => 6 :: (code content ++ [valueClazz.index, refClazz.index])
  | tagged content choice tag => 7 :: (code content ++ [choice.index, tag])
  | array id => [8, id.index]
  | set members => 9 :: codeOfMembers members

/-- The codes of the members, each announced by a one, and a zero at the end. -/
def codeOfMembers : List Value → List Nat
  | [] => [0]
  | v :: rest => 1 :: (code v ++ codeOfMembers rest)

end

mutual

/-- The code of a value can be read off the front of a list: it says itself where it ends. -/
theorem code_append_inj : (v w : Value) → {r s : List Nat} → code v ++ r = code w ++ s →
    v = w ∧ r = s
  | noValue, w, r, s, h => by cases w <;> simp_all [code]
  | undefined, w, r, s, h => by cases w <;> simp_all [code]
  | unit, w, r, s, h => by cases w <;> simp_all [code]
  | bool t, w, r, s, h => by
    cases w <;> simp_all [code]
    exact Truth.eq_of_rank_eq h.1
  | number n, w, r, s, h => by
    cases w with
    | number m =>
      simp only [code, List.cons_append, List.cons.injEq, true_and] at h
      obtain ⟨hn, hr⟩ := Number.code_append_inj h
      exact ⟨congrArg number hn, hr⟩
    | _ => simp [code] at h
  | object i, w, r, s, h => by
    cases w <;> simp_all [code]
    exact Ident.eq_of_index_eq _ _ h.1
  | boxed o v' r', w, r, s, h => by
    cases w with
    | boxed o₂ v₂ r₂ =>
      simp only [code, List.cons_append, List.append_assoc, List.cons.injEq, true_and] at h
      obtain ⟨ho, hr⟩ := code_append_inj o o₂ h
      simp only [List.nil_append, List.cons.injEq] at hr
      simp [ho, Ident.eq_of_index_eq _ _ hr.1, Ident.eq_of_index_eq _ _ hr.2.1, hr.2.2]
    | _ => simp [code] at h
  | tagged o c t, w, r, s, h => by
    cases w with
    | tagged o₂ c₂ t₂ =>
      simp only [code, List.cons_append, List.append_assoc, List.cons.injEq, true_and] at h
      obtain ⟨ho, hr⟩ := code_append_inj o o₂ h
      simp only [List.nil_append, List.cons.injEq] at hr
      simp [ho, Ident.eq_of_index_eq _ _ hr.1, hr.2.1, hr.2.2]
    | _ => simp [code] at h
  | array i, w, r, s, h => by
    cases w <;> simp_all [code]
    exact Ident.eq_of_index_eq _ _ h.1
  | set xs, w, r, s, h => by
    cases w with
    | set ys =>
      simp only [code, List.cons_append, List.cons.injEq, true_and] at h
      obtain ⟨hm, hr⟩ := codeOfMembers_append_inj xs ys h
      exact ⟨congrArg set hm, hr⟩
    | _ => simp [code] at h

/-- The code of a list of members can be read off the front of a list, member by member. -/
theorem codeOfMembers_append_inj : (xs ys : List Value) → {r s : List Nat} →
    codeOfMembers xs ++ r = codeOfMembers ys ++ s → xs = ys ∧ r = s
  | [], ys, r, s, h => by cases ys <;> simp_all [codeOfMembers]
  | x :: xs, ys, r, s, h => by
    cases ys with
    | nil => simp [codeOfMembers] at h
    | cons y ys =>
      simp only [codeOfMembers, List.cons_append, List.append_assoc, List.cons.injEq, true_and] at h
      obtain ⟨hx, hr⟩ := code_append_inj x y h
      obtain ⟨hxs, hr⟩ := codeOfMembers_append_inj xs ys hr
      exact ⟨by rw [hx, hxs], hr⟩

end

/-- The `code` determines the value, so that only equal values compare as equal. -/
theorem code_injective (v w : Value) (h : v.code = w.code) : v = w :=
  (code_append_inj v w (r := []) (s := []) (by rw [h])).1

instance : DecidableEq Value := fun v w =>
  decidable_of_iff (v.code = w.code) ⟨code_injective v w, congrArg code⟩

instance : Ord Value := ⟨compareOn code⟩

instance : Std.TransOrd Value := inferInstanceAs (Std.TransCmp (compareOn code))

instance : Std.LawfulEqOrd Value := lawfulEqCmp_compareOn code_injective

end Value

end ClosedWorld
