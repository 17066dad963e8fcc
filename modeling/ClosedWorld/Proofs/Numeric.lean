import ClosedWorld.Value.Basic
import Mathlib.Algebra.Group.Nat.Defs

/-!
# Payloads and bit patterns

A payload is read as the base-256 digits of a number. Its kind says how many of them count, so the
bit pattern of a payload uses the bits of the kind only, and the patterns which use no other bits
are those that a payload of just these bytes stands for.

## Main definitions

* `Number.Fits`: the bit pattern of a number uses the bits of its kind only.

## Main statements

* `ofLittleEndian_toLittleEndian`: writing digits and reading them cuts a number off.
* `NumericKind.toNat_lt_of_decode`: what a payload can stand for.
* `NumericKind.decode_encode`: a pattern that fits is read back from its payload.
-/

namespace ClosedWorld

/-! ### Digits -/

/-- A number is less than the power of `256` that has one digit more. -/
theorem ofLittleEndian_lt (bytes : List UInt8) : ofLittleEndian bytes < 256 ^ bytes.length := by
  induction bytes with
  | nil => exact Nat.one_pos
  | cons b rest ih =>
    have digit : b.toNat < 256 := b.toNat_lt
    rw [ofLittleEndian, List.length_cons, Nat.pow_succ]
    omega

/-- As many digits are written as are asked for. -/
@[simp] theorem length_toLittleEndian (count n : Nat) : (toLittleEndian count n).length = count := by
  induction count generalizing n with
  | zero => rfl
  | succ count ih => rw [toLittleEndian, List.length_cons, ih]

/-- The first `count` digits of a number are those of its remainder by `256 ^ count`: writing digits
and reading them cuts a number off. -/
theorem ofLittleEndian_toLittleEndian (count n : Nat) :
    ofLittleEndian (toLittleEndian count n) = n % 256 ^ count := by
  induction count generalizing n with
  | zero => rw [Nat.pow_zero, Nat.mod_one]; rfl
  | succ count ih =>
    have digit : (UInt8.ofNat n).toNat = n % 256 := UInt8.toNat_ofNat'
    rw [toLittleEndian, ofLittleEndian, ih, digit, Nat.pow_succ', Nat.mod_mul]

namespace NumericKind

variable {kind : NumericKind}

/-- The bits of a kind are its bytes, eight for each. -/
theorem two_pow_bits (kind : NumericKind) : 2 ^ (8 * kind.size) = 256 ^ kind.size := by
  rw [Nat.pow_mul]

/-- What `decode` reads from a payload uses the bits of the kind only. -/
theorem toNat_lt_of_decode {data : List UInt8} {bits : UInt64} (h : kind.decode data = some bits) :
    bits.toNat < 2 ^ (8 * kind.size) := by
  unfold decode at h
  split at h
  · cases h
  · rename_i long
    cases h
    have used : (data.take kind.size).length = kind.size := by
      rw [List.length_take]
      omega
    have digits := ofLittleEndian_lt (data.take kind.size)
    rw [used, ← two_pow_bits] at digits
    rw [UInt64.toNat_ofNat']
    exact Nat.lt_of_le_of_lt (Nat.mod_le _ _) digits

/-- A bit pattern that uses the bits of the kind only is read back by `decode` from its payload. -/
theorem decode_encode {bits : UInt64} (h : bits.toNat < 2 ^ (8 * kind.size)) :
    kind.decode (kind.encode bits) = some bits := by
  have used : (kind.encode bits).length = kind.size := length_toLittleEndian ..
  unfold decode
  rw [if_neg (by omega), List.take_of_length_le (Nat.le_of_eq used), encode,
    ofLittleEndian_toLittleEndian, ← two_pow_bits, Nat.mod_eq_of_lt h, UInt64.ofNat_toNat]

end NumericKind

/-- The bit pattern, if it is known, uses the bits of the kind only, and is what its payload stands
for. -/
def Number.Fits (n : Number) : Prop :=
  ∀ bits, n.bits = some bits →
    bits.toNat < 2 ^ (8 * n.kind.size) ∧ n.kind.decode (n.kind.encode bits) = some bits

/-- A number whose pattern is below the bound of its kind `Fits`. -/
theorem Number.fits_of_toNat_lt {clazz : ClazzId} {kind : NumericKind} {bits : UInt64}
    (h : bits.toNat < 2 ^ (8 * kind.size)) : Number.Fits ⟨clazz, kind, some bits⟩ := by
  rintro _ ⟨⟩
  exact ⟨h, NumericKind.decode_encode h⟩

end ClosedWorld
