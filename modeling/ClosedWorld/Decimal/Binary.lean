import ClosedWorld.Decimal.Shortest

/-!
# The text of binary floating point numbers

A bit pattern of a binary interchange format is a sign, a biased exponent and a fraction. Its text
is the shortest decimal that reads back as the same number, written without an exponent and without
a superfluous point.

## Main definitions

* `BinaryFormat`: the widths of exponent and fraction; `binary32` and `binary64`.
* `BinaryFormat.text`: the text of a bit pattern.
-/

namespace ClosedWorld

/-- A binary interchange format: widths of the exponent and of the fraction in bits. -/
structure BinaryFormat where
  exponentBits : Nat
  fractionBits : Nat
  deriving DecidableEq, Repr

namespace BinaryFormat

/-- The format of 32 bits. -/
def binary32 : BinaryFormat := ⟨8, 23⟩

/-- The format of 64 bits. -/
def binary64 : BinaryFormat := ⟨11, 52⟩

variable (f : BinaryFormat)

/-- The sign bit. -/
def negative (bits : Nat) : Bool :=
  bits / Nat.pow 2 (f.exponentBits + f.fractionBits) % 2 = 1

/-- The biased exponent. -/
def biasedExponent (bits : Nat) : Nat :=
  bits / Nat.pow 2 f.fractionBits % Nat.pow 2 f.exponentBits

/-- The fraction field. -/
def fraction (bits : Nat) : Nat := bits % Nat.pow 2 f.fractionBits

/-- What is subtracted from the exponent field, with the fraction counted in units. -/
def bias : Nat := Nat.pow 2 (f.exponentBits - 1) - 1 + f.fractionBits

/-- The exponent field of infinities and of what is no number. -/
def topExponent : Nat := Nat.pow 2 f.exponentBits - 1

/-- The magnitude of a finite nonzero pattern. An exponent field of zero stands for the least
exponent and drops the leading bit; where the fraction is zero, the number below is half as far. -/
def rounding (bits : Nat) : Rounding :=
  let e := f.biasedExponent bits
  let frac := f.fraction bits
  { significand := if e = 0 then frac else Nat.pow 2 f.fractionBits + frac
    exponent := (max e 1 : Nat) - (f.bias : Int)
    nearerBelow := frac = 0 ∧ 1 < e }

/-- The text of a pattern without its sign; the largest exponent marks infinities and, with a
fraction, what is no number. -/
def magnitudeText (bits : Nat) : String :=
  if f.biasedExponent bits = f.topExponent then "inf"
  else if f.biasedExponent bits = 0 ∧ f.fraction bits = 0 then "0"
  else (f.rounding bits).shortest.text

/-- The pattern stands for no number. -/
def isNaN (bits : Nat) : Bool :=
  f.biasedExponent bits = f.topExponent ∧ f.fraction bits ≠ 0

/-- The text of a pattern. Zeros keep their sign, and what is no number has none. -/
def text (bits : Nat) : String :=
  if f.isNaN bits then "NaN"
  else (if f.negative bits then "-" else "") ++ f.magnitudeText bits

end BinaryFormat

end ClosedWorld
