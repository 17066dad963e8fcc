/-!
# Shortest decimal digits

A binary floating point number stands for all reals that round to it, an interval around its
value. Its shortest decimal is the point of that interval on the coarsest decimal grid that has
one; of two such points the nearer one counts, and of two equally near ones the larger.

## Main definitions

* `Decimal`: a count of units of a power of ten, with its positional text.
* `Rounding`: a number `significand * 2 ^ exponent` and the reals that round to it.
* `Rounding.shortest`: its shortest decimal.
-/

namespace ClosedWorld

/-- The number `units * 10 ^ scale`. -/
structure Decimal where
  units : Nat
  scale : Int
  deriving DecidableEq, Repr

/-- All digits in their places, without an exponent: zeros fill up to the point, and the point is
left out where no digit follows it. -/
def Decimal.text (d : Decimal) : String :=
  let digits := (Nat.repr d.units).toList
  if 0 ≤ d.scale then
    String.ofList (digits ++ List.replicate d.scale.toNat '0')
  else
    let places := (-d.scale).toNat
    let padded := List.replicate (places + 1 - digits.length) '0' ++ digits
    let whole := padded.length - places
    String.ofList (padded.take whole ++ '.' :: padded.drop whole)

/-- The number `significand * 2 ^ exponent` of a binary format, with a positive significand. Its
upper neighbour is `2 ^ exponent` away; the lower one is half as far if `nearerBelow` holds. -/
structure Rounding where
  significand : Nat
  exponent : Int
  nearerBelow : Bool
  deriving DecidableEq, Repr

namespace Rounding

variable (r : Rounding)

/-- Four times the significand: the value in quarter units. -/
def value : Nat := 4 * r.significand

/-- The lower end of the interval in quarter units: halfway to the lower neighbour. -/
def low : Nat := r.value - if r.nearerBelow then 1 else 2

/-- The upper end of the interval in quarter units: halfway to the upper neighbour. -/
def high : Nat := r.value + 2

/-- The ends round to the number itself exactly when its significand is even. -/
def closed : Bool := r.significand % 2 = 0

/-- The power of two by which quarter units are counted. -/
def quarter : Int := r.exponent - 2

/-- Quarter units per grid point of scale `s`, as a fraction: `n` quarter units are
`n * numerator / denominator` units of `10 ^ s`. -/
def numerator (s : Int) : Nat :=
  Nat.pow 2 r.quarter.toNat * Nat.pow 10 (-s).toNat

/-- The denominator that belongs to `numerator`. -/
def denominator (s : Int) : Nat :=
  Nat.pow 2 (-r.quarter).toNat * Nat.pow 10 s.toNat

/-- The decimal `units * 10 ^ s` rounds to the number. -/
def covers (s : Int) (units : Nat) : Bool :=
  let point := units * r.denominator s
  let lower := r.low * r.numerator s
  let upper := r.high * r.numerator s
  if r.closed then lower ≤ point && point ≤ upper else lower < point && point < upper

/-- The best point of the grid of scale `s`, if one of the two next to the value rounds to it. -/
def onGrid? (s : Int) : Option Decimal :=
  let scaled := r.value * r.numerator s
  let below := scaled / r.denominator s
  let distanceBelow := scaled - below * r.denominator s
  let distanceAbove := (below + 1) * r.denominator s - scaled
  match r.covers s below, r.covers s (below + 1) with
  | false, false => none
  | true, false => some ⟨below, s⟩
  | false, true => some ⟨below + 1, s⟩
  | true, true => some (if distanceBelow < distanceAbove then ⟨below, s⟩ else ⟨below + 1, s⟩)

/-- The scale of a grid on which the value itself is a point. -/
def exactScale : Int := min r.quarter 0

/-- Tries the grids from `steps` scales above the exact one down to it. -/
def search : Nat → Decimal
  | 0 => ⟨r.value * r.numerator r.exactScale / r.denominator r.exactScale, r.exactScale⟩
  | steps + 1 => (r.onGrid? (r.exactScale + steps + 1)).getD (search steps)

/-- The number of grids that can be coarser than the exact one and yet have a point in the
interval: one for each decimal digit of its upper end. -/
def gridCount : Nat :=
  (Nat.repr (r.high * r.numerator r.exactScale / r.denominator r.exactScale)).length

/-- The shortest decimal that rounds to the number. -/
def shortest : Decimal := r.search r.gridCount

end Rounding

end ClosedWorld
