import ClosedWorld.Decimal.Binary

/-!
# Fixed-width numbers

Numbers come in ten kinds: signed and unsigned integers of four widths, and two floating point
formats. Whatever the kind, a number is a pattern of 64 bits of which the kind uses the low ones,
and a constant payload holds the used bytes with the least significant first.

## Main definitions

* `NumericKind`, with `name` and `size`.
* `NumericKind.decode`, `NumericKind.encode`: between payloads and bit patterns.
* `NumericKind.formatBits`: the text of a bit pattern.
-/

namespace ClosedWorld

/-- The kinds of fixed-width numbers. -/
inductive NumericKind where
  | i8 | i16 | i32 | i64 | u8 | u16 | u32 | u64 | f32 | f64
  deriving DecidableEq, Repr

/-- The number whose base-256 digits are `bytes`, least significant first. -/
def ofLittleEndian : List UInt8 → Nat
  | [] => 0
  | b :: rest => b.toNat + 256 * ofLittleEndian rest

/-- The lowest `count` base-256 digits of `n`, least significant first. -/
def toLittleEndian : (count n : Nat) → List UInt8
  | 0, _ => []
  | count + 1, n => UInt8.ofNat n :: toLittleEndian count (n / 256)

/-- The integer between `-2 ^ (width - 1)` and `2 ^ (width - 1)` whose low `width` bits are those
of `n`. -/
def signedOfBits (width n : Nat) : Int := Int.bmod n (Nat.pow 2 width)

namespace NumericKind

/-- All kinds, in ascending order. -/
def all : List NumericKind := [.i8, .i16, .i32, .i64, .u8, .u16, .u32, .u64, .f32, .f64]

/-- The name of the kind. -/
def name : NumericKind → String
  | .i8 => "i8"
  | .i16 => "i16"
  | .i32 => "i32"
  | .i64 => "i64"
  | .u8 => "u8"
  | .u16 => "u16"
  | .u32 => "u32"
  | .u64 => "u64"
  | .f32 => "f32"
  | .f64 => "f64"

/-- The name of the kind where values are written out in full. -/
def expanded : NumericKind → String
  | .i8 => "I8"
  | .i16 => "I16"
  | .i32 => "I32"
  | .i64 => "I64"
  | .u8 => "U8"
  | .u16 => "U16"
  | .u32 => "U32"
  | .u64 => "U64"
  | .f32 => "F32"
  | .f64 => "F64"

/-- The position of the kind in `all`. -/
def rank : NumericKind → Nat
  | .i8 => 0
  | .i16 => 1
  | .i32 => 2
  | .i64 => 3
  | .u8 => 4
  | .u16 => 5
  | .u32 => 6
  | .u64 => 7
  | .f32 => 8
  | .f64 => 9

/-- The `rank` of a kind tells it apart from all others. -/
theorem eq_of_rank_eq {k l : NumericKind} (h : k.rank = l.rank) : k = l := by
  cases k <;> cases l <;> first | rfl | cases h

/-- The number of bytes that the kind uses. -/
def size : NumericKind → Nat
  | .i8 | .u8 => 1
  | .i16 | .u16 => 2
  | .i32 | .u32 | .f32 => 4
  | .i64 | .u64 | .f64 => 8

/-- The bit pattern of a constant payload, extended with zeros. Bytes after the used ones are
ignored, and a payload that is too short has no pattern. -/
def decode (kind : NumericKind) (data : List UInt8) : Option UInt64 :=
  if data.length < kind.size then none
  else some (UInt64.ofNat (ofLittleEndian (data.take kind.size)))

/-- The payload of a bit pattern. -/
def encode (kind : NumericKind) (bits : UInt64) : List UInt8 :=
  toLittleEndian kind.size bits.toNat

/-- The text of a bit pattern. Signed kinds and `f32` look at the bits that they use; unsigned kinds
write the whole pattern. -/
def formatBits (kind : NumericKind) (bits : UInt64) : String :=
  match kind with
  | .i8 | .i16 | .i32 | .i64 => toString (signedOfBits (8 * kind.size) bits.toNat)
  | .u8 | .u16 | .u32 | .u64 => Nat.repr bits.toNat
  | .f32 => BinaryFormat.binary32.text (bits.toNat % Nat.pow 2 32)
  | .f64 => BinaryFormat.binary64.text bits.toNat

end NumericKind

end ClosedWorld
