import ClosedWorld.Proofs.Numeric
import Mathlib.Tactic.Ring

/-!
# Payloads and the integers they denote

A bit pattern is written as a payload, read back from it, and printed. Each of the three cuts the
pattern in its own way: writing drops the high bytes, reading extends with zeros, and printing
reinterprets the highest bit that the kind uses. Here they are held against an account that knows
nothing of bit patterns: what the bytes of a payload denote in two's complement, and which texts
are decimal.

## Main definitions

* `twosComplement`: the signed integer that some bytes denote.
* `NumericKind.denoted`: the integer that the bytes of an integer kind denote.
* `IsNumeral`, `IsDecimal`: the decimal texts of natural numbers and of integers.

## Main statements

* `twosComplement_eq_bmod`: the signed integer is the one of least size with these low bits.
* `isDecimal_iff`: an integer has one decimal text.
* `NumericKind.isDecimal_formatBits_iff`: a pattern of an integer kind prints as what it denotes.
* `NumericKind.payload_roundTrip`: writing, reading and printing agree.
-/

namespace ClosedWorld

/-! ### Digits -/

/-- The digits of a number that was read from `bytes`, as many as these, are `bytes` again. -/
theorem toLittleEndian_ofLittleEndian (bytes : List UInt8) :
    toLittleEndian bytes.length (ofLittleEndian bytes) = bytes := by
  induction bytes with
  | nil => rfl
  | cons b rest ih =>
    have digit : b.toNat < 256 := b.toNat_lt
    have low : UInt8.ofNat (b.toNat + 256 * ofLittleEndian rest) = b := by
      apply UInt8.toNat_inj.mp
      rw [UInt8.toNat_ofNat', Nat.add_mul_mod_self_left, Nat.mod_eq_of_lt digit]
    have high : (b.toNat + 256 * ofLittleEndian rest) / 256 = ofLittleEndian rest := by omega
    rw [List.length_cons, ofLittleEndian, toLittleEndian, low, high, ih]

/-! ### Two's complement -/

/-- The signed integer that bytes denote, least significant first: the last byte counts negatively
from `128` on. -/
def twosComplement : List UInt8 → Int
  | [] => 0
  | [top] => if top.toNat < 128 then top.toNat else top.toNat - 256
  | b :: next :: rest => b.toNat + 256 * twosComplement (next :: rest)

/-- The integer that `twosComplement` reads differs from the unsigned one by a multiple of
`256 ^ bytes.length`, which so many bytes cannot hold. -/
theorem dvd_sub_twosComplement (bytes : List UInt8) :
    (256 ^ bytes.length : Int) ∣ ofLittleEndian bytes - twosComplement bytes := by
  induction bytes using twosComplement.induct with
  | case1 => simp [ofLittleEndian, twosComplement]
  | case2 top _ => simp [ofLittleEndian, twosComplement, *]
  | case3 top _ => simp [ofLittleEndian, twosComplement, *]
  | case4 b next rest ih =>
    obtain ⟨k, difference⟩ := ih
    refine ⟨k, ?_⟩
    rw [List.length_cons, pow_succ', mul_assoc, ← difference, ofLittleEndian, twosComplement]
    push_cast
    ring

/-- The unsigned integer is the remainder of the signed one by `256 ^ bytes.length`. -/
theorem ofLittleEndian_eq_emod (bytes : List UInt8) :
    (ofLittleEndian bytes : Int) = twosComplement bytes % 256 ^ bytes.length := by
  have below := ofLittleEndian_lt bytes
  rw [← Int.emod_eq_emod_iff_emod_sub_eq_zero.mpr
    (Int.emod_eq_zero_of_dvd (dvd_sub_twosComplement bytes))]
  exact (Int.emod_eq_of_lt (by omega) (by exact_mod_cast below)).symm

/-- A signed integer of so many bytes lies around zero: from `-128 * 256 ^ rest.length` to just
below its negation. -/
theorem twosComplement_bounds (b : UInt8) (rest : List UInt8) :
    -(128 * 256 ^ rest.length) ≤ twosComplement (b :: rest) ∧
      twosComplement (b :: rest) < 128 * 256 ^ rest.length := by
  have digit : b.toNat < 256 := b.toNat_lt
  induction rest generalizing b with
  | nil =>
    simp only [twosComplement, List.length_nil, pow_zero]
    split <;> omega
  | cons next rest ih =>
    have inner := ih next next.toNat_lt
    rw [List.length_cons, pow_succ', twosComplement]
    omega

/-- The signed integer that bytes denote is the one around zero, `Int.bmod`, with the low bits of
the number that they are the digits of. -/
theorem twosComplement_eq_bmod {bytes : List UInt8} (h : bytes ≠ []) :
    twosComplement bytes = Int.bmod (ofLittleEndian bytes) (256 ^ bytes.length) := by
  obtain ⟨b, rest, rfl⟩ := List.exists_cons_of_ne_nil h
  have bounds := twosComplement_bounds b rest
  have half : (256 ^ (b :: rest).length : Nat) = 2 * (128 * 256 ^ rest.length) := by
    rw [List.length_cons, pow_succ']
    ring
  symm
  rw [Int.bmod_eq_iff (Nat.pow_pos (by decide))]
  refine ⟨?_, ?_, ?_⟩
  · rw [half]
    push_cast
    omega
  · rw [half]
    push_cast
    omega
  · rw [← Int.dvd_neg, neg_sub]
    exact_mod_cast dvd_sub_twosComplement (b :: rest)

/-! ### Decimal texts -/

/-- The characters are the decimal digits of the number, from the highest one: a single digit, or
the digits of a positive number and one more. -/
inductive IsNumeral : List Char → Nat → Prop
  | digit (d : Nat) (isDigit : d < 10) : IsNumeral [Nat.digitChar d] d
  | more {high : List Char} {n : Nat} (positive : 0 < n) (numeral : IsNumeral high n) (d : Nat)
      (isDigit : d < 10) : IsNumeral (high ++ [Nat.digitChar d]) (10 * n + d)

/-- A number has one list of decimal digits, the one of `Nat.toDigits`. -/
theorem isNumeral_iff {digits : List Char} {n : Nat} :
    IsNumeral digits n ↔ digits = Nat.toDigits 10 n := by
  constructor
  · intro h
    induction h with
    | digit d isDigit => rw [Nat.toDigits_of_lt_base isDigit]
    | more positive _ d isDigit ih =>
      rw [ih, ← Nat.toDigits_append_toDigits (by decide) positive isDigit,
        Nat.toDigits_of_lt_base isDigit]
  · rintro rfl
    induction n using Nat.strong_induction_on with
    | _ n ih =>
      rw [Nat.toDigits_eq_if (by decide)]
      split
      · next single => exact .digit n single
      · next several =>
        have written := ih (n / 10) (by omega)
        have last : n % 10 < 10 := Nat.mod_lt _ (by decide)
        have numeral := IsNumeral.more (by omega) written (n % 10) last
        rwa [Nat.div_add_mod] at numeral

/-- No two numbers have their decimal digits in common. -/
theorem IsNumeral.number_unique {digits : List Char} {m n : Nat} (hm : IsNumeral digits m)
    (hn : IsNumeral digits n) : m = n := by
  rw [isNumeral_iff] at hm hn
  have read := congrArg (fun digits => Nat.ofDigitChars 10 digits 0) (hm.symm.trans hn)
  simpa [Nat.ofDigitChars_toDigits] using read

/-- The characters of a numeral are digits. So a sign is never taken for one. -/
theorem IsNumeral.isDigit {digits : List Char} {n : Nat} (h : IsNumeral digits n) :
    ∀ c ∈ digits, c.isDigit = true := by
  intro c hc
  rw [isNumeral_iff.mp h] at hc
  exact Nat.isDigit_of_mem_toDigits (by decide) (by decide) hc

/-- The text is that of the integer in decimal: its digits, with a sign in front if the integer is
negative. -/
inductive IsDecimal (text : String) : Int → Prop
  | natural {n : Nat} (numeral : IsNumeral text.toList n) : IsDecimal text n
  | negative {n : Nat} {digits : List Char} (positive : 0 < n) (sign : text.toList = '-' :: digits)
      (numeral : IsNumeral digits n) : IsDecimal text (-n)

/-- The text of a natural number, as an integer, consists of its decimal digits. -/
theorem toList_toString_natCast (n : Nat) : (toString (n : Int)).toList = Nat.toDigits 10 n :=
  Nat.toList_repr

/-- The text of a negative integer consists of a sign and the decimal digits of its negation. -/
theorem toList_toString_neg {n : Nat} (h : 0 < n) :
    (toString (-n : Int)).toList = '-' :: Nat.toDigits 10 n := by
  have below : ¬ 0 ≤ (-n : Int) := by omega
  rw [Int.toString_eq_repr, Int.repr_eq_if, if_neg below, neg_neg, Int.toNat_natCast,
    String.toList_append, Nat.toList_repr]
  rfl

/-- An integer has one decimal text, the one of `toString`. -/
theorem isDecimal_iff {text : String} {z : Int} : IsDecimal text z ↔ text = toString z := by
  constructor
  · intro h
    apply String.toList_injective
    rcases h with numeral | ⟨positive, sign, numeral⟩
    · rw [isNumeral_iff.mp numeral, toList_toString_natCast]
    · rw [sign, isNumeral_iff.mp numeral, toList_toString_neg positive]
  · rintro rfl
    obtain ⟨n, rfl | rfl⟩ := z.eq_nat_or_neg
    · exact .natural (isNumeral_iff.mpr (toList_toString_natCast n))
    · rcases n.eq_zero_or_pos with rfl | positive
      · exact .natural (n := 0) (isNumeral_iff.mpr (toList_toString_natCast 0))
      · exact .negative positive (toList_toString_neg positive) (isNumeral_iff.mpr rfl)

/-- No two integers have a decimal text in common. -/
theorem IsDecimal.integer_unique {text : String} {z w : Int} (hz : IsDecimal text z)
    (hw : IsDecimal text w) : z = w := by
  have unsigned {digits : List Char} {n : Nat} : ¬ IsNumeral ('-' :: digits) n := by
    intro numeral
    have digit := numeral.isDigit '-' List.mem_cons_self
    exact absurd digit (by decide)
  rcases hz with nz | ⟨_, sz, nz⟩ <;> rcases hw with nw | ⟨_, sw, nw⟩
  · rw [nz.number_unique nw]
  · rw [sw] at nz
    exact absurd nz unsigned
  · rw [sz] at nw
    exact absurd nw unsigned
  · rw [sz, List.cons_inj_right] at sw
    rw [nz.number_unique (sw ▸ nw)]

/-! ### Kinds -/

namespace NumericKind

variable {kind : NumericKind}

/-- The kind is not a floating point format. -/
def IsInteger (kind : NumericKind) : Prop := kind ≠ .f32 ∧ kind ≠ .f64

/-- The integer that the bytes of an integer kind denote, in two's complement if the kind is
signed. The floating point formats denote none. -/
def denoted (kind : NumericKind) (bytes : List UInt8) : Option Int :=
  match kind with
  | .i8 | .i16 | .i32 | .i64 => some (twosComplement bytes)
  | .u8 | .u16 | .u32 | .u64 => some (ofLittleEndian bytes)
  | .f32 | .f64 => none

/-- Bytes of an integer kind always denote some integer. -/
theorem IsInteger.exists_denoted (h : kind.IsInteger) (bytes : List UInt8) :
    ∃ z, kind.denoted bytes = some z := by
  cases kind with
  | f32 => exact absurd rfl h.1
  | f64 => exact absurd rfl h.2
  | _ => exact ⟨_, rfl⟩

/-- Payloads of one length that denote the same integer have the same digits. -/
theorem ofLittleEndian_eq_of_denoted {bytes bytes' : List UInt8} {z : Int}
    (length : bytes.length = bytes'.length) (h : kind.denoted bytes = some z)
    (h' : kind.denoted bytes' = some z) : ofLittleEndian bytes = ofLittleEndian bytes' := by
  cases kind with
  | i8 | i16 | i32 | i64 =>
    have signed : twosComplement bytes = twosComplement bytes' :=
      Option.some_inj.mp (h.trans h'.symm)
    have residue := ofLittleEndian_eq_emod bytes
    rw [signed, length, ← ofLittleEndian_eq_emod bytes'] at residue
    exact Int.ofNat_inj.mp residue
  | u8 | u16 | u32 | u64 => exact Int.ofNat_inj.mp (Option.some_inj.mp (h.trans h'.symm))
  | f32 | f64 => cases h

/-! ### Payloads -/

/-- The payload of a pattern has as many bytes as the kind uses. -/
@[simp] theorem length_encode (kind : NumericKind) (bits : UInt64) :
    (kind.encode bits).length = kind.size :=
  length_toLittleEndian ..

/-- Decoding with `decode` refuses a payload exactly if it has fewer bytes than the kind uses. -/
theorem decode_eq_none_iff {data : List UInt8} :
    kind.decode data = none ↔ data.length < kind.size := by
  rw [decode]
  split <;> simp_all

/-- Only the bytes that the kind uses are read by `decode`, whatever the `rest`. -/
theorem decode_append {data : List UInt8} (h : data.length = kind.size) (rest : List UInt8) :
    kind.decode (data ++ rest) = some (UInt64.ofNat (ofLittleEndian data)) := by
  have long : ¬ (data ++ rest).length < kind.size := by
    rw [List.length_append]
    omega
  rw [decode, if_neg long, List.take_left' h]

/-- A pattern is read back from its payload without the bits that the kind does not use. -/
theorem decode_encode_append (bits : UInt64) (rest : List UInt8) :
    kind.decode (kind.encode bits ++ rest) =
      some (UInt64.ofNat (bits.toNat % 2 ^ (8 * kind.size))) := by
  rw [decode_append (length_encode kind bits), encode, ofLittleEndian_toLittleEndian, two_pow_bits]

/-- No kind uses more than the eight bytes of a pattern. -/
theorem size_le (kind : NumericKind) : kind.size ≤ 8 := by
  cases kind <;> decide

/-- Every kind uses some byte. -/
theorem size_pos (kind : NumericKind) : 0 < kind.size := by
  cases kind <;> decide

/-- The bytes that `decode` reads are the payload that `encode` writes for the pattern it yields. -/
theorem encode_of_decode {data : List UInt8} {bits : UInt64} (h : kind.decode data = some bits) :
    kind.encode bits = data.take kind.size := by
  have long : ¬ data.length < kind.size := by
    rw [← decode_eq_none_iff, h]
    simp
  have used : (data.take kind.size).length = kind.size := List.length_take_of_le (by omega)
  have fits : ofLittleEndian (data.take kind.size) < 2 ^ 64 := by
    calc ofLittleEndian (data.take kind.size)
      _ < 256 ^ kind.size := by simpa only [used] using ofLittleEndian_lt (data.take kind.size)
      _ ≤ 256 ^ 8 := Nat.pow_le_pow_right (by decide) kind.size_le
  rw [decode, if_neg long, Option.some_inj] at h
  rw [← h, encode, UInt64.toNat_ofNat_of_lt' fits]
  nth_rewrite 1 [← used]
  exact toLittleEndian_ofLittleEndian _

/-- The bytes that `encode` writes are the digits of the pattern, if this fits the kind. -/
theorem ofLittleEndian_encode {bits : UInt64} (h : bits.toNat < 2 ^ (8 * kind.size)) :
    ofLittleEndian (kind.encode bits) = bits.toNat := by
  rw [encode, ofLittleEndian_toLittleEndian, ← two_pow_bits, Nat.mod_eq_of_lt h]

/-- The bits that a signed kind uses are read in two's complement, as `formatBits` does to print
them. -/
theorem twosComplement_encode {bits : UInt64} (h : bits.toNat < 2 ^ (8 * kind.size)) :
    twosComplement (kind.encode bits) = signedOfBits (8 * kind.size) bits.toNat := by
  have bytes : kind.encode bits ≠ [] := by
    rw [← List.length_pos_iff, length_encode]
    exact kind.size_pos
  rw [twosComplement_eq_bmod bytes, length_encode, ofLittleEndian_encode h, ← two_pow_bits]
  rfl

/-- A pattern of an integer kind that fits it prints as the integer that its bytes denote, in
decimal. -/
theorem isDecimal_formatBits_iff {bits : UInt64} {z : Int} {text : String}
    (h : bits.toNat < 2 ^ (8 * kind.size)) (hz : kind.denoted (kind.encode bits) = some z) :
    IsDecimal text z ↔ text = kind.formatBits bits := by
  have printed : toString z = kind.formatBits bits := by
    cases kind with
    | i8 | i16 | i32 | i64 =>
      cases hz
      exact congrArg toString (twosComplement_encode h)
    | u8 | u16 | u32 | u64 =>
      cases hz
      rw [ofLittleEndian_encode h]
      rfl
    | f32 | f64 => cases hz
  rw [isDecimal_iff, printed]

/-- Patterns of an integer kind that print alike by `formatBits` are the same. -/
theorem IsInteger.formatBits_inj {bits bits' : UInt64} (integer : kind.IsInteger)
    (h : bits.toNat < 2 ^ (8 * kind.size)) (h' : bits'.toNat < 2 ^ (8 * kind.size))
    (printed : kind.formatBits bits = kind.formatBits bits') : bits = bits' := by
  obtain ⟨z, hz⟩ := integer.exists_denoted (kind.encode bits)
  obtain ⟨z', hz'⟩ := integer.exists_denoted (kind.encode bits')
  have text := (isDecimal_formatBits_iff h hz).mpr rfl
  have text' := (isDecimal_formatBits_iff h' hz').mpr printed
  obtain rfl := text.integer_unique text'
  have digits := ofLittleEndian_eq_of_denoted (by simp) hz hz'
  rw [ofLittleEndian_encode h, ofLittleEndian_encode h'] at digits
  exact UInt64.toNat_inj.mp digits

/-- Writing, reading and printing agree. A pattern is written with the bytes of its kind and read
back, whatever follows, without the bits that do not count; a payload can be read unless it is too
short, and its pattern is written as the bytes that were read; and a pattern of an integer kind
prints as the one decimal text of the integer that its bytes denote, so that patterns read from
payloads are told apart by their texts. -/
theorem payload_roundTrip (kind : NumericKind) :
    (∀ bits rest, (kind.encode bits).length = kind.size ∧
      kind.decode (kind.encode bits ++ rest) =
        some (UInt64.ofNat (bits.toNat % 2 ^ (8 * kind.size)))) ∧
    (∀ data, (kind.decode data = none ↔ data.length < kind.size) ∧
      ∀ bits, kind.decode data = some bits → kind.encode bits = data.take kind.size) ∧
    (kind.IsInteger →
      (∀ bits : UInt64, bits.toNat < 2 ^ (8 * kind.size) →
        ∃ z, kind.denoted (kind.encode bits) = some z ∧
          ∀ text, IsDecimal text z ↔ text = kind.formatBits bits) ∧
      ∀ data data' bits bits', kind.decode data = some bits → kind.decode data' = some bits' →
        bits ≠ bits' → kind.formatBits bits ≠ kind.formatBits bits') := by
  refine ⟨fun bits rest => ⟨length_encode kind bits, decode_encode_append bits rest⟩,
    fun data => ⟨decode_eq_none_iff, fun bits => encode_of_decode⟩, fun integer => ⟨?_, ?_⟩⟩
  · intro bits h
    obtain ⟨z, hz⟩ := integer.exists_denoted (kind.encode bits)
    exact ⟨z, hz, fun text => isDecimal_formatBits_iff h hz⟩
  · intro data data' bits bits' h h' different printed
    exact different (integer.formatBits_inj (toNat_lt_of_decode h) (toNat_lt_of_decode h') printed)

/-- The bytes of `-2`, with one more behind them, are read, written and printed. -/
theorem payload_roundTrip_negative :
    NumericKind.i16.decode [0xFE, 0xFF, 0x07] = some 0xFFFE ∧
      NumericKind.i16.encode 0xFFFE = [0xFE, 0xFF] ∧
      NumericKind.i16.denoted [0xFE, 0xFF] = some (-2) ∧ IsDecimal "-2" (-2) ∧
      NumericKind.i16.formatBits 0xFFFE ≠ NumericKind.i16.formatBits 0xFE := by
  obtain ⟨-, reads, prints⟩ := payload_roundTrip .i16
  have integer : NumericKind.i16.IsInteger := by simp [IsInteger]
  have read : NumericKind.i16.decode [0xFE, 0xFF, 0x07] = some 0xFFFE := by decide
  have written : NumericKind.i16.encode 0xFFFE = [0xFE, 0xFF] := (reads _).2 _ read
  obtain ⟨z, denotes, text⟩ := (prints integer).1 0xFFFE (by decide)
  have negative : NumericKind.i16.denoted (NumericKind.i16.encode 0xFFFE) = some (-2) := by decide
  cases denotes.symm.trans negative
  have apart := (prints integer).2 _ [0xFE, 0x00] _ 0xFE read (by decide) (by decide)
  exact ⟨read, written, written ▸ negative, (text "-2").mpr (by decide), apart⟩

end NumericKind

end ClosedWorld
