import ClosedWorld.Proofs.Analysis.Invariants
import ClosedWorld.Proofs.Analysis.Neat
import ClosedWorld.Proofs.Numeric
import ClosedWorld.Proofs.Store.Valued

/-!
# Numbers fit their kind

An analysis knows the bit pattern of a number from two places: the payload of a constant, of which
the kind of the number says how many bytes count, and the length of a constant string, which is
counted. Payloads give patterns that fit. The count is written down as it is, whatever the kind of
the length is, so it may have bits that the kind does not have.

## Main definitions

* `View.Overcounts`: the number is the length of a constant string that its kind is too small for.
* `View.Numbers`: what is said of a number that is part of a value.

## Main statements

* `Analyzer.fits_or_overcounts_of_reaches`: all numbers fit their kind, but for such lengths.
* `Analyzer.not_fits_overlong`: there are such lengths.
-/

namespace ClosedWorld

namespace View

variable {view : View}

/-- The number is the count of the bytes of a constant string of the program. It is of the kind that
the layout of constant strings gives to it, which cannot count that far. -/
inductive Overcounts (view : View) : Number → Prop where
  | intro {layout : ConstStringLayout} {lengthType clazz : ClazzId} {kind : NumericKind}
    {code : CodeId} {index : Nat} {data : List UInt8}
    (told : view.stringLayout? = some layout)
    (typed : (view.info layout.length).result = some lengthType)
    (numeric : (view.info lengthType).special = some (.numeric kind))
    (constant : view.instr? code index = some (.const clazz data))
    (string : (view.info clazz).special = some .constString)
    (long : 2 ^ (8 * kind.size) ≤ data.length) :
    Overcounts view ⟨lengthType, kind, some (UInt64.ofNat data.length)⟩

/-- A part of a value, if it is a number, fits its kind or is the length of a constant string. -/
def Numbers (view : View) : Value → Prop
  | .number n => n.Fits ∨ view.Overcounts n
  | _ => True

/-- What is said of numbers survives the merging of atoms: two numbers that differ are merged into
one without a pattern. -/
theorem joinStable_numbers (view : View) : Value.JoinStable view.Numbers where
  set _ := trivial
  bool := trivial
  number _ _ := .inl (by rintro _ ⟨⟩)
  boxed _ _ := trivial
  tagged _ _ := trivial

open Value in
/-- Whatever an analysis does to values, it does not make other numbers. -/
theorem preserves_numbers (view : View) : view.Preserves (Everywhere view.Numbers) where
  join hv hw := view.joinStable_numbers.everywhere_join hv hw
  atom hv ha := hv.of_mem_atoms ha
  of_boxed hv := (everywhere_boxed.1 hv).2
  of_tagged hv := (everywhere_tagged.1 hv).2
  boxed hv _ _ := everywhere_boxed.2 ⟨trivial, hv⟩
  tagged hv _ _ := everywhere_tagged.2 ⟨trivial, hv⟩
  noValue := everywhere_noValue.2 trivial
  undefined := everywhere_undefined.2 trivial
  unit := everywhere_unit.2 trivial
  bool _ := everywhere_bool.2 trivial
  object _ := everywhere_object.2 trivial
  array _ := everywhere_array.2 trivial
  any _ := everywhere_number.2 (.inl (by rintro _ ⟨⟩))
  constant {clazz kind} _ data := by
    refine everywhere_number.2 (.inl fun bits decoded => ?_)
    have fits := NumericKind.toNat_lt_of_decode decoded
    exact ⟨fits, NumericKind.decode_encode fits⟩
  count {_ _ kind _ _ _ data} told typed numeric found string := by
    refine everywhere_number.2 ?_
    by_cases long : 2 ^ (8 * kind.size) ≤ data.length
    · exact .inr (.intro told typed numeric found string long)
    · have counted : (UInt64.ofNat data.length).toNat ≤ data.length := by
        rw [UInt64.toNat_ofNat']
        exact Nat.mod_le _ _
      exact .inl (Number.fits_of_toNat_lt (Nat.lt_of_le_of_lt counted (Nat.lt_of_not_le long)))

end View

namespace Analyzer

variable {z : Analyzer}

/-- Wherever an analysis is, and whatever its options are: each number at any depth of a value that
is stored, or that is on a stack before or after an instruction, fits its kind. What is known of it
is a pattern that uses the bits of the kind only, and which can be written down as a payload and
read back. The only exceptions are the lengths of constant strings that have more bytes than the
kind of their length can count. -/
theorem fits_or_overcounts_of_reaches (hz : z.intrinsics = .standard) {a : Analysis}
    (reached : z.Reaches a) :
    a.store.AllValues (Value.Everywhere z.view.Numbers) ∧
      ∀ t ∈ z.visitsOfSweep a, z.Handles (Value.Everywhere z.view.Numbers) t.1 t.2 := by
  let D := StoreDiscipline.valued z.view.preserves_numbers
  have inv : D.Inv a.store :=
    inv_of_reaches hz D trivial (fun h => Store.AllValues.unnoted h) (Store.allValues_empty _) reached
  refine ⟨inv, ?_⟩
  rintro ⟨act, visit⟩ visited
  exact (handles_of_discipline hz D trivial (fun _ => trivial) (fun h => h) (fun h => h) inv
    visited).1

/-- An analysis of a program that keeps a byte, and makes a constant string of 256 bytes whose
length is to be a byte. -/
def overlong : Analyzer where
  view := Program.view
    { clazzes :=
        [ ("main", { kind := .routine, code := some ⟨0⟩ })
        , ("const_string", { kind := .routine, special := some .constString, needsCode := false })
        , ("array", { kind := .routine, needsCode := false })
        , ("u8", { kind := .routine, special := some (.numeric .u8), needsCode := false })
        , ("data", { kind := .field, outer := some ⟨2⟩, result := some ⟨2⟩ })
        , ("length", { kind := .field, outer := some ⟨2⟩, result := some ⟨3⟩ })
        , ("internal_array", { kind := .field, outer := some ⟨1⟩, result := some ⟨2⟩ })
        , ("kept", { kind := .field, outer := some ⟨0⟩, result := some ⟨3⟩ }) ]
      blocks :=
        [ [ .current, .const ⟨3⟩ [7, 8], .assign (.fixed ⟨7⟩)
          , .const ⟨1⟩ (List.replicate 256 0), .pop ] ]
      main := ⟨0⟩
      constString := some
        { clazz := ⟨1⟩, internalArray := ⟨6⟩, arrayClazz := ⟨2⟩, data := ⟨4⟩, length := ⟨5⟩,
          element := ⟨3⟩ } }

/-- The analysis of `overlong` consults the table of the standard library. -/
theorem intrinsics_overlong : overlong.intrinsics = .standard := by simp only [overlong]

/-- What the run of this program reports. -/
theorem exists_run_overlong :
    ∃ final, overlong.run 12 {} = some (.ok final) ∧
      (final.store.instances.state? ⟨0⟩).bind (·.find? ⟨7⟩) =
        some (.number ⟨⟨3⟩, .u8, some 7⟩) ∧
      (final.store.instances.state? ⟨2⟩).bind (·.find? ⟨5⟩) =
        some (.number ⟨⟨3⟩, .u8, some 256⟩) :=
  exists_run (by decide +kernel)

/-- The byte that is kept fits, and the length is an exception. -/
theorem fits_or_overcounts_overlong :
    ∃ final, overlong.run 12 {} = some (.ok final) ∧
      (final.store.instances.state? ⟨2⟩).bind (·.find? ⟨5⟩) =
        some (.number ⟨⟨3⟩, .u8, some 256⟩) ∧
      final.store.AllValues (Value.Everywhere overlong.view.Numbers) ∧
      ∀ t ∈ overlong.visitsOfSweep final,
        overlong.Handles (Value.Everywhere overlong.view.Numbers) t.1 t.2 := by
  obtain ⟨final, run, -, length⟩ := exists_run_overlong
  exact ⟨final, run, length, fits_or_overcounts_of_reaches intrinsics_overlong (reaches_run run)⟩

/-- A byte with the pattern 256 is stored, which no byte has. -/
theorem not_fits_overlong :
    ¬∀ a, overlong.Reaches a → a.store.AllValues fun v => ∀ n, .number n ∈ v.parts → n.Fits := by
  intro fits
  obtain ⟨final, run, -, length⟩ := exists_run_overlong
  obtain ⟨fields, held, written⟩ := Option.bind_eq_some_iff.1 length
  have stored := (fits final (reaches_run run)).field held
    (OrderedMap.mem_entries_of_find? written)
  have fit : Number.Fits ⟨⟨3⟩, .u8, some 256⟩ := stored _ (Value.mem_parts_self _)
  exact absurd (fit 256 rfl).1 (by decide)

end Analyzer

end ClosedWorld
