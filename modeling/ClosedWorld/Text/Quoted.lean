import ClosedWorld.Text.Invisible

/-!
# Quoted text

A quoted text stands between quotes. Quotes, backslashes and characters that do not show are written
as escapes, so the text can be read off without doubt.

## Main definitions

* `Quoted.encode`: the quoted form of a text.
-/

namespace ClosedWorld

namespace Quoted

/-- The lower-case hexadecimal digits of a number. -/
def hexDigits (n : Nat) : String := String.ofList (Nat.toDigits 16 n)

/-- The escape of a character by its number. -/
def numbered (c : Char) : String := "\\u\x7b" ++ hexDigits c.toNat ++ "\x7d"

/-- How a character is written between quotes. -/
def encodeChar (c : Char) : String :=
  match c with
  | '\x00' => "\\0"
  | '\t' => "\\t"
  | '\r' => "\\r"
  | '\n' => "\\n"
  | '"' => "\\\""
  | '\\' => "\\\\"
  | c => if isInvisible c then numbered c else String.singleton c

/-- The quoted form of a text. -/
def encode (s : String) : String := "\"" ++ String.join (s.toList.map encodeChar) ++ "\""

end Quoted

end ClosedWorld
