import Treewalk.Text.Printable
import Treewalk.Text.Rune

/-!
# Quoted texts

A quoted text stands between quotes on one line: printable characters as themselves, the quote and the
backslash after a backslash, named controls by their letter, other controls and invalid bytes by two
hexadecimal digits, and all else by its code point.
-/

namespace Treewalk

namespace Quoted

/-- A lower-case hexadecimal digit. -/
def hexDigit (d : Nat) : UInt8 := if d < 10 then (0x30 + d).toUInt8 else (0x57 + d).toUInt8

/-- The last `width` hexadecimal digits of a number. -/
def hex : Nat → Nat → Bytes
  | 0, _ => []
  | width + 1, n => hex width (n / 16) ++ [hexDigit (n % 16)]

/-- The letter that names a control character after a backslash. -/
def controlLetter? : Nat → Option UInt8
  | 0x07 => some 0x61
  | 0x08 => some 0x62
  | 0x0C => some 0x66
  | 0x0A => some 0x6E
  | 0x0D => some 0x72
  | 0x09 => some 0x74
  | 0x0B => some 0x76
  | _ => none

/-- One character of a text quoted by `quote`. -/
def rune (quote : UInt8) (r : Rune) : Bytes :=
  if r.isInvalid then text "\\x" ++ hex 2 ((r.raw.headD 0).toNat)
  else if r.code = quote.toNat || r.code = 0x5C then 0x5C :: r.raw
  else if isPrintable r.code then r.raw
  else match controlLetter? r.code with
    | some c => [0x5C, c]
    | none =>
      if r.code < 0x20 || r.code = 0x7F then text "\\x" ++ hex 2 r.code
      else if r.code < 0x10000 then text "\\u" ++ hex 4 r.code
      else text "\\U" ++ hex 8 r.code

/-- A text between double quotes. -/
def string (s : Bytes) : Bytes := [0x22] ++ (Rune.decode s).flatMap (rune 0x22) ++ [0x22]

/-- One character between single quotes. -/
def char (r : Rune) : Bytes := [0x27] ++ rune 0x27 r ++ [0x27]

end Quoted

end Treewalk
