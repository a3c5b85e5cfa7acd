import Treewalk.Text.Rune

/-!
# White space

The blanks of the Unicode `White_Space` property. Trimming and splitting into words use the same set
as the scanner.
-/

namespace Treewalk

/-- Is this code point white space? -/
def isBlank (c : Nat) : Bool :=
  (0x09 ≤ c && c ≤ 0x0D) || c = 0x20 || c = 0x85 || c = 0xA0 || c = 0x1680
    || (0x2000 ≤ c && c ≤ 0x200A) || c = 0x2028 || c = 0x2029 || c = 0x202F || c = 0x205F
    || c = 0x3000

namespace Bytes

/-- A text without the white space around it. -/
def trim (s : Bytes) : Bytes :=
  let inner := (Rune.decode s).dropWhile fun r => isBlank r.code
  Rune.bytes (inner.reverse.dropWhile fun r => isBlank r.code).reverse

/-- The first word of a text: after leading blanks, up to the next one. -/
def firstWord (s : Bytes) : Bytes :=
  let inner := (Rune.decode s).dropWhile fun r => isBlank r.code
  Rune.bytes (inner.takeWhile fun r => !isBlank r.code)

end Bytes

end Treewalk
