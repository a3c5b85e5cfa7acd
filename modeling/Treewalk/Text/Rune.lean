import Treewalk.Text.Bytes

/-!
# Runes: decoded characters with their bytes

`decode` cuts any byte text into runes. A well-formed UTF-8 sequence is one rune with its code point;
any other byte is a rune of its own with the replacement code. Each rune keeps the bytes it was read
from, so `raw` of the runes in order gives the text back.
-/

namespace Treewalk

/-- A character of a text: its code point and the bytes that spell it. -/
structure Rune where
  code : Nat
  raw : Bytes
deriving DecidableEq, Repr

namespace Rune

/-- The code point that stands for an invalid byte. -/
def replacement : Nat := 0xFFFD

/-- Is `b` between `lo` and `hi`? -/
def within (lo hi b : UInt8) : Bool := lo ≤ b && b ≤ hi

/-- Is `b` a continuation byte? -/
def tail (b : UInt8) : Bool := within 0x80 0xBF b

/-- The six payload bits of a continuation byte. -/
def bits (b : UInt8) : Nat := b.toNat % 64

/-- Do `a` and `b` start a three-byte sequence? Overlong forms and surrogates do not. -/
def opensThree (a b : UInt8) : Bool :=
  if a = 0xE0 then within 0xA0 0xBF b
  else if a = 0xED then within 0x80 0x9F b
  else within 0xE1 0xEF a && tail b

/-- Do `a` and `b` start a four-byte sequence? Overlong forms and codes past U+10FFFF do not. -/
def opensFour (a b : UInt8) : Bool :=
  if a = 0xF0 then within 0x90 0xBF b
  else if a = 0xF4 then within 0x80 0x8F b
  else within 0xF1 0xF3 a && tail b

/-- The rune of a byte that starts no well-formed sequence. -/
def invalid (a : UInt8) : Rune := ⟨replacement, [a]⟩

/-- The first rune of the text `a :: rest`. -/
def first (a : UInt8) (rest : Bytes) : Rune :=
  if a < 0x80 then ⟨a.toNat, [a]⟩
  else match rest with
    | [] => invalid a
    | b :: rest =>
      if within 0xC2 0xDF a && tail b then ⟨a.toNat % 32 * 64 + bits b, [a, b]⟩
      else match rest with
        | [] => invalid a
        | c :: rest =>
          if opensThree a b && tail c then
            ⟨a.toNat % 16 * 4096 + bits b * 64 + bits c, [a, b, c]⟩
          else match rest with
            | [] => invalid a
            | d :: _ =>
              if opensFour a b && tail c && tail d then
                ⟨a.toNat % 8 * 262144 + bits b * 4096 + bits c * 64 + bits d, [a, b, c, d]⟩
              else invalid a

/-- Decodes a text of which the first `skip` bytes belong to a rune already taken; `done` holds the
runes before it, latest first. -/
def decodeInto (done : List Rune) : Nat → Bytes → List Rune
  | _, [] => done.reverse
  | 0, a :: rest =>
    let r := first a rest
    decodeInto (r :: done) (r.raw.length - 1) rest
  | skip + 1, _ :: rest => decodeInto done skip rest

/-- The runes of a text. -/
def decode (s : Bytes) : List Rune := decodeInto [] 0 s

/-- The bytes of a run of runes. -/
def bytes (rs : List Rune) : Bytes := rs.flatMap Rune.raw

/-- The UTF-8 bytes of a code point. -/
def encode (code : Nat) : Bytes :=
  let low (n : Nat) : UInt8 := (0x80 + n % 64).toUInt8
  if code < 0x80 then [code.toUInt8]
  else if code < 0x800 then [(0xC0 + code / 64).toUInt8, low code]
  else if code < 0x10000 then [(0xE0 + code / 4096).toUInt8, low (code / 64), low code]
  else [(0xF0 + code / 262144).toUInt8, low (code / 4096), low (code / 64), low code]

/-- Was this rune read from a byte that is no UTF-8? -/
def isInvalid (r : Rune) : Bool := r.code = replacement && r.raw.length = 1

end Rune

/-- The bytes that the rune at index `i` of a packed string takes. -/
def runeWidthAt (s : ByteArray) (i : Nat) : Nat :=
  let a := s[i]?.getD 0
  if a < 0x80 then 1
  else (Rune.first a ([s[i + 1]?, s[i + 2]?, s[i + 3]?].filterMap id)).raw.length

/-- Counts the runes that start in the last `left` bytes of a packed string, of which the first `skip`
belong to a rune already counted. -/
def runeCountFrom (s : ByteArray) : (skip count left : Nat) → Nat
  | _, count, 0 => count
  | skip + 1, count, left + 1 => runeCountFrom s skip count left
  | 0, count, left + 1 =>
    runeCountFrom s (runeWidthAt s (s.size - (left + 1)) - 1) (count + 1) left

/-- The number of runes of a packed string. -/
def runeCount (s : ByteArray) : Nat := runeCountFrom s 0 0 s.size

end Treewalk
