/-!
# Byte texts

Source text, names and messages are byte lists: a source may hold bytes that are no valid UTF-8, and
such bytes reach lexemes, messages and output unchanged. Literal texts enter through `text`.

Long-lived string values are packed (`ByteArray`), so that joining and repeating them costs one copy;
`Bytes.pack` and `unpack` go between the two forms.
-/

namespace Treewalk

/-- A text as it is read and shown: bytes, mostly UTF-8. -/
abbrev Bytes := List UInt8

/-- The bytes of a literal text. -/
def text (s : String) : Bytes := s.toUTF8.data.toList

/-- A byte list as a packed string. -/
def Bytes.pack (s : Bytes) : ByteArray := ⟨s.toArray⟩

/-- The bytes of a packed string. -/
def unpack (s : ByteArray) : Bytes := s.data.toList

@[simp] theorem unpack_pack (s : Bytes) : unpack s.pack = s := rfl

@[simp] theorem pack_unpack (s : ByteArray) : Bytes.pack (unpack s) = s := rfl

namespace Bytes

/-- The decimal digits of a natural number. -/
def ofNat (n : Nat) : Bytes := (Nat.toDigits 10 n).map fun c => c.toNat.toUInt8

/-- A decimal integer, with a minus sign if negative. -/
def ofInt : Int → Bytes
  | .ofNat n => ofNat n
  | .negSucc n => text "-" ++ ofNat (n + 1)

/-- `parts` in order with `sep` between neighbours. -/
def join (sep : Bytes) (parts : List Bytes) : Bytes := (parts.intersperse sep).flatten

/-- The newline byte. -/
def newline : UInt8 := 0x0A

/-- The carriage return byte. -/
def carriageReturn : UInt8 := 0x0D

/-- The parts of a text between its newlines; a text without newline is one part. -/
def lines (s : Bytes) : List Bytes :=
  let cut := s.foldr
    (fun b (acc : Bytes × List Bytes) =>
      if b = newline then ([], acc.1 :: acc.2) else (b :: acc.1, acc.2))
    ([], [])
  cut.1 :: cut.2

/-- A text cut after each newline: the lines with their newline, and what follows the last one. -/
def terminatedLines (s : Bytes) : List Bytes × Bytes :=
  let parts := s.lines
  (parts.dropLast.map (· ++ [newline]), parts.getLastD [])

/-- A text without its trailing carriage returns. -/
def dropTrailingReturns (s : Bytes) : Bytes :=
  (s.reverse.dropWhile (· = carriageReturn)).reverse

/-- A text without one trailing byte `b`, if it ends in one. -/
def dropSuffixByte (b : UInt8) (s : Bytes) : Bytes :=
  if s.getLast? = some b then s.dropLast else s

/-- `n` blanks. -/
def blanks (n : Nat) : Bytes := List.replicate n 0x20

/-- A number right-aligned in `width` columns. -/
def padLeft (width : Nat) (s : Bytes) : Bytes := blanks (width - s.length) ++ s

end Bytes

/-- A packed string repeated `n` times, by doubling. -/
def repeatPacked (s : ByteArray) (n : Nat) : ByteArray :=
  if n = 0 then .empty
  else
    let half := repeatPacked s (n / 2)
    if n % 2 = 0 then half ++ half else half ++ half ++ s
termination_by n

end Treewalk
