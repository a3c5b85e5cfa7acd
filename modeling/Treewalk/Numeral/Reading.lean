import Treewalk.Numeral.Binary64
import Treewalk.Text.Bytes

/-!
# Reading numbers

`Numeral.read?` reads a whole text as a number: a sign, then decimal or hexadecimal digits with an
optional point and exponent, or the name of an infinity or of NaN. The result is the nearest number; a
text out of range is no number, one too small reads as zero. Underscores may stand between digits.
-/

namespace Treewalk.Numeral

/-- The lower-case form of an ASCII letter; other bytes may change too, but to no letter. -/
def lower (b : UInt8) : UInt8 := b ||| 0x20

/-- Is this byte a decimal digit? -/
def isDigit (b : UInt8) : Bool := 0x30 ≤ b && b ≤ 0x39

/-- The value of a digit in base ten, or sixteen if `hex`. -/
def digit? (hex : Bool) (b : UInt8) : Option Nat :=
  if isDigit b then some (b.toNat - 0x30)
  else if hex && 0x61 ≤ lower b && lower b ≤ 0x66 then some ((lower b).toNat - 0x57)
  else none

/-- What has been read of a numeral's digits: their value, how many stand after the point, whether
there was a point, a digit, an underscore. -/
structure Mantissa where
  value : Nat := 0
  places : Nat := 0
  point : Bool := false
  seen : Bool := false
  underscores : Bool := false

/-- Reads digits, underscores and at most one point; gives what follows them. -/
def mantissa (hex : Bool) (m : Mantissa) : Bytes → Mantissa × Bytes
  | [] => (m, [])
  | b :: rest =>
    if b = 0x5F then mantissa hex { m with underscores := true } rest
    else if b = 0x2E then
      if m.point then (m, b :: rest) else mantissa hex { m with point := true } rest
    else match digit? hex b with
      | none => (m, b :: rest)
      | some d =>
        mantissa hex
          { m with
            value := m.value * (if hex then 16 else 10) + d
            places := if m.point then m.places + 1 else m.places
            seen := true }
          rest

/-- The digits of an exponent; beyond ten thousand further digits no longer count. -/
def exponentDigits (e : Nat) (underscores : Bool) : Bytes → Nat × Bool × Bytes
  | [] => (e, underscores, [])
  | b :: rest =>
    if b = 0x5F then exponentDigits e true rest
    else if isDigit b then
      exponentDigits (if e < 10000 then e * 10 + (b.toNat - 0x30) else e) underscores rest
    else (e, underscores, b :: rest)

/-- An exponent after its letter: an optional sign and at least one digit. -/
def exponent? (s : Bytes) : Option (Int × Bool × Bytes) :=
  let (negative, s) := match s with
    | 0x2B :: rest => (false, rest)
    | 0x2D :: rest => (true, rest)
    | _ => (false, s)
  match s with
  | b :: _ =>
    if isDigit b then
      let (e, underscores, rest) := exponentDigits 0 false s
      some (if negative then -(e : Int) else e, underscores, rest)
    else none
  | [] => none

/-- What stood before an underscore or after it. -/
inductive Neighbour where
  | start
  | digit
  | underscore
  | other
deriving DecidableEq

/-- Does every underscore stand between two digits? -/
def underscoresSeparate (hex : Bool) : Neighbour → Bytes → Bool
  | before, [] => before != .underscore
  | before, b :: rest =>
    if (digit? hex b).isSome then underscoresSeparate hex .digit rest
    else if b = 0x5F then before == .digit && underscoresSeparate hex .underscore rest
    else before != .underscore && underscoresSeparate hex .other rest

/-- Underscores of an unsigned numeral: the mark of a base counts as a digit. -/
def underscoresOk : Bytes → Bool
  | 0x30 :: b :: rest =>
    if lower b = 0x78 then underscoresSeparate true .digit rest
    else if lower b = 0x62 || lower b = 0x6F then underscoresSeparate false .digit rest
    else underscoresSeparate false .start (0x30 :: b :: rest)
  | s => underscoresSeparate false .start s

/-- The number nearest to `value · 10^exp`. A magnitude far outside the range is settled without
computing the power. -/
def decimal? (negative : Bool) (value : Nat) (exp : Int) : Option Float :=
  let size : Int := (Nat.toDigits 10 value).length + exp
  if value = 0 || size < -400 then Binary64.nearest? negative 0 1
  else if 400 < size then none
  else if 0 ≤ exp then Binary64.nearest? negative (value * Nat.pow 10 exp.toNat) 1
  else Binary64.nearest? negative value (Nat.pow 10 (-exp).toNat)

/-- The number nearest to `value · 2^exp`. -/
def binary? (negative : Bool) (value : Nat) (exp : Int) : Option Float :=
  let size : Int := value.log2 + exp
  if value = 0 || size < -1200 then Binary64.nearest? negative 0 1
  else if 1200 < size then none
  else
    let (num, den) := Binary64.scale value 1 exp
    Binary64.nearest? negative num den

/-- An unsigned numeral in digits, given the sign to apply. -/
def digits? (negative : Bool) (s : Bytes) : Option Float :=
  let hex := match s with
    | 0x30 :: b :: _ :: _ => lower b = 0x78
    | _ => false
  let (m, rest) := mantissa hex {} (if hex then s.drop 2 else s)
  let finish (exp : Int) (underscores : Bool) : Option Float :=
    if (m.underscores || underscores) && !underscoresOk s then none
    else if hex then binary? negative m.value (exp - 4 * m.places)
    else decimal? negative m.value (exp - m.places)
  if !m.seen then none
  else match rest with
    | [] => if hex then none else finish 0 false
    | b :: rest =>
      if lower b = (if hex then 0x70 else 0x65) then
        match exponent? rest with
        | some (e, underscores, []) => finish e underscores
        | _ => none
      else none

/-- The names of the numbers that have no digits, in any case: an infinity may be signed. -/
def named? (negative signed : Bool) (s : Bytes) : Option Float :=
  let s := s.map lower
  if s = text "inf" || s = text "infinity" then
    some (Binary64.ofBits negative (2047 * Nat.pow 2 52))
  else if s = text "nan" && !signed then some (Float.ofBits 0x7FF8000000000001)
  else none

/-- The number that a whole text spells, if it spells one in range. -/
def read? (s : Bytes) : Option Float :=
  let (negative, signed, body) := match s with
    | 0x2B :: rest => (false, true, rest)
    | 0x2D :: rest => (true, true, rest)
    | _ => (false, false, s)
  (named? negative signed body).or (digits? negative body)

end Treewalk.Numeral
