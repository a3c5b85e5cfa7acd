/-!
# Binary64 numbers as exact fractions

A finite number is `mantissa · 2^exponent` in exact integers (`Binary64.ofFloat?`), and
`Binary64.nearest?` goes back: from any fraction to the nearest number, ties to the even mantissa,
`none` when the fraction is too large for every number.
-/

namespace Treewalk

/-- The magnitude of a finite number: `mantissa · 2^exponent`, with the smallest possible exponent
`-1074` for the numbers below the normal range. -/
structure Binary64 where
  mantissa : Nat
  exponent : Int
deriving DecidableEq, Repr

namespace Binary64

/-- The sign bit of a number. -/
def isNegative (x : Float) : Bool := x.toBits.toNat / Nat.pow 2 63 = 1

/-- The magnitude of a finite number; `none` for infinities and NaN. -/
def ofFloat? (x : Float) : Option Binary64 :=
  let bits := x.toBits.toNat
  let fraction := bits % Nat.pow 2 52
  let biased := bits / Nat.pow 2 52 % 2048
  if biased = 2047 then none
  else if biased = 0 then some ⟨fraction, -1074⟩
  else some ⟨Nat.pow 2 52 + fraction, Int.ofNat biased - 1075⟩

/-- A fraction `num / den · 2^shift` as a quotient of naturals. -/
def scale (num den : Nat) (shift : Int) : Nat × Nat :=
  if 0 ≤ shift then (num * Nat.pow 2 shift.toNat, den) else (num, den * Nat.pow 2 (-shift).toNat)

/-- A quotient rounded to the nearest integer, a half to the even one. -/
def roundDiv (num den : Nat) : Nat :=
  let q := num / den
  let r := num % den
  if 2 * r < den then q else if den < 2 * r then q + 1 else if q % 2 = 0 then q else q + 1

/-- The exponent at which a positive fraction has 53 bits before the point, but no less than
`-1074`. -/
def targetExponent (num den : Nat) : Int :=
  let guess : Int := Int.ofNat num.log2 - Int.ofNat den.log2 - 53
  let (n, d) := scale num den (-guess)
  let exact := if n / d < Nat.pow 2 53 then guess else guess + 1
  max exact (-1074)

/-- The number with the given bits. -/
def ofBits (negative : Bool) (bits : Nat) : Float :=
  Float.ofBits (UInt64.ofNat (bits + if negative then Nat.pow 2 63 else 0))

/-- The number nearest to `num / den` with the given sign; `none` when it is out of range. -/
def nearest? (negative : Bool) (num den : Nat) : Option Float :=
  if num = 0 then some (ofBits negative 0)
  else
    let e := targetExponent num den
    let (n, d) := scale num den (-e)
    let m := roundDiv n d
    -- A mantissa below 2^52 has the least exponent and a zero exponent field, and one that was
    -- rounded up to 2^53 carries into the field: one sum covers all three.
    let bits := (e + 1074).toNat * Nat.pow 2 52 + m
    if bits < 2047 * Nat.pow 2 52 then some (ofBits negative bits) else none

end Binary64

end Treewalk
