import Treewalk.Numeral.Binary64
import Treewalk.Text.Bytes

/-!
# Numbers as text

A number is shown with the fewest digits that read back to it, and of those the nearest
(`Shortest.digits`). Below `10^21` the notation is positional, from there on it has an exponent of at
least two digits (`Numeral.display`).
-/

namespace Treewalk

/-- A positive decimal `0.d₁d₂… · 10^point`; the first digit is not zero. -/
structure Decimal where
  digits : List Nat
  point : Int
deriving DecidableEq, Repr

namespace Shortest

/-- The digits of a number, most significant first. -/
def digitsOf (n : Nat) : List Nat := (Nat.toDigits 10 n).map fun c => c.toNat - 48

/-- The number `k` with `10^(k-1) ≤ num / den < 10^k`, for a positive fraction; `fuel` bounds how far
below one the fraction may lie. -/
def pointOf (fuel num den : Nat) : Int :=
  if den ≤ num then (digitsOf (num / den)).length
  else match fuel with
    | 0 => 0
    | fuel + 1 => pointOf fuel (num * 10) den - 1

/-- `num / den · 10^shift` as a quotient of naturals. -/
def scaleTen (num den : Nat) (shift : Int) : Nat × Nat :=
  if 0 ≤ shift then (num * Nat.pow 10 shift.toNat, den) else (num, den * Nat.pow 10 (-shift).toNat)

/-- The interval of reals that read back to a number, scaled to integers over one denominator. -/
structure Interval where
  low : Nat
  value : Nat
  high : Nat
  den : Nat
  closed : Bool

/-- The reals that round to `x`: halfway to both neighbours, ends included if the mantissa is even. -/
def intervalOf (x : Binary64) : Interval :=
  let below := if x.mantissa = Nat.pow 2 52 && -1074 < x.exponent then 1 else 2
  let (unit, den) := Binary64.scale 1 1 (x.exponent - 2)
  { low := (4 * x.mantissa - below) * unit
    value := 4 * x.mantissa * unit
    high := (4 * x.mantissa + 2) * unit
    den := den
    closed := x.mantissa % 2 = 0 }

/-- Does the grid point `c / scale` lie in the interval? Here `scale` is the interval's own
denominator brought to the grid. -/
def Interval.holds (i : Interval) (unit c scale : Nat) : Bool :=
  if i.closed then i.low * unit ≤ c * scale && c * scale ≤ i.high * unit
  else i.low * unit < c * scale && c * scale < i.high * unit

/-- Is the grid point `q + 1` the better neighbour of a value between `q` and `q + 1`? It is if it is
nearer, or if both are equally near and its last digit is the even one. Here `twice` is twice the value,
and grid points count in units of `scale`. -/
def prefersNext (twice q scale : Nat) : Bool :=
  let middle := (2 * q + 1) * scale
  middle < twice || (middle = twice && q % 2 = 1)

/-- The best decimal with `n` digits that reads back to the number, if there is one. -/
def candidate? (i : Interval) (point : Int) (n : Nat) : Option Decimal :=
  let (unit, scale) := scaleTen 1 i.den (Int.ofNat n - point)
  let q := i.value * unit / scale
  let below := i.holds unit q scale
  let above := i.holds unit (q + 1) scale
  let next := above && (!below || prefersNext (2 * (i.value * unit)) q scale)
  let pick? := if next then some (q + 1) else if below then some q else none
  pick?.map fun c =>
    let ds := digitsOf c
    { digits := (ds.reverse.dropWhile (· = 0)).reverse
      point := point + (Int.ofNat ds.length - Int.ofNat n) }

/-- The first decimal found among those with `n`, `n + 1`, … digits. -/
def search (i : Interval) (point : Int) : (fuel n : Nat) → Decimal
  | 0, _ => ⟨[], point⟩
  | fuel + 1, n => (candidate? i point n).getD (search i point fuel (n + 1))

/-- The shortest decimal that reads back to a positive number: 17 digits always do. -/
def digits (x : Binary64) : Decimal :=
  let i := intervalOf x
  search i (pointOf 330 i.value i.den) 17 1

end Shortest

namespace Numeral

/-- Digits as text. -/
def digitText (ds : List Nat) : Bytes := ds.map fun d => (0x30 + d).toUInt8

/-- Positional notation, without a point if there is no fraction. -/
def positional (d : Decimal) : Bytes :=
  if d.point ≤ 0 then text "0." ++ List.replicate (-d.point).toNat 0x30 ++ digitText d.digits
  else
    let p := d.point.toNat
    let whole := digitText (d.digits.take p) ++ List.replicate (p - d.digits.length) 0x30
    match d.digits.drop p with
    | [] => whole
    | fraction => whole ++ text "." ++ digitText fraction

/-- One digit, a fraction if there is one, and the exponent with its sign and at least two digits. -/
def scientific (d : Decimal) : Bytes :=
  let e := d.point - 1
  let digits := Bytes.ofNat e.natAbs
  let padded := if digits.length < 2 then text "0" ++ digits else digits
  let fraction := match d.digits.drop 1 with
    | [] => []
    | ds => text "." ++ digitText ds
  digitText (d.digits.take 1) ++ fraction ++ text (if e < 0 then "e-" else "e+") ++ padded

/-- Numbers from `10^21` on are written with an exponent. -/
def positionalLimit : Int := 21

/-- The text of a number. -/
def display (x : Float) : Bytes :=
  let sign := if Binary64.isNegative x then text "-" else []
  match Binary64.ofFloat? x with
  | none => if x.isNaN then text "NaN" else if Binary64.isNegative x then text "-Inf" else text "+Inf"
  | some ⟨0, _⟩ => sign ++ text "0"
  | some m =>
    let d := Shortest.digits m
    sign ++ if d.point ≤ positionalLimit then positional d else scientific d

end Numeral

end Treewalk
