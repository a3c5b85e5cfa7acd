import Treewalk.Machine.Halt
import Treewalk.Numeral.Reading
import Treewalk.Store.Display
import Treewalk.Store.Equal
import Treewalk.Text.Blank

/-!
# Operators

What the operators compute from values, and how they fail. None of them changes the store; an error is
reported at the operator's token. Only the text of a value that lacks its instance is a broken promise.
-/

namespace Treewalk

namespace Operator

/-- The outcome of an operator. -/
abbrev Result := Except Halt Value

/-- Fails with an error of the program. -/
def refuse {α : Type} (e : RuntimeError) : Except Halt α := .error (.error e)

/-- A fault about the type of one operand. -/
def wrongType (s : Store) (token : Token) (wanted : String) (v : Value) : RuntimeError :=
  .at token .type
    (text "operand of '" ++ token.lexeme ++ text "' must be " ++ text wanted ++ text ", got "
      ++ s.typeName v)

/-- A fault about the types of two operands. -/
def wrongTypes (s : Store) (token : Token) (wanted : String) (v w : Value) : RuntimeError :=
  .at token .type
    (text "operands of '" ++ token.lexeme ++ text "' must be " ++ text wanted ++ text ", got "
      ++ s.typeName v ++ text " and " ++ s.typeName w)

/-- An operator before its operand. -/
def unary (s : Store) (op : UnaryOp) (token : Token) (v : Value) : Result :=
  match op, v with
  | .negate, .number x => .ok (.number (-x))
  | .negate, v => refuse (wrongType s token "a number" v)
  | .not, .bool b => .ok (.bool (!b))
  | .not, v => refuse (wrongType s token "a bool" v)

/-- Two texts or a text and any other value joined. -/
def concat (s : Store) (v w : Value) : Result :=
  match s.display? v, s.display? w with
  | .ok x, .ok y => .ok (.string (x ++ y))
  | .error f, _ | _, .error f => .error (.fault f)

/-- Is this value a string? -/
def isString : Value → Bool
  | .string _ => true
  | _ => false

/-- Sum, difference, product or quotient; a sum with a string joins texts. -/
def arith (s : Store) (op : ArithOp) (token : Token) (v w : Value) : Result :=
  match op, v, w with
  | .add, .number x, .number y => .ok (.number (x + y))
  | .add, v, w =>
    if isString v || isString w then concat s v w
    else refuse (wrongTypes s token "two numbers or include a string" v w)
  | .sub, .number x, .number y => .ok (.number (x - y))
  | .mul, .number x, .number y => .ok (.number (x * y))
  | .div, .number x, .number y =>
    if y == 0 then refuse (.at token .runtime (text "division by zero"))
    else .ok (.number (x / y))
  | _, v, w => refuse (wrongTypes s token "numbers" v w)

/-- The number that a value counts as in a comparison. -/
def toNumber? : Value → Option Float
  | .number x => some x
  | .bool b => some (if b then 1 else 0)
  | .string t => Numeral.read? (unpack t).trim
  | _ => none

/-- The order of two numbers. -/
def order (op : CompareOp) (x y : Float) : Bool :=
  match op with
  | .less => x < y
  | .lessEqual => x ≤ y
  | .greater => x > y
  | .greaterEqual => x ≥ y

/-- A comparison of values that count as numbers. -/
def compare (s : Store) (op : CompareOp) (token : Token) (v w : Value) : Result :=
  match toNumber? v, toNumber? w with
  | some x, some y => .ok (.bool (order op x y))
  | _, _ => refuse (wrongTypes s token "comparable as numbers" v w)

/-- An operator between two operands. -/
def binary (s : Store) (op : BinaryOp) (token : Token) (v w : Value) : Result :=
  match op with
  | .arith op => arith s op token v w
  | .compare op => compare s op token v w
  | .equal => .ok (.bool (s.equal v w))
  | .notEqual => .ok (.bool (!s.equal v w))

/-- A string built by repetition may have this many bytes. -/
def maxRepeated : Nat := Nat.pow 2 28

/-- The largest count of a repetition. -/
def maxCount : Nat := Nat.pow 2 31 - 1

/-- A string repeated. -/
def repetition (s : Store) (token : Token) (t : ByteArray) (n : Float) : Result :=
  if !(Value.number n).isIntegral || n < 0 || n > Float.ofNat maxCount then
    refuse (.at token .type
      (text "string repeat count must be a non-negative integer, got "
        ++ s.display (.number n)))
  else if n * Float.ofNat t.size > Float.ofNat maxRepeated then
    refuse (.at token .runtime
      (text "string repeat result exceeds " ++ Bytes.ofNat maxRepeated ++ text " bytes"))
  else if t.isEmpty then .ok (.string t)
  else .ok (.string (repeatPacked t n.toUInt64.toNat))

/-- The operator of a compound assignment: a string times a number repeats the string. -/
def compound (s : Store) (op : ArithOp) (token : Token) (v w : Value) : Result :=
  match op, v, w with
  | .mul, .string t, .number n => repetition s token t n
  | op, v, w => arith s op token v w

/-- One more or one less than a number. -/
def step (s : Store) (op : StepOp) (token : Token) : Value → Result
  | .number x =>
    match op with
    | .increment => .ok (.number (x + 1))
    | .decrement => .ok (.number (x - 1))
  | v => refuse (wrongType s token "a number" v)

/-- The element that an index names in an array of a given length: negative ones count from the
end. -/
def elementIndex? (x : Float) (length : Nat) : Option Nat :=
  let n := Float.ofNat length
  let x := if x < 0 then x + n else x
  if x < 0 || x ≥ n then none else some x.toUInt64.toNat

/-- The array and the place in it that an index expression names. -/
def element (s : Store) (bracket : Token) (object index : Value) :
    Except Halt (ArrayId × Nat) :=
  match object with
  | .array a =>
    match index with
    | .number x =>
      if index.isIntegral then
        match elementIndex? x (s.elements a).size with
        | some i => .ok (a, i)
        | none =>
          refuse (.at bracket .runtime
            (text "index " ++ s.display index ++ text " out of range for array of length "
              ++ Bytes.ofNat (s.elements a).size))
      else notInteger
    | _ => notInteger
  | v =>
    refuse (.at bracket .type (text "only arrays can be indexed, got " ++ s.typeName v))
where
  notInteger : Except Halt (ArrayId × Nat) :=
    match s.repr? index with
    | .ok shown =>
      refuse (.at bracket .type (text "array index must be an integer, got " ++ shown))
    | .error f => .error (.fault f)

end Operator

end Treewalk
