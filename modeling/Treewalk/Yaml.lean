import Treewalk.Numeral.Reading
import Treewalk.Text.Bytes

/-!
# Settings files: nodes

A settings file is a YAML document. A node knows the line it starts on; a plain scalar has the type that
its text spells, all other scalars are strings.
-/

namespace Treewalk.Yaml

/-- A node of a document. Lines count from one. -/
inductive Node where
  | plain (line : Nat) (value : Bytes)
  /-- A scalar between quotes or written as a block. -/
  | quoted (line : Nat) (value : Bytes)
  | sequence (line : Nat) (items : List Node)
  | mapping (line : Nat) (entries : List (Node × Node))

/-- The type of a node. -/
inductive Tag where
  | null
  | bool (b : Bool)
  | int
  | float
  | timestamp
  | merge
  | str
  | seq
  | map
deriving DecidableEq, Repr

/-- The name of a type. -/
def Tag.name : Tag → Bytes
  | .null => text "!!null"
  | .bool _ => text "!!bool"
  | .int => text "!!int"
  | .float => text "!!float"
  | .timestamp => text "!!timestamp"
  | .merge => text "!!merge"
  | .str => text "!!str"
  | .seq => text "!!seq"
  | .map => text "!!map"

/-! ## The types of plain scalars -/

/-- Is this byte a decimal digit? -/
def isDigit (b : UInt8) : Bool := 0x30 ≤ b && b ≤ 0x39

/-- The value of a byte as a digit. -/
def digit? (b : UInt8) : Option Nat :=
  if isDigit b then some (b.toNat - 0x30)
  else if 0x61 ≤ b && b ≤ 0x66 then some (b.toNat - 0x57)
  else if 0x41 ≤ b && b ≤ 0x46 then some (b.toNat - 0x37)
  else none

/-- The number that digits of a base spell; there must be one. -/
def digits? (base : Nat) (s : Bytes) : Option Nat :=
  if s.isEmpty then none
  else s.foldlM (fun n b => (digit? b).bind fun d => if d < base then some (n * base + d) else none) 0

/-- A text without its sign, and whether that was a minus. -/
def splitSign : Bytes → Bool × Bytes
  | 0x2D :: rest => (true, rest)
  | 0x2B :: rest => (false, rest)
  | s => (false, s)

/-- An integer without its sign: a leading zero or a letter behind it names the base. -/
def magnitude? : Bytes → Option Nat
  | 0x30 :: m :: rest =>
    if m = 0x78 || m = 0x58 then digits? 16 rest
    else if m = 0x62 || m = 0x42 then digits? 2 rest
    else if m = 0x6F || m = 0x4F then digits? 8 rest
    else digits? 8 (m :: rest)
  | s => digits? 10 s

/-- Does a text spell an integer of 64 bits? Signed ones have one bit less for their size. -/
def isInteger (s : Bytes) : Bool :=
  let (negative, body) := splitSign s
  match magnitude? body with
  | none => false
  | some n =>
    if negative then n ≤ Nat.pow 2 63
    else if body.length < s.length then n < Nat.pow 2 63
    else n < Nat.pow 2 64

/-- An exponent behind a number: nothing, or a mark, a sign and digits. -/
def isExponent : Bytes → Bool
  | [] => true
  | e :: rest =>
    (e = 0x65 || e = 0x45) && !(splitSign rest).2.isEmpty && (splitSign rest).2.all isDigit

/-- Does a text have the form of a decimal fraction? -/
def isDecimal (s : Bytes) : Bool :=
  let body := (splitSign s).2
  let whole := body.takeWhile isDigit
  match body.drop whole.length with
  | 0x2E :: rest =>
    let places := rest.takeWhile isDigit
    !(whole.isEmpty && places.isEmpty) && isExponent (rest.drop places.length)
  | rest => !whole.isEmpty && isExponent rest

/-- Is a year a leap year? -/
def isLeap (y : Nat) : Bool := y % 4 = 0 && (y % 100 ≠ 0 || y % 400 = 0)

/-- The days of a month. -/
def daysIn (y m : Nat) : Nat :=
  if m = 2 then (if isLeap y then 29 else 28)
  else if m = 4 || m = 6 || m = 9 || m = 11 then 30
  else 31

/-- One or two digits in front of a text, and the rest. -/
def shortNumber? (s : Bytes) : Option (Nat × Bytes) :=
  let d := (s.take 2).takeWhile isDigit
  (digits? 10 d).map fun n => (n, s.drop d.length)

/-- The time of day behind a date: hours, minutes, seconds, maybe a fraction. -/
def clock? (s : Bytes) : Option Bytes := do
  let (hour, s) ← shortNumber? s
  let 0x3A :: s := s | none
  let (minute, s) ← shortNumber? s
  let 0x3A :: s := s | none
  let (second, s) ← shortNumber? s
  if 23 < hour || 59 < minute || 59 < second then none
  match s with
  | 0x2E :: rest =>
    let places := rest.takeWhile isDigit
    if places.isEmpty then none else some (rest.drop places.length)
  | s => some s

/-- A time zone: `Z`, or a sign, hours and minutes. -/
def isZone : Bytes → Bool
  | [0x5A] => true
  | [sign, a, b, 0x3A, c, d] =>
    (sign = 0x2B || sign = 0x2D) && [a, b, c, d].all isDigit
      && decide ((digits? 10 [a, b]).getD 99 ≤ 24) && decide ((digits? 10 [c, d]).getD 99 < 60)
  | _ => false

/-- Does a text spell a date, or a date with a time? -/
def isTimestamp (s : Bytes) : Bool :=
  let year := s.takeWhile isDigit
  if year.length ≠ 4 then false
  else
    match s.drop 4 with
    | 0x2D :: s =>
      match shortNumber? s with
      | some (month, 0x2D :: s) =>
        match shortNumber? s with
        | some (day, s) =>
          let y := (digits? 10 year).getD 0
          let isDate := 1 ≤ month && month ≤ 12 && 1 ≤ day && day ≤ daysIn y month
          isDate && match s with
            | [] => true
            | 0x20 :: s => (clock? s).any (·.isEmpty)
            | t :: s => (t = 0x54 || t = 0x74) && (clock? s).any isZone
        | none => false
      | _ => false
    | _ => false

/-- Spellings of null, true and false, and of numbers that are none. -/
def named : List (String × Tag) :=
  [("", .null), ("~", .null), ("null", .null), ("Null", .null), ("NULL", .null),
    ("true", .bool true), ("True", .bool true), ("TRUE", .bool true),
    ("false", .bool false), ("False", .bool false), ("FALSE", .bool false),
    (".nan", .float), (".NaN", .float), (".NAN", .float),
    (".inf", .float), (".Inf", .float), (".INF", .float),
    ("+.inf", .float), ("+.Inf", .float), ("+.INF", .float),
    ("-.inf", .float), ("-.Inf", .float), ("-.INF", .float), ("<<", .merge)]

/-- The type that the text of a plain scalar spells. -/
def plainTag (s : Bytes) : Tag :=
  match named.find? fun n => text n.1 == s with
  | some n => n.2
  | none =>
    match s with
    | 0x2E :: _ => if (Numeral.read? s).isSome then .float else .str
    | b :: _ =>
      if isDigit b || b = 0x2B || b = 0x2D then
        let digits := s.filter (· ≠ 0x5F)
        if isTimestamp s then .timestamp
        else if isInteger digits then .int
        else if isDecimal digits && (Numeral.read? digits).isSome then .float
        else .str
      else .str
    | [] => .null

namespace Node

/-- The line that a node starts on. -/
def line : Node → Nat
  | .plain n _ | .quoted n _ | .sequence n _ | .mapping n _ => n

/-- The text of a scalar. -/
def value : Node → Bytes
  | .plain _ s | .quoted _ s => s
  | _ => []

/-- The type of a node. -/
def tag : Node → Tag
  | .plain _ s => plainTag s
  | .quoted _ _ => .str
  | .sequence _ _ => .seq
  | .mapping _ _ => .map

/-- Do two nodes count as the same key? -/
def sameKey : Node → Node → Bool
  | .plain _ s, .plain _ t | .plain _ s, .quoted _ t | .quoted _ s, .plain _ t
  | .quoted _ s, .quoted _ t => s == t
  | .sequence _ _, .sequence _ _ => true
  | .mapping _ _, .mapping _ _ => true
  | _, _ => false

end Node

/-! ## Problems -/

/-- Why a text is no document. Lines count from zero here; a message names the line of its context or
else that of its problem, if that is not the first. -/
inductive Problem where
  /-- The text itself cannot be read. -/
  | reading (message : Bytes)
  /-- A token cannot be made out; the line is counted as it stands. -/
  | token (context problem : Nat) (message : String)
  /-- Tokens do not fit together; the line is counted up to the problem. -/
  | structural (context problem : Nat) (message : String)

/-- The mention of a line. -/
def mention (extra context problem : Nat) : Bytes :=
  let line := if context ≠ 0 then context + extra else if problem ≠ 0 then problem + extra else 0
  if line = 0 then [] else text "line " ++ Bytes.ofNat line ++ text ": "

/-- A problem in words. -/
def Problem.message : Problem → Bytes
  | .reading m => text "yaml: " ++ m
  | .token context problem m => text "yaml: " ++ mention 1 context problem ++ text m
  | .structural context problem m => text "yaml: " ++ mention 0 context problem ++ text m

end Treewalk.Yaml
