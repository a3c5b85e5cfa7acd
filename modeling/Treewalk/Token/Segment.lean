import Treewalk.Numeral.Reading
import Treewalk.Text.Blank
import Treewalk.Text.Letter
import Treewalk.Token

/-!
# Cutting a source into segments

A source is cut into segments, each at least one rune long: a piece of white space, a comment, a token,
or a fault. The segments in order are the source, and all positions follow from them by counting runes
(`Position.after`), so the scanner itself never counts.

`Token.scan` gives the tokens of a source, closed by the end-of-input token, and the faults.
-/

namespace Treewalk

namespace Position

/-- The position of the first rune of a source. -/
def start : Position := ⟨0, 1, 1⟩

/-- The position behind a rune that stands at `p`. -/
def next (p : Position) (r : Rune) : Position :=
  if r.code = 0x0A then ⟨p.offset + r.raw.length, p.line + 1, 1⟩
  else ⟨p.offset + r.raw.length, p.line, p.column + 1⟩

/-- The position behind a run of runes that starts at `p`. -/
def after (p : Position) (rs : List Rune) : Position := rs.foldl next p

end Position

/-- Why a segment is no token. -/
inductive Segment.Fault where
  | unterminatedComment
  | unterminatedString
  | invalidByte
  | unexpected (r : Rune)
deriving DecidableEq, Repr

/-- What a segment of a source is. -/
inductive Segment.Form where
  | blank
  | comment
  | token (kind : Token.Kind) (literal : Literal)
  | fault (f : Segment.Fault)

/-- A piece of a source and what it is. -/
structure Segment where
  form : Segment.Form
  runes : List Rune

namespace Segment

/-- May this code point start a name? -/
def startsName (c : Nat) : Bool := isLetter c || c = 0x5F

/-- Is this code point a decimal digit? -/
def isDigit (c : Nat) : Bool := 0x30 ≤ c && c ≤ 0x39

/-- May this code point continue a name? -/
def continuesName (c : Nat) : Bool := isLetter c || isDigit c || c = 0x5F

/-- How many runes at the front satisfy `p`. -/
def runLength (p : Nat → Bool) : List Rune → Nat
  | [] => 0
  | r :: rest => if p r.code then runLength p rest + 1 else 0

/-- The runes of a line comment after its two slashes, newline included. -/
def lineCommentLength : List Rune → Nat
  | [] => 0
  | r :: rest => if r.code = 0x0A then 1 else lineCommentLength rest + 1

/-- The runes of a block comment behind its opening mark, closing mark included, with `depth` comments
open around it; `none` if the input ends first. `taken` counts the runes passed. -/
def blockCommentLength? (depth taken : Nat) : List Rune → Option Nat
  | [] => none
  | r :: rest =>
    match rest with
    | [] => none
    | r' :: rest' =>
      if r.code = 0x2A && r'.code = 0x2F then
        match depth with
        | 0 => some (taken + 2)
        | depth + 1 => blockCommentLength? depth (taken + 2) rest'
      else if r.code = 0x2F && r'.code = 0x2A then
        blockCommentLength? (depth + 1) (taken + 2) rest'
      else blockCommentLength? depth (taken + 1) (r' :: rest')

/-- What an escape in a string stands for: four letters are characters of their own, any other keeps
its backslash. -/
def unescape (c : Nat) : Bytes :=
  if c = 0x6E then [0x0A]
  else if c = 0x74 then [0x09]
  else if c = 0x5C then [0x5C]
  else if c = 0x22 then [0x22]
  else 0x5C :: Rune.encode c

/-- The body of a string behind its opening quote: its value and the runes it takes, closing quote
included; `none` if the input ends first. The value is collected backwards in `value`. -/
def stringBody? (value : List Bytes) (taken : Nat) : List Rune → Option (Bytes × Nat)
  | [] => none
  | r :: rest =>
    if r.code = 0x22 then some (value.reverse.flatten, taken + 1)
    else if r.code = 0x5C then
      match rest with
      | [] => none
      | r' :: rest' => stringBody? (unescape r'.code :: value) (taken + 2) rest'
    else stringBody? (Rune.encode r.code :: value) (taken + 1) rest

/-- The runes of a number: digits, and a fraction if a digit follows the point. -/
def numberLength (rs : List Rune) : Nat :=
  let whole := runLength isDigit rs
  match rs.drop whole with
  | point :: rest =>
    let fraction := runLength isDigit rest
    if point.code = 0x2E && 0 < fraction then whole + 1 + fraction else whole
  | [] => whole

/-- The value of a scanned numeral; one out of range counts as zero. -/
def numberValue (lexeme : Bytes) : Float := (Numeral.read? lexeme).getD 0

/-- The literal of a keyword. -/
def wordLiteral : Token.Kind → Literal
  | .trueWord => .bool true
  | .falseWord => .bool false
  | _ => .none

/-- The operator or mark that a source starts with, and its length: the longest that matches. -/
def mark? (c : Nat) (next : Option Nat) : Option (Token.Kind × Nat) :=
  let pair (second : Nat) (two : Token.Kind) (other : Option (Token.Kind × Nat)) :=
    if next = some second then some (two, 2) else other
  match c with
  | 0x28 => some (.leftParen, 1)
  | 0x29 => some (.rightParen, 1)
  | 0x7B => some (.leftBrace, 1)
  | 0x7D => some (.rightBrace, 1)
  | 0x5B => some (.leftBracket, 1)
  | 0x5D => some (.rightBracket, 1)
  | 0x2C => some (.comma, 1)
  | 0x2E => some (.dot, 1)
  | 0x3B => some (.semicolon, 1)
  | 0x3F => some (.question, 1)
  | 0x3A => some (.colon, 1)
  | 0x2B => pair 0x2B .plusPlus (pair 0x3D .plusAssign (some (.plus, 1)))
  | 0x2D => pair 0x2D .minusMinus (pair 0x3D .minusAssign (some (.minus, 1)))
  | 0x2A => pair 0x3D .starAssign (some (.star, 1))
  | 0x2F => pair 0x3D .slashAssign (some (.slash, 1))
  | 0x3D => pair 0x3D .equalEqual (some (.assign, 1))
  | 0x21 => pair 0x3D .bangEqual (some (.bang, 1))
  | 0x3C => pair 0x3D .lessEqual (some (.less, 1))
  | 0x3E => pair 0x3D .greaterEqual (some (.greater, 1))
  | _ => none

/-- What the source `r :: rest` starts with, and how many runes of `rest` belong to it. -/
def front (r : Rune) (rest : List Rune) : Form × Nat :=
  let next := rest.head?.map Rune.code
  if isBlank r.code then (.blank, 0)
  else if r.code = 0x2F && next = some 0x2F then (.comment, lineCommentLength rest)
  else if r.code = 0x2F && next = some 0x2A then
    match blockCommentLength? 0 0 (rest.drop 1) with
    | some n => (.comment, n + 1)
    | none => (.fault .unterminatedComment, rest.length)
  else if startsName r.code then
    let n := runLength continuesName rest
    let kind := Token.Kind.ofWord (Rune.bytes (r :: rest.take n))
    (.token kind (wordLiteral kind), n)
  else if isDigit r.code then
    let n := numberLength (r :: rest)
    (.token .number (.number (numberValue (Rune.bytes ((r :: rest).take n)))), n - 1)
  else if r.code = 0x22 then
    match stringBody? [] 0 rest with
    | some (value, n) => (.token .string (.string value), n)
    | none => (.fault .unterminatedString, rest.length)
  else match mark? r.code next with
    | some (kind, n) => (.token kind .none, n - 1)
    | none => (.fault (if r.code = Rune.replacement then .invalidByte else .unexpected r), 0)

/-- The segments of a source of which the first `skip` runes belong to a segment already taken; `done`
holds the segments before it, latest first. -/
def cutInto (done : List Segment) : Nat → List Rune → List Segment
  | _, [] => done.reverse
  | 0, r :: rest =>
    let (form, n) := front r rest
    cutInto (⟨form, r :: rest.take n⟩ :: done) n rest
  | skip + 1, _ :: rest => cutInto done skip rest

/-- The segments of a source. -/
def cut (rs : List Rune) : List Segment := cutInto [] 0 rs

namespace Fault

/-- May more text mend this fault? -/
def incomplete : Fault → Bool
  | .unterminatedComment | .unterminatedString => true
  | .invalidByte | .unexpected _ => false

/-- The message of a fault. -/
def message : Fault → Bytes
  | .unterminatedComment => text "unterminated block comment"
  | .unterminatedString => text "unterminated string literal"
  | .invalidByte => text "invalid UTF-8 encoding"
  | .unexpected r => text "unexpected character " ++ Quoted.char r

/-- The lexeme shown for a fault: of a comment only its opening mark, else the whole segment. -/
def lexeme (f : Fault) (segment : Bytes) : Bytes :=
  match f with
  | .unterminatedComment => text "/*"
  | _ => segment

/-- The diagnostic of a fault whose segment starts at `pos`. -/
def diagnostic (f : Fault) (pos : Position) (segment : Bytes) : Diagnostic :=
  { kind := .lexical
    place := pos.place
    lexeme := f.lexeme segment
    message := f.message
    incomplete := f.incomplete }

end Fault

end Segment

/-- What scanning gives: tokens, the last of them the end of input, and faults, both in source order. -/
structure Token.Scanned where
  tokens : List Token
  faults : List Diagnostic

namespace Token

/-- Tokens and faults collected from the segments so far, latest first, and the position reached. -/
structure Progress where
  pos : Position := .start
  tokens : List Token := []
  faults : List Diagnostic := []

/-- Collects one segment. -/
def Progress.add (p : Progress) (s : Segment) : Progress :=
  let p' := { p with pos := p.pos.after s.runes }
  match s.form with
  | .blank | .comment => p'
  | .token kind literal =>
    { p' with tokens := ⟨kind, Rune.bytes s.runes, literal, p.pos⟩ :: p.tokens }
  | .fault f => { p' with faults := f.diagnostic p.pos (Rune.bytes s.runes) :: p.faults }

/-- The tokens and faults of a source. -/
def scan (source : Bytes) : Scanned :=
  let p := (Segment.cut (Rune.decode source)).foldl Progress.add {}
  { tokens := (⟨.eof, [], .none, p.pos⟩ :: p.tokens).reverse
    faults := p.faults.reverse }

end Token

end Treewalk
