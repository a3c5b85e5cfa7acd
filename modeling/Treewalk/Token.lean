import Treewalk.Diagnostic
import Treewalk.Text.Quoted

/-!
# Tokens

A token is a lexical unit of a source: its kind, the bytes that spell it, the literal value it stands
for and where it starts.
-/

namespace Treewalk

/-- Where something starts in a source: bytes from zero, lines and runes of the line from one. -/
structure Position where
  offset : Nat := 0
  line : Nat := 0
  column : Nat := 0
deriving DecidableEq, Repr

/-- The place that diagnostics show for a position. -/
def Position.place (p : Position) : Place := ⟨p.line, p.column⟩

/-- The kinds of tokens. -/
inductive Token.Kind where
  | eof
  | identifier
  | number
  | string
  | andWord
  | breakWord
  | classWord
  | continueWord
  | elseWord
  | falseWord
  | forWord
  | funWord
  | ifWord
  | letWord
  | noneWord
  | orWord
  | printWord
  | returnWord
  | thisWord
  | trueWord
  | whileWord
  | assign
  | plusAssign
  | minusAssign
  | starAssign
  | slashAssign
  | equalEqual
  | bangEqual
  | plus
  | minus
  | plusPlus
  | minusMinus
  | star
  | slash
  | less
  | lessEqual
  | greater
  | greaterEqual
  | bang
  | question
  | colon
  | comma
  | dot
  | semicolon
  | leftParen
  | rightParen
  | leftBrace
  | rightBrace
  | leftBracket
  | rightBracket
deriving DecidableEq, Repr

/-- The value that a literal stands for. -/
inductive Literal where
  | none
  | bool (b : Bool)
  | number (x : Float)
  | string (s : Bytes)

/-- A lexical unit. -/
structure Token where
  kind : Token.Kind
  lexeme : Bytes := []
  literal : Literal := .none
  pos : Position := {}

namespace Token

namespace Kind

/-- All kinds, in the order of their codes. -/
def all : List Kind :=
  [.eof, .identifier, .number, .string, .andWord, .breakWord, .classWord, .continueWord, .elseWord,
    .falseWord, .forWord, .funWord, .ifWord, .letWord, .noneWord, .orWord, .printWord, .returnWord,
    .thisWord, .trueWord, .whileWord, .assign, .plusAssign, .minusAssign, .starAssign, .slashAssign,
    .equalEqual, .bangEqual, .plus, .minus, .plusPlus, .minusMinus, .star, .slash, .less, .lessEqual,
    .greater, .greaterEqual, .bang, .question, .colon, .comma, .dot, .semicolon, .leftParen,
    .rightParen, .leftBrace, .rightBrace, .leftBracket, .rightBracket]

/-- The kind with a given code. -/
def ofCode? (n : Int) : Option Kind := if n < 0 then none else all[n.toNat]?

/-- The word or mark that spells a kind; for the kinds with many spellings, what they are called. -/
def spelling : Kind → String
  | .eof => "EOF"
  | .identifier => "identifier"
  | .number => "number"
  | .string => "string"
  | .andWord => "and"
  | .breakWord => "break"
  | .classWord => "class"
  | .continueWord => "continue"
  | .elseWord => "else"
  | .falseWord => "false"
  | .forWord => "for"
  | .funWord => "fun"
  | .ifWord => "if"
  | .letWord => "let"
  | .noneWord => "none"
  | .orWord => "or"
  | .printWord => "print"
  | .returnWord => "return"
  | .thisWord => "this"
  | .trueWord => "true"
  | .whileWord => "while"
  | .assign => "="
  | .plusAssign => "+="
  | .minusAssign => "-="
  | .starAssign => "*="
  | .slashAssign => "/="
  | .equalEqual => "=="
  | .bangEqual => "!="
  | .plus => "+"
  | .minus => "-"
  | .plusPlus => "++"
  | .minusMinus => "--"
  | .star => "*"
  | .slash => "/"
  | .less => "<"
  | .lessEqual => "<="
  | .greater => ">"
  | .greaterEqual => ">="
  | .bang => "!"
  | .question => "?"
  | .colon => ":"
  | .comma => ","
  | .dot => "."
  | .semicolon => ";"
  | .leftParen => "("
  | .rightParen => ")"
  | .leftBrace => "\x7b"
  | .rightBrace => "\x7d"
  | .leftBracket => "["
  | .rightBracket => "]"

/-- The name of a kind. -/
def name (k : Kind) : Bytes := text k.spelling

/-- The kinds that are spelled like a name and are none. -/
def keywords : List Kind :=
  [.andWord, .breakWord, .classWord, .continueWord, .elseWord, .falseWord, .forWord, .funWord, .ifWord,
    .letWord, .noneWord, .orWord, .printWord, .returnWord, .thisWord, .trueWord, .whileWord]

/-- The kind of a word: a keyword, or else a name. -/
def ofWord (word : Bytes) : Kind := (keywords.find? (·.name == word)).getD .identifier

/-- The kind of a code that may be no kind at all. -/
def nameOf : Option Kind → Bytes
  | some k => k.name
  | none => text "unknown"

end Kind

/-- A kind with a lexeme, as shown in messages about tokens. -/
def describe (kind : Option Kind) (lexeme : Bytes) : Bytes :=
  if lexeme.isEmpty then Kind.nameOf kind
  else Kind.nameOf kind ++ text " " ++ Quoted.string lexeme

end Token

end Treewalk
