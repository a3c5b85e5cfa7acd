import Treewalk.Text.Bytes

/-!
# Diagnostics

A diagnostic is one reported event: what kind of fault it is, where it lies, the lexeme it is about and
a message. `Diagnostic.line` words it on one line; a list of diagnostics is worded one per line.
-/

namespace Treewalk

/-- The phase or rule that a diagnostic comes from. -/
inductive Diagnostic.Kind where
  | lexical
  | grammar
  | structural
  | reference
  | runtime
  | type
  | system
  | warning
  | unknown
deriving DecidableEq, Repr

/-- What a warning is about. -/
inductive Diagnostic.Warning where
  | plain
  | unusedVariable
  | deadCode
  | unknown
deriving DecidableEq, Repr

/-- A place in a source: lines and columns count from one. A line of zero is an unknown place. -/
structure Place where
  line : Int
  column : Int
deriving DecidableEq, Repr

/-- One fault or warning. -/
structure Diagnostic where
  kind : Diagnostic.Kind
  warning : Diagnostic.Warning := .plain
  place : Place
  lexeme : Bytes
  message : Bytes
  /-- The input ended too early; more text may mend it. -/
  incomplete : Bool := false
deriving DecidableEq, Repr

namespace Place

/-- The unknown place. -/
def unknown : Place := ⟨0, 0⟩

/-- Does this place lie in a source? -/
def isKnown (p : Place) : Bool := 0 < p.line

/-- `line:column`, or only the line if there is no column. -/
def text (p : Place) : Bytes :=
  if 0 < p.column then Bytes.ofInt p.line ++ Treewalk.text ":" ++ Bytes.ofInt p.column
  else Bytes.ofInt p.line

end Place

namespace Diagnostic

/-- The name of a kind. -/
def Kind.name : Kind → Bytes
  | .lexical => text "LexerError"
  | .grammar => text "SyntaxError"
  | .structural => text "ParseError"
  | .reference => text "ReferenceError"
  | .runtime => text "RuntimeError"
  | .type => text "TypeError"
  | .system => text "SystemError"
  | .warning => text "Warning"
  | .unknown => text "unknown"

/-- The name of a warning; a plain one has none. -/
def Warning.name : Warning → Bytes
  | .unusedVariable => text "UnusedVariable"
  | .deadCode => text "DeadCode"
  | .plain | .unknown => []

/-- The label shown for a diagnostic: its kind, and for a warning what it is about. -/
def label (d : Diagnostic) : Bytes :=
  if d.kind = .warning && d.warning ≠ .plain then
    text "Warning(" ++ d.warning.name ++ text ")"
  else d.kind.name

/-- Is this a warning, which never stops a run? -/
def isWarning (d : Diagnostic) : Bool := d.kind = .warning

/-- A diagnostic on one line: label, place, lexeme and message. -/
def line (d : Diagnostic) : Bytes :=
  d.label
    ++ (if d.place.isKnown then text " at " ++ d.place.text else [])
    ++ (if d.lexeme.isEmpty then [] else text " near '" ++ d.lexeme ++ text "'")
    ++ text ": " ++ d.message

/-- Several diagnostics, one per line. -/
def listText : List Diagnostic → Bytes
  | [] => text "no errors"
  | ds => Bytes.join (text "\n") (ds.map line)

/-- Was there a fault, and was every one caused by input that ended too early? -/
def listIncomplete (ds : List Diagnostic) : Bool := !ds.isEmpty && ds.all incomplete

/-- A fault outside any source. -/
def system (message : Bytes) : Diagnostic :=
  { kind := .system, place := .unknown, lexeme := [], message }

end Diagnostic

end Treewalk
