import Treewalk.Diagnostic
import Treewalk.Text.Width

/-!
# Diagnostics shown in their source

An excerpt shows a diagnostic as up to three lines: the header, the source line behind a gutter, and a
caret line that marks the lexeme. The caret stands under the column in display width, not in
characters. Each line is written on its own, so an excerpt is a list of lines.
-/

namespace Treewalk

/-- A source with the name to show for it; an empty name is not shown. -/
structure Listing where
  name : Bytes
  lines : List Bytes
  widths : Widths

namespace Listing

/-- The listing of a source. -/
def ofSource (name source : Bytes) (widths : Widths := .standard) : Listing := ⟨name, source.lines, widths⟩

/-- The source line of a given number, without trailing carriage returns. -/
def line? (l : Listing) (n : Int) : Option Bytes :=
  if n ≤ 0 then none else l.lines[(n - 1).toNat]?.map Bytes.dropTrailingReturns

/-- The header line of a diagnostic. -/
def header (l : Listing) (d : Diagnostic) : Bytes :=
  let place :=
    if !d.place.isKnown then []
    else if l.name.isEmpty then text "line " ++ d.place.text ++ text ": "
    else l.name ++ text ":" ++ d.place.text ++ text ": "
  place ++ d.label ++ text ": " ++ d.message ++ text "\n"

/-- What stands before the source line. -/
def gutter (n : Int) : Bytes := Bytes.padLeft 4 (Bytes.ofInt n) ++ text " | "

/-- The blanks that stand for one rune above the caret line: a tab stays a tab. -/
def padOf (l : Listing) (r : Rune) : Bytes :=
  if r.code = 0x09 then [0x09] else Bytes.blanks (l.widths.code r.code)

/-- The blanks that put a caret under a column of a line. -/
def caretPad (l : Listing) (line : Bytes) (column : Nat) : Bytes :=
  ((Rune.decode line).take (column - 1)).flatMap l.padOf

/-- One caret per column of the lexeme, and at least one. -/
def caretCount (l : Listing) (d : Diagnostic) : Nat :=
  if d.lexeme.isEmpty then 1 else max 1 (l.widths.text d.lexeme)

/-- The caret line. -/
def carets (l : Listing) (d : Diagnostic) (line : Bytes) : Bytes :=
  Bytes.blanks (l.widths.text (gutter d.place.line)) ++ l.caretPad line d.place.column.toNat
    ++ List.replicate (l.caretCount d) 0x5E ++ text "\n"

/-- The lines that show a diagnostic, each with its newline. -/
def excerpt (l : Listing) (d : Diagnostic) : List Bytes :=
  match l.line? d.place.line with
  | none => [l.header d]
  | some line =>
    [l.header d, gutter d.place.line ++ line ++ text "\n"]
      ++ if 0 < d.place.column then [l.carets d line] else []

/-- The lines that show several diagnostics. -/
def excerpts (l : Listing) (ds : List Diagnostic) : List Bytes := ds.flatMap l.excerpt

end Listing

end Treewalk
