import Treewalk.Diagnostic.Excerpt
import Treewalk.Interpreter
import Treewalk.Tree.Dump

/-!
# Sessions

A session runs sources one after the other on one interpreter, so that what an earlier one defined is
there for a later one, and reports on the diagnostics stream: warnings if they are wanted, then either
why the source was refused, or the tree if it is wanted and the fault that ended the run.
-/

namespace Treewalk

/-- An interpreter with what is to be reported about the sources it runs. -/
structure Session where
  interpreter : Interpreter := .standard
  showsWarnings : Bool := true
  /-- Every program is shown as a tree before it runs. -/
  dumpsTree : Bool := false
  /-- The columns of the terminal that diagnostics are shown on. -/
  widths : Widths := .standard

/-- A script's text: a first line that starts with `#!` is left blank, so that line numbers stay. -/
def blankShebang (source : Bytes) : Bytes :=
  match source with
  | 0x23 :: 0x21 :: rest => rest.dropWhile (· ≠ Bytes.newline)
  | source => source

/-- Does a source stop in the middle of a statement? -/
def needsMore (source : Bytes) : Bool :=
  ((Failure.ofFaults? (Parsed.ofSource 0 source).faults).map (·.isIncomplete)).getD false

namespace Session

/-- Changes the console. -/
def onConsole (s : Session) (f : Console → Console) : Session :=
  { s with interpreter := { s.interpreter with console := f s.interpreter.console } }

/-- Writes lines to the diagnostics stream; a failed write is not noticed. -/
def report (s : Session) (lines : List Bytes) : Session :=
  s.onConsole fun c => { c with err := c.err.writeAll lines }

/-- Reports warnings, if they are wanted. -/
def warn (s : Session) (lines : List Bytes) : Session := if s.showsWarnings then s.report lines else s

/-- Writes each statement as a tree; the first write that fails ends this. -/
def dump (err : Sink) : List Stmt → Sink × Bool
  | [] => (err, true)
  | s :: rest =>
    match err.write? (s.dump ++ text "\n").pack with
    | some err => dump err rest
    | none => (err, false)

/-- Shows the program as a tree, if that is wanted; tells whether all of it could be written. -/
def showTree (s : Session) (stmts : List Stmt) : Session × Bool :=
  if s.dumpsTree then
    let (err, ok) := dump s.interpreter.console.err stmts
    (s.onConsole fun c => { c with err }, ok)
  else (s, true)

/-- Runs a checked program and reports the fault that ended it. -/
def execute (s : Session) (listing : Listing) (stmts : List Stmt) : Outcome Unit × Session :=
  let (outcome, interpreter) := s.interpreter.execute stmts
  let s := { s with interpreter }
  match outcome with
  | .failed f => (.failed f, s.report (listing.excerpt f.asDiagnostic))
  | outcome => (outcome, s)

/-- Compiles a source under a name and reports on it: the program to run, or why there is none. -/
def prepare (s : Session) (name source : Bytes) : Except Failure (List Stmt) × Session :=
  let listing := Listing.ofSource name source s.widths
  let (compiled, interpreter) := s.interpreter.compile source
  let s := { s with interpreter }.warn (listing.excerpts compiled.warnings)
  match compiled.stmts with
  | .error f => (.error f, s.report (listing.excerpts f.diagnostics))
  | .ok stmts =>
    let s := s.onConsole fun c =>
      c.log "run"
        [("name", name), ("statements", Bytes.ofNat stmts.length),
          ("warnings", Bytes.ofNat compiled.warnings.length)]
    match s.showTree stmts with
    | (s, false) => (.error (.plain Sink.full), s)
    | (s, true) => (.ok stmts, s)

/-- Runs a source under a name and reports on it. -/
def run (s : Session) (name source : Bytes) : Outcome Unit × Session :=
  match s.prepare name source with
  | (.error f, s) => (.failed f, s)
  | (.ok stmts, s) => s.execute (Listing.ofSource name source s.widths) stmts

end Session

end Treewalk
