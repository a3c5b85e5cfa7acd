import Treewalk.Session
import Treewalk.Text.Blank

/-!
# Dialogues

A dialogue feeds a session line by line. Lines are gathered until they are a whole program; the end of
the text ends it too. A line that starts with a colon, where no program is open, is a command to the
dialogue itself.
-/

namespace Treewalk

/-- A session with the lines gathered so far. -/
structure Dialogue where
  session : Session
  gathered : Bytes := []

/-- How a dialogue goes on. -/
inductive Dialogue.State where
  | going (d : Dialogue)
  | closed (s : Session)
  | broken (f : Fault) (s : Session)
  /-- A program runs and never ends, so the dialogue waits for it forever. -/
  | endless

namespace Dialogue

/-- Writes to the program's output. -/
def say (s : Session) (line : Bytes) : Session :=
  s.onConsole fun c => { c with out := c.out.write line }

/-- Writes to the diagnostics stream. -/
def complain (s : Session) (line : Bytes) : Session :=
  s.onConsole fun c => { c with err := c.err.write line }

/-- The lines that show the global names. -/
def globalLines (i : Interpreter) : List Bytes :=
  i.globals.map fun g => g.1 ++ text " = " ++ i.store.repr g.2 ++ text "\n"

/-- Obeys a command; `none` ends the dialogue. -/
def obey (s : Session) (line : Bytes) : Option Session :=
  let word := line.firstWord
  if word = text ":quit" || word = text ":q" then none
  else if word = text ":env" then some ((globalLines s.interpreter).foldl say s)
  else if word = text ":ast" then
    let s := { s with dumpsTree := !s.dumpsTree }
    some (say s (text (if s.dumpsTree then "ast dump on\n" else "ast dump off\n")))
  else
    some (complain s
      (text "unknown command " ++ word ++ text " (try :env, :ast or :quit)\n"))

/-- Is this line a command? -/
def isCommand (line : Bytes) : Bool := line.trim.head? = some 0x3A

/-- How a dialogue goes on behind the run of a program, also of one that failed. -/
def State.ofRun : Outcome Unit × Session → State
  | (.done _, session) => .going { session }
  | (.failed _, session) => .going { session }
  | (.broken f, session) => .broken f session
  | (.unfinished, _) => .endless

/-- Takes a line; at the `last` one an open program is run as it is. -/
def take (d : Dialogue) (line : Bytes) (last : Bool) : State :=
  if d.gathered.isEmpty && isCommand line then
    match obey d.session line with
    | none => .closed d.session
    | some session => .going { d with session }
  else
    let source := d.gathered ++ line
    if source.trim.isEmpty then .going { d with gathered := [] }
    else if last || !needsMore source then .ofRun (d.session.run [] source)
    else .going { d with gathered := source }

/-- Goes on, if the dialogue does. -/
def State.andThen (state : State) (next : Dialogue → State) : State :=
  match state with
  | .going d => next d
  | state => state

/-- Takes lines in order, as long as the dialogue is open. -/
def takeAll (d : Dialogue) : List Bytes → State
  | [] => .going d
  | line :: rest => (d.take line false).andThen fun d => takeAll d rest

/-- The message of a text that fails. -/
def readError : Bytes := text "read error: " ++ Input.broken ++ text "\n"

/-- What a dialogue has come to that takes no more lines; one that waits for a program comes to nothing. -/
def State.result? : State → Option (Except Fault Unit × Session)
  | .going d => some (.ok (), d.session)
  | .closed s => some (.ok (), s)
  | .broken f s => some (.error f, s)
  | .endless => none

/-- A dialogue over a whole text; `none` if it never ends. -/
def run (s : Session) (input : Input) : Option (Except Fault Unit × Session) :=
  let (lines, final) := input.rest.terminatedLines
  let ended := (takeAll { session := s } lines).andThen fun d =>
    if input.fails then .closed (complain d.session readError) else d.take final true
  ended.result?

end Dialogue

end Treewalk
