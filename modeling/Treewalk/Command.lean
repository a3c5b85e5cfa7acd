import Treewalk.Command.Dialogue
import Treewalk.Command.Flags
import Treewalk.Settings

/-!
# The command

The command reads flags and settings and then runs a script, a program given as input, or a dialogue.
Diagnostics have been written when a run ends; the exit status tells its kind. A command whose program never
ends has no exit status.
-/

namespace Treewalk

/-- How the command ends. -/
inductive ExitStatus where
  | ok
  /-- The arguments or the settings are wrong. -/
  | usage
  /-- The program is refused. -/
  | data
  /-- The program failed. -/
  | software
  /-- A file or the input could not be read. -/
  | io
deriving DecidableEq, Repr

/-- The number of a status. -/
def ExitStatus.code : ExitStatus → Nat
  | .ok => 0
  | .usage => 64
  | .data => 65
  | .software => 70
  | .io => 74

namespace Command

/-- What a command comes to, and the console afterwards. -/
abbrev Result := Except Fault ExitStatus × Console

/-- Reports a failure of the command itself. -/
def blame (c : Console) (f : Failure) : Console :=
  { c with err := c.err.write (text "lox: " ++ f.message ++ text "\n") }

/-- The status of a failed run; of these only a file that is not there is still to be reported. -/
def failureStatus (c : Console) (f : Failure) : ExitStatus × Console :=
  if f.isStatic then (.data, c)
  else if f.isRuntime then (.software, c)
  else if f.fileCause? = some .notFound || f.fileCause? = some .denied then (.io, blame c f)
  else (.software, c)

/-- The result of a run; one that never ends has none. -/
def ofOutcome (outcome : Outcome Unit) (c : Console) : Option Result :=
  match outcome with
  | .done _ => some (.ok .ok, c)
  | .failed f =>
    let (status, c) := failureStatus c f
    some (.ok status, c)
  | .broken f => some (.error f, c)
  | .unfinished => none

/-- Runs a source in a session. -/
def runSource (s : Session) (name source : Bytes) : Option Result :=
  let (outcome, s) := s.run name source
  ofOutcome outcome s.interpreter.console

/-- Runs the program that the input holds. -/
def runInput (s : Session) : Option Result :=
  let c := s.interpreter.console
  let input := c.input
  if input.fails then some (.ok .io, blame c (.plain Input.broken))
  else
    runSource (s.onConsole fun c => { c with input := { input with rest := [] } })
      (text "<stdin>") input.rest

/-- Runs the script at a path. -/
def runScript (w : Surroundings) (s : Session) (path : Bytes) : Option Result :=
  match w.files.read path with
  | .error e => ofOutcome (.failed (.file e)) s.interpreter.console
  | .ok source => runSource s path (blankShebang source)

/-- Holds a dialogue over all of the input, of which programs see nothing. -/
def converse (s : Session) : Option Result :=
  let input := s.interpreter.console.input
  (Dialogue.run (s.onConsole fun c => { c with input := { input with rest := [] } }) input).map
    fun (result, s) => (result.map fun _ => .ok, s.interpreter.console)

/-- The session that flags and settings ask for. -/
def session (c : Console) (settings : Settings) (flags : Flags) : Session :=
  let c := { c with debug := settings.debug || flags.debug }
  let c := if settings.path.isEmpty then c
    else c.log "config loaded" [("path", settings.path)]
  { interpreter := { Interpreter.standard with console := c }.setArguments flags.rest
    showsWarnings := settings.showsWarnings
    dumpsTree := flags.dumpsTree }

/-- What the command comes to; `none` if it never ends. -/
def run? (w : Surroundings) (c : Console) (args : List Bytes) : Option Result :=
  match Flags.parse args with
  | .error p =>
    let c := { c with err := c.err.writeAll [p.message, Flags.usage] }
    some (.ok (if p = .help then .ok else .usage), c)
  | .ok flags =>
    match Settings.load w flags.settingsPath with
    | .error f => some (.ok .usage, blame c f)
    | .ok settings =>
      let s := session c settings flags
      match flags.rest with
      | [] => converse s
      | script :: _ => if script = [0x2D] then runInput s else runScript w s script

instance : Nonempty Result := ⟨.ok .ok, {}⟩

/-- A command at work, with its result if it ends. -/
structure Pending where
  result? : Option Result

/-- Waits for the result; where there is none, it waits forever. -/
def Pending.await (p : Pending) : Result :=
  match p.result? with
  | some result => result
  | none => p |>.await
partial_fixpoint

/-- Runs the command, and comes back when it has ended. -/
def run (w : Surroundings) (c : Console) (args : List Bytes) : Result := Pending.await ⟨run? w c args⟩

/-- The files that a command may read: its settings and its script. -/
def paths (w : Surroundings) (args : List Bytes) : List Bytes :=
  match Flags.parse args with
  | .error _ => []
  | .ok flags =>
    ((Settings.fullPath? w flags.settingsPath).map Prod.fst).toList ++ flags.rest.head?.toList

end Command

end Treewalk
