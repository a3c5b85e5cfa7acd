import Treewalk.Files
import Treewalk.Text.Blank
import Treewalk.Text.Quoted
import Treewalk.Yaml.Document

/-!
# Settings

Settings come from a file named on the command line, else by a variable of the surroundings, else from a
file in the home folder, which alone may be missing. A file sets what it mentions; null leaves a setting
as it is. All faults of a file are reported together, in the order of the file.
-/

namespace Treewalk

/-- What can be set. -/
structure Settings where
  /-- The file that was read, or nothing. -/
  path : Bytes := []
  prompt : Bytes := text "lox> "
  continuationPrompt : Bytes := text ".... "
  historyFile : Bytes := []
  warnings : Option Bool := none
  debug : Bool := false

/-- What a command finds around it. -/
structure Surroundings where
  files : Files
  /-- The home folder, or nothing. -/
  home : Bytes := []
  /-- The variable that names a settings file. -/
  settingsVariable : Bytes := []

namespace Settings

/-! ## Reading values -/

/-- A value read from a node: it may be left out, or be of the wrong type. -/
inductive Reading (α : Type) where
  | value (a : α)
  | missing
  | faulty (faults : List Bytes)

/-- Values longer than this are cut in messages. -/
def maxShown : Nat := 10

/-- A value as messages show it. -/
def shown (s : Bytes) : Bytes :=
  text " \x60" ++ (if maxShown < s.length then s.take 7 ++ text "..." else s) ++ text "\x60"

/-- The fault of a node that should be of another type. -/
def mismatch (n : Yaml.Node) (wanted : String) : Bytes :=
  let value := match n with
    | .plain _ s | .quoted _ s => shown s
    | .sequence _ _ | .mapping _ _ => []
  text "line " ++ Bytes.ofNat n.line ++ text ": cannot unmarshal " ++ n.tag.name ++ value
    ++ text " into " ++ text wanted

/-- The faults of keys that come again, each with the line of the first. -/
def repeatedKeys : List (Yaml.Node × Yaml.Node) → List Bytes
  | [] => []
  | (key, _) :: rest =>
    (rest.filter fun e => key.sameKey e.1).map (fun e =>
      text "line " ++ Bytes.ofNat e.1.line ++ text ": mapping key " ++ Quoted.string e.1.value
        ++ text " already defined at line " ++ Bytes.ofNat key.line) ++ repeatedKeys rest

/-- The faults of a collection where a scalar should stand. -/
def collectionFaults (n : Yaml.Node) (wanted : String) : List Bytes :=
  match n with
  | .mapping _ entries =>
    match repeatedKeys entries with
    | [] => [mismatch n wanted]
    | faults => faults
  | n => [mismatch n wanted]

/-- Any scalar but null is a text, as it is written. -/
def textOf (n : Yaml.Node) : Reading Bytes :=
  match n with
  | .plain _ s => if n.tag = .null then .missing else .value s
  | .quoted _ s => .value s
  | n => .faulty (collectionFaults n "string")

/-- The words for true that are no values by themselves. -/
def affirmative : List String := ["y", "Y", "yes", "Yes", "YES", "on", "On", "ON"]

/-- The words for false that are no values by themselves. -/
def negative : List String := ["n", "N", "no", "No", "NO", "off", "Off", "OFF"]

/-- The truth value that a word stands for. -/
def word? (s : Bytes) : Option Bool :=
  if affirmative.any (text · == s) then some true
  else if negative.any (text · == s) then some false
  else none

/-- A truth value, or a word for one. -/
def boolOf (n : Yaml.Node) : Reading Bool :=
  match n with
  | .plain _ _ | .quoted _ _ =>
    match n.tag with
    | .null => .missing
    | .bool b => .value b
    | .str =>
      match word? n.value with
      | some b => .value b
      | none => .faulty [mismatch n "bool"]
    | _ => .faulty [mismatch n "bool"]
  | n => .faulty (collectionFaults n "bool")

/-! ## Reading a file -/

/-- Puts a field's value, or adds its faults. -/
def Reading.store {α : Type} (f : Reading α) (put : α → Settings) (old : Settings × List Bytes) :
    Settings × List Bytes :=
  match f with
  | .value a => (put a, old.2)
  | .missing => old
  | .faulty faults => (old.1, old.2 ++ faults)

/-- Takes one entry of the file. -/
def entry (acc : Settings × List Bytes) (e : Yaml.Node × Yaml.Node) : Settings × List Bytes :=
  let s := acc.1
  match textOf e.1 with
  | .missing => acc
  | .faulty faults => (s, acc.2 ++ faults)
  | .value name =>
    if name = text "prompt" then (textOf e.2).store ({ s with prompt := · }) acc
    else if name = text "continuation_prompt" then
      (textOf e.2).store ({ s with continuationPrompt := · }) acc
    else if name = text "history_file" then (textOf e.2).store ({ s with historyFile := · }) acc
    else if name = text "warnings" then (boolOf e.2).store ({ s with warnings := some · }) acc
    else if name = text "debug" then (boolOf e.2).store ({ s with debug := · }) acc
    else
      (s, acc.2 ++ [text "line " ++ Bytes.ofNat e.1.line ++ text ": field " ++ name
        ++ text " not found in type runtime.Config"])

/-- The settings of a document and its faults. -/
def ofNode (n : Yaml.Node) : Settings × List Bytes :=
  match n with
  | .mapping _ entries =>
    match repeatedKeys entries with
    | [] => entries.foldl entry ({}, [])
    | faults => ({}, faults)
  | n => if n.tag = .null then ({}, []) else ({}, [mismatch n "runtime.Config"])

/-- The settings of a file, or what is wrong with it. -/
def ofSource (source : Bytes) : Except Bytes Settings :=
  match Yaml.read source with
  | .error p => .error p.message
  | .ok none => .ok {}
  | .ok (some n) =>
    match ofNode n with
    | (s, []) => .ok s
    | (_, faults) =>
      .error (text "yaml: unmarshal errors:\n  " ++ Bytes.join (text "\n  ") faults)

/-! ## Finding a file -/

/-- The home folder for `~` in front of a path. -/
def expandHome (w : Surroundings) (path : Bytes) : Bytes :=
  match path with
  | [0x7E] => if w.home.isEmpty then path else Path.clean w.home
  | 0x7E :: 0x2F :: rest => if w.home.isEmpty then path else Path.join w.home rest
  | path => path

/-- The path that names the settings file, and whether it was asked for. -/
def sourcePath? (w : Surroundings) (explicit : Bytes) : Option (Bytes × Bool) :=
  if !explicit.trim.isEmpty then some (explicit.trim, true)
  else if !w.settingsVariable.trim.isEmpty then some (w.settingsVariable.trim, true)
  else if w.home.isEmpty then none
  else some (Path.join w.home (text ".loxrc.yaml"), false)

/-- The rooted path of the settings file, and whether it was asked for. -/
def fullPath? (w : Surroundings) (explicit : Bytes) : Option (Bytes × Bool) :=
  (sourcePath? w explicit).map fun p =>
    (Path.absolute w.files.current (expandHome w p.1), p.2)

/-- Reads a settings file. -/
def loadFile (w : Surroundings) (path : Bytes) : Except Failure Settings :=
  let parsing (message : Bytes) : Failure :=
    .wrapped (text "config: parse " ++ path) (.plain message)
  match w.files.read path with
  | .error e =>
    if e.cause = .isDirectory then .error (parsing (text "yaml: input error: " ++ e.message))
    else .error (.wrapped (text "config: open " ++ path) (.file e))
  | .ok source =>
    match ofSource source with
    | .error message => .error (parsing message)
    | .ok s => .ok { s with path }

/-- The settings of a command. -/
def load (w : Surroundings) (explicit : Bytes) : Except Failure Settings :=
  match fullPath? w explicit with
  | none => .ok {}
  | some (path, required) =>
    match loadFile w path with
    | .ok s => .ok s
    | .error f => if !required && f.fileCause? = some .notFound then .ok {} else .error f

/-! ## Using settings -/

/-- Are warnings shown? They are unless switched off. -/
def showsWarnings (s : Settings) : Bool := s.warnings.getD true

/-- Where the lines typed so far are kept; nothing if there is no place. -/
def historyPath (s : Settings) (w : Surroundings) : Bytes :=
  if !s.historyFile.isEmpty then expandHome w s.historyFile
  else if w.home.isEmpty then []
  else Path.join w.home (text ".lox_history")

end Settings

end Treewalk
