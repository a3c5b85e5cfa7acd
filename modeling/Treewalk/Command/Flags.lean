import Treewalk.Text.Quoted

/-!
# Flags

Flags start with one or two dashes and stand before all other arguments; a single dash is no flag, and
two dashes alone end the flags. A truth flag takes a value only behind an equals sign, a text flag also
as the next argument.
-/

namespace Treewalk

/-- The flags of a command and the arguments behind them. -/
structure Flags where
  settingsPath : Bytes := []
  debug : Bool := false
  dumpsTree : Bool := false
  rest : List Bytes := []

namespace Flags

/-- Why arguments are refused. -/
inductive Problem where
  /-- The usage was asked for. -/
  | help
  | badSyntax (arg : Bytes)
  | unknown (name : Bytes)
  | needsValue (name : Bytes)
  | badBool (value name : Bytes)
deriving DecidableEq, Repr

/-- The line that reports a problem; asking for the usage is none. -/
def Problem.message : Problem → Bytes
  | .help => []
  | .badSyntax arg => text "bad flag syntax: " ++ arg ++ text "\n"
  | .unknown name => text "flag provided but not defined: -" ++ name ++ text "\n"
  | .needsValue name => text "flag needs an argument: -" ++ name ++ text "\n"
  | .badBool value name =>
    text "invalid boolean value " ++ Quoted.string value ++ text " for -" ++ name
      ++ text ": parse error\n"

/-- How the command is called. -/
def usage : Bytes := text
  "usage: lox [flags] [script | -] [args...]
  -ast
    \tprint each parsed program as s-expressions
  -config string
    \tpath to a YAML config file
  -debug
    \tlog interpreter calls to stderr
"

/-- An argument seen as a flag. -/
inductive Shape where
  /-- No flag: this argument and the rest are taken as they are. -/
  | plain
  /-- The end of the flags. -/
  | dashes
  | bad
  | flag (name : Bytes) (value : Option Bytes)

/-- A name cut at the first equals sign behind its first byte. -/
def cut (s : Bytes) : Shape :=
  match s with
  | [] => .bad
  | b :: rest =>
    if b = 0x2D || b = 0x3D then .bad
    else
      let name := b :: rest.takeWhile (· ≠ 0x3D)
      match s.drop name.length with
      | _ :: value => .flag name (some value)
      | [] => .flag name none

/-- The shape of an argument. -/
def shape : Bytes → Shape
  | [0x2D, 0x2D] => .dashes
  | 0x2D :: 0x2D :: rest => cut rest
  | 0x2D :: b :: rest => cut (b :: rest)
  | _ => .plain

/-- A truth value as flags spell it. -/
def bool? (s : Bytes) : Option Bool :=
  if ["1", "t", "T", "true", "TRUE", "True"].any (text · == s) then some true
  else if ["0", "f", "F", "false", "FALSE", "False"].any (text · == s) then some false
  else none

/-- Sets a truth flag. -/
def setBool (name : Bytes) (value : Option Bytes) (set : Bool → Flags) : Except Problem Flags :=
  match value with
  | none => .ok (set true)
  | some v =>
    match bool? v with
    | some b => .ok (set b)
    | none => .error (.badBool v name)

/-- Takes the flags off a list of arguments. -/
def parseFrom (f : Flags) : List Bytes → Except Problem Flags
  | [] => .ok f
  | arg :: rest =>
    match shape arg with
    | .plain => .ok { f with rest := arg :: rest }
    | .dashes => .ok { f with rest }
    | .bad => .error (.badSyntax arg)
    | .flag name value =>
      if name = text "ast" then do
        parseFrom (← setBool name value ({ f with dumpsTree := · })) rest
      else if name = text "debug" then do
        parseFrom (← setBool name value ({ f with debug := · })) rest
      else if name = text "config" then
        match value, rest with
        | some v, rest => parseFrom { f with settingsPath := v } rest
        | none, v :: rest => parseFrom { f with settingsPath := v } rest
        | none, [] => .error (.needsValue name)
      else if name = text "help" || name = text "h" then .error .help
      else .error (.unknown name)

/-- The flags of a list of arguments. -/
def parse (args : List Bytes) : Except Problem Flags := parseFrom {} args

end Flags

end Treewalk
