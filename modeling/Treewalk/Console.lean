import Treewalk.Text.Blank
import Treewalk.Text.Quoted

/-!
# The console

The console is what a run can see and touch outside the store: two streams that it writes to, the text
that it reads, the clock, a source of random numbers, and whether calls are logged.
-/

namespace Treewalk

/-- A stream that is written to; a write that would pass the limit writes nothing. -/
structure Sink where
  written : ByteArray := .empty
  limit : Option Nat := none

namespace Sink

/-- The message of a write past the limit. -/
def full : Bytes := text "sink full"

/-- One write; `none` if it would pass the limit. -/
def write? (s : Sink) (bytes : ByteArray) : Option Sink :=
  match s.limit with
  | some n =>
    if n < s.written.size + bytes.size then none
    else some { s with written := s.written ++ bytes }
  | none => some { s with written := s.written ++ bytes }

/-- One write whose failure nobody looks at. -/
def write (s : Sink) (bytes : Bytes) : Sink := (s.write? bytes.pack).getD s

/-- Writes in order, each on its own. -/
def writeAll (s : Sink) (parts : List Bytes) : Sink := parts.foldl write s

end Sink

/-- A text that is read; it may fail behind its last byte instead of ending. -/
structure Input where
  rest : Bytes := []
  fails : Bool := false

/-- What reading a line gives. -/
inductive Input.Line where
  | line (s : Bytes)
  | done
  | failed
deriving DecidableEq, Repr

namespace Input

/-- The message of a text that fails. -/
def broken : Bytes := text "source broke"

/-- A line without its terminator. -/
def stripTerminator (s : Bytes) : Bytes :=
  Bytes.dropSuffixByte Bytes.carriageReturn (Bytes.dropSuffixByte Bytes.newline s)

/-- Reads a line. The last line needs no newline, unless the text fails there. -/
def readLine (i : Input) : Line × Input :=
  let body := i.rest.takeWhile (· ≠ Bytes.newline)
  match i.rest.drop body.length with
  | nl :: rest => (.line (stripTerminator (body ++ [nl])), { i with rest })
  | [] =>
    let i := { i with rest := [] }
    if i.fails then (.failed, i)
    else if body.isEmpty then (.done, i)
    else (.line (stripTerminator body), i)

end Input

/-- A source of random numbers: equal seeds give equal sequences. -/
structure Random where
  state : UInt64 := 0x9E3779B97F4A7C15

namespace Random

/-- The source that a seed starts. -/
def ofSeed (x : Float) : Random := ⟨x.toInt64.toUInt64⟩

/-- Mixes the bits of a word. -/
def mix (z : UInt64) : UInt64 :=
  let z := (z ^^^ (z >>> 30)) * 0xBF58476D1CE4E5B9
  let z := (z ^^^ (z >>> 27)) * 0x94D049BB133111EB
  z ^^^ (z >>> 31)

/-- The next number, at least zero and less than one. -/
def next (r : Random) : Float × Random :=
  let state := r.state + 0x9E3779B97F4A7C15
  (Float.ofNat ((mix state) >>> 11).toNat / 9007199254740992, ⟨state⟩)

end Random

/-- A clock in seconds that goes on with every look at it. -/
structure Clock where
  now : Float := 0
  /-- The time that one look takes. -/
  tick : Float := 0

/-- Looks at the clock. -/
def Clock.read (c : Clock) : Float × Clock := (c.now, { c with now := c.now + c.tick })

/-- What a run can see and touch outside the store. -/
structure Console where
  out : Sink := {}
  err : Sink := {}
  input : Input := {}
  random : Random := {}
  clock : Clock := {}
  /-- Calls and runs are logged. -/
  debug : Bool := false
  /-- The time shown in log lines. -/
  stamp : Bytes := []

namespace Console

/-- Must a log value be quoted? -/
def needsQuotes (s : Bytes) : Bool :=
  s.isEmpty || (Rune.decode s).any fun r =>
    if r.code < 0x80 then r.code ≤ 0x20 || r.code = 0x22 || r.code = 0x3D
    else r.code = Rune.replacement || isBlank r.code || !isPrintable r.code

/-- A log value. -/
def logValue (s : Bytes) : Bytes := if needsQuotes s then Quoted.string s else s

/-- A log line. -/
def logLine (stamp message : Bytes) (fields : List (String × Bytes)) : Bytes :=
  text "time=" ++ stamp ++ text " level=DEBUG msg=" ++ logValue message
    ++ fields.flatMap (fun f => text " " ++ text f.1 ++ text "=" ++ logValue f.2) ++ text "\n"

/-- Logs an event, if logging is on. -/
def log (c : Console) (message : String) (fields : List (String × Bytes)) : Console :=
  if c.debug then { c with err := c.err.write (logLine c.stamp (text message) fields) } else c

end Console

end Treewalk
