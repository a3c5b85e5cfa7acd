import Treewalk.Command

/-!
# The program

Gathers what the command asks for, runs it, and writes what it wrote. All else is in `Command.run`.
-/

namespace Treewalk

/-- Looks at a file of the machine the program runs on. -/
def inspect (path : Bytes) : IO (Except FileError.Cause Content) := do
  match String.fromUTF8? path.pack with
  | none => pure (.error .notFound)
  | some name =>
    try
      let bytes ← IO.FS.readBinFile name
      pure (.ok (.file (unpack bytes)))
    catch
      | .noFileOrDirectory .. => pure (.error .notFound)
      | .permissionDenied .. => pure (.error .denied)
      | _ => pure (.ok .folder)

/-- What the program finds around it, files apart. -/
def surroundings : IO Surroundings := do
  let current ← IO.currentDir
  let home ← IO.getEnv "HOME"
  let settings ← IO.getEnv "LOX_CONFIG"
  pure
    { files := { current := text current.toString, find := fun _ => .error .notFound }
      home := text (home.getD "")
      settingsVariable := text (settings.getD "") }

/-- The surroundings with the files at the given paths. -/
def withFiles (w : Surroundings) (paths : List Bytes) : IO Surroundings := do
  let found ← paths.mapM fun p => do pure (p, ← inspect p)
  let find (p : Bytes) : Except FileError.Cause Content :=
    (found.lookup p).getD (.error .notFound)
  pure { w with files := { w.files with find } }

/-- The console of the program. Input is read ahead, unless someone types it to a script. -/
def console (scripted : Bool) : IO Console := do
  let stdin ← IO.getStdin
  let typed ← stdin.isTty
  let input ← if scripted && typed then pure .empty else stdin.readBinToEnd
  let now := Float.ofNat (← IO.monoNanosNow) / 1000000000
  pure
    { input := { rest := unpack input }
      random := .ofSeed (now * 1000000)
      clock := { now, tick := 0.000001 }
      stamp := Bytes.ofNat (← IO.monoMsNow) }

end Treewalk

open Treewalk in
/-- Runs the command on the arguments of the program. -/
def main (arguments : List String) : IO UInt32 := do
  let args := arguments.map text
  let w ← surroundings
  let paths := Command.paths w args
  let w ← withFiles w paths
  let (result, c) := Command.run w (← console (!args.isEmpty)) args
  let stdout ← IO.getStdout
  let stderr ← IO.getStderr
  stdout.write c.out.written
  stdout.flush
  stderr.write c.err.written
  match result with
  | .ok status => pure status.code.toUInt32
  | .error f =>
    stderr.write (f.message ++ text "\n").pack
    pure 2
