import Treewalk.Failure
import Treewalk.Path

/-!
# Files

What a command sees of the file system: the folder it runs in, and what a path leads to. `Snapshot` is a
file system given by its list of files.
-/

namespace Treewalk

/-- What a path leads to. -/
inductive Content where
  | file (bytes : Bytes)
  | folder

/-- A view of a file system. -/
structure Files where
  /-- The folder that unrooted paths start from, as a rooted clean path. -/
  current : Bytes
  find : Bytes → Except FileError.Cause Content

namespace Files

/-- Reads a file: it must be there when it is opened, and must be no folder when it is read. -/
def read (f : Files) (path : Bytes) : Except FileError Bytes :=
  match f.find path with
  | .ok (.file bytes) => .ok bytes
  | .ok .folder => .error { action := text "read", path, cause := .isDirectory }
  | .error cause => .error { action := text "open", path, cause }

end Files

/-- A file system that holds listed files and folders; places are lists of names from the root. -/
structure Snapshot where
  current : List Bytes
  files : List (List Bytes × Bytes)
  folders : List (List Bytes)

namespace Snapshot

/-- The names in a path. -/
def names (path : Bytes) : List Bytes := (Path.components path).filter (!·.isEmpty)

/-- The file system with files named by paths below the current folder; a name that ends in a slash is
a folder. -/
def ofList (current : Bytes) (listed : List (Bytes × Bytes)) : Snapshot :=
  let place (path : Bytes) := names current ++ names path
  let isFolder (f : Bytes × Bytes) := f.1.getLast? = some Path.slash
  { current := names current
    files := (listed.filter fun f => !isFolder f).map fun f => (place f.1, f.2)
    folders := names current :: (listed.filter isFolder).map fun f => place f.1 }

/-- What stands at a place; the folders above a file or folder are there too. -/
def content? (s : Snapshot) (place : List Bytes) : Option Content :=
  match s.files.lookup place with
  | some bytes => some (.file bytes)
  | none =>
    if place.isEmpty || s.folders.any place.isPrefixOf || s.files.any (place.isPrefixOf ·.1) then
      some .folder
    else none

/-- The longest name. -/
def maxName : Nat := 255

/-- The longest path, its end mark included. -/
def maxPath : Nat := 4096

/-- Goes from a folder along one component of a path. -/
def step (s : Snapshot) (place : List Bytes) (c : Bytes) : Except FileError.Cause (List Bytes) :=
  match s.content? place with
  | some .folder =>
    if c.isEmpty || c = Path.here then .ok place
    else if c = Path.up then .ok place.dropLast
    else if maxName < c.length then .error .nameTooLong
    else if (s.content? (place ++ [c])).isSome then .ok (place ++ [c])
    else .error .notFound
  | _ => .error .notDirectory

/-- What a path leads to. -/
def find (s : Snapshot) (path : Bytes) : Except FileError.Cause Content := do
  if path.contains 0 then throw .invalidName
  if path.isEmpty then throw .notFound
  if maxPath ≤ path.length then throw .nameTooLong
  let start := if Path.isRooted path then [] else s.current
  let place ← (Path.components path).foldlM s.step start
  match s.content? place with
  | some c => pure c
  | none => throw .notFound

/-- The view of this file system. -/
def toFiles (s : Snapshot) : Files :=
  { current := Path.slash :: Bytes.join [Path.slash] s.current, find := s.find }

end Snapshot

end Treewalk
