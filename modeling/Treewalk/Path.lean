import Treewalk.Text.Bytes

/-!
# Paths

A path is its components between slashes; it is rooted if it starts with one. A clean path has no empty
component, no `.`, and `..` only in front of an unrooted path.
-/

namespace Treewalk.Path

/-- The byte between components. -/
def slash : UInt8 := 0x2F

/-- The component that stands for the folder itself. -/
def here : Bytes := [0x2E]

/-- The component that stands for the folder above. -/
def up : Bytes := [0x2E, 0x2E]

/-- Does a path start at the root? -/
def isRooted (p : Bytes) : Bool := p.head? = some slash

/-- The components of a path, empty ones included. -/
def components (p : Bytes) : List Bytes :=
  let cut := p.foldr
    (fun b (acc : Bytes × List Bytes) =>
      if b = slash then ([], acc.1 :: acc.2) else (b :: acc.1, acc.2))
    ([], [])
  cut.1 :: cut.2

/-- Adds a component behind those of a clean path, which are given last first. -/
def extend (rooted : Bool) (done : List Bytes) (c : Bytes) : List Bytes :=
  if c.isEmpty || c = here then done
  else if c = up then
    match done with
    | [] => if rooted then [] else [up]
    | last :: before => if last = up then up :: done else before
  else c :: done

/-- The shortest path of the same meaning. -/
def clean (p : Bytes) : Bytes :=
  let parts := ((components p).foldl (extend (isRooted p)) []).reverse
  let body := Bytes.join [slash] parts
  if isRooted p then slash :: body else if body.isEmpty then here else body

/-- A path inside a folder. -/
def join (folder p : Bytes) : Bytes := clean (folder ++ slash :: p)

/-- A path seen from the root, where `folder` is what unrooted paths start from. -/
def absolute (folder p : Bytes) : Bytes := if isRooted p then clean p else join folder p

end Treewalk.Path
