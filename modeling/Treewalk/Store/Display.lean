import Treewalk.Numeral.Shortest
import Treewalk.Store

/-!
# Values as text

`Store.display` is the text that printing shows. Inside an array strings are quoted, and an array that
is being shown further out is cut to `[...]`, so that the text of a cyclic array is finite.
-/

namespace Treewalk.Store

/-- The name of a value's type. -/
def typeName (s : Store) : Value → Bytes
  | .none => text "none"
  | .unset => text "unset"
  | .number _ => text "number"
  | .string _ => text "string"
  | .bool _ => text "bool"
  | .function _ | .native _ | .hollow .function => text "function"
  | .classRef _ => text "class"
  | .object _ | .hollow .object => text "instance"
  | .array _ | .hollow .array => text "array"
  | .host h => ((s.hosts[h]?).map (·.typeName)).getD (text "native")
  | .hollow .host => text "native"
  | .hollow (.unknown _) => text "unknown"

/-- The name of a class. -/
def className (s : Store) (c : ClassId) : Bytes := ((s.classes[c]?).map (·.name)).getD []

/-- The text of a value that is no array. -/
def displayFlat (s : Store) : Value → Bytes
  | .none => text "none"
  | .unset => text "unset"
  | .number x => Numeral.display x
  | .string t => unpack t
  | .bool b => text (if b then "true" else "false")
  | .function f => text "<fn " ++ ((s.functions[f]?).map (·.name)).getD [] ++ text ">"
  | .classRef c => text "<class " ++ s.className c ++ text ">"
  | .native n => text "<native fn " ++ ((s.natives[n]?).map (·.name)).getD [] ++ text ">"
  | .object i =>
    text "<" ++ ((s.instances[i]?).map fun inst => s.className inst.cls).getD []
      ++ text " instance>"
  | .array _ | .hollow .array => text "[]"
  | .host h => text "<native " ++ s.typeName (.host h) ++ text ">"
  | .hollow .function => text "<fn>"
  | .hollow .object => text "< instance>"
  | .hollow .host => text "<native native>"
  | .hollow (.unknown _) => text "<unknown>"

/-- The text of a value that is no array, with a string quoted. -/
def reprFlat (s : Store) : Value → Bytes
  | .string t => Quoted.string (unpack t)
  | v => s.displayFlat v

/-- The text of a value inside the arrays `active`; `fuel` bounds the nesting. -/
def reprIn (s : Store) : (fuel : Nat) → (active : List ArrayId) → Value → Bytes
  | 0, _, v => s.reprFlat v
  | fuel + 1, active, .array a =>
    if active.contains a then text "[...]"
    else
      text "[" ++ Bytes.join (text ", ") ((s.elements a).toList.map (s.reprIn fuel (a :: active)))
        ++ text "]"
  | _ + 1, _, v => s.reprFlat v

/-- The text of a value with strings quoted. No array is shown inside itself, so nesting is bounded by
the number of arrays. -/
def repr (s : Store) (v : Value) : Bytes := s.reprIn (s.arrays.size + 2) [] v

/-- The text of a value. -/
def display (s : Store) : Value → Bytes
  | .string t => unpack t
  | v => s.repr v

/-- Does the text of a value need an instance that is not there? -/
def lacksObject (s : Store) : (fuel : Nat) → (active : List ArrayId) → Value → Bool
  | fuel + 1, active, .array a =>
    !active.contains a && (s.elements a).any (s.lacksObject fuel (a :: active))
  | _, _, .hollow .object => true
  | _, _, _ => false

/-- Can the text of a value be given? Only values of the host that lack an instance refuse. -/
def isShown (s : Store) (v : Value) : Bool := !s.lacksObject (s.arrays.size + 2) [] v

/-- The text of a value as a packed string. -/
def displayPacked (s : Store) : Value → ByteArray
  | .string t => t
  | v => (s.repr v).pack

/-- The text of a value as a packed string, unless an instance is missing in it. -/
def display? (s : Store) (v : Value) : Except Fault ByteArray :=
  if s.isShown v then .ok (s.displayPacked v) else .error .absent

/-- The text of a value with strings quoted, unless an instance is missing in it. -/
def repr? (s : Store) (v : Value) : Except Fault Bytes :=
  if s.isShown v then .ok (s.repr v) else .error .absent

end Treewalk.Store
