import Treewalk.Failure
import Treewalk.Tree

/-!
# Values

Values are small: arrays, instances, functions and all else with an identity live in a store, and a
value only refers to them. Two references are the same object exactly if they are equal.
-/

namespace Treewalk

/-- The name of a frame in a store. -/
abbrev FrameId := Nat
/-- The name of an array in a store. -/
abbrev ArrayId := Nat
/-- The name of an instance in a store. -/
abbrev InstanceId := Nat
/-- The name of a function in a store. -/
abbrev FunctionId := Nat
/-- The name of a class in a store. -/
abbrev ClassId := Nat
/-- The name of a native function in a store. -/
abbrev NativeId := Nat
/-- The name of a host object in a store. -/
abbrev HostId := Nat

/-- A value of which only the type is known: a host may hand one in, programs never make one. -/
inductive Hollow where
  | function
  | object
  | array
  | host
  | unknown (code : Int)
deriving DecidableEq, Repr

/-- The values of programs. -/
inductive Value where
  | none
  /-- The mark of a variable that was declared and not yet assigned. -/
  | unset
  | number (x : Float)
  | string (s : ByteArray)
  | bool (b : Bool)
  | function (id : FunctionId)
  | classRef (id : ClassId)
  | native (id : NativeId)
  | object (id : InstanceId)
  | array (id : ArrayId)
  /-- A host object with properties that programs can read. -/
  | host (id : HostId)
  | hollow (h : Hollow)
deriving Inhabited

namespace Value

/-- A string value from bytes. -/
def ofBytes (s : Bytes) : Value := .string s.pack

/-- A number value from a count. -/
def ofNat (n : Nat) : Value := .number (Float.ofNat n)

/-- Only `false` and `none` do not count as true. -/
def isTruthy : Value → Bool
  | .none => false
  | .bool b => b
  | _ => true

/-- Is this a finite number without a fraction? -/
def isIntegral : Value → Bool
  | .number x =>
    -- from this number on no number has a fraction
    if x.abs < Float.ofNat (Nat.pow 2 53) then x.abs.toUInt64.toFloat == x.abs else x.isFinite
  | _ => false

/-- The number that a value is; any other value reads as zero. -/
def asNumber : Value → Float
  | .number x => x
  | _ => 0

/-- The string that a value is; any other value reads as the empty one. -/
def asString : Value → ByteArray
  | .string s => s
  | _ => .empty

/-- The truth value that a value is; any other value reads as false. -/
def asBool : Value → Bool
  | .bool b => b
  | _ => false

/-- Does a value refer to something that can be called? -/
def isCallable : Value → Bool
  | .function _ | .classRef _ | .native _ => true
  | _ => false

/-- Does a value refer to an instance? -/
def isInstance : Value → Bool
  | .object _ => true
  | _ => false

/-- Does a value refer to an array? -/
def isArray : Value → Bool
  | .array _ => true
  | _ => false

/-- Does a value refer to a host object? -/
def isHost : Value → Bool
  | .host _ => true
  | _ => false

/-- The value of a literal. -/
def ofLiteral : Literal → Value
  | .none => .none
  | .bool b => .bool b
  | .number x => .number x
  | .string s => .ofBytes s

/-- A value that has the given type code and nothing else. -/
def ofTypeCode : Int → Value
  | 0 => .none
  | 1 => .unset
  | 2 => .number 0
  | 3 => .string .empty
  | 4 => .bool false
  | 5 => .hollow .function
  | 6 => .hollow .object
  | 7 => .hollow .array
  | 8 => .hollow .host
  | code => .hollow (.unknown code)

end Value

end Treewalk
