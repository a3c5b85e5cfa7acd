import Treewalk.Text.Quoted
import Treewalk.Value

/-!
# The store

The store holds everything with an identity. Objects are only ever added, so a name stays valid; a
frame keeps its parent and its names for good, and only the values bound in it change.

Frames form chains through their parents. A frame lists its names in the order of definition and binds
each once; `protected` bindings are those of the host, which assignment by name refuses to change.
-/

namespace Treewalk

/-- A name bound in a frame. -/
structure Binding where
  name : Bytes
  value : Value
  isProtected : Bool := false

/-- The names of one activation of a scope. -/
structure Frame where
  parent : Option FrameId
  bindings : List Binding := []

/-- A function with the frame it was made in. -/
structure Closure where
  name : Bytes
  params : List Token
  body : List Stmt
  env : FrameId
  /-- A method that sets up instances: a call of it yields its receiver. -/
  isInit : Bool := false

/-- A class; field values are computed in the frame that the class was declared in. -/
structure Class where
  name : Bytes
  methods : List Closure
  fields : List Field
  env : FrameId

/-- An object made by calling a class. -/
structure Instance where
  cls : ClassId
  fields : List (Bytes × Value) := []

/-- What a host function of its own does: it looks at arguments and calls values back, any number of
times, until it ends. -/
inductive Script where
  | give (v : Value)
  /-- Ends with a fault of its own. -/
  | fail (e : RuntimeError)
  /-- Ends with a message only. -/
  | failPlain (message : Bytes)
  /-- Goes on with the elements of an array; any other value has none. -/
  | look (array : Value) (next : List Value → Script)
  /-- Calls a value and goes on with what it gives. A call that fails ends the script with that failure,
  unless it `rescues`: then it goes on with nothing. -/
  | call (callee : Value) (args : List Value) (rescues : Bool) (next : Option Value → Script)

/-- What a native function does. -/
inductive NativeOp where
  | clock
  | input
  | len
  | str
  | num
  | type
  | push
  | pop
  | copy
  | error
  | random
  | randomSeed
  | sqrt
  | floor
  | abs
  /-- A host function that fails with a fault of its own. -/
  | fails (e : RuntimeError)
  /-- A host function that fails with a message only. -/
  | failsPlain (message : Bytes)
  /-- A host function that may call back. -/
  | script (run : List Value → Script)
  /-- A host function without anything to do: a call of it is a broken promise. -/
  | missing

/-- The host function that calls its first argument with the elements of its second. -/
def NativeOp.applies : NativeOp :=
  .script fun args =>
    .look ((args.drop 1).headD .none) fun elements =>
      .call (args.headD .none) elements false fun v => .give (v.getD .none)

/-- A native function. -/
structure Native where
  name : Bytes
  arity : Nat
  op : NativeOp

/-- A host object: properties that programs can read and not write. -/
structure Host where
  typeName : Bytes
  properties : List (Bytes × Value)

/-- All objects of a run. -/
structure Store where
  frames : Array Frame := #[]
  arrays : Array (Array Value) := #[]
  instances : Array Instance := #[]
  functions : Array Closure := #[]
  classes : Array Class := #[]
  natives : Array Native := #[]
  hosts : Array Host := #[]

/-- Why a definition or assignment by name was refused. -/
inductive BindError where
  | alreadyDefined (name : Bytes)
  | isProtected (name : Bytes)
  | undefined (name : Bytes)
  | registering (name : Bytes) (cause : BindError)
deriving DecidableEq, Repr

/-- A refusal in words. -/
def BindError.message : BindError → Bytes
  | alreadyDefined name => text "'" ++ name ++ text "' already defined in this scope"
  | isProtected name => text "cannot assign to native binding '" ++ name ++ text "'"
  | undefined name => text "undefined variable '" ++ name ++ text "'"
  | registering name cause => text "register " ++ name ++ text ": " ++ cause.message

/-- A broken promise: a distance of the check that leads to no binding, or a value of the host that lacks
its object. It ends what is done at once. -/
inductive Fault where
  | unbound (name : Bytes) (distance : Int)
  | shortChain (distance : Int)
  | absent
  | outside (index length : Int)
deriving DecidableEq, Repr

/-- A broken promise in words. -/
def Fault.message : Fault → Bytes
  | unbound name distance =>
    text "resolved variable " ++ Quoted.string name ++ text " missing at distance "
      ++ Bytes.ofInt distance
  | shortChain distance =>
    text "environment chain shorter than resolved distance " ++ Bytes.ofInt distance
  | absent => text "runtime error: invalid memory address or nil pointer dereference"
  | outside index length =>
    if index < 0 then text "runtime error: index out of range [" ++ Bytes.ofInt index ++ text "]"
    else
      text "runtime error: index out of range [" ++ Bytes.ofInt index ++ text "] with length "
        ++ Bytes.ofInt length

namespace Frame

/-- The binding of a name in this frame. -/
def find? (f : Frame) (name : Bytes) : Option Binding := f.bindings.find? (·.name == name)

/-- The value of a name in this frame. -/
def lookup? (f : Frame) (name : Bytes) : Option Value := (f.find? name).map Binding.value

/-- The names of this frame in the order of definition. -/
def names (f : Frame) : List Bytes := f.bindings.map Binding.name

/-- Adds a binding behind the others. -/
def add (f : Frame) (b : Binding) : Frame := { f with bindings := f.bindings ++ [b] }

/-- Changes the value of a name. -/
def put (f : Frame) (name : Bytes) (v : Value) : Frame :=
  { f with bindings := f.bindings.map fun b => if b.name == name then { b with value := v } else b }

end Frame

namespace Instance

/-- The value of a field. -/
def field? (i : Instance) (name : Bytes) : Option Value :=
  (i.fields.find? (·.1 == name)).map Prod.snd

/-- Writes a field, adding it if it is new. -/
def put (i : Instance) (name : Bytes) (v : Value) : Instance :=
  if i.fields.any (·.1 == name) then
    { i with fields := i.fields.map fun f => if f.1 == name then (name, v) else f }
  else { i with fields := i.fields ++ [(name, v)] }

end Instance

namespace Class

/-- The method of a name: of several the last declared. -/
def method? (c : Class) (name : Bytes) : Option Closure :=
  c.methods.reverse.find? (·.name == name)

/-- The name of the method that sets up new instances. -/
def initName : Bytes := text "init"

/-- How many arguments a call takes: those of the method that sets up instances. -/
def arity (c : Class) : Nat := ((c.method? initName).map (·.params.length)).getD 0

end Class

namespace Store

/-! ## Frames -/

/-- The outermost frame, in which global names are bound. -/
def globals : FrameId := 0

/-- A frame by its name. -/
def frame (s : Store) (f : FrameId) : Frame := s.frames[f]?.getD { parent := none }

/-- Adds a frame. -/
def newFrame (s : Store) (parent : Option FrameId) : FrameId × Store :=
  (s.frames.size, { s with frames := s.frames.push { parent } })

/-- Adds a frame that binds one name. -/
def newFrameWith (s : Store) (parent : FrameId) (name : Bytes) (v : Value) : FrameId × Store :=
  (s.frames.size,
    { s with frames := s.frames.push { parent := some parent, bindings := [{ name, value := v }] } })

/-- Is a name bound in this very frame? -/
def binds (s : Store) (f : FrameId) (name : Bytes) : Bool := ((s.frame f).find? name).isSome

/-- Adds a binding to a frame. -/
def add (s : Store) (f : FrameId) (b : Binding) : Store :=
  { s with frames := s.frames.modify f (·.add b) }

/-- Binds a new name in a frame. -/
def define (s : Store) (f : FrameId) (name : Bytes) (v : Value) (isProtected : Bool) :
    Except BindError Store :=
  if s.binds f name then .error (.alreadyDefined name)
  else .ok (s.add f { name, value := v, isProtected })

/-- Binds a new name on behalf of the host. -/
def register (s : Store) (f : FrameId) (name : Bytes) (v : Value) (isProtected : Bool) :
    Except BindError Store :=
  (s.define f name v isProtected).mapError (.registering name)

/-- The nearest frame up the chain that binds a name. Parents are older than their children, so `fuel`
of the frame's own name suffices. -/
def owner? (s : Store) (name : Bytes) : (fuel : Nat) → FrameId → Option FrameId
  | 0, f => if s.binds f name then some f else none
  | fuel + 1, f =>
    if s.binds f name then some f
    else (s.frame f).parent.bind (s.owner? name fuel)

/-- The value of a name, looked up along the chain. -/
def get (s : Store) (f : FrameId) (name : Bytes) : Except BindError Value :=
  match (s.owner? name f f).bind fun g => (s.frame g).lookup? name with
  | some v => .ok v
  | none => .error (.undefined name)

/-- Changes the value of a name in a frame. -/
def put (s : Store) (f : FrameId) (name : Bytes) (v : Value) : Store :=
  { s with frames := s.frames.modify f (·.put name v) }

/-- The frame that an assignment to a name writes to: the nearest that binds it, unless the binding is
protected. -/
def assignee (s : Store) (f : FrameId) (name : Bytes) : Except BindError FrameId :=
  match s.owner? name f f with
  | none => .error (.undefined name)
  | some g =>
    if ((s.frame g).find? name).any (·.isProtected) then .error (.isProtected name) else .ok g

/-- Assigns to a name, looked up along the chain. -/
def mutate (s : Store) (f : FrameId) (name : Bytes) (v : Value) : Except BindError Store :=
  (s.assignee f name).map fun g => s.put g name v

/-- The frame a number of links up the chain. -/
def ancestor? (s : Store) (f : FrameId) : Nat → Option FrameId
  | 0 => some f
  | n + 1 => (s.frame f).parent.bind fun g => s.ancestor? g n

/-- The frame that a distance leads to, if it binds the name; a negative distance stays where it is. -/
def target (s : Store) (f : FrameId) (distance : Int) (name : Bytes) : Except Fault (FrameId × Value) :=
  match s.ancestor? f distance.toNat with
  | none => .error (.shortChain distance)
  | some g =>
    match (s.frame g).lookup? name with
    | some v => .ok (g, v)
    | none => .error (.unbound name distance)

/-- Reads a name at a distance. -/
def getAt (s : Store) (f : FrameId) (distance : Int) (name : Bytes) : Except Fault Value :=
  (s.target f distance name).map Prod.snd

/-- Writes a name at a distance; protection is not asked for. -/
def putAt (s : Store) (f : FrameId) (distance : Int) (name : Bytes) (v : Value) :
    Except Fault Store :=
  (s.target f distance name).map fun t => s.put t.1 name v

/-! ## Arrays -/

/-- The elements of an array. -/
def elements (s : Store) (a : ArrayId) : Array Value := s.arrays[a]?.getD #[]

/-- Adds an array. -/
def newArray (s : Store) (elems : Array Value) : Value × Store :=
  (.array s.arrays.size, { s with arrays := s.arrays.push elems })

/-- Changes the elements of an array. -/
def modifyArray (s : Store) (a : ArrayId) (f : Array Value → Array Value) : Store :=
  { s with arrays := s.arrays.modify a f }

/-- The array that a value of the host refers to. -/
def arrayOf : Value → Except Fault ArrayId
  | .array a => .ok a
  | _ => .error .absent

/-- Adds an element on behalf of the host. -/
def append (s : Store) (target v : Value) : Except Fault Store :=
  (arrayOf target).map fun a => s.modifyArray a (·.push v)

/-- Overwrites an element on behalf of the host. -/
def putElement (s : Store) (target : Value) (index : Int) (v : Value) : Except Fault Store := do
  let a ← arrayOf target
  let length := (s.elements a).size
  if 0 ≤ index ∧ index < length then
    .ok (s.modifyArray a (·.setIfInBounds index.toNat v))
  else .error (.outside index length)

/-- A copy of a value: arrays get elements of their own, all else is shared. -/
def clone (s : Store) : Value → Value × Store
  | .array a => s.newArray (s.elements a)
  | v => (v, s)

/-- A copy of a value of the host, whose array may be missing. -/
def clone? (s : Store) : Value → Except Fault (Value × Store)
  | .hollow .array => .error .absent
  | v => .ok (s.clone v)

/-! ## Functions, classes, instances, host objects -/

/-- Adds a function. -/
def newFunction (s : Store) (f : Closure) : Value × Store :=
  (.function s.functions.size, { s with functions := s.functions.push f })

/-- Adds a class. -/
def newClass (s : Store) (c : Class) : Value × Store :=
  (.classRef s.classes.size, { s with classes := s.classes.push c })

/-- Adds a native function. -/
def newNative (s : Store) (n : Native) : Value × Store :=
  (.native s.natives.size, { s with natives := s.natives.push n })

/-- Adds a host object. -/
def newHost (s : Store) (h : Host) : Value × Store :=
  (.host s.hosts.size, { s with hosts := s.hosts.push h })

/-- Adds an instance without fields. -/
def newInstance (s : Store) (cls : ClassId) : InstanceId × Store :=
  (s.instances.size, { s with instances := s.instances.push { cls } })

/-- Writes a field of an instance. -/
def putField (s : Store) (i : InstanceId) (name : Bytes) (v : Value) : Store :=
  { s with instances := s.instances.modify i (·.put name v) }

/-- The name under which a method finds its receiver. -/
def receiverName : Bytes := text "this"

/-- A method whose receiver is bound in a frame of its own. -/
def bind (s : Store) (m : Closure) (receiver : InstanceId) : Closure × Store :=
  let (env, s) := s.newFrameWith m.env receiverName (.object receiver)
  ({ m with env }, s)

/-- The class of an instance. -/
def classOf? (s : Store) (i : InstanceId) : Option Class :=
  s.instances[i]?.bind fun inst => s.classes[inst.cls]?

/-- A property of an instance: a field, or else a method bound to it. -/
def property (s : Store) (i : InstanceId) (name : Bytes) : Option Value × Store :=
  match s.instances[i]?.bind (·.field? name) with
  | some v => (some v, s)
  | none =>
    match (s.classOf? i).bind (·.method? name) with
    | none => (none, s)
    | some m =>
      let (bound, s) := s.bind m i
      let (v, s) := s.newFunction bound
      (some v, s)

/-- The instance that a value of the host refers to. -/
def instanceOf : Value → Except Fault InstanceId
  | .object i => .ok i
  | _ => .error .absent

end Store

end Treewalk
