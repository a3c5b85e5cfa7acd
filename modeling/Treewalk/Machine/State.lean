import Treewalk.Console
import Treewalk.Machine.Halt
import Treewalk.Scope
import Treewalk.Store.Display

/-!
# The machine: states

A run is a sequence of states. The control says what happens next: an expression is evaluated, a
statement is executed, a value is called, a value or a completion is handed to what waits for it, or a
halt unwinds. What
waits is a list of pending parts, innermost first. Each pending part that changed the current frame or
the call depth holds what to restore, and does so on every way out.
-/

namespace Treewalk

/-- The distances of local names, by the identity of their use. -/
structure Distances where
  table : Array (Option Nat) := #[]

namespace Distances

/-- The distance kept for a use, if the name is local. -/
def find? (d : Distances) (id : NodeId) : Option Nat := d.table[id]?.join

/-- Keeps the distance of a use. -/
def insert (d : Distances) (id : NodeId) (distance : Nat) : Distances :=
  if id < d.table.size then ⟨d.table.setIfInBounds id (some distance)⟩
  else ⟨(d.table ++ Array.replicate (id - d.table.size) none).push (some distance)⟩

/-- Keeps all distances that a check found. -/
def insertAll (d : Distances) (uses : List LocalUse) : Distances :=
  uses.foldl (fun d u => d.insert u.id u.distance) d

end Distances

/-- How a statement ended. -/
inductive Completion where
  | normal
  | leave
  | skip
  | result (v : Value)

/-- The word for a completion that went where none may go. -/
def Completion.word : Completion → Bytes
  | .normal => text "normal"
  | .leave => text "break"
  | .skip => text "continue"
  | .result _ => text "return"

/-- The halt for a completion that left the construct that should have taken it. -/
def Halt.escaped (c : Completion) (place : Bytes) : Halt :=
  .plain (text "internal error: " ++ c.word ++ text " escaped " ++ place)

/-- What is done with an array element. -/
inductive ElementUse where
  | read
  | step (op : StepOp) (token : Token) (before : Bool)

/-- What is done with a property. -/
inductive PropertyUse where
  | read
  | step (op : StepOp) (token : Token) (before : Bool)
  | write (value : Expr)

/-- A part of the program that waits for a value or for a completion. -/
inductive Pending where
  /-- The operand of an operator. -/
  | unary (op : UnaryOp) (token : Token)
  /-- The left operand; the right one comes next. -/
  | left (op : BinaryOp) (token : Token) (right : Expr)
  /-- The right operand. -/
  | right (op : BinaryOp) (token : Token) (left : Value)
  /-- The left operand, which may decide. -/
  | logical (op : LogicalOp) (right : Expr)
  | ternary (question : Token) (yes no : Expr)
  /-- The value to assign. -/
  | assign (id : NodeId) (name : Token)
  /-- The right-hand side; the variable was read before. -/
  | compound (id : NodeId) (name : Token) (op : ArithOp) (token : Token) (current : Value)
  /-- The array of an element; its index comes next. -/
  | indexed (bracket : Token) (index : Expr) (use : ElementUse)
  /-- The index of an element. -/
  | index (bracket : Token) (object : Value) (use : ElementUse)
  /-- The object of a property. -/
  | property (name : Token) (use : PropertyUse)
  /-- The value to write to a field. -/
  | write (name : Token) (object : InstanceId)
  /-- The function to call; the arguments come next. -/
  | callee (paren : Token) (args : List Expr)
  /-- An argument; those before it are in `done`, latest first. -/
  | argument (paren : Token) (callee : Value) (done : List Value) (rest : List Expr)
  /-- An element of an array; those before it are in `done`. -/
  | element (done : Array Value) (rest : List Expr)
  /-- The result of a call in the program: halts get its site. -/
  | site (paren : Token) (callee : Bytes)
  /-- The result of any call: the call depth goes back. -/
  | depart (depth : Nat)
  /-- A call made by a host function, which goes on with what the call gives. -/
  | callback (rescues : Bool) (next : Option Value → Script)
  /-- The body of a function; the caller's frame comes back. -/
  | body (f : Closure) (env : FrameId)
  /-- The value of a field of a new instance; the caller's frame comes back. -/
  | field (object : InstanceId) (name : Bytes) (rest : List Field) (cls : Class) (args : List Value)
      (env : FrameId)
  /-- The set-up of a new instance, whose result is the instance. -/
  | construct (object : InstanceId)
  /-- The value of an expression statement. -/
  | discard
  | print (pos : Position)
  /-- The initial value of a variable. -/
  | declare (name : Token)
  | branch (yes : Stmt) (no : Option Stmt)
  | loopTest (cond : Expr) (body : Stmt)
  | loopBody (cond : Expr) (body : Stmt)
  | forStart (cond step : Option Expr) (body : Stmt)
  | forTest (cond step : Option Expr) (body : Stmt)
  | forBody (cond step : Option Expr) (body : Stmt)
  | forStep (cond step : Option Expr) (body : Stmt)
  /-- The value that a function returns. -/
  | result
  /-- A statement of a list; the rest of the list comes next. -/
  | sequence (rest : List Stmt)
  /-- A construct with a frame of its own; the frame before it comes back. -/
  | restore (env : FrameId)
  /-- A statement of the program; the rest of the program comes next. -/
  | program (rest : List Stmt)

/-- What happens next. -/
inductive Control where
  | eval (e : Expr)
  | exec (s : Stmt)
  | call (callee : Value) (args : List Value)
  | give (v : Value)
  | complete (c : Completion)
  | halt (h : Halt)

/-- A state of a run. -/
structure Machine where
  control : Control
  pending : List Pending
  env : FrameId := Store.globals
  depth : Nat := 0
  store : Store
  console : Console
  distances : Distances

namespace Machine

/-- Calls may nest this deep. -/
def maxDepth : Nat := 10000

/-- Nothing waits any more, and there is an outcome. -/
def isFinal (m : Machine) : Bool :=
  match m.pending, m.control with
  | [], .give _ | [], .complete _ | [], .halt _ => true
  | _, _ => false

/-- Goes on with a control. -/
def proceed (m : Machine) (c : Control) : Machine := { m with control := c }

/-- Goes on with a control whose outcome `p` waits for. -/
def push (m : Machine) (p : Pending) (c : Control) : Machine :=
  { m with control := c, pending := p :: m.pending }

/-- Hands on a value. -/
def give (m : Machine) (v : Value) : Machine := m.proceed (.give v)

/-- Ends a statement. -/
def complete (m : Machine) (c : Completion) : Machine := m.proceed (.complete c)

/-- Unwinds. -/
def halt (m : Machine) (h : Halt) : Machine := m.proceed (.halt h)

/-- Halts with a fault of the program. -/
def fail (m : Machine) (e : RuntimeError) : Machine := m.halt (.error e)

end Machine

end Treewalk
