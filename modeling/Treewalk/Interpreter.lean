import Treewalk.Machine.Step
import Treewalk.Tree.Parse

/-!
# The interpreter

An interpreter keeps what outlives a run: the store, the console, the distances of local names and the
next free identity. Sources are compiled against it and run on it one after the other; a source that is
refused changes nothing that a later one could see.

`Interpreter.standard` is an interpreter with the natives and the library written in the language
itself.
-/

namespace Treewalk

/-- What outlives a run. -/
structure Interpreter where
  store : Store := {}
  console : Console := {}
  distances : Distances := {}
  nextId : NodeId := 0

/-- How a run ended. -/
inductive Outcome (α : Type) where
  | done (a : α)
  | failed (f : Failure)
  /-- A promise of the check was broken; the text says which. -/
  | broken (f : Fault)
  /-- The run never ends. -/
  | unfinished

/-- What compiling a source gives. -/
structure Compiled where
  /-- The statements, or why there are none. -/
  stmts : Except Failure (List Stmt)
  warnings : List Diagnostic

namespace Interpreter

/-- The failure that a halt is for the host. -/
def failureOf : Halt → Except Fault Failure
  | .error e => .ok (.runtime e)
  | .plain message => .ok (.plain message)
  | .fault f => .error f

/-- The outcome of a halted run. -/
def haltOutcome {α : Type} (h : Halt) : Outcome α :=
  match failureOf h with
  | .ok f => .failed f
  | .error f => .broken f

/-- The first state of a run. -/
def machine (i : Interpreter) (control : Control) (pending : List Pending) : Machine :=
  { control, pending, store := i.store, console := i.console, distances := i.distances }

/-- The interpreter after a run. -/
def after (i : Interpreter) (m : Machine) : Interpreter :=
  { i with store := m.store, console := m.console }

/-- Runs statements in order up to the first failure. -/
def execute (i : Interpreter) (stmts : List Stmt) : Outcome Unit × Interpreter :=
  let start := i.machine (.complete .normal) [.program stmts]
  match start.run with
  | none => (.unfinished, i)
  | some m =>
    match m.control with
    | .halt h => (haltOutcome h, i.after m)
    | _ => (.done (), i.after m)

/-- Calls a value from the host. -/
def call (i : Interpreter) (callee : Value) (args : List Value) : Outcome Value × Interpreter :=
  let start := i.machine (.call callee args) []
  match start.run with
  | none => (.unfinished, i)
  | some m =>
    match m.control with
    | .give v => (.done v, i.after m)
    | .halt h => (haltOutcome h, i.after m)
    | _ => (.done .none, i.after m)

/-- Reads a source and keeps the distances of its local names. Faults of the text end there; faults of
the check are reported together with its warnings. -/
def compile (i : Interpreter) (source : Bytes) : Compiled × Interpreter :=
  let parsed := Parsed.ofSource i.nextId source
  let i := { i with nextId := parsed.nextId }
  match Failure.ofFaults? parsed.faults with
  | some f => (⟨.error f, []⟩, i)
  | none =>
    let r := Resolution.ofProgram parsed.stmts
    let i := { i with distances := i.distances.insertAll r.uses }
    match r.faults with
    | [] => (⟨.ok parsed.stmts, r.warnings⟩, i)
    | faults => (⟨.error (.faults faults), r.warnings⟩, i)

/-- Compiles and runs a source. -/
def evaluate (i : Interpreter) (source : Bytes) :
    List Diagnostic × Outcome Unit × Interpreter :=
  let (compiled, i) := i.compile source
  match compiled.stmts with
  | .error f => (compiled.warnings, .failed f, i)
  | .ok stmts =>
    let (outcome, i) := i.execute stmts
    (compiled.warnings, outcome, i)

/-- Runs a source whatever the check says of it. -/
def evaluateUnchecked (i : Interpreter) (source : Bytes) :
    List Diagnostic × Outcome Unit × Interpreter :=
  let parsed := Parsed.ofSource i.nextId source
  let i := { i with nextId := parsed.nextId }
  match Failure.ofFaults? parsed.faults with
  | some f => ([], .failed f, i)
  | none =>
    let r := Resolution.ofProgram parsed.stmts
    let (outcome, i) :=
      { i with distances := i.distances.insertAll r.uses }.execute parsed.stmts
    (r.warnings, outcome, i)

/-- Runs a source without the check: every name is taken for a global one. -/
def evaluateUnresolved (i : Interpreter) (source : Bytes) :
    List Diagnostic × Outcome Unit × Interpreter :=
  let parsed := Parsed.ofSource i.nextId source
  let i := { i with nextId := parsed.nextId }
  match Failure.ofFaults? parsed.faults with
  | some f => ([], .failed f, i)
  | none =>
    let (outcome, i) := i.execute parsed.stmts
    ([], outcome, i)

/-! ## Global names -/

/-- Binds a value of the host to a new global name; a name already bound keeps its value. -/
def register (i : Interpreter) (name : Bytes) (v : Value) (isProtected : Bool) : Interpreter :=
  match i.store.register Store.globals name v isProtected with
  | .ok store => { i with store }
  | .error _ => i

/-- Binds a native function to a new global name. -/
def registerNative (i : Interpreter) (name : String) (arity : Nat) (op : NativeOp)
    (isProtected : Bool) : Interpreter :=
  let (v, store) := i.store.newNative { name := text name, arity, op }
  { i with store }.register (text name) v isProtected

/-- Binds the command line arguments to the global `argv`. -/
def setArguments (i : Interpreter) (args : List Bytes) : Interpreter :=
  let (v, store) := i.store.newArray (args.map Value.ofBytes).toArray
  { i with store }.register (text "argv") v false

/-- The global names and their values in the order of definition. -/
def globals (i : Interpreter) : List (Bytes × Value) :=
  (i.store.frame Store.globals).bindings.map fun b => (b.name, b.value)

/-! ## The standard interpreter -/

/-- The natives by their global names, with the number of arguments they take. -/
def natives : List (String × Nat × NativeOp) :=
  [("clock", 0, .clock), ("input", 0, .input), ("len", 1, .len), ("str", 1, .str), ("num", 1, .num),
    ("type", 1, .type), ("push", 2, .push), ("pop", 1, .pop), ("copy", 1, .copy),
    ("error", 1, .error), ("random", 0, .random), ("randomSeed", 1, .randomSeed)]

/-- The functions of the object `math`. -/
def mathFunctions : List (String × NativeOp) :=
  [("sqrt", .sqrt), ("floor", .floor), ("abs", .abs)]

/-- The number of a circle. -/
def pi : Float := 3.141592653589793

/-- Binds the object `math`. -/
def registerMath (i : Interpreter) : Interpreter :=
  let add (acc : List (Bytes × Value) × Store) (f : String × NativeOp) :=
    let (v, store) := acc.2.newNative { name := text f.1, arity := 1, op := f.2 }
    (acc.1 ++ [(text f.1, v)], store)
  let (functions, store) := mathFunctions.foldl add ([], i.store)
  let (math, store) := store.newHost
    { typeName := text "math", properties := (text "pi", .number pi) :: functions }
  { i with store }.register (text "math") math true

/-- The library functions that are written in the language itself. -/
def prelude : List String :=
  ["
fun map(arr, fn) \x7b
	let out = [];
	for (let i = 0; i < len(arr); i++) push(out, fn(arr[i]));
	return out;
\x7d
",
    "
fun filter(arr, pred) \x7b
	let out = [];
	for (let i = 0; i < len(arr); i++) \x7b
		if (pred(arr[i])) push(out, arr[i]);
	\x7d
	return out;
\x7d
",
    "
fun reduce(arr, fn, init) \x7b
	let acc = init;
	for (let i = 0; i < len(arr); i++) acc = fn(acc, arr[i]);
	return acc;
\x7d
"]

/-- An interpreter with a frame for globals and nothing in it. -/
def bare : Interpreter := { store := (({} : Store).newFrame none).2 }

/-- An interpreter with the natives and the library. -/
def standard : Interpreter :=
  let i := natives.foldl (fun i n => i.registerNative n.1 n.2.1 n.2.2 true) bare
  prelude.foldl (fun i source => (i.evaluate (text source)).2.2) i.registerMath

end Interpreter

end Treewalk
