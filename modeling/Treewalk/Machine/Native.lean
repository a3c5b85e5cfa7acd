import Treewalk.Machine.Operator
import Treewalk.Machine.State

/-!
# Native functions

What the functions of the host do. A native sees the store and the console and gives a value or halts;
its faults have no site, since only the call knows it. Natives that call back into the program are left
to the machine.
-/

namespace Treewalk

/-- The store and the console that a native works on. -/
structure NativeOp.World where
  store : Store
  console : Console

namespace NativeOp

/-- What a native comes to. -/
abbrev Result := Except Halt Value

/-- A fault about the type of an argument. -/
def wrongArgument (s : Store) (name wanted : String) (v : Value) : Result :=
  .error (.error (.unlocated .type
    (text name ++ text " expects " ++ text wanted ++ text ", got " ++ s.typeName v)))

/-- Reads a line of input; at its end there is none. -/
def readInput (w : World) : Result × World :=
  let (line, rest) := w.console.input.readLine
  let w := { w with console := { w.console with input := rest } }
  match line with
  | .line s => (.ok (.ofBytes s), w)
  | .done => (.ok .none, w)
  | .failed => (.error (.error (.unlocated .system (text "input: " ++ Input.broken))), w)

/-- A result that only a broken promise of the host keeps back. -/
def promised {α : Type} (r : Except Fault α) (f : α → Result) : Result :=
  match r with
  | .ok a => f a
  | .error e => .error (.fault e)

/-- The length of an array in elements, of a string in characters. -/
def length (s : Store) : Value → Result
  | .hollow .array => .error (.fault .absent)
  | .array a => .ok (.ofNat (s.elements a).size)
  | .string t => .ok (.ofNat (runeCount t))
  | v => wrongArgument s "len" "an array or string" v

/-- The number that a value stands for. -/
def toNumber (s : Store) : Value → Result
  | .number x => .ok (.number x)
  | .bool b => .ok (.number (if b then 1 else 0))
  | .string t =>
    match Numeral.read? (unpack t).trim with
    | some x => .ok (.number x)
    | none =>
      .error (.error (.unlocated .runtime
        (text "num: cannot convert " ++ Quoted.string (unpack t) ++ text " to a number")))
  | v => wrongArgument s "num" "a number, bool or string" v

/-- Adds an element to an array and gives the new length. -/
def pushElement (w : World) (target v : Value) : Result × World :=
  match target with
  | .array a =>
    let n := (w.store.elements a).size + 1
    (.ok (.ofNat n), { w with store := w.store.modifyArray a (·.push v) })
  | target => (wrongArgument w.store "push" "an array" target, w)

/-- Takes the last element off an array. -/
def popElement (w : World) (target : Value) : Result × World :=
  match target with
  | .array a =>
    match (w.store.elements a).back? with
    | some v => (.ok v, { w with store := w.store.modifyArray a (·.pop) })
    | none => (.error (.error (.unlocated .runtime (text "pop from empty array"))), w)
  | target => (wrongArgument w.store "pop" "an array" target, w)

/-- The time of the clock. -/
def readClock (w : World) : Result × World :=
  let (now, later) := w.console.clock.read
  (.ok (.number now), { w with console := { w.console with clock := later } })

/-- A number from the random source. -/
def drawRandom (w : World) : Result × World :=
  let (x, source) := w.console.random.next
  (.ok (.number x), { w with console := { w.console with random := source } })

/-- Starts the random source over. -/
def seedRandom (w : World) (v : Value) : Result × World :=
  match v, v.isIntegral with
  | .number x, true => (.ok .none, { w with console := { w.console with random := .ofSeed x } })
  | v, _ => (wrongArgument w.store "randomSeed" "an integer" v, w)

/-- A function of one number. -/
def ofNumber (s : Store) (name : String) (f : Float → Result) : Value → Result
  | .number x => f x
  | v => wrongArgument s name "a number" v

/-- The square root of a number that is not negative. -/
def squareRoot (s : Store) (x : Float) : Result :=
  if x < 0 then
    .error (.error (.unlocated .runtime
      (text "sqrt of negative number " ++ s.display (.number x))))
  else .ok (.number x.sqrt)

/-- Runs a native that does not call back. Missing arguments read as `none`; calls check their
number. -/
def run (op : NativeOp) (args : List Value) (w : World) : Result × World :=
  let a := args.headD .none
  let b := (args.drop 1).headD .none
  match op with
  | .clock => readClock w
  | .input => readInput w
  | .len => (length w.store a, w)
  | .str => (promised (w.store.display? a) fun t => .ok (.string t), w)
  | .num => (toNumber w.store a, w)
  | .type => (.ok (.ofBytes (w.store.typeName a)), w)
  | .push => pushElement w a b
  | .pop => popElement w a
  | .copy =>
    match w.store.clone? a with
    | .ok (v, store) => (.ok v, { w with store })
    | .error f => (.error (.fault f), w)
  | .error =>
    (promised (w.store.display? a) fun t => .error (.error (.unlocated .runtime (unpack t))), w)
  | .random => drawRandom w
  | .randomSeed => seedRandom w a
  | .sqrt => (ofNumber w.store "sqrt" (squareRoot w.store) a, w)
  | .floor => (ofNumber w.store "floor" (fun x => .ok (.number x.floor)) a, w)
  | .abs => (ofNumber w.store "abs" (fun x => .ok (.number x.abs)) a, w)
  | .fails e => (.error (.error e), w)
  | .failsPlain message => (.error (.plain message), w)
  | .missing => (.error (.fault .absent), w)
  | .script _ => (.ok .none, w)

end NativeOp

end Treewalk
