import Treewalk.Machine.Native

/-!
# The machine: steps

`Machine.step` takes a state to the next one; it is total, and a final state stays as it is.
`Machine.run` takes steps up to a final state. Evaluation
goes from left to right. A completion other than `normal` passes every pending part up to the loop or
function that takes it; a halt passes all of them, and each restores what it changed.
-/

namespace Treewalk.Machine

/-! ## Names -/

/-- Reads a variable: at its distance if it is local, else among the globals. -/
def read (m : Machine) (id : NodeId) (name : Token) : Except Halt Value :=
  let found : Except Halt Value :=
    match m.distances.find? id with
    | some d => (m.store.getAt m.env d name.lexeme).mapError .fault
    | none =>
      (m.store.get Store.globals name.lexeme).mapError fun _ =>
        .error (.at name .reference (text "undefined variable '" ++ name.lexeme ++ text "'"))
  match found with
  | .ok .unset =>
    .error (.error (.at name .reference
      (text "variable '" ++ name.lexeme ++ text "' is used before being assigned")))
  | other => other

/-- Why an assignment to a global was refused. -/
def assignError (name : Token) : BindError → Halt
  | .isProtected _ =>
    .error (.at name .runtime (text "can't assign to native '" ++ name.lexeme ++ text "'"))
  | _ => .error (.at name .reference (text "undefined variable '" ++ name.lexeme ++ text "'"))

/-- The frame that an assignment to a variable writes to: at its distance if it is local, else among the
globals. -/
def destination (m : Machine) (id : NodeId) (name : Token) : Except Halt FrameId :=
  match m.distances.find? id with
  | some d => ((m.store.target m.env d name.lexeme).map Prod.fst).mapError .fault
  | none => (m.store.assignee Store.globals name.lexeme).mapError (assignError name)

/-- Writes a variable and goes on with the value `result`. -/
def assign (m : Machine) (id : NodeId) (name : Token) (v result : Value) : Machine :=
  match m.destination id name with
  | .ok f => { m with store := m.store.put f name.lexeme v, control := .give result }
  | .error h => m.halt h

/-- Binds a new name in the current frame and ends the statement. -/
def define (m : Machine) (name : Token) (v : Value) : Machine :=
  if m.store.binds m.env name.lexeme then
    m.fail (.at name .reference (BindError.alreadyDefined name.lexeme).message)
  else
    { m with
      store := m.store.add m.env { name := name.lexeme, value := v }
      control := .complete .normal }

/-- The value of a step expression: the new number before the operand, the old one behind it. -/
def stepResult (before : Bool) (current next : Value) : Value := if before then next else current

/-! ## Statements -/

/-- Runs statements in order. -/
def sequence (m : Machine) : List Stmt → Machine
  | [] => m.complete .normal
  | s :: rest => m.push (.sequence rest) (.exec s)

/-- Enters a new frame inside the current one; the current one comes back afterwards. -/
def enterScope (m : Machine) : Machine :=
  let (env, store) := m.store.newFrame (some m.env)
  { m with store, env, pending := .restore m.env :: m.pending }

/-- Starts a round of a loop with a header. -/
def forTest (m : Machine) (cond step : Option Expr) (body : Stmt) : Machine :=
  match cond with
  | some c => m.push (.forTest cond step body) (.eval c)
  | none => m.push (.forBody cond step body) (.exec body)

/-- Ends a round of a loop with a header. -/
def forStep (m : Machine) (cond step : Option Expr) (body : Stmt) : Machine :=
  match step with
  | some e => m.push (.forStep cond step body) (.eval e)
  | none => m.forTest cond step body

/-- Executes a statement. -/
def exec (m : Machine) : Stmt → Machine
  | .expression _ e => m.push .discard (.eval e)
  | .print pos e => m.push (.print pos) (.eval e)
  | .declare _ name value =>
    match value with
    | some e => m.push (.declare name) (.eval e)
    | none => m.define name .unset
  | .block _ body => m.enterScope.sequence body
  | .branch _ cond yes no => m.push (.branch yes no) (.eval cond)
  | .loop _ cond body => m.push (.loopTest cond body) (.eval cond)
  | .forLoop _ start cond step body =>
    match start with
    | some s => m.enterScope.push (.forStart cond step body) (.exec s)
    | none => m.enterScope.forTest cond step body
  | .leave _ => m.complete .leave
  | .skip _ => m.complete .skip
  | .result _ value =>
    match value with
    | some e => m.push .result (.eval e)
    | none => m.complete (.result .none)
  | .function f =>
    let (v, store) := m.store.newFunction
      { name := f.name.lexeme, params := f.params, body := f.body, env := m.env }
    { m with store }.define f.name v
  | .classDecl _ name fields methods =>
    let closures := methods.map fun f =>
      ({ name := f.name.lexeme, params := f.params, body := f.body, env := m.env
         isInit := f.name.lexeme == Class.initName } : Closure)
    let (v, store) := m.store.newClass
      { name := name.lexeme, methods := closures, fields, env := m.env }
    { m with store }.define name v

/-! ## Calls -/

/-- The name and the arity of a value that can be called. -/
def signature? (s : Store) : Value → Option (Bytes × Nat)
  | .function f => (s.functions[f]?).map fun f => (f.name, f.params.length)
  | .classRef c => (s.classes[c]?).map fun c => (c.name, c.arity)
  | .native n => (s.natives[n]?).map fun n => (n.name, n.arity)
  | _ => none

/-- Why a value cannot be called with a number of arguments, if it cannot. -/
def refusal? (s : Store) (callee : Value) (count : Nat) : Option Bytes :=
  match signature? s callee with
  | none => some (text "can only call functions and classes, got " ++ s.typeName callee)
  | some (name, arity) =>
    if arity = count then none
    else some (name ++ text " expected " ++ Bytes.ofNat arity ++ text " arguments but got "
      ++ Bytes.ofNat count)

/-- Parameters bound to arguments in order; a name that comes twice is refused. -/
def bindParams (done : List Binding) : List Token → List Value → Except RuntimeError (List Binding)
  | p :: ps, v :: vs =>
    if done.any (·.name == p.lexeme) then
      .error (.at p .runtime (BindError.alreadyDefined p.lexeme).message)
    else bindParams (done ++ [{ name := p.lexeme, value := v }]) ps vs
  | _, _ => .ok done

/-- Runs the body of a function in a new frame inside the function's own. -/
def callClosure (m : Machine) (f : Closure) (args : List Value) : Machine :=
  match bindParams [] f.params args with
  | .error e => m.fail e
  | .ok bindings =>
    let env := m.store.frames.size
    { m with
      store := { m.store with frames := m.store.frames.push { parent := some f.env, bindings } }
      env
      pending := .body f m.env :: m.pending }.sequence f.body

/-- Calls the method that sets up an instance, if its class has one. -/
def setUp (m : Machine) (object : InstanceId) (cls : Class) (args : List Value) : Machine :=
  match cls.method? Class.initName with
  | none => m.give (.object object)
  | some init =>
    let (bound, store) := m.store.bind init object
    { m with store, pending := .construct object :: m.pending }.callClosure bound args

/-- Computes the fields of a new instance in order and then sets it up. -/
def initFields (m : Machine) (object : InstanceId) (cls : Class) (args : List Value) :
    List Field → Machine
  | [] => m.setUp object cls args
  | f :: rest =>
    { m with
      env := cls.env
      pending := .field object f.name.lexeme rest cls args m.env :: m.pending
      control := .eval f.value }

/-- The arguments that a native that calls back was given for its callee. -/
def spread (s : Store) : Value → List Value
  | .array a => (s.elements a).toList
  | _ => []

/-- Counts a call, logs it, and makes sure that the depth comes back; too deep a call is refused. -/
def enterCall (m : Machine) (name : Bytes) (count : Nat) : Except RuntimeError Machine :=
  if maxDepth ≤ m.depth then .error (.unlocated .runtime (text "stack overflow"))
  else
    .ok
      { m with
        depth := m.depth + 1
        pending := .depart m.depth :: m.pending
        console := m.console.log "call"
          [("fn", name), ("args", Bytes.ofNat count), ("depth", Bytes.ofNat (m.depth + 1))] }

/-- Goes on with a host function up to its end or its next call. -/
def runScript (m : Machine) : Script → Machine
  | .give v => m.give v
  | .fail e => m.fail e
  | .failPlain message => m.halt (.plain message)
  | .look array next => m.runScript (next (spread m.store array))
  | .call callee args rescues next => m.push (.callback rescues next) (.call callee args)

/-- Runs a native function. -/
def callNative (m : Machine) (op : NativeOp) (args : List Value) : Machine :=
  match op with
  | .script run => m.runScript (run args)
  | op =>
    let (result, w) := op.run args ⟨m.store, m.console⟩
    let control := match result with
      | .ok v => Control.give v
      | .error h => .halt h
    { m with store := w.store, console := w.console, control }

/-- Calls a value with arguments; only here is a call counted. -/
def invoke (m : Machine) (callee : Value) (args : List Value) : Machine :=
  match refusal? m.store callee args.length with
  | some message => m.fail (.unlocated .runtime message)
  | none =>
    let name := ((signature? m.store callee).map Prod.fst).getD []
    match m.enterCall name args.length with
    | .error e => m.fail e
    | .ok m =>
      match callee with
      | .function f =>
        match m.store.functions[f]? with
        | some f => m.callClosure f args
        | none => m.give .none
      | .classRef c =>
        match m.store.classes[c]? with
        | some cls =>
          let (object, store) := m.store.newInstance c
          { m with store }.initFields object cls args cls.fields
        | none => m.give .none
      | .native n =>
        match m.store.natives[n]? with
        | some native => m.callNative native.op args
        | none => m.give .none
      | _ => m.give .none

/-- Calls a value in the program. -/
def callAt (m : Machine) (paren : Token) (callee : Value) (args : List Value) : Machine :=
  match refusal? m.store callee args.length with
  | some message => m.fail (.at paren .runtime message)
  | none =>
    let name := ((signature? m.store callee).map Prod.fst).getD []
    m.push (.site paren name) (.call callee args)

/-! ## Expressions -/

/-- Evaluates an expression. -/
def eval (m : Machine) : Expr → Machine
  | .literal _ token => m.give (.ofLiteral token.literal)
  | .group _ _ inner => m.proceed (.eval inner)
  | .unary _ op token operand => m.push (.unary op token) (.eval operand)
  | .binary _ op token left right => m.push (.left op token right) (.eval left)
  | .logical _ op _ left right => m.push (.logical op right) (.eval left)
  | .ternary _ question cond yes no => m.push (.ternary question yes no) (.eval cond)
  | .ident id name =>
    match m.read id name with
    | .ok v => m.give v
    | .error h => m.halt h
  | .assign id name value => m.push (.assign id name) (.eval value)
  | .compound id name op token value =>
    match m.read id name with
    | .ok current => m.push (.compound id name op token current) (.eval value)
    | .error h => m.halt h
  | .update id name op token before =>
    match m.read id name with
    | .error h => m.halt h
    | .ok current =>
      match Operator.step m.store op token current with
      | .error h => m.halt h
      | .ok next => m.assign id name next (stepResult before current next)
  | .updateIndex _ object bracket index op token before =>
    m.push (.indexed bracket index (.step op token before)) (.eval object)
  | .updateGet _ object name op token before =>
    m.push (.property name (.step op token before)) (.eval object)
  | .call _ callee paren args => m.push (.callee paren args) (.eval callee)
  | .lambda _ _ params body =>
    let (v, store) := m.store.newFunction
      { name := text "lambda", params, body, env := m.env }
    { m with store, control := .give v }
  | .array _ _ elements =>
    match elements with
    | e :: rest => m.push (.element #[] rest) (.eval e)
    | [] =>
      let (v, store) := m.store.newArray #[]
      { m with store, control := .give v }
  | .index _ object bracket index => m.push (.indexed bracket index .read) (.eval object)
  | .get _ object name => m.push (.property name .read) (.eval object)
  | .set _ object name value => m.push (.property name (.write value)) (.eval object)
  | .this id keyword =>
    match m.read id keyword with
    | .ok v => m.give v
    | .error h => m.halt h

/-- Goes on with what an operator gives. -/
def giveResult (m : Machine) : Operator.Result → Machine
  | .ok v => m.give v
  | .error h => m.halt h

/-- Reads or steps an array element. -/
def useElement (m : Machine) (bracket : Token) (object index : Value) (use : ElementUse) : Machine :=
  match Operator.element m.store bracket object index with
  | .error h => m.halt h
  | .ok (a, i) =>
    let current := ((m.store.elements a)[i]?).getD .none
    match use with
    | .read => m.give current
    | .step op token before =>
      match Operator.step m.store op token current with
      | .error h => m.halt h
      | .ok next =>
        { m with
          store := m.store.modifyArray a (·.setIfInBounds i next)
          control := .give (stepResult before current next) }

/-- The fault of a property that is not there. -/
def noProperty (name : Token) : RuntimeError :=
  .at name .runtime (text "undefined property '" ++ name.lexeme ++ text "'")

/-- The fault of writing to a value without fields. -/
def noFields (s : Store) (name : Token) (v : Value) : RuntimeError :=
  .at name .runtime (text "only instances have fields, got " ++ s.typeName v)

/-- Reads a property of a value. -/
def readProperty (m : Machine) (name : Token) : Value → Machine
  | .object i =>
    match m.store.property i name.lexeme with
    | (some v, store) => { m with store, control := .give v }
    | (none, store) => { m with store }.fail (noProperty name)
  | .host h =>
    match (m.store.hosts[h]?).bind fun o => o.properties.lookup name.lexeme with
    | some v => m.give v
    | none => m.fail (noProperty name)
  | .hollow .host => m.fail (noProperty name)
  | .hollow .object => m.halt (.fault .absent)
  | v =>
    m.fail (.at name .runtime (text "only instances have properties, got " ++ m.store.typeName v))

/-- Steps a property of an instance. -/
def stepProperty (m : Machine) (name : Token) (op : StepOp) (token : Token) (before : Bool) :
    Value → Machine
  | .object i =>
    match m.store.property i name.lexeme with
    | (none, store) => { m with store }.fail (noProperty name)
    | (some current, store) =>
      match Operator.step store op token current with
      | .error h => { m with store }.halt h
      | .ok next =>
        { m with
          store := store.putField i name.lexeme next
          control := .give (stepResult before current next) }
  | v => m.fail (noFields m.store name v)

/-! ## Handing on -/

/-- Writes a line to the program's output, in one write. -/
def print (m : Machine) (pos : Position) (shown : ByteArray) : Machine :=
  match m.console.out.write? (shown ++ (text "\n").pack) with
  | some out => { m with console := { m.console with out }, control := .complete .normal }
  | none => m.fail { kind := .system, site := some ⟨text "print", pos⟩, message := Sink.full }

/-- Hands a value to the pending part that was taken off the list. -/
def resumeValue (m : Machine) (p : Pending) (v : Value) : Machine :=
  match p with
  | .unary op token => m.giveResult (Operator.unary m.store op token v)
  | .left op token right => m.push (.right op token v) (.eval right)
  | .right op token left => m.giveResult (Operator.binary m.store op token left v)
  | .logical op right =>
    match op, v.isTruthy with
    | .or, true | .and, false => m.give v
    | _, _ => m.proceed (.eval right)
  | .ternary question yes no =>
    match v with
    | .bool b => m.proceed (.eval (if b then yes else no))
    | v =>
      m.fail (.at question .type
        (text "condition of '?:' must be a bool, got " ++ m.store.typeName v))
  | .assign id name => m.assign id name v v
  | .compound id name op token current =>
    match Operator.compound m.store op token current v with
    | .ok result => m.assign id name result result
    | .error h => m.halt h
  | .indexed bracket index use => m.push (.index bracket v use) (.eval index)
  | .index bracket object use => m.useElement bracket object v use
  | .property name use =>
    match use with
    | .read => m.readProperty name v
    | .step op token before => m.stepProperty name op token before v
    | .write value =>
      match v with
      | .object i => m.push (.write name i) (.eval value)
      | v => m.fail (noFields m.store name v)
  | .write name i =>
    { m with store := m.store.putField i name.lexeme v, control := .give v }
  | .callee paren args =>
    match args with
    | [] => m.callAt paren v []
    | a :: rest => m.push (.argument paren v [] rest) (.eval a)
  | .argument paren callee done rest =>
    match rest with
    | [] => m.callAt paren callee (v :: done).reverse
    | a :: rest => m.push (.argument paren callee (v :: done) rest) (.eval a)
  | .element done rest =>
    match rest with
    | e :: rest => m.push (.element (done.push v) rest) (.eval e)
    | [] =>
      let (a, store) := m.store.newArray (done.push v)
      { m with store, control := .give a }
  | .depart depth => { m with depth, control := .give v }
  | .callback _ next => m.runScript (next (some v))
  | .field object name rest cls args env =>
    { m with store := m.store.putField object name v, env }.initFields object cls args rest
  | .construct object => m.give (.object object)
  | .print pos =>
    match m.store.display? v with
    | .error f => m.halt (.fault f)
    | .ok shown => m.print pos shown
  | .declare name => m.define name v
  | .branch yes no =>
    if v.isTruthy then m.proceed (.exec yes)
    else match no with
      | some s => m.proceed (.exec s)
      | none => m.complete .normal
  | .loopTest cond body =>
    if v.isTruthy then m.push (.loopBody cond body) (.exec body) else m.complete .normal
  | .forTest cond step body =>
    if v.isTruthy then m.push (.forBody cond step body) (.exec body) else m.complete .normal
  | .forStep cond step body => m.forTest cond step body
  | .result => m.complete (.result v)
  | .discard => m.complete .normal
  -- The other parts wait for completions; a value only passes them.
  | .site _ _ | .body _ _ | .loopBody _ _ | .forStart _ _ _ | .forBody _ _ _ | .sequence _
  | .restore _ | .program _ => m.give v

/-- The value of a function whose body ended; `m` is back in the caller's frame. -/
def finishBody (m : Machine) (f : Closure) (c : Completion) : Machine :=
  match c with
  | .leave | .skip => m.halt (.escaped c (text "function " ++ f.name))
  | .normal | .result _ =>
    if f.isInit then
      match m.store.getAt f.env 0 Store.receiverName with
      | .ok v => m.give v
      | .error e => m.halt (.fault e)
    else match c with
      | .result v => m.give v
      | _ => m.give .none

/-- Hands a completion to the pending part that was taken off the list. -/
def resumeCompletion (m : Machine) (p : Pending) (c : Completion) : Machine :=
  match p with
  | .sequence rest =>
    match c with
    | .normal => m.sequence rest
    | c => m.complete c
  | .restore env => { m with env, control := .complete c }
  | .body f env => { m with env }.finishBody f c
  | .loopBody cond body =>
    match c with
    | .normal | .skip => m.push (.loopTest cond body) (.eval cond)
    | .leave => m.complete .normal
    | .result v => m.complete (.result v)
  | .forStart cond step body => m.forTest cond step body
  | .forBody cond step body =>
    match c with
    | .normal | .skip => m.forStep cond step body
    | .leave => m.complete .normal
    | .result v => m.complete (.result v)
  | .program rest =>
    match c, rest with
    | .normal, [] => m.complete .normal
    | .normal, s :: rest => m.push (.program rest) (.exec s)
    | c, _ => m.halt (.escaped c (text "the top level"))
  -- The other parts wait for values; a completion only passes them.
  | _ => m.complete c

/-- Lets a halt pass the pending part that was taken off the list. -/
def unwind (m : Machine) (p : Pending) (h : Halt) : Machine :=
  match p with
  | .site paren callee => m.halt (h.atCall paren callee)
  | .depart depth => { m with depth, control := .halt h }
  | .callback rescues next =>
    match h, rescues with
    | .error _, true | .plain _, true => m.runScript (next none)
    | h, _ => m.halt h
  | .restore env | .body _ env | .field _ _ _ _ _ env => { m with env, control := .halt h }
  | _ => m.halt h

/-! ## Steps and runs -/

/-- The next state. -/
def step (m : Machine) : Machine :=
  match m.control with
  | .eval e => m.eval e
  | .exec s => m.exec s
  | .call callee args => m.invoke callee args
  | .give v =>
    match m.pending with
    | [] => m
    | p :: rest => { m with pending := rest }.resumeValue p v
  | .complete c =>
    match m.pending with
    | [] => m
    | p :: rest => { m with pending := rest }.resumeCompletion p c
  | .halt h =>
    match m.pending with
    | [] => m
    | p :: rest => { m with pending := rest }.unwind p h

/-- Steps until a final state; a run that reaches none has no outcome. -/
def run (m : Machine) : Option Machine := if m.isFinal then some m else m.step |>.run
partial_fixpoint

end Treewalk.Machine
