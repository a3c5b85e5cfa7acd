import Treewalk.Proofs.Machine.Lockstep
import Treewalk.Proofs.Tree.Prune

/-!
# Machines without dead code

A machine goes on in the same way once all code in it is pruned: the code of functions and classes, the code
that is evaluated next, and the code that waits.

**What may differ.** While a statement that leaves its list is executed, that list waits with statements that
pruning takes away. It does not go on: leaving is what comes next, or the value that a function returns is
still computed. `Cuts` pairs what waits in the two machines. Its mark tells that the list on top, if there is
one, is about to be left; such a list may hold anything.

**Main results.** What a step does is the same in both machines (`Machine.Prunes.step`), and so is every run
(`Machine.Prunes.steps`). All that is needed of the first machine is that no normal completion reaches the
place where a value is returned, which holds of machines that run checked programs.
-/

namespace Treewalk

/-! ## Objects -/

/-- A function without dead code. -/
def Closure.prune (f : Closure) : Closure := { f with body := Stmt.pruneAll f.body }

/-- A class without dead code. -/
def Class.prune (c : Class) : Class :=
  { c with methods := c.methods.map Closure.prune, fields := Field.pruneAll c.fields }

/-- The same objects with all code pruned. -/
def Store.prune (s : Store) : Store :=
  { s with functions := s.functions.map Closure.prune, classes := s.classes.map Class.prune }

theorem Class.method?_prune (c : Class) (name : Bytes) :
    c.prune.method? name = (c.method? name).map Closure.prune := by
  simp only [Class.method?, Class.prune, ← List.map_reverse, List.find?_map]
  rfl

theorem Class.arity_prune (c : Class) : c.prune.arity = c.arity := by
  simp only [Class.arity, Class.method?_prune, Option.map_map]
  rfl

/-- The class that a declaration makes. -/
def Class.declared (env : FrameId) (name : Token) (fields : List Field) (methods : List Function) : Class where
  name := name.lexeme
  methods := methods.map fun f =>
    { name := f.name.lexeme, params := f.params, body := f.body, env
      isInit := f.name.lexeme == Class.initName }
  fields := fields
  env := env

theorem Class.declared_prune (env : FrameId) (name : Token) (fields : List Field) (methods : List Function) :
    (Class.declared env name fields methods).prune =
      Class.declared env name (Field.pruneAll fields) (Function.pruneAll methods) := by
  have hmethods : ∀ f : Function, f.prune.name = f.name ∧ f.prune.params = f.params ∧
      f.prune.body = Stmt.pruneAll f.body := by
    rintro ⟨t, ps, body⟩
    exact ⟨rfl, rfl, rfl⟩
  simp only [Class.prune, Class.declared, Function.pruneAll_eq_map, List.map_map, Function.comp_def, hmethods,
    Closure.prune]

namespace Store

variable (s : Store)

theorem resembles_prune : s.Resembles s.prune := by
  refine ⟨rfl, fun i => ?_, fun i => ?_⟩
  · simp only [prune, Array.getElem?_map, Option.map_map]
    rfl
  · simp only [prune, Array.getElem?_map, Option.map_map]
    rfl

@[simp] theorem typeName_prune : s.prune.typeName = s.typeName := rfl

@[simp] theorem elements_prune : s.prune.elements = s.elements := rfl

@[simp] theorem display_prune (v : Value) : s.prune.display v = s.display v := s.resembles_prune.display_eq v

@[simp] theorem display?_prune (v : Value) : s.prune.display? v = s.display? v := s.resembles_prune.display?_eq v

@[simp] theorem repr?_prune (v : Value) : s.prune.repr? v = s.repr? v := s.resembles_prune.repr?_eq v

@[simp] theorem equal_prune (v w : Value) : s.prune.equal v w = s.equal v w := s.resembles_prune.equal_eq v w

@[simp] theorem target_prune (f : FrameId) (distance : Int) (name : Bytes) :
    s.prune.target f distance name = s.target f distance name := s.resembles_prune.target_eq f distance name

@[simp] theorem owner?_prune (name : Bytes) (fuel : Nat) (f : FrameId) :
    s.prune.owner? name fuel f = s.owner? name fuel f := s.resembles_prune.owner?_eq name fuel f

@[simp] theorem frame_prune : s.prune.frame = s.frame := rfl

theorem newFunction_prune (f : Closure) :
    s.prune.newFunction f.prune = ((s.newFunction f).1, (s.newFunction f).2.prune) := by
  simp [newFunction, prune, Array.map_push]

theorem newClass_prune (c : Class) :
    s.prune.newClass c.prune = ((s.newClass c).1, (s.newClass c).2.prune) := by
  simp [newClass, prune, Array.map_push]

theorem classOf?_prune (i : InstanceId) : s.prune.classOf? i = (s.classOf? i).map Class.prune := by
  simp only [classOf?, prune, Array.getElem?_map]
  cases s.instances[i]? <;> rfl

theorem property_prune (i : InstanceId) (name : Bytes) :
    s.prune.property i name = ((s.property i name).1, (s.property i name).2.prune) := by
  have hmethod : (s.prune.classOf? i).bind (·.method? name) =
      ((s.classOf? i).bind (·.method? name)).map Closure.prune := by
    rw [classOf?_prune]
    cases s.classOf? i with
    | none => rfl
    | some c => exact c.method?_prune name
  unfold property
  rw [show s.prune.instances = s.instances from rfl, hmethod]
  cases s.instances[i]?.bind (·.field? name) with
  | some v => rfl
  | none =>
    cases (s.classOf? i).bind (·.method? name) with
    | none => rfl
    | some f =>
      have hadded := (s.bind f i).2.newFunction_prune (s.bind f i).1
      exact congrArg (fun r : Value × Store => (some r.1, r.2)) hadded

end Store

/-! ## Operators and natives -/

namespace Operator

variable (s : Store)

theorem arith_prune (op : ArithOp) (t : Token) (v w : Value) :
    arith s.prune op t v w = arith s op t v w := by
  simp only [arith, concat, Store.display?_prune, wrongTypes, Store.typeName_prune]

theorem binary_prune (op : BinaryOp) (t : Token) (v w : Value) :
    binary s.prune op t v w = binary s op t v w := by
  cases op with
  | arith op => exact arith_prune s op t v w
  | compare op => rfl
  | equal => simp only [binary, Store.equal_prune]
  | notEqual => simp only [binary, Store.equal_prune]

theorem compound_prune (op : ArithOp) (t : Token) (v w : Value) :
    compound s.prune op t v w = compound s op t v w := by
  simp only [compound, repetition, Store.display_prune, arith_prune]

theorem element_prune (t : Token) (object index : Value) :
    element s.prune t object index = element s t object index := by
  simp only [element, element.notInteger, Store.elements_prune, Store.display_prune, Store.repr?_prune,
    Store.typeName_prune]

end Operator

/-- A native does the same to pruned objects. -/
theorem NativeOp.run_prune (op : NativeOp) (args : List Value) (s : Store) (c : Console) :
    op.run args ⟨s.prune, c⟩ =
      ((op.run args ⟨s, c⟩).1, ⟨(op.run args ⟨s, c⟩).2.store.prune, (op.run args ⟨s, c⟩).2.console⟩) := by
  cases op with
  | str | error => simp only [run, Store.display?_prune]
  | sqrt =>
    have hroot : squareRoot s.prune = squareRoot s := by
      funext x
      simp only [squareRoot, Store.display_prune]
    simp only [run, hroot]
    rfl
  | input =>
    simp only [run, readInput]
    split <;> rfl
  | push =>
    simp only [run, pushElement]
    split <;> rfl
  | pop =>
    simp only [run, popElement, Store.elements_prune]
    split
    · split <;> rfl
    · rfl
  | copy =>
    simp only [run]
    cases args.headD .none with
    | hollow hollow => cases hollow <;> rfl
    | _ => rfl
  | randomSeed =>
    simp only [run, seedRandom]
    split <;> rfl
  | _ => rfl

/-! ## States -/

/-- The same use of a property, pruned. -/
def PropertyUse.prune : PropertyUse → PropertyUse
  | .write e => .write e.prune
  | use => use

/-- A part that waits, pruned. -/
def Pending.prune : Pending → Pending
  | .left op t e => .left op t e.prune
  | .logical op e => .logical op e.prune
  | .ternary t y n => .ternary t y.prune n.prune
  | .indexed t e use => .indexed t e.prune use
  | .property t use => .property t use.prune
  | .callee t args => .callee t (Expr.pruneAll args)
  | .argument t v done rest => .argument t v done (Expr.pruneAll rest)
  | .element done rest => .element done (Expr.pruneAll rest)
  | .body f env => .body f.prune env
  | .field object name rest cls args env => .field object name (Field.pruneAll rest) cls.prune args env
  | .branch y n => .branch y.prune (Stmt.pruneOpt n)
  | .loopTest c b => .loopTest c.prune b.prune
  | .loopBody c b => .loopBody c.prune b.prune
  | .forStart c u b => .forStart (Expr.pruneOpt c) (Expr.pruneOpt u) b.prune
  | .forTest c u b => .forTest (Expr.pruneOpt c) (Expr.pruneOpt u) b.prune
  | .forBody c u b => .forBody (Expr.pruneOpt c) (Expr.pruneOpt u) b.prune
  | .forStep c u b => .forStep (Expr.pruneOpt c) (Expr.pruneOpt u) b.prune
  | .sequence rest => .sequence (Stmt.pruneAll rest)
  | .program rest => .program (Stmt.pruneAll rest)
  | p => p

/-- What happens next, pruned. -/
def Control.prune : Control → Control
  | .eval e => .eval e.prune
  | .exec s => .exec s.prune
  | c => c

/-- A value that a function returns: what waits behind it is left. -/
def Pending.leaves : Pending → Bool
  | .result => true
  | _ => false

/-- A completion that leaves the list of its statement. -/
def Completion.leaves : Completion → Bool
  | .normal => false
  | _ => true

/-- What happens next leaves the list on top of what waits, if there is one. -/
def Control.leaves : Control → Bool
  | .exec s => s.exits
  | .complete c => c.leaves
  | .halt _ => true
  | _ => false

/-- What waits in a machine, and what waits in the pruned one. The mark tells that a list of statements on
top is about to be left; it may hold anything then. -/
inductive Cuts : Bool → List Pending → List Pending → Prop
  | nothing {leaving} : Cuts leaving [] []
  | part {leaving p ps ps'} (h : Cuts p.leaves ps ps') : Cuts leaving (p :: ps) (p.prune :: ps')
  | list {rest rest' ps ps'} (h : Cuts false ps ps') :
    Cuts true (.sequence rest :: ps) (.sequence rest' :: ps')
  | top {rest rest' ps ps'} (h : Cuts false ps ps') :
    Cuts true (.program rest :: ps) (.program rest' :: ps')

namespace Machine

/-- The machine with its objects pruned, going on with `c`, where other parts wait. -/
def pruned (m : Machine) (c : Control) (ps : List Pending) : Machine :=
  { m with control := c, pending := ps, store := m.store.prune }

/-- The machine with all code pruned. -/
def prune (m : Machine) : Machine := m.pruned m.control.prune (m.pending.map Pending.prune)

/-- The second machine is the first one without dead code. -/
def Prunes (m n : Machine) : Prop :=
  ∃ ps, Cuts m.control.leaves m.pending ps ∧ n = m.pruned m.control.prune ps

end Machine

/-- A class is made and bound to its name. -/
theorem Machine.exec_classDecl (m : Machine) (p : Position) (t : Token) (fs : List Field) (ms : List Function) :
    m.exec (.classDecl p t fs ms) =
      { m with store := (m.store.newClass (Class.declared m.env t fs ms)).2 }.define t
        (m.store.newClass (Class.declared m.env t fs ms)).1 := rfl

namespace Cuts

theorem leave {leaving : Bool} {ps ps' : List Pending} (h : Cuts false ps ps') : Cuts leaving ps ps' := by
  cases h with
  | nothing => exact .nothing
  | part h => exact .part h

variable {m : Machine} {k : Control} {ps : List Pending}

/-! ## Going on -/

theorem complete {c : Completion} (h : Cuts c.leaves m.pending ps) :
    (m.complete c).Prunes ((m.pruned k ps).complete c) := ⟨ps, h, rfl⟩

theorem halt {leaving : Bool} (h : Cuts leaving m.pending ps) (halt : Halt) :
    (m.halt halt).Prunes ((m.pruned k ps).halt halt) := by
  cases leaving with
  | true => exact ⟨ps, h, rfl⟩
  | false => exact ⟨ps, h.leave, rfl⟩

section

variable (h : Cuts false m.pending ps)

include h

theorem proceed (c : Control) : (m.proceed c).Prunes ((m.pruned k ps).proceed c.prune) := ⟨ps, h.leave, rfl⟩

theorem push (p : Pending) (hp : p.leaves = false) (c : Control) :
    (m.push p c).Prunes ((m.pruned k ps).push p.prune c.prune) := by
  refine ⟨p.prune :: ps, .part ?_, rfl⟩
  rw [hp]
  exact h

theorem give (v : Value) : (m.give v).Prunes ((m.pruned k ps).give v) := h.proceed (.give v)

theorem fail (e : RuntimeError) : (m.fail e).Prunes ((m.pruned k ps).fail e) := h.proceed (.halt (.error e))

theorem giveResult (r : Operator.Result) : (m.giveResult r).Prunes ((m.pruned k ps).giveResult r) := by
  cases r with
  | ok v => exact h.give v
  | error halt => exact h.halt halt

/-! ## Names -/

omit h in
theorem read_eq (id : NodeId) (t : Token) : (m.pruned k ps).read id t = m.read id t := by
  simp only [Machine.read, Machine.pruned, Store.getAt, Store.get, Store.target_prune, Store.owner?_prune,
    Store.frame_prune]

omit h in
theorem destination_eq (id : NodeId) (t : Token) : (m.pruned k ps).destination id t = m.destination id t := by
  simp only [Machine.destination, Machine.pruned, Store.assignee, Store.target_prune, Store.owner?_prune,
    Store.frame_prune]
  rfl

theorem assign (id : NodeId) (t : Token) (v result : Value) :
    (m.assign id t v result).Prunes ((m.pruned k ps).assign id t v result) := by
  simp only [Machine.assign, destination_eq]
  split
  · exact ⟨ps, h, rfl⟩
  · exact h.halt _

theorem define (t : Token) (v : Value) : (m.define t v).Prunes ((m.pruned k ps).define t v) := by
  have hbinds : (m.pruned k ps).store.binds (m.pruned k ps).env t.lexeme = m.store.binds m.env t.lexeme := rfl
  simp only [Machine.define, hbinds]
  split
  · exact h.fail _
  · exact ⟨ps, h, rfl⟩

/-- A new object is bound to a name. -/
theorem defineNew {r r' : Value × Store} (hr : r' = (r.1, r.2.prune)) (t : Token) :
    ({ m with store := r.2 }.define t r.1).Prunes ({ m.pruned k ps with store := r'.2 }.define t r'.1) := by
  subst hr
  exact define (m := { m with store := r.2 }) h t r.1

/-- A new object is handed on. -/
theorem giveNew {r r' : Value × Store} (hr : r' = (r.1, r.2.prune)) :
    ({ m with store := r.2 }.give r.1).Prunes ({ m.pruned k ps with store := r'.2 }.give r'.1) := by
  subst hr
  exact give (m := { m with store := r.2 }) h r.1

/-! ## Statements -/

/-- Behind a statement that leaves its list the rest is cut off, and nobody will miss it. -/
theorem sequence (ss : List Stmt) : (m.sequence ss).Prunes ((m.pruned k ps).sequence (Stmt.pruneAll ss)) := by
  cases ss with
  | nil => exact complete h
  | cons s rest =>
    refine ⟨.sequence (if s.exits then [] else Stmt.pruneAll rest) :: ps, ?_, rfl⟩
    show Cuts s.exits (.sequence rest :: m.pending) _
    cases s.exits with
    | true => exact .list h
    | false => exact .part h

theorem forTest (c u : Option Expr) (b : Stmt) :
    (m.forTest c u b).Prunes ((m.pruned k ps).forTest (Expr.pruneOpt c) (Expr.pruneOpt u) b.prune) := by
  cases c with
  | none => exact h.push (.forBody none u b) rfl (.exec b)
  | some c => exact h.push (.forTest (some c) u b) rfl (.eval c)

theorem forStep (c u : Option Expr) (b : Stmt) :
    (m.forStep c u b).Prunes ((m.pruned k ps).forStep (Expr.pruneOpt c) (Expr.pruneOpt u) b.prune) := by
  cases u with
  | none => exact h.forTest c none b
  | some u => exact h.push (.forStep c (some u) b) rfl (.eval u)

omit h in
theorem enterScope (h : Cuts false m.pending ps) : Cuts false m.enterScope.pending (.restore m.env :: ps) :=
  .part h

end

theorem exec (s : Stmt) (h : Cuts s.exits m.pending ps) : (m.exec s).Prunes ((m.pruned k ps).exec s.prune) := by
  cases s with
  | expression p e => exact push h .discard rfl (.eval e)
  | print p e => exact push h (.print p) rfl (.eval e)
  | declare p t v =>
    cases v with
    | none => exact define h t .unset
    | some e => exact push h (.declare t) rfl (.eval e)
  | block p body => exact sequence (enterScope h) body
  | branch p c y n => exact push h (.branch y n) rfl (.eval c)
  | loop p c b => exact push h (.loopTest c b) rfl (.eval c)
  | forLoop p s c u b =>
    cases s with
    | none => exact forTest (enterScope h) c u b
    | some s => exact push (enterScope h) (.forStart c u b) rfl (.exec s)
  | leave | skip => exact complete h
  | result t v =>
    cases v with
    | none => exact complete (c := .result .none) h
    | some e => exact ⟨.result :: ps, .part h, rfl⟩
  | function f =>
    obtain ⟨t, params, body⟩ := f
    exact defineNew h (m.store.newFunction_prune { name := t.lexeme, params, body, env := m.env }) t
  | classDecl p t fs ms =>
    have hadded := m.store.newClass_prune (Class.declared m.env t fs ms)
    rw [Class.declared_prune] at hadded
    rw [Stmt.prune, Machine.exec_classDecl, Machine.exec_classDecl]
    exact defineNew h hadded t

/-! ## Calls -/

section

variable (h : Cuts false m.pending ps)

include h

theorem callClosure (f : Closure) (args : List Value) :
    (m.callClosure f args).Prunes ((m.pruned k ps).callClosure f.prune args) := by
  have hparams : f.prune.params = f.params := rfl
  simp only [Machine.callClosure, hparams]
  cases Machine.bindParams [] f.params args with
  | error e => exact h.fail e
  | ok bindings =>
    let called : Machine := { m with
      store := { m.store with frames := m.store.frames.push { parent := some f.env, bindings } }
      env := m.store.frames.size
      pending := .body f m.env :: m.pending }
    have hcalled : Cuts false called.pending (.body f.prune m.env :: ps) := .part h
    exact hcalled.sequence f.body

theorem setUp (object : InstanceId) (cls : Class) (args : List Value) :
    (m.setUp object cls args).Prunes ((m.pruned k ps).setUp object cls.prune args) := by
  simp only [Machine.setUp, Class.method?_prune]
  cases cls.method? Class.initName with
  | none => exact h.give _
  | some init =>
    let bound : Machine := { m with
      store := (m.store.bind init object).2
      pending := .construct object :: m.pending }
    have hbound : Cuts false bound.pending (.construct object :: ps) := .part h
    exact hbound.callClosure (m.store.bind init object).1 args

theorem initFields (object : InstanceId) (cls : Class) (args : List Value) (fields : List Field) :
    (m.initFields object cls args fields).Prunes
      ((m.pruned k ps).initFields object cls.prune args (Field.pruneAll fields)) := by
  cases fields with
  | nil => exact h.setUp object cls args
  | cons f rest =>
    obtain ⟨t, e⟩ := f
    exact ⟨_, .part (p := .field object t.lexeme rest cls args m.env) h, rfl⟩

theorem runScript (script : Script) : (m.runScript script).Prunes ((m.pruned k ps).runScript script) := by
  induction script with
  | give v => exact h.give v
  | fail e => exact h.fail e
  | failPlain message => exact h.halt (.plain message)
  | look array next ih => exact ih _
  | call callee args rescues next => exact h.push (.callback rescues next) rfl (.call callee args)

theorem callNative (op : NativeOp) (args : List Value) :
    (m.callNative op args).Prunes ((m.pruned k ps).callNative op args) := by
  unfold Machine.callNative
  split
  · exact h.runScript _
  · have hrun := NativeOp.run_prune op args m.store m.console
    refine ⟨ps, h.leave, ?_⟩
    dsimp only [Machine.pruned]
    rw [hrun]
    dsimp only
    cases (op.run args ⟨m.store, m.console⟩).1 <;> rfl

omit h in
theorem signature?_eq (callee : Value) :
    Machine.signature? m.store.prune callee = Machine.signature? m.store callee := by
  cases callee with
  | function f =>
    simp only [Machine.signature?, Store.prune, Array.getElem?_map, Option.map_map]
    rfl
  | classRef c =>
    simp only [Machine.signature?, Store.prune, Array.getElem?_map, Option.map_map, Function.comp_def,
      Class.arity_prune]
    rfl
  | _ => rfl

omit h in
theorem refusal?_eq (callee : Value) (count : Nat) :
    Machine.refusal? m.store.prune callee count = Machine.refusal? m.store callee count := by
  simp only [Machine.refusal?, signature?_eq, Store.typeName_prune]

theorem callAt (t : Token) (callee : Value) (args : List Value) :
    (m.callAt t callee args).Prunes ((m.pruned k ps).callAt t callee args) := by
  simp only [Machine.callAt, Machine.pruned, refusal?_eq, signature?_eq]
  split
  · exact h.fail _
  · exact h.push (.site t _) rfl (.call callee args)

omit h in
theorem enterCall_eq (name : Bytes) (count : Nat) : (m.pruned k ps).enterCall name count =
    (m.enterCall name count).map fun n => n.pruned k (.depart m.depth :: ps) := by
  unfold Machine.enterCall
  have hdepth : (m.pruned k ps).depth = m.depth := rfl
  rw [hdepth]
  split <;> rfl

omit h in
theorem pending_enterCall {n : Machine} {name : Bytes} {count : Nat} (hn : m.enterCall name count = .ok n) :
    n.pending = .depart m.depth :: m.pending := by
  unfold Machine.enterCall at hn
  split at hn
  · cases hn
  · cases hn
    rfl

theorem invoke (callee : Value) (args : List Value) :
    (m.invoke callee args).Prunes ((m.pruned k ps).invoke callee args) := by
  have hstore : (m.pruned k ps).store = m.store.prune := rfl
  simp only [Machine.invoke, hstore, refusal?_eq, signature?_eq, enterCall_eq]
  split
  · exact h.fail _
  · cases hcall : m.enterCall (((Machine.signature? m.store callee).map Prod.fst).getD []) args.length with
    | error e => exact h.fail e
    | ok n =>
      have hn : Cuts false n.pending (.depart m.depth :: ps) := by
        rw [pending_enterCall hcall]
        exact .part h
      simp only [Except.map]
      cases callee with
      | function f =>
        simp only [Machine.pruned, Store.prune, Array.getElem?_map]
        cases n.store.functions[f]? with
        | none => exact hn.give _
        | some f => exact hn.callClosure f args
      | classRef c =>
        simp only [Machine.pruned, Store.prune, Array.getElem?_map]
        cases n.store.classes[c]? with
        | none => exact hn.give _
        | some cls =>
          exact initFields (m := { n with store := (n.store.newInstance c).2 }) hn _ cls args cls.fields
      | native i =>
        simp only [Machine.pruned, Store.prune]
        cases n.store.natives[i]? with
        | none => exact hn.give _
        | some native => exact hn.callNative native.op args
      | _ => exact hn.give _

/-! ## Expressions -/

theorem eval (e : Expr) : (m.eval e).Prunes ((m.pruned k ps).eval e.prune) := by
  cases e with
  | literal _ t => exact h.give _
  | group _ _ e => exact h.proceed (.eval e)
  | unary _ op t e => exact h.push (.unary op t) rfl (.eval e)
  | binary _ op t l r => exact h.push (.left op t r) rfl (.eval l)
  | logical _ op _ l r => exact h.push (.logical op r) rfl (.eval l)
  | ternary _ t c y n => exact h.push (.ternary t y n) rfl (.eval c)
  | ident id t | this id t =>
    simp only [Expr.prune, Machine.eval, read_eq]
    cases m.read id t with
    | ok v => exact h.give v
    | error halt => exact h.halt halt
  | assign id t e => exact h.push (.assign id t) rfl (.eval e)
  | compound id t op u e =>
    simp only [Expr.prune, Machine.eval, read_eq]
    cases m.read id t with
    | ok current => exact h.push (.compound id t op u current) rfl (.eval e)
    | error halt => exact h.halt halt
  | update id t op u before =>
    have hstep : Operator.step (m.pruned k ps).store = Operator.step m.store := rfl
    simp only [Expr.prune, Machine.eval, read_eq, hstep]
    cases m.read id t with
    | error halt => exact h.halt halt
    | ok current =>
      dsimp only
      cases Operator.step m.store op u current with
      | error halt => exact h.halt halt
      | ok next => exact h.assign id t next _
  | updateIndex _ o t i op u before => exact h.push (.indexed t i (.step op u before)) rfl (.eval o)
  | updateGet _ o t op u before => exact h.push (.property t (.step op u before)) rfl (.eval o)
  | call _ c t args => exact h.push (.callee t args) rfl (.eval c)
  | lambda _ _ params body =>
    exact h.giveNew (k := k) (m.store.newFunction_prune { name := text "lambda", params, body, env := m.env })
  | array _ _ es =>
    cases es with
    | nil => exact h.giveNew (r := m.store.newArray #[]) (k := k) rfl
    | cons e es => exact h.push (.element #[] es) rfl (.eval e)
  | index _ o t i => exact h.push (.indexed t i .read) rfl (.eval o)
  | get _ o t => exact h.push (.property t .read) rfl (.eval o)
  | set _ o t e => exact h.push (.property t (.write e)) rfl (.eval o)

theorem useElement (t : Token) (object index : Value) (use : ElementUse) :
    (m.useElement t object index use).Prunes ((m.pruned k ps).useElement t object index use) := by
  have hstore : (m.pruned k ps).store = m.store.prune := rfl
  simp only [Machine.useElement, hstore, Operator.element_prune, Store.elements_prune]
  cases Operator.element m.store t object index with
  | error halt => exact h.halt halt
  | ok found =>
    obtain ⟨a, i⟩ := found
    cases use with
    | read => exact h.give _
    | step op u before =>
      have hstep : Operator.step m.store.prune = Operator.step m.store := rfl
      simp only [hstep]
      cases Operator.step m.store op u (((m.store.elements a)[i]?).getD .none) with
      | error halt => exact h.halt halt
      | ok next => exact ⟨ps, h, rfl⟩

theorem readProperty (t : Token) (v : Value) :
    (m.readProperty t v).Prunes ((m.pruned k ps).readProperty t v) := by
  cases v with
  | object i =>
    have hproperty : (m.pruned k ps).store.property i t.lexeme = _ := m.store.property_prune i t.lexeme
    simp only [Machine.readProperty, hproperty]
    rcases m.store.property i t.lexeme with ⟨_ | v, s⟩
    · exact fail (m := { m with store := s }) h _
    · exact give (m := { m with store := s }) (k := k) h v
  | host i =>
    have hhosts : (m.pruned k ps).store.hosts = m.store.hosts := rfl
    simp only [Machine.readProperty, hhosts]
    split
    · exact h.give _
    · exact h.fail _
  | hollow hollow =>
    cases hollow with
    | object => exact h.halt _
    | _ => exact h.fail _
  | _ => exact h.fail _

theorem stepProperty (t : Token) (op : StepOp) (u : Token) (before : Bool) (v : Value) :
    (m.stepProperty t op u before v).Prunes ((m.pruned k ps).stepProperty t op u before v) := by
  cases v with
  | object i =>
    have hproperty : (m.pruned k ps).store.property i t.lexeme = _ := m.store.property_prune i t.lexeme
    simp only [Machine.stepProperty, hproperty]
    rcases m.store.property i t.lexeme with ⟨_ | current, s⟩
    · exact fail (m := { m with store := s }) h _
    · have hstep : Operator.step s.prune = Operator.step s := rfl
      simp only [hstep]
      cases Operator.step s op u current with
      | error halt => exact Cuts.halt (m := { m with store := s }) h halt
      | ok next => exact ⟨ps, h, rfl⟩
  | _ => exact h.fail _

theorem print (p : Position) (shown : ByteArray) : (m.print p shown).Prunes ((m.pruned k ps).print p shown) := by
  have hconsole : (m.pruned k ps).console = m.console := rfl
  simp only [Machine.print, hconsole]
  split
  · exact ⟨ps, h, rfl⟩
  · exact h.fail _

end

/-! ## Handing on -/

theorem resumeValue (p : Pending) (h : Cuts p.leaves m.pending ps) (v : Value) :
    (m.resumeValue p v).Prunes ((m.pruned k ps).resumeValue p.prune v) := by
  cases p with
  | unary op t => exact giveResult h (Operator.unary m.store op t v)
  | left op t e => exact push h (.right op t v) rfl (.eval e)
  | right op t left =>
    have hbinary : Operator.binary (m.pruned k ps).store op t left v = _ :=
      Operator.binary_prune m.store op t left v
    simp only [Pending.prune, Machine.resumeValue, hbinary]
    exact giveResult h _
  | logical op e =>
    simp only [Pending.prune, Machine.resumeValue]
    split
    · exact give h v
    · exact give h v
    · exact proceed h (.eval e)
  | ternary t y n =>
    simp only [Pending.prune, Machine.resumeValue]
    split
    · split
      · exact proceed h (.eval y)
      · exact proceed h (.eval n)
    · exact fail h _
  | assign id t => exact assign h id t v v
  | compound id t op u current =>
    have hcompound : Operator.compound (m.pruned k ps).store op u current v = _ :=
      Operator.compound_prune m.store op u current v
    simp only [Pending.prune, Machine.resumeValue, hcompound]
    cases Operator.compound m.store op u current v with
    | ok result => exact assign h id t result result
    | error halt => exact Cuts.halt h halt
  | indexed t e use => exact push h (.index t v use) rfl (.eval e)
  | index t object use => exact useElement h t object v use
  | property t use =>
    cases use with
    | read => exact readProperty h t v
    | step op u before => exact stepProperty h t op u before v
    | write e =>
      simp only [Pending.prune, PropertyUse.prune, Machine.resumeValue]
      split
      · exact push h (.write t _) rfl (.eval e)
      · exact fail h _
  | write t i => exact ⟨ps, h, rfl⟩
  | callee t args =>
    cases args with
    | nil => exact callAt h t v []
    | cons e rest => exact push h (.argument t v [] rest) rfl (.eval e)
  | argument t callee done rest =>
    cases rest with
    | nil => exact callAt h t callee _
    | cons e rest => exact push h (.argument t callee (v :: done) rest) rfl (.eval e)
  | element done rest =>
    cases rest with
    | nil => exact giveNew (r := m.store.newArray (done.push v)) (k := k) h rfl
    | cons e rest => exact push h (.element (done.push v) rest) rfl (.eval e)
  | depart depth => exact ⟨ps, h, rfl⟩
  | callback rescues next => exact runScript h _
  | field object name rest cls args env =>
    exact initFields (m := { m with store := m.store.putField object name v, env }) h object cls args rest
  | construct object => exact give h _
  | print p =>
    have hdisplay : (m.pruned k ps).store.display? v = _ := m.store.display?_prune v
    simp only [Pending.prune, Machine.resumeValue, hdisplay]
    cases m.store.display? v with
    | error f => exact Cuts.halt h _
    | ok shown => exact print h p shown
  | declare t => exact define h t v
  | branch y n =>
    simp only [Pending.prune, Machine.resumeValue]
    split
    · exact proceed h (.exec y)
    · cases n with
      | none => exact complete h
      | some s => exact proceed h (.exec s)
  | loopTest c b =>
    simp only [Pending.prune, Machine.resumeValue]
    split
    · exact push h (.loopBody c b) rfl (.exec b)
    · exact complete h
  | forTest c u b =>
    simp only [Pending.prune, Machine.resumeValue]
    split
    · exact push h (.forBody c u b) rfl (.exec b)
    · exact complete h
  | forStep c u b => exact forTest h c u b
  | result => exact complete (c := .result v) h
  | discard => exact complete (c := .normal) h
  | _ => exact give h v

theorem finishBody (h : Cuts false m.pending ps) (f : Closure) (c : Completion) :
    (m.finishBody f c).Prunes ((m.pruned k ps).finishBody f.prune c) := by
  have hreceiver : ∀ env, (m.pruned k ps).store.getAt env 0 Store.receiverName =
      m.store.getAt env 0 Store.receiverName := fun _ => rfl
  cases c with
  | leave | skip => exact h.halt _
  | normal | result =>
    have hinit : f.prune.isInit = f.isInit := rfl
    have henv : f.prune.env = f.env := rfl
    simp only [Machine.finishBody, hinit, henv, hreceiver]
    split
    · split
      · exact h.give _
      · exact h.halt _
    · exact h.give _

/-- Only a completion that leaves may pass the place where a value is returned. -/
theorem resumeCompletion (p : Pending) (h : Cuts p.leaves m.pending ps) (c : Completion)
    (hc : p.leaves = true → c.leaves = true) :
    (m.resumeCompletion p c).Prunes ((m.pruned k ps).resumeCompletion p.prune c) := by
  cases p with
  | sequence rest =>
    cases c with
    | normal => exact sequence h rest
    | leave | skip | result => exact complete h.leave
  | restore env => exact complete (m := { m with env }) (k := k) h.leave
  | body f env => exact finishBody (m := { m with env }) h f c
  | loopBody e b =>
    cases c with
    | normal | skip => exact push h (.loopTest e b) rfl (.eval e)
    | leave => exact complete (c := .normal) h
    | result => exact complete h.leave
  | forStart e u b => exact forTest h e u b
  | forBody e u b =>
    cases c with
    | normal | skip => exact forStep h e u b
    | leave => exact complete (c := .normal) h
    | result => exact complete h.leave
  | program rest =>
    cases c with
    | normal =>
      cases rest with
      | nil => exact complete (c := .normal) h
      | cons s rest =>
        refine ⟨.program (if s.exits then [] else Stmt.pruneAll rest) :: ps, ?_, rfl⟩
        show Cuts s.exits (.program rest :: m.pending) _
        cases s.exits with
        | true => exact .top h
        | false => exact .part h
    | leave | skip | result => exact Cuts.halt h _
  | result =>
    have hleaves := hc rfl
    refine complete ?_
    rw [hleaves]
    exact h
  | _ => exact complete h.leave

theorem unwind (p : Pending) (h : Cuts p.leaves m.pending ps) (halt : Halt) :
    (m.unwind p halt).Prunes ((m.pruned k ps).unwind p.prune halt) := by
  cases p with
  | callback rescues next =>
    cases halt with
    | error | plain =>
      cases rescues with
      | true => exact runScript h _
      | false => exact Cuts.halt h _
    | fault => exact Cuts.halt h _
  | depart depth => exact Cuts.halt (m := { m with depth }) (k := k) h halt
  | restore env | body _ env | field _ _ _ _ _ env => exact Cuts.halt (m := { m with env }) (k := k) h halt
  | _ => exact Cuts.halt h _

/-- What waits on top is of the same kind. -/
theorem head {leaving : Bool} {qs ps : List Pending} {p : Pending} (h : Cuts leaving qs (p :: ps)) :
    ∃ q rest, qs = q :: rest ∧ q.takesValue = p.takesValue ∧
      ((∃ ss, p = .program ss) → ∃ ss, q = .program ss) := by
  cases h with
  | @part _ q rest _ _ =>
    refine ⟨q, rest, rfl, ?_, ?_⟩
    · cases q <;> rfl
    · rintro ⟨ss, hq⟩
      cases q with
      | program => exact ⟨_, rfl⟩
      | _ => cases hq
  | list => exact ⟨_, _, rfl, rfl, fun ⟨_, hp⟩ => by cases hp⟩
  | top => exact ⟨_, _, rfl, rfl, fun _ => ⟨_, rfl⟩⟩

end Cuts

/-! ## Steps and runs -/

namespace Machine.Prunes

variable {m n : Machine}

/-- Without its dead code a machine takes the same steps. -/
theorem step (h : m.Prunes n) (hrouted : m.Routed) : m.step.Prunes n.step := by
  obtain ⟨ps, hcuts, rfl⟩ := h
  obtain ⟨control, pending, env, depth, store, console, distances⟩ := m
  cases control with
  | eval e => exact Cuts.eval (m := ⟨.eval e, pending, env, depth, store, console, distances⟩) hcuts e
  | exec s => exact Cuts.exec (m := ⟨.exec s, pending, env, depth, store, console, distances⟩) s hcuts
  | call callee args =>
    exact Cuts.invoke (m := ⟨.call callee args, pending, env, depth, store, console, distances⟩) hcuts callee args
  | give v =>
    cases hcuts with
    | nothing => exact ⟨[], .nothing, rfl⟩
    | @part _ p rest ps hcuts =>
      exact Cuts.resumeValue (m := ⟨.give v, rest, env, depth, store, console, distances⟩) p hcuts v
  | complete c =>
    let rested (rest : List Pending) : Machine := ⟨.complete c, rest, env, depth, store, console, distances⟩
    generalize hleaves : Control.leaves (.complete c) = leaving at hcuts
    cases hcuts with
    | nothing => exact ⟨[], .nothing, rfl⟩
    | @part _ p rest ps hcuts =>
      refine Cuts.resumeCompletion (m := rested rest) p hcuts c fun hp => ?_
      cases p with
      | result => cases hrouted.complete c _ _ rfl rfl
      | _ => cases hp
    | @list rest _ ps qs hcuts =>
      have hstay : ∀ (m : Machine) ss, m.resumeCompletion (.sequence ss) c = m.complete c := by
        intro m ss
        cases c with
        | normal => cases hleaves
        | leave | skip | result => rfl
      simp only [Machine.step, Machine.pruned, Control.prune, hstay]
      exact Cuts.complete (m := rested ps) (k := .complete c) hcuts.leave
    | @top rest _ ps qs hcuts =>
      have hstay : ∀ (m : Machine) ss, m.resumeCompletion (.program ss) c =
          m.halt (.escaped c (text "the top level")) := by
        intro m ss
        cases c with
        | normal => cases hleaves
        | leave | skip | result => rfl
      simp only [Machine.step, Machine.pruned, Control.prune, hstay]
      exact Cuts.halt (m := rested ps) (k := .complete c) hcuts _
  | halt halt =>
    cases hcuts with
    | nothing => exact ⟨[], .nothing, rfl⟩
    | @part _ p rest ps hcuts =>
      exact Cuts.unwind (m := ⟨.halt halt, rest, env, depth, store, console, distances⟩) p hcuts halt
    | @list rest _ ps qs hcuts | @top rest _ ps qs hcuts =>
      exact Cuts.halt (m := ⟨.halt halt, ps, env, depth, store, console, distances⟩) (k := .halt halt) hcuts halt

/-- Without its dead code a machine goes the same way. -/
theorem steps (h : m.Prunes n) (hrouted : ∀ k, (m.steps k).Routed) (k : Nat) :
    (m.steps k).Prunes (n.steps k) := by
  induction k generalizing m n with
  | zero => exact h
  | succ k ih => exact ih (h.step (hrouted 0)) fun k => hrouted (k + 1)

/-- Pruning does not change what is handed on, nor to what. -/
theorem routed (h : m.Prunes n) (hrouted : m.Routed) : n.Routed := by
  obtain ⟨ps, hcuts, rfl⟩ := h
  have hcompletes : ∀ c, m.control.prune = .complete c → m.control = .complete c := by
    intro c hc
    cases hm : m.control <;> rw [hm] at hc <;> cases hc
    rfl
  have hgives : ∀ v, m.control.prune = .give v → m.control = .give v := by
    intro v hv
    cases hm : m.control <;> rw [hm] at hv <;> cases hv
    rfl
  constructor
  · rintro c hc (hnil | ⟨rest, more, hpending⟩)
    · obtain rfl : ps = [] := hnil
      refine hrouted.top c (hcompletes c hc) (.inl ?_)
      generalize m.pending = qs at hcuts
      generalize m.control.leaves = leaving at hcuts
      cases hcuts
      rfl
    · obtain rfl : ps = .program rest :: more := hpending
      obtain ⟨q, qs, hqs, -, hprogram⟩ := hcuts.head
      obtain ⟨ss, rfl⟩ := hprogram ⟨rest, rfl⟩
      exact hrouted.top c (hcompletes c hc) (.inr ⟨ss, qs, hqs⟩)
  · intro v p rest hv hpending
    obtain rfl : ps = p :: rest := hpending
    obtain ⟨q, qs, hqs, htakes, -⟩ := hcuts.head
    rw [← htakes]
    exact hrouted.give v q qs (hgives v hv) hqs
  · intro c p rest hc hpending
    obtain rfl : ps = p :: rest := hpending
    obtain ⟨q, qs, hqs, htakes, -⟩ := hcuts.head
    rw [← htakes]
    exact hrouted.complete c q qs (hcompletes c hc) hqs

theorem isFinal_eq (h : m.Prunes n) : n.isFinal = m.isFinal := by
  obtain ⟨ps, hcuts, rfl⟩ := h
  obtain ⟨control, pending, env, depth, store, console, distances⟩ := m
  generalize Control.leaves control = leaving at hcuts
  cases hcuts with
  | nothing => cases control <;> rfl
  | part | list | top => rfl

end Machine.Prunes

end Treewalk
