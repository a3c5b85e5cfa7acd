import Treewalk.Tree

/-!
# Scopes: checking a program before it runs

One pass over the statements finds, for every use of a local name, how many scopes lie between the use
and the declaration. Names declared outside every scope are global and are looked up when the program
runs. The pass also refuses misplaced `return`, `break`, `continue` and `this` and names declared twice
in a scope, and warns of unused locals and of statements that cannot be reached.

A fault ends the statement of the innermost statement list that holds it; the statements after it are
still checked.
-/

namespace Treewalk

/-- How a local name came to be declared. -/
inductive Origin where
  | local
  | parameter
  | receiver
deriving DecidableEq, Repr

/-- A name declared in a scope. -/
structure Entry where
  name : Token
  origin : Origin
  /-- The declaration is complete; before that its own initial value does not see the name. -/
  ready : Bool := false
  used : Bool := false

/-- The names of one scope in the order of declaration. -/
abbrev Scope := List Entry

/-- The kinds of expressions that use a name. -/
inductive Use where
  | read
  | assign
  | compound
  | update
  | receiver
deriving DecidableEq, Repr

/-- A use of a local name and its distance to the declaration, in scopes. -/
structure LocalUse where
  id : NodeId
  use : Use
  name : Bytes
  pos : Position
  distance : Nat
deriving DecidableEq, Repr

/-- What checking a program gives, each in the order found. -/
structure Resolution where
  uses : List LocalUse
  faults : List Diagnostic
  warnings : List Diagnostic

namespace Scope

/-- The functions whose body may be around a statement. -/
inductive Body where
  | none
  | function
  | initializer
deriving DecidableEq, Repr

/-- What is around a statement. -/
structure Context where
  body : Body := .none
  /-- How many scopes lie outside the innermost function. -/
  outside : Nat := 0
  inClass : Bool := false
  inLoop : Bool := false

/-- The scopes around the place reached, innermost first, and what was found so far, latest first. -/
structure State where
  scopes : List Scope := []
  uses : List LocalUse := []
  faults : List Diagnostic := []
  warnings : List Diagnostic := []

end Scope

open Scope

/-- A step of the check: it may end in a fault. -/
abbrev Check := EStateM Diagnostic Scope.State

namespace Scope

/-- The diagnostic of a fault at a token. -/
def faultAt (t : Token) (message : Bytes) : Diagnostic :=
  { kind := .structural, place := t.pos.place, lexeme := t.lexeme, message }

/-- Records the fault that a statement ended in, if any. -/
def recording (check : Check Unit) : Check Unit := fun s =>
  match check s with
  | .ok () s => .ok () s
  | .error d s => .ok () { s with faults := d :: s.faults }

/-- Adds a warning. -/
def warn (d : Diagnostic) : Check Unit := fun s => .ok () { s with warnings := d :: s.warnings }

/-- The warning about a statement that follows an exit. -/
def unreachable (pos : Position) : Diagnostic :=
  { kind := .warning, warning := .deadCode, place := pos.place, lexeme := []
    message := text "unreachable statement" }

/-- The warning about a local that nothing uses. -/
def unused (name : Token) : Diagnostic :=
  { kind := .warning, warning := .unusedVariable, place := name.pos.place, lexeme := name.lexeme
    message := text "local '" ++ name.lexeme ++ text "' is declared but never used" }

/-- Should the end of the scope warn about this name? Parameters, receivers and names that start with
an underscore are exempt. -/
def Entry.idle (e : Entry) : Bool :=
  !e.used && e.origin = .local && e.name.lexeme.head? ≠ some 0x5F

/-- Ends the innermost scope with its warnings. -/
def State.close (s : State) : State :=
  let idle := (s.scopes.headD []).filter Entry.idle
  { s with
    scopes := s.scopes.tail
    warnings := (idle.map fun e => unused e.name).reverse ++ s.warnings }

/-- Runs a check in a new scope. A scope that ends in a fault gives no warnings. -/
def within (check : Check Unit) : Check Unit := fun s =>
  match check { s with scopes := [] :: s.scopes } with
  | .ok () s => .ok () s.close
  | .error d s => .error d { s with scopes := s.scopes.tail }

/-- Declares a name in the innermost scope; outside every scope nothing is declared. -/
def declare (name : Token) (origin : Origin) : Check Unit := fun s =>
  match s.scopes with
  | [] => .ok () s
  | scope :: outer =>
    if scope.any (·.name.lexeme == name.lexeme) then
      .error (faultAt name
        (text "'" ++ name.lexeme ++ text "' is already declared in this scope")) s
    else .ok () { s with scopes := (scope ++ [{ name, origin }]) :: outer }

/-- Changes the entry of a name in a scope. -/
def mark (name : Bytes) (f : Entry → Entry) (scope : Scope) : Scope :=
  scope.map fun e => if e.name.lexeme == name then f e else e

/-- Completes the declaration of a name. -/
def define (name : Token) : Check Unit := fun s =>
  match s.scopes with
  | [] => .ok () s
  | scope :: outer =>
    .ok () { s with scopes := mark name.lexeme ({ · with ready := true }) scope :: outer }

/-- The distance to the nearest scope with a usable entry of a name. An entry that is not ready can be
used only from inside a function that the entry's scope lies outside of: such a use runs later. -/
def distance? (outside : Nat) (name : Bytes) : List Scope → Option Nat
  | [] => none
  | scope :: outer =>
    if scope.any fun e => e.name.lexeme == name && (e.ready || outer.length < outside) then some 0
    else (distance? outside name outer).map (· + 1)

/-- Notes a use of a name, if the name is local. -/
def useName (ctx : Context) (id : NodeId) (use : Use) (name : Token) : Check Unit := fun s =>
  match distance? ctx.outside name.lexeme s.scopes with
  | none => .ok () s
  | some d =>
    .ok ()
      { s with
        scopes := s.scopes.modify d (mark name.lexeme ({ · with used := true }))
        uses := ⟨id, use, name.lexeme, name.pos, d⟩ :: s.uses }

/-- Declares parameters, each complete at once. -/
def declareAll : List Token → Check Unit
  | [] => pure ()
  | p :: ps => do
    declare p .parameter
    define p
    declareAll ps

/-- The context of a function's body, given the scopes outside it. -/
def Context.enter (ctx : Context) (body : Body) (outside : Nat) : Context :=
  { ctx with body, outside, inLoop := false }

/-- How many scopes are open. -/
def depth : Check Nat := fun s => .ok s.scopes.length s

/-- Refuses a statement at its keyword unless `ok`. -/
def require (ok : Bool) (keyword : Token) (message : String) : Check Unit :=
  if ok then pure () else throw (faultAt keyword (text message))

/-- The name of the receiver, declared where its class is. -/
def receiver (className : Token) : Token :=
  { kind := .thisWord, lexeme := text "this", pos := className.pos }

/-- The name of the method that sets up a new instance. -/
def initName : Bytes := text "init"

end Scope

mutual

/-- Checks an expression. -/
def Expr.check (ctx : Context) : Expr → Check Unit
  | .literal _ _ => pure ()
  | .group _ _ inner => inner.check ctx
  | .unary _ _ _ operand => operand.check ctx
  | .binary _ _ _ left right => do
    left.check ctx
    right.check ctx
  | .logical _ _ _ left right => do
    left.check ctx
    right.check ctx
  | .ternary _ _ cond yes no => do
    cond.check ctx
    yes.check ctx
    no.check ctx
  | .ident id name => useName ctx id .read name
  | .assign id name value => do
    value.check ctx
    useName ctx id .assign name
  | .compound id name _ _ value => do
    value.check ctx
    useName ctx id .compound name
  | .update id name _ token _ => useName ctx id .update { name with pos := token.pos }
  | .updateIndex _ object _ index _ _ _ => do
    object.check ctx
    index.check ctx
  | .updateGet _ object _ _ _ _ => object.check ctx
  | .call _ callee _ args => do
    callee.check ctx
    Expr.checkAll ctx args
  | .lambda _ _ params body => do
    let inner := ctx.enter .function (← depth)
    within do
      declareAll params
      Stmt.checkAll inner false body
  | .array _ _ elements => Expr.checkAll ctx elements
  | .index _ object _ index => do
    object.check ctx
    index.check ctx
  | .get _ object _ => object.check ctx
  | .set _ object _ value => do
    value.check ctx
    object.check ctx
  | .this id keyword => do
    require ctx.inClass keyword "can't use 'this' outside of a class"
    useName ctx id .receiver { keyword with lexeme := text "this" }

/-- Checks expressions in order. -/
def Expr.checkAll (ctx : Context) : List Expr → Check Unit
  | [] => pure ()
  | e :: es => do
    e.check ctx
    Expr.checkAll ctx es

/-- Checks an expression that may be absent. -/
def Expr.checkOpt (ctx : Context) : Option Expr → Check Unit
  | none => pure ()
  | some e => e.check ctx

/-- Checks a statement. -/
def Stmt.check (ctx : Context) : Stmt → Check Unit
  | .expression _ e => e.check ctx
  | .print _ e => e.check ctx
  | .declare _ name value => do
    Scope.declare name .local
    Expr.checkOpt ctx value
    define name
  | .block _ body => within (Stmt.checkAll ctx false body)
  | .branch _ cond yes no => do
    cond.check ctx
    yes.check ctx
    Stmt.checkOpt ctx no
  | .loop _ cond body => do
    cond.check ctx
    body.check { ctx with inLoop := true }
  | .forLoop _ start cond step body =>
    within do
      Stmt.checkOpt ctx start
      Expr.checkOpt ctx cond
      Expr.checkOpt ctx step
      body.check { ctx with inLoop := true }
  | .leave keyword => require ctx.inLoop keyword "'break' outside of a loop"
  | .skip keyword => require ctx.inLoop keyword "'continue' outside of a loop"
  | .result keyword value => do
    require (ctx.body ≠ .none) keyword "can't return from top-level code"
    require (ctx.body ≠ .initializer) keyword "can't return from an initializer"
    Expr.checkOpt ctx value
  | .function (.mk name params body) => do
    Scope.declare name .local
    define name
    let inner := ctx.enter .function (← depth)
    within do
      declareAll params
      Stmt.checkAll inner false body
  | .classDecl _ name fields methods => do
    Scope.declare name .local
    define name
    Field.checkAll ctx fields
    within do
      Scope.declare (receiver name) .receiver
      define (receiver name)
      Function.checkAll { ctx with inClass := true } methods

/-- Checks a statement that may be absent. -/
def Stmt.checkOpt (ctx : Context) : Option Stmt → Check Unit
  | none => pure ()
  | some s => s.check ctx

/-- Checks statements in order, recording the fault of each; `exited` tells that the statement before
the list never passes control on. -/
def Stmt.checkAll (ctx : Context) (exited : Bool) : List Stmt → Check Unit
  | [] => pure ()
  | s :: ss => do
    if exited then warn (unreachable s.pos)
    recording (s.check ctx)
    Stmt.checkAll ctx s.exits ss

/-- Checks the methods of a class; one with the initializer's name returns its receiver only. -/
def Function.checkAll (ctx : Context) : List Function → Check Unit
  | [] => pure ()
  | .mk name params body :: fs => do
    let inner := ctx.enter (if name.lexeme == initName then .initializer else .function) (← depth)
    within do
      declareAll params
      Stmt.checkAll inner false body
    Function.checkAll ctx fs

/-- Checks the initial values of fields, which see the class's surroundings and no receiver. -/
def Field.checkAll (ctx : Context) : List Field → Check Unit
  | [] => pure ()
  | .mk _ value :: fs => do
    value.check ctx
    Field.checkAll ctx fs

end

namespace Resolution

/-- Checks a program. -/
def ofProgram (stmts : List Stmt) : Resolution :=
  match Stmt.checkAll {} false stmts {} with
  | .ok () s | .error _ s =>
    { uses := s.uses.reverse, faults := s.faults.reverse, warnings := s.warnings.reverse }

end Resolution

end Treewalk
