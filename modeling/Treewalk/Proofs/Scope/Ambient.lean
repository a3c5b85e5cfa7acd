import Treewalk.Scope

/-!
# What is around a statement, kept in the state

A check is handed down what is around a statement (`Scope.Context`). It may as well be kept in the state of the check,
beside the scopes (`Scope.Resolver`): the function, how many scopes lie outside it, whether there is a class, and how
many loops there are. Then a function, the methods of a class and the body of a loop each change some of it when they
start and put it back when they end, with or without a fault (`Scope.deferring`). Loops are counted up and down; of a
function and a class what was there before is put back.

Main result: the two checks find the same, and the second one leaves what is around a statement as it was
(`Stmt.resolve_follows`, `Resolution.inPlace_eq`).
-/

namespace Treewalk

namespace Scope

/-- The functions whose body may be around a statement, with each kind apart. -/
inductive FunctionKind where
  | none
  | function
  | lambda
  | method
  | initializer
deriving DecidableEq, Repr

/-- What of a function's kind makes a difference. -/
def FunctionKind.body : FunctionKind → Body
  | .none => .none
  | .function | .lambda | .method => .function
  | .initializer => .initializer

/-- The state of a check that keeps what is around a statement. -/
structure Resolver extends State where
  fn : FunctionKind := .none
  /-- How many scopes lie outside the innermost function. -/
  fnScope : Nat := 0
  inClass : Bool := false
  loopDepth : Nat := 0

/-- What is around the place reached. -/
def Resolver.context (r : Resolver) : Context where
  body := r.fn.body
  outside := r.fnScope
  inClass := r.inClass
  inLoop := r.loopDepth ≠ 0

end Scope

open Scope

/-- A step of the check that keeps what is around a statement. -/
abbrev Resolving := EStateM Diagnostic Scope.Resolver

namespace Scope

variable {α : Type}

/-- The end of a step that has changed the scopes and what was found, and nothing else. -/
def Resolver.ended (r : Resolver) : EStateM.Result Diagnostic State α → EStateM.Result Diagnostic Resolver α
  | .ok a s => .ok a { r with toState := s }
  | .error d s => .error d { r with toState := s }

/-- A step that reads and changes the scopes and what was found only. -/
def onState (check : Check α) : Resolving α := fun r => r.ended (check r.toState)

/-- Runs a step behind a change of the state. The state is changed once more at the end, fault or not. -/
def deferring (start finish : Resolver → Resolver) (step : Resolving α) : Resolving α := fun r =>
  match step (start r) with
  | .ok a r => .ok a (finish r)
  | .error d r => .error d (finish r)

end Scope

namespace Resolving

/-- Records the fault that a statement ended in, if any. -/
def recording (step : Resolving Unit) : Resolving Unit := fun r =>
  match step r with
  | .ok () r => .ok () r
  | .error d r => .ok () { r with faults := d :: r.faults }

/-- Runs a step in a new scope. -/
def within (step : Resolving Unit) : Resolving Unit := fun r =>
  match step { r with scopes := [] :: r.scopes } with
  | .ok () r => .ok () { r with toState := r.toState.close }
  | .error d r => .error d { r with scopes := r.scopes.tail }

def useName (id : NodeId) (use : Use) (name : Token) : Resolving Unit := fun r =>
  onState (Scope.useName r.context id use name) r

/-- The body of a loop. -/
def loopBody (step : Resolving Unit) : Resolving Unit :=
  deferring (fun r => { r with loopDepth := r.loopDepth + 1 }) (fun r => { r with loopDepth := r.loopDepth - 1 }) step

/-- A function, given the check of its body. -/
def function (kind : FunctionKind) (params : List Token) (body : Resolving Unit) : Resolving Unit := fun r =>
  deferring (fun r => { r with fn := kind, fnScope := r.scopes.length, loopDepth := 0 })
    (fun r' => { r' with fn := r.fn, fnScope := r.fnScope, loopDepth := r.loopDepth })
    (within do
      onState (declareAll params)
      body) r

/-- The methods of a class, given their check. -/
def classBody (name : Token) (methods : Resolving Unit) : Resolving Unit := fun r =>
  deferring ({ · with inClass := true }) ({ · with inClass := r.inClass })
    (within do
      onState (declare (receiver name) .receiver)
      onState (define (receiver name))
      methods) r

end Resolving

mutual

/-- Checks an expression. -/
def Expr.resolve : Expr → Resolving Unit
  | .literal _ _ => pure ()
  | .group _ _ inner => inner.resolve
  | .unary _ _ _ operand => operand.resolve
  | .binary _ _ _ left right => do
    left.resolve
    right.resolve
  | .logical _ _ _ left right => do
    left.resolve
    right.resolve
  | .ternary _ _ cond yes no => do
    cond.resolve
    yes.resolve
    no.resolve
  | .ident id name => Resolving.useName id .read name
  | .assign id name value => do
    value.resolve
    Resolving.useName id .assign name
  | .compound id name _ _ value => do
    value.resolve
    Resolving.useName id .compound name
  | .update id name _ token _ => Resolving.useName id .update { name with pos := token.pos }
  | .updateIndex _ object _ index _ _ _ => do
    object.resolve
    index.resolve
  | .updateGet _ object _ _ _ _ => object.resolve
  | .call _ callee _ args => do
    callee.resolve
    Expr.resolveAll args
  | .lambda _ _ params body => Resolving.function .lambda params (Stmt.resolveAll false body)
  | .array _ _ elements => Expr.resolveAll elements
  | .index _ object _ index => do
    object.resolve
    index.resolve
  | .get _ object _ => object.resolve
  | .set _ object _ value => do
    value.resolve
    object.resolve
  | .this id keyword => do
    onState (require (← get).inClass keyword "can't use 'this' outside of a class")
    Resolving.useName id .receiver { keyword with lexeme := text "this" }

/-- Checks expressions in order. -/
def Expr.resolveAll : List Expr → Resolving Unit
  | [] => pure ()
  | e :: es => do
    e.resolve
    Expr.resolveAll es

/-- Checks an expression that may be absent. -/
def Expr.resolveOpt : Option Expr → Resolving Unit
  | none => pure ()
  | some e => e.resolve

/-- Checks a statement. -/
def Stmt.resolve : Stmt → Resolving Unit
  | .expression _ e => e.resolve
  | .print _ e => e.resolve
  | .declare _ name value => do
    onState (Scope.declare name .local)
    Expr.resolveOpt value
    onState (define name)
  | .block _ body => Resolving.within (Stmt.resolveAll false body)
  | .branch _ cond yes no => do
    cond.resolve
    yes.resolve
    Stmt.resolveOpt no
  | .loop _ cond body => do
    cond.resolve
    Resolving.loopBody body.resolve
  | .forLoop _ start cond step body =>
    Resolving.within do
      Stmt.resolveOpt start
      Expr.resolveOpt cond
      Expr.resolveOpt step
      Resolving.loopBody body.resolve
  | .leave keyword => do onState (require ((← get).loopDepth ≠ 0) keyword "'break' outside of a loop")
  | .skip keyword => do onState (require ((← get).loopDepth ≠ 0) keyword "'continue' outside of a loop")
  | .result keyword value => do
    onState (require ((← get).fn ≠ .none) keyword "can't return from top-level code")
    onState (require ((← get).fn ≠ .initializer) keyword "can't return from an initializer")
    Expr.resolveOpt value
  | .function (.mk name params body) => do
    onState (Scope.declare name .local)
    onState (define name)
    Resolving.function .function params (Stmt.resolveAll false body)
  | .classDecl _ name fields methods => do
    onState (Scope.declare name .local)
    onState (define name)
    Field.resolveAll fields
    Resolving.classBody name (Function.resolveAll methods)

/-- Checks a statement that may be absent. -/
def Stmt.resolveOpt : Option Stmt → Resolving Unit
  | none => pure ()
  | some s => s.resolve

/-- Checks statements in order, recording the fault of each. -/
def Stmt.resolveAll (exited : Bool) : List Stmt → Resolving Unit
  | [] => pure ()
  | s :: ss => do
    if exited then onState (warn (unreachable s.pos))
    Resolving.recording s.resolve
    Stmt.resolveAll s.exits ss

/-- Checks the methods of a class. -/
def Function.resolveAll : List Function → Resolving Unit
  | [] => pure ()
  | .mk name params body :: fs => do
    Resolving.function (if name.lexeme == initName then .initializer else .method) params (Stmt.resolveAll false body)
    Function.resolveAll fs

/-- Checks the initial values of fields. -/
def Field.resolveAll : List Field → Resolving Unit
  | [] => pure ()
  | .mk _ value :: fs => do
    value.resolve
    Field.resolveAll fs

end

/-- Checks a program with what is around a statement in the state. -/
def Resolution.inPlace (stmts : List Stmt) : Resolution :=
  match Stmt.resolveAll false stmts {} with
  | .ok () r | .error _ r =>
    { uses := r.uses.reverse, faults := r.faults.reverse, warnings := r.warnings.reverse }

/-! ## The same check -/

namespace Scope

theorem Resolver.body_ne_none (r : Resolver) : decide (r.context.body ≠ .none) = decide (r.fn ≠ .none) := by
  cases hfn : r.fn <;> simp [Resolver.context, hfn, FunctionKind.body]

theorem Resolver.body_ne_initializer (r : Resolver) :
    decide (r.context.body ≠ .initializer) = decide (r.fn ≠ .initializer) := by
  cases hfn : r.fn <;> simp [Resolver.context, hfn, FunctionKind.body]

/-- A step that does what a check does, where what is around is what the check is handed down, and leaves that as it
was. -/
def Follows {α : Type} (ctx : Context) (check : Check α) (step : Resolving α) : Prop :=
  ∀ r : Resolver, r.context = ctx → step r = r.ended (check r.toState)

namespace Follows

variable {α β : Type} {ctx : Context} {check : Check Unit} {step : Resolving Unit}

theorem done (a : α) : Follows ctx (pure a) (pure a) := fun _ _ => rfl

theorem state (check : Check α) : Follows ctx check (onState check) := fun _ _ => rfl

theorem bind {check : Check α} {step : Resolving α} {next : α → Check β} {nextStep : α → Resolving β}
    (h : Follows ctx check step) (hnext : ∀ a, Follows ctx (next a) (nextStep a)) :
    Follows ctx (check >>= next) (step >>= nextStep) := by
  intro r hr
  show EStateM.bind step nextStep r = r.ended (EStateM.bind check next r.toState)
  unfold EStateM.bind
  rw [h r hr]
  cases check r.toState with
  | ok a s => exact hnext a { r with toState := s } hr
  | error d s => rfl

/-- What is around is read off the state. -/
theorem read {f : Resolver → Resolving α} {check : Check α}
    (h : ∀ r : Resolver, r.context = ctx → Follows ctx check (f r)) : Follows ctx check (get >>= f) :=
  fun r hr => h r hr r hr

theorem used (id : NodeId) (use : Use) (name : Token) :
    Follows ctx (useName ctx id use name) (Resolving.useName id use name) := by
  rintro r rfl
  rfl

theorem recorded (h : Follows ctx check step) : Follows ctx (recording check) (Resolving.recording step) := by
  intro r hr
  unfold Resolving.recording recording
  rw [h r hr]
  cases check r.toState <;> rfl

theorem inside (h : Follows ctx check step) : Follows ctx (within check) (Resolving.within step) := by
  intro r hr
  have hinside := h { r with scopes := [] :: r.scopes } hr
  unfold Resolving.within within
  rw [hinside]
  cases check { r.toState with scopes := [] :: r.scopes } <;> rfl

/-- What is changed at the start is as before, if the change at the end undoes it. -/
theorem deferred {r : Resolver} {start finish : Resolver → Resolver} {result : EStateM.Result Diagnostic State Unit}
    (h : step (start r) = (start r).ended result)
    (hfinish : ∀ s, finish { start r with toState := s } = { r with toState := s }) :
    deferring start finish step r = r.ended result := by
  unfold deferring
  rw [h]
  cases result with
  | ok a s => exact congrArg (EStateM.Result.ok a) (hfinish s)
  | error d s => exact congrArg (EStateM.Result.error d) (hfinish s)

theorem inLoop (h : Follows { ctx with inLoop := true } check step) :
    Follows ctx check (Resolving.loopBody step) := by
  rintro r rfl
  exact deferred (h { r with loopDepth := r.loopDepth + 1 } rfl) fun _ => rfl

theorem function {kind : FunctionKind} {params : List Token} {stmts : List Stmt}
    (h : ∀ ctx, Follows ctx (Stmt.checkAll ctx false stmts) step) :
    Follows ctx
      (do
        let inner := ctx.enter kind.body (← depth)
        within do
          declareAll params
          Stmt.checkAll inner false stmts)
      (Resolving.function kind params step) := by
  rintro r rfl
  have hbody := (state (declareAll params)).bind fun _ => h (r.context.enter kind.body r.scopes.length)
  exact deferred (hbody.inside { r with fn := kind, fnScope := r.scopes.length, loopDepth := 0 } rfl) fun _ => rfl

theorem classBody {name : Token} {methods : List Function}
    (h : Follows { ctx with inClass := true } (Function.checkAll { ctx with inClass := true } methods) step) :
    Follows ctx
      (within do
        declare (receiver name) .receiver
        define (receiver name)
        Function.checkAll { ctx with inClass := true } methods)
      (Resolving.classBody name step) := by
  rintro r rfl
  have hbody := (state (declare (receiver name) .receiver)).bind fun _ => (state (define (receiver name))).bind fun _ => h
  exact deferred (hbody.inside { r with inClass := true } rfl) fun _ => rfl

end Follows

end Scope

open Scope.Follows

mutual

theorem Expr.resolve_follows (ctx : Context) : ∀ e : Expr, Follows ctx (e.check ctx) e.resolve
  | .literal _ _ => .done ()
  | .group _ _ e | .unary _ _ _ e | .updateGet _ e _ _ _ _ | .get _ e _ => e.resolve_follows ctx
  | .binary _ _ _ l r | .logical _ _ _ l r | .updateIndex _ l _ r _ _ _ | .index _ l _ r =>
    (l.resolve_follows ctx).bind fun _ => r.resolve_follows ctx
  | .set _ object _ value => (value.resolve_follows ctx).bind fun _ => object.resolve_follows ctx
  | .ternary _ _ cond yes no =>
    (cond.resolve_follows ctx).bind fun _ => (yes.resolve_follows ctx).bind fun _ => no.resolve_follows ctx
  | .ident id name => .used id .read name
  | .assign id name value => (value.resolve_follows ctx).bind fun _ => .used id .assign name
  | .compound id name _ _ value => (value.resolve_follows ctx).bind fun _ => .used id .compound name
  | .update id name _ token _ => .used id .update { name with pos := token.pos }
  | .call _ callee _ args => (callee.resolve_follows ctx).bind fun _ => Expr.resolveAll_follows ctx args
  | .lambda _ _ _ body => .function fun ctx => Stmt.resolveAll_follows ctx false body
  | .array _ _ elements => Expr.resolveAll_follows ctx elements
  | .this id keyword => by
    refine .read ?_
    rintro r rfl
    exact (state _).bind fun _ => .used id .receiver _

theorem Expr.resolveAll_follows (ctx : Context) : ∀ es, Follows ctx (Expr.checkAll ctx es) (Expr.resolveAll es)
  | [] => .done ()
  | e :: es => (e.resolve_follows ctx).bind fun _ => Expr.resolveAll_follows ctx es

theorem Expr.resolveOpt_follows (ctx : Context) : ∀ e, Follows ctx (Expr.checkOpt ctx e) (Expr.resolveOpt e)
  | none => .done ()
  | some e => e.resolve_follows ctx

theorem Stmt.resolve_follows (ctx : Context) : ∀ s : Stmt, Follows ctx (s.check ctx) s.resolve
  | .expression _ e | .print _ e => e.resolve_follows ctx
  | .declare _ name value =>
    (state _).bind fun _ => (Expr.resolveOpt_follows ctx value).bind fun _ => state (define name)
  | .block _ body => (Stmt.resolveAll_follows ctx false body).inside
  | .branch _ cond yes no =>
    (cond.resolve_follows ctx).bind fun _ => (yes.resolve_follows ctx).bind fun _ => Stmt.resolveOpt_follows ctx no
  | .loop _ cond body => (cond.resolve_follows ctx).bind fun _ => (body.resolve_follows _).inLoop
  | .forLoop _ start cond step body =>
    ((Stmt.resolveOpt_follows ctx start).bind fun _ => (Expr.resolveOpt_follows ctx cond).bind fun _ =>
      (Expr.resolveOpt_follows ctx step).bind fun _ => (body.resolve_follows _).inLoop).inside
  | .leave keyword | .skip keyword => by
    refine .read ?_
    rintro r rfl
    exact state _
  | .result keyword value => by
    rw [Stmt.check, Stmt.resolve]
    refine .read ?_
    rintro r rfl
    rw [r.body_ne_none]
    refine (state _).bind fun _ => .read fun r' hr' => ?_
    rw [← hr', r'.body_ne_initializer]
    exact (state _).bind fun _ => hr' ▸ Expr.resolveOpt_follows r.context value
  | .function (.mk name _ body) =>
    (state _).bind fun _ => (state _).bind fun _ => .function fun ctx => Stmt.resolveAll_follows ctx false body
  | .classDecl _ name fields methods =>
    (state _).bind fun _ => (state _).bind fun _ => (Field.resolveAll_follows ctx fields).bind fun _ =>
      (Function.resolveAll_follows _ methods).classBody

theorem Stmt.resolveOpt_follows (ctx : Context) : ∀ s, Follows ctx (Stmt.checkOpt ctx s) (Stmt.resolveOpt s)
  | none => .done ()
  | some s => s.resolve_follows ctx

theorem Stmt.resolveAll_follows (ctx : Context) (exited : Bool) :
    ∀ ss, Follows ctx (Stmt.checkAll ctx exited ss) (Stmt.resolveAll exited ss)
  | [] => .done ()
  | s :: ss => by
    have hrest := (s.resolve_follows ctx).recorded.bind fun _ => Stmt.resolveAll_follows ctx s.exits ss
    rw [Stmt.checkAll, Stmt.resolveAll]
    cases exited with
    | false => exact hrest
    | true => exact (state _).bind fun _ => hrest

theorem Function.resolveAll_follows (ctx : Context) :
    ∀ fs, Follows ctx (Function.checkAll ctx fs) (Function.resolveAll fs)
  | [] => .done ()
  | .mk name params body :: fs => by
    have hbody : (if name.lexeme == initName then FunctionKind.initializer else .method).body =
        if name.lexeme == initName then .initializer else .function := by split <;> rfl
    have hfirst : Follows ctx _ (Resolving.function (if name.lexeme == initName then .initializer else .method) params
        (Stmt.resolveAll false body)) := .function fun ctx => Stmt.resolveAll_follows ctx false body
    have hall := hfirst.bind fun _ => Function.resolveAll_follows ctx fs
    rw [hbody, bind_assoc] at hall
    exact hall

theorem Field.resolveAll_follows (ctx : Context) : ∀ fs, Follows ctx (Field.checkAll ctx fs) (Field.resolveAll fs)
  | [] => .done ()
  | .mk _ value :: fs => (value.resolve_follows ctx).bind fun _ => Field.resolveAll_follows ctx fs

end

/-- The two checks of a program find the same. -/
theorem Resolution.inPlace_eq (stmts : List Stmt) : inPlace stmts = ofProgram stmts := by
  unfold inPlace ofProgram
  rw [Stmt.resolveAll_follows {} false stmts {} rfl]
  show (match Resolver.ended {} (Stmt.checkAll {} false stmts {}) with
    | .ok () r | .error _ r => _) = _
  cases Stmt.checkAll {} false stmts {} <;> rfl

end Treewalk
