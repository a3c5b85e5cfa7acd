import Treewalk.Tree.Parse

/-!
# What holds of all parsers

The parsers are built from few steps: they look at the next token or the one after it, take a token, give
out an identity, record a fault, and end in one. They put steps in sequence, and they recover.

**Main result** (`Compositional.routine`). A property of these steps that sequencing and recovery pass on is a
property of every parsing function (`Routine`), with any fuel.

Only where the next token is no closing brace do parsers look at the token after it (`Compositional.look`):
what stands behind a closing brace is nothing to what stands before it.
-/

namespace Treewalk.Parser

open Parse

/-- The parsing functions, with the given fuel. -/
inductive Routine (n : Nat) : {α : Type} → Parser α → Prop
  | expression : Routine n (expression n)
  | ternary : Routine n (ternary n)
  | chain (level : Level) : Routine n (chain n level)
  | chainRest (level : Level) (left : Expr) : Routine n (chainRest n level left)
  | operand (level : Level) : Routine n (operand n level)
  | unary : Routine n (unary n)
  | callRest (inner : Expr) : Routine n (callRest n inner)
  | arguments (closing : Token.Kind) : Routine n (arguments n closing)
  | argumentsFrom (closing : Token.Kind) (done : List Expr) (taken : Nat) :
    Routine n (argumentsFrom n closing done taken)
  | primary : Routine n (primary n)
  | parameterNames (done : List Token) (taken : Nat) : Routine n (parameterNames done taken n)
  | functionTail (callee : Callee) : Routine n (functionTail n callee)
  | function (callee : Callee) : Routine n (function n callee)
  | block : Routine n (block n)
  | blockBody (done : List Stmt) : Routine n (blockBody n done)
  | declaration : Routine n (declaration n)
  | classDecl : Routine n (classDecl n)
  | members (fields : List Field) (methods : List Function) : Routine n (members n fields methods)
  | variableDecl : Routine n (variableDecl n)
  | statement : Routine n (statement n)
  | branch : Routine n (branch n)
  | forLoop : Routine n (forLoop n)
  | expressionStmt : Routine n (expressionStmt n)
  | program (done : List Stmt) : Routine n (program n done)

/-- A property of the steps that sequencing and recovery pass on. -/
structure Compositional (P : (α : Type) → Parser α → Prop) : Prop where
  pure {α : Type} (a : α) : P α (Pure.pure a)
  outOfFuel {α : Type} : P α (throw .outOfFuel)
  bind {α β : Type} {p : Parser α} {f : α → Parser β} (hp : P α p) (hf : ∀ a, P β (f a)) : P β (p >>= f)
  /-- A look at the next token, and at the one after it unless the next one is a closing brace. -/
  look {α : Type} {f : Token → Parser α} (hf : ∀ t, P α (f t) ∨ t.kind ≠ .rightBrace ∧
    ∃ g : Token → Parser α, f t = peekSecond >>= g ∧ ∀ u, P α (g u)) : P α (peek >>= f)
  advance : P Token Parser.advance
  freshId : P NodeId Parser.freshId
  /-- A fault is recorded at a token that was seen and is not the end of input, or at the next token. -/
  recordAt (t : Token) (kind : Diagnostic.Kind) (message : Bytes) (ht : t.kind ≠ .eof) :
    P Unit (Parser.record (faultAt t kind message))
  recordNext (kind : Diagnostic.Kind) (message : Bytes) :
    P Unit (peek >>= fun t => Parser.record (faultAt t kind message))
  failExpected {α : Type} (what : Bytes) : P α (Parser.failExpected what)
  recovering {p : Parser Stmt} (hp : P Stmt p) : P (Option Stmt) (Parser.recovering p)

theorem ne_eof_of_stepOp? {kind : Token.Kind} {op : StepOp} (h : stepOp? kind = some op) : kind ≠ .eof := by
  rintro rfl
  cases h

namespace Compositional

variable {P : (α : Type) → Parser α → Prop} (h : Compositional P) {α : Type}

include h

theorem peek {f : Token → Parser α} (hf : ∀ t, P α (f t)) : P α (Parser.peek >>= f) :=
  h.look fun t => .inl (hf t)

omit h in
theorem ite {c : Prop} [Decidable c] {p q : Parser α} (hp : P α p) (hq : P α q) :
    P α (if c then p else q) := by
  split
  · exact hp
  · exact hq

/-! ## Forms that parsers share -/

theorem expect (kind : Token.Kind) (what : Bytes) : P Token (Parser.expect kind what) :=
  h.peek fun _ => ite h.advance (h.failExpected what)

theorem accept (kind : Token.Kind) : P Bool (Parser.accept kind) :=
  h.peek fun _ => ite (h.bind h.advance fun _ => h.pure true) (h.pure false)

theorem unlessAt {p : Parser α} (kind : Token.Kind) (hp : P α p) : P (Option α) (Parser.unlessAt kind p) :=
  h.peek fun _ => ite (h.pure none) (h.bind hp fun a => h.pure (some a))

theorem ifAfter {p : Parser α} (kind : Token.Kind) (hp : P α p) : P (Option α) (Parser.ifAfter kind p) :=
  h.bind (h.accept kind) fun _ => ite (h.bind hp fun a => h.pure (some a)) (h.pure none)

theorem checkRoom (taken : Nat) (what : Bytes) : P Unit (Parser.checkRoom taken what) :=
  ite (h.recordNext _ _) (h.pure ())

theorem checkArguments (closing : Token.Kind) (taken : Nat) : P Unit (Parser.checkArguments closing taken) :=
  ite (h.checkRoom taken _) (h.pure ())

theorem assignTo (target : Expr) {sign : Token} (hsign : sign.kind ≠ .eof) (value : Expr) :
    P Expr (Parser.assignTo target sign value) := by
  unfold Parser.assignTo
  split
  · exact h.bind h.freshId fun _ => h.pure _
  · exact h.bind h.freshId fun _ => h.pure _
  · exact h.bind (h.recordAt _ _ _ hsign) fun _ => h.pure _

theorem compoundTo (target : Expr) (op : ArithOp) {sign : Token} (hsign : sign.kind ≠ .eof) (value : Expr) :
    P Expr (Parser.compoundTo target op sign value) := by
  unfold Parser.compoundTo
  split
  · exact h.bind h.freshId fun _ => h.pure _
  · exact h.bind (h.recordAt _ _ _ hsign) fun _ => h.pure _

theorem stepOf (target : Expr) (op : StepOp) {token : Token} (htoken : token.kind ≠ .eof) (before : Bool) :
    P Expr (Parser.stepOf target op token before) := by
  unfold Parser.stepOf
  split
  · exact h.bind h.freshId fun _ => h.pure _
  · exact h.bind h.freshId fun _ => h.pure _
  · exact h.bind h.freshId fun _ => h.pure _
  · exact h.bind (h.recordAt _ _ _ htoken) fun _ => h.pure _

theorem startClause {p q : Parser Stmt} (hp : P Stmt p) (hq : P Stmt q) :
    P (Option Stmt) (Parser.startClause p q) := by
  refine h.bind (h.accept _) fun _ => ite (h.pure none) (h.peek fun _ => ?_)
  exact ite (h.bind hp fun s => h.pure (some s)) (h.bind hq fun s => h.pure (some s))

theorem keywordStmt (make : Token → Stmt) (what : Bytes) : P Stmt (Parser.keywordStmt make what) :=
  h.bind h.advance fun _ => h.bind (h.expect _ _) fun _ => h.pure _

/-! ## Functions with more fuel -/

section

variable {n : Nat} (ih : ∀ {α : Type} {p : Parser α}, Routine n p → P α p)

include ih

theorem expression_succ : P Expr (expression (n + 1)) := by
  refine h.bind (ih .ternary) fun target => h.peek fun sign => ?_
  split
  next hkind =>
    have hsign : sign.kind ≠ .eof := by rw [hkind]; decide
    exact h.bind h.advance fun _ => h.bind (ih .expression) fun value => h.assignTo _ hsign _
  · split
    next op hop =>
      have hsign : sign.kind ≠ .eof := fun heq => by simp [heq, compoundOp?] at hop
      exact h.bind h.advance fun _ => h.bind (ih .expression) fun value => h.compoundTo _ _ hsign _
    · exact h.pure _

theorem ternary_succ : P Expr (ternary (n + 1)) := by
  refine h.bind (ih (.chain _)) fun cond => h.peek fun question => ite ?_ (h.pure _)
  refine h.bind h.advance fun _ => h.bind (ih .expression) fun yes => h.bind (h.expect _ _) fun _ => ?_
  exact h.bind (ih .ternary) fun no => h.bind h.freshId fun _ => h.pure _

theorem chainRest_succ (level : Level) (left : Expr) : P Expr (chainRest (n + 1) level left) := by
  refine h.peek fun token => ?_
  cases level.joint? token.kind with
  | none => exact h.pure _
  | some joint =>
    refine h.bind h.advance fun _ => h.bind (ih (.operand level)) fun right => ?_
    exact h.bind h.freshId fun id => ih (.chainRest level _)

theorem unary_succ : P Expr (unary (n + 1)) := by
  refine h.peek fun token => ?_
  cases unaryOp? token.kind with
  | some op =>
    exact h.bind h.advance fun _ => h.bind (ih .unary) fun _ => h.bind h.freshId fun _ => h.pure _
  | none =>
    cases hop : stepOp? token.kind with
    | some op => exact h.bind h.advance fun _ => h.bind (ih .unary) fun _ => h.stepOf _ _ (ne_eof_of_stepOp? hop) _
    | none => exact h.bind (ih .primary) fun inner => ih (.callRest inner)

theorem callRest_succ (inner : Expr) : P Expr (callRest (n + 1) inner) := by
  refine h.peek fun token => ?_
  split
  · refine h.bind h.advance fun _ => h.bind (ih (.arguments _)) fun args => ?_
    exact h.bind (h.expect _ _) fun paren => h.bind h.freshId fun id => ih (.callRest _)
  · refine h.bind h.advance fun _ => h.bind (h.expect _ _) fun name => ?_
    exact h.bind h.freshId fun id => ih (.callRest _)
  · refine h.bind h.advance fun _ => h.bind (ih .expression) fun index => ?_
    exact h.bind (h.expect _ _) fun _ => h.bind h.freshId fun id => ih (.callRest _)
  · split
    next op hop => exact h.bind h.advance fun _ => h.stepOf _ _ (ne_eof_of_stepOp? hop) _
    · exact h.pure _

theorem argumentsFrom_succ (closing : Token.Kind) (done : List Expr) (taken : Nat) :
    P (List Expr) (argumentsFrom (n + 1) closing done taken) := by
  refine h.bind (h.checkArguments _ _) fun _ => h.bind (ih .expression) fun e => ?_
  exact h.bind (h.accept _) fun _ => ite (ih (.argumentsFrom _ _ _)) (h.pure _)

theorem primary_succ : P Expr (primary (n + 1)) := by
  refine h.peek fun token => ?_
  split
  case h_8 =>
    refine h.bind h.advance fun _ => h.bind (ih .expression) fun inner => ?_
    exact h.bind (h.expect _ _) fun _ => h.bind h.freshId fun _ => h.pure _
  case h_9 =>
    refine h.bind h.advance fun _ => h.bind (ih (.arguments _)) fun elements => ?_
    exact h.bind (h.expect _ _) fun _ => h.bind h.freshId fun _ => h.pure _
  case h_10 =>
    refine h.bind h.advance fun _ => h.bind (ih (.functionTail _)) fun tail => ?_
    exact h.bind h.freshId fun _ => h.pure _
  case h_11 => exact h.failExpected _
  all_goals exact h.bind h.advance fun _ => h.bind h.freshId fun _ => h.pure _

theorem parameterNames_succ (done : List Token) (taken : Nat) :
    P (List Token) (parameterNames done taken (n + 1)) := by
  refine h.bind (h.checkRoom _ _) fun _ => h.bind (h.expect _ _) fun name => ?_
  exact h.bind (h.accept _) fun _ => ite (ih (.parameterNames _ _)) (h.pure _)

theorem functionTail_succ (callee : Callee) :
    P (List Token × List Stmt) (functionTail (n + 1) callee) := by
  have hparams : P (List Token) (parameters n) := h.peek fun _ => ite (h.pure _) (ih (.parameterNames _ _))
  refine h.bind (h.expect _ _) fun _ => h.bind hparams fun params => h.bind (h.expect _ _) fun _ => ?_
  exact h.peek fun _ => ite (h.bind (ih .block) fun _ => h.pure _) (h.failExpected _)

/-- A round of a loop over declarations. -/
theorem round {β : Type} {next : List Stmt → Parser β} (hnext : ∀ done, P β (next done)) (done : List Stmt) :
    P β (Parser.recovering (declaration n) >>= fun
      | some stmt => next (stmt :: done)
      | none => next done) := by
  refine h.bind (h.recovering (ih .declaration)) fun found => ?_
  cases found with
  | some stmt => exact hnext _
  | none => exact hnext _

theorem declaration_succ : P Stmt (declaration (n + 1)) := by
  refine h.look fun next => ?_
  split
  · exact .inl (ih .classDecl)
  next hkind =>
    -- behind `fun` a name tells a declaration from an expression
    refine .inr ⟨by rw [hkind]; decide, _, rfl, fun second => ite ?_ (ih .statement)⟩
    exact h.bind h.advance fun _ => h.bind (ih (.function _)) fun _ => h.pure _
  · exact .inl (ih .variableDecl)
  · exact .inl (ih .statement)

theorem classDecl_succ : P Stmt (classDecl (n + 1)) := by
  refine h.bind h.advance fun keyword => h.bind (h.expect _ _) fun name => h.bind (h.expect _ _) fun _ => ?_
  exact h.bind (ih (.members [] [])) fun _ => h.bind (h.expect _ _) fun _ => h.pure _

theorem members_succ (fields : List Field) (methods : List Function) :
    P (List Field × List Function) (members (n + 1) fields methods) := by
  refine h.look fun next => ?_
  by_cases hend : (next.kind = .rightBrace || next.kind = .eof) = true
  · rw [if_pos hend]
    exact .inl (h.pure _)
  · rw [if_neg hend]
    have hkind : next.kind ≠ .rightBrace := fun heq => hend (by simp [heq])
    refine .inr ⟨hkind, _, rfl, fun second => ite ?_ ?_⟩
    · refine h.bind h.advance fun _ => h.bind h.advance fun _ => h.bind (ih .expression) fun value => ?_
      exact h.bind (h.expect _ _) fun _ => ih (.members _ _)
    · exact h.bind (ih (.function _)) fun method => ih (.members _ _)

theorem variableDecl_succ : P Stmt (variableDecl (n + 1)) := by
  refine h.bind h.advance fun keyword => h.bind (h.expect _ _) fun name => ?_
  exact h.bind (h.ifAfter _ (ih .expression)) fun value => h.bind (h.expect _ _) fun _ => h.pure _

theorem statement_succ : P Stmt (statement (n + 1)) := by
  refine h.peek fun next => ?_
  split
  · refine h.bind h.advance fun keyword => h.bind (ih .expression) fun e => ?_
    exact h.bind (h.expect _ _) fun _ => h.pure _
  · exact h.bind (ih .block) fun _ => h.pure _
  · exact ih .branch
  · refine h.bind h.advance fun keyword => h.bind (h.expect _ _) fun _ => h.bind (ih .expression) fun cond => ?_
    exact h.bind (h.expect _ _) fun _ => h.bind (ih .statement) fun body => h.pure _
  · exact ih .forLoop
  · refine h.bind h.advance fun keyword => h.bind (h.unlessAt _ (ih .expression)) fun value => ?_
    exact h.bind (h.expect _ _) fun _ => h.pure _
  · exact h.keywordStmt _ _
  · exact h.keywordStmt _ _
  · exact ih .expressionStmt

theorem branch_succ : P Stmt (branch (n + 1)) := by
  refine h.bind h.advance fun keyword => h.bind (h.expect _ _) fun _ => h.bind (ih .expression) fun cond => ?_
  refine h.bind (h.expect _ _) fun _ => h.bind (ih .statement) fun yes => ?_
  exact h.bind (h.ifAfter _ (ih .statement)) fun no => h.pure _

theorem forLoop_succ : P Stmt (forLoop (n + 1)) := by
  refine h.bind h.advance fun keyword => h.bind (h.expect _ _) fun _ => ?_
  refine h.bind (h.startClause (ih .variableDecl) (ih .expressionStmt)) fun start => ?_
  refine h.bind (h.unlessAt _ (ih .expression)) fun cond => h.bind (h.expect _ _) fun _ => ?_
  refine h.bind (h.unlessAt _ (ih .expression)) fun step => h.bind (h.expect _ _) fun _ => ?_
  exact h.bind (ih .statement) fun body => h.pure _

end

/-- What holds of the steps holds of every parsing function. By induction on the fuel; without fuel a
function gives up at once. -/
theorem routine (n : Nat) : ∀ {α : Type} {p : Parser α}, Routine n p → P α p := by
  induction n with
  | zero =>
    intro α p hp
    cases hp <;> exact h.outOfFuel
  | succ n ih =>
    intro α p hp
    cases hp with
    | expression => exact h.expression_succ ih
    | ternary => exact h.ternary_succ ih
    | chain level => exact h.bind (ih (.operand level)) fun left => ih (.chainRest level left)
    | chainRest level left => exact h.chainRest_succ ih level left
    | operand level =>
      cases level with
      | factor => exact ih .unary
      | _ => exact ih (.chain _)
    | unary => exact h.unary_succ ih
    | callRest inner => exact h.callRest_succ ih inner
    | arguments closing => exact h.peek fun _ => ite (h.pure _) (ih (.argumentsFrom closing [] 0))
    | argumentsFrom closing done taken => exact h.argumentsFrom_succ ih closing done taken
    | primary => exact h.primary_succ ih
    | parameterNames done taken => exact h.parameterNames_succ ih done taken
    | functionTail callee => exact h.functionTail_succ ih callee
    | function callee => exact h.bind (h.expect _ _) fun name => h.bind (ih (.functionTail callee)) fun _ => h.pure _
    | block =>
      refine h.bind (h.expect _ _) fun brace => h.bind (ih (.blockBody [])) fun body => ?_
      exact h.bind (h.expect _ _) fun _ => h.pure _
    | blockBody done => exact h.peek fun _ => ite (h.pure _) (h.round ih (fun done => ih (.blockBody done)) done)
    | declaration => exact h.declaration_succ ih
    | classDecl => exact h.classDecl_succ ih
    | members fields methods => exact h.members_succ ih fields methods
    | variableDecl => exact h.variableDecl_succ ih
    | statement => exact h.statement_succ ih
    | branch => exact h.branch_succ ih
    | forLoop => exact h.forLoop_succ ih
    | expressionStmt =>
      exact h.peek fun first => h.bind (ih .expression) fun e => h.bind (h.expect _ _) fun _ => h.pure _
    | program done => exact h.peek fun _ => ite (h.pure _) (h.round ih (fun done => ih (.program done)) done)

end Compositional

end Treewalk.Parser
