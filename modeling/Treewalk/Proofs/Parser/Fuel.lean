import Treewalk.Tree.Parse

/-!
# More fuel gives the same answer

The parsers share a fuel argument that bounds the depth of their calls. A parser that did not give up
for want of fuel gives the same answer with more of it (`program_eq_of_le`), so that whatever is shown
with some amount of fuel holds with any larger one.

The order behind this is `Below p q`: from every state `p` is out of fuel or agrees with `q`. Sequencing
respects it, and so do all forms that the parsers are built from.
-/

namespace Treewalk.Parser

open Parse

variable {α β : Type}

/-- From every state `p` is out of fuel or does what `q` does. -/
def Below (p q : Parser α) : Prop := ∀ s, (∃ s', p s = .error .outOfFuel s') ∨ p s = q s

namespace Below

theorem refl (p : Parser α) : Below p p := fun _ => .inr rfl

theorem outOfFuel (q : Parser α) : Below (throw .outOfFuel) q := fun s => .inl ⟨s, rfl⟩

theorem bind {p q : Parser α} {f g : α → Parser β} (hp : Below p q) (hf : ∀ a, Below (f a) (g a)) :
    Below (p >>= f) (q >>= g) := by
  intro s
  show (∃ s', EStateM.bind p f s = _) ∨ EStateM.bind p f s = EStateM.bind q g s
  unfold EStateM.bind
  rcases hp s with ⟨s', h⟩ | h
  · rw [h]
    exact .inl ⟨s', rfl⟩
  · rw [← h]
    cases p s with
    | ok a s' => exact hf a s'
    | error e s' => exact .inr rfl

theorem ite {c : Prop} [Decidable c] {p p' q q' : Parser α} (hp : Below p p') (hq : Below q q') :
    Below (if c then p else q) (if c then p' else q') := by
  split
  · exact hp
  · exact hq

theorem unlessAt {p q : Parser α} (kind : Token.Kind) (h : Below p q) :
    Below (Parser.unlessAt kind p) (Parser.unlessAt kind q) :=
  (refl _).bind fun _ => ite (refl _) (h.bind fun _ => refl _)

theorem ifAfter {p q : Parser α} (kind : Token.Kind) (h : Below p q) :
    Below (Parser.ifAfter kind p) (Parser.ifAfter kind q) :=
  (refl _).bind fun _ => ite (h.bind fun _ => refl _) (refl _)

theorem startClause {p p' q q' : Parser Stmt} (hp : Below p p') (hq : Below q q') :
    Below (Parser.startClause p q) (Parser.startClause p' q') := by
  unfold Parser.startClause
  refine (refl _).bind fun _ => ite (refl _) ((refl _).bind fun _ => ?_)
  exact ite (hp.bind fun _ => refl _) (hq.bind fun _ => refl _)

theorem recovering {p q : Parser Stmt} (h : Below p q) :
    Below (Parser.recovering p) (Parser.recovering q) := by
  intro s
  unfold Parser.recovering
  rcases h s with ⟨s', h⟩ | h
  · rw [h]
    exact .inl ⟨s', rfl⟩
  · rw [h]
    exact .inr rfl

end Below

/-- Every parser with fuel `n` is below itself with fuel `m`. -/
structure BelowAt (n m : Nat) : Prop where
  expression : Below (expression n) (expression m)
  ternary : Below (ternary n) (ternary m)
  chain : ∀ level, Below (chain n level) (chain m level)
  chainRest : ∀ level left, Below (chainRest n level left) (chainRest m level left)
  operand : ∀ level, Below (operand n level) (operand m level)
  unary : Below (unary n) (unary m)
  callRest : ∀ inner, Below (callRest n inner) (callRest m inner)
  arguments : ∀ closing, Below (arguments n closing) (arguments m closing)
  argumentsFrom : ∀ closing done taken,
    Below (argumentsFrom n closing done taken) (argumentsFrom m closing done taken)
  primary : Below (primary n) (primary m)
  parameterNames : ∀ done taken, Below (parameterNames done taken n) (parameterNames done taken m)
  functionTail : ∀ callee, Below (functionTail n callee) (functionTail m callee)
  function : ∀ callee, Below (function n callee) (function m callee)
  block : Below (block n) (block m)
  blockBody : ∀ done, Below (blockBody n done) (blockBody m done)
  declaration : Below (declaration n) (declaration m)
  classDecl : Below (classDecl n) (classDecl m)
  members : ∀ fields methods, Below (members n fields methods) (members m fields methods)
  variableDecl : Below (variableDecl n) (variableDecl m)
  statement : Below (statement n) (statement m)
  branch : Below (branch n) (branch m)
  forLoop : Below (forLoop n) (forLoop m)
  expressionStmt : Below (expressionStmt n) (expressionStmt m)
  program : ∀ done, Below (program n done) (program m done)

theorem belowAt_zero (m : Nat) : BelowAt 0 m where
  expression := .outOfFuel _
  ternary := .outOfFuel _
  chain _ := .outOfFuel _
  chainRest _ _ := .outOfFuel _
  operand _ := .outOfFuel _
  unary := .outOfFuel _
  callRest _ := .outOfFuel _
  arguments _ := .outOfFuel _
  argumentsFrom _ _ _ := .outOfFuel _
  primary := .outOfFuel _
  parameterNames _ _ := .outOfFuel _
  functionTail _ := .outOfFuel _
  function _ := .outOfFuel _
  block := .outOfFuel _
  blockBody _ := .outOfFuel _
  declaration := .outOfFuel _
  classDecl := .outOfFuel _
  members _ _ := .outOfFuel _
  variableDecl := .outOfFuel _
  statement := .outOfFuel _
  branch := .outOfFuel _
  forLoop := .outOfFuel _
  expressionStmt := .outOfFuel _
  program _ := .outOfFuel _

theorem belowAt_succ {n m : Nat} (h : BelowAt n m) : BelowAt (n + 1) (m + 1) where
  expression := by
    refine h.ternary.bind fun target => (Below.refl _).bind fun sign => .ite ?_ ?_
    · exact (Below.refl _).bind fun _ => h.expression.bind fun _ => .refl _
    · cases compoundOp? sign.kind with
      | some op => exact (Below.refl _).bind fun _ => h.expression.bind fun _ => .refl _
      | none => exact .refl _
  ternary := by
    refine (h.chain _).bind fun cond => (Below.refl _).bind fun question => .ite ?_ (.refl _)
    refine (Below.refl _).bind fun _ => h.expression.bind fun yes => (Below.refl _).bind fun _ => ?_
    exact h.ternary.bind fun no => .refl _
  chain level := (h.operand level).bind fun left => h.chainRest level left
  chainRest level left := by
    refine (Below.refl _).bind fun token => ?_
    cases level.joint? token.kind with
    | none => exact .refl _
    | some joint =>
      refine (Below.refl _).bind fun _ => (h.operand level).bind fun right => ?_
      exact (Below.refl _).bind fun id => h.chainRest level _
  operand level := by
    cases level with
    | factor => exact h.unary
    | _ => exact h.chain _
  unary := by
    refine (Below.refl _).bind fun token => ?_
    cases unaryOp? token.kind with
    | some op => exact (Below.refl _).bind fun _ => h.unary.bind fun _ => .refl _
    | none =>
      cases stepOp? token.kind with
      | some op => exact (Below.refl _).bind fun _ => h.unary.bind fun _ => .refl _
      | none => exact h.primary.bind fun inner => h.callRest inner
  callRest inner := by
    refine (Below.refl _).bind fun token => ?_
    split
    · refine (Below.refl _).bind fun _ => (h.arguments _).bind fun args => ?_
      exact (Below.refl _).bind fun paren => (Below.refl _).bind fun id => h.callRest _
    · refine (Below.refl _).bind fun _ => (Below.refl _).bind fun name => ?_
      exact (Below.refl _).bind fun id => h.callRest _
    · refine (Below.refl _).bind fun _ => h.expression.bind fun index => ?_
      exact (Below.refl _).bind fun _ => (Below.refl _).bind fun id => h.callRest _
    · exact .refl _
  arguments closing := (Below.refl _).bind fun _ => .ite (.refl _) (h.argumentsFrom closing [] 0)
  argumentsFrom closing done taken := by
    refine (Below.refl _).bind fun _ => h.expression.bind fun e => (Below.refl _).bind fun _ => ?_
    exact .ite (h.argumentsFrom _ _ _) (.refl _)
  primary := by
    refine (Below.refl _).bind fun token => ?_
    split
    case h_8 =>
      exact (Below.refl _).bind fun _ => h.expression.bind fun inner => .refl _
    case h_9 =>
      exact (Below.refl _).bind fun _ => (h.arguments _).bind fun elements => .refl _
    case h_10 =>
      exact (Below.refl _).bind fun _ => (h.functionTail _).bind fun tail => .refl _
    all_goals exact .refl _
  parameterNames done taken := by
    refine (Below.refl _).bind fun _ => (Below.refl _).bind fun name => (Below.refl _).bind fun _ => ?_
    exact .ite (h.parameterNames _ _) (.refl _)
  functionTail callee := by
    refine (Below.refl _).bind fun _ => ?_
    have hparams : Below (parameters n) (parameters m) :=
      (Below.refl _).bind fun _ => .ite (.refl _) (h.parameterNames _ _)
    refine hparams.bind fun params => (Below.refl _).bind fun _ => (Below.refl _).bind fun next => ?_
    exact .ite (h.block.bind fun _ => .refl _) (.refl _)
  function callee := (Below.refl _).bind fun name => (h.functionTail callee).bind fun _ => .refl _
  block := (Below.refl _).bind fun brace => (h.blockBody []).bind fun body => .refl _
  blockBody done := by
    refine (Below.refl _).bind fun next => .ite (.refl _) ?_
    refine h.declaration.recovering.bind fun found => ?_
    cases found with
    | some stmt => exact h.blockBody _
    | none => exact h.blockBody _
  declaration := by
    refine (Below.refl _).bind fun next => ?_
    split
    · exact h.classDecl
    · refine (Below.refl _).bind fun second => .ite ?_ h.statement
      exact (Below.refl _).bind fun _ => (h.function _).bind fun _ => .refl _
    · exact h.variableDecl
    · exact h.statement
  classDecl := by
    refine (Below.refl _).bind fun keyword => (Below.refl _).bind fun name => ?_
    exact (Below.refl _).bind fun _ => (h.members [] []).bind fun _ => .refl _
  members fields methods := by
    refine (Below.refl _).bind fun next => .ite (.refl _) ((Below.refl _).bind fun second => ?_)
    refine .ite ?_ ((h.function _).bind fun method => h.members _ _)
    refine (Below.refl _).bind fun _ => (Below.refl _).bind fun _ => h.expression.bind fun value => ?_
    exact (Below.refl _).bind fun _ => h.members _ _
  variableDecl := by
    refine (Below.refl _).bind fun keyword => (Below.refl _).bind fun name => ?_
    exact (h.expression.ifAfter _).bind fun value => .refl _
  statement := by
    refine (Below.refl _).bind fun next => ?_
    split
    · exact (Below.refl _).bind fun keyword => h.expression.bind fun e => .refl _
    · exact h.block.bind fun _ => .refl _
    · exact h.branch
    · refine (Below.refl _).bind fun keyword => (Below.refl _).bind fun _ => ?_
      refine h.expression.bind fun cond => (Below.refl _).bind fun _ => ?_
      exact h.statement.bind fun body => .refl _
    · exact h.forLoop
    · refine (Below.refl _).bind fun keyword => ?_
      exact (h.expression.unlessAt _).bind fun value => .refl _
    · exact .refl _
    · exact .refl _
    · exact h.expressionStmt
  branch := by
    refine (Below.refl _).bind fun keyword => (Below.refl _).bind fun _ => ?_
    refine h.expression.bind fun cond => (Below.refl _).bind fun _ => h.statement.bind fun yes => ?_
    exact (h.statement.ifAfter _).bind fun no => .refl _
  forLoop := by
    refine (Below.refl _).bind fun keyword => (Below.refl _).bind fun _ => ?_
    refine (h.variableDecl.startClause h.expressionStmt).bind fun start => ?_
    refine (h.expression.unlessAt _).bind fun cond => (Below.refl _).bind fun _ => ?_
    refine (h.expression.unlessAt _).bind fun step => (Below.refl _).bind fun _ => ?_
    exact h.statement.bind fun body => .refl _
  expressionStmt := (Below.refl _).bind fun first => h.expression.bind fun e => .refl _
  program done := by
    refine (Below.refl _).bind fun next => .ite (.refl _) ?_
    refine h.declaration.recovering.bind fun found => ?_
    cases found with
    | some stmt => exact h.program _
    | none => exact h.program _

theorem belowAt_of_le {n m : Nat} (h : n ≤ m) : BelowAt n m := by
  induction n generalizing m with
  | zero => exact belowAt_zero m
  | succ n ih =>
    obtain ⟨k, rfl⟩ : ∃ k, m = k + 1 := ⟨m - 1, by omega⟩
    exact belowAt_succ (ih (by omega))

/-- A program that was read with some fuel is read in the same way with more. -/
theorem program_eq_of_le {n m : Nat} (h : n ≤ m) (done : List Stmt) (s : State)
    (hn : ∀ s', program n done s ≠ .error .outOfFuel s') : program m done s = program n done s := by
  rcases (belowAt_of_le h).program done s with ⟨s', hs⟩ | hs
  · exact absurd hs (hn s')
  · exact hs.symm

end Treewalk.Parser
