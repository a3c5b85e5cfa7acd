import Treewalk.Token

/-!
# Syntax trees

A program is a list of statements. Every expression carries an identity (`NodeId`), under which the
distance of a local name is kept, and the tokens that faults in it are reported at.
-/

namespace Treewalk

/-- The identity of an expression; no two expressions of a session share one. -/
abbrev NodeId := Nat

/-- Operators before one operand. -/
inductive UnaryOp where
  | negate
  | not
deriving DecidableEq, Repr

/-- Operators that combine two numbers, `add` also texts. -/
inductive ArithOp where
  | add
  | sub
  | mul
  | div
deriving DecidableEq, Repr

/-- Operators that order two values. -/
inductive CompareOp where
  | less
  | lessEqual
  | greater
  | greaterEqual
deriving DecidableEq, Repr

/-- Operators between two operands that are both evaluated. -/
inductive BinaryOp where
  | arith (op : ArithOp)
  | compare (op : CompareOp)
  | equal
  | notEqual
deriving DecidableEq, Repr

/-- Operators that may leave their right operand unevaluated. -/
inductive LogicalOp where
  | and
  | or
deriving DecidableEq, Repr

/-- Operators that step a number by one. -/
inductive StepOp where
  | increment
  | decrement
deriving DecidableEq, Repr

mutual

/-- Expressions. -/
inductive Expr where
  /-- A number, text, truth value or `none`; the token holds its value. -/
  | literal (id : NodeId) (token : Token)
  /-- An expression in parentheses. -/
  | group (id : NodeId) (paren : Token) (inner : Expr)
  | unary (id : NodeId) (op : UnaryOp) (token : Token) (operand : Expr)
  | binary (id : NodeId) (op : BinaryOp) (token : Token) (left right : Expr)
  | logical (id : NodeId) (op : LogicalOp) (token : Token) (left right : Expr)
  /-- `cond ? yes : no`. -/
  | ternary (id : NodeId) (question : Token) (cond yes no : Expr)
  | ident (id : NodeId) (name : Token)
  | assign (id : NodeId) (name : Token) (value : Expr)
  /-- `name op= value`. -/
  | compound (id : NodeId) (name : Token) (op : ArithOp) (token : Token) (value : Expr)
  /-- A step of a variable; `before` tells `++x` from `x++`. -/
  | update (id : NodeId) (name : Token) (op : StepOp) (token : Token) (before : Bool)
  /-- A step of an array element. -/
  | updateIndex (id : NodeId) (object : Expr) (bracket : Token) (index : Expr) (op : StepOp)
      (token : Token) (before : Bool)
  /-- A step of a property. -/
  | updateGet (id : NodeId) (object : Expr) (name : Token) (op : StepOp) (token : Token)
      (before : Bool)
  /-- A call; faults in it are reported at its closing parenthesis. -/
  | call (id : NodeId) (callee : Expr) (paren : Token) (args : List Expr)
  | lambda (id : NodeId) (keyword : Token) (params : List Token) (body : List Stmt)
  | array (id : NodeId) (bracket : Token) (elements : List Expr)
  | index (id : NodeId) (object : Expr) (bracket : Token) (index : Expr)
  | get (id : NodeId) (object : Expr) (name : Token)
  | set (id : NodeId) (object : Expr) (name : Token) (value : Expr)
  | this (id : NodeId) (keyword : Token)

/-- Statements. -/
inductive Stmt where
  | expression (pos : Position) (expr : Expr)
  | print (pos : Position) (expr : Expr)
  /-- A declaration; without a value the variable must be assigned before use. -/
  | declare (pos : Position) (name : Token) (value : Option Expr)
  | block (pos : Position) (body : List Stmt)
  | branch (pos : Position) (cond : Expr) (yes : Stmt) (no : Option Stmt)
  | loop (pos : Position) (cond : Expr) (body : Stmt)
  /-- A loop with a header: `start` runs once in a scope of its own, `step` after every round. -/
  | forLoop (pos : Position) (start : Option Stmt) (cond step : Option Expr) (body : Stmt)
  | leave (keyword : Token)
  | skip (keyword : Token)
  | result (keyword : Token) (value : Option Expr)
  | function (decl : Function)
  | classDecl (pos : Position) (name : Token) (fields : List Field) (methods : List Function)

/-- A named function, or a method of a class. -/
inductive Function where
  | mk (name : Token) (params : List Token) (body : List Stmt)

/-- A field of a class with its initial value. -/
inductive Field where
  | mk (name : Token) (value : Expr)

end

namespace Function

/-- The declared name. -/
def name : Function → Token
  | .mk name _ _ => name

/-- The parameters. -/
def params : Function → List Token
  | .mk _ params _ => params

/-- The statements. -/
def body : Function → List Stmt
  | .mk _ _ body => body

end Function

namespace Field

/-- The declared name. -/
def name : Field → Token
  | .mk name _ => name

/-- The initial value. -/
def value : Field → Expr
  | .mk _ value => value

end Field

namespace Expr

/-- The identity of an expression. -/
def id : Expr → NodeId
  | literal id _ | group id _ _ | unary id _ _ _ | binary id _ _ _ _ | logical id _ _ _ _
  | ternary id _ _ _ _ | ident id _ | assign id _ _ | compound id _ _ _ _ | update id _ _ _ _
  | updateIndex id _ _ _ _ _ _ | updateGet id _ _ _ _ _ | call id _ _ _ | lambda id _ _ _
  | array id _ _ | index id _ _ _ | get id _ _ | set id _ _ _ | this id _ => id

/-- The token that an expression is located at. -/
def anchor : Expr → Token
  | literal _ t | group _ t _ | unary _ _ t _ | binary _ _ t _ _ | logical _ _ t _ _
  | ternary _ t _ _ _ | ident _ t | assign _ t _ | compound _ t _ _ _ | update _ _ _ t _
  | updateIndex _ _ _ _ _ t _ | updateGet _ _ _ _ t _ | call _ _ t _ | lambda _ t _ _
  | array _ t _ | index _ _ t _ | get _ _ t | set _ _ t _ | this _ t => t

/-- Where an expression is located. -/
def pos (e : Expr) : Position := e.anchor.pos

end Expr

namespace Stmt

/-- Where a statement starts. -/
def pos : Stmt → Position
  | expression pos _ | print pos _ | declare pos _ _ | block pos _ | branch pos _ _ _ | loop pos _ _
  | forLoop pos _ _ _ _ | classDecl pos _ _ _ => pos
  | leave keyword | skip keyword | result keyword _ => keyword.pos
  | function decl => decl.name.pos

/-- Does control never pass from this statement to the next one? -/
def exits : Stmt → Bool
  | leave _ | skip _ | result _ _ => true
  | _ => false

end Stmt

/-! ## The expressions of a tree -/

mutual

/-- The identities of an expression and of all expressions in it. -/
def Expr.nodes : Expr → List NodeId
  | .literal id _ => [id]
  | .group id _ inner => id :: inner.nodes
  | .unary id _ _ operand => id :: operand.nodes
  | .binary id _ _ left right => id :: (left.nodes ++ right.nodes)
  | .logical id _ _ left right => id :: (left.nodes ++ right.nodes)
  | .ternary id _ cond yes no => id :: (cond.nodes ++ yes.nodes ++ no.nodes)
  | .ident id _ => [id]
  | .assign id _ value => id :: value.nodes
  | .compound id _ _ _ value => id :: value.nodes
  | .update id _ _ _ _ => [id]
  | .updateIndex id object _ index _ _ _ => id :: (object.nodes ++ index.nodes)
  | .updateGet id object _ _ _ _ => id :: object.nodes
  | .call id callee _ args => id :: (callee.nodes ++ Expr.nodesAll args)
  | .lambda id _ _ body => id :: Stmt.nodesAll body
  | .array id _ elements => id :: Expr.nodesAll elements
  | .index id object _ index => id :: (object.nodes ++ index.nodes)
  | .get id object _ => id :: object.nodes
  | .set id object _ value => id :: (object.nodes ++ value.nodes)
  | .this id _ => [id]

/-- The identities in a list of expressions. -/
def Expr.nodesAll : List Expr → List NodeId
  | [] => []
  | e :: es => e.nodes ++ Expr.nodesAll es

/-- The identities in an expression that may be absent. -/
def Expr.nodesOpt : Option Expr → List NodeId
  | none => []
  | some e => e.nodes

/-- The identities in a statement. -/
def Stmt.nodes : Stmt → List NodeId
  | .expression _ e => e.nodes
  | .print _ e => e.nodes
  | .declare _ _ value => Expr.nodesOpt value
  | .block _ body => Stmt.nodesAll body
  | .branch _ cond yes no => cond.nodes ++ yes.nodes ++ Stmt.nodesOpt no
  | .loop _ cond body => cond.nodes ++ body.nodes
  | .forLoop _ start cond step body =>
    Stmt.nodesOpt start ++ Expr.nodesOpt cond ++ Expr.nodesOpt step ++ body.nodes
  | .leave _ => []
  | .skip _ => []
  | .result _ value => Expr.nodesOpt value
  | .function decl => decl.nodes
  | .classDecl _ _ fields methods => Field.nodesAll fields ++ Function.nodesAll methods

/-- The identities in a list of statements. -/
def Stmt.nodesAll : List Stmt → List NodeId
  | [] => []
  | s :: ss => s.nodes ++ Stmt.nodesAll ss

/-- The identities in a statement that may be absent. -/
def Stmt.nodesOpt : Option Stmt → List NodeId
  | none => []
  | some s => s.nodes

/-- The identities in a function. -/
def Function.nodes : Function → List NodeId
  | .mk _ _ body => Stmt.nodesAll body

/-- The identities in a list of functions. -/
def Function.nodesAll : List Function → List NodeId
  | [] => []
  | f :: fs => f.nodes ++ Function.nodesAll fs

/-- The identities in a list of fields. -/
def Field.nodesAll : List Field → List NodeId
  | [] => []
  | f :: fs => f.nodes ++ Field.nodesAll fs

/-- The identities in a field. -/
def Field.nodes : Field → List NodeId
  | .mk _ value => value.nodes

end

end Treewalk
