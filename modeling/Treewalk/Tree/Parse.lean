import Treewalk.Token.Segment
import Treewalk.Tree

/-!
# Building trees from tokens

The parser reads tokens one or two ahead. A fault ends the declaration it lies in: the fault is
recorded, tokens are dropped up to the next statement boundary, and parsing goes on, so that one run
reports every independent fault. Some faults (too many arguments, a target that cannot be assigned)
are recorded without ending anything.

All parsers share a fuel argument that bounds the depth of their calls. `fuelFor` gives enough of it
for any token list, because no cycle of calls returns to its start without taking a token.
-/

namespace Treewalk

namespace Parse

/-- Calls and parameter lists may be this long. -/
def maxArguments : Nat := 255

/-- Why a parser gave up. -/
inductive Stop where
  | fault (d : Diagnostic)
  | outOfFuel

/-- What parsers share: the tokens left, the next free identity, and the faults recorded, latest
first. -/
structure State where
  rest : List Token
  nextId : NodeId
  faults : List Diagnostic := []

end Parse

open Parse

/-- A parser reads tokens and gives a result, or stops; the state survives a stop. -/
abbrev Parser := EStateM Stop State

namespace Parser

/-! ## Looking at tokens -/

/-- The next token. -/
def peek : Parser Token := fun s => .ok (s.rest.headD { kind := .eof }) s

/-- The token after the next one, or the last one. -/
def peekSecond : Parser Token := fun s =>
  match s.rest with
  | _ :: t :: _ => .ok t s
  | rest => .ok (rest.headD { kind := .eof }) s

/-- Takes the next token; the end of input is never taken. -/
def advance : Parser Token := fun s =>
  match s.rest with
  | [] => .ok { kind := .eof } s
  | t :: rest => if t.kind = .eof then .ok t s else .ok t { s with rest }

/-- A new identity. -/
def freshId : Parser NodeId := fun s => .ok s.nextId { s with nextId := s.nextId + 1 }

/-- The diagnostic of a fault at a token; at the end of input more text may mend it. -/
def faultAt (t : Token) (kind : Diagnostic.Kind) (message : Bytes) : Diagnostic :=
  { kind, place := t.pos.place, lexeme := t.lexeme, message, incomplete := t.kind = .eof }

/-- A token as faults name it. -/
def found (t : Token) : Bytes :=
  if t.kind = .eof then text "end of input" else text "'" ++ t.lexeme ++ text "'"

/-- Records a fault and goes on. -/
def record (d : Diagnostic) : Parser Unit := fun s => .ok () { s with faults := d :: s.faults }

/-- Ends the declaration with a fault. -/
def fail {α : Type} (d : Diagnostic) : Parser α := throw (.fault d)

/-- Ends the declaration because `what` was due. -/
def failExpected {α : Type} (what : Bytes) : Parser α := do
  let t ← peek
  fail (faultAt t .grammar (text "expected " ++ what ++ text ", found " ++ found t))

/-- Takes the next token if it has the given kind; else `what` was due. -/
def expect (kind : Token.Kind) (what : Bytes) : Parser Token := do
  if (← peek).kind = kind then advance else failExpected what

/-- Takes the next token if it has the given kind. -/
def accept (kind : Token.Kind) : Parser Bool := do
  if (← peek).kind = kind then
    let _ ← advance
    return true
  else return false

/-- What `p` reads, unless the next token has the given kind. -/
def unlessAt {α : Type} (kind : Token.Kind) (p : Parser α) : Parser (Option α) := do
  if (← peek).kind = kind then return none else return some (← p)

/-- What `p` reads behind a token of the given kind, if there is such a token. -/
def ifAfter {α : Type} (kind : Token.Kind) (p : Parser α) : Parser (Option α) := do
  if ← accept kind then return some (← p) else return none

/-- Records a fault if a list of arguments or parameters is full and goes on nevertheless. -/
def checkRoom (taken : Nat) (what : Bytes) : Parser Unit := do
  if taken = maxArguments then
    record (faultAt (← peek) .grammar
      (text "can't have more than " ++ Bytes.ofNat maxArguments ++ what))

/-- Checks the room for one more expression before a closing mark: only calls are limited. -/
def checkArguments (closing : Token.Kind) (taken : Nat) : Parser Unit :=
  if closing = .rightParen then checkRoom taken (text " arguments") else pure ()

/-! ## Recovery -/

/-- The kinds that start a statement and so end a recovery. -/
def startsStatement : Token.Kind → Bool
  | .classWord | .funWord | .letWord | .forWord | .ifWord | .whileWord | .printWord | .returnWord
  | .breakWord | .continueWord => true
  | _ => false

/-- Drops tokens until one starts a statement or the one before it, of kind `before`, ended one. -/
def dropToBoundary (before : Token.Kind) : List Token → List Token
  | [] => []
  | t :: rest =>
    if t.kind = .eof || before = .semicolon || startsStatement t.kind then t :: rest
    else dropToBoundary t.kind rest

/-- Drops one token and then up to a statement boundary. -/
def resume : List Token → List Token
  | [] => []
  | t :: rest => if t.kind = .eof then t :: rest else dropToBoundary t.kind rest

/-- Runs a declaration parser; on a fault records it, recovers and gives nothing. -/
def recovering (p : Parser Stmt) : Parser (Option Stmt) := fun s =>
  match p s with
  | .ok stmt s => .ok (some stmt) s
  | .error (.fault d) s => .ok none { s with rest := resume s.rest, faults := d :: s.faults }
  | .error .outOfFuel s => .error .outOfFuel s

/-! ## Operators -/

/-- The precedence levels of two-sided operators, loosest first. -/
inductive Level where
  | or
  | and
  | equality
  | comparison
  | term
  | factor
deriving DecidableEq, Repr

/-- The next tighter level; the operands of the tightest one are prefixed expressions. -/
def Level.tighter : Level → Option Level
  | .or => some .and
  | .and => some .equality
  | .equality => some .comparison
  | .comparison => some .term
  | .term => some .factor
  | .factor => none

/-- What a two-sided operator builds. -/
inductive Joint where
  | logical (op : LogicalOp)
  | binary (op : BinaryOp)
deriving DecidableEq, Repr

/-- The operator that a token is on a given level. -/
def Level.joint? : Level → Token.Kind → Option Joint
  | .or, .orWord => some (.logical .or)
  | .and, .andWord => some (.logical .and)
  | .equality, .equalEqual => some (.binary .equal)
  | .equality, .bangEqual => some (.binary .notEqual)
  | .comparison, .less => some (.binary (.compare .less))
  | .comparison, .lessEqual => some (.binary (.compare .lessEqual))
  | .comparison, .greater => some (.binary (.compare .greater))
  | .comparison, .greaterEqual => some (.binary (.compare .greaterEqual))
  | .term, .plus => some (.binary (.arith .add))
  | .term, .minus => some (.binary (.arith .sub))
  | .factor, .star => some (.binary (.arith .mul))
  | .factor, .slash => some (.binary (.arith .div))
  | _, _ => none

/-- The expression that an operator builds. -/
def Joint.build (j : Joint) (id : NodeId) (token : Token) (left right : Expr) : Expr :=
  match j with
  | .logical op => .logical id op token left right
  | .binary op => .binary id op token left right

/-- The operator of a compound assignment. -/
def compoundOp? : Token.Kind → Option ArithOp
  | .plusAssign => some .add
  | .minusAssign => some .sub
  | .starAssign => some .mul
  | .slashAssign => some .div
  | _ => none

/-- The operator of a step. -/
def stepOp? : Token.Kind → Option StepOp
  | .plusPlus => some .increment
  | .minusMinus => some .decrement
  | _ => none

/-- The operator before an operand. -/
def unaryOp? : Token.Kind → Option UnaryOp
  | .bang => some .not
  | .minus => some .negate
  | _ => none

/-- An assignment to `target`, if it is a variable or a property. A target of another form is recorded
as a fault and stands for the whole. -/
def assignTo (target : Expr) (sign : Token) (value : Expr) : Parser Expr := do
  match target with
  | .ident _ name => return .assign (← freshId) name value
  | .get _ object name => return .set (← freshId) object name value
  | _ =>
    record (faultAt sign .structural (text "invalid assignment target"))
    return target

/-- A compound assignment to `target`, which must be a variable. -/
def compoundTo (target : Expr) (op : ArithOp) (sign : Token) (value : Expr) : Parser Expr := do
  match target with
  | .ident _ name => return .compound (← freshId) name op sign value
  | _ =>
    record (faultAt sign .structural (text "invalid compound assignment target"))
    return target

/-- A step of `target`, if it is a variable, an element or a property. -/
def stepOf (target : Expr) (op : StepOp) (token : Token) (before : Bool) : Parser Expr := do
  match target with
  | .ident _ name => return .update (← freshId) name op token before
  | .index _ object bracket index =>
    return .updateIndex (← freshId) object bracket index op token before
  | .get _ object name => return .updateGet (← freshId) object name op token before
  | _ =>
    record (faultAt token .structural (text "invalid " ++ token.lexeme ++ text " operand"))
    return target

/-! ## Functions -/

/-- What a function is called in faults. -/
inductive Callee where
  | function
  | method
  | lambda
deriving DecidableEq, Repr

/-- The word for a callee. -/
def Callee.word : Callee → Bytes
  | .function => text "function"
  | .method => text "method"
  | .lambda => text "lambda"

/-- What is due before the parameters. -/
def Callee.opening : Callee → Bytes
  | .lambda => text "'(' after 'fun'"
  | c => text "'(' after " ++ c.word ++ text " name"

/-- Parameter names after the first `taken`, latest first in `done`, up to a token that is no comma. -/
def parameterNames (done : List Token) (taken : Nat) : Nat → Parser (List Token)
  | 0 => throw .outOfFuel
  | fuel + 1 => do
    checkRoom taken (text " parameters")
    let name ← expect .identifier (text "parameter name")
    if ← accept .comma then parameterNames (name :: done) (taken + 1) fuel
    else return (name :: done).reverse

/-- The parameter names of a function, none before a closing parenthesis. -/
def parameters (fuel : Nat) : Parser (List Token) := do
  if (← peek).kind = .rightParen then return [] else parameterNames [] 0 fuel

/-- The first clause of a loop's header with its semicolon, given how to read each form of it. -/
def startClause (declared stated : Parser Stmt) : Parser (Option Stmt) := do
  if ← accept .semicolon then return none
  else if (← peek).kind = .letWord then return some (← declared)
  else return some (← stated)

/-- A statement of a keyword and a semicolon. -/
def keywordStmt (make : Token → Stmt) (what : Bytes) : Parser Stmt := do
  let keyword ← advance
  let _ ← expect .semicolon what
  return make keyword

/-! ## Expressions and statements -/

mutual

/-- An expression: an assignment, or looser nothing. -/
def expression : Nat → Parser Expr
  | 0 => throw .outOfFuel
  | fuel + 1 => do
    let target ← ternary fuel
    let sign ← peek
    if sign.kind = .assign then
      let _ ← advance
      assignTo target sign (← expression fuel)
    else match compoundOp? sign.kind with
      | some op =>
        let _ ← advance
        compoundTo target op sign (← expression fuel)
      | none => return target

/-- `cond ? yes : no`, associating to the right. -/
def ternary : Nat → Parser Expr
  | 0 => throw .outOfFuel
  | fuel + 1 => do
    let cond ← chain fuel .or
    let question ← peek
    if question.kind = .question then
      let _ ← advance
      let yes ← expression fuel
      let _ ← expect .colon (text "':' in conditional expression")
      let no ← ternary fuel
      return .ternary (← freshId) question cond yes no
    else return cond

/-- Operands joined by the operators of a level, associating to the left. -/
def chain : Nat → Level → Parser Expr
  | 0, _ => throw .outOfFuel
  | fuel + 1, level => do
    let left ← operand fuel level
    chainRest fuel level left

/-- The rest of a chain whose left part is `left`. -/
def chainRest : Nat → Level → Expr → Parser Expr
  | 0, _, _ => throw .outOfFuel
  | fuel + 1, level, left => do
    let token ← peek
    match level.joint? token.kind with
    | none => return left
    | some joint =>
      let _ ← advance
      let right ← operand fuel level
      let id ← freshId
      chainRest fuel level (joint.build id token left right)

/-- An operand on a level: a chain of the next tighter one. -/
def operand : Nat → Level → Parser Expr
  | 0, _ => throw .outOfFuel
  | fuel + 1, level =>
    match level.tighter with
    | some tighter => chain fuel tighter
    | none => unary fuel

/-- An expression with operators before it. -/
def unary : Nat → Parser Expr
  | 0 => throw .outOfFuel
  | fuel + 1 => do
    let token ← peek
    match unaryOp? token.kind, stepOp? token.kind with
    | some op, _ =>
      let _ ← advance
      let operand ← unary fuel
      return .unary (← freshId) op token operand
    | none, some op =>
      let _ ← advance
      let operand ← unary fuel
      stepOf operand op token true
    | none, none =>
      let inner ← primary fuel
      callRest fuel inner

/-- What follows an expression: calls, properties, indices, and at most one step as the last. -/
def callRest : Nat → Expr → Parser Expr
  | 0, _ => throw .outOfFuel
  | fuel + 1, inner => do
    let token ← peek
    match token.kind with
    | .leftParen =>
      let _ ← advance
      let args ← arguments fuel .rightParen
      let paren ← expect .rightParen (text "')' after arguments")
      let id ← freshId
      callRest fuel (.call id inner paren args)
    | .dot =>
      let _ ← advance
      let name ← expect .identifier (text "property name after '.'")
      let id ← freshId
      callRest fuel (.get id inner name)
    | .leftBracket =>
      let _ ← advance
      let index ← expression fuel
      let _ ← expect .rightBracket (text "']' after index")
      let id ← freshId
      callRest fuel (.index id inner token index)
    | kind =>
      match stepOp? kind with
      | some op =>
        let _ ← advance
        stepOf inner op token false
      | none => return inner

/-- Expressions between commas, none before the closing mark. -/
def arguments : Nat → Token.Kind → Parser (List Expr)
  | 0, _ => throw .outOfFuel
  | fuel + 1, closing => do
    if (← peek).kind = closing then return []
    else argumentsFrom fuel closing [] 0

/-- Expressions between commas after the first `taken`, latest first in `done`. -/
def argumentsFrom : Nat → Token.Kind → List Expr → Nat → Parser (List Expr)
  | 0, _, _, _ => throw .outOfFuel
  | fuel + 1, closing, done, taken => do
    checkArguments closing taken
    let e ← expression fuel
    if ← accept .comma then argumentsFrom fuel closing (e :: done) (taken + 1)
    else return (e :: done).reverse

/-- A literal, a name, a parenthesised expression, an array or a lambda. -/
def primary : Nat → Parser Expr
  | 0 => throw .outOfFuel
  | fuel + 1 => do
    let token ← peek
    match token.kind with
    | .number | .string | .trueWord | .falseWord | .noneWord =>
      let _ ← advance
      return .literal (← freshId) token
    | .thisWord =>
      let _ ← advance
      return .this (← freshId) token
    | .identifier =>
      let _ ← advance
      return .ident (← freshId) token
    | .leftParen =>
      let _ ← advance
      let inner ← expression fuel
      let _ ← expect .rightParen (text "')' after expression")
      return .group (← freshId) token inner
    | .leftBracket =>
      let _ ← advance
      let elements ← arguments fuel .rightBracket
      let _ ← expect .rightBracket (text "']' after array elements")
      return .array (← freshId) token elements
    | .funWord =>
      let _ ← advance
      let (params, body) ← functionTail fuel .lambda
      return .lambda (← freshId) token params body
    | _ => failExpected (text "expression")

/-- The parameters and the body of a function. -/
def functionTail : Nat → Callee → Parser (List Token × List Stmt)
  | 0, _ => throw .outOfFuel
  | fuel + 1, callee => do
    let _ ← expect .leftParen callee.opening
    let params ← parameters fuel
    let _ ← expect .rightParen (text "')' after parameters")
    if (← peek).kind = .leftBrace then
      let (_, body) ← block fuel
      return (params, body)
    else failExpected (text "'\x7b' before " ++ callee.word ++ text " body")

/-- A named function or a method. -/
def function : Nat → Callee → Parser Function
  | 0, _ => throw .outOfFuel
  | fuel + 1, callee => do
    let name ← expect .identifier (callee.word ++ text " name")
    let (params, body) ← functionTail fuel callee
    return .mk name params body

/-- Declarations in braces. Faults inside are recovered inside; only a missing brace ends the block. -/
def block : Nat → Parser (Token × List Stmt)
  | 0 => throw .outOfFuel
  | fuel + 1 => do
    let brace ← expect .leftBrace (text "'\x7b'")
    let body ← blockBody fuel []
    let _ ← expect .rightBrace (text "'\x7d' after block")
    return (brace, body)

/-- Declarations up to a closing brace or the end of input, latest first in `done`. -/
def blockBody : Nat → List Stmt → Parser (List Stmt)
  | 0, _ => throw .outOfFuel
  | fuel + 1, done => do
    let kind := (← peek).kind
    if kind = .rightBrace || kind = .eof then return done.reverse
    else
      match ← recovering (declaration fuel) with
      | some stmt => blockBody fuel (stmt :: done)
      | none => blockBody fuel done

/-- A class, a function, a variable or a statement. -/
def declaration : Nat → Parser Stmt
  | 0 => throw .outOfFuel
  | fuel + 1 => do
    match (← peek).kind with
    | .classWord => classDecl fuel
    | .funWord =>
      if (← peekSecond).kind = .identifier then
        let _ ← advance
        return .function (← function fuel .function)
      else statement fuel
    | .letWord => variableDecl fuel
    | _ => statement fuel

/-- A class with its fields and methods. -/
def classDecl : Nat → Parser Stmt
  | 0 => throw .outOfFuel
  | fuel + 1 => do
    let keyword ← advance
    let name ← expect .identifier (text "class name")
    let _ ← expect .leftBrace (text "'\x7b' before class body")
    let (fields, methods) ← members fuel [] []
    let _ ← expect .rightBrace (text "'\x7d' after class body")
    return .classDecl keyword.pos name fields methods

/-- Fields and methods up to a closing brace or the end of input, latest first. -/
def members : Nat → List Field → List Function → Parser (List Field × List Function)
  | 0, _, _ => throw .outOfFuel
  | fuel + 1, fields, methods => do
    let next ← peek
    if next.kind = .rightBrace || next.kind = .eof then return (fields.reverse, methods.reverse)
    else if next.kind = .identifier && (← peekSecond).kind = .assign then
      let _ ← advance
      let _ ← advance
      let value ← expression fuel
      let _ ← expect .semicolon (text "';' after field declaration")
      members fuel (.mk next value :: fields) methods
    else
      let method ← function fuel .method
      members fuel fields (method :: methods)

/-- The declaration of a variable. -/
def variableDecl : Nat → Parser Stmt
  | 0 => throw .outOfFuel
  | fuel + 1 => do
    let keyword ← advance
    let name ← expect .identifier (text "variable name")
    let value ← ifAfter .assign (expression fuel)
    let _ ← expect .semicolon (text "';' after variable declaration")
    return .declare keyword.pos name value

/-- A statement that declares nothing. -/
def statement : Nat → Parser Stmt
  | 0 => throw .outOfFuel
  | fuel + 1 => do
    match (← peek).kind with
    | .printWord =>
      let keyword ← advance
      let e ← expression fuel
      let _ ← expect .semicolon (text "';' after value")
      return .print keyword.pos e
    | .leftBrace =>
      let (brace, body) ← block fuel
      return .block brace.pos body
    | .ifWord => branch fuel
    | .whileWord =>
      let keyword ← advance
      let _ ← expect .leftParen (text "'(' after 'while'")
      let cond ← expression fuel
      let _ ← expect .rightParen (text "')' after condition")
      let body ← statement fuel
      return .loop keyword.pos cond body
    | .forWord => forLoop fuel
    | .returnWord =>
      let keyword ← advance
      let value ← unlessAt .semicolon (expression fuel)
      let _ ← expect .semicolon (text "';' after return value")
      return .result keyword value
    | .breakWord => keywordStmt .leave (text "';' after 'break'")
    | .continueWord => keywordStmt .skip (text "';' after 'continue'")
    | _ => expressionStmt fuel

/-- A statement chosen by a condition; `else` belongs to the nearest `if`. -/
def branch : Nat → Parser Stmt
  | 0 => throw .outOfFuel
  | fuel + 1 => do
    let keyword ← advance
    let _ ← expect .leftParen (text "'(' after 'if'")
    let cond ← expression fuel
    let _ ← expect .rightParen (text "')' after if condition")
    let yes ← statement fuel
    let no ← ifAfter .elseWord (statement fuel)
    return .branch keyword.pos cond yes no

/-- A loop with a header of three clauses, each of which may be absent. -/
def forLoop : Nat → Parser Stmt
  | 0 => throw .outOfFuel
  | fuel + 1 => do
    let keyword ← advance
    let _ ← expect .leftParen (text "'(' after 'for'")
    let start ← startClause (variableDecl fuel) (expressionStmt fuel)
    let cond ← unlessAt .semicolon (expression fuel)
    let _ ← expect .semicolon (text "';' after loop condition")
    let step ← unlessAt .rightParen (expression fuel)
    let _ ← expect .rightParen (text "')' after for clauses")
    let body ← statement fuel
    return .forLoop keyword.pos start cond step body

/-- An expression as a statement. -/
def expressionStmt : Nat → Parser Stmt
  | 0 => throw .outOfFuel
  | fuel + 1 => do
    let first ← peek
    let e ← expression fuel
    let _ ← expect .semicolon (text "';' after expression")
    return .expression first.pos e

end

/-- Declarations up to the end of input, latest first in `done`. -/
def program : Nat → List Stmt → Parser (List Stmt)
  | 0, _ => throw .outOfFuel
  | fuel + 1, done => do
    if (← peek).kind = .eof then return done.reverse
    else
      match ← recovering (declaration fuel) with
      | some stmt => program fuel (stmt :: done)
      | none => program fuel done

end Parser

/-- What parsing gives: the statements that survived, the faults, and the next free identity. -/
structure Parsed where
  stmts : List Stmt
  faults : List Diagnostic
  nextId : NodeId
  /-- The fuel gave out; it never does with the fuel of `fuelFor`. -/
  exhausted : Bool := false

namespace Parsed

/-- Fuel for a token list: the calls between two tokens are fewer than this factor. -/
def fuelFor (tokens : List Token) : Nat := 40 * (tokens.length + 2)

/-- Tokens closed by the end of input. -/
def closed (tokens : List Token) : List Token :=
  match tokens.getLast? with
  | some t => if t.kind = .eof then tokens else tokens ++ [{ kind := .eof }]
  | none => [{ kind := .eof }]

/-- The statements of a token list; identities are taken from `nextId` on. -/
def ofTokens (nextId : NodeId) (tokens : List Token) : Parsed :=
  let tokens := closed tokens
  match Parser.program (fuelFor tokens) [] { rest := tokens, nextId } with
  | .ok stmts s => { stmts, faults := s.faults.reverse, nextId := s.nextId }
  | .error _ s => { stmts := [], faults := s.faults.reverse, nextId := s.nextId, exhausted := true }

/-- The statements of a source; faults of the scanner come before those of the parser. -/
def ofSource (nextId : NodeId) (source : Bytes) : Parsed :=
  let scanned := Token.scan source
  let parsed := ofTokens nextId scanned.tokens
  { parsed with faults := scanned.faults ++ parsed.faults }

end Parsed

end Treewalk
