import Treewalk.Proofs.Tree.Map
import Treewalk.Tree.Parse

/-!
# The grammar

Two definitions say what the parser is for, without a word about how it goes about it.

`Stmt.WellFormedAll` is the shape of trees: operands bind at least as tightly as their operator asks
(`Expr.rank`), tokens have the kinds that go with their operators, names and literals, argument and
parameter lists are not too long, bodies of branches and loops declare nothing, and an `else` belongs to
the nearest `if` that has none.

`Stmt.ReadsAll` writes a tree out: it relates a tree to the tokens and the next free identity before it
and behind it, one rule for each form of tree. The fields and methods of a class may be mixed in any
order. Identities are given out when a form is complete; a variable or property that turns out to be
the target of an assignment or a step has used one up by then, which no tree holds any more.
-/

namespace Treewalk

open Treewalk.Parser Treewalk.Parse

/-! ## Precedence -/

/-- How tightly a level of two-sided operators binds. -/
def Parser.Level.rank : Level → Nat
  | .or => 2
  | .and => 3
  | .equality => 4
  | .comparison => 5
  | .term => 6
  | .factor => 7

/-- The level of an operator between two operands. -/
def BinaryOp.level : BinaryOp → Level
  | .equal | .notEqual => .equality
  | .compare _ => .comparison
  | .arith .add | .arith .sub => .term
  | .arith .mul | .arith .div => .factor

/-- The level of an operator that may skip its right operand. -/
def LogicalOp.level : LogicalOp → Level
  | .or => .or
  | .and => .and

/-- How tightly an expression binds: assignments loosest, then conditionals, two-sided operators by
their level, operators in front, steps behind, calls and accesses, and self-contained forms. -/
def Expr.rank : Expr → Nat
  | .assign .. | .compound .. | .set .. => 0
  | .ternary .. => 1
  | .logical _ op _ _ _ => op.level.rank
  | .binary _ op _ _ _ => op.level.rank
  | .unary .. => 8
  | .update _ _ _ _ before | .updateIndex _ _ _ _ _ _ before | .updateGet _ _ _ _ _ before =>
    if before then 8 else 9
  | .call .. | .index .. | .get .. => 10
  | .literal .. | .group .. | .ident .. | .lambda .. | .array .. | .this .. => 11

/-- The kinds of tokens that stand for a value. -/
def Token.Kind.isLiteral : Token.Kind → Bool
  | .number | .string | .trueWord | .falseWord | .noneWord => true
  | _ => false

/-! ## Shape -/

/-- A statement that declares a name; it is no body of a branch or loop. -/
def Stmt.isDeclaration : Stmt → Bool
  | .declare .. | .function .. | .classDecl .. => true
  | _ => false

/-- Would an `else` behind the statement belong to an `if` in it? -/
def Stmt.opensIf : Stmt → Bool
  | .branch _ _ _ none => true
  | .branch _ _ _ (some no) => no.opensIf
  | .loop _ _ body => body.opensIf
  | .forLoop _ _ _ _ body => body.opensIf
  | _ => false

/-- The forms that start a loop's header. -/
def Stmt.isClause : Stmt → Bool
  | .declare .. | .expression .. => true
  | _ => false

/-- Parameters are names, and not too many. -/
def WellFormedParams (params : List Token) : Prop :=
  (∀ p ∈ params, p.kind = .identifier) ∧ params.length ≤ maxArguments

mutual

/-- The shape of expressions. -/
def Expr.WellFormed : Expr → Prop
  | .literal _ t => t.kind.isLiteral
  | .group _ t e => t.kind = .leftParen ∧ e.WellFormed
  | .unary _ op t e => unaryOp? t.kind = some op ∧ e.WellFormed ∧ 8 ≤ e.rank
  | .binary _ op t l r => op.level.joint? t.kind = some (.binary op) ∧
    (l.WellFormed ∧ op.level.rank ≤ l.rank) ∧ (r.WellFormed ∧ op.level.rank < r.rank)
  | .logical _ op t l r => op.level.joint? t.kind = some (.logical op) ∧
    (l.WellFormed ∧ op.level.rank ≤ l.rank) ∧ (r.WellFormed ∧ op.level.rank < r.rank)
  | .ternary _ t c y n => t.kind = .question ∧ (c.WellFormed ∧ 1 < c.rank) ∧ y.WellFormed ∧
    (n.WellFormed ∧ 1 ≤ n.rank)
  | .ident _ t => t.kind = .identifier
  | .assign _ t e => t.kind = .identifier ∧ e.WellFormed
  | .compound _ t op u e => t.kind = .identifier ∧ compoundOp? u.kind = some op ∧ e.WellFormed
  | .update _ t op u _ => t.kind = .identifier ∧ stepOp? u.kind = some op
  | .updateIndex _ o t i op u _ => t.kind = .leftBracket ∧ stepOp? u.kind = some op ∧
    (o.WellFormed ∧ 10 ≤ o.rank) ∧ i.WellFormed
  | .updateGet _ o t op u _ => t.kind = .identifier ∧ stepOp? u.kind = some op ∧
    (o.WellFormed ∧ 10 ≤ o.rank)
  | .call _ c t args => t.kind = .rightParen ∧ (c.WellFormed ∧ 10 ≤ c.rank) ∧
    Expr.WellFormedAll args ∧ args.length ≤ maxArguments
  | .lambda _ t ps body => t.kind = .funWord ∧ WellFormedParams ps ∧ Stmt.WellFormedAll body
  | .array _ t es => t.kind = .leftBracket ∧ Expr.WellFormedAll es
  | .index _ o t i => t.kind = .leftBracket ∧ (o.WellFormed ∧ 10 ≤ o.rank) ∧ i.WellFormed
  | .get _ o t => t.kind = .identifier ∧ (o.WellFormed ∧ 10 ≤ o.rank)
  | .set _ o t e => t.kind = .identifier ∧ (o.WellFormed ∧ 10 ≤ o.rank) ∧ e.WellFormed
  | .this _ t => t.kind = .thisWord

/-- The shape of lists of expressions. -/
def Expr.WellFormedAll : List Expr → Prop
  | [] => True
  | e :: es => e.WellFormed ∧ Expr.WellFormedAll es

/-- The shape of expressions that may be absent. -/
def Expr.WellFormedOpt : Option Expr → Prop
  | none => True
  | some e => e.WellFormed

/-- The shape of statements. -/
def Stmt.WellFormed : Stmt → Prop
  | .expression _ e => e.WellFormed
  | .print _ e => e.WellFormed
  | .declare _ t v => t.kind = .identifier ∧ Expr.WellFormedOpt v
  | .block _ body => Stmt.WellFormedAll body
  | .branch _ c y n => c.WellFormed ∧ (y.WellFormed ∧ y.isDeclaration = false) ∧
    Stmt.WellFormedElse y.opensIf n
  | .loop _ c b => c.WellFormed ∧ (b.WellFormed ∧ b.isDeclaration = false)
  | .forLoop _ s c u b => Stmt.WellFormedClause s ∧ Expr.WellFormedOpt c ∧ Expr.WellFormedOpt u ∧
    (b.WellFormed ∧ b.isDeclaration = false)
  | .leave t => t.kind = .breakWord
  | .skip t => t.kind = .continueWord
  | .result t v => t.kind = .returnWord ∧ Expr.WellFormedOpt v
  | .function d => d.WellFormed
  | .classDecl _ t fs ms => t.kind = .identifier ∧ Field.WellFormedAll fs ∧ Function.WellFormedAll ms

/-- The shape of lists of statements. -/
def Stmt.WellFormedAll : List Stmt → Prop
  | [] => True
  | s :: ss => s.WellFormed ∧ Stmt.WellFormedAll ss

/-- The shape of what follows `else`: behind a statement that could take the `else` itself there is
none. -/
def Stmt.WellFormedElse (taken : Bool) : Option Stmt → Prop
  | none => True
  | some s => taken = false ∧ s.WellFormed ∧ s.isDeclaration = false

/-- The shape of the first clause of a loop's header. -/
def Stmt.WellFormedClause : Option Stmt → Prop
  | none => True
  | some s => s.isClause = true ∧ s.WellFormed

/-- The shape of functions and methods. -/
def Function.WellFormed : Function → Prop
  | .mk t ps body => t.kind = .identifier ∧ WellFormedParams ps ∧ Stmt.WellFormedAll body

/-- The shape of lists of functions. -/
def Function.WellFormedAll : List Function → Prop
  | [] => True
  | d :: ds => d.WellFormed ∧ Function.WellFormedAll ds

/-- The shape of fields. -/
def Field.WellFormed : Field → Prop
  | .mk t e => t.kind = .identifier ∧ e.WellFormed

/-- The shape of lists of fields. -/
def Field.WellFormedAll : List Field → Prop
  | [] => True
  | d :: ds => d.WellFormed ∧ Field.WellFormedAll ds

end

/-! ## Writing trees out -/

/-- The tokens to come and the next free identity. -/
abbrev Cursor := List Token × NodeId

/-- Names behind the first one, each after a comma. -/
inductive MoreParams : List Token → List Token → List Token → Prop
  | nil {ts} : MoreParams [] ts ts
  | cons {comma p ps ts us} (hcomma : comma.kind = .comma) (h : MoreParams ps ts us) :
    MoreParams (p :: ps) (comma :: p :: ts) us

/-- Names between commas. -/
inductive Params : List Token → List Token → List Token → Prop
  | nil {ts} : Params [] ts ts
  | cons {p ps ts us} (h : MoreParams ps ts us) : Params (p :: ps) (p :: ts) us

mutual

/-- An expression written out. -/
inductive Expr.Reads : Expr → Cursor → Cursor → Prop
  | literal {n t ts} : Expr.Reads (.literal n t) (t :: ts, n) (ts, n + 1)
  | group {n m t close e ts us} (h : e.Reads (ts, n) (close :: us, m))
    (hclose : close.kind = .rightParen) : Expr.Reads (.group m t e) (t :: ts, n) (us, m + 1)
  | unary {n m op t e ts us} (h : e.Reads (ts, n) (us, m)) :
    Expr.Reads (.unary m op t e) (t :: ts, n) (us, m + 1)
  | binary {c m n op t l r ts us} (hl : l.Reads c (t :: ts, m)) (hr : r.Reads (ts, m) (us, n)) :
    Expr.Reads (.binary n op t l r) c (us, n + 1)
  | logical {c m n op t l r ts us} (hl : l.Reads c (t :: ts, m)) (hr : r.Reads (ts, m) (us, n)) :
    Expr.Reads (.logical n op t l r) c (us, n + 1)
  | ternary {c i j k t colon cond yes no ts us vs} (hc : cond.Reads c (t :: ts, i))
    (hy : yes.Reads (ts, i) (colon :: us, j)) (hcolon : colon.kind = .colon)
    (hn : no.Reads (us, j) (vs, k)) : Expr.Reads (.ternary k t cond yes no) c (vs, k + 1)
  | ident {n t ts} : Expr.Reads (.ident n t) (t :: ts, n) (ts, n + 1)
  | assign {n m t sign e ts us} (hsign : sign.kind = .assign) (h : e.Reads (ts, n + 1) (us, m)) :
    Expr.Reads (.assign m t e) (t :: sign :: ts, n) (us, m + 1)
  | compound {n m t op sign e ts us} (h : e.Reads (ts, n + 1) (us, m)) :
    Expr.Reads (.compound m t op sign e) (t :: sign :: ts, n) (us, m + 1)
  | updateBefore {n t op u ts} :
    Expr.Reads (.update (n + 1) t op u true) (u :: t :: ts, n) (ts, n + 2)
  | updateAfter {n t op u ts} :
    Expr.Reads (.update (n + 1) t op u false) (t :: u :: ts, n) (ts, n + 2)
  | updateIndexBefore {n m k o t i op u close ts us vs} (ho : o.Reads (ts, n) (t :: us, m))
    (hi : i.Reads (us, m) (close :: vs, k)) (hclose : close.kind = .rightBracket) :
    Expr.Reads (.updateIndex (k + 1) o t i op u true) (u :: ts, n) (vs, k + 2)
  | updateIndexAfter {c m k o t i op u close us vs} (ho : o.Reads c (t :: us, m))
    (hi : i.Reads (us, m) (close :: u :: vs, k)) (hclose : close.kind = .rightBracket) :
    Expr.Reads (.updateIndex (k + 1) o t i op u false) c (vs, k + 2)
  | updateGetBefore {n m o t op u dot ts us} (ho : o.Reads (ts, n) (dot :: t :: us, m))
    (hdot : dot.kind = .dot) : Expr.Reads (.updateGet (m + 1) o t op u true) (u :: ts, n) (us, m + 2)
  | updateGetAfter {c m o t op u dot us} (ho : o.Reads c (dot :: t :: u :: us, m))
    (hdot : dot.kind = .dot) : Expr.Reads (.updateGet (m + 1) o t op u false) c (us, m + 2)
  | call {c m k callee t args opening us vs} (hc : callee.Reads c (opening :: us, m))
    (hopening : opening.kind = .leftParen) (ha : Expr.ReadsList args (us, m) (t :: vs, k)) :
    Expr.Reads (.call k callee t args) c (vs, k + 1)
  | lambda {n m t ps body ts us} (h : ReadsTail ps body (ts, n) (us, m)) :
    Expr.Reads (.lambda m t ps body) (t :: ts, n) (us, m + 1)
  | array {n m t es close ts us} (h : Expr.ReadsList es (ts, n) (close :: us, m))
    (hclose : close.kind = .rightBracket) : Expr.Reads (.array m t es) (t :: ts, n) (us, m + 1)
  | index {c m k o t i close us vs} (ho : o.Reads c (t :: us, m))
    (hi : i.Reads (us, m) (close :: vs, k)) (hclose : close.kind = .rightBracket) :
    Expr.Reads (.index k o t i) c (vs, k + 1)
  | get {c m o t dot us} (ho : o.Reads c (dot :: t :: us, m)) (hdot : dot.kind = .dot) :
    Expr.Reads (.get m o t) c (us, m + 1)
  | set {c m k o t e dot sign us vs} (ho : o.Reads c (dot :: t :: sign :: us, m))
    (hdot : dot.kind = .dot) (hsign : sign.kind = .assign) (he : e.Reads (us, m + 1) (vs, k)) :
    Expr.Reads (.set k o t e) c (vs, k + 1)
  | this {n t ts} : Expr.Reads (.this n t) (t :: ts, n) (ts, n + 1)

/-- Expressions between commas. -/
inductive Expr.ReadsList : List Expr → Cursor → Cursor → Prop
  | nil {c} : Expr.ReadsList [] c c
  | cons {e es c c' c''} (he : e.Reads c c') (hes : Expr.ReadsMore es c' c'') :
    Expr.ReadsList (e :: es) c c''

/-- Expressions behind the first one, each after a comma. -/
inductive Expr.ReadsMore : List Expr → Cursor → Cursor → Prop
  | nil {c} : Expr.ReadsMore [] c c
  | cons {e es comma ts n c c'} (hcomma : comma.kind = .comma) (he : e.Reads (ts, n) c)
    (hes : Expr.ReadsMore es c c') : Expr.ReadsMore (e :: es) (comma :: ts, n) c'

/-- An expression that may be absent. -/
inductive Expr.ReadsOpt : Option Expr → Cursor → Cursor → Prop
  | none {c} : Expr.ReadsOpt none c c
  | some {e c c'} (he : e.Reads c c') : Expr.ReadsOpt (some e) c c'

/-- A statement written out; it is located at its first token. -/
inductive Stmt.Reads : Stmt → Cursor → Cursor → Prop
  | expression {e first semi ts us n m} (he : e.Reads (first :: ts, n) (semi :: us, m))
    (hsemi : semi.kind = .semicolon) : Stmt.Reads (.expression first.pos e) (first :: ts, n) (us, m)
  | print {e word semi ts us n m} (hword : word.kind = .printWord)
    (he : e.Reads (ts, n) (semi :: us, m)) (hsemi : semi.kind = .semicolon) :
    Stmt.Reads (.print word.pos e) (word :: ts, n) (us, m)
  | declare {t v word semi ts us n m} (hword : word.kind = .letWord)
    (hv : Expr.ReadsValue v (ts, n) (semi :: us, m)) (hsemi : semi.kind = .semicolon) :
    Stmt.Reads (.declare word.pos t v) (word :: t :: ts, n) (us, m)
  | block {body brace last ts us n m} (hbrace : brace.kind = .leftBrace)
    (hb : Stmt.ReadsAll body (ts, n) (last :: us, m)) (hlast : last.kind = .rightBrace) :
    Stmt.Reads (.block brace.pos body) (brace :: ts, n) (us, m)
  | branch {cond yes no word opening close ts us n m c c'} (hword : word.kind = .ifWord)
    (hopening : opening.kind = .leftParen) (hc : cond.Reads (ts, n) (close :: us, m))
    (hclose : close.kind = .rightParen) (hy : yes.Reads (us, m) c) (hn : Stmt.ReadsElse no c c') :
    Stmt.Reads (.branch word.pos cond yes no) (word :: opening :: ts, n) c'
  | loop {cond body word opening close ts us n m c} (hword : word.kind = .whileWord)
    (hopening : opening.kind = .leftParen) (hc : cond.Reads (ts, n) (close :: us, m))
    (hclose : close.kind = .rightParen) (hb : body.Reads (us, m) c) :
    Stmt.Reads (.loop word.pos cond body) (word :: opening :: ts, n) c
  | forLoop {start cond step body word opening semi close ts us vs n m k c c'}
    (hword : word.kind = .forWord) (hopening : opening.kind = .leftParen)
    (hs : Stmt.ReadsClause start (ts, n) c) (hc : Expr.ReadsOpt cond c (semi :: us, m))
    (hsemi : semi.kind = .semicolon) (hu : Expr.ReadsOpt step (us, m) (close :: vs, k))
    (hclose : close.kind = .rightParen) (hb : body.Reads (vs, k) c') :
    Stmt.Reads (.forLoop word.pos start cond step body) (word :: opening :: ts, n) c'
  | leave {t semi ts n} (hsemi : semi.kind = .semicolon) :
    Stmt.Reads (.leave t) (t :: semi :: ts, n) (ts, n)
  | skip {t semi ts n} (hsemi : semi.kind = .semicolon) :
    Stmt.Reads (.skip t) (t :: semi :: ts, n) (ts, n)
  | result {t v semi ts us n m} (hv : Expr.ReadsOpt v (ts, n) (semi :: us, m))
    (hsemi : semi.kind = .semicolon) : Stmt.Reads (.result t v) (t :: ts, n) (us, m)
  | function {d word ts n c} (hword : word.kind = .funWord) (hd : d.Reads (ts, n) c) :
    Stmt.Reads (.function d) (word :: ts, n) c
  | classDecl {t fs ms word brace last ts us n m} (hword : word.kind = .classWord)
    (hbrace : brace.kind = .leftBrace) (hm : ReadsMembers fs ms (ts, n) (last :: us, m))
    (hlast : last.kind = .rightBrace) :
    Stmt.Reads (.classDecl word.pos t fs ms) (word :: t :: brace :: ts, n) (us, m)

/-- Statements one after the other. -/
inductive Stmt.ReadsAll : List Stmt → Cursor → Cursor → Prop
  | nil {c} : Stmt.ReadsAll [] c c
  | cons {s ss c c' c''} (hs : s.Reads c c') (hss : Stmt.ReadsAll ss c' c'') :
    Stmt.ReadsAll (s :: ss) c c''

/-- An `else` with its statement, if there is one. -/
inductive Stmt.ReadsElse : Option Stmt → Cursor → Cursor → Prop
  | none {c} : Stmt.ReadsElse none c c
  | some {s word ts n c} (hword : word.kind = .elseWord) (hs : s.Reads (ts, n) c) :
    Stmt.ReadsElse (some s) (word :: ts, n) c

/-- The first clause of a loop's header with its semicolon. -/
inductive Stmt.ReadsClause : Option Stmt → Cursor → Cursor → Prop
  | none {semi ts n} (hsemi : semi.kind = .semicolon) : Stmt.ReadsClause none (semi :: ts, n) (ts, n)
  | some {s c c'} (hs : s.Reads c c') : Stmt.ReadsClause (some s) c c'

/-- The value of a variable with its sign, if there is one. -/
inductive Expr.ReadsValue : Option Expr → Cursor → Cursor → Prop
  | none {c} : Expr.ReadsValue none c c
  | some {e sign ts n c} (hsign : sign.kind = .assign) (he : e.Reads (ts, n) c) :
    Expr.ReadsValue (some e) (sign :: ts, n) c

/-- The parameters and the body of a function. -/
inductive ReadsTail : List Token → List Stmt → Cursor → Cursor → Prop
  | mk {ps body opening close brace last ts us vs n m} (hopening : opening.kind = .leftParen)
    (hp : Params ps ts (close :: brace :: us)) (hclose : close.kind = .rightParen)
    (hbrace : brace.kind = .leftBrace) (hb : Stmt.ReadsAll body (us, n) (last :: vs, m))
    (hlast : last.kind = .rightBrace) : ReadsTail ps body (opening :: ts, n) (vs, m)

/-- A function from its name on. -/
inductive Function.Reads : Function → Cursor → Cursor → Prop
  | mk {t ps body ts n c} (h : ReadsTail ps body (ts, n) c) :
    Function.Reads (.mk t ps body) (t :: ts, n) c

/-- The fields and methods of a class, mixed in any order. -/
inductive ReadsMembers : List Field → List Function → Cursor → Cursor → Prop
  | nil {c} : ReadsMembers [] [] c c
  | field {t e sign semi fs ms ts us n m c} (hsign : sign.kind = .assign)
    (he : e.Reads (ts, n) (semi :: us, m)) (hsemi : semi.kind = .semicolon)
    (h : ReadsMembers fs ms (us, m) c) : ReadsMembers (.mk t e :: fs) ms (t :: sign :: ts, n) c
  | method {d fs ms c c' c''} (hd : d.Reads c c') (h : ReadsMembers fs ms c' c'') :
    ReadsMembers fs (d :: ms) c c''

end

/-! ## First tokens -/

/-- The first of some tokens; nothing is as good as the end of input. -/
def Token.first (ts : List Token) : Token := ts.headD { kind := .eof }

@[simp] theorem Token.first_cons (t : Token) (ts : List Token) : Token.first (t :: ts) = t := rfl

/-- The kinds of tokens that an expression starts with. -/
def Token.Kind.startsExpression : Token.Kind → Bool
  | .number | .string | .trueWord | .falseWord | .noneWord | .thisWord | .identifier | .leftParen
  | .leftBracket | .funWord | .bang | .minus | .plusPlus | .minusMinus => true
  | _ => false

/-- Tokens that start like an expression: `fun` only starts one if a parenthesis follows. -/
def StartsExpression (ts : List Token) : Prop :=
  ∃ t rest, ts = t :: rest ∧ t.kind.startsExpression = true ∧
    (t.kind = .funWord → ∃ opening rest', rest = opening :: rest' ∧ opening.kind = .leftParen)

theorem startsExpression_cons {t : Token} {rest : List Token} (h : t.kind.startsExpression = true)
    (hfun : t.kind ≠ .funWord) : StartsExpression (t :: rest) :=
  ⟨t, rest, rfl, h, fun ht => absurd ht hfun⟩

theorem startsExpression_ident {t : Token} {rest : List Token} (h : t.kind = .identifier) :
    StartsExpression (t :: rest) :=
  startsExpression_cons (by rw [h]; rfl) (by rw [h]; decide)

theorem startsExpression_of_unaryOp {t : Token} {rest : List Token} {op : UnaryOp}
    (h : unaryOp? t.kind = some op) : StartsExpression (t :: rest) := by
  unfold unaryOp? at h
  split at h <;> simp_all [startsExpression_cons, Token.Kind.startsExpression]

theorem startsExpression_of_stepOp {t : Token} {rest : List Token} {op : StepOp}
    (h : stepOp? t.kind = some op) : StartsExpression (t :: rest) := by
  unfold stepOp? at h
  split at h <;> simp_all [startsExpression_cons, Token.Kind.startsExpression]

theorem startsExpression_of_isLiteral {t : Token} {rest : List Token} (h : t.kind.isLiteral = true) :
    StartsExpression (t :: rest) := by
  refine startsExpression_cons ?_ ?_
  · revert h
    cases t.kind <;> simp [Token.Kind.isLiteral, Token.Kind.startsExpression]
  · intro he
    simp [he, Token.Kind.isLiteral] at h

/-- The first token of an expression is that of its leftmost part. -/
theorem Expr.reads_starts : ∀ (e : Expr) {c c' : Cursor}, e.Reads c c' → e.WellFormed →
    StartsExpression c.1
  | .literal _ _, _, _, h, hw => by
    cases h
    exact startsExpression_of_isLiteral hw
  | .group _ _ _, _, _, h, hw => by
    cases h
    exact startsExpression_cons (by rw [hw.1]; rfl) (by rw [hw.1]; decide)
  | .unary _ _ _ _, _, _, h, hw => by
    cases h
    exact startsExpression_of_unaryOp hw.1
  | .ident _ _, _, _, h, hw => by
    cases h
    exact startsExpression_ident hw
  | .assign _ _ _, _, _, h, hw => by
    cases h
    exact startsExpression_ident hw.1
  | .compound _ _ _ _ _, _, _, h, hw => by
    cases h
    exact startsExpression_ident hw.1
  | .update _ _ _ _ _, _, _, h, hw => by
    cases h with
    | updateBefore => exact startsExpression_of_stepOp hw.2
    | updateAfter => exact startsExpression_ident hw.1
  | .lambda _ _ _ _, _, _, h, hw => by
    cases h with
    | lambda h =>
      cases h with
      | mk hopening => exact ⟨_, _, rfl, by rw [hw.1]; rfl, fun _ => ⟨_, _, rfl, hopening⟩⟩
  | .array _ _ _, _, _, h, hw => by
    cases h
    exact startsExpression_cons (by rw [hw.1]; rfl) (by rw [hw.1]; decide)
  | .this _ t, _, _, h, hw => by
    have ht : t.kind = .thisWord := hw
    cases h
    exact startsExpression_cons (by rw [ht]; rfl) (by rw [ht]; decide)
  | .binary _ _ _ l _, _, _, h, hw => by
    cases h with
    | binary hl _ => exact Expr.reads_starts l hl hw.2.1.1
  | .logical _ _ _ l _, _, _, h, hw => by
    cases h with
    | logical hl _ => exact Expr.reads_starts l hl hw.2.1.1
  | .ternary _ _ cond _ _, _, _, h, hw => by
    cases h with
    | ternary hc _ _ _ => exact Expr.reads_starts cond hc hw.2.1.1
  | .updateIndex _ o _ _ _ _ _, _, _, h, hw => by
    cases h with
    | updateIndexBefore => exact startsExpression_of_stepOp hw.2.1
    | updateIndexAfter ho _ _ => exact Expr.reads_starts o ho hw.2.2.1.1
  | .updateGet _ o _ _ _ _, _, _, h, hw => by
    cases h with
    | updateGetBefore => exact startsExpression_of_stepOp hw.2.1
    | updateGetAfter ho _ => exact Expr.reads_starts o ho hw.2.2.1
  | .call _ callee _ _, _, _, h, hw => by
    cases h with
    | call hc _ _ => exact Expr.reads_starts callee hc hw.2.1.1
  | .index _ o _ _, _, _, h, hw => by
    cases h with
    | index ho _ _ => exact Expr.reads_starts o ho hw.2.1.1
  | .get _ o _, _, _, h, hw => by
    cases h with
    | get ho _ => exact Expr.reads_starts o ho hw.2.1
  | .set _ o _ _, _, _, h, hw => by
    cases h with
    | set ho _ _ _ => exact Expr.reads_starts o ho hw.2.1.1

theorem Expr.Reads.starts {e : Expr} {c c' : Cursor} (h : e.Reads c c') (hw : e.WellFormed) :
    StartsExpression c.1 := Expr.reads_starts e h hw

/-! ## Spelling -/

/-- The tokens `ts` spell the statements, whatever their identities and positions are. -/
def Spells (stmts : List Stmt) (ts : List Token) : Prop :=
  ∃ stmts' n m, SameTree stmts' stmts ∧ Stmt.ReadsAll stmts' (ts, n) ([], m)

end Treewalk
