import Treewalk.Tree

/-!
# Trees as parenthesised lists

A tree is shown as a list in parentheses, its operator or keyword first, one top-level statement per
line. The text of a tree is built in front of the text that follows it, so that a tree of any depth takes
time in the length of its text.
-/

namespace Treewalk

namespace Dump

/-- A piece of text: what it makes of the text that follows. -/
abbrev Piece := Bytes → Bytes

/-- A text as a piece. -/
def word (s : Bytes) : Piece := (s ++ ·)

/-- A list with its head, each item after a space. -/
def list (head : Bytes) (items : List Piece) : Piece := fun rest =>
  text "(" ++ (head ++ items.foldr (fun item rest => text " " ++ item rest) (text ")" ++ rest))

/-- The names of parameters as a list. -/
def params (ps : List Token) : Piece :=
  word (text "(" ++ Bytes.join (text " ") (ps.map Token.lexeme) ++ text ")")

/-- The head of a step: `++x` and `x++` are told apart. -/
def stepHead (token : Token) (before : Bool) : Bytes :=
  text (if before then "pre" else "post") ++ token.lexeme

/-- A literal: texts quoted, all else as it was spelled. -/
def literal (token : Token) : Piece :=
  word (match token.literal with
    | .string s => Quoted.string s
    | .none => text "none"
    | .bool _ | .number _ => token.lexeme)

/-- What stands for an absent clause. -/
def absent : Piece := word (text "none")

end Dump

open Dump

mutual

/-- An expression as a list. -/
def Expr.piece : Expr → Piece
  | .literal _ token => literal token
  | .group _ _ inner => list (text "group") [inner.piece]
  | .unary _ _ token operand => list token.lexeme [operand.piece]
  | .binary _ _ token left right => list token.lexeme [left.piece, right.piece]
  | .logical _ _ token left right => list token.lexeme [left.piece, right.piece]
  | .ternary _ _ cond yes no => list (text "?:") [cond.piece, yes.piece, no.piece]
  | .ident _ name => word name.lexeme
  | .assign _ name value => list (text "=") [word name.lexeme, value.piece]
  | .compound _ name _ token value => list token.lexeme [word name.lexeme, value.piece]
  | .update _ name _ token before => list (stepHead token before) [word name.lexeme]
  | .updateIndex _ object _ index _ token before =>
    list (stepHead token before) [list (text "index") [object.piece, index.piece]]
  | .updateGet _ object name _ token before =>
    list (stepHead token before) [list (text ".") [object.piece, word name.lexeme]]
  | .call _ callee _ args => list (text "call") (callee.piece :: Expr.pieces args)
  | .lambda _ _ ps body => list (text "fun") (params ps :: Stmt.pieces body)
  | .array _ _ elements => list (text "array") (Expr.pieces elements)
  | .index _ object _ index => list (text "index") [object.piece, index.piece]
  | .get _ object name => list (text ".") [object.piece, word name.lexeme]
  | .set _ object name value =>
    list (text "=") [list (text ".") [object.piece, word name.lexeme], value.piece]
  | .this _ _ => word (text "this")

/-- Each expression as a list. -/
def Expr.pieces : List Expr → List Piece
  | [] => []
  | e :: es => e.piece :: Expr.pieces es

/-- An expression if there is one. -/
def Expr.pieceOpt : Option Expr → List Piece
  | none => []
  | some e => [e.piece]

/-- A statement as a list; an expression statement is its expression. -/
def Stmt.piece : Stmt → Piece
  | .expression _ e => e.piece
  | .print _ e => list (text "print") [e.piece]
  | .declare _ name value => list (text "let") (word name.lexeme :: Expr.pieceOpt value)
  | .block _ body => list (text "block") (Stmt.pieces body)
  | .branch _ cond yes no => list (text "if") (cond.piece :: yes.piece :: Stmt.pieceOpt no)
  | .loop _ cond body => list (text "while") [cond.piece, body.piece]
  | .forLoop _ start cond step body =>
    list (text "for")
      [(Stmt.pieceOpt start).headD absent, (Expr.pieceOpt cond).headD absent,
        (Expr.pieceOpt step).headD absent, body.piece]
  | .leave _ => list (text "break") []
  | .skip _ => list (text "continue") []
  | .result _ value => list (text "return") (Expr.pieceOpt value)
  | .function decl => decl.piece
  | .classDecl _ name fields methods =>
    list (text "class") (word name.lexeme :: (Field.pieces fields ++ Function.pieces methods))

/-- Each statement as a list. -/
def Stmt.pieces : List Stmt → List Piece
  | [] => []
  | s :: ss => s.piece :: Stmt.pieces ss

/-- A statement if there is one. -/
def Stmt.pieceOpt : Option Stmt → List Piece
  | none => []
  | some s => [s.piece]

/-- A function as a list. -/
def Function.piece : Function → Piece
  | .mk name ps body => list (text "fun") (word name.lexeme :: params ps :: Stmt.pieces body)

/-- Each function as a list. -/
def Function.pieces : List Function → List Piece
  | [] => []
  | f :: fs => f.piece :: Function.pieces fs

/-- A field as a list. -/
def Field.piece : Field → Piece
  | .mk name value => list (text "field") [word name.lexeme, value.piece]

/-- Each field as a list. -/
def Field.pieces : List Field → List Piece
  | [] => []
  | f :: fs => f.piece :: Field.pieces fs

end

/-- The text of a statement. -/
def Stmt.dump (s : Stmt) : Bytes := s.piece []

end Treewalk
