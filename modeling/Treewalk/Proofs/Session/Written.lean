import Treewalk.Proofs.Session.Standard

/-!
# How the list functions are written

The sources of the library are compiled to trees and a table of distances. `ListFunction.isWritten` says what the
tree of each of its three functions is, and at what distance each name in it is found
(`Interpreter.library_written`). What the functions do is proved from that, not from their sources.
-/

namespace Treewalk

/-! ## The syntax of the library -/

/-- The functions of the library. -/
inductive ListFunction where
  | map
  | filter
  | reduce

/-- The name that an expression reads and the distance kept for it, if the expression is one of the first. -/
def Expr.reads (next : NodeId) (table : Distances) : Expr → Option (Bytes × Option Nat)
  | .ident id name => if id < next then some (name.lexeme, table.find? id) else none
  | _ => none

/-- Is this a text of zero? -/
def Literal.isZero : Literal → Bool
  | .number x => x = Float.ofNat 0
  | _ => false

/-- The body of a loop `for (let i = 0; i < len(arr); i++)`. -/
def Stmt.walk? (next : NodeId) (table : Distances) : Stmt → Option Stmt
  | .forLoop _ (some (.declare _ i (some (.literal _ zero))))
      (some (.binary _ (.compare .less) _ index (.call _ length _ [array])))
      (some (.update id name .increment _ false)) body =>
    if i.lexeme = text "i" ∧ zero.literal.isZero ∧ index.reads next table = some (text "i", some 0) ∧
        length.reads next table = some (text "len", none) ∧ array.reads next table = some (text "arr", some 1) ∧
        (Expr.ident id name).reads next table = some (text "i", some 0)
    then some body else none
  | _ => none

namespace ListFunction

/-- The name under which the function is bound. -/
def name : ListFunction → Bytes
  | map => text "map"
  | filter => text "filter"
  | reduce => text "reduce"

/-- The parameter that is called. -/
def callback : ListFunction → Bytes
  | filter => text "pred"
  | map | reduce => text "fn"

/-- The parameters. -/
def params (F : ListFunction) : List Bytes :=
  [text "arr", F.callback] ++ match F with
    | reduce => [text "init"]
    | map | filter => []

/-- The variable that holds what is returned in the end. -/
def result : ListFunction → Bytes
  | map | filter => text "out"
  | reduce => text "acc"

/-- What the result is in the beginning: a new array, or the last argument. -/
def isStart (next : NodeId) (table : Distances) : ListFunction → Expr → Bool
  | map, .array _ _ [] | filter, .array _ _ [] => true
  | reduce, e => e.reads next table = some (text "init", some 0)
  | _, _ => false

/-- What is done in each round of the loop: `push(out, fn(arr[i]));`, `{ if (pred(arr[i])) push(out, arr[i]); }`,
or `acc = fn(acc, arr[i]);`. -/
def isRound (next : NodeId) (table : Distances) : ListFunction → Stmt → Bool
  | map, .expression _ (.call _ push _ [out, .call _ fn _ [.index _ array _ index]]) =>
    push.reads next table = some (text "push", none) ∧ out.reads next table = some (text "out", some 1) ∧
      fn.reads next table = some (text "fn", some 1) ∧ array.reads next table = some (text "arr", some 1) ∧
      index.reads next table = some (text "i", some 0)
  | filter, .block _ [.branch _ (.call _ fn _ [.index _ array _ index])
      (.expression _ (.call _ push _ [out, .index _ array' _ index'])) none] =>
    fn.reads next table = some (text "pred", some 2) ∧ array.reads next table = some (text "arr", some 2) ∧
      index.reads next table = some (text "i", some 1) ∧ push.reads next table = some (text "push", none) ∧
      out.reads next table = some (text "out", some 2) ∧ array'.reads next table = some (text "arr", some 2) ∧
      index'.reads next table = some (text "i", some 1)
  | reduce, .expression _ (.assign id name (.call _ fn _ [acc, .index _ array _ index])) =>
    (Expr.ident id name).reads next table = some (text "acc", some 1) ∧
      fn.reads next table = some (text "fn", some 1) ∧ acc.reads next table = some (text "acc", some 1) ∧
      array.reads next table = some (text "arr", some 1) ∧ index.reads next table = some (text "i", some 0)
  | _, _ => false

/-- The function is written like this: its result gets its first value, the loop runs, and the result is returned. -/
def isWritten (next : NodeId) (table : Distances) (F : ListFunction) : Function → Bool
  | .mk name params [.declare _ result (some start), loop, .result _ (some returned)] =>
    name.lexeme = F.name ∧ params.map Token.lexeme = F.params ∧ result.lexeme = F.result ∧
      F.isStart next table start ∧ (loop.walk? next table).any (F.isRound next table) ∧
      returned.reads next table = some (F.result, some 0)
  | _ => false

end ListFunction

namespace Interpreter

theorem library_written : library.length = 3 ∧ ∀ p ∈ [ListFunction.map, .filter, .reduce].zip library,
    p.1.isWritten assembled.nextId assembled.distances p.2 = true := by decide +kernel

end Interpreter

end Treewalk
