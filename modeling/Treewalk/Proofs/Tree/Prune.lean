import Treewalk.Proofs.Tree.Map

/-!
# Trees without dead code

A statement that leaves its list never passes control on, and the check flags the statement behind it
(`Stmt.exits`, `Scope.unreachable`). `Stmt.pruneAll` cuts every list of statements in a tree off there: the
flagged statement goes, and all statements behind it in the same list. Two programs that are the same tree
once both are pruned differ in dead code only.
-/

namespace Treewalk

mutual

/-- An expression without the dead code in its functions. -/
def Expr.prune : Expr → Expr
  | .literal id t => .literal id t
  | .group id t e => .group id t e.prune
  | .unary id op t e => .unary id op t e.prune
  | .binary id op t l r => .binary id op t l.prune r.prune
  | .logical id op t l r => .logical id op t l.prune r.prune
  | .ternary id t c y n => .ternary id t c.prune y.prune n.prune
  | .ident id t => .ident id t
  | .assign id t e => .assign id t e.prune
  | .compound id t op u e => .compound id t op u e.prune
  | .update id t op u b => .update id t op u b
  | .updateIndex id o t i op u b => .updateIndex id o.prune t i.prune op u b
  | .updateGet id o t op u b => .updateGet id o.prune t op u b
  | .call id c t args => .call id c.prune t (Expr.pruneAll args)
  | .lambda id t ps body => .lambda id t ps (Stmt.pruneAll body)
  | .array id t es => .array id t (Expr.pruneAll es)
  | .index id o t i => .index id o.prune t i.prune
  | .get id o t => .get id o.prune t
  | .set id o t e => .set id o.prune t e.prune
  | .this id t => .this id t

/-- Expressions pruned one by one. -/
def Expr.pruneAll : List Expr → List Expr
  | [] => []
  | e :: es => e.prune :: Expr.pruneAll es

/-- An expression that may be absent, pruned. -/
def Expr.pruneOpt : Option Expr → Option Expr
  | none => none
  | some e => some e.prune

/-- A statement without the dead code in it. -/
def Stmt.prune : Stmt → Stmt
  | .expression p e => .expression p e.prune
  | .print p e => .print p e.prune
  | .declare p t v => .declare p t (Expr.pruneOpt v)
  | .block p body => .block p (Stmt.pruneAll body)
  | .branch p c y n => .branch p c.prune y.prune (Stmt.pruneOpt n)
  | .loop p c b => .loop p c.prune b.prune
  | .forLoop p s c u b => .forLoop p (Stmt.pruneOpt s) (Expr.pruneOpt c) (Expr.pruneOpt u) b.prune
  | .leave t => .leave t
  | .skip t => .skip t
  | .result t v => .result t (Expr.pruneOpt v)
  | .function d => .function d.prune
  | .classDecl p t fs ms => .classDecl p t (Field.pruneAll fs) (Function.pruneAll ms)

/-- Statements up to the first that leaves the list, each pruned. -/
def Stmt.pruneAll : List Stmt → List Stmt
  | [] => []
  | s :: ss => s.prune :: if s.exits then [] else Stmt.pruneAll ss

/-- A statement that may be absent, pruned. -/
def Stmt.pruneOpt : Option Stmt → Option Stmt
  | none => none
  | some s => some s.prune

/-- A function without the dead code in it. -/
def Function.prune : Function → Function
  | .mk t ps body => .mk t ps (Stmt.pruneAll body)

/-- Functions pruned one by one. -/
def Function.pruneAll : List Function → List Function
  | [] => []
  | d :: ds => d.prune :: Function.pruneAll ds

/-- A field without the dead code in its value. -/
def Field.prune : Field → Field
  | .mk t e => .mk t e.prune

/-- Fields pruned one by one. -/
def Field.pruneAll : List Field → List Field
  | [] => []
  | d :: ds => d.prune :: Field.pruneAll ds

end

theorem Function.pruneAll_eq_map (ds : List Function) : Function.pruneAll ds = ds.map Function.prune := by
  induction ds with
  | nil => rfl
  | cons d ds ih => rw [Function.pruneAll, ih, List.map_cons]

end Treewalk
