import Treewalk.Tree

/-!
# Equality of trees is decidable

`Expr.same` and its companions compare two trees node by node, with identities, tokens and positions. They say yes
exactly for equal trees (`Expr.same_iff`, `Stmt.same_iff`), so equality of statements is decidable, and so is every
property of a source that is an equation between trees.
-/

namespace Treewalk

deriving instance DecidableEq for Literal, Token

mutual

/-- Are the expressions equal? -/
def Expr.same (a b : Expr) : Bool :=
  match a with
  | .literal i t => match b with | .literal j u => i = j && t = u | _ => false
  | .group i t e => match b with | .group j u e' => i = j && t = u && e.same e' | _ => false
  | .unary i o t e => match b with | .unary j o' u e' => i = j && o = o' && t = u && e.same e' | _ => false
  | .binary i o t l r => match b with
    | .binary j o' u l' r' => i = j && o = o' && t = u && l.same l' && r.same r'
    | _ => false
  | .logical i o t l r => match b with
    | .logical j o' u l' r' => i = j && o = o' && t = u && l.same l' && r.same r'
    | _ => false
  | .ternary i t c y n => match b with
    | .ternary j u c' y' n' => i = j && t = u && c.same c' && y.same y' && n.same n'
    | _ => false
  | .ident i t => match b with | .ident j u => i = j && t = u | _ => false
  | .assign i t e => match b with | .assign j u e' => i = j && t = u && e.same e' | _ => false
  | .compound i t o k e => match b with
    | .compound j u o' k' e' => i = j && t = u && o = o' && k = k' && e.same e'
    | _ => false
  | .update i t o k before => match b with
    | .update j u o' k' before' => i = j && t = u && o = o' && k = k' && before = before'
    | _ => false
  | .updateIndex i e t x o k before => match b with
    | .updateIndex j e' u x' o' k' before' =>
      i = j && e.same e' && t = u && x.same x' && o = o' && k = k' && before = before'
    | _ => false
  | .updateGet i e t o k before => match b with
    | .updateGet j e' u o' k' before' => i = j && e.same e' && t = u && o = o' && k = k' && before = before'
    | _ => false
  | .call i c t args => match b with
    | .call j c' u args' => i = j && c.same c' && t = u && Expr.sameAll args args'
    | _ => false
  | .lambda i t ps body => match b with
    | .lambda j u ps' body' => i = j && t = u && ps = ps' && Stmt.sameAll body body'
    | _ => false
  | .array i t es => match b with | .array j u es' => i = j && t = u && Expr.sameAll es es' | _ => false
  | .index i e t x => match b with | .index j e' u x' => i = j && e.same e' && t = u && x.same x' | _ => false
  | .get i e t => match b with | .get j e' u => i = j && e.same e' && t = u | _ => false
  | .set i e t v => match b with | .set j e' u v' => i = j && e.same e' && t = u && v.same v' | _ => false
  | .this i t => match b with | .this j u => i = j && t = u | _ => false

def Expr.sameAll : List Expr → List Expr → Bool
  | [], [] => true
  | e :: es, e' :: es' => e.same e' && Expr.sameAll es es'
  | _, _ => false

def Expr.sameOpt : Option Expr → Option Expr → Bool
  | none, none => true
  | some e, some e' => e.same e'
  | _, _ => false

/-- Are the statements equal? -/
def Stmt.same (a b : Stmt) : Bool :=
  match a with
  | .expression p e => match b with | .expression q e' => p = q && e.same e' | _ => false
  | .print p e => match b with | .print q e' => p = q && e.same e' | _ => false
  | .declare p t v => match b with | .declare q u v' => p = q && t = u && Expr.sameOpt v v' | _ => false
  | .block p body => match b with | .block q body' => p = q && Stmt.sameAll body body' | _ => false
  | .branch p c y n => match b with
    | .branch q c' y' n' => p = q && c.same c' && y.same y' && Stmt.sameOpt n n'
    | _ => false
  | .loop p c body => match b with | .loop q c' body' => p = q && c.same c' && body.same body' | _ => false
  | .forLoop p start c step body => match b with
    | .forLoop q start' c' step' body' =>
      p = q && Stmt.sameOpt start start' && Expr.sameOpt c c' && Expr.sameOpt step step' && body.same body'
    | _ => false
  | .leave t => match b with | .leave u => t = u | _ => false
  | .skip t => match b with | .skip u => t = u | _ => false
  | .result t v => match b with | .result u v' => t = u && Expr.sameOpt v v' | _ => false
  | .function d => match b with | .function d' => d.same d' | _ => false
  | .classDecl p t fields methods => match b with
    | .classDecl q u fields' methods' =>
      p = q && t = u && Field.sameAll fields fields' && Function.sameAll methods methods'
    | _ => false

def Stmt.sameAll : List Stmt → List Stmt → Bool
  | [], [] => true
  | s :: ss, s' :: ss' => s.same s' && Stmt.sameAll ss ss'
  | _, _ => false

def Stmt.sameOpt : Option Stmt → Option Stmt → Bool
  | none, none => true
  | some s, some s' => s.same s'
  | _, _ => false

def Function.same : Function → Function → Bool
  | .mk t ps body, .mk u ps' body' => t = u && ps = ps' && Stmt.sameAll body body'

def Function.sameAll : List Function → List Function → Bool
  | [], [] => true
  | d :: ds, d' :: ds' => d.same d' && Function.sameAll ds ds'
  | _, _ => false

def Field.sameAll : List Field → List Field → Bool
  | [], [] => true
  | .mk t e :: ds, .mk u e' :: ds' => t = u && e.same e' && Field.sameAll ds ds'
  | _, _ => false

end

mutual

theorem Expr.same_iff (a b : Expr) : a.same b = true ↔ a = b := by
  cases a with
  | literal i t => cases b <;> simp [Expr.same]
  | group i t e => cases b <;> simp [Expr.same, e.same_iff, and_assoc]
  | unary i o t e => cases b <;> simp [Expr.same, e.same_iff, and_assoc]
  | binary i o t l r => cases b <;> simp [Expr.same, l.same_iff, r.same_iff, and_assoc]
  | logical i o t l r => cases b <;> simp [Expr.same, l.same_iff, r.same_iff, and_assoc]
  | ternary i t c y n => cases b <;> simp [Expr.same, c.same_iff, y.same_iff, n.same_iff, and_assoc]
  | ident i t => cases b <;> simp [Expr.same]
  | assign i t e => cases b <;> simp [Expr.same, e.same_iff, and_assoc]
  | compound i t o k e => cases b <;> simp [Expr.same, e.same_iff, and_assoc]
  | update i t o k before => cases b <;> simp [Expr.same, and_assoc]
  | updateIndex i e t x o k before => cases b <;> simp [Expr.same, e.same_iff, x.same_iff, and_assoc]
  | updateGet i e t o k before => cases b <;> simp [Expr.same, e.same_iff, and_assoc]
  | call i c t args => cases b <;> simp [Expr.same, c.same_iff, Expr.sameAll_iff args, and_assoc]
  | lambda i t ps body => cases b <;> simp [Expr.same, Stmt.sameAll_iff body, and_assoc]
  | array i t es => cases b <;> simp [Expr.same, Expr.sameAll_iff es, and_assoc]
  | index i e t x => cases b <;> simp [Expr.same, e.same_iff, x.same_iff, and_assoc]
  | get i e t => cases b <;> simp [Expr.same, e.same_iff, and_assoc]
  | set i e t v => cases b <;> simp [Expr.same, e.same_iff, v.same_iff, and_assoc]
  | this i t => cases b <;> simp [Expr.same]

theorem Expr.sameAll_iff : ∀ as bs : List Expr, Expr.sameAll as bs = true ↔ as = bs
  | [], bs => by cases bs <;> simp [Expr.sameAll]
  | e :: es, bs => by cases bs <;> simp [Expr.sameAll, e.same_iff, Expr.sameAll_iff es]

theorem Expr.sameOpt_iff : ∀ a b : Option Expr, Expr.sameOpt a b = true ↔ a = b
  | none, b => by cases b <;> simp [Expr.sameOpt]
  | some e, b => by cases b <;> simp [Expr.sameOpt, e.same_iff]

theorem Stmt.same_iff (a b : Stmt) : a.same b = true ↔ a = b := by
  cases a with
  | expression p e => cases b <;> simp [Stmt.same, e.same_iff]
  | print p e => cases b <;> simp [Stmt.same, e.same_iff]
  | declare p t v => cases b <;> simp [Stmt.same, Expr.sameOpt_iff v, and_assoc]
  | block p body => cases b <;> simp [Stmt.same, Stmt.sameAll_iff body]
  | branch p c y n => cases b <;> simp [Stmt.same, c.same_iff, y.same_iff, Stmt.sameOpt_iff n, and_assoc]
  | loop p c body => cases b <;> simp [Stmt.same, c.same_iff, body.same_iff, and_assoc]
  | forLoop p start c step body =>
    cases b <;> simp [Stmt.same, Stmt.sameOpt_iff start, Expr.sameOpt_iff c, Expr.sameOpt_iff step, body.same_iff,
      and_assoc]
  | leave t => cases b <;> simp [Stmt.same]
  | skip t => cases b <;> simp [Stmt.same]
  | result t v => cases b <;> simp [Stmt.same, Expr.sameOpt_iff v]
  | function d => cases b <;> simp [Stmt.same, d.same_iff]
  | classDecl p t fields methods =>
    cases b <;> simp [Stmt.same, Field.sameAll_iff fields, Function.sameAll_iff methods, and_assoc]

theorem Stmt.sameAll_iff : ∀ as bs : List Stmt, Stmt.sameAll as bs = true ↔ as = bs
  | [], bs => by cases bs <;> simp [Stmt.sameAll]
  | s :: ss, bs => by cases bs <;> simp [Stmt.sameAll, s.same_iff, Stmt.sameAll_iff ss]

theorem Stmt.sameOpt_iff : ∀ a b : Option Stmt, Stmt.sameOpt a b = true ↔ a = b
  | none, b => by cases b <;> simp [Stmt.sameOpt]
  | some s, b => by cases b <;> simp [Stmt.sameOpt, s.same_iff]

theorem Function.same_iff : ∀ a b : Function, a.same b = true ↔ a = b
  | .mk t ps body, .mk u ps' body' => by simp [Function.same, Stmt.sameAll_iff body, and_assoc]

theorem Function.sameAll_iff : ∀ as bs : List Function, Function.sameAll as bs = true ↔ as = bs
  | [], bs => by cases bs <;> simp [Function.sameAll]
  | d :: ds, bs => by cases bs <;> simp [Function.sameAll, d.same_iff, Function.sameAll_iff ds]

theorem Field.sameAll_iff : ∀ as bs : List Field, Field.sameAll as bs = true ↔ as = bs
  | [], bs => by cases bs <;> simp [Field.sameAll]
  | .mk t e :: ds, [] => by simp [Field.sameAll]
  | .mk t e :: ds, .mk u e' :: ds' => by simp [Field.sameAll, e.same_iff, Field.sameAll_iff ds, and_assoc]

end

instance : DecidableEq Stmt := fun a b => decidable_of_iff _ (a.same_iff b)

end Treewalk
