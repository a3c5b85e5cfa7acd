import Treewalk.Proofs.Tree.Sexp

/-!
# The essence of a tree

The text of a tree leaves out identities and positions, it shows texts by their value and not as they were
spelled, and it shows an absent clause of a loop's header like the literal `none`. What is left of a tree
without these is its essence (`Stmt.essence`).

Main result: the text of a tree depends on its essence only (`Stmt.sexp_essence`).
-/

namespace Treewalk

open Dump (stepHead)

/-! ## Essence -/

/-- A literal without its place, and without its spelling if it is a text. -/
def Token.value (t : Token) : Token :=
  match t.literal with
  | .string _ => { t with lexeme := [], pos := {} }
  | _ => t.move nowhere

/-- Is the expression the literal `none`? -/
def Expr.isNone : Expr → Bool
  | .literal _ t =>
    match t.literal with
    | .none => true
    | _ => false
  | _ => false

/-- Is the statement the literal `none`? -/
def Stmt.isNone : Stmt → Bool
  | .expression _ e => e.isNone
  | _ => false

mutual

/-- The essence of an expression. -/
def Expr.essence : Expr → Expr
  | .literal _ t => .literal 0 t.value
  | .group _ t e => .group 0 (t.move nowhere) e.essence
  | .unary _ op t e => .unary 0 op (t.move nowhere) e.essence
  | .binary _ op t l r => .binary 0 op (t.move nowhere) l.essence r.essence
  | .logical _ op t l r => .logical 0 op (t.move nowhere) l.essence r.essence
  | .ternary _ t c y n => .ternary 0 (t.move nowhere) c.essence y.essence n.essence
  | .ident _ t => .ident 0 (t.move nowhere)
  | .assign _ t e => .assign 0 (t.move nowhere) e.essence
  | .compound _ t op u e => .compound 0 (t.move nowhere) op (u.move nowhere) e.essence
  | .update _ t op u before => .update 0 (t.move nowhere) op (u.move nowhere) before
  | .updateIndex _ o t i op u before =>
    .updateIndex 0 o.essence (t.move nowhere) i.essence op (u.move nowhere) before
  | .updateGet _ o t op u before => .updateGet 0 o.essence (t.move nowhere) op (u.move nowhere) before
  | .call _ c t args => .call 0 c.essence (t.move nowhere) (Expr.essenceAll args)
  | .lambda _ t ps body =>
    .lambda 0 (t.move nowhere) (ps.map (Token.move nowhere)) (Stmt.essenceAll body)
  | .array _ t es => .array 0 (t.move nowhere) (Expr.essenceAll es)
  | .index _ o t i => .index 0 o.essence (t.move nowhere) i.essence
  | .get _ o t => .get 0 o.essence (t.move nowhere)
  | .set _ o t e => .set 0 o.essence (t.move nowhere) e.essence
  | .this _ t => .this 0 (t.move nowhere)

/-- The essence of expressions. -/
def Expr.essenceAll : List Expr → List Expr
  | [] => []
  | e :: es => e.essence :: Expr.essenceAll es

/-- The essence of an expression that may be absent. -/
def Expr.essenceOpt : Option Expr → Option Expr
  | none => none
  | some e => some e.essence

/-- The essence of a statement; a clause of a loop's header that is the literal `none` counts as absent. -/
def Stmt.essence : Stmt → Stmt
  | .expression _ e => .expression {} e.essence
  | .print _ e => .print {} e.essence
  | .declare _ t v => .declare {} (t.move nowhere) (Expr.essenceOpt v)
  | .block _ body => .block {} (Stmt.essenceAll body)
  | .branch _ c y n => .branch {} c.essence y.essence (Stmt.essenceOpt n)
  | .loop _ c b => .loop {} c.essence b.essence
  | .forLoop _ s c u b =>
    .forLoop {} ((Stmt.essenceOpt s).filter fun s => !s.isNone)
      ((Expr.essenceOpt c).filter fun e => !e.isNone) ((Expr.essenceOpt u).filter fun e => !e.isNone)
      b.essence
  | .leave t => .leave (t.move nowhere)
  | .skip t => .skip (t.move nowhere)
  | .result t v => .result (t.move nowhere) (Expr.essenceOpt v)
  | .function d => .function d.essence
  | .classDecl _ t fs ms =>
    .classDecl {} (t.move nowhere) (Field.essenceAll fs) (Function.essenceAll ms)

/-- The essence of statements. -/
def Stmt.essenceAll : List Stmt → List Stmt
  | [] => []
  | s :: ss => s.essence :: Stmt.essenceAll ss

/-- The essence of a statement that may be absent. -/
def Stmt.essenceOpt : Option Stmt → Option Stmt
  | none => none
  | some s => some s.essence

/-- The essence of a function. -/
def Function.essence : Function → Function
  | .mk t ps body => .mk (t.move nowhere) (ps.map (Token.move nowhere)) (Stmt.essenceAll body)

/-- The essence of functions. -/
def Function.essenceAll : List Function → List Function
  | [] => []
  | d :: ds => d.essence :: Function.essenceAll ds

/-- The essence of a field. -/
def Field.essence : Field → Field
  | .mk t e => .mk (t.move nowhere) e.essence

/-- The essence of fields. -/
def Field.essenceAll : List Field → List Field
  | [] => []
  | d :: ds => d.essence :: Field.essenceAll ds

end

theorem Stmt.essenceAll_eq_map (ss : List Stmt) : Stmt.essenceAll ss = ss.map Stmt.essence := by
  induction ss with
  | nil => rfl
  | cons s ss ih => rw [Stmt.essenceAll, ih, List.map_cons]

/-! ## The text depends on the essence only -/

theorem Sexp.literal_value (t : Token) : Sexp.literal t.value = Sexp.literal t := by
  obtain ⟨kind, lexeme, literal, pos⟩ := t
  cases literal <;> rfl

theorem Sexp.params_move (ps : List Token) : Sexp.params (ps.map (Token.move nowhere)) = Sexp.params ps := by
  rw [Sexp.params, List.map_map]
  rfl

theorem Expr.sexp_of_isNone {e : Expr} (h : e.isNone = true) : e.sexp = .absent := by
  cases e with
  | literal _ t =>
    obtain ⟨kind, lexeme, literal, pos⟩ := t
    cases literal with
    | none => rfl
    | bool => cases h
    | number => cases h
    | string => cases h
  | _ => cases h

theorem Stmt.sexp_of_isNone {s : Stmt} (h : s.isNone = true) : s.sexp = .absent := by
  cases s with
  | expression _ e => exact Expr.sexp_of_isNone h
  | _ => cases h

theorem Expr.sexp_clause (v : Option Expr) :
    (Expr.sexpOpt (v.filter fun e => !e.isNone)).headD .absent = (Expr.sexpOpt v).headD .absent := by
  cases v with
  | none => rfl
  | some e =>
    by_cases h : e.isNone = true
    · simp [Option.filter, h, Expr.sexpOpt, Expr.sexp_of_isNone h]
    · simp [Option.filter, h]

theorem Stmt.sexp_clause (v : Option Stmt) :
    (Stmt.sexpOpt (v.filter fun s => !s.isNone)).headD .absent = (Stmt.sexpOpt v).headD .absent := by
  cases v with
  | none => rfl
  | some s =>
    by_cases h : s.isNone = true
    · simp [Option.filter, h, Stmt.sexpOpt, Stmt.sexp_of_isNone h]
    · simp [Option.filter, h]

mutual

theorem Expr.sexp_essence : ∀ e : Expr, e.essence.sexp = e.sexp
  | .literal _ t => Sexp.literal_value t
  | .ident _ _ | .update _ _ _ _ _ | .this _ _ => rfl
  | .group _ _ e | .unary _ _ _ e | .assign _ _ e | .compound _ _ _ _ e | .updateGet _ e _ _ _ _
  | .get _ e _ => by
    simp only [Expr.essence, Expr.sexp, Expr.sexp_essence e, Token.lexeme_move, stepHead]
  | .binary _ _ _ l r | .logical _ _ _ l r | .updateIndex _ l _ r _ _ _ | .index _ l _ r
  | .set _ l _ r => by
    simp only [Expr.essence, Expr.sexp, Expr.sexp_essence l, Expr.sexp_essence r, Token.lexeme_move,
      stepHead]
  | .ternary _ _ c y n => by
    simp only [Expr.essence, Expr.sexp, Expr.sexp_essence c, Expr.sexp_essence y, Expr.sexp_essence n]
  | .call _ c _ args => by
    simp only [Expr.essence, Expr.sexp, Expr.sexp_essence c, Expr.sexps_essence args]
  | .lambda _ _ ps body => by
    simp only [Expr.essence, Expr.sexp, Sexp.params_move, Stmt.sexps_essence body]
  | .array _ _ es => by simp only [Expr.essence, Expr.sexp, Expr.sexps_essence es]

theorem Expr.sexps_essence : ∀ es : List Expr, Expr.sexps (Expr.essenceAll es) = Expr.sexps es
  | [] => rfl
  | e :: es => by simp only [Expr.essenceAll, Expr.sexps, Expr.sexp_essence e, Expr.sexps_essence es]

theorem Expr.sexpOpt_essence : ∀ v : Option Expr, Expr.sexpOpt (Expr.essenceOpt v) = Expr.sexpOpt v
  | none => rfl
  | some e => by simp only [Expr.essenceOpt, Expr.sexpOpt, Expr.sexp_essence e]

/-- Trees of the same essence are shown as the same symbolic expression. -/
theorem Stmt.sexp_essence : ∀ s : Stmt, s.essence.sexp = s.sexp
  | .expression _ e | .print _ e => by simp only [Stmt.essence, Stmt.sexp, Expr.sexp_essence e]
  | .declare _ _ v | .result _ v => by
    simp only [Stmt.essence, Stmt.sexp, Expr.sexpOpt_essence v, Token.lexeme_move]
  | .block _ body => by simp only [Stmt.essence, Stmt.sexp, Stmt.sexps_essence body]
  | .branch _ c y n => by
    simp only [Stmt.essence, Stmt.sexp, Expr.sexp_essence c, Stmt.sexp_essence y, Stmt.sexpOpt_essence n]
  | .loop _ c b => by simp only [Stmt.essence, Stmt.sexp, Expr.sexp_essence c, Stmt.sexp_essence b]
  | .forLoop _ s c u b => by
    simp only [Stmt.essence, Stmt.sexp, Expr.sexp_clause, Stmt.sexp_clause, Stmt.sexpOpt_essence s,
      Expr.sexpOpt_essence c, Expr.sexpOpt_essence u, Stmt.sexp_essence b]
  | .leave _ | .skip _ => rfl
  | .function d => by simp only [Stmt.essence, Stmt.sexp, Function.sexp_essence d]
  | .classDecl _ _ fs ms => by
    simp only [Stmt.essence, Stmt.sexp, Field.sexps_essence fs, Function.sexps_essence ms,
      Token.lexeme_move]

theorem Stmt.sexps_essence : ∀ ss : List Stmt, Stmt.sexps (Stmt.essenceAll ss) = Stmt.sexps ss
  | [] => rfl
  | s :: ss => by simp only [Stmt.essenceAll, Stmt.sexps, Stmt.sexp_essence s, Stmt.sexps_essence ss]

theorem Stmt.sexpOpt_essence : ∀ s : Option Stmt, Stmt.sexpOpt (Stmt.essenceOpt s) = Stmt.sexpOpt s
  | none => rfl
  | some s => by simp only [Stmt.essenceOpt, Stmt.sexpOpt, Stmt.sexp_essence s]

theorem Function.sexp_essence : ∀ d : Function, d.essence.sexp = d.sexp
  | .mk _ ps body => by
    simp only [Function.essence, Function.sexp, Sexp.params_move, Stmt.sexps_essence body,
      Token.lexeme_move]

theorem Function.sexps_essence :
    ∀ ds : List Function, Function.sexps (Function.essenceAll ds) = Function.sexps ds
  | [] => rfl
  | d :: ds => by
    simp only [Function.essenceAll, Function.sexps, Function.sexp_essence d, Function.sexps_essence ds]

theorem Field.sexp_essence : ∀ d : Field, d.essence.sexp = d.sexp
  | .mk t e => by simp only [Field.essence, Field.sexp, Expr.sexp_essence e, Token.lexeme_move]

theorem Field.sexps_essence : ∀ ds : List Field, Field.sexps (Field.essenceAll ds) = Field.sexps ds
  | [] => rfl
  | d :: ds => by simp only [Field.essenceAll, Field.sexps, Field.sexp_essence d, Field.sexps_essence ds]

end

end Treewalk
