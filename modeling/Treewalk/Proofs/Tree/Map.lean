import Treewalk.Tree

/-!
# Trees up to identities and positions

`Expr.map g f` renames every identity in a tree by `g` and moves every position by `f`; nothing else of
the tree changes. Two trees are the same up to identities and positions (`SameTree`) if they agree once
both are blotted out.
-/

namespace Treewalk

/-- A token moved to another place. -/
def Token.move (f : Position → Position) (t : Token) : Token := { t with pos := f t.pos }

@[simp] theorem Token.kind_move (f : Position → Position) (t : Token) : (t.move f).kind = t.kind := rfl

@[simp] theorem Token.lexeme_move (f : Position → Position) (t : Token) :
    (t.move f).lexeme = t.lexeme := rfl

@[simp] theorem Token.pos_move (f : Position → Position) (t : Token) : (t.move f).pos = f t.pos := rfl

mutual

/-- An expression with its identities renamed by `g` and its positions moved by `f`. -/
def Expr.map (g : NodeId → NodeId) (f : Position → Position) : Expr → Expr
  | .literal id t => .literal (g id) (t.move f)
  | .group id t e => .group (g id) (t.move f) (e.map g f)
  | .unary id op t e => .unary (g id) op (t.move f) (e.map g f)
  | .binary id op t l r => .binary (g id) op (t.move f) (l.map g f) (r.map g f)
  | .logical id op t l r => .logical (g id) op (t.move f) (l.map g f) (r.map g f)
  | .ternary id t c y n => .ternary (g id) (t.move f) (c.map g f) (y.map g f) (n.map g f)
  | .ident id t => .ident (g id) (t.move f)
  | .assign id t e => .assign (g id) (t.move f) (e.map g f)
  | .compound id t op u e => .compound (g id) (t.move f) op (u.move f) (e.map g f)
  | .update id t op u b => .update (g id) (t.move f) op (u.move f) b
  | .updateIndex id o t i op u b =>
    .updateIndex (g id) (o.map g f) (t.move f) (i.map g f) op (u.move f) b
  | .updateGet id o t op u b => .updateGet (g id) (o.map g f) (t.move f) op (u.move f) b
  | .call id c t args => .call (g id) (c.map g f) (t.move f) (Expr.mapAll g f args)
  | .lambda id t ps body => .lambda (g id) (t.move f) (ps.map (Token.move f)) (Stmt.mapAll g f body)
  | .array id t es => .array (g id) (t.move f) (Expr.mapAll g f es)
  | .index id o t i => .index (g id) (o.map g f) (t.move f) (i.map g f)
  | .get id o t => .get (g id) (o.map g f) (t.move f)
  | .set id o t e => .set (g id) (o.map g f) (t.move f) (e.map g f)
  | .this id t => .this (g id) (t.move f)

/-- Expressions relabelled one by one. -/
def Expr.mapAll (g : NodeId → NodeId) (f : Position → Position) : List Expr → List Expr
  | [] => []
  | e :: es => e.map g f :: Expr.mapAll g f es

/-- An expression that may be absent, relabelled. -/
def Expr.mapOpt (g : NodeId → NodeId) (f : Position → Position) : Option Expr → Option Expr
  | none => none
  | some e => some (e.map g f)

/-- A statement with its identities renamed by `g` and its positions moved by `f`. -/
def Stmt.map (g : NodeId → NodeId) (f : Position → Position) : Stmt → Stmt
  | .expression p e => .expression (f p) (e.map g f)
  | .print p e => .print (f p) (e.map g f)
  | .declare p t v => .declare (f p) (t.move f) (Expr.mapOpt g f v)
  | .block p body => .block (f p) (Stmt.mapAll g f body)
  | .branch p c y n => .branch (f p) (c.map g f) (y.map g f) (Stmt.mapOpt g f n)
  | .loop p c b => .loop (f p) (c.map g f) (b.map g f)
  | .forLoop p s c u b =>
    .forLoop (f p) (Stmt.mapOpt g f s) (Expr.mapOpt g f c) (Expr.mapOpt g f u) (b.map g f)
  | .leave t => .leave (t.move f)
  | .skip t => .skip (t.move f)
  | .result t v => .result (t.move f) (Expr.mapOpt g f v)
  | .function d => .function (d.map g f)
  | .classDecl p t fs ms => .classDecl (f p) (t.move f) (Field.mapAll g f fs) (Function.mapAll g f ms)

/-- Statements relabelled one by one. -/
def Stmt.mapAll (g : NodeId → NodeId) (f : Position → Position) : List Stmt → List Stmt
  | [] => []
  | s :: ss => s.map g f :: Stmt.mapAll g f ss

/-- A statement that may be absent, relabelled. -/
def Stmt.mapOpt (g : NodeId → NodeId) (f : Position → Position) : Option Stmt → Option Stmt
  | none => none
  | some s => some (s.map g f)

/-- A function relabelled. -/
def Function.map (g : NodeId → NodeId) (f : Position → Position) : Function → Function
  | .mk t ps body => .mk (t.move f) (ps.map (Token.move f)) (Stmt.mapAll g f body)

/-- Functions relabelled one by one. -/
def Function.mapAll (g : NodeId → NodeId) (f : Position → Position) : List Function → List Function
  | [] => []
  | d :: ds => d.map g f :: Function.mapAll g f ds

/-- A field relabelled. -/
def Field.map (g : NodeId → NodeId) (f : Position → Position) : Field → Field
  | .mk t e => .mk (t.move f) (e.map g f)

/-- Fields relabelled one by one. -/
def Field.mapAll (g : NodeId → NodeId) (f : Position → Position) : List Field → List Field
  | [] => []
  | d :: ds => d.map g f :: Field.mapAll g f ds

end

section

variable (g : NodeId → NodeId) (f : Position → Position)

theorem Expr.mapAll_eq_map (es : List Expr) : Expr.mapAll g f es = es.map (Expr.map g f) := by
  induction es with
  | nil => rfl
  | cons e es ih => rw [Expr.mapAll, ih, List.map_cons]

theorem Stmt.mapAll_eq_map (ss : List Stmt) : Stmt.mapAll g f ss = ss.map (Stmt.map g f) := by
  induction ss with
  | nil => rfl
  | cons s ss ih => rw [Stmt.mapAll, ih, List.map_cons]

theorem Function.mapAll_eq_map (ds : List Function) :
    Function.mapAll g f ds = ds.map (Function.map g f) := by
  induction ds with
  | nil => rfl
  | cons d ds ih => rw [Function.mapAll, ih, List.map_cons]

theorem Field.mapAll_eq_map (ds : List Field) : Field.mapAll g f ds = ds.map (Field.map g f) := by
  induction ds with
  | nil => rfl
  | cons d ds ih => rw [Field.mapAll, ih, List.map_cons]

theorem Stmt.mapAll_append (ss ts : List Stmt) :
    Stmt.mapAll g f (ss ++ ts) = Stmt.mapAll g f ss ++ Stmt.mapAll g f ts := by
  simp only [Stmt.mapAll_eq_map, List.map_append]

end

/-! ## Composition -/

theorem Token.move_move (f f' : Position → Position) (t : Token) :
    (t.move f).move f' = t.move (f' ∘ f) := rfl

theorem Token.move_comp_move (f f' : Position → Position) :
    Token.move f' ∘ Token.move f = Token.move (f' ∘ f) := rfl

section

variable (g g' : NodeId → NodeId) (f f' : Position → Position)

mutual

theorem Expr.map_map : ∀ e : Expr, (e.map g f).map g' f' = e.map (g' ∘ g) (f' ∘ f)
  | .literal _ _ | .ident _ _ | .update _ _ _ _ _ | .this _ _ => rfl
  | .group _ _ e | .unary _ _ _ e | .assign _ _ e | .compound _ _ _ _ e
  | .updateGet _ e _ _ _ _ | .get _ e _ => by
    simp only [Expr.map, Expr.map_map e, Token.move_move, Function.comp]
  | .binary _ _ _ l r | .logical _ _ _ l r | .updateIndex _ l _ r _ _ _ | .index _ l _ r
  | .set _ l _ r => by
    simp only [Expr.map, Expr.map_map l, Expr.map_map r, Token.move_move, Function.comp]
  | .ternary _ _ c y n => by
    simp only [Expr.map, Expr.map_map c, Expr.map_map y, Expr.map_map n, Token.move_move,
      Function.comp]
  | .call _ c _ args => by
    simp only [Expr.map, Expr.map_map c, Expr.mapAll_mapAll args, Token.move_move, Function.comp]
  | .lambda _ _ ps body => by
    simp only [Expr.map, Stmt.mapAll_mapAll body, Token.move_move, List.map_map,
      Token.move_comp_move, Function.comp]
  | .array _ _ es => by
    simp only [Expr.map, Expr.mapAll_mapAll es, Token.move_move, Function.comp]

theorem Expr.mapAll_mapAll :
    ∀ es : List Expr, Expr.mapAll g' f' (Expr.mapAll g f es) = Expr.mapAll (g' ∘ g) (f' ∘ f) es
  | [] => rfl
  | e :: es => by simp only [Expr.mapAll, Expr.map_map e, Expr.mapAll_mapAll es]

theorem Expr.mapOpt_mapOpt :
    ∀ e : Option Expr, Expr.mapOpt g' f' (Expr.mapOpt g f e) = Expr.mapOpt (g' ∘ g) (f' ∘ f) e
  | none => rfl
  | some e => by simp only [Expr.mapOpt, Expr.map_map e]

theorem Stmt.map_map : ∀ s : Stmt, (s.map g f).map g' f' = s.map (g' ∘ g) (f' ∘ f)
  | .expression _ e | .print _ e => by simp only [Stmt.map, Expr.map_map e, Function.comp]
  | .declare _ _ v | .result _ v => by
    simp only [Stmt.map, Expr.mapOpt_mapOpt v, Token.move_move, Function.comp]
  | .block _ body => by simp only [Stmt.map, Stmt.mapAll_mapAll body, Function.comp]
  | .branch _ c y n => by
    simp only [Stmt.map, Expr.map_map c, Stmt.map_map y, Stmt.mapOpt_mapOpt n, Function.comp]
  | .loop _ c b => by simp only [Stmt.map, Expr.map_map c, Stmt.map_map b, Function.comp]
  | .forLoop _ s c u b => by
    simp only [Stmt.map, Stmt.mapOpt_mapOpt s, Expr.mapOpt_mapOpt c, Expr.mapOpt_mapOpt u,
      Stmt.map_map b, Function.comp]
  | .leave _ | .skip _ => rfl
  | .function d => by simp only [Stmt.map, Function.map_map d]
  | .classDecl _ _ fs ms => by
    simp only [Stmt.map, Field.mapAll_mapAll fs, Function.mapAll_mapAll ms, Token.move_move,
      Function.comp]

theorem Stmt.mapAll_mapAll :
    ∀ ss : List Stmt, Stmt.mapAll g' f' (Stmt.mapAll g f ss) = Stmt.mapAll (g' ∘ g) (f' ∘ f) ss
  | [] => rfl
  | s :: ss => by simp only [Stmt.mapAll, Stmt.map_map s, Stmt.mapAll_mapAll ss]

theorem Stmt.mapOpt_mapOpt :
    ∀ s : Option Stmt, Stmt.mapOpt g' f' (Stmt.mapOpt g f s) = Stmt.mapOpt (g' ∘ g) (f' ∘ f) s
  | none => rfl
  | some s => by simp only [Stmt.mapOpt, Stmt.map_map s]

theorem Function.map_map : ∀ d : Function, (d.map g f).map g' f' = d.map (g' ∘ g) (f' ∘ f)
  | .mk _ ps body => by
    simp only [Function.map, Stmt.mapAll_mapAll body, Token.move_move, List.map_map,
      Token.move_comp_move]

theorem Function.mapAll_mapAll : ∀ ds : List Function,
    Function.mapAll g' f' (Function.mapAll g f ds) = Function.mapAll (g' ∘ g) (f' ∘ f) ds
  | [] => rfl
  | d :: ds => by simp only [Function.mapAll, Function.map_map d, Function.mapAll_mapAll ds]

theorem Field.map_map : ∀ d : Field, (d.map g f).map g' f' = d.map (g' ∘ g) (f' ∘ f)
  | .mk _ e => by simp only [Field.map, Expr.map_map e, Token.move_move]

theorem Field.mapAll_mapAll :
    ∀ ds : List Field, Field.mapAll g' f' (Field.mapAll g f ds) = Field.mapAll (g' ∘ g) (f' ∘ f) ds
  | [] => rfl
  | d :: ds => by simp only [Field.mapAll, Field.map_map d, Field.mapAll_mapAll ds]

end

end

/-! ## Identity -/

theorem Token.move_id (t : Token) : t.move id = t := rfl

theorem Token.map_move_id (ts : List Token) : ts.map (Token.move id) = ts := List.map_id ts

mutual

theorem Expr.map_id : ∀ e : Expr, e.map id id = e
  | .literal _ _ | .ident _ _ | .update _ _ _ _ _ | .this _ _ => rfl
  | .group _ _ e | .unary _ _ _ e | .assign _ _ e | .compound _ _ _ _ e
  | .updateGet _ e _ _ _ _ | .get _ e _ => by
    simp only [Expr.map, Expr.map_id e, Token.move_id, id_eq]
  | .binary _ _ _ l r | .logical _ _ _ l r | .updateIndex _ l _ r _ _ _ | .index _ l _ r
  | .set _ l _ r => by
    simp only [Expr.map, Expr.map_id l, Expr.map_id r, Token.move_id, id_eq]
  | .ternary _ _ c y n => by
    simp only [Expr.map, Expr.map_id c, Expr.map_id y, Expr.map_id n, Token.move_id, id_eq]
  | .call _ c _ args => by
    simp only [Expr.map, Expr.map_id c, Expr.mapAll_id args, Token.move_id, id_eq]
  | .lambda _ _ ps body => by
    simp only [Expr.map, Stmt.mapAll_id body, Token.move_id, Token.map_move_id, id_eq]
  | .array _ _ es => by simp only [Expr.map, Expr.mapAll_id es, Token.move_id, id_eq]

theorem Expr.mapAll_id : ∀ es : List Expr, Expr.mapAll id id es = es
  | [] => rfl
  | e :: es => by rw [Expr.mapAll, Expr.map_id e, Expr.mapAll_id es]

theorem Expr.mapOpt_id : ∀ v : Option Expr, Expr.mapOpt id id v = v
  | none => rfl
  | some e => by rw [Expr.mapOpt, Expr.map_id e]

theorem Stmt.map_id : ∀ s : Stmt, s.map id id = s
  | .expression _ e | .print _ e => by simp only [Stmt.map, Expr.map_id e, id_eq]
  | .declare _ _ v | .result _ v => by
    simp only [Stmt.map, Expr.mapOpt_id v, Token.move_id, id_eq]
  | .block _ body => by simp only [Stmt.map, Stmt.mapAll_id body, id_eq]
  | .branch _ c y n => by
    simp only [Stmt.map, Expr.map_id c, Stmt.map_id y, Stmt.mapOpt_id n, id_eq]
  | .loop _ c b => by simp only [Stmt.map, Expr.map_id c, Stmt.map_id b, id_eq]
  | .forLoop _ s c u b => by
    simp only [Stmt.map, Stmt.mapOpt_id s, Expr.mapOpt_id c, Expr.mapOpt_id u, Stmt.map_id b, id_eq]
  | .leave _ | .skip _ => rfl
  | .function d => by simp only [Stmt.map, Function.map_id d]
  | .classDecl _ _ fs ms => by
    simp only [Stmt.map, Field.mapAll_id fs, Function.mapAll_id ms, Token.move_id, id_eq]

theorem Stmt.mapAll_id : ∀ ss : List Stmt, Stmt.mapAll id id ss = ss
  | [] => rfl
  | s :: ss => by rw [Stmt.mapAll, Stmt.map_id s, Stmt.mapAll_id ss]

theorem Stmt.mapOpt_id : ∀ s : Option Stmt, Stmt.mapOpt id id s = s
  | none => rfl
  | some s => by rw [Stmt.mapOpt, Stmt.map_id s]

theorem Function.map_id : ∀ d : Function, d.map id id = d
  | .mk _ ps body => by
    simp only [Function.map, Stmt.mapAll_id body, Token.move_id, Token.map_move_id]

theorem Function.mapAll_id : ∀ ds : List Function, Function.mapAll id id ds = ds
  | [] => rfl
  | d :: ds => by rw [Function.mapAll, Function.map_id d, Function.mapAll_id ds]

theorem Field.mapAll_id : ∀ ds : List Field, Field.mapAll id id ds = ds
  | [] => rfl
  | .mk _ e :: ds => by
    rw [Field.mapAll, Field.map, Expr.map_id e, Token.move_id, Field.mapAll_id ds]

end

/-! ## Sameness -/

/-- No identity is told from another. -/
def blank (_ : NodeId) : NodeId := 0

/-- No position is told from another. -/
def nowhere (_ : Position) : Position := {}

/-- The same program up to identities and positions. -/
def SameTree (ss ts : List Stmt) : Prop := Stmt.mapAll blank nowhere ss = Stmt.mapAll blank nowhere ts

theorem SameTree.trans {ss ts us : List Stmt} (h : SameTree ss ts) (h' : SameTree ts us) :
    SameTree ss us := Eq.trans h h'

/-- Relabelling does not leave the tree. -/
theorem sameTree_map (g : NodeId → NodeId) (f : Position → Position) (ss : List Stmt) :
    SameTree (Stmt.mapAll g f ss) ss := Stmt.mapAll_mapAll g _ f _ ss

end Treewalk
