import Treewalk.Proofs.Scope.Numbering
import Treewalk.Proofs.Scope.Check
import Treewalk.Proofs.Tree.Map
import Treewalk.Console
import Treewalk.Failure
import Mathlib.Data.List.Forall2

/-!
# Trees that differ in identities and positions only

Two trees are alike if they have the same form and the same words, the identities of uses of names
correspond, and so do the positions. What corresponds to what is a parameter (`Likeness`); identities that
are no uses of names are free.

Main result: a tree is like its relabelling, if identities and positions correspond to their images
(`Stmt.likeAll_map`).
-/

namespace Treewalk

/-- What may differ between two runs. -/
structure Likeness where
  /-- The identities of uses of names that correspond. -/
  ids : NodeId → NodeId → Prop
  /-- The positions that correspond. -/
  places : Position → Position → Prop
  /-- The faults that the host may raise, which are the same in both runs. -/
  given : RuntimeError → Prop
  /-- What is known of the two diagnostics streams. -/
  streams : Sink → Sink → Prop := fun _ _ => True
  /-- A place in a source corresponds to a place in a source. -/
  line : ∀ p p', places p p' → (p'.line = 0 ↔ p.line = 0)
  /-- Writes that nobody looks at leave what is known of the streams. -/
  logged : ∀ s s', streams s s' → ∀ bytes, streams (s.write bytes) (s'.write bytes) := by
    exact fun _ _ _ _ => trivial

/-- The same word at a corresponding position. -/
def Token.Like (L : Likeness) (t t' : Token) : Prop := ∃ p, L.places t.pos p ∧ t' = { t with pos := p }

theorem Token.like_of_move {L : Likeness} {t t' : Token} (hplaces : L.places t.pos t'.pos)
    (h : t.move nowhere = t'.move nowhere) : t.Like L t' := by
  refine ⟨t'.pos, hplaces, ?_⟩
  cases t
  cases t'
  cases h
  rfl

theorem Token.likeAll_of_move {L : Likeness} {ts : List Token} : ∀ {ts' : List Token},
    (∀ t ∈ ts, ∀ t' ∈ ts', L.places t.pos t'.pos) →
      ts.map (Token.move nowhere) = ts'.map (Token.move nowhere) → List.Forall₂ (Token.Like L) ts ts' := by
  induction ts with
  | nil =>
    intro ts' _ h
    obtain rfl := List.map_eq_nil_iff.1 h.symm
    exact .nil
  | cons t ts ih =>
    intro ts' hplaces h
    obtain ⟨t', rest, rfl, ht, hrest⟩ := List.map_eq_cons_iff.1 h.symm
    refine .cons (Token.like_of_move (hplaces t List.mem_cons_self t' List.mem_cons_self) ht.symm) (ih ?_ hrest.symm)
    exact fun u hu u' hu' => hplaces u (List.mem_cons_of_mem _ hu) u' (List.mem_cons_of_mem _ hu')

section

variable (L : Likeness)

mutual

/-- Expressions that differ in identities and positions only. -/
inductive Expr.Like : Expr → Expr → Prop
  | literal {id id' t t'} (ht : t.Like L t') : Expr.Like (.literal id t) (.literal id' t')
  | group {id id' t t' e e'} (ht : t.Like L t') (he : Expr.Like e e') :
    Expr.Like (.group id t e) (.group id' t' e')
  | unary {id id' op t t' e e'} (ht : t.Like L t') (he : Expr.Like e e') :
    Expr.Like (.unary id op t e) (.unary id' op t' e')
  | binary {id id' op t t' l l' r r'} (ht : t.Like L t') (hl : Expr.Like l l') (hr : Expr.Like r r') :
    Expr.Like (.binary id op t l r) (.binary id' op t' l' r')
  | logical {id id' op t t' l l' r r'} (ht : t.Like L t') (hl : Expr.Like l l') (hr : Expr.Like r r') :
    Expr.Like (.logical id op t l r) (.logical id' op t' l' r')
  | ternary {id id' t t' c c' y y' n n'} (ht : t.Like L t') (hc : Expr.Like c c') (hy : Expr.Like y y')
    (hn : Expr.Like n n') : Expr.Like (.ternary id t c y n) (.ternary id' t' c' y' n')
  | ident {id id' t t'} (hid : L.ids id id') (ht : t.Like L t') : Expr.Like (.ident id t) (.ident id' t')
  | assign {id id' t t' e e'} (hid : L.ids id id') (ht : t.Like L t') (he : Expr.Like e e') :
    Expr.Like (.assign id t e) (.assign id' t' e')
  | compound {id id' t t' op u u' e e'} (hid : L.ids id id') (ht : t.Like L t') (hu : u.Like L u')
    (he : Expr.Like e e') : Expr.Like (.compound id t op u e) (.compound id' t' op u' e')
  | update {id id' t t' op u u' b} (hid : L.ids id id') (ht : t.Like L t') (hu : u.Like L u') :
    Expr.Like (.update id t op u b) (.update id' t' op u' b)
  | updateIndex {id id' o o' t t' i i' op u u' b} (ho : Expr.Like o o') (ht : t.Like L t')
    (hi : Expr.Like i i') (hu : u.Like L u') :
    Expr.Like (.updateIndex id o t i op u b) (.updateIndex id' o' t' i' op u' b)
  | updateGet {id id' o o' t t' op u u' b} (ho : Expr.Like o o') (ht : t.Like L t') (hu : u.Like L u') :
    Expr.Like (.updateGet id o t op u b) (.updateGet id' o' t' op u' b)
  | call {id id' c c' t t' args args'} (hc : Expr.Like c c') (ht : t.Like L t')
    (hargs : List.Forall₂ Expr.Like args args') : Expr.Like (.call id c t args) (.call id' c' t' args')
  | lambda {id id' t t' ps ps' body body'} (ht : t.Like L t') (hps : List.Forall₂ (Token.Like L) ps ps')
    (hbody : List.Forall₂ Stmt.Like body body') :
    Expr.Like (.lambda id t ps body) (.lambda id' t' ps' body')
  | array {id id' t t' es es'} (ht : t.Like L t') (hes : List.Forall₂ Expr.Like es es') :
    Expr.Like (.array id t es) (.array id' t' es')
  | index {id id' o o' t t' i i'} (ho : Expr.Like o o') (ht : t.Like L t') (hi : Expr.Like i i') :
    Expr.Like (.index id o t i) (.index id' o' t' i')
  | get {id id' o o' t t'} (ho : Expr.Like o o') (ht : t.Like L t') : Expr.Like (.get id o t) (.get id' o' t')
  | set {id id' o o' t t' e e'} (ho : Expr.Like o o') (ht : t.Like L t') (he : Expr.Like e e') :
    Expr.Like (.set id o t e) (.set id' o' t' e')
  | this {id id' t t'} (hid : L.ids id id') (ht : t.Like L t') : Expr.Like (.this id t) (.this id' t')

/-- Statements that differ in identities and positions only. -/
inductive Stmt.Like : Stmt → Stmt → Prop
  | expression {p p' e e'} (he : Expr.Like e e') : Stmt.Like (.expression p e) (.expression p' e')
  | print {p p' e e'} (hp : L.places p p') (he : Expr.Like e e') : Stmt.Like (.print p e) (.print p' e')
  | declare {p p' t t' v v'} (ht : t.Like L t') (hv : Option.Rel Expr.Like v v') :
    Stmt.Like (.declare p t v) (.declare p' t' v')
  | block {p p' body body'} (hbody : List.Forall₂ Stmt.Like body body') :
    Stmt.Like (.block p body) (.block p' body')
  | branch {p p' c c' y y' n n'} (hc : Expr.Like c c') (hy : Stmt.Like y y')
    (hn : Option.Rel Stmt.Like n n') : Stmt.Like (.branch p c y n) (.branch p' c' y' n')
  | loop {p p' c c' b b'} (hc : Expr.Like c c') (hb : Stmt.Like b b') :
    Stmt.Like (.loop p c b) (.loop p' c' b')
  | forLoop {p p' s s' c c' u u' b b'} (hs : Option.Rel Stmt.Like s s') (hc : Option.Rel Expr.Like c c')
    (hu : Option.Rel Expr.Like u u') (hb : Stmt.Like b b') :
    Stmt.Like (.forLoop p s c u b) (.forLoop p' s' c' u' b')
  | leave {t t'} : Stmt.Like (.leave t) (.leave t')
  | skip {t t'} : Stmt.Like (.skip t) (.skip t')
  | result {t t' v v'} (hv : Option.Rel Expr.Like v v') : Stmt.Like (.result t v) (.result t' v')
  | function {d d'} (hd : Function.Like d d') : Stmt.Like (.function d) (.function d')
  | classDecl {p p' t t' fs fs' ms ms'} (ht : t.Like L t') (hfs : List.Forall₂ Field.Like fs fs')
    (hms : List.Forall₂ Function.Like ms ms') : Stmt.Like (.classDecl p t fs ms) (.classDecl p' t' fs' ms')

/-- Functions that differ in identities and positions only. -/
inductive Function.Like : Function → Function → Prop
  | mk {t t' ps ps' body body'} (ht : t.Like L t') (hps : List.Forall₂ (Token.Like L) ps ps')
    (hbody : List.Forall₂ Stmt.Like body body') : Function.Like (.mk t ps body) (.mk t' ps' body')

/-- Fields that differ in identities and positions only; no fault is reported at the name of a field. -/
inductive Field.Like : Field → Field → Prop
  | mk {t t' e e'} (ht : t'.lexeme = t.lexeme) (he : Expr.Like e e') : Field.Like (.mk t e) (.mk t' e')

end

end

/-! ## Relabelled trees -/

/-- Identities of uses and positions in a piece correspond to their images. -/
def Fragment.Corresponds (L : Likeness) (g : NodeId → NodeId) (f : Position → Position) (p : Fragment) :
    Prop :=
  ∃ Γ, Everywhere (fun _ q => q.Built (fun t => L.places t.pos (f t.pos)) ∧
    ∀ e id name, q = .expr e → e.use? = some (id, name) → L.ids id (g id)) Γ p

section

variable {L : Likeness} {g : NodeId → NodeId} {f : Position → Position}

namespace Fragment.Corresponds

theorem part {p q : Fragment} (h : p.Corresponds L g f) (hpart : ∀ Γ, ∃ Δ, (Δ, q) ∈ p.parts Γ) :
    q.Corresponds L g f := by
  obtain ⟨Γ, h⟩ := h
  obtain ⟨Δ, hmem⟩ := hpart Γ
  exact ⟨Δ, fun _ _ hbelow => h _ _ ((Below.part .here hmem).trans hbelow)⟩

theorem operand {e e' : Expr} (h : (Fragment.expr e).Corresponds L g f)
    (hpart : ∀ Γ, (Γ, Fragment.expr e') ∈ e.parts Γ) : (Fragment.expr e').Corresponds L g f :=
  h.part fun Γ => ⟨Γ, hpart Γ⟩

theorem token {e : Expr} (h : (Fragment.expr e).Corresponds L g f) {t : Token} (ht : t ∈ e.tokens) :
    t.Like L (t.move f) := by
  obtain ⟨Γ, h⟩ := h
  exact ⟨f t.pos, h.here.1 t ht, rfl⟩

theorem word {s : Stmt} (h : (Fragment.stmt s).Corresponds L g f) {t : Token} (ht : t ∈ s.tokens) :
    t.Like L (t.move f) := by
  obtain ⟨Γ, h⟩ := h
  exact ⟨f t.pos, h.here.1.1 t ht, rfl⟩

theorem pos {s : Stmt} (h : (Fragment.stmt s).Corresponds L g f) : L.places s.pos (f s.pos) := by
  obtain ⟨Γ, h⟩ := h
  obtain ⟨t, ht, hpos⟩ := h.here.1.2
  rw [← hpos]
  exact ht

theorem use {e : Expr} (h : (Fragment.expr e).Corresponds L g f) {id : NodeId} {name : Bytes}
    (huse : e.use? = some (id, name)) : L.ids id (g id) := by
  obtain ⟨Γ, h⟩ := h
  exact h.here.2 e id name rfl huse

end Fragment.Corresponds

theorem Token.likeAll_move {ts : List Token} (h : ∀ t ∈ ts, t.Like L (t.move f)) :
    List.Forall₂ (Token.Like L) ts (ts.map (Token.move f)) := by
  induction ts with
  | nil => exact .nil
  | cons t ts ih =>
    exact .cons (h t List.mem_cons_self) (ih fun u hu => h u (List.mem_cons_of_mem _ hu))

mutual

theorem Expr.like_map : ∀ (e : Expr),
    (Fragment.expr e).Corresponds L g f → e.Like L (e.map g f)
  | .literal _ t, h => .literal (h.token (by simp [Expr.tokens]))
  | .group _ t e, h =>
    .group (h.token (by simp [Expr.tokens]))
      (Expr.like_map e (h.operand (by simp [Expr.parts])))
  | .unary _ _ t e, h =>
    .unary (h.token (by simp [Expr.tokens]))
      (Expr.like_map e (h.operand (by simp [Expr.parts])))
  | .binary _ _ t l r, h =>
    .binary (h.token (by simp [Expr.tokens]))
      (Expr.like_map l (h.operand (by simp [Expr.parts])))
      (Expr.like_map r (h.operand (by simp [Expr.parts])))
  | .logical _ _ t l r, h =>
    .logical (h.token (by simp [Expr.tokens]))
      (Expr.like_map l (h.operand (by simp [Expr.parts])))
      (Expr.like_map r (h.operand (by simp [Expr.parts])))
  | .ternary _ t c y n, h =>
    .ternary (h.token (by simp [Expr.tokens]))
      (Expr.like_map c (h.operand (by simp [Expr.parts])))
      (Expr.like_map y (h.operand (by simp [Expr.parts])))
      (Expr.like_map n (h.operand (by simp [Expr.parts])))
  | .ident _ t, h =>
    .ident (h.use rfl) (h.token (by simp [Expr.tokens]))
  | .assign _ t e, h =>
    .assign (h.use rfl) (h.token (by simp [Expr.tokens]))
      (Expr.like_map e (h.operand (by simp [Expr.parts])))
  | .compound _ t _ u e, h =>
    .compound (h.use rfl) (h.token (by simp [Expr.tokens]))
      (h.token (by simp [Expr.tokens]))
      (Expr.like_map e (h.operand (by simp [Expr.parts])))
  | .update _ t _ u _, h =>
    .update (h.use rfl) (h.token (by simp [Expr.tokens]))
      (h.token (by simp [Expr.tokens]))
  | .updateIndex _ o t i _ u _, h =>
    .updateIndex (Expr.like_map o (h.operand (by simp [Expr.parts])))
      (h.token (by simp [Expr.tokens]))
      (Expr.like_map i (h.operand (by simp [Expr.parts])))
      (h.token (by simp [Expr.tokens]))
  | .updateGet _ o t _ u _, h =>
    .updateGet (Expr.like_map o (h.operand (by simp [Expr.parts])))
      (h.token (by simp [Expr.tokens]))
      (h.token (by simp [Expr.tokens]))
  | .call _ c t args, h =>
    .call (Expr.like_map c (h.operand (by simp [Expr.parts])))
      (h.token (by simp [Expr.tokens]))
      (Expr.likeAll_map args fun e he => h.operand (by simp [Expr.parts, he]))
  | .lambda _ t ps body, h =>
    .lambda (h.token (by simp [Expr.tokens]))
      (Token.likeAll_move fun p hp => h.token (by simp [Expr.tokens, hp]))
      (Stmt.likeAll_map body (h.part (by simp [Fragment.parts, Expr.parts])))
  | .array _ t es, h =>
    .array (h.token (by simp [Expr.tokens]))
      (Expr.likeAll_map es fun e he => h.operand (by simp [Expr.parts, he]))
  | .index _ o t i, h =>
    .index (Expr.like_map o (h.operand (by simp [Expr.parts])))
      (h.token (by simp [Expr.tokens]))
      (Expr.like_map i (h.operand (by simp [Expr.parts])))
  | .get _ o t, h =>
    .get (Expr.like_map o (h.operand (by simp [Expr.parts])))
      (h.token (by simp [Expr.tokens]))
  | .set _ o t e, h =>
    .set (Expr.like_map o (h.operand (by simp [Expr.parts])))
      (h.token (by simp [Expr.tokens]))
      (Expr.like_map e (h.operand (by simp [Expr.parts])))
  | .this _ t, h => .this (h.use rfl) (h.token (by simp [Expr.tokens]))

theorem Expr.likeAll_map : ∀ (es : List Expr),
    (∀ e ∈ es, (Fragment.expr e).Corresponds L g f) →
      List.Forall₂ (Expr.Like L) es (Expr.mapAll g f es)
  | [], _ => .nil
  | e :: es, h =>
    .cons (Expr.like_map e (h e List.mem_cons_self))
      (Expr.likeAll_map es fun e' he' => h e' (List.mem_cons_of_mem _ he'))

theorem Expr.likeOpt_map : ∀ (v : Option Expr),
    (∀ e ∈ v, (Fragment.expr e).Corresponds L g f) →
      Option.Rel (Expr.Like L) v (Expr.mapOpt g f v)
  | none, _ => .none
  | some e, h => .some (Expr.like_map e (h e rfl))

theorem Stmt.like_map : ∀ (s : Stmt),
    (Fragment.stmt s).Corresponds L g f → s.Like L (s.map g f)
  | .expression _ e, h => .expression (Expr.like_map e (h.part (by simp [Fragment.parts, Stmt.parts])))
  | .print _ e, h => .print h.pos (Expr.like_map e (h.part (by simp [Fragment.parts, Stmt.parts])))
  | .declare _ t v, h =>
    .declare (h.word (by simp [Stmt.tokens]))
      (Expr.likeOpt_map v fun e he => h.part (by
        rw [Option.mem_def] at he
        simp [Fragment.parts, Stmt.parts, he]))
  | .block _ body, h => .block (Stmt.likeAll_map body (h.part (by simp [Fragment.parts, Stmt.parts])))
  | .branch _ c y n, h =>
    .branch (Expr.like_map c (h.part (by simp [Fragment.parts, Stmt.parts])))
      (Stmt.like_map y (h.part (by simp [Fragment.parts, Stmt.parts])))
      (Stmt.likeOpt_map n fun s hs => h.part (by
        rw [Option.mem_def] at hs
        simp [Fragment.parts, Stmt.parts, hs]))
  | .loop _ c b, h =>
    .loop (Expr.like_map c (h.part (by simp [Fragment.parts, Stmt.parts])))
      (Stmt.like_map b (h.part (by simp [Fragment.parts, Stmt.parts])))
  | .forLoop _ s c u b, h =>
    .forLoop
      (Stmt.likeOpt_map s fun s' hs => h.part (by
        rw [Option.mem_def] at hs
        simp [Fragment.parts, Stmt.parts, hs]))
      (Expr.likeOpt_map c fun e he => h.part (by
        rw [Option.mem_def] at he
        simp [Fragment.parts, Stmt.parts, he]))
      (Expr.likeOpt_map u fun e he => h.part (by
        rw [Option.mem_def] at he
        simp [Fragment.parts, Stmt.parts, he]))
      (Stmt.like_map b (h.part (by simp [Fragment.parts, Stmt.parts])))
  | .leave _, _ => .leave
  | .skip _, _ => .skip
  | .result _ v, h =>
    .result (Expr.likeOpt_map v fun e he => h.part (by
      rw [Option.mem_def] at he
      simp [Fragment.parts, Stmt.parts, he]))
  | .function (.mk t ps body), h =>
    .function (.mk (h.word List.mem_cons_self)
      (Token.likeAll_move fun _ hp => h.word (List.mem_cons_of_mem _ hp))
      (Stmt.likeAll_map body (h.part fun _ => ⟨_, List.mem_cons_self⟩)))
  | .classDecl _ t fs ms, h =>
    .classDecl (h.word (by simp [Stmt.tokens]))
      (Field.likeAll_map fs fun d hd => h.part fun _ => ⟨_, List.mem_append_left _ (List.mem_map_of_mem hd)⟩)
      (Function.likeAll_map ms fun d hd =>
        ⟨fun t ht => h.word (List.mem_cons_of_mem _ (List.mem_flatMap.2 ⟨d, hd, ht⟩)),
          h.part fun _ => ⟨_, List.mem_append_right _ (List.mem_map_of_mem hd)⟩⟩)

theorem Stmt.likeAll_map : ∀ (ss : List Stmt),
    (Fragment.list ss).Corresponds L g f →
      List.Forall₂ (Stmt.Like L) ss (Stmt.mapAll g f ss)
  | [], _ => .nil
  | s :: ss, h =>
    .cons (Stmt.like_map s (h.part (by simp [Fragment.parts])))
      (Stmt.likeAll_map ss (h.part fun Γ => ⟨Γ.after s, List.mem_cons_of_mem _ List.mem_cons_self⟩))

theorem Field.likeAll_map : ∀ (ds : List Field), (∀ d ∈ ds, (Fragment.expr d.value).Corresponds L g f) →
    List.Forall₂ (Field.Like L) ds (Field.mapAll g f ds)
  | [], _ => .nil
  | .mk t e :: ds, h =>
    .cons (.mk rfl (Expr.like_map e (h (.mk t e) List.mem_cons_self)))
      (Field.likeAll_map ds fun d hd => h d (List.mem_cons_of_mem _ hd))

theorem Function.likeAll_map : ∀ (ds : List Function),
    (∀ d ∈ ds, (∀ t ∈ d.name :: d.params, t.Like L (t.move f)) ∧
      (Fragment.list d.body).Corresponds L g f) →
    List.Forall₂ (Function.Like L) ds (Function.mapAll g f ds)
  | [], _ => .nil
  | .mk t ps body :: ds, h => by
    obtain ⟨htokens, hbody⟩ := h (.mk t ps body) List.mem_cons_self
    exact .cons (.mk (htokens t List.mem_cons_self)
      (Token.likeAll_move fun p hp => htokens p (List.mem_cons_of_mem _ hp)) (Stmt.likeAll_map body hbody))
      (Function.likeAll_map ds fun d hd => h d (List.mem_cons_of_mem _ hd))

theorem Stmt.likeOpt_map : ∀ (v : Option Stmt),
    (∀ s ∈ v, (Fragment.stmt s).Corresponds L g f) →
      Option.Rel (Stmt.Like L) v (Stmt.mapOpt g f v)
  | none, _ => .none
  | some s, h => .some (Stmt.like_map s (h s rfl))

end

end

end Treewalk
