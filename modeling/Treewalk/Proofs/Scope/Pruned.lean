import Treewalk.Proofs.Scope.Places
import Treewalk.Proofs.Scope.Resolved
import Treewalk.Proofs.Tree.Like
import Treewalk.Proofs.Tree.Prune

/-!
# Programs that differ in dead code

Two programs that are the same tree once both are pruned were checked one by one, so each has a table of its
own, with identities of its own. Where both have a use of a name, the names declared around it are the same
(`Environs.Alike`): dead code declares names only for code that is dead, too. So both tables hold the same distance
for it.

**Pieces abreast** (`Fragment.Abreast`) stand at places alike, and each is settled by its table.

Main result: pieces abreast that are the same once pruned are alike once pruned (`Stmt.likeAll_prune`). Their
likeness (`Likeness.tables`) pairs all identities with the same distance.
-/

namespace Treewalk

/-! ## What pruning keeps -/

theorem Environs.after_prune (Γ : Environs) (s : Stmt) : Γ.after (s.prune.map blank nowhere) = Γ.after s := by
  cases s with
  | function d =>
    cases d
    rfl
  | _ => rfl

theorem Stmt.exits_of_prune_eq {s s' : Stmt} (h : s.prune.map blank nowhere = s'.prune.map blank nowhere) :
    s'.exits = s.exits := by
  have hexits : ∀ s : Stmt, (s.prune.map blank nowhere).exits = s.exits := by
    intro s
    cases s <;> rfl
  rw [← hexits s', ← h, hexits]

theorem Environs.Alike.after_of_prune_eq {Γ Γ' : Environs} (h : Γ.Alike Γ') {s s' : Stmt}
    (hs : s.prune.map blank nowhere = s'.prune.map blank nowhere) : (Γ.after s).Alike (Γ'.after s') := by
  rw [← Environs.after_prune Γ, ← Environs.after_prune Γ', hs]
  exact h.after rfl

/-- The same for a statement that may be absent. -/
theorem Environs.Alike.afterOpt_of_prune_eq {Γ Γ' : Environs} (h : Γ.Alike Γ') {s s' : Option Stmt}
    (hs : Stmt.mapOpt blank nowhere (Stmt.pruneOpt s) = Stmt.mapOpt blank nowhere (Stmt.pruneOpt s')) :
    (Γ.afterOpt s).Alike (Γ'.afterOpt s') := by
  cases s <;> cases s'
  · exact h
  · cases hs
  · cases hs
  · exact h.after_of_prune_eq (Option.some.inj hs)

/-! ## Pieces abreast -/

/-- Between two tables: identities with the same distance correspond, and all places are in sources. -/
def Likeness.tables (d d' : Distances) : Likeness where
  ids id id' := d'.find? id' = d.find? id
  places p p' := 1 ≤ p.line ∧ 1 ≤ p'.line
  given _ := True
  streams := Eq
  line := by
    rintro p p' ⟨hp, hp'⟩
    omega
  logged := by
    rintro _ _ rfl _
    rfl

/-- The uses of names in a piece have their distances in the table, and its words stand in a source. -/
def Fragment.Settled (d : Distances) (Γ : Environs) (p : Fragment) : Prop :=
  Everywhere (fun Δ q => q.Built (fun t => 1 ≤ t.pos.line) ∧
    ∀ e id name, q = .expr e → e.use? = some (id, name) → d.find? id = Δ.distance? name) Γ p

/-- Two pieces that are settled by tables of their own where the same names are declared. -/
def Fragment.Abreast (d d' : Distances) (p p' : Fragment) : Prop :=
  ∃ Γ Γ', Γ.Alike Γ' ∧ p.Settled d Γ ∧ p'.Settled d' Γ'

section

variable {d d' : Distances}

/-- Words that are the same but for their places are alike. -/
theorem Token.like_tables {t t' : Token} (ht : 1 ≤ t.pos.line) (ht' : 1 ≤ t'.pos.line)
    (heq : t.move nowhere = t'.move nowhere) : t.Like (.tables d d') t' :=
  Token.like_of_move ⟨ht, ht'⟩ heq

theorem Token.likeAll_tables {ts ts' : List Token} (hts : ∀ t ∈ ts, 1 ≤ t.pos.line)
    (hts' : ∀ t ∈ ts', 1 ≤ t.pos.line) (heq : ts.map (Token.move nowhere) = ts'.map (Token.move nowhere)) :
    List.Forall₂ (Token.Like (.tables d d')) ts ts' :=
  Token.likeAll_of_move (fun t ht t' ht' => ⟨hts t ht, hts' t' ht'⟩) heq

theorem Fragment.Settled.part {p q : Fragment} {Γ Δ : Environs} (h : p.Settled d Γ)
    (hpart : (Δ, q) ∈ p.parts Γ) : q.Settled d Δ :=
  fun _ _ hbelow => h _ _ ((Below.part .here hpart).trans hbelow)

namespace Fragment.Abreast

theorem part {p p' q q' : Fragment} (h : p.Abreast d d' p')
    (hpart : ∀ Γ Γ', Γ.Alike Γ' → ∃ Δ Δ', Δ.Alike Δ' ∧ (Δ, q) ∈ p.parts Γ ∧ (Δ', q') ∈ p'.parts Γ') :
    q.Abreast d d' q' := by
  obtain ⟨Γ, Γ', halike, hp, hp'⟩ := h
  obtain ⟨Δ, Δ', halike', hmem, hmem'⟩ := hpart Γ Γ' halike
  exact ⟨Δ, Δ', halike', hp.part hmem, hp'.part hmem'⟩

theorem operand {e e' x x' : Expr} (h : (Fragment.expr e).Abreast d d' (.expr e'))
    (hpart : ∀ Γ, (Γ, Fragment.expr x) ∈ e.parts Γ := by simp [Expr.parts])
    (hpart' : ∀ Γ, (Γ, Fragment.expr x') ∈ e'.parts Γ := by simp [Expr.parts]) :
    (Fragment.expr x).Abreast d d' (.expr x') :=
  h.part fun Γ Γ' halike => ⟨Γ, Γ', halike, hpart Γ, hpart' Γ'⟩

/-- A part of a statement where no more names are declared. -/
theorem clause {s s' : Stmt} {q q' : Fragment} (h : (Fragment.stmt s).Abreast d d' (.stmt s'))
    (hpart : ∀ Γ, (Γ, q) ∈ s.parts Γ := by simp [Stmt.parts])
    (hpart' : ∀ Γ, (Γ, q') ∈ s'.parts Γ := by simp [Stmt.parts]) : q.Abreast d d' q' :=
  h.part fun Γ Γ' halike => ⟨Γ, Γ', halike, hpart Γ, hpart' Γ'⟩

theorem token {e e' : Expr} (h : (Fragment.expr e).Abreast d d' (.expr e')) {t t' : Token}
    (heq : t.move nowhere = t'.move nowhere) (ht : t ∈ e.tokens := by simp [Expr.tokens])
    (ht' : t' ∈ e'.tokens := by simp [Expr.tokens]) : t.Like (.tables d d') t' := by
  obtain ⟨Γ, Γ', -, he, he'⟩ := h
  exact Token.like_tables (he.here.1 t ht) (he'.here.1 t' ht') heq

theorem tokens {e e' : Expr} (h : (Fragment.expr e).Abreast d d' (.expr e')) :
    (∀ t ∈ e.tokens, 1 ≤ t.pos.line) ∧ ∀ t ∈ e'.tokens, 1 ≤ t.pos.line := by
  obtain ⟨Γ, Γ', -, he, he'⟩ := h
  exact ⟨he.here.1, he'.here.1⟩

theorem use {e e' : Expr} (h : (Fragment.expr e).Abreast d d' (.expr e')) {id id' : NodeId} {name name' : Bytes}
    (huse : e.use? = some (id, name)) (huse' : e'.use? = some (id', name')) (hname : name' = name) :
    (Likeness.tables d d').ids id id' := by
  obtain ⟨Γ, Γ', halike, he, he'⟩ := h
  subst hname
  show d'.find? id' = d.find? id
  rw [he.here.2 e id _ rfl huse, he'.here.2 e' id' _ rfl huse', halike.distance?_eq]

theorem words {s s' : Stmt} (h : (Fragment.stmt s).Abreast d d' (.stmt s')) :
    (∀ t ∈ s.tokens, 1 ≤ t.pos.line) ∧ ∀ t ∈ s'.tokens, 1 ≤ t.pos.line := by
  obtain ⟨Γ, Γ', -, hs, hs'⟩ := h
  exact ⟨hs.here.1.1, hs'.here.1.1⟩

theorem word {s s' : Stmt} (h : (Fragment.stmt s).Abreast d d' (.stmt s')) {t t' : Token}
    (heq : t.move nowhere = t'.move nowhere) (ht : t ∈ s.tokens := by simp [Stmt.tokens])
    (ht' : t' ∈ s'.tokens := by simp [Stmt.tokens]) : t.Like (.tables d d') t' :=
  Token.like_tables (h.words.1 t ht) (h.words.2 t' ht') heq

theorem pos {s s' : Stmt} (h : (Fragment.stmt s).Abreast d d' (.stmt s')) :
    (Likeness.tables d d').places s.pos s'.pos := by
  obtain ⟨Γ, Γ', -, hs, hs'⟩ := h
  obtain ⟨t, ht, hpos⟩ := hs.here.1.2
  obtain ⟨t', ht', hpos'⟩ := hs'.here.1.2
  rw [← hpos, ← hpos']
  exact ⟨ht, ht'⟩

end Fragment.Abreast

/-! ## Pruned pieces are alike -/

mutual

theorem Expr.like_prune : ∀ e e' : Expr, (Fragment.expr e).Abreast d d' (.expr e') →
    e.prune.map blank nowhere = e'.prune.map blank nowhere → e.prune.Like (.tables d d') e'.prune
  | .literal _ t, e', h, heq => by
    cases e' with
    | literal _ t' =>
      injection heq with _ ht
      exact .literal (h.token ht)
    | _ => cases heq
  | .group _ t e, e', h, heq => by
    cases e' with
    | group _ t' e' =>
      injection heq with _ ht he
      exact .group (h.token ht) (Expr.like_prune e e' h.operand he)
    | _ => cases heq
  | .unary _ _ t e, e', h, heq => by
    cases e' with
    | unary _ _ t' e' =>
      injection heq with _ hop ht he
      subst hop
      exact .unary (h.token ht) (Expr.like_prune e e' h.operand he)
    | _ => cases heq
  | .binary _ _ t l r, e', h, heq => by
    cases e' with
    | binary _ _ t' l' r' =>
      injection heq with _ hop ht hl hr
      subst hop
      exact .binary (h.token ht) (Expr.like_prune l l' h.operand hl) (Expr.like_prune r r' h.operand hr)
    | _ => cases heq
  | .logical _ _ t l r, e', h, heq => by
    cases e' with
    | logical _ _ t' l' r' =>
      injection heq with _ hop ht hl hr
      subst hop
      exact .logical (h.token ht) (Expr.like_prune l l' h.operand hl) (Expr.like_prune r r' h.operand hr)
    | _ => cases heq
  | .ternary _ t c y n, e', h, heq => by
    cases e' with
    | ternary _ t' c' y' n' =>
      injection heq with _ ht hc hy hn
      exact .ternary (h.token ht) (Expr.like_prune c c' h.operand hc) (Expr.like_prune y y' h.operand hy)
        (Expr.like_prune n n' h.operand hn)
    | _ => cases heq
  | .ident _ t, e', h, heq => by
    cases e' with
    | ident _ t' =>
      injection heq with _ ht
      exact .ident (h.use rfl rfl (congrArg Token.lexeme ht).symm) (h.token ht)
    | _ => cases heq
  | .assign _ t e, e', h, heq => by
    cases e' with
    | assign _ t' e' =>
      injection heq with _ ht he
      exact .assign (h.use rfl rfl (congrArg Token.lexeme ht).symm) (h.token ht)
        (Expr.like_prune e e' h.operand he)
    | _ => cases heq
  | .compound _ t _ u e, e', h, heq => by
    cases e' with
    | compound _ t' _ u' e' =>
      injection heq with _ ht hop hu he
      subst hop
      exact .compound (h.use rfl rfl (congrArg Token.lexeme ht).symm) (h.token ht) (h.token hu)
        (Expr.like_prune e e' h.operand he)
    | _ => cases heq
  | .update _ t _ u _, e', h, heq => by
    cases e' with
    | update _ t' _ u' _ =>
      injection heq with _ ht hop hu hbefore
      subst hop hbefore
      exact .update (h.use rfl rfl (congrArg Token.lexeme ht).symm) (h.token ht) (h.token hu)
    | _ => cases heq
  | .updateIndex _ o t i _ u _, e', h, heq => by
    cases e' with
    | updateIndex _ o' t' i' _ u' _ =>
      injection heq with _ ho ht hi hop hu hbefore
      subst hop hbefore
      exact .updateIndex (Expr.like_prune o o' h.operand ho) (h.token ht) (Expr.like_prune i i' h.operand hi)
        (h.token hu)
    | _ => cases heq
  | .updateGet _ o t _ u _, e', h, heq => by
    cases e' with
    | updateGet _ o' t' _ u' _ =>
      injection heq with _ ho ht hop hu hbefore
      subst hop hbefore
      exact .updateGet (Expr.like_prune o o' h.operand ho) (h.token ht) (h.token hu)
    | _ => cases heq
  | .call _ c t args, e', h, heq => by
    cases e' with
    | call _ c' t' args' =>
      injection heq with _ hc ht hargs
      exact .call (Expr.like_prune c c' h.operand hc) (h.token ht)
        (Expr.likeAll_prune args args' (fun a ha a' ha' =>
          h.operand (by simp [Expr.parts, ha]) (by simp [Expr.parts, ha'])) hargs)
    | _ => cases heq
  | .lambda _ t ps body, e', h, heq => by
    cases e' with
    | lambda _ t' ps' body' =>
      injection heq with _ ht hps hbody
      have hparams : List.Forall₂ (Token.Like (.tables d d')) ps ps' := Token.likeAll_tables
        (fun p hp => h.tokens.1 p (List.mem_cons_of_mem _ hp))
        (fun p hp => h.tokens.2 p (List.mem_cons_of_mem _ hp)) hps
      exact .lambda (h.token ht) hparams (Stmt.likeAll_prune body body'
        (h.part fun Γ Γ' halike => ⟨_, _, halike.enterFunction .function .function (Token.lexemes_eq hps.symm) body body', .head _, .head _⟩)
        hbody)
    | _ => cases heq
  | .array _ t es, e', h, heq => by
    cases e' with
    | array _ t' es' =>
      injection heq with _ ht hes
      exact .array (h.token ht) (Expr.likeAll_prune es es' (fun a ha a' ha' =>
        h.operand (by simp [Expr.parts, ha]) (by simp [Expr.parts, ha'])) hes)
    | _ => cases heq
  | .index _ o t i, e', h, heq => by
    cases e' with
    | index _ o' t' i' =>
      injection heq with _ ho ht hi
      exact .index (Expr.like_prune o o' h.operand ho) (h.token ht) (Expr.like_prune i i' h.operand hi)
    | _ => cases heq
  | .get _ o t, e', h, heq => by
    cases e' with
    | get _ o' t' =>
      injection heq with _ ho ht
      exact .get (Expr.like_prune o o' h.operand ho) (h.token ht)
    | _ => cases heq
  | .set _ o t e, e', h, heq => by
    cases e' with
    | set _ o' t' e' =>
      injection heq with _ ho ht he
      exact .set (Expr.like_prune o o' h.operand ho) (h.token ht) (Expr.like_prune e e' h.operand he)
    | _ => cases heq
  | .this _ t, e', h, heq => by
    cases e' with
    | this _ t' =>
      injection heq with _ ht
      exact .this (h.use rfl rfl rfl) (h.token ht)
    | _ => cases heq
termination_by structural e => e

theorem Expr.likeAll_prune : ∀ es es' : List Expr,
    (∀ e ∈ es, ∀ e' ∈ es', (Fragment.expr e).Abreast d d' (.expr e')) →
    Expr.mapAll blank nowhere (Expr.pruneAll es) = Expr.mapAll blank nowhere (Expr.pruneAll es') →
    List.Forall₂ (Expr.Like (.tables d d')) (Expr.pruneAll es) (Expr.pruneAll es')
  | [], [], _, _ => .nil
  | e :: es, e' :: es', h, heq => by
    obtain ⟨he, hes⟩ := List.cons.inj heq
    exact .cons (Expr.like_prune e e' (h e List.mem_cons_self e' List.mem_cons_self) he)
      (Expr.likeAll_prune es es' (fun a ha a' ha' =>
        h a (List.mem_cons_of_mem _ ha) a' (List.mem_cons_of_mem _ ha')) hes)
termination_by structural es => es

theorem Expr.likeOpt_prune : ∀ v v' : Option Expr,
    (∀ e ∈ v, ∀ e' ∈ v', (Fragment.expr e).Abreast d d' (.expr e')) →
    Expr.mapOpt blank nowhere (Expr.pruneOpt v) = Expr.mapOpt blank nowhere (Expr.pruneOpt v') →
    Option.Rel (Expr.Like (.tables d d')) (Expr.pruneOpt v) (Expr.pruneOpt v')
  | none, none, _, _ => .none
  | some e, some e', h, heq => .some (Expr.like_prune e e' (h e rfl e' rfl) (Option.some.inj heq))
termination_by structural v => v

theorem Stmt.like_prune : ∀ s s' : Stmt, (Fragment.stmt s).Abreast d d' (.stmt s') →
    s.prune.map blank nowhere = s'.prune.map blank nowhere → s.prune.Like (.tables d d') s'.prune
  | .expression _ e, s', h, heq => by
    cases s' with
    | expression _ e' =>
      injection heq with _ he
      exact .expression (Expr.like_prune e e' h.clause he)
    | _ => cases heq
  | .print _ e, s', h, heq => by
    cases s' with
    | print _ e' =>
      injection heq with _ he
      exact .print h.pos (Expr.like_prune e e' h.clause he)
    | _ => cases heq
  | .declare _ t v, s', h, heq => by
    cases s' with
    | declare _ t' v' =>
      injection heq with _ ht hv
      refine .declare (h.word ht) (Expr.likeOpt_prune v v' (fun e he e' he' => ?_) hv)
      obtain rfl : v = some e := he
      obtain rfl : v' = some e' := he'
      have hlexeme : t'.lexeme = t.lexeme := (congrArg Token.lexeme ht).symm
      refine h.part fun Γ Γ' halike => ⟨Γ.declare t.lexeme, Γ'.declare t'.lexeme, ?_, .head _, .head _⟩
      rw [hlexeme]
      exact halike.declare t.lexeme
    | _ => cases heq
  | .block p body, s', h, heq => by
    cases s' with
    | block p' body' =>
      injection heq with _ hbody
      exact .block (Stmt.likeAll_prune body body'
        (h.part fun Γ Γ' halike => ⟨_, _, halike.enter (.block p body) (.block p' body'), .head _, .head _⟩)
        hbody)
    | _ => cases heq
  | .branch _ c y n, s', h, heq => by
    cases s' with
    | branch _ c' y' n' =>
      injection heq with _ hc hy hn
      refine .branch (Expr.like_prune c c' h.clause hc) (Stmt.like_prune y y' h.clause hy)
        (Stmt.likeOpt_prune n n' (fun s hs s' hs' => ?_) hn)
      obtain rfl : n = some s := hs
      obtain rfl : n' = some s' := hs'
      exact h.clause
    | _ => cases heq
  | .loop _ c b, s', h, heq => by
    cases s' with
    | loop _ c' b' =>
      injection heq with _ hc hb
      refine .loop (Expr.like_prune c c' h.clause hc) (Stmt.like_prune b b' ?_ hb)
      exact h.part fun Γ Γ' halike => ⟨_, _, halike.enterLoop, .tail _ (.head _), .tail _ (.head _)⟩
    | _ => cases heq
  | .forLoop p s c u b, s', h, heq => by
    cases s' with
    | forLoop p' s' c' u' b' =>
      injection heq with _ hs hc hu hb
      have hheader : ∀ Γ Γ' : Environs, Γ.Alike Γ' →
          (Γ.enter (.header p s c u b)).Alike (Γ'.enter (.header p' s' c' u' b')) :=
        fun Γ Γ' halike => halike.enter _ _
      have hround : ∀ Γ Γ' : Environs, Γ.Alike Γ' →
          ((Γ.enter (.header p s c u b)).afterOpt s).Alike
            ((Γ'.enter (.header p' s' c' u' b')).afterOpt s') :=
        fun Γ Γ' halike => (hheader Γ Γ' halike).afterOpt_of_prune_eq hs
      refine .forLoop (Stmt.likeOpt_prune s s' (fun x hx x' hx' => ?_) hs)
        (Expr.likeOpt_prune c c' (fun e he e' he' => ?_) hc)
        (Expr.likeOpt_prune u u' (fun e he e' he' => ?_) hu) (Stmt.like_prune b b' ?_ hb)
      · rw [Option.mem_def] at hx hx'
        exact h.part fun Γ Γ' halike => ⟨_, _, hheader Γ Γ' halike, by simp [Fragment.parts, Stmt.parts, hx],
          by simp [Fragment.parts, Stmt.parts, hx']⟩
      · rw [Option.mem_def] at he he'
        exact h.part fun Γ Γ' halike => ⟨_, _, hround Γ Γ' halike, by simp [Fragment.parts, Stmt.parts, he],
          by simp [Fragment.parts, Stmt.parts, he']⟩
      · rw [Option.mem_def] at he he'
        exact h.part fun Γ Γ' halike => ⟨_, _, hround Γ Γ' halike, by simp [Fragment.parts, Stmt.parts, he],
          by simp [Fragment.parts, Stmt.parts, he']⟩
      · exact h.part fun Γ Γ' halike => ⟨_, _, (hround Γ Γ' halike).enterLoop,
          by simp [Fragment.parts, Stmt.parts], by simp [Fragment.parts, Stmt.parts]⟩
    | _ => cases heq
  | .leave _, s', _, heq => by
    cases s' with
    | leave => exact .leave
    | _ => cases heq
  | .skip _, s', _, heq => by
    cases s' with
    | skip => exact .skip
    | _ => cases heq
  | .result _ v, s', h, heq => by
    cases s' with
    | result _ v' =>
      injection heq with _ hv
      refine .result (Expr.likeOpt_prune v v' (fun e he e' he' => ?_) hv)
      obtain rfl : v = some e := he
      obtain rfl : v' = some e' := he'
      exact h.clause
    | _ => cases heq
  | .function (.mk t ps body), s', h, heq => by
    cases s' with
    | function f' =>
      obtain ⟨t', ps', body'⟩ := f'
      injection heq with heq
      injection heq with ht hps hbody
      have hlexeme : t'.lexeme = t.lexeme := (congrArg Token.lexeme ht).symm
      have hparams : List.Forall₂ (Token.Like (.tables d d')) ps ps' := Token.likeAll_tables
        (fun p hp => h.words.1 p (List.mem_cons_of_mem _ hp))
        (fun p hp => h.words.2 p (List.mem_cons_of_mem _ hp)) hps
      refine .function (.mk (h.word ht (.head _) (.head _)) hparams (Stmt.likeAll_prune body body' ?_ hbody))
      refine h.part fun Γ Γ' halike => ⟨(Γ.add t.lexeme).enterFunction .function ps body,
        (Γ'.add t'.lexeme).enterFunction .function ps' body', ?_, .head _, .head _⟩
      rw [hlexeme]
      exact (halike.add t.lexeme).enterFunction .function .function (Token.lexemes_eq hps.symm) body body'
    | _ => cases heq
  | .classDecl p t fs ms, s', h, heq => by
    cases s' with
    | classDecl p' t' fs' ms' =>
      injection heq with _ ht hfs hms
      have hlexeme : t'.lexeme = t.lexeme := (congrArg Token.lexeme ht).symm
      have hadded : ∀ Γ Γ' : Environs, Γ.Alike Γ' → (Γ.add t.lexeme).Alike (Γ'.add t'.lexeme) := by
        intro Γ Γ' halike
        rw [hlexeme]
        exact halike.add t.lexeme
      refine .classDecl (h.word ht) (Field.likeAll_prune fs fs' (fun f hf f' hf' => ?_) hfs)
        (Function.likeAll_prune ms ms' ?_ ?_ (fun f hf f' hf' hname hps => ?_) hms)
      · exact h.part fun Γ Γ' halike => ⟨_, _, hadded Γ Γ' halike,
          List.mem_append_left _ (List.mem_map_of_mem hf), List.mem_append_left _ (List.mem_map_of_mem hf')⟩
      · exact fun f hf u hu => h.words.1 u (List.mem_cons_of_mem _ (List.mem_flatMap.2 ⟨f, hf, hu⟩))
      · exact fun f hf u hu => h.words.2 u (List.mem_cons_of_mem _ (List.mem_flatMap.2 ⟨f, hf, hu⟩))
      · have hkind : f'.bodyKind = f.bodyKind := by rw [Function.bodyKind, Function.bodyKind, hname]
        refine h.part fun Γ Γ' halike => ⟨_, _, ?_,
          List.mem_append_right _ (List.mem_map_of_mem hf), List.mem_append_right _ (List.mem_map_of_mem hf')⟩
        rw [hkind]
        exact ((hadded Γ Γ' halike).receive _ _).enterFunction _ _ (Token.lexemes_eq hps.symm) _ _
    | _ => cases heq
termination_by structural s => s

/-- Lists of statements go along up to the first that leaves them. -/
theorem Stmt.likeAll_prune : ∀ ss ss' : List Stmt, (Fragment.list ss).Abreast d d' (.list ss') →
    Stmt.mapAll blank nowhere (Stmt.pruneAll ss) = Stmt.mapAll blank nowhere (Stmt.pruneAll ss') →
    List.Forall₂ (Stmt.Like (.tables d d')) (Stmt.pruneAll ss) (Stmt.pruneAll ss')
  | [], ss', _, heq => by
    cases ss' with
    | nil => exact .nil
    | cons => cases heq
  | s :: ss, ss', h, heq => by
    cases ss' with
    | nil => cases heq
    | cons s' ss' =>
      obtain ⟨hs, hss⟩ := List.cons.inj heq
      have hhead := Stmt.like_prune s s'
        (h.part fun Γ Γ' halike => ⟨Γ, Γ', halike, .head _, .head _⟩) hs
      refine .cons hhead ?_
      have hexits := Stmt.exits_of_prune_eq hs
      cases hexit : s.exits with
      | true =>
        rw [hexits, hexit]
        exact .nil
      | false =>
        rw [hexits, hexit] at hss ⊢
        refine Stmt.likeAll_prune ss ss' ?_ hss
        exact h.part fun Γ Γ' halike =>
          ⟨_, _, halike.after_of_prune_eq hs, .tail _ (.head _), .tail _ (.head _)⟩
termination_by structural ss => ss

theorem Stmt.likeOpt_prune : ∀ v v' : Option Stmt,
    (∀ s ∈ v, ∀ s' ∈ v', (Fragment.stmt s).Abreast d d' (.stmt s')) →
    Stmt.mapOpt blank nowhere (Stmt.pruneOpt v) = Stmt.mapOpt blank nowhere (Stmt.pruneOpt v') →
    Option.Rel (Stmt.Like (.tables d d')) (Stmt.pruneOpt v) (Stmt.pruneOpt v')
  | none, none, _, _ => .none
  | some s, some s', h, heq => .some (Stmt.like_prune s s' (h s rfl s' rfl) (Option.some.inj heq))
termination_by structural v => v

theorem Function.likeAll_prune : ∀ ds ds' : List Function,
    (∀ f ∈ ds, ∀ t ∈ f.name :: f.params, 1 ≤ t.pos.line) →
    (∀ f ∈ ds', ∀ t ∈ f.name :: f.params, 1 ≤ t.pos.line) →
    (∀ f ∈ ds, ∀ f' ∈ ds', f'.name.lexeme = f.name.lexeme →
      f.params.map (Token.move nowhere) = f'.params.map (Token.move nowhere) →
      (Fragment.list f.body).Abreast d d' (.list f'.body)) →
    Function.mapAll blank nowhere (Function.pruneAll ds) =
      Function.mapAll blank nowhere (Function.pruneAll ds') →
    List.Forall₂ (Function.Like (.tables d d')) (Function.pruneAll ds) (Function.pruneAll ds')
  | [], [], _, _, _, _ => .nil
  | .mk t ps body :: ds, .mk t' ps' body' :: ds', hwords, hwords', h, heq => by
    obtain ⟨hd, hds⟩ := List.cons.inj heq
    injection hd with ht hps hbody
    have htokens := hwords (.mk t ps body) List.mem_cons_self
    have htokens' := hwords' (.mk t' ps' body') List.mem_cons_self
    have hparams : List.Forall₂ (Token.Like (.tables d d')) ps ps' := Token.likeAll_tables
      (fun p hp => htokens p (List.mem_cons_of_mem _ hp))
      (fun p hp => htokens' p (List.mem_cons_of_mem _ hp)) hps
    refine .cons (.mk (Token.like_tables (htokens t List.mem_cons_self) (htokens' t' List.mem_cons_self) ht)
      hparams (Stmt.likeAll_prune body body' ?_ hbody)) ?_
    · exact h _ List.mem_cons_self _ List.mem_cons_self (congrArg Token.lexeme ht).symm hps
    · exact Function.likeAll_prune ds ds' (fun f hf => hwords f (List.mem_cons_of_mem _ hf))
        (fun f hf => hwords' f (List.mem_cons_of_mem _ hf))
        (fun f hf f' hf' => h f (List.mem_cons_of_mem _ hf) f' (List.mem_cons_of_mem _ hf')) hds
termination_by structural ds => ds

theorem Field.likeAll_prune : ∀ ds ds' : List Field,
    (∀ f ∈ ds, ∀ f' ∈ ds', (Fragment.expr f.value).Abreast d d' (.expr f'.value)) →
    Field.mapAll blank nowhere (Field.pruneAll ds) = Field.mapAll blank nowhere (Field.pruneAll ds') →
    List.Forall₂ (Field.Like (.tables d d')) (Field.pruneAll ds) (Field.pruneAll ds')
  | [], [], _, _ => .nil
  | .mk t e :: ds, .mk t' e' :: ds', h, heq => by
    obtain ⟨hd, hds⟩ := List.cons.inj heq
    injection hd with ht he
    exact .cons (.mk (congrArg Token.lexeme ht).symm
        (Expr.like_prune e e' (h _ List.mem_cons_self _ List.mem_cons_self) he))
      (Field.likeAll_prune ds ds' (fun f hf f' hf' =>
        h f (List.mem_cons_of_mem _ hf) f' (List.mem_cons_of_mem _ hf')) hds)
termination_by structural ds => ds

end

end

end Treewalk
