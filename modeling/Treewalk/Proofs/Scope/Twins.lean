import Treewalk.Proofs.Machine.Typing
import Treewalk.Proofs.Scope.Places
import Treewalk.Proofs.Tree.Like

/-!
# The same piece at places alike

Two pieces of accepted programs that are the same up to identities and positions, at places alike, have parts at
places alike (`Fragment.Twins`). So all that they use is resolved alike, and a run cannot tell them apart
(`Expr.like_of_twins`): they are alike where identities correspond if they have the same distance
(`Likeness.resolved`).
-/

namespace Treewalk

/-! ## Pieces at places alike -/

/-- Identities correspond if the table has the same distance for them; a place in a source corresponds to any
other. -/
def Likeness.resolved (d : Distances) : Likeness where
  ids id id' := d.find? id' = d.find? id
  places p p' := p'.line = 0 ↔ p.line = 0
  given _ := True
  streams s s' := s' = s
  line _ _ h := h
  logged _ _ h bytes := by rw [h]

variable {programs : List (List Stmt)} {d : Distances}

/-- Two pieces of accepted programs that stand at places alike. -/
def Fragment.Twins (programs : List (List Stmt)) (d : Distances) (p p' : Fragment) : Prop :=
  Known programs d ∧ ∃ Γ Γ', Γ.Alike Γ' ∧ Here programs Γ p ∧ Here programs Γ' p'

/-- Words of accepted programs have places in sources, and all of these correspond. -/
theorem Token.places_resolved {t t' : Token} (ht : t.Proper) (ht' : t'.Proper) :
    (Likeness.resolved d).places t.pos t'.pos :=
  ⟨fun hline => absurd ht'.line (by omega), fun hline => absurd ht.line (by omega)⟩

theorem Token.like_resolved {t t' : Token} (ht : t.Proper) (ht' : t'.Proper)
    (h : t'.move nowhere = t.move nowhere) : t.Like (.resolved d) t' :=
  Token.like_of_move (Token.places_resolved ht ht') h.symm

theorem Token.likeAll_resolved {ps ps' : List Token} (hps : ∀ t ∈ ps, t.Proper) (hps' : ∀ t ∈ ps', t.Proper)
    (h : ps'.map (Token.move nowhere) = ps.map (Token.move nowhere)) :
    List.Forall₂ (Token.Like (.resolved d)) ps ps' :=
  Token.likeAll_of_move (fun t ht t' ht' => Token.places_resolved (hps t ht) (hps' t' ht')) h.symm

namespace Fragment.Twins

variable {p p' q q' : Fragment} {e e' : Expr} {s s' : Stmt} {t t' : Token}

theorem part (h : Twins programs d p p') (hpart : ∀ {Γ Γ' : Environs}, Γ.Alike Γ' →
    ∃ Δ Δ' : Environs, Δ.Alike Δ' ∧ (Δ, q) ∈ p.parts Γ ∧ (Δ', q') ∈ p'.parts Γ') : Twins programs d q q' := by
  obtain ⟨hknown, Γ, Γ', halike, hp, hp'⟩ := h
  obtain ⟨Δ, Δ', halike', hq, hq'⟩ := hpart halike
  exact ⟨hknown, Δ, Δ', halike', hp.part hq, hp'.part hq'⟩

/-- The parts of a number, in the same environs as the whole. -/
theorem inside (h : Twins programs d p p') (i : Nat) (hq : ∀ Γ, (p.parts Γ)[i]? = some (Γ, q))
    (hq' : ∀ Γ, (p'.parts Γ)[i]? = some (Γ, q')) : Twins programs d q q' :=
  h.part fun halike => ⟨_, _, halike, List.mem_of_getElem? (hq _), List.mem_of_getElem? (hq' _)⟩

theorem token (h : Twins programs d (.expr e) (.expr e')) (i : Nat) (ht : e.tokens[i]? = some t)
    (ht' : e'.tokens[i]? = some t') (hsame : t'.move nowhere = t.move nowhere) : t.Like (.resolved d) t' := by
  obtain ⟨hknown, Γ, Γ', -, he, he'⟩ := h
  exact Token.like_resolved (hknown.built he t (List.mem_of_getElem? ht))
    (hknown.built he' t' (List.mem_of_getElem? ht')) hsame

theorem word (h : Twins programs d (.stmt s) (.stmt s')) (i : Nat) (ht : s.tokens[i]? = some t)
    (ht' : s'.tokens[i]? = some t') (hsame : t'.move nowhere = t.move nowhere) : t.Like (.resolved d) t' := by
  obtain ⟨hknown, Γ, Γ', -, hs, hs'⟩ := h
  exact Token.like_resolved ((hknown.built hs).1 t (List.mem_of_getElem? ht))
    ((hknown.built hs').1 t' (List.mem_of_getElem? ht')) hsame

theorem pos (h : Twins programs d (.stmt s) (.stmt s')) : (Likeness.resolved d).places s.pos s'.pos := by
  obtain ⟨hknown, Γ, Γ', -, hs, hs'⟩ := h
  obtain ⟨-, t, ht, hpos⟩ := hknown.built hs
  obtain ⟨-, t', ht', hpos'⟩ := hknown.built hs'
  have hline := ht.line
  have hline' := ht'.line
  rw [hpos] at hline
  rw [hpos'] at hline'
  constructor <;> omega

/-- Uses of the same name have the same distance. -/
theorem use (h : Twins programs d (.expr e) (.expr e')) {id id' : NodeId} {name : Bytes}
    (huse : e.use? = some (id, name)) (huse' : e'.use? = some (id', name)) :
    (Likeness.resolved d).ids id id' := by
  obtain ⟨hknown, Γ, Γ', halike, he, he'⟩ := h
  show d.find? id' = d.find? id
  rw [hknown.find?_eq he huse, hknown.find?_eq he' huse', halike.distance?_eq]

end Fragment.Twins

open Fragment (Twins)

mutual

/-- The same expression at places alike is resolved alike. -/
theorem Expr.like_of_twins : ∀ (e e' : Expr), e'.map blank nowhere = e.map blank nowhere →
    Twins programs d (.expr e) (.expr e') → e.Like (.resolved d) e'
  | .literal _ t, x, hsame, h => by
    cases x with
    | literal _ t' =>
      injection hsame with _ ht
      exact .literal (h.token 0 rfl rfl ht)
    | _ => cases hsame
  | .group _ t e, x, hsame, h => by
    cases x with
    | group _ t' e' =>
      injection hsame with _ ht he
      exact .group (h.token 0 rfl rfl ht)
        (Expr.like_of_twins e e' he (h.inside 0 (fun _ => rfl) fun _ => rfl))
    | _ => cases hsame
  | .unary _ op t e, x, hsame, h => by
    cases x with
    | unary _ op' t' e' =>
      injection hsame with _ hop ht he
      subst hop
      exact .unary (h.token 0 rfl rfl ht)
        (Expr.like_of_twins e e' he (h.inside 0 (fun _ => rfl) fun _ => rfl))
    | _ => cases hsame
  | .binary _ op t l r, x, hsame, h => by
    cases x with
    | binary _ op' t' l' r' =>
      injection hsame with _ hop ht hl hr
      subst hop
      exact .binary (h.token 0 rfl rfl ht)
        (Expr.like_of_twins l l' hl (h.inside 0 (fun _ => rfl) fun _ => rfl))
        (Expr.like_of_twins r r' hr (h.inside 1 (fun _ => rfl) fun _ => rfl))
    | _ => cases hsame
  | .logical _ op t l r, x, hsame, h => by
    cases x with
    | logical _ op' t' l' r' =>
      injection hsame with _ hop ht hl hr
      subst hop
      exact .logical (h.token 0 rfl rfl ht)
        (Expr.like_of_twins l l' hl (h.inside 0 (fun _ => rfl) fun _ => rfl))
        (Expr.like_of_twins r r' hr (h.inside 1 (fun _ => rfl) fun _ => rfl))
    | _ => cases hsame
  | .ternary _ t c y n, x, hsame, h => by
    cases x with
    | ternary _ t' c' y' n' =>
      injection hsame with _ ht hc hy hn
      exact .ternary (h.token 0 rfl rfl ht)
        (Expr.like_of_twins c c' hc (h.inside 0 (fun _ => rfl) fun _ => rfl))
        (Expr.like_of_twins y y' hy (h.inside 1 (fun _ => rfl) fun _ => rfl))
        (Expr.like_of_twins n n' hn (h.inside 2 (fun _ => rfl) fun _ => rfl))
    | _ => cases hsame
  | .ident _ t, x, hsame, h => by
    cases x with
    | ident _ t' =>
      injection hsame with _ ht
      exact .ident (h.use rfl (congrArg (fun name => some (_, name)) (Token.lexeme_eq ht)))
        (h.token 0 rfl rfl ht)
    | _ => cases hsame
  | .assign _ t e, x, hsame, h => by
    cases x with
    | assign _ t' e' =>
      injection hsame with _ ht he
      exact .assign (h.use rfl (congrArg (fun name => some (_, name)) (Token.lexeme_eq ht)))
        (h.token 0 rfl rfl ht)
        (Expr.like_of_twins e e' he (h.inside 0 (fun _ => rfl) fun _ => rfl))
    | _ => cases hsame
  | .compound _ t op u e, x, hsame, h => by
    cases x with
    | compound _ t' op' u' e' =>
      injection hsame with _ ht hop hu he
      subst hop
      exact .compound (h.use rfl (congrArg (fun name => some (_, name)) (Token.lexeme_eq ht)))
        (h.token 0 rfl rfl ht)
        (h.token 1 rfl rfl hu)
        (Expr.like_of_twins e e' he (h.inside 0 (fun _ => rfl) fun _ => rfl))
    | _ => cases hsame
  | .update _ t op u before, x, hsame, h => by
    cases x with
    | update _ t' op' u' before' =>
      injection hsame with _ ht hop hu hbefore
      subst hop hbefore
      exact .update (h.use rfl (congrArg (fun name => some (_, name)) (Token.lexeme_eq ht)))
        (h.token 0 rfl rfl ht)
        (h.token 1 rfl rfl hu)
    | _ => cases hsame
  | .updateIndex _ o t i op u before, x, hsame, h => by
    cases x with
    | updateIndex _ o' t' i' op' u' before' =>
      injection hsame with _ ho ht hi hop hu hbefore
      subst hop hbefore
      exact .updateIndex (Expr.like_of_twins o o' ho (h.inside 0 (fun _ => rfl) fun _ => rfl))
        (h.token 0 rfl rfl ht)
        (Expr.like_of_twins i i' hi (h.inside 1 (fun _ => rfl) fun _ => rfl))
        (h.token 1 rfl rfl hu)
    | _ => cases hsame
  | .updateGet _ o t op u before, x, hsame, h => by
    cases x with
    | updateGet _ o' t' op' u' before' =>
      injection hsame with _ ho ht hop hu hbefore
      subst hop hbefore
      exact .updateGet (Expr.like_of_twins o o' ho (h.inside 0 (fun _ => rfl) fun _ => rfl))
        (h.token 0 rfl rfl ht)
        (h.token 1 rfl rfl hu)
    | _ => cases hsame
  | .call _ c t args, x, hsame, h => by
    cases x with
    | call _ c' t' args' =>
      injection hsame with _ hc ht hargs
      exact .call (Expr.like_of_twins c c' hc (h.inside 0 (fun _ => rfl) fun _ => rfl))
        (h.token 0 rfl rfl ht)
        (Expr.likeAll_of_twins args args' hargs fun e he e' he' => h.part fun halike =>
          ⟨_, _, halike, List.mem_cons_of_mem _ (List.mem_map_of_mem he),
            List.mem_cons_of_mem _ (List.mem_map_of_mem he')⟩)
    | _ => cases hsame
  | .lambda _ t ps body, x, hsame, h => by
    cases x with
    | lambda _ t' ps' body' =>
      injection hsame with _ ht hps hbody
      obtain ⟨hknown, Γ, Γ', -, he, he'⟩ := id h
      refine .lambda (h.token 0 rfl rfl ht)
        (Token.likeAll_resolved (fun p hp => hknown.built he p (by simp [Expr.tokens, hp]))
          (fun p hp => hknown.built he' p (by simp [Expr.tokens, hp])) hps)
        (Stmt.likeAll_of_twins body body' hbody (h.part fun halike => ?_))
      exact ⟨_, _, halike.enterFunction .function .function (Token.lexemes_eq hps) body body',
        List.mem_singleton_self _, List.mem_singleton_self _⟩
    | _ => cases hsame
  | .array _ t es, x, hsame, h => by
    cases x with
    | array _ t' es' =>
      injection hsame with _ ht hes
      exact .array (h.token 0 rfl rfl ht)
        (Expr.likeAll_of_twins es es' hes fun e he e' he' => h.part fun halike =>
          ⟨_, _, halike, List.mem_map_of_mem he, List.mem_map_of_mem he'⟩)
    | _ => cases hsame
  | .index _ o t i, x, hsame, h => by
    cases x with
    | index _ o' t' i' =>
      injection hsame with _ ho ht hi
      exact .index (Expr.like_of_twins o o' ho (h.inside 0 (fun _ => rfl) fun _ => rfl))
        (h.token 0 rfl rfl ht)
        (Expr.like_of_twins i i' hi (h.inside 1 (fun _ => rfl) fun _ => rfl))
    | _ => cases hsame
  | .get _ o t, x, hsame, h => by
    cases x with
    | get _ o' t' =>
      injection hsame with _ ho ht
      exact .get (Expr.like_of_twins o o' ho (h.inside 0 (fun _ => rfl) fun _ => rfl))
        (h.token 0 rfl rfl ht)
    | _ => cases hsame
  | .set _ o t e, x, hsame, h => by
    cases x with
    | set _ o' t' e' =>
      injection hsame with _ ho ht he
      exact .set (Expr.like_of_twins o o' ho (h.inside 0 (fun _ => rfl) fun _ => rfl))
        (h.token 0 rfl rfl ht)
        (Expr.like_of_twins e e' he (h.inside 1 (fun _ => rfl) fun _ => rfl))
    | _ => cases hsame
  | .this _ t, x, hsame, h => by
    cases x with
    | this _ t' =>
      injection hsame with _ ht
      exact .this (h.use rfl rfl) (h.token 0 rfl rfl ht)
    | _ => cases hsame
termination_by structural e => e

theorem Expr.likeAll_of_twins : ∀ (es es' : List Expr),
    Expr.mapAll blank nowhere es' = Expr.mapAll blank nowhere es →
      (∀ e ∈ es, ∀ e' ∈ es', Twins programs d (.expr e) (.expr e')) → List.Forall₂ (Expr.Like (.resolved d)) es es'
  | [], [], _, _ => .nil
  | [], _ :: _, hsame, _ => by cases hsame
  | _ :: _, [], hsame, _ => by cases hsame
  | e :: es, e' :: es', hsame, h => by
    obtain ⟨he, hes⟩ := List.cons_eq_cons.1 hsame
    exact .cons (Expr.like_of_twins e e' he (h e List.mem_cons_self e' List.mem_cons_self))
      (Expr.likeAll_of_twins es es' hes fun a ha a' ha' =>
        h a (List.mem_cons_of_mem _ ha) a' (List.mem_cons_of_mem _ ha'))
termination_by structural es => es

theorem Expr.likeOpt_of_twins : ∀ (v v' : Option Expr),
    Expr.mapOpt blank nowhere v' = Expr.mapOpt blank nowhere v →
      (∀ e ∈ v, ∀ e' ∈ v', Twins programs d (.expr e) (.expr e')) → Option.Rel (Expr.Like (.resolved d)) v v'
  | none, none, _, _ => .none
  | none, some _, hsame, _ => by cases hsame
  | some _, none, hsame, _ => by cases hsame
  | some e, some e', hsame, h => .some (Expr.like_of_twins e e' (Option.some.inj hsame) (h e rfl e' rfl))
termination_by structural v => v

/-- The same statement at places alike is resolved alike. -/
theorem Stmt.like_of_twins : ∀ (s s' : Stmt), s'.map blank nowhere = s.map blank nowhere →
    Twins programs d (.stmt s) (.stmt s') → s.Like (.resolved d) s'
  | .expression _ e, x, hsame, h => by
    cases x with
    | expression _ e' =>
      injection hsame with _ he
      exact .expression (Expr.like_of_twins e e' he (h.inside 0 (fun _ => rfl) fun _ => rfl))
    | _ => cases hsame
  | .print _ e, x, hsame, h => by
    cases x with
    | print _ e' =>
      injection hsame with _ he
      exact .print (h.pos) (Expr.like_of_twins e e' he (h.inside 0 (fun _ => rfl) fun _ => rfl))
    | _ => cases hsame
  | .declare _ t v, x, hsame, h => by
    cases x with
    | declare _ t' v' =>
      injection hsame with _ ht hv
      refine .declare (h.word 0 rfl rfl ht)
        (Expr.likeOpt_of_twins v v' hv fun e he e' he' => h.part fun halike => ?_)
      rw [Option.mem_def] at he he'
      refine ⟨_, _, halike.declare t.lexeme, by simp [Fragment.parts, Stmt.parts, he], ?_⟩
      rw [← Token.lexeme_eq ht]
      simp [Fragment.parts, Stmt.parts, he']
    | _ => cases hsame
  | .block _ body, x, hsame, h => by
    cases x with
    | block _ body' =>
      injection hsame with _ hbody
      exact .block (Stmt.likeAll_of_twins body body' hbody (h.part fun halike =>
        ⟨_, _, halike.enter _ _, List.mem_singleton_self _, List.mem_singleton_self _⟩))
    | _ => cases hsame
  | .branch _ c y n, x, hsame, h => by
    cases x with
    | branch _ c' y' n' =>
      injection hsame with _ hc hy hn
      exact .branch (Expr.like_of_twins c c' hc (h.inside 0 (fun _ => rfl) fun _ => rfl))
        (Stmt.like_of_twins y y' hy (h.inside 1 (fun _ => rfl) fun _ => rfl))
        (Stmt.likeOpt_of_twins n n' hn fun s hs s' hs' => by
          rw [Option.mem_def] at hs hs'
          exact h.part fun halike =>
            ⟨_, _, halike, by simp [Fragment.parts, Stmt.parts, hs], by simp [Fragment.parts, Stmt.parts, hs']⟩)
    | _ => cases hsame
  | .loop _ c b, x, hsame, h => by
    cases x with
    | loop _ c' b' =>
      injection hsame with _ hc hb
      exact .loop (Expr.like_of_twins c c' hc (h.inside 0 (fun _ => rfl) fun _ => rfl))
        (Stmt.like_of_twins b b' hb (h.part fun halike =>
          ⟨_, _, halike.enterLoop, List.mem_cons_of_mem _ List.mem_cons_self,
            List.mem_cons_of_mem _ List.mem_cons_self⟩))
    | _ => cases hsame
  | .forLoop pos s c u b, x, hsame, h => by
    cases x with
    | forLoop pos' s' c' u' b' =>
      injection hsame with _ hs hc hu hb
      have hinside : ∀ {Γ Γ' : Environs}, Γ.Alike Γ' →
          (Γ.enter (.header pos s c u b)).Alike (Γ'.enter (.header pos' s' c' u' b')) := fun halike => halike.enter _ _
      refine .forLoop
        (Stmt.likeOpt_of_twins s s' hs fun a ha a' ha' => h.part fun halike => ⟨_, _, hinside halike, ?_, ?_⟩)
        (Expr.likeOpt_of_twins c c' hc fun a ha a' ha' => h.part fun halike =>
          ⟨_, _, (hinside halike).afterOpt hs, ?_, ?_⟩)
        (Expr.likeOpt_of_twins u u' hu fun a ha a' ha' => h.part fun halike =>
          ⟨_, _, (hinside halike).afterOpt hs, ?_, ?_⟩)
        (Stmt.like_of_twins b b' hb (h.part fun halike => ⟨_, _, ((hinside halike).afterOpt hs).enterLoop,
          List.mem_append_right _ (List.mem_singleton_self _), List.mem_append_right _ (List.mem_singleton_self _)⟩))
      all_goals
        rw [Option.mem_def] at ha ha'
        simp [Fragment.parts, Stmt.parts, ha, ha']
    | _ => cases hsame
  | .leave _, x, hsame, h => by
    cases x with
    | leave _ =>
      exact .leave
    | _ => cases hsame
  | .skip _, x, hsame, h => by
    cases x with
    | skip _ =>
      exact .skip
    | _ => cases hsame
  | .result _ v, x, hsame, h => by
    cases x with
    | result _ v' =>
      injection hsame with _ hv
      exact .result (Expr.likeOpt_of_twins v v' hv fun e he e' he' => by
        rw [Option.mem_def] at he he'
        exact h.part fun halike =>
          ⟨_, _, halike, by simp [Fragment.parts, Stmt.parts, he], by simp [Fragment.parts, Stmt.parts, he']⟩)
    | _ => cases hsame
  | .function (.mk t ps body), x, hsame, h => by
    cases x with
    | function d' =>
      obtain ⟨t', ps', body'⟩ := d'
      injection hsame with hd
      injection hd with ht hps hbody
      obtain ⟨hknown, Γ, Γ', -, hs, hs'⟩ := id h
      have hlexeme := Token.lexeme_eq ht
      refine .function (.mk (h.word 0 rfl rfl ht)
        (Token.likeAll_resolved (fun p hp => (hknown.built hs).1 p (List.mem_cons_of_mem _ hp))
          (fun p hp => (hknown.built hs').1 p (List.mem_cons_of_mem _ hp)) hps)
        (Stmt.likeAll_of_twins body body' hbody (h.part fun {Γ Γ'} halike => ?_)))
      have hadded : (Γ.add t.lexeme).Alike (Γ'.add t'.lexeme) := by
        rw [hlexeme]
        exact halike.add _
      exact ⟨_, _, hadded.enterFunction .function .function (Token.lexemes_eq hps) body body',
        List.mem_singleton_self _, List.mem_singleton_self _⟩
    | _ => cases hsame
  | .classDecl _ t fs ms, x, hsame, h => by
    cases x with
    | classDecl _ t' fs' ms' =>
      injection hsame with _ ht hfs hms
      obtain ⟨hknown, Γ, Γ', -, hs, hs'⟩ := id h
      have hlexeme := Token.lexeme_eq ht
      have hadded : ∀ {Γ Γ' : Environs}, Γ.Alike Γ' → (Γ.add t.lexeme).Alike (Γ'.add t'.lexeme) := by
        intro Γ Γ' halike
        rw [hlexeme]
        exact halike.add _
      refine .classDecl (h.word 0 rfl rfl ht)
        (Field.likeAll_of_twins fs fs' hfs fun f hf f' hf' => h.part fun halike => ⟨_, _, hadded halike,
          List.mem_append_left _ (List.mem_map_of_mem hf), List.mem_append_left _ (List.mem_map_of_mem hf')⟩)
        (Function.likeAll_of_twins ms ms' hms (fun f hf p hp => (hknown.built hs).1 p ?_)
          (fun f hf p hp => (hknown.built hs').1 p ?_) fun f hf f' hf' hps => h.part fun halike =>
            ⟨_, _, ((hadded halike).receive _ _).enterFunction _ _ hps _ _,
              List.mem_append_right _ (List.mem_map_of_mem hf), List.mem_append_right _ (List.mem_map_of_mem hf')⟩)
      all_goals exact List.mem_cons_of_mem _ (List.mem_flatMap.2 ⟨f, hf, hp⟩)
    | _ => cases hsame
termination_by structural s => s

theorem Stmt.likeAll_of_twins : ∀ (ss ss' : List Stmt),
    Stmt.mapAll blank nowhere ss' = Stmt.mapAll blank nowhere ss → Twins programs d (.list ss) (.list ss') →
      List.Forall₂ (Stmt.Like (.resolved d)) ss ss'
  | [], [], _, _ => .nil
  | [], _ :: _, hsame, _ => by cases hsame
  | _ :: _, [], hsame, _ => by cases hsame
  | s :: ss, s' :: ss', hsame, h => by
    obtain ⟨hs, hss⟩ := List.cons_eq_cons.1 hsame
    refine .cons (Stmt.like_of_twins s s' hs (h.inside 0 (fun _ => rfl) fun _ => rfl))
      (Stmt.likeAll_of_twins ss ss' hss (h.part fun halike => ⟨_, _, halike.after hs, ?_, ?_⟩))
    all_goals exact List.mem_cons_of_mem _ List.mem_cons_self
termination_by structural ss => ss

theorem Stmt.likeOpt_of_twins : ∀ (v v' : Option Stmt),
    Stmt.mapOpt blank nowhere v' = Stmt.mapOpt blank nowhere v →
      (∀ s ∈ v, ∀ s' ∈ v', Twins programs d (.stmt s) (.stmt s')) → Option.Rel (Stmt.Like (.resolved d)) v v'
  | none, none, _, _ => .none
  | none, some _, hsame, _ => by cases hsame
  | some _, none, hsame, _ => by cases hsame
  | some s, some s', hsame, h => .some (Stmt.like_of_twins s s' (Option.some.inj hsame) (h s rfl s' rfl))
termination_by structural v => v

theorem Function.likeAll_of_twins : ∀ (fs fs' : List Function),
    Function.mapAll blank nowhere fs' = Function.mapAll blank nowhere fs →
      (∀ f ∈ fs, ∀ t ∈ f.name :: f.params, t.Proper) → (∀ f ∈ fs', ∀ t ∈ f.name :: f.params, t.Proper) →
      (∀ f ∈ fs, ∀ f' ∈ fs', f'.params.map Token.lexeme = f.params.map Token.lexeme →
        Twins programs d (.list f.body) (.list f'.body)) → List.Forall₂ (Function.Like (.resolved d)) fs fs'
  | [], [], _, _, _, _ => .nil
  | [], _ :: _, hsame, _, _, _ => by cases hsame
  | _ :: _, [], hsame, _, _, _ => by cases hsame
  | .mk t ps body :: fs, .mk t' ps' body' :: fs', hsame, hproper, hproper', h => by
    obtain ⟨hf, hfs⟩ := List.cons_eq_cons.1 hsame
    injection hf with ht hps hbody
    rw [List.forall_mem_cons] at hproper hproper'
    have hwords := List.forall_mem_cons.1 hproper.1
    have hwords' := List.forall_mem_cons.1 hproper'.1
    have htwins := h _ List.mem_cons_self _ List.mem_cons_self (Token.lexemes_eq hps)
    exact .cons (.mk (Token.like_resolved hwords.1 hwords'.1 ht) (Token.likeAll_resolved hwords.2 hwords'.2 hps)
        (Stmt.likeAll_of_twins body body' hbody htwins))
      (Function.likeAll_of_twins fs fs' hfs hproper.2 hproper'.2 fun f hf f' hf' =>
        h f (List.mem_cons_of_mem _ hf) f' (List.mem_cons_of_mem _ hf'))
termination_by structural fs => fs

theorem Field.likeAll_of_twins : ∀ (fs fs' : List Field),
    Field.mapAll blank nowhere fs' = Field.mapAll blank nowhere fs →
      (∀ f ∈ fs, ∀ f' ∈ fs', Twins programs d (.expr f.value) (.expr f'.value)) →
      List.Forall₂ (Field.Like (.resolved d)) fs fs'
  | [], [], _, _ => .nil
  | [], _ :: _, hsame, _ => by cases hsame
  | _ :: _, [], hsame, _ => by cases hsame
  | .mk t e :: fs, .mk t' e' :: fs', hsame, h => by
    obtain ⟨hf, hfs⟩ := List.cons_eq_cons.1 hsame
    injection hf with ht he
    exact .cons (.mk (Token.lexeme_eq ht) (Expr.like_of_twins e e' he (h _ List.mem_cons_self _ List.mem_cons_self)))
      (Field.likeAll_of_twins fs fs' hfs fun f hf f' hf' =>
        h f (List.mem_cons_of_mem _ hf) f' (List.mem_cons_of_mem _ hf'))
termination_by structural fs => fs

end

end Treewalk
