import Treewalk.Proofs.Parser.Drawing
import Treewalk.Proofs.Scope.Steps

/-!
# Where the check reports

The check reports at tokens and positions of the program only, whatever the program (`Resolution.at_tokens`): a
fault at the name that is declared twice or at the keyword that is out of place, a warning at the name that
is not used or at the statement that is not reached.

A warning about a name is given when its scope ends, far from the name. So the invariant (`Scope.State.At`)
is about the entries of the open scopes as well as about what was reported.
-/

namespace Treewalk

open Scope

variable {P : Token → Prop}

/-- What was reported, and what the open scopes have in store, is at tokens of a kind. -/
structure Scope.State.At (P : Token → Prop) (s : Scope.State) : Prop where
  faults : ∀ d ∈ s.faults, d.At P
  warnings : ∀ d ∈ s.warnings, d.At P
  entries : ∀ scope ∈ s.scopes, ∀ e ∈ scope, ∃ t, P t ∧ e.name.pos = t.pos

/-- A step of the check reports at tokens of a kind. -/
def Sited {α : Type} (P : Token → Prop) (c : Check α) : Prop :=
  ∀ s, s.At P → match c s with
    | .ok _ s' => s'.At P
    | .error d s' => s'.At P ∧ d.At P

namespace Sited

variable {α β : Type} {c : Check α}

theorem bind {f : α → Check β} (hc : Sited P c) (hf : ∀ a, Sited P (f a)) : Sited P (c >>= f) := by
  intro s hs
  have hfirst := hc s hs
  simp only [Bind.bind, EStateM.bind]
  cases hrun : c s with
  | error d s' =>
    rw [hrun] at hfirst
    exact hfirst
  | ok a s' =>
    rw [hrun] at hfirst
    exact hf a s' hfirst

theorem pure (a : α) : Sited P (Pure.pure a : Check α) := fun _ hs => hs

theorem depth : Sited P Scope.depth := fun _ hs => hs

theorem declare (name : Token) {t : Token} (ht : P t) (hpos : name.pos = t.pos) (origin : Origin) :
    Sited P (Scope.declare name origin) := by
  intro s hs
  unfold Scope.declare
  rcases hscopes : s.scopes with _ | ⟨scope, outer⟩
  · exact hs
  · have hentries := hs.entries
    rw [hscopes] at hentries
    obtain ⟨hscope, houter⟩ := List.forall_mem_cons.1 hentries
    by_cases hany : scope.any (·.name.lexeme == name.lexeme) = true
    · simp only [hany, if_true]
      exact ⟨hs, t, ht, by rw [← hpos]; rfl⟩
    · simp only [hany]
      refine ⟨hs.faults, hs.warnings, List.forall_mem_cons.2 ⟨fun e he => ?_, houter⟩⟩
      rcases List.mem_append.1 he with he | he
      · exact hscope e he
      · rw [List.mem_singleton.1 he]
        exact ⟨t, ht, hpos⟩

/-- Marks leave the names as they are. -/
theorem entries_mark {name : Bytes} {f : Entry → Entry} (hf : ∀ e, (f e).name = e.name) {scope : Scope}
    (h : ∀ e ∈ scope, ∃ t, P t ∧ e.name.pos = t.pos) :
    ∀ e ∈ Scope.mark name f scope, ∃ t, P t ∧ e.name.pos = t.pos := by
  intro e he
  obtain ⟨e', he', rfl⟩ := List.mem_map.1 he
  split
  · rw [hf]
    exact h e' he'
  · exact h e' he'

theorem define (name : Token) : Sited P (Scope.define name) := by
  intro s hs
  unfold Scope.define
  rcases hscopes : s.scopes with _ | ⟨scope, outer⟩
  · exact hs
  · have hentries := hs.entries
    rw [hscopes] at hentries
    obtain ⟨hscope, houter⟩ := List.forall_mem_cons.1 hentries
    refine ⟨hs.faults, hs.warnings, List.forall_mem_cons.2 ⟨?_, houter⟩⟩
    exact entries_mark (f := ({ · with ready := true })) (fun _ => rfl) hscope

theorem useName (ctx : Context) (id : NodeId) (use : Use) (name : Token) :
    Sited P (Scope.useName ctx id use name) := by
  intro s hs
  unfold Scope.useName
  cases distance? ctx.outside name.lexeme s.scopes with
  | none => exact hs
  | some d =>
    refine ⟨hs.faults, hs.warnings, fun scope hscope => ?_⟩
    obtain ⟨i, hi⟩ := List.mem_iff_getElem?.1 hscope
    rw [List.getElem?_modify, Option.map_eq_map, Option.map_eq_some_iff] at hi
    obtain ⟨old, hold, rfl⟩ := hi
    have hmem := hs.entries old (List.mem_of_getElem? hold)
    split
    · exact entries_mark (f := ({ · with used := true })) (fun _ => rfl) hmem
    · exact hmem

theorem require {keyword : Token} (hkeyword : P keyword) (ok : Bool) (message : String) :
    Sited P (Scope.require ok keyword message) := by
  cases ok with
  | true => exact .pure ()
  | false => exact fun _ hs => ⟨hs, keyword, hkeyword, rfl⟩

theorem warn {d : Diagnostic} (hd : d.At P) : Sited P (Scope.warn d) :=
  fun _ hs => ⟨hs.faults, List.forall_mem_cons.2 ⟨hd, hs.warnings⟩, hs.entries⟩

theorem declareAll {ps : List Token} (hps : ∀ p ∈ ps, P p) : Sited P (Scope.declareAll ps) := by
  induction ps with
  | nil => exact .pure ()
  | cons p ps ih =>
    obtain ⟨hp, hps⟩ := List.forall_mem_cons.1 hps
    exact (declare p hp rfl _).bind fun _ => (define p).bind fun _ => ih hps

/-- The warnings that a scope ends with are about its own names. -/
theorem within {c : Check Unit} (h : Sited P c) : Sited P (Scope.within c) := by
  intro s hs
  have hinside := h { s with scopes := [] :: s.scopes }
    ⟨hs.faults, hs.warnings, List.forall_mem_cons.2 ⟨List.forall_mem_nil _, hs.entries⟩⟩
  have htail : ∀ s' : Scope.State, s'.At P →
      ∀ scope ∈ s'.scopes.tail, ∀ e ∈ scope, ∃ t, P t ∧ e.name.pos = t.pos :=
    fun s' hs' scope hscope => hs'.entries scope (List.mem_of_mem_tail hscope)
  unfold Scope.within
  cases hrun : c { s with scopes := [] :: s.scopes } with
  | ok a s' =>
    rw [hrun] at hinside
    refine ⟨hinside.faults, fun d hd => ?_, htail s' hinside⟩
    rcases List.mem_append.1 hd with hd | hd
    · obtain ⟨e, he, rfl⟩ := List.mem_map.1 (List.mem_reverse.1 hd)
      have hmem := List.mem_of_mem_filter he
      cases hscopes : s'.scopes with
      | nil => simp [hscopes] at hmem
      | cons scope outer =>
        rw [hscopes] at hmem
        obtain ⟨t, ht, hpos⟩ := hinside.entries scope (hscopes ▸ List.mem_cons_self) e hmem
        exact ⟨t, ht, by rw [← hpos]; rfl⟩
    · exact hinside.warnings d hd
  | error d s' =>
    rw [hrun] at hinside
    exact ⟨⟨hinside.1.faults, hinside.1.warnings, htail s' hinside.1⟩, hinside.2⟩

theorem recording {c : Check Unit} (h : Sited P c) : Sited P (Scope.recording c) := by
  intro s hs
  have hrun := h s hs
  unfold Scope.recording
  cases hc : c s with
  | ok a s' =>
    rw [hc] at hrun
    exact hrun
  | error d s' =>
    rw [hc] at hrun
    exact ⟨List.forall_mem_cons.2 ⟨hrun.2, hrun.1.faults⟩, hrun.1.warnings, hrun.1.entries⟩

/-- A function: its parameters and its body in a scope of their own. -/
theorem function {ctx : Context} {body : Body} {params : List Token} {stmts : List Stmt}
    (hparams : ∀ p ∈ params, P p) (hstmts : ∀ ctx, Sited P (Stmt.checkAll ctx false stmts)) :
    Sited P (do
      let inner := ctx.enter body (← Scope.depth)
      Scope.within do
        Scope.declareAll params
        Stmt.checkAll inner false stmts) :=
  .bind .depth fun _ => .within (.bind (.declareAll hparams) fun _ => hstmts _)

end Sited

/-! ## Along the trees -/

/-- A part, whatever is around it. -/
theorem Fragment.Throughout.inner {p q : Fragment} (h : p.Throughout P)
    (hpart : ∃ Δ, (Δ, q) ∈ p.parts {}) : q.Throughout P :=
  hpart.elim fun _ => h.part

theorem Fragment.Throughout.forLoop {pos : Position} {start : Option Stmt} {cond step : Option Expr} {body : Stmt}
    (h : (Fragment.stmt (.forLoop pos start cond step body)).Throughout P) :
    (∀ s ∈ start, (Fragment.stmt s).Throughout P) ∧ (∀ e ∈ cond, (Fragment.expr e).Throughout P) ∧
      (∀ e ∈ step, (Fragment.expr e).Throughout P) ∧ (Fragment.stmt body).Throughout P :=
  ⟨fun _ hs => h.inner ⟨_, List.mem_append_left _ (List.mem_append_left _ (List.mem_append_left _
      (List.mem_map_of_mem (Option.mem_toList.2 hs))))⟩,
    fun _ he => h.inner ⟨_, List.mem_append_left _ (List.mem_append_left _ (List.mem_append_right _
      (List.mem_map_of_mem (Option.mem_toList.2 he))))⟩,
    fun _ he => h.inner ⟨_, List.mem_append_left _ (List.mem_append_right _
      (List.mem_map_of_mem (Option.mem_toList.2 he)))⟩,
    h.inner ⟨_, List.mem_append_right _ List.mem_cons_self⟩⟩

mutual

theorem Expr.check_sited (ctx : Context) : ∀ e : Expr, (Fragment.expr e).Throughout P → Sited P (e.check ctx)
  | .literal _ _, _ => .pure ()
  | .group _ _ e, h | .unary _ _ _ e, h | .updateGet _ e _ _ _ _, h | .get _ e _, h =>
    e.check_sited ctx (h.inner ⟨_, List.mem_cons_self⟩)
  | .binary _ _ _ l r, h | .logical _ _ _ l r, h | .updateIndex _ l _ r _ _ _, h | .index _ l _ r, h =>
    .bind (l.check_sited ctx (h.inner ⟨_, List.mem_cons_self⟩)) fun _ =>
      r.check_sited ctx (h.inner ⟨_, List.mem_cons_of_mem _ List.mem_cons_self⟩)
  | .set _ object _ value, h =>
    .bind (value.check_sited ctx (h.inner ⟨_, List.mem_cons_of_mem _ List.mem_cons_self⟩)) fun _ =>
      object.check_sited ctx (h.inner ⟨_, List.mem_cons_self⟩)
  | .ternary _ _ cond yes no, h =>
    .bind (cond.check_sited ctx (h.inner ⟨_, List.mem_cons_self⟩)) fun _ =>
      .bind (yes.check_sited ctx (h.inner ⟨_, List.mem_cons_of_mem _ List.mem_cons_self⟩)) fun _ =>
        no.check_sited ctx (h.inner ⟨{}, by simp [Fragment.parts, Expr.parts]⟩)
  | .ident id name, _ => .useName ctx id .read name
  | .assign id name value, h =>
    .bind (value.check_sited ctx (h.inner ⟨_, List.mem_cons_self⟩)) fun _ => .useName ctx id .assign name
  | .compound id name _ _ value, h =>
    .bind (value.check_sited ctx (h.inner ⟨_, List.mem_cons_self⟩)) fun _ => .useName ctx id .compound name
  | .update id name _ token _, _ => .useName ctx id .update { name with pos := token.pos }
  | .call _ callee _ args, h =>
    .bind (callee.check_sited ctx (h.inner ⟨_, List.mem_cons_self⟩)) fun _ =>
      Expr.checkAll_sited ctx args fun e he =>
        h.inner ⟨{}, List.mem_cons_of_mem _ (List.mem_map_of_mem he)⟩
  | .lambda _ _ _ body, h =>
    .function (fun p hp => h.built p (List.mem_cons_of_mem _ hp)) fun ctx =>
      Stmt.checkAll_sited ctx false body (h.inner ⟨_, List.mem_cons_self⟩)
  | .array _ _ elements, h =>
    Expr.checkAll_sited ctx elements fun e he => h.inner ⟨{}, List.mem_map_of_mem he⟩
  | .this id keyword, h =>
    .bind (.require (h.built keyword List.mem_cons_self) _ _) fun _ => .useName ctx id .receiver _

theorem Expr.checkAll_sited (ctx : Context) : ∀ es : List Expr,
    (∀ e ∈ es, (Fragment.expr e).Throughout P) → Sited P (Expr.checkAll ctx es)
  | [], _ => .pure ()
  | e :: es, h =>
    .bind (e.check_sited ctx (h e List.mem_cons_self)) fun _ =>
      Expr.checkAll_sited ctx es fun e' he' => h e' (List.mem_cons_of_mem _ he')

theorem Expr.checkOpt_sited (ctx : Context) : ∀ e : Option Expr,
    (∀ v ∈ e, (Fragment.expr v).Throughout P) → Sited P (Expr.checkOpt ctx e)
  | none, _ => .pure ()
  | some e, h => e.check_sited ctx (h e rfl)

theorem Stmt.check_sited (ctx : Context) : ∀ s : Stmt, (Fragment.stmt s).Throughout P → Sited P (s.check ctx)
  | .expression _ e, h | .print _ e, h => e.check_sited ctx (h.inner ⟨_, List.mem_cons_self⟩)
  | .declare _ name value, h =>
    .bind (.declare name (h.built.1 name List.mem_cons_self) rfl _) fun _ =>
      .bind (Expr.checkOpt_sited ctx value fun v hv => h.inner (by cases hv; exact ⟨_, List.mem_cons_self⟩))
        fun _ => .define name
  | .block _ body, h => .within (Stmt.checkAll_sited ctx false body (h.inner ⟨_, List.mem_cons_self⟩))
  | .branch _ cond yes no, h =>
    .bind (cond.check_sited ctx (h.inner ⟨_, List.mem_cons_self⟩)) fun _ =>
      .bind (yes.check_sited ctx (h.inner ⟨_, List.mem_cons_of_mem _ List.mem_cons_self⟩)) fun _ =>
        Stmt.checkOpt_sited ctx no fun v hv =>
          h.inner (by cases hv; exact ⟨{}, by simp [Fragment.parts, Stmt.parts]⟩)
  | .loop _ cond body, h =>
    .bind (cond.check_sited ctx (h.inner ⟨_, List.mem_cons_self⟩)) fun _ =>
      body.check_sited _ (h.inner ⟨_, List.mem_cons_of_mem _ List.mem_cons_self⟩)
  | .forLoop _ start cond step body, h =>
    have ⟨hstart, hcond, hstep, hbody⟩ := h.forLoop
    .within (.bind (Stmt.checkOpt_sited ctx start hstart) fun _ =>
      .bind (Expr.checkOpt_sited ctx cond hcond) fun _ => .bind (Expr.checkOpt_sited ctx step hstep) fun _ =>
        body.check_sited _ hbody)
  | .leave keyword, h | .skip keyword, h => .require (h.built.1 keyword List.mem_cons_self) _ _
  | .result keyword value, h =>
    .bind (.require (h.built.1 keyword List.mem_cons_self) _ _) fun _ =>
      .bind (.require (h.built.1 keyword List.mem_cons_self) _ _) fun _ =>
        Expr.checkOpt_sited ctx value fun v hv => h.inner (by cases hv; exact ⟨_, List.mem_cons_self⟩)
  | .function (.mk name params body), h =>
    .bind (.declare name (h.built.1 name List.mem_cons_self) rfl _) fun _ => .bind (.define name) fun _ =>
      .function (fun p hp => h.built.1 p (List.mem_cons_of_mem _ hp)) fun ctx =>
        Stmt.checkAll_sited ctx false body (h.inner ⟨_, List.mem_cons_self⟩)
  | .classDecl _ name fields methods, h =>
    have hname : P name := h.built.1 name List.mem_cons_self
    .bind (.declare name hname rfl _) fun _ => .bind (.define name) fun _ =>
      .bind (Field.checkAll_sited ctx fields fun d hd =>
        h.inner ⟨_, List.mem_append_left _ (List.mem_map_of_mem hd)⟩) fun _ =>
        .within (.bind (.declare (receiver name) hname rfl _) fun _ => .bind (.define (receiver name)) fun _ =>
          Function.checkAll_sited _ methods fun d hd =>
            ⟨fun t ht => h.built.1 t (List.mem_cons_of_mem _ (List.mem_flatMap.2 ⟨d, hd, ht⟩)),
              h.inner ⟨_, List.mem_append_right _ (List.mem_map_of_mem hd)⟩⟩)

theorem Stmt.checkOpt_sited (ctx : Context) : ∀ s : Option Stmt,
    (∀ v ∈ s, (Fragment.stmt v).Throughout P) → Sited P (Stmt.checkOpt ctx s)
  | none, _ => .pure ()
  | some s, h => s.check_sited ctx (h s rfl)

theorem Stmt.checkAll_sited (ctx : Context) (exited : Bool) : ∀ ss : List Stmt,
    (Fragment.list ss).Throughout P → Sited P (Stmt.checkAll ctx exited ss)
  | [], _ => .pure ()
  | s :: ss, h => by
    have hs : (Fragment.stmt s).Throughout P := h.inner ⟨_, List.mem_cons_self⟩
    have hss : (Fragment.list ss).Throughout P := h.inner ⟨_, List.mem_cons_of_mem _ List.mem_cons_self⟩
    have hrest : Sited P (do
        Scope.recording (s.check ctx)
        Stmt.checkAll ctx s.exits ss : Check Unit) :=
      .bind (.recording (s.check_sited ctx hs)) fun _ => Stmt.checkAll_sited ctx s.exits ss hss
    rw [Stmt.checkAll]
    cases exited with
    | false => exact hrest
    | true =>
      obtain ⟨-, t, ht, hpos⟩ := hs.built
      exact .bind (.warn ⟨t, ht, by rw [hpos]; rfl⟩) fun _ => hrest

theorem Function.checkAll_sited (ctx : Context) : ∀ ds : List Function,
    (∀ d ∈ ds, (∀ t ∈ d.name :: d.params, P t) ∧ (Fragment.list d.body).Throughout P) →
      Sited P (Function.checkAll ctx ds)
  | [], _ => .pure ()
  | .mk _ _ body :: ds, h =>
    have hd := h _ List.mem_cons_self
    .bind .depth fun _ => .bind (.within (.bind
        (.declareAll fun p hp => hd.1 p (List.mem_cons_of_mem _ hp)) fun _ =>
          Stmt.checkAll_sited _ false body hd.2)) fun _ =>
      Function.checkAll_sited ctx ds fun d' hd' => h d' (List.mem_cons_of_mem _ hd')

theorem Field.checkAll_sited (ctx : Context) : ∀ ds : List Field,
    (∀ d ∈ ds, (Fragment.expr d.value).Throughout P) → Sited P (Field.checkAll ctx ds)
  | [], _ => .pure ()
  | .mk _ value :: ds, h =>
    .bind (value.check_sited ctx (h _ List.mem_cons_self)) fun _ =>
      Field.checkAll_sited ctx ds fun d' hd' => h d' (List.mem_cons_of_mem _ hd')

end

/-- Whatever the program, the check reports at its tokens and positions only. -/
theorem Resolution.at_tokens {stmts : List Stmt} (h : (Fragment.list stmts).Throughout P) :
    (∀ d ∈ (ofProgram stmts).faults, d.At P) ∧ ∀ d ∈ (ofProgram stmts).warnings, d.At P := by
  have hstart : Scope.State.At P {} :=
    ⟨List.forall_mem_nil _, List.forall_mem_nil _, List.forall_mem_nil _⟩
  have hrun := Stmt.checkAll_sited {} false stmts h {} hstart
  unfold ofProgram
  split at hrun
  next s heq =>
    rw [heq]
    exact ⟨fun d hd => hrun.faults d (List.mem_reverse.1 hd), fun d hd => hrun.warnings d (List.mem_reverse.1 hd)⟩
  next d s heq =>
    rw [heq]
    exact ⟨fun d hd => hrun.1.faults d (List.mem_reverse.1 hd), fun d hd => hrun.1.warnings d (List.mem_reverse.1 hd)⟩

end Treewalk
