import Treewalk.Proofs.Scope.Resolved

/-!
# What the check notes

Whatever the check finds, it notes uses under identities of the program only, under each at most as often as
the program has it (`Stmt.checkAll_notes`, `Resolution.uses_subperm`), also for a program that it refuses.
Together with the parser's numbering this keeps sources apart: a source, accepted or refused, touches the table
of distances only between the identities given out before it and those given out after it
(`Interpreter.compile_table`).
-/

namespace Treewalk

open Scope

/-- However it ends, a step of the check notes uses under some of these identities, under each at most as often
as it is listed. -/
def Notes {α : Type} (c : Check α) (ids : List NodeId) : Prop :=
  ∀ s, match c s with
    | .ok _ s' | .error _ s' => ∃ us, s'.uses = us ++ s.uses ∧ (us.map (·.id)).Subperm ids

namespace Notes

variable {α β : Type} {c : Check α} {ids ids' : List NodeId}

theorem mono (h : Notes c ids) (hids : ids.Subperm ids') : Notes c ids' := by
  intro s
  have hs := h s
  split <;> rename_i s' heq <;> rw [heq] at hs <;> obtain ⟨us, huses, hsub⟩ := hs <;>
    exact ⟨us, huses, hsub.trans hids⟩

/-- A step that leaves the uses alone. -/
theorem of_same (h : ∀ s, match c s with | .ok _ s' | .error _ s' => s'.uses = s.uses) : Notes c ids := by
  intro s
  have hs := h s
  split <;> rename_i s' heq <;> rw [heq] at hs <;> exact ⟨[], hs, List.nil_subperm⟩

/-- Two steps with identities of their own. -/
theorem andThen {f : α → Check β} (hc : Notes c ids) (hf : ∀ a, Notes (f a) ids') :
    Notes (c >>= f) (ids ++ ids') := by
  intro s
  have hs := hc s
  simp only [Bind.bind, EStateM.bind]
  cases hrun : c s with
  | error d s' =>
    rw [hrun] at hs
    obtain ⟨us, huses, hsub⟩ := hs
    exact ⟨us, huses, hsub.trans (List.sublist_append_left ..).subperm⟩
  | ok a s' =>
    rw [hrun] at hs
    obtain ⟨us, huses, hsub⟩ := hs
    have hs' := hf a s'
    dsimp only
    split <;> rename_i s'' heq <;> rw [heq] at hs' <;> obtain ⟨us', huses', hsub'⟩ := hs' <;>
      refine ⟨us' ++ us, by rw [huses', huses, List.append_assoc], ?_⟩ <;>
      rw [List.map_append] <;>
      exact List.perm_append_comm.subperm.trans (hsub.append hsub')

/-- A first step that notes nothing. -/
theorem after {f : α → Check β} (hc : Notes c []) (hf : ∀ a, Notes (f a) ids) : Notes (c >>= f) ids :=
  hc.andThen hf

/-- A last step that notes nothing. -/
theorem before {f : α → Check β} (hc : Notes c ids) (hf : ∀ a, Notes (f a) []) : Notes (c >>= f) ids := by
  have h := hc.andThen hf
  rwa [List.append_nil] at h

theorem pure (a : α) : Notes (Pure.pure a : Check α) ids := of_same fun _ => rfl

theorem depth : Notes Scope.depth ids := of_same fun _ => rfl

theorem declare (name : Token) (origin : Origin) : Notes (Scope.declare name origin) ids := by
  refine of_same fun s => ?_
  unfold Scope.declare
  rcases s.scopes with _ | ⟨scope, outer⟩
  · rfl
  · by_cases h : scope.any (·.name.lexeme == name.lexeme) = true <;> simp [h]

theorem define (name : Token) : Notes (Scope.define name) ids := by
  refine of_same fun s => ?_
  unfold Scope.define
  rcases s.scopes with _ | ⟨scope, outer⟩ <;> rfl

theorem declareAll (ps : List Token) : Notes (Scope.declareAll ps) ids := by
  induction ps with
  | nil => exact .pure ()
  | cons p ps ih => exact (declare p _).after fun _ => (define p).after fun _ => ih

theorem require (ok : Bool) (keyword : Token) (message : String) :
    Notes (Scope.require ok keyword message) ids := by
  cases ok
  · exact of_same fun _ => rfl
  · exact .pure ()

theorem useName (ctx : Context) (id : NodeId) (use : Use) (name : Token) :
    Notes (Scope.useName ctx id use name) [id] := by
  intro s
  unfold Scope.useName
  cases distance? ctx.outside name.lexeme s.scopes with
  | none => exact ⟨[], rfl, List.nil_subperm⟩
  | some d => exact ⟨[⟨id, use, name.lexeme, name.pos, d⟩], rfl, .refl _⟩

theorem within {c : Check Unit} (h : Notes c ids) : Notes (Scope.within c) ids := by
  intro s
  have hs := h { s with scopes := [] :: s.scopes }
  unfold Scope.within
  cases hrun : c { s with scopes := [] :: s.scopes } with
  | ok a s' =>
    rw [hrun] at hs
    exact hs
  | error d s' =>
    rw [hrun] at hs
    exact hs

theorem recording {c : Check Unit} (h : Notes c ids) : Notes (Scope.recording c) ids := by
  intro s
  have hs := h s
  unfold Scope.recording
  cases hrun : c s with
  | ok a s' =>
    rw [hrun] at hs
    exact hs
  | error d s' =>
    rw [hrun] at hs
    exact hs

/-- The identity of a form that notes nothing itself. -/
theorem inner {id : NodeId} (h : Notes c ids) : Notes c (id :: ids) :=
  h.mono (List.sublist_cons_self id ids).subperm

/-- The value of an assignment is checked before the name is used. -/
theorem thenUse {c : Check Unit} {ctx : Context} {id : NodeId} {use : Use} {name : Token} (h : Notes c ids) :
    Notes (c >>= fun _ => Scope.useName ctx id use name) (id :: ids) :=
  (h.andThen fun _ => .useName ctx id use name).mono (List.perm_append_singleton id ids).subperm

end Notes

/-- The body of a function, with its parameters declared. -/
theorem notes_body {ctx : Context} {body : Body} {params : List Token} {stmts : List Stmt}
    (h : ∀ ctx, Notes (Stmt.checkAll ctx false stmts) (Stmt.nodesAll stmts)) :
    Notes (do
      let inner := ctx.enter body (← Scope.depth)
      Scope.within do
        Scope.declareAll params
        Stmt.checkAll inner false stmts) (Stmt.nodesAll stmts) :=
  .after .depth fun _ => .within (.after (.declareAll params) fun _ => h _)

mutual

theorem Expr.check_notes (ctx : Context) : ∀ e : Expr, Notes (e.check ctx) e.nodes
  | .literal _ _ => .pure ()
  | .group id _ inner => (inner.check_notes ctx).inner
  | .unary id _ _ operand => (operand.check_notes ctx).inner
  | .binary id _ _ left right =>
    ((left.check_notes ctx).andThen fun _ => right.check_notes ctx).inner
  | .logical id _ _ left right =>
    ((left.check_notes ctx).andThen fun _ => right.check_notes ctx).inner
  | .ternary id _ cond yes no => by
    rw [Expr.nodes, List.append_assoc]
    exact ((cond.check_notes ctx).andThen fun _ => (yes.check_notes ctx).andThen fun _ =>
      no.check_notes ctx).inner
  | .ident id name => .useName ctx id .read name
  | .assign id name value =>
    (value.check_notes ctx).thenUse
  | .compound id name _ _ value =>
    (value.check_notes ctx).thenUse
  | .update id name _ token _ => .useName ctx id .update { name with pos := token.pos }
  | .updateIndex id object _ index _ _ _ =>
    ((object.check_notes ctx).andThen fun _ => index.check_notes ctx).inner
  | .updateGet id object _ _ _ _ => (object.check_notes ctx).inner
  | .call id callee _ args =>
    ((callee.check_notes ctx).andThen fun _ => Expr.checkAll_notes ctx args).inner
  | .lambda id _ params body =>
    (notes_body fun ctx => Stmt.checkAll_notes ctx false body).inner
  | .array id _ elements => (Expr.checkAll_notes ctx elements).inner
  | .index id object _ index =>
    ((object.check_notes ctx).andThen fun _ => index.check_notes ctx).inner
  | .get id object _ => (object.check_notes ctx).inner
  | .set id object _ value =>
    (((value.check_notes ctx).andThen fun _ => object.check_notes ctx).mono
      List.perm_append_comm.subperm).inner
  | .this id keyword => .after (.require _ _ _) fun _ => .useName ctx id .receiver _

theorem Expr.checkAll_notes (ctx : Context) : ∀ es, Notes (Expr.checkAll ctx es) (Expr.nodesAll es)
  | [] => .pure ()
  | e :: es => (e.check_notes ctx).andThen fun _ => Expr.checkAll_notes ctx es

theorem Expr.checkOpt_notes (ctx : Context) : ∀ e, Notes (Expr.checkOpt ctx e) (Expr.nodesOpt e)
  | none => .pure ()
  | some e => e.check_notes ctx

theorem Stmt.check_notes (ctx : Context) : ∀ s : Stmt, Notes (s.check ctx) s.nodes
  | .expression _ e => e.check_notes ctx
  | .print _ e => e.check_notes ctx
  | .declare _ name value =>
    .after (.declare name _) fun _ => (Expr.checkOpt_notes ctx value).before fun _ => .define name
  | .block _ body => .within (Stmt.checkAll_notes ctx false body)
  | .branch _ cond yes no => by
    rw [Stmt.nodes, List.append_assoc]
    exact (cond.check_notes ctx).andThen fun _ => (yes.check_notes ctx).andThen fun _ =>
      Stmt.checkOpt_notes ctx no
  | .loop _ cond body => (cond.check_notes ctx).andThen fun _ => body.check_notes _
  | .forLoop _ start cond step body => by
    rw [Stmt.nodes, List.append_assoc, List.append_assoc]
    exact .within ((Stmt.checkOpt_notes ctx start).andThen fun _ =>
      (Expr.checkOpt_notes ctx cond).andThen fun _ => (Expr.checkOpt_notes ctx step).andThen fun _ =>
        body.check_notes _)
  | .leave _ => .require _ _ _
  | .skip _ => .require _ _ _
  | .result _ value =>
    .after (.require _ _ _) fun _ => .after (.require _ _ _) fun _ => Expr.checkOpt_notes ctx value
  | .function (.mk name params body) =>
    .after (.declare name _) fun _ => .after (.define name) fun _ =>
      notes_body fun ctx => Stmt.checkAll_notes ctx false body
  | .classDecl _ name fields methods =>
    .after (.declare name _) fun _ => .after (.define name) fun _ =>
      (Field.checkAll_notes ctx fields).andThen fun _ =>
        .within (.after (.declare (receiver name) _) fun _ => .after (.define (receiver name)) fun _ =>
          Function.checkAll_notes _ methods)

theorem Stmt.checkOpt_notes (ctx : Context) : ∀ s, Notes (Stmt.checkOpt ctx s) (Stmt.nodesOpt s)
  | none => .pure ()
  | some s => s.check_notes ctx

theorem Stmt.checkAll_notes (ctx : Context) (exited : Bool) :
    ∀ ss, Notes (Stmt.checkAll ctx exited ss) (Stmt.nodesAll ss)
  | [] => .pure ()
  | s :: ss => by
    have hrest : Notes (do
        Scope.recording (s.check ctx)
        Stmt.checkAll ctx s.exits ss : Check Unit) (Stmt.nodesAll (s :: ss)) :=
      (Notes.recording (s.check_notes ctx)).andThen fun _ => Stmt.checkAll_notes ctx s.exits ss
    rw [Stmt.checkAll]
    cases exited
    · exact hrest
    · exact .after (.of_same fun _ => rfl) fun _ => hrest

theorem Function.checkAll_notes (ctx : Context) :
    ∀ fs, Notes (Function.checkAll ctx fs) (Function.nodesAll fs)
  | [] => .pure ()
  | .mk _ params body :: fs =>
    .after .depth fun _ => Notes.andThen
      (.within (.after (.declareAll params) fun _ => Stmt.checkAll_notes _ false body)) fun _ =>
        Function.checkAll_notes ctx fs

theorem Field.checkAll_notes (ctx : Context) : ∀ fs, Notes (Field.checkAll ctx fs) (Field.nodesAll fs)
  | [] => .pure ()
  | .mk _ value :: fs => (value.check_notes ctx).andThen fun _ => Field.checkAll_notes ctx fs

end

/-- No identity is noted more often than the program has it. -/
theorem Resolution.uses_subperm (stmts : List Stmt) :
    ((Resolution.ofProgram stmts).uses.map (·.id)).Subperm (Stmt.nodesAll stmts) := by
  have hnotes := Stmt.checkAll_notes {} false stmts {}
  unfold Resolution.ofProgram
  split at hnotes <;> rename_i s' heq <;> rw [heq] <;> obtain ⟨us, huses, hsub⟩ := hnotes <;>
    rw [List.append_nil] at huses <;> subst huses <;> rw [List.map_reverse] <;>
    exact (List.reverse_perm _).subperm.trans hsub

theorem Resolution.uses_subset (stmts : List Stmt) :
    ∀ u ∈ (Resolution.ofProgram stmts).uses, u.id ∈ Stmt.nodesAll stmts :=
  fun _ hu => (uses_subperm stmts).subset (List.mem_map_of_mem hu)

/-! ## Compiling, whatever comes of it -/

theorem Parsed.nextId_le_ofSource (n : NodeId) (source : Bytes) : n ≤ (Parsed.ofSource n source).nextId := by
  obtain ⟨ts, e, htokens, he, -⟩ := Token.scan_tokens source
  show n ≤ (Parsed.ofTokens n (Token.scan source).tokens).nextId
  rw [htokens]
  exact nextId_le_ofTokens n he

namespace Interpreter

/-- Compiling keeps all but the table and the next identity. -/
theorem compile_eq (i : Interpreter) (source : Bytes) : ∃ uses : List LocalUse,
    (i.compile source).2 =
      { i with
        nextId := (Parsed.ofSource i.nextId source).nextId
        distances := i.distances.insertAll uses } ∧
      ∀ u ∈ uses, i.nextId ≤ u.id ∧ u.id < (Parsed.ofSource i.nextId source).nextId := by
  unfold compile
  cases hparsed : (Parsed.ofSource i.nextId source).faults with
  | cons d ds =>
    refine ⟨[], ?_, List.forall_mem_nil _⟩
    simp only [hparsed, Failure.ofFaults?]
    rfl
  | nil =>
    refine ⟨(Resolution.ofProgram (Parsed.ofSource i.nextId source).stmts).uses, ?_, ?_⟩
    · simp only [hparsed, Failure.ofFaults?]
      split <;> rfl
    · intro u hu
      exact (Parsed.ofSource_drawn hparsed).1.within u.id (Resolution.uses_subset _ u hu)

theorem compile_store (i : Interpreter) (source : Bytes) : (i.compile source).2.store = i.store := by
  obtain ⟨uses, heq, -⟩ := i.compile_eq source
  rw [heq]

theorem compile_console (i : Interpreter) (source : Bytes) : (i.compile source).2.console = i.console := by
  obtain ⟨uses, heq, -⟩ := i.compile_eq source
  rw [heq]

/-- A source, accepted or refused, touches the table between the identities before it and after it only. -/
theorem compile_table (i : Interpreter) (source : Bytes) : i.nextId ≤ (i.compile source).2.nextId ∧
    ∀ id, id < i.nextId ∨ (i.compile source).2.nextId ≤ id →
      (i.compile source).2.distances.find? id = i.distances.find? id := by
  obtain ⟨uses, heq, huses⟩ := compile_eq i source
  rw [heq]
  refine ⟨Parsed.nextId_le_ofSource _ _, fun id hid => ?_⟩
  refine Distances.find?_insertAll_of_forall_ne _ _ fun u hu hsame => ?_
  obtain ⟨hlow, hhigh⟩ := huses u hu
  rw [hsame] at hlow hhigh
  rcases hid with hid | hid
  · exact Nat.not_lt.2 hlow hid
  · exact Nat.not_lt.2 hid hhigh

end Interpreter

end Treewalk
