import Treewalk.Proofs.Scope.Ambient
import Treewalk.Proofs.Scope.Relabel

/-!
# Steps of the check

Every check is put together from a few small steps. What holds of these steps and is kept by putting
steps together holds of every check, whatever the tree (`Stable.stmt`, `Stable.stmts`).

**Nothing is read back (`Adds`).** A check looks at the open scopes only. What was found before it stays
below what it finds, and makes no difference to it.

**The stack comes back (`Keeps`).** However a check ends, the scopes are those that it started with, up to
marks and to names added to the innermost one. What is around a statement, its function, class and loop,
is handed down to it and never changed, so that the statements behind it start from the same; and where it is
kept in the state, it comes back too (`Restored`).

Main result: the check of two programs in a row finds what the checks of the two find
(`Resolution.ofProgram_concat`).
-/

namespace Treewalk

open Scope

namespace Scope

/-- The names declared in a scope, in order, and how they came to be. -/
def declared (scope : Scope) : List (Token × Origin) := scope.map fun e => (e.name, e.origin)

/-- The state in which a step ends, fault or not. -/
def final {σ α : Type} : EStateM.Result Diagnostic σ α → σ
  | .ok _ s | .error _ s => s

/-- A property of steps that is kept by putting steps together. -/
structure Stable (P : ∀ {α : Type}, Check α → Prop) : Prop where
  pure : ∀ {α : Type} (a : α), P (Pure.pure a : Check α)
  bind : ∀ {α β : Type} {c : Check α} {f : α → Check β}, P c → (∀ a, P (f a)) → P (c >>= f)
  fail : ∀ d : Diagnostic, P (throw d : Check Unit)
  depth : P depth
  warn : ∀ d, P (warn d)
  declare : ∀ name origin, P (declare name origin)
  define : ∀ name, P (define name)
  useName : ∀ ctx id use name, P (useName ctx id use name)
  within : ∀ {c : Check Unit}, P c → P (within c)
  recording : ∀ {c : Check Unit}, P c → P (recording c)

namespace Stable

variable {P : ∀ {α : Type}, Check α → Prop} (h : Stable P)

include h

theorem require (ok : Bool) (keyword : Token) (message : String) : P (require ok keyword message) := by
  cases ok with
  | true => exact h.pure ()
  | false => exact h.fail _

theorem declareAll (ps : List Token) : P (declareAll ps) := by
  induction ps with
  | nil => exact h.pure ()
  | cons p ps ih => exact h.bind (h.declare p _) fun _ => h.bind (h.define p) fun _ => ih

/-- A function: its parameters and its body in a scope of their own. -/
theorem function {ctx : Context} {body : Body} {params : List Token} {stmts : List Stmt}
    (hstmts : ∀ ctx, P (Stmt.checkAll ctx false stmts)) :
    P (do
      let inner := ctx.enter body (← Scope.depth)
      Scope.within do
        Scope.declareAll params
        Stmt.checkAll inner false stmts) :=
  h.bind h.depth fun _ => h.within (h.bind (h.declareAll params) fun _ => hstmts _)

end Stable

end Scope

section

variable {P : ∀ {α : Type}, Check α → Prop}

mutual

theorem Scope.Stable.expr (h : Stable P) (ctx : Context) : ∀ e : Expr, P (e.check ctx)
  | .literal _ _ => h.pure ()
  | .group _ _ e | .unary _ _ _ e | .updateGet _ e _ _ _ _ | .get _ e _ => h.expr ctx e
  | .binary _ _ _ l r | .logical _ _ _ l r | .updateIndex _ l _ r _ _ _ | .index _ l _ r =>
    h.bind (h.expr ctx l) fun _ => h.expr ctx r
  | .set _ object _ value => h.bind (h.expr ctx value) fun _ => h.expr ctx object
  | .ternary _ _ cond yes no =>
    h.bind (h.expr ctx cond) fun _ => h.bind (h.expr ctx yes) fun _ => h.expr ctx no
  | .ident id name => h.useName ctx id .read name
  | .assign id name value => h.bind (h.expr ctx value) fun _ => h.useName ctx id .assign name
  | .compound id name _ _ value => h.bind (h.expr ctx value) fun _ => h.useName ctx id .compound name
  | .update id name _ token _ => h.useName ctx id .update { name with pos := token.pos }
  | .call _ callee _ args => h.bind (h.expr ctx callee) fun _ => h.exprs ctx args
  | .lambda _ _ _ body => h.function fun ctx => h.stmts ctx false body
  | .array _ _ elements => h.exprs ctx elements
  | .this id keyword => h.bind (h.require _ keyword _) fun _ => h.useName ctx id .receiver _

theorem Scope.Stable.exprs (h : Stable P) (ctx : Context) : ∀ es : List Expr, P (Expr.checkAll ctx es)
  | [] => h.pure ()
  | e :: es => h.bind (h.expr ctx e) fun _ => h.exprs ctx es

theorem Scope.Stable.exprOpt (h : Stable P) (ctx : Context) : ∀ e, P (Expr.checkOpt ctx e)
  | none => h.pure ()
  | some e => h.expr ctx e

theorem Scope.Stable.stmt (h : Stable P) (ctx : Context) : ∀ s : Stmt, P (s.check ctx)
  | .expression _ e | .print _ e => h.expr ctx e
  | .declare _ name value =>
    h.bind (h.declare name _) fun _ => h.bind (h.exprOpt ctx value) fun _ => h.define name
  | .block _ body => h.within (h.stmts ctx false body)
  | .branch _ cond yes no =>
    h.bind (h.expr ctx cond) fun _ => h.bind (h.stmt ctx yes) fun _ => h.stmtOpt ctx no
  | .loop _ cond body => h.bind (h.expr ctx cond) fun _ => h.stmt _ body
  | .forLoop _ start cond step body =>
    h.within (h.bind (h.stmtOpt ctx start) fun _ => h.bind (h.exprOpt ctx cond) fun _ =>
      h.bind (h.exprOpt ctx step) fun _ => h.stmt _ body)
  | .leave keyword | .skip keyword => h.require _ keyword _
  | .result keyword value =>
    h.bind (h.require _ keyword _) fun _ => h.bind (h.require _ keyword _) fun _ => h.exprOpt ctx value
  | .function (.mk name _ body) =>
    h.bind (h.declare name _) fun _ => h.bind (h.define name) fun _ =>
      h.function fun ctx => h.stmts ctx false body
  | .classDecl _ name fields methods =>
    h.bind (h.declare name _) fun _ => h.bind (h.define name) fun _ =>
      h.bind (h.fields ctx fields) fun _ => h.within (h.bind (h.declare (receiver name) _) fun _ =>
        h.bind (h.define (receiver name)) fun _ => h.methods _ methods)

theorem Scope.Stable.stmtOpt (h : Stable P) (ctx : Context) : ∀ s, P (Stmt.checkOpt ctx s)
  | none => h.pure ()
  | some s => h.stmt ctx s

theorem Scope.Stable.stmts (h : Stable P) (ctx : Context) (exited : Bool) :
    ∀ ss : List Stmt, P (Stmt.checkAll ctx exited ss)
  | [] => h.pure ()
  | s :: ss => by
    have hrest : P (do
        Scope.recording (s.check ctx)
        Stmt.checkAll ctx s.exits ss : Check Unit) :=
      h.bind (h.recording (h.stmt ctx s)) fun _ => h.stmts ctx s.exits ss
    rw [Stmt.checkAll]
    cases exited with
    | false => exact hrest
    | true => exact h.bind (h.warn _) fun _ => hrest

theorem Scope.Stable.methods (h : Stable P) (ctx : Context) :
    ∀ ds : List Function, P (Function.checkAll ctx ds)
  | [] => h.pure ()
  | .mk _ params body :: ds =>
    h.bind h.depth fun _ => h.bind
      (h.within (h.bind (h.declareAll params) fun _ => h.stmts _ false body)) fun _ => h.methods ctx ds

theorem Scope.Stable.fields (h : Stable P) (ctx : Context) : ∀ ds : List Field, P (Field.checkAll ctx ds)
  | [] => h.pure ()
  | .mk _ value :: ds => h.bind (h.expr ctx value) fun _ => h.fields ctx ds

end

end

/-! ## Nothing is read back -/

namespace Scope

/-- What was found in a state, on top of what was found before. -/
def State.above (s base : State) : State :=
  { s with
    uses := s.uses ++ base.uses
    faults := s.faults ++ base.faults
    warnings := s.warnings ++ base.warnings }

/-- The end of a step, on top of what was found before. -/
def raise {α : Type} (base : State) :
    EStateM.Result Diagnostic State α → EStateM.Result Diagnostic State α
  | .ok a s => .ok a (s.above base)
  | .error d s => .error d (s.above base)

/-- A step finds the same, whatever was found before. -/
def Adds {α : Type} (c : Check α) : Prop := ∀ base s, c (s.above base) = raise base (c s)

theorem State.above_close (s base : State) : (s.above base).close = s.close.above base := by
  simp only [State.close, State.above, List.append_assoc]

theorem adds_stable : Stable Adds where
  pure _ _ _ := rfl
  bind {α β c f} hc hf base s := by
    simp only [Bind.bind, EStateM.bind, hc base s]
    cases c s with
    | ok a s' => exact hf a base s'
    | error d s' => rfl
  fail _ _ _ := rfl
  depth _ _ := rfl
  warn _ _ _ := rfl
  declare name origin base s := by
    unfold declare
    simp only [State.above]
    cases hscopes : s.scopes with
    | nil => simp only [raise, State.above, hscopes]
    | cons scope outer =>
      dsimp only
      split
      · simp only [raise, State.above, hscopes]
      · rfl
  define name base s := by
    unfold define
    simp only [State.above]
    cases hscopes : s.scopes with
    | nil => simp only [raise, State.above, hscopes]
    | cons scope outer => rfl
  useName ctx id use name base s := by
    unfold useName
    simp only [State.above]
    cases distance? ctx.outside name.lexeme s.scopes with
    | none => rfl
    | some d => rfl
  within {c} hc base s := by
    have hinside := hc base { s with scopes := [] :: s.scopes }
    unfold within
    simp only [State.above] at hinside ⊢
    rw [hinside]
    cases c { s with scopes := [] :: s.scopes } with
    | ok a s' => exact congrArg (EStateM.Result.ok ()) (s'.above_close base)
    | error d s' => rfl
  recording {c} hc base s := by
    unfold recording
    rw [hc base s]
    cases c s with
    | ok a s' => rfl
    | error d s' => rfl

/-- Faults stay on record. -/
theorem Adds.faults {α : Type} {c : Check α} (h : Adds c) (s : State) :
    ∃ new, (final (c s)).faults = new ++ s.faults := by
  have hs : s = ({ scopes := s.scopes } : State).above s := rfl
  rw [hs, h s { scopes := s.scopes }]
  cases c { scopes := s.scopes } with
  | ok a s' => exact ⟨s'.faults, rfl⟩
  | error d s' => exact ⟨s'.faults, rfl⟩

/-! ## The stack comes back -/

/-- The same stack of scopes, with names added to the innermost one at most. -/
def Kept (before after : List Scope) : Prop :=
  ∃ added, after.map declared = (before.map declared).modifyHead (· ++ added)

theorem Kept.of_eq {before after : List Scope} (h : after.map declared = before.map declared) :
    Kept before after := by
  refine ⟨[], ?_⟩
  cases before <;> simp [h]

theorem Kept.trans {before middle after : List Scope} (h : Kept before middle) (h' : Kept middle after) :
    Kept before after := by
  obtain ⟨added, heq⟩ := h
  obtain ⟨added', heq'⟩ := h'
  refine ⟨added ++ added', ?_⟩
  rw [heq', heq]
  cases before <;> simp

/-- However a step ends, the stack of scopes is what it was. -/
def Keeps {α : Type} (c : Check α) : Prop := ∀ s, Kept s.scopes (final (c s)).scopes

theorem declared_mark {f : Entry → Entry} (name : Bytes)
    (hf : ∀ e, (f e).name = e.name ∧ (f e).origin = e.origin) (scope : Scope) :
    declared (mark name f scope) = declared scope := by
  simp only [declared, mark, List.map_map]
  refine List.map_congr_left fun e _ => ?_
  show ((if e.name.lexeme == name then f e else e).name, _) = (e.name, e.origin)
  split
  · rw [(hf e).1]
    simp [*]
  · simp [*]

/-- Making a name ready keeps the names. -/
theorem declared_ready (name : Bytes) (scope : Scope) :
    declared (mark name ({ · with ready := true }) scope) = declared scope := by
  apply declared_mark
  exact fun _ => ⟨rfl, rfl⟩

/-- Marking a name as used keeps the names. -/
theorem declared_used (name : Bytes) (scope : Scope) :
    declared (mark name ({ · with used := true }) scope) = declared scope := by
  apply declared_mark
  exact fun _ => ⟨rfl, rfl⟩

theorem map_declared_modify {f : Scope → Scope} (hf : ∀ scope, declared (f scope) = declared scope) :
    ∀ (d : Nat) (scopes : List Scope), (scopes.modify d f).map declared = scopes.map declared
  | _, [] => by simp
  | 0, scope :: outer => by simp [hf]
  | d + 1, scope :: outer => by simp [map_declared_modify hf d outer]

theorem keeps_stable : Stable Keeps where
  pure _ _ := .of_eq rfl
  bind {α β c f} hc hf s := by
    have hs := hc s
    simp only [Bind.bind, EStateM.bind]
    cases hrun : c s with
    | ok a s' =>
      rw [hrun] at hs
      exact hs.trans (hf a s')
    | error d s' =>
      rw [hrun] at hs
      exact hs
  fail _ _ := .of_eq rfl
  depth _ := .of_eq rfl
  warn _ _ := .of_eq rfl
  declare name origin s := by
    unfold declare
    cases hscopes : s.scopes with
    | nil => exact .of_eq (by rw [final, hscopes])
    | cons scope outer =>
      dsimp only
      split
      · exact .of_eq (by rw [final, hscopes])
      · exact ⟨[(name, origin)], by simp [final, declared]⟩
  define name s := by
    unfold define
    cases hscopes : s.scopes with
    | nil => exact .of_eq (by rw [final, hscopes])
    | cons scope outer =>
      refine .of_eq ?_
      simp only [final, List.map_cons, declared_ready]
  useName ctx id use name s := by
    unfold useName
    cases distance? ctx.outside name.lexeme s.scopes with
    | none => exact .of_eq rfl
    | some d =>
      exact .of_eq (map_declared_modify (declared_used name.lexeme) d s.scopes)
  within {c} hc s := by
    -- the new scope is the innermost one, so the scopes around it keep their names
    obtain ⟨added, heq⟩ := hc { s with scopes := [] :: s.scopes }
    have htail := congrArg List.tail heq
    simp only [List.map_cons, List.modifyHead_cons, List.tail_cons, ← List.map_tail] at htail
    unfold within
    cases hrun : c { s with scopes := [] :: s.scopes } <;> rw [hrun] at htail <;> exact .of_eq htail
  recording {c} hc s := by
    have hs := hc s
    unfold recording
    cases hrun : c s <;> rw [hrun] at hs <;> exact hs

/-- What is around is as it was, and so is the stack of scopes, up to marks and to names added to the innermost
one. -/
structure Restored (before after : Resolver) : Prop where
  scopes : Kept before.scopes after.scopes
  fn : after.fn = before.fn
  fnScope : after.fnScope = before.fnScope
  inClass : after.inClass = before.inClass
  loopDepth : after.loopDepth = before.loopDepth

end Scope

/-- However a statement ends, all is restored. -/
theorem Stmt.resolve_restored (stmt : Stmt) (r : Resolver) : Restored r (final (stmt.resolve r)) := by
  have hkept := keeps_stable.stmt r.context stmt r.toState
  rw [stmt.resolve_follows r.context r rfl]
  cases hrun : stmt.check r.context r.toState <;> rw [hrun] at hkept <;> exact ⟨hkept, rfl, rfl, rfl, rfl⟩

/-! ## Programs in a row -/

/-- Does a list of statements end with one that never passes control on? -/
def Stmt.exitsAll (stmts : List Stmt) : Bool := stmts.getLast?.any Stmt.exits

theorem Stmt.exitsAll_cons (s : Stmt) (ss : List Stmt) :
    Stmt.exitsAll (s :: ss) = if ss = [] then s.exits else Stmt.exitsAll ss := by
  cases ss <;> rfl

/-- Two lists are checked one behind the other. -/
theorem Stmt.checkAll_concat (ctx : Context) (ys : List Stmt) : ∀ (xs : List Stmt) (exited : Bool),
    Stmt.checkAll ctx exited (xs ++ ys) = (do
      Stmt.checkAll ctx exited xs
      Stmt.checkAll ctx (if xs = [] then exited else Stmt.exitsAll xs) ys)
  | [], _ => rfl
  | x :: xs, exited => by
    rw [List.cons_append, Stmt.checkAll, Stmt.checkAll, Stmt.checkAll_concat ctx ys xs x.exits,
      if_neg (List.cons_ne_nil x xs), Stmt.exitsAll_cons]
    cases exited <;> simp only [Bool.false_eq_true, if_false, if_true, bind_assoc]

/-- Behind an exit the first statement is warned about. -/
theorem Stmt.checkAll_behind (ctx : Context) (exited : Bool) (ss : List Stmt) (s : Scope.State) :
    Stmt.checkAll ctx exited ss s = Stmt.checkAll ctx false ss
      { s with warnings := (if exited then ss.head?.toList else []).map (unreachable ·.pos) ++ s.warnings } := by
  cases ss with
  | nil => cases exited <;> rfl
  | cons stmt ss =>
    rw [Stmt.checkAll, Stmt.checkAll]
    cases exited <;> rfl

/-- Checking two programs in a row finds what checking each of them finds, one behind the other, and warns
of the second one's first statement if the first one ends with an exit. For however the check of a
statement ends, the scopes around it are left as they were. The check that keeps the function, the class and the
loops around a statement in its state finds the same, and it restores them with the scopes. -/
theorem Resolution.ofProgram_concat (xs ys : List Stmt) :
    (ofProgram (xs ++ ys)).faults = (ofProgram xs).faults ++ (ofProgram ys).faults ∧
    (ofProgram (xs ++ ys)).uses = (ofProgram xs).uses ++ (ofProgram ys).uses ∧
    (ofProgram (xs ++ ys)).warnings = (ofProgram xs).warnings ++
      (if Stmt.exitsAll xs then ys.head?.toList else []).map (unreachable ·.pos) ++
      (ofProgram ys).warnings ∧
    (∀ (ctx : Context) (stmt : Stmt) (s : Scope.State), Kept s.scopes (final (stmt.check ctx s)).scopes) ∧
    (∀ stmts, inPlace stmts = ofProgram stmts) ∧
    ∀ (stmt : Stmt) (r : Resolver), Restored r (final (stmt.resolve r)) := by
  obtain ⟨s, hrun, heq⟩ := ofProgram_eq xs
  obtain ⟨t, hrun', heq'⟩ := ofProgram_eq ys
  -- the first program leaves no scope open, so the second one is checked as on its own
  have hscopes : s.scopes = [] := by
    obtain ⟨added, hadded⟩ := keeps_stable.stmts {} false xs {}
    rw [hrun] at hadded
    exact List.map_eq_nil_iff.1 hadded
  let dead := (if Stmt.exitsAll xs then ys.head?.toList else []).map (unreachable ·.pos)
  have hexited : (if xs = [] then false else Stmt.exitsAll xs) = Stmt.exitsAll xs := by
    cases xs <;> rfl
  let before : Scope.State := { s with warnings := dead ++ s.warnings }
  have hbefore : before = ({} : Scope.State).above before := by
    simp only [before, State.above, hscopes, List.nil_append]
  have hsecond : Stmt.checkAll {} (Stmt.exitsAll xs) ys s = .ok () (t.above before) :=
    calc Stmt.checkAll {} (Stmt.exitsAll xs) ys s
        = Stmt.checkAll {} false ys before := Stmt.checkAll_behind {} (Stmt.exitsAll xs) ys s
      _ = Stmt.checkAll {} false ys (({} : Scope.State).above before) :=
          congrArg (Stmt.checkAll {} false ys) hbefore
      _ = raise before (Stmt.checkAll {} false ys {}) := adds_stable.stmts {} false ys before {}
      _ = .ok () (t.above before) := by rw [hrun', raise]
  have hboth : Stmt.checkAll {} false (xs ++ ys) {} = .ok () (t.above before) := by
    rw [Stmt.checkAll_concat, hexited]
    simp only [Bind.bind, EStateM.bind, hrun, hsecond]
  have hdead : dead.reverse = dead := by
    unfold dead
    cases Stmt.exitsAll xs <;> cases ys <;> rfl
  have hofProgram : ofProgram (xs ++ ys) =
      { uses := s.uses.reverse ++ t.uses.reverse
        faults := s.faults.reverse ++ t.faults.reverse
        warnings := s.warnings.reverse ++ dead ++ t.warnings.reverse } := by
    unfold ofProgram
    rw [hboth]
    simp only [before, State.above, List.reverse_append, hdead, List.append_assoc]
  rw [hofProgram, heq, heq']
  exact ⟨rfl, rfl, rfl, keeps_stable.stmt, inPlace_eq, Stmt.resolve_restored⟩

end Treewalk
