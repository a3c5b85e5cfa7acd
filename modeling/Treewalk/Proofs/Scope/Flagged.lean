import Treewalk.Proofs.Scope.Legal
import Treewalk.Proofs.Tree.Prune

/-!
# Which statements are flagged as dead

A statement is dead if it stands right behind one that leaves their list (`Stmt.DeadIn`). Pruning cuts every
list off in front of its first dead statement (`Stmt.pruneAll_eq_kept`), whatever stands from there on
(`Stmt.DeadIn.cut`).

The check goes through a list with one mark, whether the last statement left the list, and gives a warning
where the mark is set. `Warns` says of a step of the check which warnings of dead code it adds if it finds no
fault, and each form of tree is a composition of such steps.

Main results: in a program without faults the warnings of dead code are exactly those about dead statements
(`Resolution.deadCode_exact`), so what pruning takes away is what the check flags
(`Resolution.flags_pruned`).
-/

namespace Treewalk

open Scope

/-! ## Dead statements -/

/-- The statement stands in the list right behind one that leaves it. -/
def Stmt.DeadIn (ss : List Stmt) (s : Stmt) : Prop := ∃ x, [x, s] <:+: ss ∧ x.exits = true

theorem Stmt.not_deadIn_nil (s : Stmt) : ¬ Stmt.DeadIn [] s := by
  rintro ⟨x, h, -⟩
  simp at h

theorem Stmt.deadIn_cons (x : Stmt) (ss : List Stmt) (s : Stmt) :
    Stmt.DeadIn (x :: ss) s ↔ (x.exits = true ∧ ss.head? = some s) ∨ Stmt.DeadIn ss s := by
  have hhead : ∀ y, [y, s] <+: x :: ss ↔ y = x ∧ ss.head? = some s := by
    intro y
    cases ss <;> simp [eq_comm]
  simp only [Stmt.DeadIn, List.infix_cons_iff, hhead]
  constructor
  · rintro ⟨y, ⟨rfl, hs⟩ | h, hy⟩
    · exact .inl ⟨hy, hs⟩
    · exact .inr ⟨y, h, hy⟩
  · rintro (⟨hx, hs⟩ | ⟨y, h, hy⟩)
    · exact ⟨x, .inl ⟨rfl, hs⟩, hx⟩
    · exact ⟨y, .inr h, hy⟩

/-- Pruning keeps a list up to its first dead statement: what is kept has none, and what is cut starts with
one. -/
theorem Stmt.pruneAll_eq_kept (ss : List Stmt) : ∃ kept cut, ss = kept ++ cut ∧
    Stmt.pruneAll ss = kept.map Stmt.prune ∧ ∀ s ∈ cut.head?, Stmt.DeadIn ss s := by
  induction ss with
  | nil => exact ⟨[], [], rfl, rfl, nofun⟩
  | cons x ss ih =>
    rw [Stmt.pruneAll]
    by_cases hx : x.exits = true
    · exact ⟨[x], ss, rfl, by simp [hx], fun s hs => (Stmt.deadIn_cons x ss s).2 (.inl ⟨hx, hs⟩)⟩
    · obtain ⟨kept, cut, rfl, hprune, hcut⟩ := ih
      exact ⟨x :: kept, cut, rfl, by simp [hx, hprune], fun s hs =>
        (Stmt.deadIn_cons x _ s).2 (.inr (hcut s hs))⟩

/-- What stands from a dead statement on in its list makes no difference to the pruned list. -/
theorem Stmt.DeadIn.cut {ss : List Stmt} {s : Stmt} (h : Stmt.DeadIn ss s) : ∃ kept rest,
    ss = kept ++ s :: rest ∧ ∀ others, Stmt.pruneAll (kept ++ others) = Stmt.pruneAll kept := by
  induction ss with
  | nil => exact absurd h (Stmt.not_deadIn_nil s)
  | cons x ss ih =>
    rcases (Stmt.deadIn_cons x ss s).1 h with ⟨hx, hs⟩ | h
    · obtain ⟨rest, rfl⟩ := List.head?_eq_some_iff.1 hs
      exact ⟨[x], rest, rfl, fun others => by simp [Stmt.pruneAll, hx]⟩
    · obtain ⟨kept, rest, rfl, hcut⟩ := ih h
      exact ⟨x :: kept, rest, rfl, fun others => by simp [Stmt.pruneAll, hcut]⟩

/-- The diagnostic warns of a dead statement of some list in the piece. -/
def Fragment.Flagged (π : List Enclosure) (p : Fragment) (d : Diagnostic) : Prop :=
  ∃ π' ss s, Relation.ReflTransGen PartOf (π, p) (π', .list ss) ∧ Stmt.DeadIn ss s ∧ d = unreachable s.pos

/-- A dead statement is one of the list itself or lies in a part. -/
theorem Fragment.flagged_iff {π : List Enclosure} {p : Fragment} {d : Diagnostic} :
    p.Flagged π d ↔ (∃ ss s, p = .list ss ∧ Stmt.DeadIn ss s ∧ d = unreachable s.pos) ∨
      ∃ part ∈ p.enclosed π, part.2.Flagged part.1 d := by
  constructor
  · rintro ⟨π', ss, s, hlies, hdead, hd⟩
    rcases hlies.cases_head with heq | ⟨part, hpart, hlies⟩
    · obtain ⟨-, rfl⟩ := Prod.mk.inj heq
      exact .inl ⟨ss, s, rfl, hdead, hd⟩
    · exact .inr ⟨part, hpart, π', ss, s, hlies, hdead, hd⟩
  · rintro (⟨ss, s, rfl, hdead, hd⟩ | ⟨part, hpart, π', ss, s, hlies, hdead, hd⟩)
    · exact ⟨π, ss, s, .refl, hdead, hd⟩
    · exact ⟨π', ss, s, .head hpart hlies, hdead, hd⟩

theorem Fragment.flagged_list {π : List Enclosure} (ss : List Stmt) (d : Diagnostic) :
    (Fragment.list ss).Flagged π d ↔ (∃ s, Stmt.DeadIn ss s ∧ d = unreachable s.pos) ∨
      ∃ s ∈ ss, (Fragment.stmt s).Flagged π d := by
  rw [flagged_iff]
  simp [enclosed]

theorem Fragment.flagged_cons {π : List Enclosure} (s : Stmt) (ss : List Stmt) (d : Diagnostic) :
    (Fragment.list (s :: ss)).Flagged π d ↔ (Fragment.stmt s).Flagged π d ∨
      (s.exits = true ∧ ∃ s', ss.head? = some s' ∧ d = unreachable s'.pos) ∨
      (Fragment.list ss).Flagged π d := by
  simp only [flagged_list, Stmt.deadIn_cons, List.mem_cons, or_and_right, exists_or, exists_eq_left, and_assoc,
    exists_and_left]
  rw [or_left_comm, or_assoc]

/-! ## Steps of the check -/

/-- Of the warnings of dead code, a step that finds no fault adds these and no other. -/
structure Warns (c : Check Unit) (S : Diagnostic → Prop) : Prop where
  adds : Adds c
  found : ∀ s s', Clean c s s' → ∀ d, d.warning = .deadCode →
    (d ∈ s'.warnings ↔ S d ∨ d ∈ s.warnings)

namespace Warns

variable {c c' : Check Unit} {S S' : Diagnostic → Prop}

theorem congr (h : Warns c S) (hS : ∀ d, S d ↔ S' d) : Warns c S' :=
  ⟨h.adds, fun s s' hrun d hd => by rw [h.found s s' hrun d hd, hS d]⟩

/-- One step behind the other. -/
theorem andThen (h : Warns c S) (h' : Warns c' S') :
    Warns (c >>= fun _ => c') (fun d => S d ∨ S' d) := by
  refine ⟨adds_stable.bind h.adds fun _ => h'.adds, fun s s'' hrun d hd => ?_⟩
  obtain ⟨s', hrun, hrun'⟩ := (clean_bind h.adds h'.adds).1 hrun
  rw [h'.found s' s'' hrun' d hd, h.found s s' hrun d hd]
  tauto

/-- A step that leaves the warnings as they are. -/
theorem of_quiet (hc : Adds c) (h : ∀ s s', c s = .ok () s' → s'.warnings = s.warnings) :
    Warns c fun _ => False :=
  ⟨hc, fun s s' hrun d _ => by simp [h s s' hrun.1]⟩

theorem nothing : Warns (pure ()) fun _ => False := by
  refine of_quiet (adds_stable.pure ()) fun s s' hrun => ?_
  cases hrun
  rfl

theorem warned (w : Diagnostic) : Warns (warn w) (· = w) := by
  refine ⟨adds_stable.warn w, ?_⟩
  rintro s s' ⟨hrun, -⟩ d -
  cases hrun
  simp

theorem required (ok : Bool) (keyword : Token) (message : String) :
    Warns (require ok keyword message) fun _ => False := by
  refine of_quiet (adds_stable.require ok keyword message) fun s s' hrun => ?_
  cases ok <;> cases hrun
  rfl

theorem declared (name : Token) (origin : Origin) :
    Warns (Scope.declare name origin) fun _ => False := by
  refine of_quiet (adds_stable.declare name origin) fun s s' hrun => ?_
  unfold Scope.declare at hrun
  split at hrun
  · cases hrun
    rfl
  · split at hrun <;> cases hrun
    rfl

theorem defined (name : Token) : Warns (define name) fun _ => False := by
  refine of_quiet (adds_stable.define name) fun s s' hrun => ?_
  unfold define at hrun
  split at hrun <;> cases hrun <;> rfl

theorem used (ctx : Context) (id : NodeId) (use : Use) (name : Token) :
    Warns (useName ctx id use name) fun _ => False := by
  refine of_quiet (adds_stable.useName ctx id use name) fun s s' hrun => ?_
  unfold useName at hrun
  split at hrun <;> cases hrun <;> rfl

theorem declaredAll (ps : List Token) : Warns (declareAll ps) fun _ => False := by
  induction ps with
  | nil => exact nothing
  | cons p ps ih =>
    exact ((declared p .parameter).andThen ((defined p).andThen ih)).congr (by simp)

theorem measured {f : Nat → Check Unit} (h : ∀ n, Warns (f n) S) : Warns (depth >>= f) S :=
  ⟨adds_stable.bind adds_stable.depth fun n => (h n).adds, fun s s' => (h s.scopes.length).found s s'⟩

/-- The end of a scope warns of unused locals only. -/
theorem inside (h : Warns c S) : Warns (within c) S := by
  refine ⟨adds_stable.within h.adds, fun s s' hclean d hd => ?_⟩
  obtain ⟨s₁, hs₁, rfl⟩ := clean_within.1 hclean
  rw [← h.found _ s₁ hs₁ d hd]
  have hother : ∀ name, d ≠ unused name := by
    rintro name rfl
    cases hd
  simp [State.close, fun name => (hother name).symm]

theorem recorded (h : Warns c S) : Warns (recording c) S :=
  ⟨adds_stable.recording h.adds, fun s s' hclean => h.found s s' ((clean_recording h.adds).1 hclean)⟩

/-- Nothing stands in front of a whole list. -/
theorem unmarked {P : Diagnostic → Prop} (h : Warns c fun d => (false = true ∧ P d) ∨ S d) : Warns c S :=
  h.congr (by simp)

/-- A function is flagged in its body. -/
theorem function {ctx : Context} {kind : Body} {params : List Token} {body : List Stmt}
    (h : ∀ n, Warns (Stmt.checkAll (ctx.enter kind n) false body) S) :
    Warns (do
      let inner := ctx.enter kind (← depth)
      within do
        declareAll params
        Stmt.checkAll inner false body) S :=
  measured fun n => (((declaredAll params).andThen (h n)).inside).congr (by simp)

/-- A piece that is no list is flagged in its parts. -/
theorem parts {π : List Enclosure} {p : Fragment} (h : Warns c S) (hlist : ∀ ss, p ≠ .list ss)
    (hS : ∀ d, S d ↔ ∃ part ∈ p.enclosed π, part.2.Flagged part.1 d) : Warns c (p.Flagged π) := by
  refine h.congr fun d => ?_
  rw [hS d, Fragment.flagged_iff]
  simp [hlist]

end Warns

/-! ## Along the tree -/

mutual

theorem Expr.check_warns : ∀ (e : Expr) (ctx : Context) (π : List Enclosure),
    Warns (e.check ctx) ((Fragment.expr e).Flagged π)
  | .literal _ _, _, _ => by
    rw [Expr.check]
    exact Warns.nothing.parts nofun (by simp [Fragment.enclosed, Expr.enclosed])
  | .group _ _ e, ctx, π | .unary _ _ _ e, ctx, π | .updateGet _ e _ _ _ _, ctx, π
  | .get _ e _, ctx, π => by
    rw [Expr.check]
    exact (Expr.check_warns e ctx π).parts nofun (by simp [Fragment.enclosed, Expr.enclosed])
  | .binary _ _ _ l r, ctx, π | .logical _ _ _ l r, ctx, π | .updateIndex _ l _ r _ _ _, ctx, π
  | .index _ l _ r, ctx, π => by
    rw [Expr.check]
    exact ((Expr.check_warns l ctx π).andThen (Expr.check_warns r ctx π)).parts nofun
      (by simp [Fragment.enclosed, Expr.enclosed])
  | .ternary _ _ cond yes no, ctx, π => by
    rw [Expr.check]
    exact ((Expr.check_warns cond ctx π).andThen
      ((Expr.check_warns yes ctx π).andThen (Expr.check_warns no ctx π))).parts nofun
      (by simp [Fragment.enclosed, Expr.enclosed])
  | .set _ object _ value, ctx, π => by
    rw [Expr.check]
    exact ((Expr.check_warns value ctx π).andThen (Expr.check_warns object ctx π)).parts nofun
      (by simp [Fragment.enclosed, Expr.enclosed, or_comm])
  | .ident _ _, _, _ | .update _ _ _ _ _, _, _ => by
    rw [Expr.check]
    exact (Warns.used _ _ _ _).parts nofun (by simp [Fragment.enclosed, Expr.enclosed])
  | .assign _ _ value, ctx, π | .compound _ _ _ _ value, ctx, π => by
    rw [Expr.check]
    exact ((Expr.check_warns value ctx π).andThen (Warns.used _ _ _ _)).parts nofun
      (by simp [Fragment.enclosed, Expr.enclosed])
  | .call _ callee _ args, ctx, π => by
    rw [Expr.check]
    exact ((Expr.check_warns callee ctx π).andThen (Expr.checkAll_warns args ctx π)).parts nofun
      (by simp [Fragment.enclosed, Expr.enclosed])
  | .array _ _ elements, ctx, π => by
    rw [Expr.check]
    exact (Expr.checkAll_warns elements ctx π).parts nofun (by simp [Fragment.enclosed, Expr.enclosed])
  | .lambda _ _ params body, ctx, π => by
    rw [Expr.check]
    exact (Warns.function fun _ => (Stmt.checkAll_warns body false _ (.function :: π)).unmarked).parts nofun
      (by simp [Fragment.enclosed, Expr.enclosed])
  | .this _ keyword, _, _ => by
    rw [Expr.check]
    exact ((Warns.required _ keyword _).andThen (Warns.used _ _ _ _)).parts nofun
      (by simp [Fragment.enclosed, Expr.enclosed])

theorem Expr.checkAll_warns : ∀ (es : List Expr) (ctx : Context) (π : List Enclosure),
    Warns (Expr.checkAll ctx es) (fun d => ∃ e ∈ es, (Fragment.expr e).Flagged π d)
  | [], _, _ => by
    rw [Expr.checkAll]
    exact Warns.nothing.congr (by simp)
  | e :: es, ctx, π => by
    rw [Expr.checkAll]
    exact ((Expr.check_warns e ctx π).andThen (Expr.checkAll_warns es ctx π)).congr (by simp)

theorem Expr.checkOpt_warns : ∀ (e : Option Expr) (ctx : Context) (π : List Enclosure),
    Warns (Expr.checkOpt ctx e) (fun d => ∃ v ∈ e, (Fragment.expr v).Flagged π d)
  | none, _, _ => by
    rw [Expr.checkOpt]
    exact Warns.nothing.congr (by simp)
  | some e, ctx, π => by
    rw [Expr.checkOpt]
    exact (Expr.check_warns e ctx π).congr (by simp)

theorem Stmt.check_warns : ∀ (s : Stmt) (ctx : Context) (π : List Enclosure),
    Warns (s.check ctx) ((Fragment.stmt s).Flagged π)
  | .expression _ e, ctx, π | .print _ e, ctx, π => by
    rw [Stmt.check]
    exact (Expr.check_warns e ctx π).parts nofun (by simp [Fragment.enclosed, Stmt.enclosed])
  | .declare _ name value, ctx, π => by
    rw [Stmt.check]
    exact ((Warns.declared name .local).andThen
      ((Expr.checkOpt_warns value ctx π).andThen (Warns.defined name))).parts nofun
      (by simp [Fragment.enclosed, Stmt.enclosed])
  | .block _ body, ctx, π => by
    rw [Stmt.check]
    exact (Stmt.checkAll_warns body false ctx π).unmarked.inside.parts nofun
      (by simp [Fragment.enclosed, Stmt.enclosed])
  | .branch _ cond yes no, ctx, π => by
    rw [Stmt.check]
    exact ((Expr.check_warns cond ctx π).andThen
      ((Stmt.check_warns yes ctx π).andThen (Stmt.checkOpt_warns no ctx π))).parts nofun
      (by simp [Fragment.enclosed, Stmt.enclosed])
  | .loop _ cond body, ctx, π => by
    rw [Stmt.check]
    exact ((Expr.check_warns cond ctx π).andThen (Stmt.check_warns body _ (.loop :: π))).parts nofun
      (by simp [Fragment.enclosed, Stmt.enclosed])
  | .forLoop _ start cond step body, ctx, π => by
    rw [Stmt.check]
    exact ((Stmt.checkOpt_warns start ctx π).andThen ((Expr.checkOpt_warns cond ctx π).andThen
      ((Expr.checkOpt_warns step ctx π).andThen
        (Stmt.check_warns body _ (.loop :: π))))).inside.parts nofun
      (by simp [Fragment.enclosed, Stmt.enclosed, or_and_right, exists_or])
  | .leave keyword, _, _ | .skip keyword, _, _ => by
    rw [Stmt.check]
    exact (Warns.required _ keyword _).parts nofun (by simp [Fragment.enclosed, Stmt.enclosed])
  | .result keyword value, ctx, π => by
    rw [Stmt.check]
    exact ((Warns.required _ keyword _).andThen ((Warns.required _ keyword _).andThen
      (Expr.checkOpt_warns value ctx π))).parts nofun (by simp [Fragment.enclosed, Stmt.enclosed])
  | .function (.mk name params body), ctx, π => by
    rw [Stmt.check]
    exact ((Warns.declared name .local).andThen ((Warns.defined name).andThen
      (Warns.function fun _ => (Stmt.checkAll_warns body false _ (.function :: π)).unmarked))).parts nofun
      (by simp [Fragment.enclosed, Stmt.enclosed, Function.body])
  | .classDecl _ name fields methods, ctx, π => by
    rw [Stmt.check]
    have hmethods := ((Warns.declared (receiver name) .receiver).andThen
      ((Warns.defined (receiver name)).andThen
        (Function.checkAll_warns methods { ctx with inClass := true } π))).inside
    exact ((Warns.declared name .local).andThen ((Warns.defined name).andThen
      ((Field.checkAll_warns fields ctx π).andThen hmethods))).parts nofun
      (by simp [Fragment.enclosed, Stmt.enclosed, or_and_right, exists_or])

theorem Stmt.checkOpt_warns : ∀ (s : Option Stmt) (ctx : Context) (π : List Enclosure),
    Warns (Stmt.checkOpt ctx s) (fun d => ∃ v ∈ s, (Fragment.stmt v).Flagged π d)
  | none, _, _ => by
    rw [Stmt.checkOpt]
    exact Warns.nothing.congr (by simp)
  | some s, ctx, π => by
    rw [Stmt.checkOpt]
    exact (Stmt.check_warns s ctx π).congr (by simp)

/-- The mark `exited` flags the first statement of the rest. -/
theorem Stmt.checkAll_warns : ∀ (ss : List Stmt) (exited : Bool) (ctx : Context) (π : List Enclosure),
    Warns (Stmt.checkAll ctx exited ss) (fun d =>
      (exited = true ∧ ∃ s, ss.head? = some s ∧ d = unreachable s.pos) ∨ (Fragment.list ss).Flagged π d)
  | [], exited, ctx, π => by
    rw [Stmt.checkAll]
    refine Warns.nothing.congr fun d => ?_
    rw [Fragment.flagged_list]
    simp [Stmt.not_deadIn_nil]
  | s :: ss, exited, ctx, π => by
    have hrest := ((Stmt.check_warns s ctx π).recorded.andThen
      (Stmt.checkAll_warns ss s.exits ctx π)).congr fun d => (Fragment.flagged_cons s ss d).symm
    rw [Stmt.checkAll]
    cases exited with
    | false => exact hrest.congr (by simp)
    | true => exact ((Warns.warned _).andThen hrest).congr (by simp)

theorem Function.checkAll_warns : ∀ (fs : List Function) (ctx : Context) (π : List Enclosure),
    Warns (Function.checkAll ctx fs)
      (fun d => ∃ f ∈ fs, (Fragment.list f.body).Flagged (.method f.name.lexeme :: π) d)
  | [], _, _ => by
    rw [Function.checkAll]
    exact Warns.nothing.congr (by simp)
  | .mk name params body :: fs, ctx, π => by
    rw [Function.checkAll]
    have hbody := @Warns.function _ ctx (if name.lexeme == initName then .initializer else .function) params
      body fun n => (Stmt.checkAll_warns body false _ (.method name.lexeme :: π)).unmarked
    have hall := hbody.andThen (Function.checkAll_warns fs ctx π)
    rw [bind_assoc] at hall
    exact hall.congr (by simp [Function.body, Function.name])

theorem Field.checkAll_warns : ∀ (fs : List Field) (ctx : Context) (π : List Enclosure),
    Warns (Field.checkAll ctx fs) (fun d => ∃ f ∈ fs, (Fragment.expr f.value).Flagged π d)
  | [], _, _ => by
    rw [Field.checkAll]
    exact Warns.nothing.congr (by simp)
  | .mk _ value :: fs, ctx, π => by
    rw [Field.checkAll]
    exact ((Expr.check_warns value ctx π).andThen (Field.checkAll_warns fs ctx π)).congr
      (by simp [Field.value])

end

/-- In a program without faults the warnings of dead code are exactly those about dead statements. -/
theorem Resolution.deadCode_exact {stmts : List Stmt} (h : (ofProgram stmts).faults = [])
    (d : Diagnostic) : d ∈ (ofProgram stmts).warnings ∧ d.warning = .deadCode ↔
      ∃ π ss s, Lies stmts π (.list ss) ∧ Stmt.DeadIn ss s ∧ d = unreachable s.pos := by
  obtain ⟨s, hrun, heq⟩ := ofProgram_eq stmts
  rw [heq, List.reverse_eq_nil_iff] at h
  have hflags := (Stmt.checkAll_warns stmts false {} []).unmarked.found {} s ⟨hrun, h⟩ d
  rw [heq]
  constructor
  · rintro ⟨hd, hkind⟩
    exact ((hflags hkind).1 (List.mem_reverse.1 hd)).resolve_right List.not_mem_nil
  · intro hdead
    have hkind : d.warning = .deadCode := by
      obtain ⟨-, -, -, -, -, rfl⟩ := hdead
      rfl
    exact ⟨List.mem_reverse.2 ((hflags hkind).2 (.inl hdead)), hkind⟩

/-- Warnings flag what pruning takes away: of every list the statements from a flagged one on, and whatever
stands from a flagged statement on. -/
structure FlagsPruned (stmts : List Stmt) (warnings : List Diagnostic) : Prop where
  flagged : ∀ π ss, Lies stmts π (.list ss) → ∃ kept cut, ss = kept ++ cut ∧
    Stmt.pruneAll ss = kept.map Stmt.prune ∧ ∀ s ∈ cut.head?, unreachable s.pos ∈ warnings
  pruned : ∀ d ∈ warnings, d.warning = .deadCode → ∃ π kept s rest, Lies stmts π (.list (kept ++ s :: rest)) ∧
    d = unreachable s.pos ∧ ∀ others, Stmt.pruneAll (kept ++ others) = Stmt.pruneAll kept

/-- In a program without faults, what pruning takes away is what the check flags. -/
theorem Resolution.flags_pruned {stmts : List Stmt} (h : (ofProgram stmts).faults = []) :
    FlagsPruned stmts (ofProgram stmts).warnings := by
  refine ⟨fun π ss hlies => ?_, fun d hd hkind => ?_⟩
  · obtain ⟨kept, cut, hss, hprune, hcut⟩ := Stmt.pruneAll_eq_kept ss
    refine ⟨kept, cut, hss, hprune, fun s hs => ?_⟩
    exact ((deadCode_exact h _).2 ⟨π, ss, s, hlies, hcut s hs, rfl⟩).1
  · obtain ⟨π, ss, s, hlies, hdead, rfl⟩ := (deadCode_exact h d).1 ⟨hd, hkind⟩
    obtain ⟨kept, rest, rfl, hcut⟩ := hdead.cut
    exact ⟨π, kept, s, rest, hlies, rfl, hcut⟩

end Treewalk
