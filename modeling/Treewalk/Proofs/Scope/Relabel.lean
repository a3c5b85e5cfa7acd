import Treewalk.Proofs.Machine.Preservation

/-!
# The check of a relabelled program

The check looks at names and at the nesting of scopes. Identities and positions only go into what it notes
and reports. So the check of a relabelled program runs as the check of the program does, and notes the same
uses under the new identities, behind what was noted before (`Stmt.checkAll_map`). If positions stay, then
the reports are the same as well.

For whole programs: raised identities change nothing but the identities of the uses
(`Resolution.ofProgram_map`), and the check of two programs in a row notes the uses of both
(`Resolution.ofProgram_append`).
-/

namespace Treewalk

open Scope

/-- How two checks of one program may differ. -/
structure Relabelling where
  ids : NodeId → NodeId
  places : Position → Position
  /-- The uses that the second check starts with. -/
  before : List LocalUse
  /-- The reports are compared as well. -/
  strict : Prop
  /-- Only reports at places that stay can be compared. -/
  still : strict → places = id

/-- A declared name, moved. -/
def Entry.move (f : Position → Position) (e : Entry) : Entry := { e with name := e.name.move f }

/-- A use of a local name, relabelled. -/
def LocalUse.map (g : NodeId → NodeId) (f : Position → Position) (u : LocalUse) : LocalUse :=
  { u with id := g u.id, pos := f u.pos }

section

variable (R : Relabelling)

/-- States of two checks that differ as said. -/
structure Scope.State.Like (s s' : Scope.State) : Prop where
  scopes : s'.scopes = s.scopes.map (List.map (Entry.move R.places))
  uses : s'.uses = s.uses.map (LocalUse.map R.ids R.places) ++ R.before
  faults : s'.faults.length = s.faults.length
  sameFaults : R.strict → s'.faults = s.faults
  sameWarnings : R.strict → s'.warnings = s.warnings

/-- Steps of two checks that end alike. -/
inductive Scope.Ends {α : Type} : EStateM.Result Diagnostic Scope.State α →
    EStateM.Result Diagnostic Scope.State α → Prop
  | ok {a s s'} (hs : s.Like R s') : Scope.Ends (.ok a s) (.ok a s')
  | error {d d' s s'} (hd : R.strict → d' = d) (hs : s.Like R s') : Scope.Ends (.error d s) (.error d' s')

/-- Steps of two checks that do alike. -/
def Follows {α : Type} (c c' : Check α) : Prop :=
  ∀ s s', s.Like R s' → Scope.Ends R (c s) (c' s')

end

variable {R : Relabelling}

namespace Scope

theorem faultAt_move (t : Token) (message : Bytes) :
    R.strict → faultAt (t.move R.places) message = faultAt t message := by
  intro hstrict
  rw [R.still hstrict, Token.move_id]

theorem any_move (f : Position → Position) (scope : Scope) (p : Bytes → Bool → Bool) :
    (scope.map (Entry.move f)).any (fun e => p e.name.lexeme e.ready) =
      scope.any fun e => p e.name.lexeme e.ready := by
  rw [List.any_map]
  rfl

theorem mark_move (f : Position → Position) (name : Bytes) {g : Entry → Entry}
    (hg : ∀ e, (g e).move f = g (e.move f)) (scope : Scope) :
    mark name g (scope.map (Entry.move f)) = (mark name g scope).map (Entry.move f) := by
  simp only [mark, List.map_map]
  refine List.map_congr_left fun e _ => ?_
  show (if e.name.lexeme == name then g (e.move f) else e.move f) =
    (if e.name.lexeme == name then g e else e).move f
  split
  · exact (hg e).symm
  · rfl

theorem modify_move (f : Position → Position) (name : Bytes) {g : Entry → Entry}
    (hg : ∀ e, (g e).move f = g (e.move f)) : ∀ (scopes : List Scope) (d : Nat),
    (scopes.map (List.map (Entry.move f))).modify d (mark name g) =
      (scopes.modify d (mark name g)).map (List.map (Entry.move f))
  | [], d => by simp
  | scope :: outer, 0 => by simp only [List.map_cons, List.modify_zero_cons, mark_move f name hg]
  | scope :: outer, d + 1 => by
    simp only [List.map_cons, List.modify_succ_cons, modify_move f name hg outer d]

theorem distance?_move (f : Position → Position) (outside : Nat) (name : Bytes) : ∀ scopes : List Scope,
    distance? outside name (scopes.map (List.map (Entry.move f))) = distance? outside name scopes
  | [] => rfl
  | scope :: outer => by
    simp only [List.map_cons, distance?, List.length_map, distance?_move f outside name outer]
    rw [any_move f scope fun lexeme ready => lexeme == name && (ready || outer.length < outside)]

end Scope

namespace Follows

variable {α β : Type}

theorem bind {c c' : Check α} {k k' : α → Check β} (hc : Follows R c c') (hk : ∀ a, Follows R (k a) (k' a)) :
    Follows R (c >>= k) (c' >>= k') := by
  intro s s' hs
  have hend := hc s s' hs
  simp only [Bind.bind, EStateM.bind]
  cases hrun : c s <;> cases hrun' : c' s' <;> rw [hrun, hrun'] at hend <;> cases hend
  · rename_i hs
    exact hk _ _ _ hs
  · rename_i hd hs
    exact .error hd hs

theorem pure (a : α) : Follows R (Pure.pure a) (Pure.pure a) := fun _ _ hs => .ok hs

theorem depth : Follows R Scope.depth Scope.depth := by
  intro s s' hs
  simp only [Scope.depth, hs.scopes, List.length_map]
  exact .ok hs

theorem require (ok : Bool) (keyword : Token) (message : String) :
    Follows R (Scope.require ok keyword message) (Scope.require ok (keyword.move R.places) message) := by
  cases ok
  · exact fun s s' hs => .error (faultAt_move keyword _) hs
  · exact .pure ()

theorem warn {d d' : Diagnostic} (hd : R.strict → d' = d) : Follows R (Scope.warn d) (Scope.warn d') := by
  intro s s' hs
  refine .ok ⟨hs.scopes, hs.uses, hs.faults, hs.sameFaults, fun hstrict => ?_⟩
  simp only [hd hstrict, hs.sameWarnings hstrict]

theorem declare (name : Token) (origin : Origin) :
    Follows R (Scope.declare name origin) (Scope.declare (name.move R.places) origin) := by
  intro s s' hs
  unfold Scope.declare
  rw [hs.scopes]
  cases hscopes : s.scopes with
  | nil => exact .ok hs
  | cons scope outer =>
    have hany := any_move R.places scope fun lexeme _ => lexeme == name.lexeme
    simp only [List.map_cons, Token.lexeme_move, hany]
    split
    · exact .error (faultAt_move name _) hs
    · refine .ok ⟨?_, hs.uses, hs.faults, hs.sameFaults, hs.sameWarnings⟩
      simp only [List.map_cons, List.map_append, List.map_nil]
      rfl

theorem define (name : Token) : Follows R (Scope.define name) (Scope.define (name.move R.places)) := by
  intro s s' hs
  unfold Scope.define
  rw [hs.scopes]
  cases hscopes : s.scopes with
  | nil => exact .ok hs
  | cons scope outer =>
    refine .ok ⟨?_, hs.uses, hs.faults, hs.sameFaults, hs.sameWarnings⟩
    simp only [List.map_cons, Token.lexeme_move]
    rw [mark_move]
    exact fun _ => rfl

theorem declareAll (ps : List Token) :
    Follows R (Scope.declareAll ps) (Scope.declareAll (ps.map (Token.move R.places))) := by
  induction ps with
  | nil => exact .pure ()
  | cons p ps ih => exact (declare p _).bind fun _ => (define p).bind fun _ => ih

theorem useName (ctx : Context) (id : NodeId) (use : Use) (name : Token) :
    Follows R (Scope.useName ctx id use name) (Scope.useName ctx (R.ids id) use (name.move R.places)) := by
  intro s s' hs
  unfold Scope.useName
  rw [hs.scopes, Token.lexeme_move, distance?_move]
  cases distance? ctx.outside name.lexeme s.scopes with
  | none => exact .ok hs
  | some d =>
    refine .ok ⟨?_, ?_, hs.faults, hs.sameFaults, hs.sameWarnings⟩
    · refine modify_move R.places name.lexeme ?_ s.scopes d
      exact fun _ => rfl
    · simp only [hs.uses, List.map_cons, List.cons_append]
      rfl

theorem within {c c' : Check Unit} (h : Follows R c c') : Follows R (Scope.within c) (Scope.within c') := by
  intro s s' hs
  have hend := h { s with scopes := [] :: s.scopes } { s' with scopes := [] :: s'.scopes }
    ⟨by rw [hs.scopes]; rfl, hs.uses, hs.faults, hs.sameFaults, hs.sameWarnings⟩
  unfold Scope.within
  generalize c { s with scopes := [] :: s.scopes } = r at hend ⊢
  generalize c' { s' with scopes := [] :: s'.scopes } = r' at hend ⊢
  cases hend with
  | ok hs =>
    refine .ok ⟨?_, hs.uses, hs.faults, hs.sameFaults, fun hstrict => ?_⟩
    · simp only [State.close, hs.scopes, List.map_tail]
    · have hscopes := hs.scopes
      rw [R.still hstrict, show Entry.move id = id from rfl, List.map_id_fun, List.map_id_fun, id] at hscopes
      simp only [State.close, hscopes, hs.sameWarnings hstrict]
  | error hd hs =>
    refine .error hd ⟨?_, hs.uses, hs.faults, hs.sameFaults, hs.sameWarnings⟩
    simp only [hs.scopes, List.map_tail]

theorem recording {c c' : Check Unit} (h : Follows R c c') :
    Follows R (Scope.recording c) (Scope.recording c') := by
  intro s s' hs
  have hend := h s s' hs
  unfold Scope.recording
  generalize c s = r at hend ⊢
  generalize c' s' = r' at hend ⊢
  cases hend with
  | ok hs => exact .ok hs
  | error hd hs =>
    refine .ok ⟨hs.scopes, hs.uses, ?_, fun hstrict => ?_, hs.sameWarnings⟩
    · simp only [List.length_cons, hs.faults]
    · simp only [hd hstrict, hs.sameFaults hstrict]

end Follows

/-! ## Programs -/

theorem Stmt.exits_map (g : NodeId → NodeId) (f : Position → Position) (s : Stmt) :
    (s.map g f).exits = s.exits := by
  cases s <;> rfl

theorem Stmt.pos_map (g : NodeId → NodeId) (f : Position → Position) (s : Stmt) :
    (s.map g f).pos = f s.pos := by
  cases s with
  | function d => cases d; rfl
  | _ => rfl

/-- The body of a function, with its parameters declared. -/
theorem follows_body {ctx : Context} {body : Body} {params : List Token} {stmts : List Stmt}
    (h : ∀ ctx, Follows R (Stmt.checkAll ctx false stmts)
      (Stmt.checkAll ctx false (Stmt.mapAll R.ids R.places stmts))) :
    Follows R
      (do
        let inner := ctx.enter body (← Scope.depth)
        Scope.within do
          Scope.declareAll params
          Stmt.checkAll inner false stmts)
      (do
        let inner := ctx.enter body (← Scope.depth)
        Scope.within do
          Scope.declareAll (params.map (Token.move R.places))
          Stmt.checkAll inner false (Stmt.mapAll R.ids R.places stmts)) :=
  .bind .depth fun _ => .within (.bind (.declareAll params) fun _ => h _)

mutual

theorem Expr.check_map (ctx : Context) :
    ∀ e : Expr, Follows R (e.check ctx) ((e.map R.ids R.places).check ctx)
  | .literal _ _ => .pure ()
  | .group _ _ inner => inner.check_map ctx
  | .unary _ _ _ operand => operand.check_map ctx
  | .binary _ _ _ left right => (left.check_map ctx).bind fun _ => right.check_map ctx
  | .logical _ _ _ left right => (left.check_map ctx).bind fun _ => right.check_map ctx
  | .ternary _ _ cond yes no =>
    (cond.check_map ctx).bind fun _ => (yes.check_map ctx).bind fun _ => no.check_map ctx
  | .ident id name => .useName ctx id .read name
  | .assign id name value => (value.check_map ctx).bind fun _ => .useName ctx id .assign name
  | .compound id name _ _ value => (value.check_map ctx).bind fun _ => .useName ctx id .compound name
  | .update id name _ token _ => .useName ctx id .update { name with pos := token.pos }
  | .updateIndex _ object _ index _ _ _ => (object.check_map ctx).bind fun _ => index.check_map ctx
  | .updateGet _ object _ _ _ _ => object.check_map ctx
  | .call _ callee _ args => (callee.check_map ctx).bind fun _ => Expr.checkAll_map ctx args
  | .lambda _ _ _ body => follows_body fun ctx => Stmt.checkAll_map ctx false body
  | .array _ _ elements => Expr.checkAll_map ctx elements
  | .index _ object _ index => (object.check_map ctx).bind fun _ => index.check_map ctx
  | .get _ object _ => object.check_map ctx
  | .set _ object _ value => (value.check_map ctx).bind fun _ => object.check_map ctx
  | .this id keyword =>
    (Follows.require _ keyword _).bind fun _ => .useName ctx id .receiver { keyword with lexeme := text "this" }

theorem Expr.checkAll_map (ctx : Context) :
    ∀ es, Follows R (Expr.checkAll ctx es) (Expr.checkAll ctx (Expr.mapAll R.ids R.places es))
  | [] => .pure ()
  | e :: es => (e.check_map ctx).bind fun _ => Expr.checkAll_map ctx es

theorem Expr.checkOpt_map (ctx : Context) :
    ∀ e, Follows R (Expr.checkOpt ctx e) (Expr.checkOpt ctx (Expr.mapOpt R.ids R.places e))
  | none => .pure ()
  | some e => e.check_map ctx

theorem Stmt.check_map (ctx : Context) :
    ∀ s : Stmt, Follows R (s.check ctx) ((s.map R.ids R.places).check ctx)
  | .expression _ e => e.check_map ctx
  | .print _ e => e.check_map ctx
  | .declare _ name value =>
    (Follows.declare name _).bind fun _ => (Expr.checkOpt_map ctx value).bind fun _ => .define name
  | .block _ body => .within (Stmt.checkAll_map ctx false body)
  | .branch _ cond yes no =>
    (cond.check_map ctx).bind fun _ => (yes.check_map ctx).bind fun _ => Stmt.checkOpt_map ctx no
  | .loop _ cond body => (cond.check_map ctx).bind fun _ => body.check_map _
  | .forLoop _ start cond step body =>
    .within ((Stmt.checkOpt_map ctx start).bind fun _ => (Expr.checkOpt_map ctx cond).bind fun _ =>
      (Expr.checkOpt_map ctx step).bind fun _ => body.check_map _)
  | .leave keyword => .require _ keyword _
  | .skip keyword => .require _ keyword _
  | .result keyword value =>
    (Follows.require _ keyword _).bind fun _ => (Follows.require _ keyword _).bind fun _ =>
      Expr.checkOpt_map ctx value
  | .function (.mk name _ body) =>
    (Follows.declare name _).bind fun _ => (Follows.define name).bind fun _ =>
      follows_body fun ctx => Stmt.checkAll_map ctx false body
  | .classDecl _ name fields methods =>
    (Follows.declare name _).bind fun _ => (Follows.define name).bind fun _ =>
      (Field.checkAll_map ctx fields).bind fun _ =>
        .within ((Follows.declare (receiver name) _).bind fun _ =>
          (Follows.define (receiver name)).bind fun _ => Function.checkAll_map _ methods)

theorem Stmt.checkOpt_map (ctx : Context) :
    ∀ s, Follows R (Stmt.checkOpt ctx s) (Stmt.checkOpt ctx (Stmt.mapOpt R.ids R.places s))
  | none => .pure ()
  | some s => s.check_map ctx

theorem Stmt.checkAll_map (ctx : Context) (exited : Bool) :
    ∀ ss, Follows R (Stmt.checkAll ctx exited ss)
      (Stmt.checkAll ctx exited (Stmt.mapAll R.ids R.places ss))
  | [] => .pure ()
  | s :: ss => by
    have hrest := (Follows.recording (s.check_map ctx)).bind fun _ => Stmt.checkAll_map ctx s.exits ss
    rw [Stmt.mapAll, Stmt.checkAll, Stmt.checkAll, Stmt.exits_map, Stmt.pos_map]
    cases exited
    · exact hrest
    · refine (Follows.warn fun hstrict => ?_).bind fun _ => hrest
      rw [R.still hstrict]
      rfl

theorem Function.checkAll_map (ctx : Context) :
    ∀ fs, Follows R (Function.checkAll ctx fs) (Function.checkAll ctx (Function.mapAll R.ids R.places fs))
  | [] => .pure ()
  | .mk _ params body :: fs =>
    .bind .depth fun _ => Follows.bind
      (.within (.bind (.declareAll params) fun _ => Stmt.checkAll_map _ false body)) fun _ =>
        Function.checkAll_map ctx fs

theorem Field.checkAll_map (ctx : Context) :
    ∀ fs, Follows R (Field.checkAll ctx fs) (Field.checkAll ctx (Field.mapAll R.ids R.places fs))
  | [] => .pure ()
  | .mk _ value :: fs => (value.check_map ctx).bind fun _ => Field.checkAll_map ctx fs

end

/-! ## Whole programs -/

/-- A check that came to its end. -/
theorem Resolution.ofProgram_eq (stmts : List Stmt) : ∃ s, Stmt.checkAll {} false stmts {} = .ok () s ∧
    ofProgram stmts =
      { uses := s.uses.reverse, faults := s.faults.reverse, warnings := s.warnings.reverse } := by
  obtain ⟨s, hrun⟩ := Stmt.checkAll_ends {} stmts false {}
  refine ⟨s, hrun, ?_⟩
  unfold ofProgram
  rw [hrun]

/-- Renamed identities change the identities of the uses and nothing else. -/
theorem Resolution.ofProgram_map (g : NodeId → NodeId) (stmts : List Stmt) :
    ofProgram (Stmt.mapAll g id stmts) =
      { ofProgram stmts with uses := (ofProgram stmts).uses.map (LocalUse.map g id) } := by
  let R : Relabelling := ⟨g, id, [], True, fun _ => rfl⟩
  obtain ⟨s, hrun, heq⟩ := ofProgram_eq stmts
  obtain ⟨s', hrun', heq'⟩ := ofProgram_eq (Stmt.mapAll g id stmts)
  have hend := Stmt.checkAll_map (R := R) {} false stmts {} {} ⟨rfl, rfl, rfl, fun _ => rfl, fun _ => rfl⟩
  rw [hrun, show Stmt.checkAll {} false (Stmt.mapAll R.ids R.places stmts) {} = .ok () s' from hrun'] at hend
  cases hend with
  | ok hs =>
    rw [heq, heq', hs.uses, hs.sameFaults trivial, hs.sameWarnings trivial, List.map_reverse, List.append_nil]

theorem Stmt.checkAll_append (ctx : Context) (ys : List Stmt) : ∀ (xs : List Stmt) (exited : Bool),
    ∃ exited', Stmt.checkAll ctx exited (xs ++ ys) =
      (Stmt.checkAll ctx exited xs >>= fun _ => Stmt.checkAll ctx exited' ys)
  | [], exited => ⟨exited, rfl⟩
  | x :: xs, exited => by
    obtain ⟨exited', heq⟩ := Stmt.checkAll_append ctx ys xs x.exits
    refine ⟨exited', ?_⟩
    rw [List.cons_append, Stmt.checkAll, Stmt.checkAll, heq]
    cases exited <;> simp only [Bool.false_eq_true, if_false, if_true, bind_assoc]

/-- What stands before a list only adds a warning. -/
theorem Stmt.checkAll_exited (ctx : Context) (exited : Bool) (ss : List Stmt) (s : Scope.State) :
    ∃ warnings, Stmt.checkAll ctx exited ss s = Stmt.checkAll ctx false ss { s with warnings } := by
  cases ss with
  | nil => exact ⟨s.warnings, rfl⟩
  | cons stmt ss =>
    rw [Stmt.checkAll, Stmt.checkAll]
    cases exited with
    | false => exact ⟨s.warnings, rfl⟩
    | true => exact ⟨_, rfl⟩

theorem Environs.afterAll_default : ∀ stmts : List Stmt, ({} : Environs).afterAll stmts = {}
  | [] => rfl
  | s :: ss => by
    rw [Environs.afterAll, List.foldl_cons, Environs.after_default]
    exact Environs.afterAll_default ss

/-- Two programs in a row are accepted if each of them is, and the uses of both are noted. -/
theorem Resolution.ofProgram_append {xs ys : List Stmt} (hw : Stmt.WellFormedAll xs)
    (hxs : (ofProgram xs).faults = []) (hys : (ofProgram ys).faults = []) (f : Position → Position) :
    (ofProgram (xs ++ Stmt.mapAll id f ys)).faults = [] ∧
      (ofProgram (xs ++ Stmt.mapAll id f ys)).uses =
        (ofProgram xs).uses ++ (ofProgram ys).uses.map (LocalUse.map id f) := by
  obtain ⟨s, hrun, heq⟩ := ofProgram_eq xs
  obtain ⟨t, hrun', heq'⟩ := ofProgram_eq ys
  obtain ⟨u, hrun'', heq''⟩ := ofProgram_eq (xs ++ Stmt.mapAll id f ys)
  have hfaults : s.faults = [] := by
    rw [heq] at hxs
    exact List.reverse_eq_nil_iff.1 hxs
  -- the first program leaves no scope open, so the second one is checked as on its own
  have hscopes : s.scopes = [] := by
    obtain ⟨hseen, -⟩ := (Stmt.checkAll_finds xs {} false hw).finds {} s rfl hrun hfaults
    rw [Environs.afterAll_default, Environs.Seen] at hseen
    exact List.map_eq_nil_iff.1 hseen
  obtain ⟨exited, hsplit⟩ := Stmt.checkAll_append {} (Stmt.mapAll id f ys) xs false
  obtain ⟨warnings, hexited⟩ := Stmt.checkAll_exited {} exited (Stmt.mapAll id f ys) s
  rw [hsplit] at hrun''
  simp only [Bind.bind, EStateM.bind, hrun, hexited] at hrun''
  let R : Relabelling := ⟨id, f, s.uses, False, False.elim⟩
  have hend := Stmt.checkAll_map (R := R) {} false ys {} { s with warnings }
    ⟨hscopes, rfl, congrArg List.length hfaults, False.elim, False.elim⟩
  rw [hrun'] at hend
  rw [show Stmt.checkAll {} false (Stmt.mapAll R.ids R.places ys) { s with warnings } = .ok () u from hrun''] at hend
  cases hend with
  | ok hs =>
    rw [heq'] at hys
    rw [heq, heq', heq'', hs.uses, List.reverse_append, ← List.map_reverse]
    refine ⟨?_, rfl⟩
    have hlength := hs.faults
    rw [List.reverse_eq_nil_iff.1 hys] at hlength
    exact List.reverse_eq_nil_iff.2 (List.eq_nil_of_length_eq_zero hlength)

end Treewalk
