import Treewalk.Proofs.Token.Lines
import Treewalk.Tree.Parse

/-!
# Where a source starts does not matter

The parser draws identities and copies positions, and looks at neither. So tokens that stand further down
and are read with later identities give the same tree with everything in it shifted, and the same faults
further down, whether they are accepted or refused (`Parsed.ofTokens_down`). With the positions kept this
says that a source may be read with identities from anywhere on (`Parsed.ofSource_shift`).

The relation behind this is `Shifts k r p q`: from a shifted state `q` does what `p` does, with the result
changed by `r`. Sequencing respects it. Behind the last token a parser sees an end of input that stands
nowhere and would not move; it never gets there, because an end of input among the tokens is never taken.
-/

namespace Treewalk

namespace Parse

/-- By how much everything is shifted: identities, bytes and lines. -/
structure Shift where
  ids : Nat := 0
  offset : Nat := 0
  lines : Nat := 0

/-- A position further down. -/
def Shift.pos (k : Shift) : Position → Position := Position.down k.offset k.lines

/-- A stop further down. -/
def Stop.shift (k : Shift) : Stop → Stop
  | .fault d => .fault (d.down k.lines)
  | .outOfFuel => .outOfFuel

/-- A state with tokens and faults further down and the next identity raised. -/
def State.shift (k : Shift) (s : State) : State where
  rest := s.rest.map (Token.move k.pos)
  nextId := s.nextId + k.ids
  faults := s.faults.map (Diagnostic.down k.lines)

/-- The tokens left hold an end of input. -/
def State.Closed (s : State) : Prop := ∃ t ∈ s.rest, t.kind = .eof

end Parse

namespace Parser

open Parse

variable {α β γ δ : Type} {k : Shift}

theorem faultAt_move (k : Shift) (t : Token) (kind : Diagnostic.Kind) (message : Bytes) :
    faultAt (t.move k.pos) kind message = (faultAt t kind message).down k.lines := by
  have hplace := Position.place_down k.offset k.lines t.pos
  unfold faultAt Diagnostic.down
  rw [Token.pos_move, Shift.pos, hplace]
  rfl

/-- What is left after a recovery is what was left, less some tokens before the first end of input. -/
theorem dropToBoundary_shift (k : Shift) (before : Token.Kind) (ts : List Token) :
    dropToBoundary before (ts.map (Token.move k.pos)) = (dropToBoundary before ts).map (Token.move k.pos) := by
  induction ts generalizing before with
  | nil => rfl
  | cons t rest ih =>
    rw [List.map_cons, dropToBoundary, dropToBoundary, apply_ite (List.map (Token.move k.pos)), ← ih]
    rfl

theorem resume_shift (k : Shift) (ts : List Token) :
    resume (ts.map (Token.move k.pos)) = (resume ts).map (Token.move k.pos) := by
  cases ts with
  | nil => rfl
  | cons t rest =>
    rw [List.map_cons, resume, resume, apply_ite (List.map (Token.move k.pos)), ← dropToBoundary_shift]
    rfl

theorem dropToBoundary_closed {ts : List Token} (before : Token.Kind) (h : ∃ t ∈ ts, t.kind = .eof) :
    ∃ t ∈ dropToBoundary before ts, t.kind = .eof := by
  induction ts generalizing before with
  | nil => exact h
  | cons t rest ih =>
    rw [dropToBoundary]
    split
    · exact h
    · rename_i hstop
      apply ih
      have hkind : t.kind ≠ .eof := by
        intro heof
        simp [heof] at hstop
      simpa [hkind] using h

theorem resume_closed {ts : List Token} (h : ∃ t ∈ ts, t.kind = .eof) : ∃ t ∈ resume ts, t.kind = .eof := by
  cases ts with
  | nil => exact h
  | cons t rest =>
    rw [resume]
    split
    · exact h
    · rename_i hkind
      exact dropToBoundary_closed t.kind (by simpa [hkind] using h)

/-- From a shifted state `q` does what `p` does, with the result changed by `r`; an end of input is left. -/
def Shifts (k : Shift) (r : α → β) (p : Parser α) (q : Parser β) : Prop :=
  ∀ s : State, s.Closed → match p s with
    | .ok a s' => s'.Closed ∧ q (s.shift k) = .ok (r a) (s'.shift k)
    | .error e s' => s'.Closed ∧ q (s.shift k) = .error (e.shift k) (s'.shift k)

namespace Shifts

theorem bind {r : α → β} {t : γ → δ} {p : Parser α} {q : Parser β} {f : α → Parser γ} {g : β → Parser δ}
    (hp : Shifts k r p q) (hf : ∀ a, Shifts k t (f a) (g (r a))) : Shifts k t (p >>= f) (q >>= g) := by
  intro s hs
  have hrun := hp s hs
  simp only [Bind.bind, EStateM.bind]
  cases hps : p s with
  | ok a s' =>
    rw [hps] at hrun
    rw [hrun.2]
    exact hf a s' hrun.1
  | error e s' =>
    rw [hps] at hrun
    rw [hrun.2]
    exact ⟨hrun.1, rfl⟩

theorem pure (r : α → β) (a : α) : Shifts k r (Pure.pure a) (Pure.pure (r a)) := fun _ hs => ⟨hs, rfl⟩

/-- A tree built from shifted parts is the shifted tree. -/
theorem built {r : α → β} {a : α} {b : β} (h : b = r a) : Shifts k r (Pure.pure a) (Pure.pure b) := by
  rw [h]
  exact pure r a

theorem throw (r : α → β) (e : Stop) :
    Shifts k r (MonadExcept.throw e) (MonadExcept.throw (e.shift k)) := fun _ hs => ⟨hs, rfl⟩

theorem outOfFuel (r : α → β) :
    Shifts k r (MonadExcept.throw Stop.outOfFuel) (MonadExcept.throw Stop.outOfFuel) := throw r .outOfFuel

theorem ite {c : Prop} [Decidable c] {r : α → β} {p p' : Parser α} {q q' : Parser β} (hp : Shifts k r p q)
    (hq : Shifts k r p' q') : Shifts k r (if c then p else p') (if c then q else q') := by
  split
  · exact hp
  · exact hq

theorem peek : Shifts k (Token.move k.pos) Parser.peek Parser.peek := by
  rintro ⟨rest, n, faults⟩ hs
  cases rest with
  | nil => simp [State.Closed] at hs
  | cons t rest => exact ⟨hs, rfl⟩

theorem peekSecond : Shifts k (Token.move k.pos) Parser.peekSecond Parser.peekSecond := by
  rintro ⟨rest, n, faults⟩ hs
  rcases rest with _ | ⟨t, _ | ⟨u, rest⟩⟩
  · simp [State.Closed] at hs
  · exact ⟨hs, rfl⟩
  · exact ⟨hs, rfl⟩

theorem advance : Shifts k (Token.move k.pos) Parser.advance Parser.advance := by
  rintro ⟨rest, n, faults⟩ hs
  rcases rest with _ | ⟨t, rest⟩
  · simp [State.Closed] at hs
  · by_cases ht : t.kind = .eof
    · simp [Parser.advance, State.shift, ht, hs]
    · have hrest : State.Closed ⟨rest, n, faults⟩ := by simpa [State.Closed, ht] using hs
      simp [Parser.advance, State.shift, ht, hrest]

theorem freshId : Shifts k (· + k.ids) Parser.freshId Parser.freshId := by
  intro s hs
  exact ⟨hs, by simp [Parser.freshId, State.shift, Nat.add_right_comm]⟩

theorem record (t : Token) (kind : Diagnostic.Kind) (message : Bytes) :
    Shifts k id (Parser.record (faultAt t kind message))
      (Parser.record (faultAt (t.move k.pos) kind message)) := by
  rw [faultAt_move]
  exact fun _ hs => ⟨hs, rfl⟩

theorem failExpected (r : α → β) (what : Bytes) :
    Shifts k r (Parser.failExpected what) (Parser.failExpected what) := by
  refine peek.bind fun t => ?_
  rw [faultAt_move]
  exact throw r _

theorem expect (kind : Token.Kind) (what : Bytes) :
    Shifts k (Token.move k.pos) (Parser.expect kind what) (Parser.expect kind what) :=
  peek.bind fun _ => ite advance (failExpected _ what)

theorem accept (kind : Token.Kind) : Shifts k id (Parser.accept kind) (Parser.accept kind) :=
  peek.bind fun _ => ite (advance.bind fun _ => pure id true) (pure id false)

theorem unlessAt {r : α → β} {p : Parser α} {q : Parser β} (kind : Token.Kind) (h : Shifts k r p q) :
    Shifts k (Option.map r) (Parser.unlessAt kind p) (Parser.unlessAt kind q) :=
  peek.bind fun _ => ite (pure _ none) (h.bind fun a => pure (Option.map r) (some a))

theorem ifAfter {r : α → β} {p : Parser α} {q : Parser β} (kind : Token.Kind) (h : Shifts k r p q) :
    Shifts k (Option.map r) (Parser.ifAfter kind p) (Parser.ifAfter kind q) :=
  (accept kind).bind fun _ => ite (h.bind fun a => pure (Option.map r) (some a)) (pure _ none)

theorem checkRoom (taken : Nat) (what : Bytes) :
    Shifts k id (Parser.checkRoom taken what) (Parser.checkRoom taken what) :=
  ite (peek.bind fun t => record t _ _) (pure id ())

theorem checkArguments (closing : Token.Kind) (taken : Nat) :
    Shifts k id (Parser.checkArguments closing taken) (Parser.checkArguments closing taken) :=
  ite (checkRoom taken _) (pure id ())

theorem recovering {r : Stmt → Stmt} {p q : Parser Stmt} (h : Shifts k r p q) :
    Shifts k (Option.map r) (Parser.recovering p) (Parser.recovering q) := by
  intro s hs
  have hrun := h s hs
  unfold Parser.recovering
  cases hps : p s with
  | ok stmt s' =>
    rw [hps] at hrun
    rw [hrun.2]
    exact ⟨hrun.1, rfl⟩
  | error e s' =>
    rw [hps] at hrun
    rw [hrun.2]
    cases e with
    | fault d => exact ⟨resume_closed hrun.1, by simp [Stop.shift, State.shift, resume_shift]⟩
    | outOfFuel => exact ⟨hrun.1, rfl⟩

theorem startClause {r : Stmt → Stmt} {p q p' q' : Parser Stmt} (hp : Shifts k r p q)
    (hq : Shifts k r p' q') :
    Shifts k (Option.map r) (Parser.startClause p p') (Parser.startClause q q') := by
  refine (accept _).bind fun _ => ite (pure _ none) (peek.bind fun _ => ?_)
  exact ite (hp.bind fun a => pure (Option.map r) (some a)) (hq.bind fun a => pure (Option.map r) (some a))

end Shifts

/-- A shifted expression. -/
abbrev raise (k : Shift) : Expr → Expr := Expr.map (· + k.ids) k.pos

/-- A shifted statement. -/
abbrev raiseStmt (k : Shift) : Stmt → Stmt := Stmt.map (· + k.ids) k.pos

theorem assignTo_shifts (target : Expr) (sign : Token) (value : Expr) :
    Shifts k (raise k) (assignTo target sign value) (assignTo (raise k target) (sign.move k.pos) (raise k value)) := by
  cases target with
  | ident | get => exact Shifts.freshId.bind fun _ => .built rfl
  | _ => exact (Shifts.record _ _ _).bind fun _ => .pure (raise k) _

theorem compoundTo_shifts (target : Expr) (op : ArithOp) (sign : Token) (value : Expr) :
    Shifts k (raise k) (compoundTo target op sign value)
      (compoundTo (raise k target) op (sign.move k.pos) (raise k value)) := by
  cases target with
  | ident => exact Shifts.freshId.bind fun _ => .built rfl
  | _ => exact (Shifts.record _ _ _).bind fun _ => .pure (raise k) _

theorem stepOf_shifts (target : Expr) (op : StepOp) (token : Token) (before : Bool) :
    Shifts k (raise k) (stepOf target op token before) (stepOf (raise k target) op (token.move k.pos) before) := by
  cases target with
  | ident | index | get => exact Shifts.freshId.bind fun _ => .built rfl
  | _ => exact (Shifts.record _ _ _).bind fun _ => .pure (raise k) _

theorem build_shift (joint : Joint) (id : NodeId) (token : Token) (left right : Expr) :
    joint.build (id + k.ids) (token.move k.pos) (raise k left) (raise k right) = raise k (joint.build id token left right) := by
  cases joint <;> rfl

theorem keywordStmt_shifts {make : Token → Stmt} (hmake : ∀ t, make (t.move k.pos) = raiseStmt k (make t)) (what : Bytes) :
    Shifts k (raiseStmt k) (keywordStmt make what) (keywordStmt make what) :=
  Shifts.advance.bind fun keyword => (Shifts.expect _ _).bind fun _ => .built (hmake keyword)

theorem parameterNames_shifts (fuel : Nat) : ∀ (done : List Token) (taken : Nat),
    Shifts k (List.map (Token.move k.pos)) (parameterNames done taken fuel)
      (parameterNames (done.map (Token.move k.pos)) taken fuel) := by
  induction fuel with
  | zero => exact fun _ _ => .outOfFuel _
  | succ fuel ih =>
    intro done taken
    refine (Shifts.checkRoom _ _).bind fun _ => (Shifts.expect _ _).bind fun name => ?_
    exact (Shifts.accept _).bind fun _ => .ite (ih (name :: done) _) (.built (by simp))

/-- Every parser with fuel `n` takes a shift along. -/
structure ShiftsAt (k : Shift) (n : Nat) : Prop where
  expression : Shifts k (raise k) (expression n) (expression n)
  ternary : Shifts k (raise k) (ternary n) (ternary n)
  chain : ∀ level, Shifts k (raise k) (chain n level) (chain n level)
  chainRest : ∀ level left, Shifts k (raise k) (chainRest n level left) (chainRest n level (raise k left))
  operand : ∀ level, Shifts k (raise k) (operand n level) (operand n level)
  unary : Shifts k (raise k) (unary n) (unary n)
  callRest : ∀ inner, Shifts k (raise k) (callRest n inner) (callRest n (raise k inner))
  arguments : ∀ closing, Shifts k (List.map (raise k)) (arguments n closing) (arguments n closing)
  argumentsFrom : ∀ closing done taken, Shifts k (List.map (raise k))
    (argumentsFrom n closing done taken) (argumentsFrom n closing (done.map (raise k)) taken)
  primary : Shifts k (raise k) (primary n) (primary n)
  functionTail : ∀ callee, Shifts k (Prod.map (List.map (Token.move k.pos)) (List.map (raiseStmt k)))
    (functionTail n callee) (functionTail n callee)
  function : ∀ callee, Shifts k (Function.map (· + k.ids) k.pos) (function n callee) (function n callee)
  block : Shifts k (Prod.map (Token.move k.pos) (List.map (raiseStmt k))) (block n) (block n)
  blockBody : ∀ done, Shifts k (List.map (raiseStmt k))
    (blockBody n done) (blockBody n (done.map (raiseStmt k)))
  declaration : Shifts k (raiseStmt k) (declaration n) (declaration n)
  classDecl : Shifts k (raiseStmt k) (classDecl n) (classDecl n)
  members : ∀ fields methods,
    Shifts k (Prod.map (List.map (Field.map (· + k.ids) k.pos)) (List.map (Function.map (· + k.ids) k.pos)))
      (members n fields methods)
      (members n (fields.map (Field.map (· + k.ids) k.pos)) (methods.map (Function.map (· + k.ids) k.pos)))
  variableDecl : Shifts k (raiseStmt k) (variableDecl n) (variableDecl n)
  statement : Shifts k (raiseStmt k) (statement n) (statement n)
  branch : Shifts k (raiseStmt k) (branch n) (branch n)
  forLoop : Shifts k (raiseStmt k) (forLoop n) (forLoop n)
  expressionStmt : Shifts k (raiseStmt k) (expressionStmt n) (expressionStmt n)
  program : ∀ done, Shifts k (List.map (raiseStmt k)) (program n done) (program n (done.map (raiseStmt k)))

theorem shiftsAt_zero : ShiftsAt k 0 where
  expression := .outOfFuel _
  ternary := .outOfFuel _
  chain _ := .outOfFuel _
  chainRest _ _ := .outOfFuel _
  operand _ := .outOfFuel _
  unary := .outOfFuel _
  callRest _ := .outOfFuel _
  arguments _ := .outOfFuel _
  argumentsFrom _ _ _ := .outOfFuel _
  primary := .outOfFuel _
  functionTail _ := .outOfFuel _
  function _ := .outOfFuel _
  block := .outOfFuel _
  blockBody _ := .outOfFuel _
  declaration := .outOfFuel _
  classDecl := .outOfFuel _
  members _ _ := .outOfFuel _
  variableDecl := .outOfFuel _
  statement := .outOfFuel _
  branch := .outOfFuel _
  forLoop := .outOfFuel _
  expressionStmt := .outOfFuel _
  program _ := .outOfFuel _

theorem shiftsAt_succ {n : Nat} (h : ShiftsAt k n) : ShiftsAt k (n + 1) where
  expression := by
    refine h.ternary.bind fun target => Shifts.peek.bind fun sign => .ite ?_ ?_
    · exact Shifts.advance.bind fun _ => h.expression.bind fun value => assignTo_shifts target sign value
    · simp only [Token.kind_move]
      cases compoundOp? sign.kind with
      | some op =>
        exact Shifts.advance.bind fun _ => h.expression.bind fun value => compoundTo_shifts target op sign value
      | none => exact .pure (raise k) target
  ternary := by
    refine (h.chain _).bind fun cond => Shifts.peek.bind fun question => .ite ?_ (.pure (raise k) cond)
    refine Shifts.advance.bind fun _ => h.expression.bind fun yes => (Shifts.expect _ _).bind fun _ => ?_
    exact h.ternary.bind fun no => Shifts.freshId.bind fun _ => .built rfl
  chain level := (h.operand level).bind fun left => h.chainRest level left
  chainRest level left := by
    refine Shifts.peek.bind fun token => ?_
    simp only [Token.kind_move]
    cases level.joint? token.kind with
    | none => exact .pure (raise k) left
    | some joint =>
      refine Shifts.advance.bind fun _ => (h.operand level).bind fun right => ?_
      refine Shifts.freshId.bind fun fresh => ?_
      rw [build_shift]
      exact h.chainRest level _
  operand level := by
    cases level with
    | factor => exact h.unary
    | _ => exact h.chain _
  unary := by
    refine Shifts.peek.bind fun token => ?_
    simp only [Token.kind_move]
    cases unaryOp? token.kind with
    | some op =>
      exact Shifts.advance.bind fun _ => h.unary.bind fun _ => Shifts.freshId.bind fun _ => .built rfl
    | none =>
      cases stepOp? token.kind with
      | some op => exact Shifts.advance.bind fun _ => h.unary.bind fun operand => stepOf_shifts operand op token _
      | none => exact h.primary.bind fun inner => h.callRest inner
  callRest inner := by
    refine Shifts.peek.bind fun token => ?_
    simp only [Token.kind_move]
    split
    · refine Shifts.advance.bind fun _ => (h.arguments _).bind fun args => ?_
      refine (Shifts.expect _ _).bind fun paren => Shifts.freshId.bind fun fresh => ?_
      have hcall := h.callRest (.call fresh inner paren args)
      rw [raise, Expr.map, Expr.mapAll_eq_map] at hcall
      exact hcall
    · refine Shifts.advance.bind fun _ => (Shifts.expect _ _).bind fun name => ?_
      exact Shifts.freshId.bind fun fresh => h.callRest (.get fresh inner name)
    · refine Shifts.advance.bind fun _ => h.expression.bind fun index => ?_
      exact (Shifts.expect _ _).bind fun _ => Shifts.freshId.bind fun fresh =>
        h.callRest (.index fresh inner token index)
    · cases stepOp? token.kind with
      | some op => exact Shifts.advance.bind fun _ => stepOf_shifts inner op token false
      | none => exact .pure (raise k) inner
  arguments closing := Shifts.peek.bind fun _ => .ite (.built rfl) (h.argumentsFrom closing [] 0)
  argumentsFrom closing done taken := by
    refine (Shifts.checkArguments _ _).bind fun _ => h.expression.bind fun e => (Shifts.accept _).bind fun _ => ?_
    exact .ite (h.argumentsFrom _ (e :: done) _) (.built (by simp))
  primary := by
    refine Shifts.peek.bind fun token => ?_
    simp only [Token.kind_move]
    split
    case h_8 =>
      refine Shifts.advance.bind fun _ => h.expression.bind fun inner => (Shifts.expect _ _).bind fun _ => ?_
      exact Shifts.freshId.bind fun _ => .built rfl
    case h_9 =>
      refine Shifts.advance.bind fun _ => (h.arguments _).bind fun es => (Shifts.expect _ _).bind fun _ => ?_
      exact Shifts.freshId.bind fun _ => .built (by rw [raise, Expr.map, Expr.mapAll_eq_map])
    case h_10 =>
      refine Shifts.advance.bind fun _ => (h.functionTail _).bind fun tail => Shifts.freshId.bind fun _ => ?_
      exact .built (by rw [raise, Expr.map, Stmt.mapAll_eq_map]; rfl)
    case h_11 => exact .failExpected _ _
    all_goals exact Shifts.advance.bind fun _ => Shifts.freshId.bind fun _ => .built rfl
  functionTail callee := by
    have hparams : Shifts k (List.map (Token.move k.pos)) (parameters n) (parameters n) :=
      Shifts.peek.bind fun _ => .ite (.built rfl) (parameterNames_shifts n [] _)
    refine (Shifts.expect _ _).bind fun _ => hparams.bind fun params => (Shifts.expect _ _).bind fun _ => ?_
    refine Shifts.peek.bind fun next => .ite ?_ (.failExpected _ _)
    exact h.block.bind fun _ => .built rfl
  function callee := by
    refine (Shifts.expect _ _).bind fun name => (h.functionTail callee).bind fun tail => ?_
    exact .built (by rw [Function.map, Stmt.mapAll_eq_map])
  block := by
    refine (Shifts.expect _ _).bind fun brace => (h.blockBody []).bind fun body => ?_
    exact (Shifts.expect _ _).bind fun _ => .built rfl
  blockBody done := by
    refine Shifts.peek.bind fun next => .ite (.built (by simp)) ?_
    refine h.declaration.recovering.bind fun found => ?_
    cases found with
    | some stmt => exact h.blockBody (stmt :: done)
    | none => exact h.blockBody done
  declaration := by
    refine Shifts.peek.bind fun next => ?_
    simp only [Token.kind_move]
    split
    · exact h.classDecl
    · refine Shifts.peekSecond.bind fun second => .ite ?_ h.statement
      exact Shifts.advance.bind fun _ => (h.function _).bind fun _ => .built rfl
    · exact h.variableDecl
    · exact h.statement
  classDecl := by
    refine Shifts.advance.bind fun keyword => (Shifts.expect _ _).bind fun name => ?_
    refine (Shifts.expect _ _).bind fun _ => (h.members [] []).bind fun parts => (Shifts.expect _ _).bind fun _ => ?_
    exact .built (by rw [raiseStmt, Stmt.map, Field.mapAll_eq_map, Function.mapAll_eq_map]; rfl)
  members fields methods := by
    refine Shifts.peek.bind fun next => .ite (.built (by simp)) (Shifts.peekSecond.bind fun second => ?_)
    refine .ite ?_ ((h.function _).bind fun method => h.members fields (method :: methods))
    refine Shifts.advance.bind fun _ => Shifts.advance.bind fun _ => h.expression.bind fun value => ?_
    exact (Shifts.expect _ _).bind fun _ => h.members (.mk next value :: fields) methods
  variableDecl := by
    refine Shifts.advance.bind fun keyword => (Shifts.expect _ _).bind fun name => ?_
    refine (h.expression.ifAfter _).bind fun value => (Shifts.expect _ _).bind fun _ => .built ?_
    cases value <;> rfl
  statement := by
    refine Shifts.peek.bind fun next => ?_
    simp only [Token.kind_move]
    split
    · refine Shifts.advance.bind fun keyword => h.expression.bind fun e => ?_
      exact (Shifts.expect _ _).bind fun _ => .built rfl
    · exact h.block.bind fun _ => .built (by rw [raiseStmt, Stmt.map, Stmt.mapAll_eq_map]; rfl)
    · exact h.branch
    · refine Shifts.advance.bind fun keyword => (Shifts.expect _ _).bind fun _ => ?_
      refine h.expression.bind fun cond => (Shifts.expect _ _).bind fun _ => ?_
      exact h.statement.bind fun body => .built rfl
    · exact h.forLoop
    · refine Shifts.advance.bind fun keyword => (h.expression.unlessAt _).bind fun value => ?_
      refine (Shifts.expect _ _).bind fun _ => .built ?_
      cases value <;> rfl
    · exact keywordStmt_shifts (fun _ => rfl) _
    · exact keywordStmt_shifts (fun _ => rfl) _
    · exact h.expressionStmt
  branch := by
    refine Shifts.advance.bind fun keyword => (Shifts.expect _ _).bind fun _ => ?_
    refine h.expression.bind fun cond => (Shifts.expect _ _).bind fun _ => h.statement.bind fun yes => ?_
    refine (h.statement.ifAfter _).bind fun no => .built ?_
    cases no <;> rfl
  forLoop := by
    refine Shifts.advance.bind fun keyword => (Shifts.expect _ _).bind fun _ => ?_
    refine (h.variableDecl.startClause h.expressionStmt).bind fun start => ?_
    refine (h.expression.unlessAt _).bind fun cond => (Shifts.expect _ _).bind fun _ => ?_
    refine (h.expression.unlessAt _).bind fun step => (Shifts.expect _ _).bind fun _ => ?_
    refine h.statement.bind fun body => .built ?_
    cases start <;> cases cond <;> cases step <;> rfl
  expressionStmt := by
    refine Shifts.peek.bind fun first => h.expression.bind fun e => ?_
    exact (Shifts.expect _ _).bind fun _ => .built rfl
  program done := by
    refine Shifts.peek.bind fun next => .ite (.built (by simp)) ?_
    refine h.declaration.recovering.bind fun found => ?_
    cases found with
    | some stmt => exact h.program (stmt :: done)
    | none => exact h.program done

theorem shiftsAt (k : Shift) : ∀ n, ShiftsAt k n
  | 0 => shiftsAt_zero
  | n + 1 => shiftsAt_succ (shiftsAt k n)

end Parser

namespace Parsed

/-- Tokens further down, read with raised identities: the same tree shifted and the same faults further
down. -/
theorem ofTokens_down (k : Parse.Shift) (n : NodeId) {ts : List Token} {e : Token} (he : e.kind = .eof) :
    ofTokens (n + k.ids) ((ts ++ [e]).map (Token.move k.pos)) =
      { ofTokens n (ts ++ [e]) with
        stmts := Stmt.mapAll (· + k.ids) k.pos (ofTokens n (ts ++ [e])).stmts
        faults := (ofTokens n (ts ++ [e])).faults.map (Diagnostic.down k.lines)
        nextId := (ofTokens n (ts ++ [e])).nextId + k.ids } := by
  have hclosed : closed (ts ++ [e]) = ts ++ [e] := by simp [closed, he]
  have hmoved : closed ((ts ++ [e]).map (Token.move k.pos)) = (ts ++ [e]).map (Token.move k.pos) := by
    simp [closed, he]
  have hprogram := (Parser.shiftsAt k (fuelFor (ts ++ [e]))).program [] ⟨ts ++ [e], n, []⟩ ⟨e, by simp, he⟩
  have hshift : Parse.State.shift k ⟨ts ++ [e], n, []⟩ = ⟨(ts ++ [e]).map (Token.move k.pos), n + k.ids, []⟩ := rfl
  have hfuel : fuelFor ((ts ++ [e]).map (Token.move k.pos)) = fuelFor (ts ++ [e]) := by simp [fuelFor]
  rw [List.map_nil, hshift] at hprogram
  simp only [ofTokens, hclosed, hmoved, hfuel]
  cases hrun : Parser.program (fuelFor (ts ++ [e])) [] ⟨ts ++ [e], n, []⟩ with
  | ok stmts s =>
    rw [hrun] at hprogram
    simp only [hprogram.2, Stmt.mapAll_eq_map, Parse.State.shift, List.map_reverse]
  | error e s =>
    rw [hrun] at hprogram
    simp only [hprogram.2, Stmt.mapAll, Parse.State.shift, List.map_reverse]

theorem ofTokens_shift (k n : NodeId) {ts : List Token} {e : Token} (he : e.kind = .eof) :
    ofTokens (n + k) (ts ++ [e]) =
      { ofTokens n (ts ++ [e]) with
        stmts := Stmt.mapAll (· + k) id (ofTokens n (ts ++ [e])).stmts
        nextId := (ofTokens n (ts ++ [e])).nextId + k } := by
  have hdown := @ofTokens_down ⟨k, 0, 0⟩ n ts e he
  simpa only [Parse.Shift.pos, Position.down_zero, Token.map_move_id, Diagnostic.down_zero, List.map_id]
    using hdown

/-- Tokens further down: the same tree and the same faults further down. -/
theorem ofTokens_move (offset lines : Nat) (n : NodeId) {ts : List Token} {e : Token} (he : e.kind = .eof) :
    ofTokens n ((ts ++ [e]).map (Token.move (Position.down offset lines))) =
      { ofTokens n (ts ++ [e]) with
        stmts := Stmt.mapAll id (Position.down offset lines) (ofTokens n (ts ++ [e])).stmts
        faults := (ofTokens n (ts ++ [e])).faults.map (Diagnostic.down lines) } :=
  ofTokens_down ⟨0, offset, lines⟩ n he

/-- A source read with raised identities gives the same tree with raised identities, and the same faults. -/
theorem ofSource_shift (k n : NodeId) (source : Bytes) : ofSource (n + k) source =
    { ofSource n source with
      stmts := Stmt.mapAll (· + k) id (ofSource n source).stmts
      nextId := (ofSource n source).nextId + k } := by
  obtain ⟨ts, e, htokens, he, -⟩ := Token.scan_tokens source
  simp only [ofSource, htokens, ofTokens_shift k n he]

/-- The faults of a source do not depend on identities. -/
theorem faults_ofSource (n k : NodeId) (source : Bytes) :
    (ofSource n source).faults = (ofSource k source).faults := by
  have hzero : ∀ n, (ofSource n source).faults = (ofSource 0 source).faults := by
    intro n
    rw [← Nat.zero_add n, ofSource_shift]
  rw [hzero n, hzero k]

/-- The statements of a source depend on identities only in the identities they bear. -/
theorem stmts_ofSource (n k : NodeId) (source : Bytes) (f : Position → Position) :
    Stmt.mapAll blank f (ofSource n source).stmts = Stmt.mapAll blank f (ofSource k source).stmts := by
  have hzero : ∀ n, Stmt.mapAll blank f (ofSource n source).stmts =
      Stmt.mapAll blank f (ofSource 0 source).stmts := by
    intro n
    rw [← Nat.zero_add n, ofSource_shift]
    exact Stmt.mapAll_mapAll _ _ _ _ _
  rw [hzero n, hzero k]

end Parsed

end Treewalk
