import Treewalk.Proofs.Parser.Grammar

/-!
# What is read without a fault is grammatical

A parser that records no fault returns a well-formed tree, and the tokens and identities it took are
those of the tree written out (`reads_of_program`). The proof is one induction on the fuel, with a case for
each parser.

Faults that do not end a declaration may be recorded anywhere, and only the end of a run tells whether
there were any. `Clean p s Q` therefore promises `Q` under the condition that no fault was recorded, and
`Clean.bind` hands the promises of the first parser on to the promise of the whole.
-/

namespace Treewalk.Parse.State

/-- Where a parser stands. -/
def cursor (s : State) : Cursor := (s.rest, s.nextId)

/-- The next token. -/
def head (s : State) : Token := Token.first s.rest

end Treewalk.Parse.State

namespace Treewalk.Parser

open Parse

variable {α β : Type}

/-- No fault is ever taken back, and if none is recorded from `s` on, the result satisfies `Q`. -/
def Clean (p : Parser α) (s : State) (Q : α → State → Prop) : Prop :=
  match p s with
  | .ok a s' => s.faults.length ≤ s'.faults.length ∧ (s'.faults.length = s.faults.length → Q a s')
  | .error _ s' => s.faults.length ≤ s'.faults.length

namespace Clean

variable {p : Parser α} {f : α → Parser β} {s : State} {Q R : α → State → Prop}
  {P : β → State → Prop}

theorem bind (hp : Clean p s Q) (hf : ∀ a s', Clean (f a) s' fun b s'' => Q a s' → P b s'') :
    Clean (p >>= f) s P := by
  unfold Clean at hp
  show match EStateM.bind p f s with
    | .ok b s'' => s.faults.length ≤ s''.faults.length ∧
      (s''.faults.length = s.faults.length → P b s'')
    | .error _ s'' => s.faults.length ≤ s''.faults.length
  unfold EStateM.bind
  cases h : p s with
  | error e s' =>
    rw [h] at hp
    exact hp
  | ok a s' =>
    rw [h] at hp
    obtain ⟨hle, hq⟩ := hp
    have hfa := hf a s'
    unfold Clean at hfa
    show match f a s' with
      | .ok b s'' => s.faults.length ≤ s''.faults.length ∧
        (s''.faults.length = s.faults.length → P b s'')
      | .error _ s'' => s.faults.length ≤ s''.faults.length
    cases h' : f a s' with
    | error e s'' =>
      rw [h'] at hfa
      exact Nat.le_trans hle hfa
    | ok b s'' =>
      rw [h'] at hfa
      obtain ⟨hle', hp⟩ := hfa
      exact ⟨Nat.le_trans hle hle', fun heq => hp (by omega) (hq (by omega))⟩

theorem mono (hp : Clean p s Q) (h : ∀ a s', Q a s' → R a s') : Clean p s R := by
  unfold Clean at hp ⊢
  cases hps : p s with
  | ok a s' =>
    rw [hps] at hp
    exact ⟨hp.1, fun heq => h a s' (hp.2 heq)⟩
  | error e s' =>
    rw [hps] at hp
    exact hp

theorem pure {a : α} (h : Q a s) : Clean (Pure.pure a) s Q := ⟨Nat.le_refl _, fun _ => h⟩

theorem outOfFuel : Clean (throw .outOfFuel : Parser α) s Q := Nat.le_refl s.faults.length

theorem ite {c : Prop} [Decidable c] {q : Parser α} (hp : c → Clean p s Q) (hq : ¬c → Clean q s Q) :
    Clean (if c then p else q) s Q := by
  split
  · exact hp ‹_›
  · exact hq ‹_›

/-! ## The steps that parsers are built from -/

section

variable {f : Token → Parser β}

theorem peek (h : Clean (f s.head) s P) : Clean (Parser.peek >>= f) s P := h

theorem peekSecond (h : ∀ t, t = s.head ∨ (∃ rest, s.rest.tail = t :: rest) → Clean (f t) s P) :
    Clean (Parser.peekSecond >>= f) s P := by
  rcases s with ⟨_ | ⟨a, _ | ⟨b, rest⟩⟩, n, fs⟩
  · exact h { kind := .eof } (.inl rfl)
  · exact h a (.inl rfl)
  · exact h b (.inr ⟨rest, rfl⟩)

theorem advance (hs : s.head.kind ≠ .eof)
    (h : ∀ s', s.cursor = (s.head :: s'.rest, s'.nextId) → s'.faults = s.faults →
      Clean (f s.head) s' P) : Clean (Parser.advance >>= f) s P := by
  rcases s with ⟨_ | ⟨t, rest⟩, n, fs⟩
  · exact absurd rfl hs
  · have ht : t.kind ≠ .eof := hs
    have hrun := h ⟨rest, n, fs⟩ rfl rfl
    have heq : (Parser.advance >>= f) ⟨t :: rest, n, fs⟩ = f t ⟨rest, n, fs⟩ := by
      show EStateM.bind Parser.advance f _ = _
      simp [EStateM.bind, Parser.advance, ht]
    unfold Clean at hrun ⊢
    rw [heq]
    exact hrun

theorem failExpected (what : Bytes) : Clean (failExpected (α := α) what) s Q :=
  Nat.le_refl s.faults.length

theorem expect {kind : Token.Kind} {what : Bytes} (hk : kind ≠ .eof)
    (h : ∀ t s', t.kind = kind → s.cursor = (t :: s'.rest, s'.nextId) → Clean (f t) s' P) :
    Clean (Parser.expect kind what >>= f) s P := by
  show Clean ((Parser.peek >>= fun t => if t.kind = kind then _ else _) >>= f) s P
  rw [bind_assoc]
  refine peek ?_
  by_cases hs : s.head.kind = kind
  · rw [if_pos hs]
    exact advance (by rw [hs]; exact hk) fun s' hc _ => h s.head s' hs hc
  · rw [if_neg hs]
    exact Nat.le_refl s.faults.length

end

/-- A token of the wanted kind is taken, or everything stays as it was. -/
theorem accept {kind : Token.Kind} {f : Bool → Parser β} (hk : kind ≠ .eof)
    (htrue : ∀ t s', t.kind = kind → s.cursor = (t :: s'.rest, s'.nextId) → Clean (f true) s' P)
    (hfalse : s.head.kind ≠ kind → Clean (f false) s P) : Clean (Parser.accept kind >>= f) s P := by
  show Clean ((Parser.peek >>= fun t => if t.kind = kind then _ else _) >>= f) s P
  rw [bind_assoc]
  refine peek ?_
  by_cases hs : s.head.kind = kind
  · rw [if_pos hs, bind_assoc]
    refine advance (by rw [hs]; exact hk) fun s' hc _ => ?_
    exact htrue s.head s' hs hc
  · rw [if_neg hs]
    exact hfalse hs

theorem freshId {f : NodeId → Parser β}
    (h : Clean (f s.nextId) { s with nextId := s.nextId + 1 } P) : Clean (Parser.freshId >>= f) s P :=
  h

/-- Recording a fault makes a run unclean, whatever comes of it. -/
theorem record (d : Diagnostic) : Clean (Parser.record d) s fun _ _ => False := by
  refine ⟨Nat.le_succ _, fun h => ?_⟩
  have : s.faults.length + 1 = s.faults.length := h
  omega

theorem checkRoom (taken : Nat) (what : Bytes) :
    Clean (Parser.checkRoom taken what) s fun _ s' => s' = s ∧ taken ≠ maxArguments := by
  unfold Parser.checkRoom
  exact ite (fun _ => peek ((record _).mono fun _ _ h => h.elim)) fun h => pure ⟨rfl, h⟩

theorem checkArguments (closing : Token.Kind) (taken : Nat) :
    Clean (Parser.checkArguments closing taken) s fun _ s' =>
      s' = s ∧ (closing = .rightParen → taken ≠ maxArguments) := by
  unfold Parser.checkArguments
  refine ite (fun _ => (checkRoom _ _).mono fun _ _ h => ⟨h.1, fun _ => h.2⟩) fun h => ?_
  exact pure ⟨rfl, fun hc => absurd hc h⟩

theorem recovering {p : Parser Stmt} {Q : Stmt → State → Prop} (hp : Clean p s Q) :
    Clean (Parser.recovering p) s fun found s' => found.elim False (Q · s') := by
  unfold Clean at hp
  unfold Clean Parser.recovering
  cases h : p s with
  | ok a s' =>
    rw [h] at hp
    exact hp
  | error e s' =>
    rw [h] at hp
    cases e with
    | outOfFuel => exact hp
    | fault d =>
      refine ⟨Nat.le_trans hp (Nat.le_succ _), fun heq => ?_⟩
      have : s'.faults.length + 1 = s.faults.length := heq
      have : s.faults.length ≤ s'.faults.length := hp
      omega

end Clean

/-! ## The parsers -/

/-- What every parser with fuel `n` promises of a result read without a fault. The parsers that carry on
from something already read promise it of the whole. -/
structure SoundAt (n : Nat) : Prop where
  expression : ∀ s, Clean (expression n) s fun e s' => e.Reads s.cursor s'.cursor ∧ e.WellFormed
  ternary : ∀ s, Clean (ternary n) s fun e s' =>
    e.Reads s.cursor s'.cursor ∧ e.WellFormed ∧ 1 ≤ e.rank
  chain : ∀ level s, Clean (chain n level) s fun e s' =>
    e.Reads s.cursor s'.cursor ∧ e.WellFormed ∧ level.rank ≤ e.rank
  chainRest : ∀ level left s, Clean (chainRest n level left) s fun e s' =>
    ∀ c, left.Reads c s.cursor → left.WellFormed → level.rank ≤ left.rank →
      e.Reads c s'.cursor ∧ e.WellFormed ∧ level.rank ≤ e.rank
  operand : ∀ level s, Clean (operand n level) s fun e s' =>
    e.Reads s.cursor s'.cursor ∧ e.WellFormed ∧ level.rank < e.rank
  unary : ∀ s, Clean (unary n) s fun e s' => e.Reads s.cursor s'.cursor ∧ e.WellFormed ∧ 8 ≤ e.rank
  callRest : ∀ inner s, Clean (callRest n inner) s fun e s' =>
    ∀ c, inner.Reads c s.cursor → inner.WellFormed → 10 ≤ inner.rank →
      e.Reads c s'.cursor ∧ e.WellFormed ∧ 8 ≤ e.rank
  arguments : ∀ closing s, Clean (arguments n closing) s fun es s' =>
    Expr.ReadsList es s.cursor s'.cursor ∧ Expr.WellFormedAll es ∧
      (closing = .rightParen → es.length ≤ maxArguments)
  argumentsFrom : ∀ closing done taken s, Clean (argumentsFrom n closing done taken) s fun es s' =>
    ∃ e new c, es = done.reverse ++ e :: new ∧ e.Reads s.cursor c ∧
      Expr.ReadsMore new c s'.cursor ∧ Expr.WellFormedAll (e :: new) ∧
      (closing = .rightParen → taken ≤ maxArguments → taken + (e :: new).length ≤ maxArguments)
  primary : ∀ s, Clean (primary n) s fun e s' =>
    e.Reads s.cursor s'.cursor ∧ e.WellFormed ∧ 10 ≤ e.rank
  parameterNames : ∀ done taken s, Clean (parameterNames done taken n) s fun ps s' =>
    ∃ p new ts, ps = done.reverse ++ p :: new ∧ s.rest = p :: ts ∧ MoreParams new ts s'.rest ∧
      s'.nextId = s.nextId ∧ (∀ q ∈ p :: new, q.kind = .identifier) ∧
      (taken ≤ maxArguments → taken + (p :: new).length ≤ maxArguments)
  functionTail : ∀ callee s, Clean (functionTail n callee) s fun tail s' =>
    ReadsTail tail.1 tail.2 s.cursor s'.cursor ∧ WellFormedParams tail.1 ∧ Stmt.WellFormedAll tail.2
  function : ∀ callee s, Clean (function n callee) s fun d s' =>
    d.Reads s.cursor s'.cursor ∧ d.WellFormed
  block : ∀ s, Clean (block n) s fun found s' => found.1.kind = .leftBrace ∧
    ∃ ts last, s.rest = found.1 :: ts ∧ last.kind = .rightBrace ∧
      Stmt.ReadsAll found.2 (ts, s.nextId) (last :: s'.rest, s'.nextId) ∧ Stmt.WellFormedAll found.2
  blockBody : ∀ done s, Clean (blockBody n done) s fun ss s' =>
    ∃ new, ss = done.reverse ++ new ∧ Stmt.ReadsAll new s.cursor s'.cursor ∧ Stmt.WellFormedAll new
  declaration : ∀ s, Clean (declaration n) s fun st s' => st.Reads s.cursor s'.cursor ∧ st.WellFormed
  classDecl : ∀ s, s.head.kind = .classWord → Clean (classDecl n) s fun st s' =>
    st.Reads s.cursor s'.cursor ∧ st.WellFormed
  members : ∀ fields methods s, Clean (members n fields methods) s fun found s' =>
    ∃ fs ms, found = (fields.reverse ++ fs, methods.reverse ++ ms) ∧
      ReadsMembers fs ms s.cursor s'.cursor ∧ Field.WellFormedAll fs ∧ Function.WellFormedAll ms
  variableDecl : ∀ s, s.head.kind = .letWord → Clean (variableDecl n) s fun st s' =>
    st.Reads s.cursor s'.cursor ∧ st.WellFormed ∧ st.isClause = true
  statement : ∀ s, Clean (statement n) s fun st s' => st.Reads s.cursor s'.cursor ∧
    (st.WellFormed ∧ st.isDeclaration = false) ∧ (st.opensIf = true → s'.head.kind ≠ .elseWord)
  branch : ∀ s, s.head.kind = .ifWord → Clean (branch n) s fun st s' =>
    st.Reads s.cursor s'.cursor ∧ (st.WellFormed ∧ st.isDeclaration = false) ∧
      (st.opensIf = true → s'.head.kind ≠ .elseWord)
  forLoop : ∀ s, s.head.kind = .forWord → Clean (forLoop n) s fun st s' =>
    st.Reads s.cursor s'.cursor ∧ (st.WellFormed ∧ st.isDeclaration = false) ∧
      (st.opensIf = true → s'.head.kind ≠ .elseWord)
  expressionStmt : ∀ s, Clean (expressionStmt n) s fun st s' => st.Reads s.cursor s'.cursor ∧
    ∃ pos e, st = .expression pos e ∧ e.WellFormed
  program : ∀ done s, Clean (program n done) s fun ss s' =>
    ∃ new, ss = done.reverse ++ new ∧ Stmt.ReadsAll new s.cursor s'.cursor ∧
      Stmt.WellFormedAll new ∧ s'.head.kind = .eof

theorem soundAt_zero : SoundAt 0 where
  expression _ := .outOfFuel
  ternary _ := .outOfFuel
  chain _ _ := .outOfFuel
  chainRest _ _ _ := .outOfFuel
  operand _ _ := .outOfFuel
  unary _ := .outOfFuel
  callRest _ _ := .outOfFuel
  arguments _ _ := .outOfFuel
  argumentsFrom _ _ _ _ := .outOfFuel
  primary _ := .outOfFuel
  parameterNames _ _ _ := .outOfFuel
  functionTail _ _ := .outOfFuel
  function _ _ := .outOfFuel
  block _ := .outOfFuel
  blockBody _ _ := .outOfFuel
  declaration _ := .outOfFuel
  classDecl _ _ := .outOfFuel
  members _ _ _ := .outOfFuel
  variableDecl _ _ := .outOfFuel
  statement _ := .outOfFuel
  branch _ _ := .outOfFuel
  forLoop _ _ := .outOfFuel
  expressionStmt _ := .outOfFuel
  program _ _ := .outOfFuel

theorem Clean.assignTo {target value : Expr} {sign : Token} {s : State} :
    Clean (assignTo target sign value) s fun e s' =>
      ∀ c ts m, sign.kind = .assign → target.Reads c (sign :: ts, m) → target.WellFormed →
        value.Reads (ts, m) s.cursor → value.WellFormed → e.Reads c s'.cursor ∧ e.WellFormed := by
  unfold Parser.assignTo
  split
  · refine freshId (pure ?_)
    intro c ts m hsign ht hwt hv hwv
    cases ht
    exact ⟨.assign hsign hv, hwt, hwv⟩
  · refine freshId (pure ?_)
    intro c ts m hsign ht hwt hv hwv
    cases ht with
    | get ho hdot => exact ⟨.set ho hdot hsign hv, hwt.1, hwt.2, hwv⟩
  · exact (record _).bind fun _ _ => pure fun hf => hf.elim

theorem Clean.compoundTo {target value : Expr} {op : ArithOp} {sign : Token} {s : State} :
    Clean (compoundTo target op sign value) s fun e s' =>
      ∀ c ts m, compoundOp? sign.kind = some op → target.Reads c (sign :: ts, m) →
        target.WellFormed → value.Reads (ts, m) s.cursor → value.WellFormed →
          e.Reads c s'.cursor ∧ e.WellFormed := by
  unfold Parser.compoundTo
  split
  · refine freshId (pure ?_)
    intro c ts m hop ht hwt hv hwv
    cases ht
    exact ⟨.compound hv, hwt, hop, hwv⟩
  · exact (record _).bind fun _ _ => pure fun hf => hf.elim

/-- A step takes the place of its target, before or behind which its token stands. -/
theorem Clean.stepOf {target : Expr} {op : StepOp} {token : Token} {before : Bool} {s : State} :
    Clean (stepOf target op token before) s fun e s' =>
      stepOp? token.kind = some op → target.WellFormed →
        (before = true → ∀ ts n, target.Reads (ts, n) s.cursor →
          e.Reads (token :: ts, n) s'.cursor ∧ e.WellFormed ∧ 8 ≤ e.rank) ∧
        (before = false → ∀ c, target.Reads c (token :: s.rest, s.nextId) →
          e.Reads c s'.cursor ∧ e.WellFormed ∧ 8 ≤ e.rank) := by
  rcases s with ⟨rest, m, fs⟩
  unfold Parser.stepOf
  split
  · refine freshId (pure ?_)
    intro hop hwt
    refine ⟨fun hb ts n ht => ?_, fun hb c ht => ?_⟩
    · cases ht
      subst hb
      exact ⟨.updateBefore, ⟨hwt, hop⟩, Nat.le_refl 8⟩
    · cases ht
      subst hb
      exact ⟨.updateAfter, ⟨hwt, hop⟩, Nat.le_succ 8⟩
  · refine freshId (pure ?_)
    intro hop hwt
    refine ⟨fun hb ts n ht => ?_, fun hb c ht => ?_⟩
    · cases ht with
      | index ho hi hclose =>
        subst hb
        exact ⟨.updateIndexBefore ho hi hclose, ⟨hwt.1, hop, hwt.2⟩, Nat.le_refl 8⟩
    · cases ht with
      | index ho hi hclose =>
        subst hb
        exact ⟨.updateIndexAfter ho hi hclose, ⟨hwt.1, hop, hwt.2⟩, Nat.le_succ 8⟩
  · refine freshId (pure ?_)
    intro hop hwt
    refine ⟨fun hb ts n ht => ?_, fun hb c ht => ?_⟩
    · cases ht with
      | get ho hdot =>
        subst hb
        exact ⟨.updateGetBefore ho hdot, ⟨hwt.1, hop, hwt.2⟩, Nat.le_refl 8⟩
    · cases ht with
      | get ho hdot =>
        subst hb
        exact ⟨.updateGetAfter ho hdot, ⟨hwt.1, hop, hwt.2⟩, Nat.le_succ 8⟩
  · exact (record _).bind fun _ _ => pure fun hf => hf.elim

variable {n : Nat}

theorem sound_expression (h : SoundAt n) (s : State) : Clean (Parser.expression (n + 1)) s fun e s' =>
    e.Reads s.cursor s'.cursor ∧ e.WellFormed := by
  refine (h.ternary s).bind fun target s₁ => .peek (.ite (fun hk => ?_) fun _ => ?_)
  · refine .advance (by simp [hk]) fun s₂ hc₂ _ => (h.expression s₂).bind fun value s₃ => ?_
    refine Clean.assignTo.mono fun e s₄ hassign hvalue htarget => ?_
    rw [hc₂] at htarget
    exact hassign _ _ _ hk htarget.1 htarget.2.1 hvalue.1 hvalue.2
  · split
    · rename_i op hop
      have hne : s₁.head.kind ≠ .eof := by
        intro he
        simp [he, compoundOp?] at hop
      refine .advance hne fun s₂ hc₂ _ => (h.expression s₂).bind fun value s₃ => ?_
      refine Clean.compoundTo.mono fun e s₄ hcompound hvalue htarget => ?_
      rw [hc₂] at htarget
      exact hcompound _ _ _ hop htarget.1 htarget.2.1 hvalue.1 hvalue.2
    · exact .pure fun htarget => ⟨htarget.1, htarget.2.1⟩

theorem sound_ternary (h : SoundAt n) (s : State) : Clean (Parser.ternary (n + 1)) s fun e s' =>
    e.Reads s.cursor s'.cursor ∧ e.WellFormed ∧ 1 ≤ e.rank := by
  refine (h.chain .or s).bind fun cond s₁ => .peek (.ite (fun hk => ?_) fun _ => .pure ?_)
  · refine .advance (by simp [hk]) fun s₂ hc₂ _ => (h.expression s₂).bind fun yes s₃ => ?_
    refine .expect (by decide) fun colon s₄ hcolon hc₄ => (h.ternary s₄).bind fun no s₅ => ?_
    refine .freshId (.pure ?_)
    intro hno hyes hcond
    rw [hc₂] at hcond
    rw [hc₄] at hyes
    refine ⟨.ternary hcond.1 hyes.1 hcolon hno.1, ?_, Nat.le_refl 1⟩
    exact ⟨hk, ⟨hcond.2.1, hcond.2.2⟩, hyes.2, hno.2⟩
  · exact fun hcond => ⟨hcond.1, hcond.2.1, Nat.le_trans (Nat.le_succ 1) hcond.2.2⟩

/-- The operator that a token is on a level is an operator of that level. -/
theorem level_of_joint {level : Level} {kind : Token.Kind} {joint : Joint}
    (hj : level.joint? kind = some joint) :
    (∃ op : LogicalOp, joint = .logical op ∧ op.level = level) ∨
      ∃ op : BinaryOp, joint = .binary op ∧ op.level = level := by
  unfold Level.joint? at hj
  split at hj <;> cases hj
  case h_1 => exact .inl ⟨.or, rfl, rfl⟩
  case h_2 => exact .inl ⟨.and, rfl, rfl⟩
  all_goals exact .inr ⟨_, rfl, rfl⟩

/-- Joining two operands on a level. -/
theorem reads_build {level : Level} {joint : Joint} {token : Token} {left right : Expr} {c : Cursor}
    {ts us : List Token} {m k : NodeId} (hj : level.joint? token.kind = some joint)
    (hl : left.Reads c (token :: ts, m)) (hwl : left.WellFormed) (hrl : level.rank ≤ left.rank)
    (hr : right.Reads (ts, m) (us, k)) (hwr : right.WellFormed) (hrr : level.rank < right.rank) :
    (joint.build k token left right).Reads c (us, k + 1) ∧
      (joint.build k token left right).WellFormed ∧
        level.rank ≤ (joint.build k token left right).rank := by
  rcases level_of_joint hj with ⟨op, rfl, rfl⟩ | ⟨op, rfl, rfl⟩
  · exact ⟨.logical hl hr, ⟨hj, ⟨hwl, hrl⟩, hwr, hrr⟩, Nat.le_refl _⟩
  · exact ⟨.binary hl hr, ⟨hj, ⟨hwl, hrl⟩, hwr, hrr⟩, Nat.le_refl _⟩

theorem sound_chainRest (h : SoundAt n) (level : Level) (left : Expr) (s : State) :
    Clean (Parser.chainRest (n + 1) level left) s fun e s' =>
      ∀ c, left.Reads c s.cursor → left.WellFormed → level.rank ≤ left.rank →
        e.Reads c s'.cursor ∧ e.WellFormed ∧ level.rank ≤ e.rank := by
  refine .peek ?_
  split
  · exact .pure fun c hl hwl hrl => ⟨hl, hwl, hrl⟩
  · rename_i joint hj
    have hne : s.head.kind ≠ .eof := by
      intro he
      cases level <;> simp [he, Level.joint?] at hj
    refine .advance hne fun s₁ hc₁ _ => (h.operand level s₁).bind fun right s₂ => .freshId ?_
    refine (h.chainRest level _ _).mono fun e s₃ hrest hright c hl hwl hrl => ?_
    rw [hc₁] at hl
    obtain ⟨hb, hwb, hrb⟩ := reads_build hj hl hwl hrl hright.1 hright.2.1 hright.2.2
    exact hrest c hb hwb hrb

theorem sound_operand (h : SoundAt n) (level : Level) (s : State) :
    Clean (Parser.operand (n + 1) level) s fun e s' =>
      e.Reads s.cursor s'.cursor ∧ e.WellFormed ∧ level.rank < e.rank := by
  cases level with
  | factor => exact h.unary s
  | _ => exact h.chain _ s

theorem sound_unary (h : SoundAt n) (s : State) : Clean (Parser.unary (n + 1)) s fun e s' =>
    e.Reads s.cursor s'.cursor ∧ e.WellFormed ∧ 8 ≤ e.rank := by
  refine .peek ?_
  split
  · rename_i op hop
    have hne : s.head.kind ≠ .eof := by
      intro he
      simp [he, unaryOp?] at hop
    refine .advance hne fun s₁ hc₁ _ => (h.unary s₁).bind fun operand s₂ => .freshId (.pure ?_)
    intro hoperand
    rw [hc₁]
    exact ⟨.unary hoperand.1, ⟨hop, hoperand.2⟩, Nat.le_refl 8⟩
  · rename_i op _ hop
    have hne : s.head.kind ≠ .eof := by
      intro he
      simp [he, stepOp?] at hop
    refine .advance hne fun s₁ hc₁ _ => (h.unary s₁).bind fun operand s₂ => ?_
    refine Clean.stepOf.mono fun e s₃ hstep hoperand => ?_
    rw [hc₁]
    exact (hstep hop hoperand.2.1).1 rfl _ _ hoperand.1
  · refine (h.primary s).bind fun inner s₁ => (h.callRest inner s₁).mono ?_
    intro e s₂ hrest hinner
    exact hrest _ hinner.1 hinner.2.1 hinner.2.2

theorem sound_callRest (h : SoundAt n) (inner : Expr) (s : State) :
    Clean (Parser.callRest (n + 1) inner) s fun e s' =>
      ∀ c, inner.Reads c s.cursor → inner.WellFormed → 10 ≤ inner.rank →
        e.Reads c s'.cursor ∧ e.WellFormed ∧ 8 ≤ e.rank := by
  refine .peek ?_
  split
  · rename_i hk
    refine .advance (by simp [hk]) fun s₁ hc₁ _ => (h.arguments _ s₁).bind fun args s₂ => ?_
    refine .expect (by decide) fun paren s₃ hparen hc₃ => .freshId ?_
    refine (h.callRest _ _).mono fun e s₄ hrest hargs c hi hwi hri => ?_
    rw [hc₁] at hi
    rw [hc₃] at hargs
    refine hrest c (.call hi hk hargs.1) ?_ (Nat.le_refl 10)
    exact ⟨hparen, ⟨hwi, hri⟩, hargs.2.1, hargs.2.2 rfl⟩
  · rename_i hk
    refine .advance (by simp [hk]) fun s₁ hc₁ _ => .expect (by decide) fun name s₂ hname hc₂ => ?_
    refine .freshId ((h.callRest _ _).mono fun e s₃ hrest c hi hwi hri => ?_)
    have hts : s₁.rest = name :: s₂.rest ∧ s₁.nextId = s₂.nextId := Prod.mk.inj hc₂
    rw [hc₁, hts.1, hts.2] at hi
    exact hrest c (.get hi hk) ⟨hname, hwi, hri⟩ (Nat.le_refl 10)
  · rename_i hk
    refine .advance (by simp [hk]) fun s₁ hc₁ _ => (h.expression s₁).bind fun index s₂ => ?_
    refine .expect (by decide) fun close s₃ hclose hc₃ => .freshId ?_
    refine (h.callRest _ _).mono fun e s₄ hrest hindex c hi hwi hri => ?_
    rw [hc₁] at hi
    rw [hc₃] at hindex
    exact hrest c (.index hi hindex.1 hclose) ⟨hk, ⟨hwi, hri⟩, hindex.2⟩ (Nat.le_refl 10)
  · split
    · rename_i op hop
      have hne : s.head.kind ≠ .eof := by
        intro he
        simp [he, stepOp?] at hop
      refine .advance hne fun s₁ hc₁ _ => Clean.stepOf.mono fun e s₂ hstep c hi hwi _ => ?_
      rw [hc₁] at hi
      exact (hstep hop hwi).2 rfl c hi
    · exact .pure fun c hi hwi hri => ⟨hi, hwi, Nat.le_trans (by decide) hri⟩

theorem sound_arguments (h : SoundAt n) (closing : Token.Kind) (s : State) :
    Clean (Parser.arguments (n + 1) closing) s fun es s' =>
      Expr.ReadsList es s.cursor s'.cursor ∧ Expr.WellFormedAll es ∧
        (closing = .rightParen → es.length ≤ maxArguments) := by
  refine .peek (.ite (fun _ => .pure ⟨.nil, trivial, fun _ => Nat.zero_le _⟩) fun _ => ?_)
  refine (h.argumentsFrom closing [] 0 s).mono fun es s₁ hes => ?_
  obtain ⟨e, new, c, rfl, he, hnew, hw, hroom⟩ := hes
  refine ⟨.cons he hnew, hw, fun hc => ?_⟩
  have := hroom hc (Nat.zero_le _)
  simpa using this

theorem sound_argumentsFrom (h : SoundAt n) (closing : Token.Kind) (done : List Expr) (taken : Nat)
    (s : State) : Clean (Parser.argumentsFrom (n + 1) closing done taken) s fun es s' =>
      ∃ e new c, es = done.reverse ++ e :: new ∧ e.Reads s.cursor c ∧
        Expr.ReadsMore new c s'.cursor ∧ Expr.WellFormedAll (e :: new) ∧
        (closing = .rightParen → taken ≤ maxArguments →
          taken + (e :: new).length ≤ maxArguments) := by
  refine (Clean.checkArguments closing taken).bind fun _ s₀ => ?_
  refine (h.expression s₀).bind fun e s₁ => .accept (by decide) (fun comma s₂ hcomma hc₂ => ?_) ?_
  · refine (h.argumentsFrom _ _ _ _).mono fun es s₃ hes he hroom => ?_
    obtain ⟨e', new, c, rfl, he', hnew, hw, hrest⟩ := hes
    rw [hroom.1, hc₂] at he
    refine ⟨e, e' :: new, _, by simp, he.1, .cons hcomma he' hnew, ⟨he.2, hw⟩, fun hc ht => ?_⟩
    have hlt : taken < maxArguments := Nat.lt_of_le_of_ne ht (hroom.2 hc)
    have := hrest hc hlt
    simp only [List.length_cons] at this ⊢
    omega
  · refine fun _ => .pure ?_
    intro he hroom
    rw [hroom.1] at he
    refine ⟨e, [], _, by simp, he.1, .nil, ⟨he.2, trivial⟩, fun hc ht => ?_⟩
    exact Nat.lt_of_le_of_ne ht (hroom.2 hc)

theorem sound_parameterNames (h : SoundAt n) (done : List Token) (taken : Nat) (s : State) :
    Clean (Parser.parameterNames done taken (n + 1)) s fun ps s' =>
      ∃ p new ts, ps = done.reverse ++ p :: new ∧ s.rest = p :: ts ∧ MoreParams new ts s'.rest ∧
        s'.nextId = s.nextId ∧ (∀ q ∈ p :: new, q.kind = .identifier) ∧
        (taken ≤ maxArguments → taken + (p :: new).length ≤ maxArguments) := by
  refine (Clean.checkRoom taken _).bind fun _ s₀ => .expect (by decide) fun p s₁ hp hc₁ => ?_
  obtain ⟨hr₁, hn₁⟩ : s₀.rest = p :: s₁.rest ∧ s₀.nextId = s₁.nextId := Prod.mk.inj hc₁
  refine .accept (by decide) (fun comma s₂ hcomma hc₂ => ?_) fun _ => .pure ?_
  · obtain ⟨hr₂, hn₂⟩ : s₁.rest = comma :: s₂.rest ∧ s₁.nextId = s₂.nextId := Prod.mk.inj hc₂
    refine (h.parameterNames _ _ _).mono fun ps s₃ hps hroom => ?_
    obtain ⟨p', new, ts, rfl, hr₃, hnew, hn₃, hk, hrest⟩ := hps
    obtain ⟨rfl, hroom⟩ := hroom
    refine ⟨p, p' :: new, s₁.rest, by simp, hr₁, ?_, ?_, ?_, fun ht => ?_⟩
    · rw [hr₂, hr₃]
      exact .cons hcomma hnew
    · rw [hn₃, hn₁, hn₂]
    · intro q hq
      rcases List.mem_cons.1 hq with rfl | hq
      · exact hp
      · exact hk q hq
    · have := hrest (Nat.lt_of_le_of_ne ht hroom)
      simp only [List.length_cons] at this ⊢
      omega
  · rintro ⟨rfl, hroom⟩
    refine ⟨p, [], s₁.rest, by simp, hr₁, .nil, hn₁.symm, ?_, fun ht => ?_⟩
    · simpa using hp
    · exact Nat.lt_of_le_of_ne ht hroom

theorem sound_parameters (h : SoundAt n) (s : State) : Clean (Parser.parameters n) s fun ps s' =>
    Params ps s.rest s'.rest ∧ s'.nextId = s.nextId ∧ WellFormedParams ps := by
  refine .peek (.ite (fun _ => .pure ⟨.nil, rfl, by simp, Nat.zero_le _⟩) fun _ => ?_)
  refine (h.parameterNames [] 0 s).mono fun ps s₁ hps => ?_
  obtain ⟨p, new, ts, rfl, hr, hnew, hn, hk, hroom⟩ := hps
  refine ⟨?_, hn, hk, ?_⟩
  · rw [hr]
    exact .cons hnew
  · have := hroom (Nat.zero_le _)
    simpa using this

theorem sound_functionTail (h : SoundAt n) (callee : Callee) (s : State) :
    Clean (Parser.functionTail (n + 1) callee) s fun tail s' =>
      ReadsTail tail.1 tail.2 s.cursor s'.cursor ∧ WellFormedParams tail.1 ∧
        Stmt.WellFormedAll tail.2 := by
  refine .expect (by decide) fun opening s₁ hopening hc₁ => ?_
  refine (sound_parameters h s₁).bind fun ps s₂ => .expect (by decide) fun close s₃ hclose hc₃ => ?_
  refine .peek (.ite (fun _ => ?_) fun _ => .failExpected _)
  refine (h.block s₃).bind fun found s₄ => .pure ?_
  rintro ⟨hbrace, ts, last, hr₃, hlast, hbody, hwbody⟩ ⟨hparams, hn₂, hwparams⟩
  obtain ⟨hr₂, hn₃⟩ : s₂.rest = close :: s₃.rest ∧ s₂.nextId = s₃.nextId := Prod.mk.inj hc₃
  rw [hr₂, hr₃] at hparams
  rw [hc₁, ← hn₂, hn₃]
  exact ⟨.mk hopening hparams hclose hbrace hbody hlast, hwparams, hwbody⟩

theorem sound_primary (h : SoundAt n) (s : State) : Clean (Parser.primary (n + 1)) s fun e s' =>
    e.Reads s.cursor s'.cursor ∧ e.WellFormed ∧ 10 ≤ e.rank := by
  have hlit : s.head.kind.isLiteral = true → Clean (do
      let _ ← Parser.advance
      return Expr.literal (← Parser.freshId) s.head) s fun e s' =>
        e.Reads s.cursor s'.cursor ∧ e.WellFormed ∧ 10 ≤ e.rank := by
    intro hl
    have hne : s.head.kind ≠ .eof := by
      intro he
      simp [he, Token.Kind.isLiteral] at hl
    refine .advance hne fun s₁ hc₁ _ => .freshId (.pure ?_)
    rw [hc₁]
    exact ⟨.literal, hl, Nat.le_succ 10⟩
  refine .peek ?_
  split
  case h_6 hk =>
    refine .advance (by simp [hk]) fun s₁ hc₁ _ => .freshId (.pure ?_)
    rw [hc₁]
    exact ⟨.this, hk, Nat.le_succ 10⟩
  case h_7 hk =>
    refine .advance (by simp [hk]) fun s₁ hc₁ _ => .freshId (.pure ?_)
    rw [hc₁]
    exact ⟨.ident, hk, Nat.le_succ 10⟩
  case h_8 hk =>
    refine .advance (by simp [hk]) fun s₁ hc₁ _ => (h.expression s₁).bind fun inner s₂ => ?_
    refine .expect (by decide) fun close s₃ hclose hc₃ => .freshId (.pure ?_)
    intro hinner
    rw [hc₃] at hinner
    rw [hc₁]
    exact ⟨.group hinner.1 hclose, ⟨hk, hinner.2⟩, Nat.le_succ 10⟩
  case h_9 hk =>
    refine .advance (by simp [hk]) fun s₁ hc₁ _ => (h.arguments _ s₁).bind fun elements s₂ => ?_
    refine .expect (by decide) fun close s₃ hclose hc₃ => .freshId (.pure ?_)
    intro helements
    rw [hc₃] at helements
    rw [hc₁]
    exact ⟨.array helements.1 hclose, ⟨hk, helements.2.1⟩, Nat.le_succ 10⟩
  case h_10 hk =>
    refine .advance (by simp [hk]) fun s₁ hc₁ _ => (h.functionTail _ s₁).bind fun tail s₂ => ?_
    refine .freshId (.pure ?_)
    intro htail
    rw [hc₁]
    exact ⟨.lambda htail.1, ⟨hk, htail.2⟩, Nat.le_succ 10⟩
  case h_11 => exact .failExpected _
  all_goals
    rename_i hk
    exact hlit (by rw [hk]; rfl)

theorem sound_function (h : SoundAt n) (callee : Callee) (s : State) :
    Clean (Parser.function (n + 1) callee) s fun d s' =>
      d.Reads s.cursor s'.cursor ∧ d.WellFormed := by
  refine .expect (by decide) fun name s₁ hname hc₁ => ?_
  refine (h.functionTail callee s₁).bind fun tail s₂ => .pure ?_
  intro htail
  rw [hc₁]
  exact ⟨.mk htail.1, hname, htail.2⟩

theorem sound_block (h : SoundAt n) (s : State) :
    Clean (Parser.block (n + 1)) s fun found s' => found.1.kind = .leftBrace ∧
      ∃ ts last, s.rest = found.1 :: ts ∧ last.kind = .rightBrace ∧
        Stmt.ReadsAll found.2 (ts, s.nextId) (last :: s'.rest, s'.nextId) ∧
        Stmt.WellFormedAll found.2 := by
  refine .expect (by decide) fun brace s₁ hbrace hc₁ => (h.blockBody [] s₁).bind fun body s₂ => ?_
  refine .expect (by decide) fun last s₃ hlast hc₃ => .pure ?_
  rintro ⟨new, rfl, hnew, hwnew⟩
  obtain ⟨hr₁, hn₁⟩ : s.rest = brace :: s₁.rest ∧ s.nextId = s₁.nextId := Prod.mk.inj hc₁
  rw [hc₃] at hnew
  refine ⟨hbrace, s₁.rest, last, hr₁, hlast, ?_, hwnew⟩
  rw [hn₁]
  exact hnew

theorem sound_blockBody (h : SoundAt n) (done : List Stmt) (s : State) :
    Clean (Parser.blockBody (n + 1) done) s fun ss s' =>
      ∃ new, ss = done.reverse ++ new ∧ Stmt.ReadsAll new s.cursor s'.cursor ∧
        Stmt.WellFormedAll new := by
  refine .peek (.ite (fun _ => .pure ⟨[], by simp, .nil, trivial⟩) fun _ => ?_)
  refine (h.declaration s).recovering.bind fun found s₁ => ?_
  cases found with
  | none => exact (h.blockBody _ _).mono fun _ _ _ hf => hf.elim
  | some st =>
    refine (h.blockBody _ _).mono fun ss s₂ hss hst => ?_
    obtain ⟨hst, hwst⟩ := hst
    obtain ⟨new, rfl, hnew, hwnew⟩ := hss
    exact ⟨st :: new, by simp, .cons hst hnew, hwst, hwnew⟩

theorem sound_program (h : SoundAt n) (done : List Stmt) (s : State) :
    Clean (Parser.program (n + 1) done) s fun ss s' =>
      ∃ new, ss = done.reverse ++ new ∧ Stmt.ReadsAll new s.cursor s'.cursor ∧
        Stmt.WellFormedAll new ∧ s'.head.kind = .eof := by
  refine .peek (.ite (fun he => .pure ⟨[], by simp, .nil, trivial, he⟩) fun _ => ?_)
  refine (h.declaration s).recovering.bind fun found s₁ => ?_
  cases found with
  | none => exact (h.program _ _).mono fun _ _ _ hf => hf.elim
  | some st =>
    refine (h.program _ _).mono fun ss s₂ hss hst => ?_
    obtain ⟨hst, hwst⟩ := hst
    obtain ⟨new, rfl, hnew, hwnew, he⟩ := hss
    exact ⟨st :: new, by simp, .cons hst hnew, ⟨hwst, hwnew⟩, he⟩

theorem sound_declaration (h : SoundAt n) (s : State) :
    Clean (Parser.declaration (n + 1)) s fun st s' => st.Reads s.cursor s'.cursor ∧ st.WellFormed := by
  have hstatement : Clean (Parser.statement n) s fun st s' =>
      st.Reads s.cursor s'.cursor ∧ st.WellFormed :=
    (h.statement s).mono fun st s' hst => ⟨hst.1, hst.2.1.1⟩
  refine .peek ?_
  split
  · exact h.classDecl s ‹_›
  · rename_i hk
    refine .peekSecond fun second _ => .ite (fun _ => ?_) fun _ => hstatement
    refine .advance (by simp [hk]) fun s₁ hc₁ _ => (h.function _ s₁).bind fun d s₂ => .pure ?_
    intro hd
    rw [hc₁]
    exact ⟨.function hk hd.1, hd.2⟩
  · exact (h.variableDecl s ‹_›).mono fun st s' hst => ⟨hst.1, hst.2.1⟩
  · exact hstatement

theorem sound_classDecl (h : SoundAt n) (s : State) (hk : s.head.kind = .classWord) :
    Clean (Parser.classDecl (n + 1)) s fun st s' => st.Reads s.cursor s'.cursor ∧ st.WellFormed := by
  refine .advance (by simp [hk]) fun s₁ hc₁ _ => .expect (by decide) fun name s₂ hname hc₂ => ?_
  refine .expect (by decide) fun brace s₃ hbrace hc₃ => (h.members [] [] s₃).bind fun found s₄ => ?_
  refine .expect (by decide) fun last s₅ hlast hc₅ => .pure ?_
  rintro ⟨fs, ms, rfl, hmembers, hwfs, hwms⟩
  obtain ⟨hr₁, hn₁⟩ : s₁.rest = name :: s₂.rest ∧ s₁.nextId = s₂.nextId := Prod.mk.inj hc₂
  obtain ⟨hr₂, hn₂⟩ : s₂.rest = brace :: s₃.rest ∧ s₂.nextId = s₃.nextId := Prod.mk.inj hc₃
  rw [hc₅] at hmembers
  rw [hc₁, hr₁, hn₁, hr₂, hn₂]
  exact ⟨.classDecl hk hbrace hmembers hlast, hname, hwfs, hwms⟩

theorem sound_members (h : SoundAt n) (fields : List Field) (methods : List Function) (s : State) :
    Clean (Parser.members (n + 1) fields methods) s fun found s' =>
      ∃ fs ms, found = (fields.reverse ++ fs, methods.reverse ++ ms) ∧
        ReadsMembers fs ms s.cursor s'.cursor ∧ Field.WellFormedAll fs ∧
        Function.WellFormedAll ms := by
  have hnil : ReadsMembers [] [] s.cursor s.cursor := .nil
  refine .peek (.ite (fun _ => .pure ⟨[], [], by simp, hnil, trivial, trivial⟩) fun _ => ?_)
  refine .peekSecond fun second hsecond => .ite (fun hk => ?_) fun _ => ?_
  · simp only [Bool.and_eq_true, decide_eq_true_eq] at hk
    obtain ⟨hname, hassign⟩ := hk
    refine .advance (by simp [hname]) fun s₁ hc₁ _ => ?_
    obtain ⟨hr₁, hn₁⟩ : s.rest = s.head :: s₁.rest ∧ s.nextId = s₁.nextId := Prod.mk.inj hc₁
    have hsign : s₁.head.kind = .assign := by
      rcases hsecond with rfl | ⟨rest, hrest⟩
      · rw [hname] at hassign
        cases hassign
      · rw [hr₁, List.tail_cons] at hrest
        rw [State.head, hrest]
        exact hassign
    refine .advance (by simp [hsign]) fun s₂ hc₂ _ => (h.expression s₂).bind fun value s₃ => ?_
    refine .expect (by decide) fun semi s₄ hsemi hc₄ => ?_
    refine (h.members _ _ _).mono fun found s₅ hfound hvalue => ?_
    obtain ⟨fs, ms, rfl, hmembers, hwfs, hwms⟩ := hfound
    obtain ⟨hr₂, hn₂⟩ : s₁.rest = s₁.head :: s₂.rest ∧ s₁.nextId = s₂.nextId := Prod.mk.inj hc₂
    rw [hc₄] at hvalue
    have hread := ReadsMembers.field (t := s.head) hsign hvalue.1 hsemi hmembers
    rw [hc₁, hr₂, hn₂]
    exact ⟨.mk s.head value :: fs, ms, by simp, hread, ⟨⟨hname, hvalue.2⟩, hwfs⟩, hwms⟩
  · refine (h.function _ s).bind fun d s₁ => (h.members _ _ _).mono fun found s₂ hfound hd => ?_
    obtain ⟨fs, ms, rfl, hmembers, hwfs, hwms⟩ := hfound
    exact ⟨fs, d :: ms, by simp, .method hd.1 hmembers, hwfs, hd.2, hwms⟩

theorem Clean.unlessAt {kind : Token.Kind} {p : Parser Expr} {s : State}
    (hp : Clean p s fun e s' => e.Reads s.cursor s'.cursor ∧ e.WellFormed) :
    Clean (unlessAt kind p) s fun v s' =>
      Expr.ReadsOpt v s.cursor s'.cursor ∧ Expr.WellFormedOpt v := by
  refine .peek (.ite (fun _ => .pure ⟨.none, trivial⟩) fun _ => hp.bind fun e s₁ => .pure ?_)
  exact fun he => ⟨.some he.1, he.2⟩

theorem sound_variableDecl (h : SoundAt n) (s : State) (hk : s.head.kind = .letWord) :
    Clean (Parser.variableDecl (n + 1)) s fun st s' =>
      st.Reads s.cursor s'.cursor ∧ st.WellFormed ∧ st.isClause = true := by
  refine .advance (by simp [hk]) fun s₁ hc₁ _ => .expect (by decide) fun name s₂ hname hc₂ => ?_
  have hvalue : Clean (ifAfter .assign (Parser.expression n)) s₂ fun v s' =>
      Expr.ReadsValue v s₂.cursor s'.cursor ∧ Expr.WellFormedOpt v := by
    refine .accept (by decide) (fun sign s₃ hsign hc₃ => ?_) fun _ => .pure ⟨.none, trivial⟩
    refine (h.expression s₃).bind fun e s₄ => .pure ?_
    intro he
    rw [hc₃]
    exact ⟨.some hsign he.1, he.2⟩
  refine hvalue.bind fun value s₃ => .expect (by decide) fun semi s₄ hsemi hc₄ => .pure ?_
  intro hv
  obtain ⟨hr₁, hn₁⟩ : s₁.rest = name :: s₂.rest ∧ s₁.nextId = s₂.nextId := Prod.mk.inj hc₂
  rw [hc₄] at hv
  rw [hc₁, hr₁, hn₁]
  exact ⟨.declare hk hv.1 hsemi, ⟨hname, hv.2⟩, rfl⟩

theorem sound_expressionStmt (h : SoundAt n) (s : State) :
    Clean (Parser.expressionStmt (n + 1)) s fun st s' => st.Reads s.cursor s'.cursor ∧
      ∃ pos e, st = .expression pos e ∧ e.WellFormed := by
  refine .peek ((h.expression s).bind fun e s₁ => .expect (by decide) fun semi s₂ hsemi hc₂ => ?_)
  refine .pure ?_
  intro he
  rw [hc₂] at he
  refine ⟨?_, s.head.pos, e, rfl, he.2⟩
  obtain ⟨first, rest, hr, -⟩ := he.1.starts he.2
  have hhead : s.head = first := by rw [State.head, show s.rest = _ from hr]; rfl
  have hcursor : s.cursor = (first :: rest, s.nextId) := by rw [State.cursor, show s.rest = _ from hr]
  rw [hcursor] at he ⊢
  rw [hhead]
  exact .expression he.1 hsemi

theorem sound_branch (h : SoundAt n) (s : State) (hk : s.head.kind = .ifWord) :
    Clean (Parser.branch (n + 1)) s fun st s' => st.Reads s.cursor s'.cursor ∧
      (st.WellFormed ∧ st.isDeclaration = false) ∧
        (st.opensIf = true → s'.head.kind ≠ .elseWord) := by
  refine .advance (by simp [hk]) fun s₁ hc₁ _ => .expect (by decide) fun opening s₂ hopening hc₂ => ?_
  refine (h.expression s₂).bind fun cond s₃ => .expect (by decide) fun close s₄ hclose hc₄ => ?_
  refine (h.statement s₄).bind fun yes s₅ => ?_
  have hno : Clean (ifAfter .elseWord (Parser.statement n)) s₅ fun no s' =>
      Stmt.ReadsElse no s₅.cursor s'.cursor ∧
        (no = none → s' = s₅ ∧ s₅.head.kind ≠ .elseWord) ∧
        ∀ st, no = some st → s₅.head.kind = .elseWord ∧ (st.WellFormed ∧ st.isDeclaration = false) ∧
          (st.opensIf = true → s'.head.kind ≠ .elseWord) := by
    refine .accept (by decide) (fun word s₆ hword hc₆ => ?_) fun hne => .pure ?_
    · refine (h.statement s₆).bind fun st s₇ => .pure ?_
      intro hst
      obtain ⟨hr₅, -⟩ : s₅.rest = word :: s₆.rest ∧ s₅.nextId = s₆.nextId := Prod.mk.inj hc₆
      rw [hc₆]
      refine ⟨.some hword hst.1, by simp, ?_⟩
      rintro _ ⟨rfl⟩
      refine ⟨?_, hst.2⟩
      rw [State.head, hr₅]
      exact hword
    · exact ⟨.none, fun _ => ⟨rfl, hne⟩, by simp⟩
  refine hno.bind fun no s₆ => .pure ?_
  intro hno hyes hcond
  obtain ⟨hr₁, hn₁⟩ : s₁.rest = opening :: s₂.rest ∧ s₁.nextId = s₂.nextId := Prod.mk.inj hc₂
  rw [hc₄] at hcond
  rw [hc₁, hr₁, hn₁]
  refine ⟨.branch hk hopening hcond.1 hclose hyes.1 hno.1, ⟨⟨hcond.2, hyes.2.1, ?_⟩, rfl⟩, ?_⟩
  · cases no with
    | none => trivial
    | some st =>
      -- The `else` that follows shows that `yes` could not have taken it.
      obtain ⟨helse, hwst, _⟩ := hno.2.2 st rfl
      exact ⟨Bool.eq_false_iff.2 fun ho => hyes.2.2 ho helse, hwst⟩
  · cases no with
    | none =>
      obtain ⟨rfl, hne⟩ := hno.2.1 rfl
      exact fun _ => hne
    | some st => exact (hno.2.2 st rfl).2.2

theorem sound_forLoop (h : SoundAt n) (s : State) (hk : s.head.kind = .forWord) :
    Clean (Parser.forLoop (n + 1)) s fun st s' => st.Reads s.cursor s'.cursor ∧
      (st.WellFormed ∧ st.isDeclaration = false) ∧
        (st.opensIf = true → s'.head.kind ≠ .elseWord) := by
  refine .advance (by simp [hk]) fun s₁ hc₁ _ => .expect (by decide) fun opening s₂ hopening hc₂ => ?_
  have hstart : Clean (startClause (Parser.variableDecl n) (Parser.expressionStmt n)) s₂ fun v s' =>
      Stmt.ReadsClause v s₂.cursor s'.cursor ∧ Stmt.WellFormedClause v := by
    refine .accept (by decide) (fun semi s₃ hsemi hc₃ => .pure ?_) fun _ => .peek (.ite ?_ ?_)
    · rw [hc₃]
      exact ⟨.none hsemi, trivial⟩
    · refine fun hlet => (h.variableDecl s₂ hlet).bind fun st s₃ => .pure ?_
      exact fun hst => ⟨.some hst.1, hst.2.2, hst.2.1⟩
    · refine fun _ => (h.expressionStmt s₂).bind fun st s₃ => .pure ?_
      rintro ⟨hst, pos, e, rfl, hwe⟩
      exact ⟨.some hst, rfl, hwe⟩
  refine hstart.bind fun start s₃ => (h.expression s₃).unlessAt.bind fun cond s₄ => ?_
  refine .expect (by decide) fun semi s₅ hsemi hc₅ => ?_
  refine (h.expression s₅).unlessAt.bind fun step s₆ => ?_
  refine .expect (by decide) fun close s₇ hclose hc₇ => (h.statement s₇).bind fun body s₈ => .pure ?_
  intro hbody hstep hcond hstart
  obtain ⟨hr₁, hn₁⟩ : s₁.rest = opening :: s₂.rest ∧ s₁.nextId = s₂.nextId := Prod.mk.inj hc₂
  rw [hc₅] at hcond
  rw [hc₇] at hstep
  rw [hc₁, hr₁, hn₁]
  refine ⟨.forLoop hk hopening hstart.1 hcond.1 hsemi hstep.1 hclose hbody.1, ⟨?_, rfl⟩, hbody.2.2⟩
  exact ⟨hstart.2, hcond.2, hstep.2, hbody.2.1⟩

theorem sound_keywordStmt {s : State} (make : Token → Stmt) (what : Bytes)
    (hne : s.head.kind ≠ .eof) (Q : Stmt → State → Prop)
    (hQ : ∀ semi s', semi.kind = .semicolon → s.cursor = (s.head :: semi :: s'.rest, s'.nextId) →
      Q (make s.head) s') : Clean (keywordStmt make what) s Q := by
  refine .advance hne fun s₁ hc₁ _ => .expect (by decide) fun semi s₂ hsemi hc₂ => .pure ?_
  obtain ⟨hr₁, hn₁⟩ : s₁.rest = semi :: s₂.rest ∧ s₁.nextId = s₂.nextId := Prod.mk.inj hc₂
  refine hQ semi s₂ hsemi ?_
  rw [hc₁, hr₁, hn₁]

theorem sound_statement (h : SoundAt n) (s : State) :
    Clean (Parser.statement (n + 1)) s fun st s' => st.Reads s.cursor s'.cursor ∧
      (st.WellFormed ∧ st.isDeclaration = false) ∧
        (st.opensIf = true → s'.head.kind ≠ .elseWord) := by
  refine .peek ?_
  split
  · rename_i hk
    refine .advance (by simp [hk]) fun s₁ hc₁ _ => (h.expression s₁).bind fun e s₂ => ?_
    refine .expect (by decide) fun semi s₃ hsemi hc₃ => .pure ?_
    intro he
    rw [hc₃] at he
    rw [hc₁]
    exact ⟨.print hk he.1 hsemi, ⟨he.2, rfl⟩, nofun⟩
  · refine (h.block s).bind fun found s₁ => .pure ?_
    rintro ⟨hbrace, ts, last, hr, hlast, hbody, hwbody⟩
    rw [State.cursor, hr]
    exact ⟨.block hbrace hbody hlast, ⟨hwbody, rfl⟩, nofun⟩
  · exact h.branch s ‹_›
  · rename_i hk
    refine .advance (by simp [hk]) fun s₁ hc₁ _ => ?_
    refine .expect (by decide) fun opening s₂ hopening hc₂ => (h.expression s₂).bind fun cond s₃ => ?_
    refine .expect (by decide) fun close s₄ hclose hc₄ => (h.statement s₄).bind fun body s₅ => ?_
    refine .pure ?_
    intro hbody hcond
    obtain ⟨hr₁, hn₁⟩ : s₁.rest = opening :: s₂.rest ∧ s₁.nextId = s₂.nextId := Prod.mk.inj hc₂
    rw [hc₄] at hcond
    rw [hc₁, hr₁, hn₁]
    exact ⟨.loop hk hopening hcond.1 hclose hbody.1, ⟨⟨hcond.2, hbody.2.1⟩, rfl⟩, hbody.2.2⟩
  · exact h.forLoop s ‹_›
  · rename_i hk
    refine .advance (by simp [hk]) fun s₁ hc₁ _ => (h.expression s₁).unlessAt.bind fun value s₂ => ?_
    refine .expect (by decide) fun semi s₃ hsemi hc₃ => .pure ?_
    intro hvalue
    rw [hc₃] at hvalue
    rw [hc₁]
    exact ⟨.result hvalue.1 hsemi, ⟨⟨hk, hvalue.2⟩, rfl⟩, nofun⟩
  · rename_i hk
    refine sound_keywordStmt _ _ (by simp [hk]) _ fun semi s₁ hsemi hc₁ => ?_
    rw [hc₁]
    exact ⟨.leave hsemi, ⟨hk, rfl⟩, nofun⟩
  · rename_i hk
    refine sound_keywordStmt _ _ (by simp [hk]) _ fun semi s₁ hsemi hc₁ => ?_
    rw [hc₁]
    exact ⟨.skip hsemi, ⟨hk, rfl⟩, nofun⟩
  · refine (h.expressionStmt s).mono fun st s₁ hst => ?_
    obtain ⟨hst, pos, e, rfl, hwe⟩ := hst
    exact ⟨hst, ⟨hwe, rfl⟩, nofun⟩

theorem soundAt_succ (h : SoundAt n) : SoundAt (n + 1) where
  expression := sound_expression h
  ternary := sound_ternary h
  chain level s := by
    refine (h.operand level s).bind fun left s₁ => (h.chainRest level left s₁).mono ?_
    intro e s₂ hrest hleft
    exact hrest _ hleft.1 hleft.2.1 (Nat.le_of_lt hleft.2.2)
  chainRest := sound_chainRest h
  operand := sound_operand h
  unary := sound_unary h
  callRest := sound_callRest h
  arguments := sound_arguments h
  argumentsFrom := sound_argumentsFrom h
  primary := sound_primary h
  parameterNames := sound_parameterNames h
  functionTail := sound_functionTail h
  function := sound_function h
  block := sound_block h
  blockBody := sound_blockBody h
  declaration := sound_declaration h
  classDecl := sound_classDecl h
  members := sound_members h
  variableDecl := sound_variableDecl h
  statement := sound_statement h
  branch := sound_branch h
  forLoop := sound_forLoop h
  expressionStmt := sound_expressionStmt h
  program := sound_program h

theorem soundAt (n : Nat) : SoundAt n := by
  induction n with
  | zero => exact soundAt_zero
  | succ n ih => exact soundAt_succ ih

/-- Statements read to the end of input without a fault are well formed, and the tokens and identities
they took are their own. -/
theorem reads_of_program {fuel : Nat} {s s' : State} {stmts : List Stmt}
    (hrun : program fuel [] s = .ok stmts s') (hfaults : s'.faults.length = s.faults.length) :
    Stmt.ReadsAll stmts s.cursor s'.cursor ∧ Stmt.WellFormedAll stmts ∧ s'.head.kind = .eof := by
  have hclean := (soundAt fuel).program [] s
  unfold Clean at hclean
  rw [hrun] at hclean
  obtain ⟨new, rfl, hnew, hw, he⟩ := hclean.2 hfaults
  exact ⟨hnew, hw, he⟩

end Treewalk.Parser
