import Treewalk.Proofs.Parser.Sound

/-!
# What is grammatical is read

A well-formed tree is what the parser makes of its tokens (`program_of_reads`), whatever follows them,
as long as what follows does not carry the tree on.

A tree is read by the parser of its own precedence and, through it, by those of every looser one;
`Complete` says this of an expression for all parsers at once. Two parsers build their result from the
left, `chainRest` and `callRest`. For them the statement is about what is yet to come: reading a tree and
going on behind it is the same as going on with the tree already in hand.

Fuel plays no part: `Yields p c a c'` asks for the answer with every amount from some amount on.
-/

namespace Treewalk.Parser

open Parse

variable {α β : Type}

/-! ## Answers with enough fuel -/

/-- With enough fuel, `p` gives `a` and goes from `c` to `c'`, whatever faults there were before. -/
def Yields (p : Nat → Parser α) (c : Cursor) (a : α) (c' : Cursor) : Prop :=
  ∃ N, ∀ n, N ≤ n → ∀ fs, p n ⟨c.1, c.2, fs⟩ = .ok a ⟨c'.1, c'.2, fs⟩

namespace Yields

variable {p : Nat → Parser α} {f : Nat → α → Parser β} {c c' c'' : Cursor} {a : α} {b : β}

theorem of_succ (h : Yields (fun n => p (n + 1)) c a c') : Yields p c a c' := by
  obtain ⟨N, hN⟩ := h
  refine ⟨N + 1, fun n hn fs => ?_⟩
  obtain ⟨k, rfl⟩ : ∃ k, n = k + 1 := ⟨n - 1, by omega⟩
  exact hN k (by omega) fs

theorem bind (hp : Yields p c a c') (hf : Yields (fun n => f n a) c' b c'') :
    Yields (fun n => p n >>= f n) c b c'' := by
  obtain ⟨N, hN⟩ := hp
  obtain ⟨M, hM⟩ := hf
  refine ⟨max N M, fun n hn fs => ?_⟩
  show EStateM.bind (p n) (f n) _ = _
  unfold EStateM.bind
  rw [hN n (by omega) fs]
  exact hM n (by omega) fs

theorem pure : Yields (fun _ => Pure.pure a) c a c := ⟨0, fun _ _ _ => rfl⟩

theorem ite_pos {q r : Nat → Parser α} {d : Prop} [Decidable d] (hd : d) (h : Yields q c a c') :
    Yields (fun n => if d then q n else r n) c a c' := by
  simpa only [if_pos hd] using h

theorem ite_neg {q r : Nat → Parser α} {d : Prop} [Decidable d] (hd : ¬d) (h : Yields r c a c') :
    Yields (fun n => if d then q n else r n) c a c' := by
  simpa only [if_neg hd] using h

/-! ## The steps that parsers are built from -/

section

variable {t : Token} {ts : List Token} {n : NodeId} {kind : Token.Kind}

theorem peek : Yields (fun _ => Parser.peek) c (Token.first c.1) c := ⟨0, fun _ _ _ => rfl⟩

theorem advance (ht : t.kind ≠ .eof) : Yields (fun _ => Parser.advance) (t :: ts, n) t (ts, n) :=
  ⟨0, fun _ _ fs => by simp [Parser.advance, ht]⟩

theorem expect (what : Bytes) (ht : t.kind = kind) (hk : kind ≠ .eof) :
    Yields (fun _ => Parser.expect kind what) (t :: ts, n) t (ts, n) :=
  .bind .peek (.ite_pos ht (.advance (by rw [ht]; exact hk)))

theorem accept (ht : t.kind = kind) (hk : kind ≠ .eof) :
    Yields (fun _ => Parser.accept kind) (t :: ts, n) true (ts, n) :=
  .bind .peek (.ite_pos ht (.bind (.advance (by rw [ht]; exact hk)) .pure))

theorem accept_not (h : (Token.first c.1).kind ≠ kind) :
    Yields (fun _ => Parser.accept kind) c false c := .bind .peek (.ite_neg h .pure)

theorem freshId : Yields (fun _ => Parser.freshId) (ts, n) n (ts, n + 1) := ⟨0, fun _ _ _ => rfl⟩

theorem checkRoom {taken : Nat} {what : Bytes} (h : taken < maxArguments) :
    Yields (fun _ => Parser.checkRoom taken what) c () c := by
  unfold Parser.checkRoom
  exact .ite_neg (Nat.ne_of_lt h) .pure

theorem checkArguments {closing : Token.Kind} {taken : Nat}
    (h : closing = .rightParen → taken < maxArguments) :
    Yields (fun _ => Parser.checkArguments closing taken) c () c := by
  unfold Parser.checkArguments
  by_cases hc : closing = .rightParen
  · exact .ite_pos hc (.checkRoom (h hc))
  · exact .ite_neg hc .pure

theorem recovering {p : Nat → Parser Stmt} {stmt : Stmt} (h : Yields p c stmt c') :
    Yields (fun n => Parser.recovering (p n)) c (some stmt) c' := by
  obtain ⟨N, hN⟩ := h
  refine ⟨N, fun n hn fs => ?_⟩
  show Parser.recovering (p n) _ = _
  unfold Parser.recovering
  rw [hN n hn fs]

end

end Yields

/-! ## What carries an expression on -/

/-- One more than the tightest rank whose parser goes on at a token of the kind, zero if none does. -/
def grip : Token.Kind → Nat
  | .assign | .plusAssign | .minusAssign | .starAssign | .slashAssign => 1
  | .question => 2
  | .orWord => 3
  | .andWord => 4
  | .equalEqual | .bangEqual => 5
  | .less | .lessEqual | .greater | .greaterEqual => 6
  | .plus | .minus => 7
  | .star | .slash => 8
  | .leftParen | .dot | .leftBracket | .plusPlus | .minusMinus => 11
  | _ => 0

/-- Behind `c` the parser of rank `k` finds nothing to go on with. -/
def Stops (k : Nat) (c : Cursor) : Prop := grip (Token.first c.1).kind ≤ k

theorem Stops.mono {k l : Nat} {c : Cursor} (h : Stops k c) (hl : k ≤ l) : Stops l c :=
  Nat.le_trans h hl

theorem stops_cons {k : Nat} {t : Token} {ts : List Token} {n : NodeId} {kind : Token.Kind}
    (ht : t.kind = kind) (hk : grip kind ≤ k := by decide) : Stops k (t :: ts, n) := by
  show grip t.kind ≤ k
  rw [ht]
  exact hk

theorem grip_of_joint {level : Level} {kind : Token.Kind} {joint : Joint}
    (h : level.joint? kind = some joint) : grip kind = level.rank + 1 := by
  unfold Level.joint? at h
  split at h <;> first | rfl | cases h

theorem grip_of_compoundOp {kind : Token.Kind} {op : ArithOp} (h : compoundOp? kind = some op) :
    grip kind = 1 := by
  unfold compoundOp? at h
  split at h <;> first | rfl | cases h

theorem joint_eq_none {level : Level} {c : Cursor} (h : Stops level.rank c) :
    level.joint? (Token.first c.1).kind = none := by
  cases hj : level.joint? (Token.first c.1).kind with
  | none => rfl
  | some joint =>
    have := grip_of_joint hj
    unfold Stops at h
    omega

theorem compoundOp_eq_none {c : Cursor} (h : Stops 0 c) :
    compoundOp? (Token.first c.1).kind = none := by
  cases hj : compoundOp? (Token.first c.1).kind with
  | none => rfl
  | some op =>
    have := grip_of_compoundOp hj
    unfold Stops at h
    omega

/-- A kind with a grip is none that stops a looser parser. -/
theorem Stops.ne {k : Nat} {c : Cursor} {kind : Token.Kind} (h : Stops k c) (hk : k < grip kind) :
    (Token.first c.1).kind ≠ kind := by
  intro he
  unfold Stops at h
  rw [he] at h
  omega

/-- Nothing that a call chain goes on with is next. -/
theorem callRest_of_stops {inner : Expr} {c : Cursor} (h : Stops 10 c) :
    Yields (fun n => callRest n inner) c inner c := by
  refine .of_succ (.bind .peek ?_)
  generalize hk : (Token.first c.1).kind = kind
  unfold Stops at h
  rw [hk] at h
  cases kind
  case leftParen | dot | leftBracket | plusPlus | minusMinus => exact absurd h (by decide)
  all_goals exact .pure

theorem chainRest_of_stops {level : Level} {left : Expr} {c : Cursor} (h : Stops level.rank c) :
    Yields (fun n => chainRest n level left) c left c := by
  refine .of_succ (.bind .peek ?_)
  simp only [joint_eq_none h]
  exact .pure

/-! ## Expressions -/

/-- Every parser reads the expression from its tokens if the rank of the expression allows it. -/
structure Complete (e : Expr) : Prop where
  call : 10 ≤ e.rank → ∀ {c c' c'' b}, e.Reads c c' →
    Yields (fun n => callRest n e) c' b c'' → Yields unary c b c''
  unary : 8 ≤ e.rank → ∀ {c c'}, e.Reads c c' → Stops 8 c' → Yields unary c e c'
  chain : ∀ {level : Level}, level.rank ≤ e.rank → ∀ {c c' c'' b}, e.Reads c c' →
    Stops (level.rank + 1) c' → Yields (fun n => chainRest n level e) c' b c'' →
      Yields (fun n => chain n level) c b c''
  ternary : 1 ≤ e.rank → ∀ {c c'}, e.Reads c c' → Stops 1 c' → Yields ternary c e c'
  expression : ∀ {c c'}, e.Reads c c' → Stops 0 c' → Yields expression c e c'

theorem Level.two_le_rank (level : Level) : 2 ≤ level.rank := by cases level <;> decide

theorem Level.rank_le (level : Level) : level.rank ≤ 7 := by cases level <;> decide

theorem Level.rank_injective {l l' : Level} (h : l.rank = l'.rank) : l = l' := by
  cases l <;> cases l' <;> first | rfl | cases h

theorem Level.rank_of_tighter {l t : Level} (h : l.tighter = some t) : t.rank = l.rank + 1 := by
  cases l <;> cases h <;> rfl

theorem Level.tighter_of_lt {l l' : Level} (h : l.rank < l'.rank) : ∃ t, l.tighter = some t := by
  cases l
  case factor => exact absurd h (Nat.not_lt.2 l'.rank_le)
  all_goals exact ⟨_, rfl⟩

section

variable {e : Expr} {level : Level} {c c' c'' : Cursor} {b : Expr}

/-- An operand starts a chain. -/
theorem chain_of_operand (h : Yields (fun n => operand n level) c e c')
    (hrest : Yields (fun n => chainRest n level e) c' b c'') : Yields (fun n => chain n level) c b c'' :=
  .of_succ (.bind h hrest)

/-- A chain is an operand on the next looser level. -/
theorem operand_of_chain {tighter : Level} (ht : level.tighter = some tighter)
    (h : Yields (fun n => chain n tighter) c e c') : Yields (fun n => operand n level) c e c' := by
  refine .of_succ ?_
  cases level <;> cases ht <;> exact h

/-- From the parser of one level to those of all looser ones. -/
theorem chain_of_le (base : Level) (hbase : ∀ {c c' c'' b}, e.Reads c c' → Stops (base.rank + 1) c' →
      Yields (fun n => chainRest n base e) c' b c'' → Yields (fun n => chain n base) c b c'')
    (hle : level.rank ≤ base.rank) (he : e.Reads c c') (hs : Stops (level.rank + 1) c')
    (hrest : Yields (fun n => chainRest n level e) c' b c'') :
    Yields (fun n => chain n level) c b c'' := by
  obtain ⟨k, hk⟩ : ∃ k, base.rank = level.rank + k := ⟨base.rank - level.rank, by omega⟩
  induction k generalizing level b c'' with
  | zero =>
    have := Level.rank_injective hk
    subst this
    exact hbase he hs hrest
  | succ k ih =>
    have hlt : level.rank < base.rank := by omega
    obtain ⟨t, ht⟩ := Level.tighter_of_lt hlt
    have htr := Level.rank_of_tighter ht
    have hchain : Yields (fun n => Parser.chain n t) c e c' := by
      refine ih (by omega) (hs.mono (by omega)) (chainRest_of_stops ?_) (by omega)
      rw [htr]
      exact hs
    exact chain_of_operand (operand_of_chain ht hchain) hrest

/-- A chain that is not carried on is a conditional. -/
theorem ternary_of_chain (h : Yields (fun n => chain n .or) c e c') (hs : Stops 1 c') :
    Yields ternary c e c' := by
  refine .of_succ (.bind h (.bind .peek (.ite_neg ?_ .pure)))
  exact hs.ne (by decide)

/-- A conditional that is not carried on is an expression. -/
theorem expression_of_ternary (h : Yields ternary c e c') (hs : Stops 0 c') :
    Yields expression c e c' := by
  refine .of_succ (.bind h (.bind .peek (.ite_neg (hs.ne (by decide)) ?_)))
  simp only [compoundOp_eq_none hs]
  exact .pure

end

namespace Complete

variable {e : Expr}

/-- An assignment is read as an expression only. -/
theorem of_expression (hr : e.rank = 0)
    (h : ∀ {c c'}, e.Reads c c' → Stops 0 c' → Yields Parser.expression c e c') : Complete e where
  call hc := by omega
  unary hc := by omega
  chain {level} hc := by have := level.two_le_rank; omega
  ternary hc := by omega
  expression := h

theorem of_ternary (hr : e.rank = 1)
    (h : ∀ {c c'}, e.Reads c c' → Stops 1 c' → Yields Parser.ternary c e c') : Complete e where
  call hc := by omega
  unary hc := by omega
  chain {level} hc := by have := level.two_le_rank; omega
  ternary _ _ _ := h
  expression he hs := expression_of_ternary (h he (hs.mono (by omega))) hs

/-- An expression built on a level is read there and on all looser ones. -/
theorem of_chain (base : Level) (hr : e.rank = base.rank)
    (h : ∀ {c c' c'' b}, e.Reads c c' → Stops (base.rank + 1) c' →
      Yields (fun n => chainRest n base e) c' b c'' → Yields (fun n => Parser.chain n base) c b c'') :
    Complete e := by
  have hor {c c'} (he : e.Reads c c') (hs : Stops 2 c') : Yields (fun n => Parser.chain n .or) c e c' :=
    chain_of_le base h base.two_le_rank he (hs.mono (by decide)) (chainRest_of_stops hs)
  have htern {c c'} (he : e.Reads c c') (hs : Stops 1 c') : Yields Parser.ternary c e c' :=
    ternary_of_chain (hor he (hs.mono (by omega))) hs
  have hle := base.rank_le
  exact {
    call := fun hc => by omega
    unary := fun hc => by omega
    chain := fun hc => chain_of_le base h (by omega)
    ternary := fun _ _ _ => htern
    expression := fun he hs => expression_of_ternary (htern he (hs.mono (by omega))) hs }

/-- An expression with operators in front is read on every level. -/
theorem of_unary
    (hcall : 10 ≤ e.rank → ∀ {c c' c'' b}, e.Reads c c' →
      Yields (fun n => callRest n e) c' b c'' → Yields Parser.unary c b c'')
    (h : ∀ {c c'}, e.Reads c c' → Stops 8 c' → Yields Parser.unary c e c') : Complete e := by
  have hfactor {c c' c'' b} (he : e.Reads c c') (hs : Stops (Level.rank .factor + 1) c')
      (hrest : Yields (fun n => chainRest n .factor e) c' b c'') :
      Yields (fun n => Parser.chain n .factor) c b c'' :=
    chain_of_operand (.of_succ (h he hs)) hrest
  have hor {c c'} (he : e.Reads c c') (hs : Stops 2 c') : Yields (fun n => Parser.chain n .or) c e c' :=
    chain_of_le .factor hfactor (Level.two_le_rank _) he (hs.mono (by decide)) (chainRest_of_stops hs)
  have htern {c c'} (he : e.Reads c c') (hs : Stops 1 c') : Yields Parser.ternary c e c' :=
    ternary_of_chain (hor he (hs.mono (by omega))) hs
  exact {
    call := hcall
    unary := fun _ _ _ => h
    chain := fun {level} _ => chain_of_le .factor hfactor level.rank_le
    ternary := fun _ _ _ => htern
    expression := fun he hs => expression_of_ternary (htern he (hs.mono (by omega))) hs }

/-- A call chain is read on every level. -/
theorem of_call
    (h : ∀ {c c' c'' b}, e.Reads c c' → Yields (fun n => callRest n e) c' b c'' →
      Yields Parser.unary c b c'') : Complete e :=
  of_unary (fun _ => h) fun he hs => h he (callRest_of_stops (hs.mono (by omega)))

end Complete

/-! ## One form after the other -/

section

variable {id : NodeId}

theorem operand_of_complete {e : Expr} (he : Complete e) {level : Level} (hr : level.rank < e.rank)
    {c c' : Cursor} (h : e.Reads c c') (hs : Stops (level.rank + 1) c') :
    Yields (fun n => operand n level) c e c' := by
  cases ht : level.tighter with
  | none =>
    cases level <;> cases ht
    exact .of_succ (he.unary hr h hs)
  | some t =>
    have htr := Level.rank_of_tighter ht
    refine operand_of_chain ht (he.chain (by omega) h (hs.mono (by omega)) (chainRest_of_stops ?_))
    rw [htr]
    exact hs

/-- Behind its left operand a two-sided operator goes on with the whole in hand. -/
theorem chainRest_joint {level : Level} {joint : Joint} {t : Token} {left right b : Expr}
    (hj : level.joint? t.kind = some joint) (hright : Complete right)
    (hrr : level.rank < right.rank) {ts us : List Token} {m k : NodeId} {c : Cursor}
    (hr : right.Reads (ts, m) (us, k)) (hs : Stops (level.rank + 1) (us, k + 1))
    (hrest : Yields (fun n => chainRest n level (joint.build k t left right)) (us, k + 1) b c) :
    Yields (fun n => chainRest n level left) (t :: ts, m) b c := by
  have hne : t.kind ≠ .eof := by
    intro he
    cases level <;> simp [he, Level.joint?] at hj
  refine .of_succ (.bind .peek ?_)
  simp only [Token.first_cons, hj]
  exact .bind (.advance hne) (.bind (operand_of_complete hright hrr hr hs) (.bind .freshId hrest))

theorem stops_of_joint {level : Level} {joint : Joint} {t : Token}
    (hj : level.joint? t.kind = some joint) {ts : List Token} {m : NodeId} :
    Stops (level.rank + 1) (t :: ts, m) := Nat.le_of_eq (grip_of_joint hj)

theorem complete_binary {op : BinaryOp} {t : Token} {l r : Expr} (hl : Complete l) (hr : Complete r)
    (hw : (Expr.binary id op t l r).WellFormed) : Complete (.binary id op t l r) := by
  obtain ⟨hj, ⟨-, hrl⟩, -, hrr⟩ := hw
  refine .of_chain op.level rfl fun he hs hrest => ?_
  cases he with
  | binary h₁ h₂ =>
    exact hl.chain hrl h₁ (stops_of_joint hj) (chainRest_joint hj hr hrr h₂ hs hrest)

theorem complete_logical {op : LogicalOp} {t : Token} {l r : Expr} (hl : Complete l) (hr : Complete r)
    (hw : (Expr.logical id op t l r).WellFormed) : Complete (.logical id op t l r) := by
  obtain ⟨hj, ⟨-, hrl⟩, -, hrr⟩ := hw
  refine .of_chain op.level rfl fun he hs hrest => ?_
  cases he with
  | logical h₁ h₂ =>
    exact hl.chain hrl h₁ (stops_of_joint hj) (chainRest_joint hj hr hrr h₂ hs hrest)

theorem complete_ternary {t : Token} {cond yes no : Expr} (hc : Complete cond) (hy : Complete yes)
    (hn : Complete no) (hw : (Expr.ternary id t cond yes no).WellFormed) :
    Complete (.ternary id t cond yes no) := by
  obtain ⟨ht, ⟨-, hrc⟩, -, -, hrn⟩ := hw
  refine .of_ternary rfl fun he hs => ?_
  cases he with
  | ternary h₁ h₂ hcolon h₃ =>
    have hcond : Yields (fun n => chain n .or) _ cond _ :=
      hc.chain (by exact hrc) h₁ (stops_cons ht) (chainRest_of_stops (stops_cons ht))
    refine .of_succ (.bind hcond (.bind .peek (.ite_pos ht ?_)))
    refine .bind (.advance (by rw [ht]; decide)) (.bind (hy.expression h₂ (stops_cons hcolon)) ?_)
    exact .bind (.expect _ hcolon (by decide)) (.bind (hn.ternary hrn h₃ hs) (.bind .freshId .pure))

theorem complete_unary {op : UnaryOp} {t : Token} {e : Expr} (he : Complete e)
    (hw : (Expr.unary id op t e).WellFormed) : Complete (.unary id op t e) := by
  obtain ⟨hop, -, hr⟩ := hw
  refine .of_unary (fun h => absurd h (by simp [Expr.rank])) fun h hs => ?_
  cases h with
  | unary h =>
    have hne : t.kind ≠ .eof := by
      intro he
      simp [he, unaryOp?] at hop
    refine .of_succ (.bind .peek ?_)
    simp only [Token.first_cons, hop]
    exact .bind (.advance hne) (.bind (he.unary hr h hs) (.bind .freshId .pure))

/-! ### Call chains -/

/-- What `primary` reads starts a call chain. -/
theorem complete_primary {e : Expr}
    (hhead : ∀ {c c'}, e.Reads c c' → unaryOp? (Token.first c.1).kind = none ∧
      stepOp? (Token.first c.1).kind = none)
    (h : ∀ {c c'}, e.Reads c c' → Yields primary c e c') : Complete e := by
  refine .of_call fun he hrest => ?_
  obtain ⟨hu, hst⟩ := hhead he
  refine .of_succ (.bind .peek ?_)
  simp only [hu, hst]
  exact .bind (h he) hrest

theorem callRest_get {inner b : Expr} {dot name : Token} {us : List Token} {m : NodeId} {c : Cursor}
    (hdot : dot.kind = .dot) (hname : name.kind = .identifier)
    (hrest : Yields (fun n => callRest n (.get m inner name)) (us, m + 1) b c) :
    Yields (fun n => callRest n inner) (dot :: name :: us, m) b c := by
  refine .of_succ (.bind .peek ?_)
  simp only [Token.first_cons, hdot]
  refine .bind (.advance (by rw [hdot]; decide)) (.bind (.expect _ hname (by decide)) ?_)
  exact .bind .freshId hrest

theorem callRest_index {inner index b : Expr} {bracket close : Token} {us vs : List Token}
    {m k : NodeId} {c : Cursor} (hbracket : bracket.kind = .leftBracket) (hindex : Complete index)
    (hi : index.Reads (us, m) (close :: vs, k)) (hclose : close.kind = .rightBracket)
    (hrest : Yields (fun n => callRest n (.index k inner bracket index)) (vs, k + 1) b c) :
    Yields (fun n => callRest n inner) (bracket :: us, m) b c := by
  refine .of_succ (.bind .peek ?_)
  simp only [Token.first_cons, hbracket]
  refine .bind (.advance (by rw [hbracket]; decide)) (.bind (hindex.expression hi ?_) ?_)
  · exact stops_cons hclose
  · exact .bind (.expect _ hclose (by decide)) (.bind .freshId hrest)

/-- A step behind its target ends a call chain. -/
theorem callRest_step {inner b : Expr} {op : StepOp} {t : Token} {us : List Token} {m : NodeId}
    {c : Cursor} (hop : stepOp? t.kind = some op)
    (hstep : Yields (fun _ => stepOf inner op t false) (us, m) b c) :
    Yields (fun n => callRest n inner) (t :: us, m) b c := by
  refine .of_succ (.bind .peek ?_)
  have hk : t.kind = .plusPlus ∨ t.kind = .minusMinus := by
    unfold stepOp? at hop
    split at hop
    · exact .inl ‹_›
    · exact .inr ‹_›
    · cases hop
  rcases hk with hk | hk
  all_goals
    rw [hk] at hop
    simp only [Token.first_cons, hk, hop]
    exact .bind (.advance (by rw [hk]; decide)) hstep

theorem complete_get {o : Expr} {t : Token} (ho : Complete o) (hw : (Expr.get id o t).WellFormed) :
    Complete (.get id o t) := by
  obtain ⟨ht, -, hr⟩ := hw
  refine .of_call fun he hrest => ?_
  cases he with
  | get h hdot => exact ho.call hr h (callRest_get hdot ht hrest)

theorem complete_index {o i : Expr} {t : Token} (ho : Complete o) (hi : Complete i)
    (hw : (Expr.index id o t i).WellFormed) : Complete (.index id o t i) := by
  obtain ⟨ht, ⟨-, hr⟩, -⟩ := hw
  refine .of_call fun he hrest => ?_
  cases he with
  | index h₁ h₂ hclose => exact ho.call hr h₁ (callRest_index ht hi h₂ hclose hrest)

theorem complete_ident {t : Token} (hw : (Expr.ident id t).WellFormed) : Complete (.ident id t) := by
  have ht : t.kind = .identifier := hw
  refine complete_primary (fun he => ?_) fun he => ?_
  · cases he
    simp [ht, unaryOp?, stepOp?]
  · cases he
    refine .of_succ (.bind .peek ?_)
    simp only [Token.first_cons, ht]
    exact .bind (.advance (by rw [ht]; decide)) (.bind .freshId .pure)

/-! ### Self-contained forms -/

theorem complete_this {t : Token} (hw : (Expr.this id t).WellFormed) : Complete (.this id t) := by
  have ht : t.kind = .thisWord := hw
  refine complete_primary (fun he => ?_) fun he => ?_
  · cases he
    simp [ht, unaryOp?, stepOp?]
  · cases he
    refine .of_succ (.bind .peek ?_)
    simp only [Token.first_cons, ht]
    exact .bind (.advance (by rw [ht]; decide)) (.bind .freshId .pure)

theorem complete_literal {t : Token} (hw : (Expr.literal id t).WellFormed) :
    Complete (.literal id t) := by
  have ht : t.kind.isLiteral = true := hw
  refine complete_primary (fun he => ?_) fun he => ?_
  · cases he
    rw [Token.first_cons]
    generalize t.kind = kind at ht
    cases kind <;> first | exact ⟨rfl, rfl⟩ | cases ht
  · cases he
    refine .of_succ (.bind .peek ?_)
    have hread {us m} : Yields (fun _ => do
        let _ ← Parser.advance
        return Expr.literal (← Parser.freshId) t) (t :: us, m) (.literal m t) (us, m + 1) := by
      refine .bind (.advance ?_) (.bind .freshId .pure)
      intro he
      simp [he, Token.Kind.isLiteral] at ht
    rw [Token.first_cons]
    revert ht
    cases hk : t.kind
    case number | string | trueWord | falseWord | noneWord => exact fun _ => hread
    all_goals
      intro ht
      cases ht

theorem complete_group {t : Token} {e : Expr} (he : Complete e)
    (hw : (Expr.group id t e).WellFormed) : Complete (.group id t e) := by
  obtain ⟨ht, -⟩ := hw
  refine complete_primary (fun h => ?_) fun h => ?_
  · cases h
    simp [ht, unaryOp?, stepOp?]
  · cases h with
    | group h hclose =>
      refine .of_succ (.bind .peek ?_)
      simp only [Token.first_cons, ht]
      refine .bind (.advance (by rw [ht]; decide)) (.bind (he.expression h (stops_cons hclose)) ?_)
      exact .bind (.expect _ hclose (by decide)) (.bind .freshId .pure)

/-- Expressions between commas are read up to a token that neither is a comma nor carries on. -/
theorem argumentsFrom_complete {closing : Token.Kind} {es done : List Expr} {e : Expr} {taken : Nat}
    {c c₁ c' : Cursor} (hall : ∀ e' ∈ e :: es, Complete e') (he : e.Reads c c₁)
    (hes : Expr.ReadsMore es c₁ c') (hs : Stops 0 c')
    (hcomma : (Token.first c'.1).kind ≠ .comma)
    (hroom : closing = .rightParen → taken + (e :: es).length ≤ maxArguments) :
    Yields (fun n => argumentsFrom n closing done taken) c (done.reverse ++ e :: es) c' := by
  induction es generalizing e done taken c c₁ with
  | nil =>
    cases hes
    have hcheck : closing = .rightParen → taken < maxArguments := fun h => hroom h
    refine .of_succ (.bind (.checkArguments hcheck) ?_)
    refine .bind ((hall e (by simp)).expression he hs) (.bind (.accept_not hcomma) ?_)
    rw [← List.reverse_cons]
    exact .pure
  | cons e' es ih =>
    cases hes with
    | cons hk he' hes =>
      have hcheck : closing = .rightParen → taken < maxArguments := by
        intro h
        have := hroom h
        simp only [List.length_cons] at this
        omega
      refine .of_succ (.bind (.checkArguments hcheck) ?_)
      refine .bind ((hall e (by simp)).expression he (stops_cons hk)) ?_
      refine .bind (.accept hk (by decide)) ?_
      have hsplit : done.reverse ++ e :: e' :: es = (e :: done).reverse ++ e' :: es := by simp
      rw [hsplit]
      refine ih (fun x hx => hall x (List.mem_cons_of_mem _ hx)) he' hes fun h => ?_
      have := hroom h
      simp only [List.length_cons] at this ⊢
      omega

theorem arguments_complete {closing : Token.Kind} {t : Token} {es : List Expr} {vs : List Token}
    {c : Cursor} {k : NodeId} (ht : t.kind = closing)
    (hclosing : grip closing = 0 ∧ closing ≠ .comma ∧ closing.startsExpression = false)
    (hall : ∀ e ∈ es, Complete e) (hw : Expr.WellFormedAll es)
    (h : Expr.ReadsList es c (t :: vs, k))
    (hroom : closing = .rightParen → es.length ≤ maxArguments) :
    Yields (fun n => arguments n closing) c es (t :: vs, k) := by
  obtain ⟨hs, hcomma, hstop⟩ := hclosing
  refine .of_succ (.bind .peek ?_)
  cases h with
  | nil => exact .ite_pos ht .pure
  | cons he hes =>
    obtain ⟨first, rest, hr, hstart, -⟩ := he.starts hw.1
    refine .ite_neg ?_ ?_
    · rw [hr, Token.first_cons]
      intro hk
      rw [hk, hstop] at hstart
      cases hstart
    · refine argumentsFrom_complete hall he hes ?_ ?_ fun hk => ?_
      · exact stops_cons ht (Nat.le_of_eq hs)
      · rw [Token.first_cons, ht]
        exact hcomma
      · rw [Nat.zero_add]
        exact hroom hk

theorem complete_array {t : Token} {es : List Expr} (hes : ∀ e ∈ es, Complete e)
    (hw : (Expr.array id t es).WellFormed) : Complete (.array id t es) := by
  obtain ⟨ht, hwes⟩ := hw
  refine complete_primary (fun h => ?_) fun h => ?_
  · cases h
    simp [ht, unaryOp?, stepOp?]
  · cases h with
    | array h hclose =>
      have hargs := arguments_complete hclose (by decide) hes hwes h (by simp)
      refine .of_succ (.bind .peek ?_)
      simp only [Token.first_cons, ht]
      refine .bind (.advance (by rw [ht]; decide)) (.bind hargs ?_)
      exact .bind (.expect _ hclose (by decide)) (.bind .freshId .pure)

theorem complete_call {callee : Expr} {t : Token} {args : List Expr} (hc : Complete callee)
    (hargs : ∀ e ∈ args, Complete e) (hw : (Expr.call id callee t args).WellFormed) :
    Complete (.call id callee t args) := by
  obtain ⟨ht, ⟨-, hr⟩, hwargs, hroom⟩ := hw
  refine .of_call fun he hrest => ?_
  cases he with
  | call h₁ hopening h₂ =>
    refine hc.call hr h₁ (.of_succ (.bind .peek ?_))
    simp only [Token.first_cons, hopening]
    refine .bind (.advance (by rw [hopening]; decide)) ?_
    refine .bind (arguments_complete ht (by decide) hargs hwargs h₂ fun _ => hroom) ?_
    exact .bind (.expect _ ht (by decide)) (.bind .freshId hrest)

/-! ### Assignments and steps -/

/-- An assignment reads its target first, which takes an identity. -/
theorem expression_assignTo {target value e : Expr} {sign : Token} {ts us : List Token} {m k : NodeId}
    {c c' : Cursor} (ht : Complete target) (hr : 1 ≤ target.rank) (hsign : sign.kind = .assign)
    (h₁ : target.Reads c (sign :: ts, m)) (hv : Complete value) (h₂ : value.Reads (ts, m) (us, k))
    (hs : Stops 0 (us, k)) (hto : Yields (fun _ => assignTo target sign value) (us, k) e c') :
    Yields expression c e c' := by
  refine .of_succ (.bind (ht.ternary hr h₁ (stops_cons hsign)) (.bind .peek (.ite_pos hsign ?_)))
  exact .bind (.advance (by rw [hsign]; decide)) (.bind (hv.expression h₂ hs) hto)

theorem complete_assign {t : Token} {e : Expr} (he : Complete e)
    (hw : (Expr.assign id t e).WellFormed) : Complete (.assign id t e) := by
  obtain ⟨ht, -⟩ := hw
  refine .of_expression rfl fun h hs => ?_
  cases h with
  | assign hsign h =>
    have htarget {i} : Complete (.ident i t) := complete_ident ht
    refine expression_assignTo htarget (by simp [Expr.rank]) hsign .ident he h hs ?_
    exact .bind .freshId .pure

theorem complete_set {o e : Expr} {t : Token} (ho : Complete o) (he : Complete e)
    (hw : (Expr.set id o t e).WellFormed) : Complete (.set id o t e) := by
  obtain ⟨ht, hwo, -⟩ := hw
  refine .of_expression rfl fun h hs => ?_
  cases h with
  | set h₁ hdot hsign h₂ =>
    have htarget {i} : Complete (.get i o t) := complete_get ho ⟨ht, hwo⟩
    refine expression_assignTo htarget (by simp [Expr.rank]) hsign (.get h₁ hdot) he h₂ hs ?_
    exact .bind .freshId .pure

theorem complete_compound {t u : Token} {op : ArithOp} {e : Expr} (he : Complete e)
    (hw : (Expr.compound id t op u e).WellFormed) : Complete (.compound id t op u e) := by
  obtain ⟨ht, hop, -⟩ := hw
  refine .of_expression rfl fun h hs => ?_
  cases h with
  | compound h =>
    have hgrip := grip_of_compoundOp hop
    have hneof : u.kind ≠ .eof := by
      intro hk
      simp [hk, grip] at hgrip
    have hnassign : u.kind ≠ .assign := by
      intro hk
      simp [hk, compoundOp?] at hop
    have htarget {ts n} : Yields ternary (t :: u :: ts, n) (.ident n t) (u :: ts, n + 1) :=
      (complete_ident ht).ternary (by simp [Expr.rank]) .ident (stops_cons rfl (Nat.le_of_eq hgrip))
    refine .of_succ (.bind htarget (.bind .peek (.ite_neg hnassign ?_)))
    simp only [Token.first_cons, hop]
    exact .bind (.advance hneof) (.bind (he.expression h hs) (.bind .freshId .pure))

/-- A step in front of its target. -/
theorem unary_step {target e : Expr} {op : StepOp} {t : Token} {ts us : List Token} {m k : NodeId}
    {c' : Cursor} (hop : stepOp? t.kind = some op) (ht : Complete target) (hr : 8 ≤ target.rank)
    (h : target.Reads (ts, m) (us, k)) (hs : Stops 8 (us, k))
    (hstep : Yields (fun _ => stepOf target op t true) (us, k) e c') :
    Yields unary (t :: ts, m) e c' := by
  have hun : unaryOp? t.kind = none ∧ t.kind ≠ .eof := by
    unfold stepOp? at hop
    split at hop <;> simp_all [unaryOp?]
  refine .of_succ (.bind .peek ?_)
  simp only [Token.first_cons, hun.1, hop]
  exact .bind (.advance hun.2) (.bind (ht.unary hr h hs) hstep)

theorem complete_update {t u : Token} {op : StepOp} {before : Bool}
    (hw : (Expr.update id t op u before).WellFormed) : Complete (.update id t op u before) := by
  obtain ⟨ht, hop⟩ := hw
  have htarget {i} : Complete (.ident i t) := complete_ident ht
  refine .of_unary (fun h => absurd h (by cases before <;> simp [Expr.rank])) fun h hs => ?_
  cases h with
  | updateBefore =>
    exact unary_step hop htarget (by simp [Expr.rank]) .ident hs (.bind .freshId .pure)
  | updateAfter =>
    exact htarget.call (by simp [Expr.rank]) .ident (callRest_step hop (.bind .freshId .pure))

theorem complete_updateIndex {o i : Expr} {t u : Token} {op : StepOp} {before : Bool}
    (ho : Complete o) (hi : Complete i) (hw : (Expr.updateIndex id o t i op u before).WellFormed) :
    Complete (.updateIndex id o t i op u before) := by
  obtain ⟨ht, hop, hwo, hwi⟩ := hw
  have htarget {k} : Complete (.index k o t i) := complete_index ho hi ⟨ht, hwo, hwi⟩
  refine .of_unary (fun h => absurd h (by cases before <;> simp [Expr.rank])) fun h hs => ?_
  cases h with
  | updateIndexBefore h₁ h₂ hclose =>
    refine unary_step hop htarget (by simp [Expr.rank]) (.index h₁ h₂ hclose) hs ?_
    exact .bind .freshId .pure
  | updateIndexAfter h₁ h₂ hclose =>
    refine htarget.call (by simp [Expr.rank]) (.index h₁ h₂ hclose) (callRest_step hop ?_)
    exact .bind .freshId .pure

theorem complete_updateGet {o : Expr} {t u : Token} {op : StepOp} {before : Bool} (ho : Complete o)
    (hw : (Expr.updateGet id o t op u before).WellFormed) :
    Complete (.updateGet id o t op u before) := by
  obtain ⟨ht, hop, hwo⟩ := hw
  have htarget {k} : Complete (.get k o t) := complete_get ho ⟨ht, hwo⟩
  refine .of_unary (fun h => absurd h (by cases before <;> simp [Expr.rank])) fun h hs => ?_
  cases h with
  | updateGetBefore h hdot =>
    refine unary_step hop htarget (by simp [Expr.rank]) (.get h hdot) hs ?_
    exact .bind .freshId .pure
  | updateGetAfter h hdot =>
    refine htarget.call (by simp [Expr.rank]) (.get h hdot) (callRest_step hop ?_)
    exact .bind .freshId .pure

end

/-! ## Statements -/

/-- A statement is read as a declaration, and as a statement if it declares nothing. An `else` must not
follow if the statement could take it. -/
structure CompleteStmt (st : Stmt) : Prop where
  declaration : ∀ {c c'}, st.Reads c c' →
    (st.opensIf = true → (Token.first c'.1).kind ≠ .elseWord) → Yields declaration c st c'
  statement : st.isDeclaration = false → ∀ {c c'}, st.Reads c c' →
    (st.opensIf = true → (Token.first c'.1).kind ≠ .elseWord) → Yields statement c st c'

/-- The kinds that no declaration starts with: another statement or the end of a list of them. -/
def closes : Token.Kind → Bool
  | .rightBrace | .eof | .elseWord => true
  | _ => false

/-- The first token of a statement does not end a list of statements. -/
theorem starts_of_reads {st : Stmt} {c c' : Cursor} (h : st.Reads c c')
    (hw : st.WellFormed) : closes (Token.first c.1).kind = false := by
  cases h with
  | expression he hsemi =>
    obtain ⟨t, rest, hr, hk, -⟩ := he.starts hw
    rw [hr, Token.first_cons]
    revert hk
    cases t.kind <;> simp [Token.Kind.startsExpression, closes]
  | leave hsemi => rw [Token.first_cons, show _ = _ from hw]; rfl
  | skip hsemi => rw [Token.first_cons, show _ = _ from hw]; rfl
  | result hv hsemi => rw [Token.first_cons, hw.1]; rfl
  | print hword | declare hword | block hword | branch hword | loop hword | forLoop hword
  | function hword | classDecl hword => rw [Token.first_cons, hword]; rfl

/-- No `else` stands before statements, unless one stands behind them. -/
theorem ne_else_of_readsAll {ss : List Stmt} {c c' : Cursor} (h : Stmt.ReadsAll ss c c')
    (hw : Stmt.WellFormedAll ss) (hc' : (Token.first c'.1).kind ≠ .elseWord) :
    (Token.first c.1).kind ≠ .elseWord := by
  cases h with
  | nil => exact hc'
  | cons hs _ =>
    intro he
    have := starts_of_reads hs hw.1
    rw [he] at this
    cases this

theorem blockBody_complete {ss done : List Stmt} {c c' : Cursor} (hall : ∀ st ∈ ss, CompleteStmt st)
    (hw : Stmt.WellFormedAll ss) (h : Stmt.ReadsAll ss c c')
    (hlast : (Token.first c'.1).kind = .rightBrace) :
    Yields (fun n => blockBody n done) c (done.reverse ++ ss) c' := by
  induction ss generalizing done c with
  | nil =>
    cases h
    refine .of_succ (.bind .peek (.ite_pos (by simp [hlast]) ?_))
    rw [List.append_nil]
    exact .pure
  | cons st ss ih =>
    cases h with
    | cons hs hss =>
      have hne := starts_of_reads hs hw.1
      have helse := ne_else_of_readsAll hss hw.2 (by rw [hlast]; decide)
      have hread := (hall st (by simp)).declaration hs fun _ => helse
      refine .of_succ (.bind .peek (.ite_neg ?_ (.bind hread.recovering ?_)))
      · simp only [Bool.or_eq_true, decide_eq_true_eq]
        rintro (hk | hk) <;> simp [hk, closes] at hne
      · have hsplit : done.reverse ++ st :: ss = (st :: done).reverse ++ ss := by simp
        rw [hsplit]
        exact ih (fun x hx => hall x (List.mem_cons_of_mem _ hx)) hw.2 hss

theorem block_complete {body : List Stmt} {brace last : Token} {ts us : List Token} {n m : NodeId}
    (hall : ∀ st ∈ body, CompleteStmt st) (hw : Stmt.WellFormedAll body)
    (hbrace : brace.kind = .leftBrace) (hb : Stmt.ReadsAll body (ts, n) (last :: us, m))
    (hlast : last.kind = .rightBrace) : Yields block (brace :: ts, n) (brace, body) (us, m) := by
  refine .of_succ (.bind (.expect _ hbrace (by decide)) ?_)
  exact .bind (blockBody_complete hall hw hb hlast) (.bind (.expect _ hlast (by decide)) .pure)

theorem parameterNames_complete {ps done ts us : List Token} {p : Token} {taken : Nat} {m : NodeId}
    (h : MoreParams ps ts us) (hk : ∀ q ∈ p :: ps, q.kind = .identifier)
    (hcomma : (Token.first us).kind ≠ .comma)
    (hroom : taken + (p :: ps).length ≤ maxArguments) :
    Yields (fun n => parameterNames done taken n) (p :: ts, m) (done.reverse ++ p :: ps) (us, m) := by
  induction h generalizing done p taken with
  | nil =>
    refine .of_succ (.bind (.checkRoom hroom) (.bind (.expect _ (hk p (by simp)) (by decide)) ?_))
    refine .bind (.accept_not hcomma) ?_
    rw [← List.reverse_cons]
    exact .pure
  | cons hcom h ih =>
    rename_i p' ps ts us
    have hlt : taken < maxArguments := by
      simp only [List.length_cons] at hroom
      omega
    refine .of_succ (.bind (.checkRoom hlt) (.bind (.expect _ (hk p (by simp)) (by decide)) ?_))
    refine .bind (.accept hcom (by decide)) ?_
    have hsplit : done.reverse ++ p :: p' :: ps = (p :: done).reverse ++ p' :: ps := by simp
    rw [hsplit]
    refine ih (fun q hq => hk q (List.mem_cons_of_mem _ hq)) hcomma ?_
    simp only [List.length_cons] at hroom ⊢
    omega

theorem parameters_complete {ps ts us : List Token} {close : Token} {m : NodeId}
    (h : Params ps ts (close :: us)) (hw : WellFormedParams ps) (hclose : close.kind = .rightParen) :
    Yields parameters (ts, m) ps (close :: us, m) := by
  refine .bind .peek ?_
  cases h with
  | nil => exact .ite_pos hclose .pure
  | cons h =>
    refine .ite_neg ?_ (parameterNames_complete h hw.1 ?_ ?_)
    · rw [Token.first_cons, hw.1 _ (by simp)]
      decide
    · rw [Token.first_cons, hclose]
      decide
    · rw [Nat.zero_add]
      exact hw.2

theorem functionTail_complete {ps : List Token} {body : List Stmt} {callee : Callee} {c c' : Cursor}
    (hall : ∀ st ∈ body, CompleteStmt st) (hps : WellFormedParams ps) (hw : Stmt.WellFormedAll body)
    (h : ReadsTail ps body c c') : Yields (fun n => functionTail n callee) c (ps, body) c' := by
  cases h with
  | mk hopening hp hclose hbrace hb hlast =>
    refine .of_succ (.bind (.expect _ hopening (by decide)) ?_)
    refine .bind (parameters_complete hp hps hclose) (.bind (.expect _ hclose (by decide)) ?_)
    refine .bind .peek (.ite_pos hbrace ?_)
    exact .bind (block_complete hall hw hbrace hb hlast) .pure

theorem complete_lambda {id : NodeId} {t : Token} {ps : List Token} {body : List Stmt}
    (hall : ∀ st ∈ body, CompleteStmt st) (hw : (Expr.lambda id t ps body).WellFormed) :
    Complete (.lambda id t ps body) := by
  obtain ⟨ht, hps, hwb⟩ := hw
  refine complete_primary (fun h => ?_) fun h => ?_
  · cases h
    simp [ht, unaryOp?, stepOp?]
  · cases h with
    | lambda h =>
      refine .of_succ (.bind .peek ?_)
      simp only [Token.first_cons, ht]
      refine .bind (.advance (by rw [ht]; decide)) ?_
      exact .bind (functionTail_complete hall hps hwb h) (.bind .freshId .pure)

/-- A function or method is read from its name on. -/
def CompleteFunction (d : Function) : Prop :=
  ∀ {callee : Callee} {c c' : Cursor}, d.Reads c c' → Yields (fun n => function n callee) c d c'

theorem completeFunction_mk {t : Token} {ps : List Token} {body : List Stmt}
    (hall : ∀ st ∈ body, CompleteStmt st) (hw : (Function.mk t ps body).WellFormed) :
    CompleteFunction (.mk t ps body) := by
  intro callee c c' h
  obtain ⟨ht, hps, hwb⟩ := hw
  cases h with
  | mk h =>
    refine .of_succ (.bind (.expect _ ht (by decide)) ?_)
    exact .bind (functionTail_complete hall hps hwb h) .pure

theorem peekSecond_yields {t u : Token} {ts : List Token} {m : NodeId} :
    Yields (fun _ => peekSecond) (t :: u :: ts, m) u (t :: u :: ts, m) := ⟨0, fun _ _ _ => rfl⟩

/-- Fields and methods are told apart by what follows their name. -/
theorem members_complete {fs fields : List Field} {ms methods : List Function} {c c' : Cursor}
    (hfs : ∀ d ∈ fs, Complete d.value) (hms : ∀ d ∈ ms, CompleteFunction d)
    (hwfs : Field.WellFormedAll fs) (hwms : Function.WellFormedAll ms)
    (h : ReadsMembers fs ms c c') (hlast : (Token.first c'.1).kind = .rightBrace) :
    Yields (fun n => members n fields methods) c (fields.reverse ++ fs, methods.reverse ++ ms) c' := by
  obtain ⟨k, hk⟩ : ∃ k, k = fs.length + ms.length := ⟨_, rfl⟩
  induction k generalizing fs ms fields methods c with
  | zero =>
    cases h with
    | nil =>
      refine .of_succ (.bind .peek (.ite_pos (by simp [hlast]) ?_))
      simp only [List.append_nil]
      exact .pure
    | field => simp only [List.length_cons] at hk; omega
    | method => simp only [List.length_cons] at hk; omega
  | succ k ih =>
    cases h with
    | nil => simp at hk
    | field hsign he hsemi h =>
      rename_i t e sign semi fs ts us n m
      obtain ⟨⟨ht, hwe⟩, hwfs⟩ := hwfs
      refine .of_succ (.bind .peek (.ite_neg (by simp [ht]) (.bind peekSecond_yields ?_)))
      refine .ite_pos (by simp [ht, hsign]) ?_
      refine .bind (.advance (by rw [ht]; decide)) (.bind (.advance (by rw [hsign]; decide)) ?_)
      have hvalue : Complete e := hfs (.mk t e) (by simp)
      refine .bind (hvalue.expression he (stops_cons hsemi)) (.bind (.expect _ hsemi (by decide)) ?_)
      have hsplit : fields.reverse ++ Field.mk t e :: fs = (Field.mk t e :: fields).reverse ++ fs := by
        simp
      rw [hsplit]
      refine ih (fun d hd => hfs d (List.mem_cons_of_mem _ hd)) hms hwfs hwms h ?_
      simp only [List.length_cons] at hk
      omega
    | method hd h =>
      rename_i d ms c₁
      obtain ⟨hwd, hwms⟩ := hwms
      have hread : Yields (fun n => function n .method) c d c₁ := hms d (by simp) hd
      have hsplit : methods.reverse ++ d :: ms = (d :: methods).reverse ++ ms := by simp
      rw [hsplit]
      have hlen : k = fs.length + ms.length := by
        simp only [List.length_cons] at hk
        omega
      have hrest : Yields (fun n => members n fields (d :: methods)) c₁ _ c' :=
        ih hfs (fun x hx => hms x (List.mem_cons_of_mem _ hx)) hwfs hwms h hlen
      cases hd with
      | mk htail =>
        cases htail with
        | mk hopening hp hclose hbrace hb hl =>
          refine .of_succ (.bind .peek (.ite_neg (by simp [hwd.1]) (.bind peekSecond_yields ?_)))
          exact .ite_neg (by simp [hopening]) (.bind hread hrest)

/-! ### One form after the other -/

/-- The kinds that `declaration` does not look at. -/
def plain : Token.Kind → Bool
  | .classWord | .funWord | .letWord => false
  | _ => true

theorem declaration_of_statement {st : Stmt} {c c' : Cursor} (hk : plain (Token.first c.1).kind = true)
    (h : Yields statement c st c') : Yields declaration c st c' := by
  refine .of_succ (.bind .peek ?_)
  generalize (Token.first c.1).kind = kind at hk
  cases kind
  case classWord | funWord | letWord => cases hk
  all_goals exact h

/-- A statement that starts with a word of its own is a declaration as well. -/
theorem completeStmt_of_statement {st : Stmt}
    (hk : ∀ {c c'}, st.Reads c c' → plain (Token.first c.1).kind = true)
    (h : ∀ {c c'}, st.Reads c c' →
      (st.opensIf = true → (Token.first c'.1).kind ≠ .elseWord) → Yields statement c st c') :
    CompleteStmt st where
  declaration hst helse := declaration_of_statement (hk hst) (h hst helse)
  statement _ _ _ := h

/-- A declaration is no statement. -/
theorem completeStmt_of_declaration {st : Stmt} (hd : st.isDeclaration = true)
    (h : ∀ {c c'}, st.Reads c c' → Yields declaration c st c') : CompleteStmt st where
  declaration hst _ := h hst
  statement hn := by rw [hd] at hn; cases hn

theorem expressionStmt_complete {pos : Position} {e : Expr} {c c' : Cursor} (he : Complete e)
    (h : (Stmt.expression pos e).Reads c c') :
    Yields expressionStmt c (.expression pos e) c' := by
  cases h with
  | expression h hsemi =>
    refine .of_succ (.bind .peek (.bind (he.expression h (stops_cons hsemi)) ?_))
    exact .bind (.expect _ hsemi (by decide)) .pure

theorem completeStmt_expression {pos : Position} {e : Expr} (he : Complete e) (hw : e.WellFormed) :
    CompleteStmt (.expression pos e) := by
  have hstatement {c c'} (h : (Stmt.expression pos e).Reads c c') :
      Yields statement c (.expression pos e) c' := by
    refine .of_succ (.bind .peek ?_)
    have hrun := expressionStmt_complete he h
    cases h with
    | expression h hsemi =>
      obtain ⟨t, rest, hr, hk, -⟩ := h.starts hw
      rw [hr, Token.first_cons] at *
      revert hk
      cases t.kind <;> first | exact fun _ => hrun | exact nofun
  refine ⟨fun h _ => ?_, fun _ _ _ h _ => hstatement h⟩
  have hrun := hstatement h
  cases h with
  | @expression _ t _ _ _ _ _ h hsemi =>
    obtain ⟨_, _, ⟨⟩, hk, hfun⟩ := h.starts hw
    by_cases ht : t.kind = .funWord
    · -- Only a parenthesis behind `fun` tells a lambda from a declaration.
      obtain ⟨opening, rest', rfl, hopening⟩ := hfun ht
      refine .of_succ (.bind .peek ?_)
      simp only [Token.first_cons, ht]
      exact .bind peekSecond_yields (.ite_neg (by simp [hopening]) hrun)
    · refine declaration_of_statement ?_ hrun
      rw [Token.first_cons]
      revert hk ht
      cases t.kind <;> simp [Token.Kind.startsExpression, plain]

theorem completeStmt_print {pos : Position} {e : Expr} (he : Complete e) :
    CompleteStmt (.print pos e) := by
  refine completeStmt_of_statement (fun h => ?_) fun h _ => ?_
  · cases h with
    | print hword => rw [Token.first_cons, hword]; rfl
  · cases h with
    | print hword h hsemi =>
      refine .of_succ (.bind .peek ?_)
      simp only [Token.first_cons, hword]
      refine .bind (.advance (by rw [hword]; decide)) (.bind (he.expression h (stops_cons hsemi)) ?_)
      exact .bind (.expect _ hsemi (by decide)) .pure

/-- An expression that may be absent is read up to a token that starts none. -/
theorem unlessAt_complete {kind : Token.Kind} {v : Option Expr} {t : Token} {us : List Token}
    {m : NodeId} {c : Cursor} (hv : ∀ e, v = some e → Complete e) (hw : Expr.WellFormedOpt v)
    (hkind : grip kind = 0 ∧ kind.startsExpression = false) (ht : t.kind = kind)
    (h : Expr.ReadsOpt v c (t :: us, m)) :
    Yields (fun n => unlessAt kind (expression n)) c v (t :: us, m) := by
  refine .bind .peek ?_
  cases h with
  | none => exact .ite_pos ht .pure
  | some he =>
    obtain ⟨first, rest, hr, hstart, -⟩ := he.starts hw
    have hs : Stops 0 (t :: us, m) := stops_cons ht (Nat.le_of_eq hkind.1)
    refine .ite_neg ?_ (.bind ((hv _ rfl).expression he hs) .pure)
    rw [hr, Token.first_cons]
    intro hk
    rw [hk, hkind.2] at hstart
    cases hstart

theorem variableDecl_complete {pos : Position} {t : Token} {v : Option Expr} {c c' : Cursor}
    (hv : ∀ e, v = some e → Complete e) (ht : t.kind = .identifier)
    (h : (Stmt.declare pos t v).Reads c c') : Yields variableDecl c (.declare pos t v) c' := by
  cases h with
  | @declare _ _ _ semi ts us n m hword h hsemi =>
    have hvalue : Yields (fun n => ifAfter .assign (expression n)) (ts, n) v (semi :: us, m) := by
      cases h with
      | none => exact .bind (.accept_not (by rw [Token.first_cons, hsemi]; decide)) .pure
      | some hsign h =>
        refine .bind (.accept hsign (by decide)) ?_
        exact .bind ((hv _ rfl).expression h (stops_cons hsemi)) .pure
    refine .of_succ (.bind (.advance (by rw [hword]; decide)) ?_)
    exact .bind (.expect _ ht (by decide)) (.bind hvalue (.bind (.expect _ hsemi (by decide)) .pure))

theorem completeStmt_declare {pos : Position} {t : Token} {v : Option Expr}
    (hv : ∀ e, v = some e → Complete e) (hw : (Stmt.declare pos t v).WellFormed) :
    CompleteStmt (.declare pos t v) := by
  refine completeStmt_of_declaration rfl fun h => ?_
  have hrun := variableDecl_complete hv hw.1 h
  cases h with
  | declare hword h hsemi =>
    refine .of_succ (.bind .peek ?_)
    simp only [Token.first_cons, hword]
    exact hrun

theorem completeStmt_block {pos : Position} {body : List Stmt} (hall : ∀ st ∈ body, CompleteStmt st)
    (hw : Stmt.WellFormedAll body) : CompleteStmt (.block pos body) := by
  refine completeStmt_of_statement (fun h => ?_) fun h _ => ?_
  · cases h with
    | block hbrace => rw [Token.first_cons, hbrace]; rfl
  · cases h with
    | block hbrace h hlast =>
      refine .of_succ (.bind .peek ?_)
      simp only [Token.first_cons, hbrace]
      exact .bind (block_complete hall hw hbrace h hlast) .pure

theorem completeStmt_loop {pos : Position} {cond : Expr} {body : Stmt} (hc : Complete cond)
    (hb : CompleteStmt body) (hw : (Stmt.loop pos cond body).WellFormed) :
    CompleteStmt (.loop pos cond body) := by
  obtain ⟨-, -, hdecl⟩ := hw
  refine completeStmt_of_statement (fun h => ?_) fun h helse => ?_
  · cases h with
    | loop hword => rw [Token.first_cons, hword]; rfl
  · cases h with
    | loop hword hopening h₁ hclose h₂ =>
      refine .of_succ (.bind .peek ?_)
      simp only [Token.first_cons, hword]
      refine .bind (.advance (by rw [hword]; decide)) (.bind (.expect _ hopening (by decide)) ?_)
      refine .bind (hc.expression h₁ (stops_cons hclose)) (.bind (.expect _ hclose (by decide)) ?_)
      exact .bind (hb.statement hdecl h₂ helse) .pure

theorem completeStmt_branch {pos : Position} {cond : Expr} {yes : Stmt} {no : Option Stmt}
    (hc : Complete cond) (hy : CompleteStmt yes) (hn : ∀ st, no = some st → CompleteStmt st)
    (hw : (Stmt.branch pos cond yes no).WellFormed) : CompleteStmt (.branch pos cond yes no) := by
  obtain ⟨-, ⟨-, hdecl⟩, hwno⟩ := hw
  refine completeStmt_of_statement (fun h => ?_) fun {_ c'} h helse => ?_
  · cases h with
    | branch hword => rw [Token.first_cons, hword]; rfl
  · cases h with
    | @branch _ _ _ _ _ _ _ _ _ _ c _ hword hopening h₁ hclose h₂ h₃ =>
      have hno : (yes.opensIf = true → (Token.first c.1).kind ≠ .elseWord) ∧
          Yields (fun n => ifAfter .elseWord (statement n)) c no c' := by
        cases h₃ with
        | none => exact ⟨fun _ => helse rfl, .bind (.accept_not (helse rfl)) .pure⟩
        | @some st _ _ _ _ hk h₃ =>
          obtain ⟨hopens, -, hdecl'⟩ := hwno
          have hread := (hn st rfl).statement hdecl' h₃ helse
          refine ⟨?_, .bind (.accept hk (by decide)) (.bind hread .pure)⟩
          rw [hopens]
          exact nofun
      refine .of_succ (.bind .peek ?_)
      simp only [Token.first_cons, hword]
      refine .of_succ (.bind (.advance (by rw [hword]; decide)) ?_)
      refine .bind (.expect _ hopening (by decide)) ?_
      refine .bind (hc.expression h₁ (stops_cons hclose)) (.bind (.expect _ hclose (by decide)) ?_)
      exact .bind (hy.statement hdecl h₂ hno.1) (.bind hno.2 .pure)

/-- What `declaration` makes of `let` is what `variableDecl` makes of it. -/
theorem variableDecl_of_declaration {st : Stmt} {c c' : Cursor}
    (hk : (Token.first c.1).kind = .letWord) (h : Yields declaration c st c') :
    Yields variableDecl c st c' := by
  obtain ⟨N, hN⟩ := h
  refine ⟨N, fun n hn fs => ?_⟩
  rw [← hN (n + 1) (by omega) fs]
  show _ = (match (Token.first c.1).kind with
    | .classWord => _ | .funWord => _ | .letWord => _ | _ => _ : Parser Stmt) _
  rw [hk]

/-- What `statement` makes of an expression is what `expressionStmt` makes of it. -/
theorem expressionStmt_of_statement {st : Stmt} {c c' : Cursor}
    (hk : (Token.first c.1).kind.startsExpression = true) (h : Yields statement c st c') :
    Yields expressionStmt c st c' := by
  obtain ⟨N, hN⟩ := h
  refine ⟨N, fun n hn fs => ?_⟩
  rw [← hN (n + 1) (by omega) fs]
  unfold Token.first at hk
  simp only [statement, Bind.bind, EStateM.bind, peek]
  generalize (c.1.headD _).kind = kind at hk ⊢
  cases kind <;> first | rfl | cases hk

theorem startClause_complete {start : Option Stmt} {c c' : Cursor}
    (hs : ∀ st, start = some st → CompleteStmt st) (hw : Stmt.WellFormedClause start)
    (h : Stmt.ReadsClause start c c') :
    Yields (fun n => startClause (variableDecl n) (expressionStmt n)) c start c' := by
  cases h with
  | none hk => exact .bind (.accept hk (by decide)) .pure
  | @some st c c' hst =>
    have hcomplete := hs st rfl
    obtain ⟨hclause, hwst⟩ := hw
    cases st
    case declare =>
      have hlet : (Token.first c.1).kind = .letWord := by
        cases hst with
        | declare hword => exact hword
      have hrun := variableDecl_of_declaration hlet (hcomplete.declaration hst nofun)
      refine .bind (.accept_not (by rw [hlet]; decide)) (.bind .peek (.ite_pos hlet ?_))
      exact .bind hrun .pure
    case expression =>
      have hstart : (Token.first c.1).kind.startsExpression = true := by
        cases hst with
        | expression he =>
          obtain ⟨_, _, ⟨⟩, hk, -⟩ := he.starts hwst
          exact hk
      have hrun := expressionStmt_of_statement hstart (hcomplete.statement rfl hst nofun)
      refine .bind (.accept_not ?_) (.bind .peek (.ite_neg ?_ (.bind hrun .pure)))
      · intro hk
        rw [hk] at hstart
        cases hstart
      · intro hk
        rw [hk] at hstart
        cases hstart
    all_goals cases hclause

theorem completeStmt_forLoop {pos : Position} {start : Option Stmt} {cond step : Option Expr}
    {body : Stmt} (hs : ∀ st, start = some st → CompleteStmt st)
    (hc : ∀ e, cond = some e → Complete e) (hu : ∀ e, step = some e → Complete e)
    (hb : CompleteStmt body) (hw : (Stmt.forLoop pos start cond step body).WellFormed) :
    CompleteStmt (.forLoop pos start cond step body) := by
  obtain ⟨hws, hwc, hwu, -, hdecl⟩ := hw
  refine completeStmt_of_statement (fun h => ?_) fun h helse => ?_
  · cases h with
    | forLoop hword => rw [Token.first_cons, hword]; rfl
  · cases h with
    | forLoop hword hopening h₁ h₂ hsemi h₃ hclose h₄ =>
      refine .of_succ (.bind .peek ?_)
      simp only [Token.first_cons, hword]
      refine .of_succ (.bind (.advance (by rw [hword]; decide)) ?_)
      refine .bind (.expect _ hopening (by decide)) (.bind (startClause_complete hs hws h₁) ?_)
      refine .bind (unlessAt_complete hc hwc (by decide) hsemi h₂) ?_
      refine .bind (.expect _ hsemi (by decide)) ?_
      refine .bind (unlessAt_complete hu hwu (by decide) hclose h₃) ?_
      exact .bind (.expect _ hclose (by decide)) (.bind (hb.statement hdecl h₄ helse) .pure)

theorem completeStmt_leave {t : Token} (hw : (Stmt.leave t).WellFormed) : CompleteStmt (.leave t) := by
  have ht : t.kind = .breakWord := hw
  refine completeStmt_of_statement (fun h => ?_) fun h _ => ?_
  · cases h
    rw [Token.first_cons, ht]
    rfl
  · cases h with
    | leave hsemi =>
      refine .of_succ (.bind .peek ?_)
      simp only [Token.first_cons, ht]
      exact .bind (.advance (by rw [ht]; decide)) (.bind (.expect _ hsemi (by decide)) .pure)

theorem completeStmt_skip {t : Token} (hw : (Stmt.skip t).WellFormed) : CompleteStmt (.skip t) := by
  have ht : t.kind = .continueWord := hw
  refine completeStmt_of_statement (fun h => ?_) fun h _ => ?_
  · cases h
    rw [Token.first_cons, ht]
    rfl
  · cases h with
    | skip hsemi =>
      refine .of_succ (.bind .peek ?_)
      simp only [Token.first_cons, ht]
      exact .bind (.advance (by rw [ht]; decide)) (.bind (.expect _ hsemi (by decide)) .pure)

theorem completeStmt_result {t : Token} {v : Option Expr} (hv : ∀ e, v = some e → Complete e)
    (hw : (Stmt.result t v).WellFormed) : CompleteStmt (.result t v) := by
  obtain ⟨ht, hwv⟩ := hw
  refine completeStmt_of_statement (fun h => ?_) fun h _ => ?_
  · cases h
    rw [Token.first_cons, ht]
    rfl
  · cases h with
    | result h hsemi =>
      refine .of_succ (.bind .peek ?_)
      simp only [Token.first_cons, ht]
      refine .bind (.advance (by rw [ht]; decide)) ?_
      refine .bind (unlessAt_complete hv hwv (by decide) hsemi h) ?_
      exact .bind (.expect _ hsemi (by decide)) .pure

theorem completeStmt_function {d : Function} (hd : CompleteFunction d) (hw : d.WellFormed) :
    CompleteStmt (.function d) := by
  refine completeStmt_of_declaration rfl fun h => ?_
  cases h with
  | function hword h =>
    have hread : Yields (fun n => function n .function) _ d _ := hd h
    cases h with
    | mk h =>
      refine .of_succ (.bind .peek ?_)
      simp only [Token.first_cons, hword]
      refine .bind peekSecond_yields (.ite_pos hw.1 ?_)
      exact .bind (.advance (by rw [hword]; decide)) (.bind hread .pure)

theorem completeStmt_classDecl {pos : Position} {t : Token} {fs : List Field} {ms : List Function}
    (hfs : ∀ d ∈ fs, Complete d.value) (hms : ∀ d ∈ ms, CompleteFunction d)
    (hw : (Stmt.classDecl pos t fs ms).WellFormed) : CompleteStmt (.classDecl pos t fs ms) := by
  obtain ⟨ht, hwfs, hwms⟩ := hw
  refine completeStmt_of_declaration rfl fun h => ?_
  cases h with
  | classDecl hword hbrace h hlast =>
    refine .of_succ (.bind .peek ?_)
    simp only [Token.first_cons, hword]
    refine .of_succ (.bind (.advance (by rw [hword]; decide)) ?_)
    refine .bind (.expect _ ht (by decide)) (.bind (.expect _ hbrace (by decide)) ?_)
    refine .bind (members_complete hfs hms hwfs hwms h hlast) ?_
    exact .bind (.expect _ hlast (by decide)) .pure

/-! ## All of them together -/

mutual

theorem complete : ∀ e : Expr, e.WellFormed → Complete e
  | .literal _ _, hw => complete_literal hw
  | .group _ _ e, hw => complete_group (complete e hw.2) hw
  | .unary _ _ _ e, hw => complete_unary (complete e hw.2.1) hw
  | .binary _ _ _ l r, hw => complete_binary (complete l hw.2.1.1) (complete r hw.2.2.1) hw
  | .logical _ _ _ l r, hw => complete_logical (complete l hw.2.1.1) (complete r hw.2.2.1) hw
  | .ternary _ _ c y n, hw =>
    complete_ternary (complete c hw.2.1.1) (complete y hw.2.2.1) (complete n hw.2.2.2.1) hw
  | .ident _ _, hw => complete_ident hw
  | .assign _ _ e, hw => complete_assign (complete e hw.2) hw
  | .compound _ _ _ _ e, hw => complete_compound (complete e hw.2.2) hw
  | .update _ _ _ _ _, hw => complete_update hw
  | .updateIndex _ o _ i _ _ _, hw =>
    complete_updateIndex (complete o hw.2.2.1.1) (complete i hw.2.2.2) hw
  | .updateGet _ o _ _ _ _, hw => complete_updateGet (complete o hw.2.2.1) hw
  | .call _ c _ args, hw => complete_call (complete c hw.2.1.1) (completeAll args hw.2.2.1) hw
  | .lambda _ _ _ body, hw => complete_lambda (completeStmts body hw.2.2) hw
  | .array _ _ es, hw => complete_array (completeAll es hw.2) hw
  | .index _ o _ i, hw => complete_index (complete o hw.2.1.1) (complete i hw.2.2) hw
  | .get _ o _, hw => complete_get (complete o hw.2.1) hw
  | .set _ o _ e, hw => complete_set (complete o hw.2.1.1) (complete e hw.2.2) hw
  | .this _ _, hw => complete_this hw

theorem completeAll : ∀ es : List Expr, Expr.WellFormedAll es → ∀ e ∈ es, Complete e
  | [], _ => nofun
  | e :: es, hw => List.forall_mem_cons.2 ⟨complete e hw.1, completeAll es hw.2⟩

theorem completeOpt : ∀ v : Option Expr, Expr.WellFormedOpt v → ∀ e, v = some e → Complete e
  | none, _ => nofun
  | some e, hw => fun _ h => Option.some.inj h ▸ complete e hw

theorem completeStmt : ∀ st : Stmt, st.WellFormed → CompleteStmt st
  | .expression _ e, hw => completeStmt_expression (complete e hw) hw
  | .print _ e, hw => completeStmt_print (complete e hw)
  | .declare _ _ v, hw => completeStmt_declare (completeOpt v hw.2) hw
  | .block _ body, hw => completeStmt_block (completeStmts body hw) hw
  | .branch _ c y n, hw =>
    completeStmt_branch (complete c hw.1) (completeStmt y hw.2.1.1) (completeElse n hw.2.2) hw
  | .loop _ c b, hw => completeStmt_loop (complete c hw.1) (completeStmt b hw.2.1) hw
  | .forLoop _ s c u b, hw =>
    completeStmt_forLoop (completeClause s hw.1) (completeOpt c hw.2.1) (completeOpt u hw.2.2.1)
      (completeStmt b hw.2.2.2.1) hw
  | .leave _, hw => completeStmt_leave hw
  | .skip _, hw => completeStmt_skip hw
  | .result _ v, hw => completeStmt_result (completeOpt v hw.2) hw
  | .function d, hw => completeStmt_function (completeFunction d hw) hw
  | .classDecl _ _ fs ms, hw =>
    completeStmt_classDecl (completeFields fs hw.2.1) (completeFunctions ms hw.2.2) hw

theorem completeStmts : ∀ ss : List Stmt, Stmt.WellFormedAll ss → ∀ st ∈ ss, CompleteStmt st
  | [], _ => nofun
  | st :: ss, hw => List.forall_mem_cons.2 ⟨completeStmt st hw.1, completeStmts ss hw.2⟩

theorem completeElse {taken : Bool} :
    ∀ no : Option Stmt, Stmt.WellFormedElse taken no → ∀ st, no = some st → CompleteStmt st
  | none, _ => nofun
  | some st, hw => fun _ h => Option.some.inj h ▸ completeStmt st hw.2.1

theorem completeClause :
    ∀ start : Option Stmt, Stmt.WellFormedClause start → ∀ st, start = some st → CompleteStmt st
  | none, _ => nofun
  | some st, hw => fun _ h => Option.some.inj h ▸ completeStmt st hw.2

theorem completeFunction : ∀ d : Function, d.WellFormed → CompleteFunction d
  | .mk _ _ body, hw => completeFunction_mk (completeStmts body hw.2.2) hw

theorem completeFunctions :
    ∀ ds : List Function, Function.WellFormedAll ds → ∀ d ∈ ds, CompleteFunction d
  | [], _ => nofun
  | d :: ds, hw => List.forall_mem_cons.2 ⟨completeFunction d hw.1, completeFunctions ds hw.2⟩

theorem completeFields :
    ∀ fs : List Field, Field.WellFormedAll fs → ∀ d ∈ fs, Complete d.value
  | [], _ => nofun
  | .mk _ e :: fs, hw => List.forall_mem_cons.2 ⟨complete e hw.1.2, completeFields fs hw.2⟩

end

/-- Reading statements and going on behind them is the same as going on with the statements in hand. -/
theorem program_of_reads {ss done : List Stmt} {c c' : Cursor} {fs : List Diagnostic}
    {r : EStateM.Result Stop State (List Stmt)} (hw : Stmt.WellFormedAll ss)
    (h : Stmt.ReadsAll ss c c') (hc' : (Token.first c'.1).kind ≠ .elseWord)
    (hrest : ∃ N, ∀ n, N ≤ n → program n (ss.reverse ++ done) ⟨c'.1, c'.2, fs⟩ = r) :
    ∃ N, ∀ n, N ≤ n → program n done ⟨c.1, c.2, fs⟩ = r := by
  induction ss generalizing done c with
  | nil =>
    cases h
    exact hrest
  | cons st ss ih =>
    cases h with
    | cons hs hss =>
      have helse := ne_else_of_readsAll hss hw.2 hc'
      obtain ⟨N, hN⟩ := ((completeStmt st hw.1).declaration hs fun _ => helse).recovering
      rw [List.reverse_cons, List.append_assoc] at hrest
      obtain ⟨M, hM⟩ := ih hw.2 hss hrest
      have hne : (Token.first c.1).kind ≠ .eof := by
        intro he
        have := starts_of_reads hs hw.1
        rw [he] at this
        cases this
      refine ⟨max N M + 1, fun n hn => ?_⟩
      obtain ⟨k, rfl⟩ : ∃ k, n = k + 1 := ⟨n - 1, by omega⟩
      show (if (Token.first c.1).kind = .eof then _ else _ : Parser (List Stmt)) _ = r
      rw [if_neg hne]
      show EStateM.bind (recovering (declaration k)) _ _ = r
      unfold EStateM.bind
      have hdecl : recovering (declaration k) ⟨c.1, c.2, fs⟩ = .ok (some st) ⟨_, _, fs⟩ :=
        hN k (by omega) fs
      rw [hdecl]
      exact hM k (by omega)

end Treewalk.Parser
