import Treewalk.Proofs.Parser.Fuel

/-!
# The parsers end

No parser puts tokens back or takes the end of input, none runs out of the fuel that `Parsed.fuelFor`
gives it, and the loop over declarations takes at least one token per round, also when it recovers from
a fault. Hence a token list is always read to its end (`program_ends`).

The proof gives each parser a height, the greatest number of calls from it that take no token. Fuel of
`40` per token and the height of the parser on top suffices, since all heights are at most `40`.
-/

namespace Treewalk.Parser

open Parse

variable {α β : Type}

/-- What is left of some tokens after taking tokens off the front, the end of input excepted. -/
def Within (rest ts : List Token) : Prop := ∃ used, ts = used ++ rest ∧ ∀ t ∈ used, t.kind ≠ .eof

namespace Within

variable {ts us vs : List Token} {t : Token}

theorem refl (ts : List Token) : Within ts ts := ⟨[], rfl, nofun⟩

theorem trans (h : Within us ts) (h' : Within vs us) : Within vs ts := by
  obtain ⟨u, rfl, hu⟩ := h
  obtain ⟨u', rfl, hu'⟩ := h'
  refine ⟨u ++ u', (List.append_assoc ..).symm, fun t ht => ?_⟩
  rcases List.mem_append.1 ht with ht | ht
  · exact hu t ht
  · exact hu' t ht

theorem cons (ht : t.kind ≠ .eof) (h : Within us ts) : Within us (t :: ts) := by
  obtain ⟨u, rfl, hu⟩ := h
  exact ⟨t :: u, rfl, List.forall_mem_cons.2 ⟨ht, hu⟩⟩

theorem length_le (h : Within us ts) : us.length ≤ ts.length := by
  obtain ⟨u, rfl, -⟩ := h
  rw [List.length_append]
  omega

theorem of_cons (h : Within us (t :: ts)) : us = t :: ts ∨ Within us ts := by
  obtain ⟨_ | ⟨t', u⟩, heq, hu⟩ := h
  · exact .inl heq.symm
  · obtain ⟨rfl, rfl⟩ := List.cons.inj heq
    exact .inr ⟨u, rfl, fun x hx => hu x (List.mem_cons_of_mem _ hx)⟩

end Within

/-- `s'` comes behind `s`: tokens were taken off the front only, and identities were given out only. -/
structure Onward (s s' : State) : Prop where
  rest : Within s'.rest s.rest
  nextId : s.nextId ≤ s'.nextId

namespace Onward

variable {s s' s'' : State}

theorem refl (s : State) : Onward s s := ⟨.refl _, Nat.le_refl _⟩

theorem trans (h : Onward s s') (h' : Onward s' s'') : Onward s s'' :=
  ⟨h.rest.trans h'.rest, Nat.le_trans h.nextId h'.nextId⟩

theorem length_le (h : Onward s s') : s'.rest.length ≤ s.rest.length := h.rest.length_le

end Onward

/-- From `s`, `p` does not run out of fuel, only goes onward, and gives a result that satisfies `Q`, if
any. -/
def Ends (p : Parser α) (s : State) (Q : α → State → Prop) : Prop :=
  match p s with
  | .ok a s' => Onward s s' ∧ Q a s'
  | .error (.fault _) s' => Onward s s'
  | .error .outOfFuel _ => False

/-- At least one token was taken since `s`. -/
def Shorter (s : State) (_ : α) (s' : State) : Prop := s'.rest.length < s.rest.length

/-- Nothing is said about the result. -/
def Anything (_ : α) (_ : State) : Prop := True

namespace Ends

variable {p : Parser α} {f : α → Parser β} {s : State} {Q R : α → State → Prop}
  {P : β → State → Prop}

theorem bind (hp : Ends p s Q) (hf : ∀ a s', s'.rest.length ≤ s.rest.length → Q a s' →
    Ends (f a) s' P) : Ends (p >>= f) s P := by
  unfold Ends at hp
  show match EStateM.bind p f s with
    | .ok a s' => Onward s s' ∧ P a s'
    | .error (.fault _) s' => Onward s s'
    | .error .outOfFuel _ => False
  unfold EStateM.bind
  cases h : p s with
  | ok a s' =>
    rw [h] at hp
    obtain ⟨hs, hq⟩ := hp
    have hfa := hf a s' hs.length_le hq
    unfold Ends at hfa
    show match f a s' with
      | .ok a s'' => Onward s s'' ∧ P a s''
      | .error (.fault _) s'' => Onward s s''
      | .error .outOfFuel _ => False
    cases h' : f a s' with
    | ok b s'' =>
      rw [h'] at hfa
      exact ⟨hs.trans hfa.1, hfa.2⟩
    | error e s'' =>
      rw [h'] at hfa
      cases e with
      | fault d => exact hs.trans hfa
      | outOfFuel => exact hfa
  | error e s' =>
    rw [h] at hp
    cases e with
    | fault d => exact hp
    | outOfFuel => exact hp

theorem mono (hp : Ends p s Q) (h : ∀ a s', s'.rest.length ≤ s.rest.length → Q a s' → R a s') :
    Ends p s R := by
  unfold Ends at hp ⊢
  cases hps : p s with
  | ok a s' =>
    rw [hps] at hp
    exact ⟨hp.1, h a s' hp.1.length_le hp.2⟩
  | error e s' =>
    rw [hps] at hp
    cases e with
    | fault d => exact hp
    | outOfFuel => exact hp

theorem anything (hp : Ends p s Q) : Ends p s Anything := hp.mono fun _ _ _ _ => trivial

theorem pure {a : α} (h : Q a s) : Ends (Pure.pure a) s Q := ⟨.refl _, h⟩

theorem ite {c : Prop} [Decidable c] {q : Parser α} (hp : c → Ends p s Q) (hq : ¬c → Ends q s Q) :
    Ends (if c then p else q) s Q := by
  split
  · exact hp ‹_›
  · exact hq ‹_›

/-! ## The steps that parsers are built from -/

theorem peek : Ends peek s fun t s' => s' = s ∧ t = s.rest.headD { kind := .eof } :=
  ⟨.refl _, rfl, rfl⟩

theorem peekSecond : Ends peekSecond s fun _ s' => s' = s := by
  unfold Ends Parser.peekSecond
  rcases s with ⟨_ | ⟨t, _ | ⟨t', rest⟩⟩, n, fs⟩ <;> exact ⟨.refl _, rfl⟩

theorem advance : Ends advance s Anything := by
  unfold Ends Parser.advance
  rcases s with ⟨_ | ⟨t, rest⟩, n, fs⟩
  · exact ⟨.refl _, trivial⟩
  · by_cases ht : t.kind = .eof
    · simp only [ht, if_true]
      exact ⟨.refl _, trivial⟩
    · simp only [ht, if_false]
      exact ⟨⟨.cons ht (.refl _), Nat.le_refl _⟩, trivial⟩

theorem advance_of_ne (h : (s.rest.headD { kind := .eof }).kind ≠ .eof) :
    Ends Parser.advance s (Shorter s) := by
  unfold Ends Parser.advance
  rcases s with ⟨_ | ⟨t, rest⟩, n, fs⟩
  · exact absurd rfl h
  · have ht : t.kind ≠ .eof := h
    simp only [ht, if_false]
    exact ⟨⟨.cons ht (.refl _), Nat.le_refl _⟩, Nat.lt_succ_self _⟩

theorem freshId : Ends freshId s fun _ s' => s'.rest = s.rest :=
  ⟨⟨.refl _, Nat.le_succ _⟩, rfl⟩

theorem record (d : Diagnostic) : Ends (record d) s fun _ s' => s'.rest = s.rest :=
  ⟨⟨.refl _, Nat.le_refl _⟩, rfl⟩

theorem failExpected (what : Bytes) : Ends (failExpected (α := α) what) s Q :=
  Onward.refl s

theorem expect {kind : Token.Kind} (hk : kind ≠ .eof) (what : Bytes) :
    Ends (expect kind what) s (Shorter s) := by
  refine peek.bind fun t s' _ ⟨hs, ht⟩ => ite (fun h => ?_) fun _ => failExpected what
  rw [hs]
  refine advance_of_ne ?_
  rw [← ht, h]
  exact hk

theorem accept {kind : Token.Kind} (hk : kind ≠ .eof) :
    Ends (accept kind) s fun b s' => b = true → s'.rest.length < s.rest.length := by
  refine peek.bind fun t s' _ ⟨hs, ht⟩ => ite (fun h => ?_) fun _ => pure (by simp)
  rw [hs]
  refine (advance_of_ne ?_).bind fun _ s'' _ h'' => pure fun _ => h''
  rw [← ht, h]
  exact hk

theorem checkRoom (taken : Nat) (what : Bytes) :
    Ends (checkRoom taken what) s fun _ s' => s'.rest = s.rest := by
  unfold Parser.checkRoom
  exact ite (fun _ => peek.bind fun _ _ _ ⟨hs, _⟩ => hs ▸ record _) fun _ => pure rfl

theorem checkArguments (closing : Token.Kind) (taken : Nat) :
    Ends (checkArguments closing taken) s fun _ s' => s'.rest = s.rest :=
  ite (fun _ => checkRoom _ _) fun _ => pure rfl

theorem unlessAt {kind : Token.Kind} (hp : Ends p s Q) : Ends (unlessAt kind p) s Anything :=
  peek.bind fun _ _ _ ⟨hs, _⟩ =>
    ite (fun _ => pure trivial) fun _ => hs ▸ hp.bind fun _ _ _ _ => pure trivial

theorem ifAfter {kind : Token.Kind} (hk : kind ≠ .eof)
    (hp : ∀ s', s'.rest.length < s.rest.length → Ends p s' Q) : Ends (ifAfter kind p) s Anything :=
  (accept hk).bind fun _ s' _ hs =>
    ite (fun h => (hp s' (hs h)).bind fun _ _ _ _ => pure trivial) fun _ => pure trivial

theorem assignTo (target : Expr) (sign : Token) (value : Expr) :
    Ends (assignTo target sign value) s fun _ s' => s'.rest = s.rest := by
  unfold Parser.assignTo
  split
  · exact freshId.bind fun _ _ _ h => pure h
  · exact freshId.bind fun _ _ _ h => pure h
  · exact (record _).bind fun _ _ _ h => pure h

theorem compoundTo (target : Expr) (op : ArithOp) (sign : Token) (value : Expr) :
    Ends (compoundTo target op sign value) s fun _ s' => s'.rest = s.rest := by
  unfold Parser.compoundTo
  split
  · exact freshId.bind fun _ _ _ h => pure h
  · exact (record _).bind fun _ _ _ h => pure h

theorem stepOf (target : Expr) (op : StepOp) (token : Token) (before : Bool) :
    Ends (stepOf target op token before) s fun _ s' => s'.rest = s.rest := by
  unfold Parser.stepOf
  split
  · exact freshId.bind fun _ _ _ h => pure h
  · exact freshId.bind fun _ _ _ h => pure h
  · exact freshId.bind fun _ _ _ h => pure h
  · exact (record _).bind fun _ _ _ h => pure h

end Ends

/-! ## Recovery -/

theorem dropToBoundary_within (before : Token.Kind) (ts : List Token) :
    Within (dropToBoundary before ts) ts := by
  induction ts generalizing before with
  | nil => exact .refl _
  | cons t rest ih =>
    unfold dropToBoundary
    split
    · exact .refl _
    · rename_i h
      refine .cons ?_ (ih t.kind)
      intro he
      simp [he] at h

theorem resume_within (ts : List Token) : Within (resume ts) ts := by
  cases ts with
  | nil => exact .refl _
  | cons t rest =>
    simp only [resume]
    split
    · exact .refl _
    · exact .cons ‹_› (dropToBoundary_within _ _)

/-- Recovery takes a token unless the input is at its end. -/
theorem resume_length_lt {t : Token} {rest ts : List Token} (ht : t.kind ≠ .eof)
    (hs : Within ts (t :: rest)) : (resume ts).length < (t :: rest).length := by
  rcases hs.of_cons with rfl | h
  · simp only [resume, if_neg ht]
    have := (dropToBoundary_within t.kind rest).length_le
    rw [List.length_cons]
    omega
  · have h₁ := (resume_within ts).length_le
    have h₂ := h.length_le
    simp only [List.length_cons]
    omega

theorem Ends.recovering {p : Parser Stmt} {s : State}
    (hs : (s.rest.headD { kind := .eof }).kind ≠ .eof) (hp : Ends p s (Shorter s)) :
    Ends (Parser.recovering p) s (Shorter s) := by
  unfold Ends at hp
  unfold Ends Parser.recovering
  cases h : p s with
  | ok a s' =>
    rw [h] at hp
    exact hp
  | error e s' =>
    rw [h] at hp
    cases e with
    | outOfFuel => exact hp
    | fault d =>
      obtain ⟨t, rest, hr⟩ : ∃ t rest, s.rest = t :: rest := by
        cases hr : s.rest with
        | nil => simp [hr] at hs
        | cons t rest => exact ⟨t, rest, rfl⟩
      refine ⟨⟨hp.rest.trans (resume_within _), hp.nextId⟩, ?_⟩
      show (resume s'.rest).length < s.rest.length
      have hrest := hp.rest
      rw [hr] at hrest hs ⊢
      exact resume_length_lt hs hrest

/-! ## Heights -/

/-- How many levels are tighter than a level. -/
def Level.height : Level → Nat
  | .or => 5
  | .and => 4
  | .equality => 3
  | .comparison => 2
  | .term => 1
  | .factor => 0

theorem Level.height_of_tighter {l t : Level} (h : l.tighter = some t) :
    l.height = t.height + 1 := by
  cases l <;> simp only [Level.tighter, Option.some.injEq, reduceCtorEq] at h <;> subst h <;> rfl

theorem Level.height_le (l : Level) : l.height ≤ 5 := by
  cases l <;> decide

/-- With fuel `n`, each parser ends from every state whose tokens leave it its height. -/
structure EndsAt (n : Nat) : Prop where
  expression : ∀ s, 40 * s.rest.length + 16 ≤ n → Ends (expression n) s (Shorter s)
  ternary : ∀ s, 40 * s.rest.length + 15 ≤ n → Ends (ternary n) s (Shorter s)
  chain : ∀ level s, 40 * s.rest.length + (2 * level.height + 4) ≤ n →
    Ends (chain n level) s (Shorter s)
  chainRest : ∀ level left s, 40 * s.rest.length + 1 ≤ n → Ends (chainRest n level left) s Anything
  operand : ∀ level s, 40 * s.rest.length + (2 * level.height + 3) ≤ n →
    Ends (operand n level) s (Shorter s)
  unary : ∀ s, 40 * s.rest.length + 2 ≤ n → Ends (unary n) s (Shorter s)
  callRest : ∀ inner s, 40 * s.rest.length + 1 ≤ n → Ends (callRest n inner) s Anything
  arguments : ∀ closing s, 40 * s.rest.length + 18 ≤ n → Ends (arguments n closing) s Anything
  argumentsFrom : ∀ closing done taken s, 40 * s.rest.length + 17 ≤ n →
    Ends (argumentsFrom n closing done taken) s Anything
  primary : ∀ s, 40 * s.rest.length + 1 ≤ n → Ends (primary n) s (Shorter s)
  parameterNames : ∀ done taken s, 40 * s.rest.length + 1 ≤ n →
    Ends (parameterNames done taken n) s Anything
  functionTail : ∀ callee s, 40 * s.rest.length + 1 ≤ n → Ends (functionTail n callee) s (Shorter s)
  function : ∀ callee s, 40 * s.rest.length + 1 ≤ n → Ends (function n callee) s (Shorter s)
  block : ∀ s, 40 * s.rest.length + 1 ≤ n → Ends (block n) s (Shorter s)
  blockBody : ∀ done s, 40 * s.rest.length + 20 ≤ n → Ends (blockBody n done) s Anything
  declaration : ∀ s, 40 * s.rest.length + 19 ≤ n → Ends (declaration n) s (Shorter s)
  classDecl : ∀ s, 40 * s.rest.length + 1 ≤ n → Ends (classDecl n) s (Shorter s)
  members : ∀ fields methods s, 40 * s.rest.length + 2 ≤ n →
    Ends (members n fields methods) s Anything
  variableDecl : ∀ s, 40 * s.rest.length + 1 ≤ n → Ends (variableDecl n) s (Shorter s)
  statement : ∀ s, 40 * s.rest.length + 18 ≤ n → Ends (statement n) s (Shorter s)
  branch : ∀ s, 40 * s.rest.length + 1 ≤ n → Ends (branch n) s (Shorter s)
  forLoop : ∀ s, 40 * s.rest.length + 1 ≤ n → Ends (forLoop n) s (Shorter s)
  expressionStmt : ∀ s, 40 * s.rest.length + 17 ≤ n → Ends (expressionStmt n) s (Shorter s)
  program : ∀ done s, 40 * s.rest.length + 20 ≤ n → Ends (program n done) s Anything

/-- The state after `peek` is the one before it. -/
theorem Ends.peeked {f : Token → Parser β} {s : State} {P : β → State → Prop}
    (h : Ends (f (s.rest.headD { kind := .eof })) s P) : Ends (Parser.peek >>= f) s P :=
  Ends.peek.bind fun _ _ _ ⟨hs, ht⟩ => by rw [hs, ht]; exact h

section Step

variable {n : Nat} (ih : EndsAt n)

include ih

theorem expression_ends (s : State) (hn : 40 * s.rest.length + 16 ≤ n + 1) :
    Ends (expression (n + 1)) s (Shorter s) := by
  refine (ih.ternary s (by omega)).bind fun target s₁ _ h₁ => .peeked ?_
  unfold Shorter at h₁
  refine .ite (fun _ => ?_) fun _ => ?_
  · refine Ends.advance.bind fun _ s₂ _ _ => (ih.expression s₂ (by omega)).bind fun _ s₃ _ _ => ?_
    exact (Ends.assignTo _ _ _).mono fun _ s₄ _ _ => by unfold Shorter; omega
  · split
    · refine Ends.advance.bind fun _ s₂ _ _ => (ih.expression s₂ (by omega)).bind fun _ s₃ _ _ => ?_
      exact (Ends.compoundTo _ _ _ _).mono fun _ s₄ _ _ => by unfold Shorter; omega
    · exact .pure h₁

theorem ternary_ends (s : State) (hn : 40 * s.rest.length + 15 ≤ n + 1) :
    Ends (ternary (n + 1)) s (Shorter s) := by
  refine (ih.chain .or s (by simp only [Level.height]; omega)).bind fun cond s₁ _ h₁ => .peeked ?_
  unfold Shorter at h₁
  refine .ite (fun _ => ?_) fun _ => .pure h₁
  refine Ends.advance.bind fun _ s₂ _ _ => (ih.expression s₂ (by omega)).bind fun yes s₃ _ _ => ?_
  refine (Ends.expect (by decide) _).bind fun _ s₄ _ h₄ => ?_
  refine (ih.ternary s₄ (by omega)).bind fun no s₅ _ _ => ?_
  exact Ends.freshId.bind fun _ s₆ _ _ => .pure (by unfold Shorter; omega)

theorem chain_ends (level : Level) (s : State)
    (hn : 40 * s.rest.length + (2 * level.height + 4) ≤ n + 1) :
    Ends (chain (n + 1) level) s (Shorter s) := by
  refine (ih.operand level s (by omega)).bind fun left s₁ _ h₁ => ?_
  unfold Shorter at h₁
  exact (ih.chainRest level left s₁ (by omega)).mono fun _ s₂ _ _ => by unfold Shorter; omega

theorem chainRest_ends (level : Level) (left : Expr) (s : State) (hn : 40 * s.rest.length + 1 ≤ n + 1) :
    Ends (chainRest (n + 1) level left) s Anything := by
  refine .peeked ?_
  split
  · exact .pure trivial
  next joint hj =>
    have hne : (s.rest.headD { kind := .eof }).kind ≠ .eof := by
      intro h
      rw [h] at hj
      cases level <;> simp [Level.joint?] at hj
    refine (Ends.advance_of_ne hne).bind fun _ s₁ _ h₁ => ?_
    unfold Shorter at h₁
    have := level.height_le
    refine (ih.operand level s₁ (by omega)).bind fun right s₂ _ _ => ?_
    refine Ends.freshId.bind fun id s₃ _ _ => ih.chainRest level _ s₃ (by omega)

theorem operand_ends (level : Level) (s : State)
    (hn : 40 * s.rest.length + (2 * level.height + 3) ≤ n + 1) :
    Ends (operand (n + 1) level) s (Shorter s) := by
  rw [operand]
  split
  next t ht =>
    have := Level.height_of_tighter ht
    exact ih.chain t s (by omega)
  · exact ih.unary s (by omega)

theorem unary_ends (s : State) (hn : 40 * s.rest.length + 2 ≤ n + 1) :
    Ends (unary (n + 1)) s (Shorter s) := by
  refine .peeked ?_
  split
  next op _ hop =>
    have hne : (s.rest.headD { kind := .eof }).kind ≠ .eof := fun h => by
      rw [h] at hop
      cases hop
    refine (Ends.advance_of_ne hne).bind fun _ s₁ _ h₁ => ?_
    unfold Shorter at h₁
    refine (ih.unary s₁ (by omega)).bind fun _ s₂ _ _ => ?_
    exact Ends.freshId.bind fun _ s₃ _ _ => .pure (by unfold Shorter; omega)
  next op _ hop =>
    have hne : (s.rest.headD { kind := .eof }).kind ≠ .eof := fun h => by
      rw [h] at hop
      cases hop
    refine (Ends.advance_of_ne hne).bind fun _ s₁ _ h₁ => ?_
    unfold Shorter at h₁
    refine (ih.unary s₁ (by omega)).bind fun _ s₂ _ _ => ?_
    exact (Ends.stepOf _ _ _ _).mono fun _ s₃ _ _ => by unfold Shorter; omega
  · refine (ih.primary s (by omega)).bind fun inner s₁ _ h₁ => ?_
    unfold Shorter at h₁
    exact (ih.callRest inner s₁ (by omega)).mono fun _ s₂ _ _ => by unfold Shorter; omega

theorem callRest_ends (inner : Expr) (s : State) (hn : 40 * s.rest.length + 1 ≤ n + 1) :
    Ends (callRest (n + 1) inner) s Anything := by
  refine .peeked ?_
  split
  next h =>
    refine (Ends.advance_of_ne (by rw [h]; decide)).bind fun _ s₁ _ h₁ => ?_
    unfold Shorter at h₁
    refine (ih.arguments _ s₁ (by omega)).bind fun args s₂ _ _ => ?_
    refine (Ends.expect (by decide) _).bind fun paren s₃ _ h₃ => ?_
    exact Ends.freshId.bind fun id s₄ _ _ => ih.callRest _ s₄ (by omega)
  next h =>
    refine (Ends.advance_of_ne (by rw [h]; decide)).bind fun _ s₁ _ h₁ => ?_
    unfold Shorter at h₁
    refine (Ends.expect (by decide) _).bind fun name s₂ _ h₂ => ?_
    exact Ends.freshId.bind fun id s₃ _ _ => ih.callRest _ s₃ (by omega)
  next h =>
    refine (Ends.advance_of_ne (by rw [h]; decide)).bind fun _ s₁ _ h₁ => ?_
    unfold Shorter at h₁
    refine (ih.expression s₁ (by omega)).bind fun index s₂ _ _ => ?_
    refine (Ends.expect (by decide) _).bind fun _ s₃ _ h₃ => ?_
    exact Ends.freshId.bind fun id s₄ _ _ => ih.callRest _ s₄ (by omega)
  · split
    · exact Ends.advance.bind fun _ s₁ _ _ => (Ends.stepOf _ _ _ _).anything
    · exact .pure trivial

theorem arguments_ends (closing : Token.Kind) (s : State) (hn : 40 * s.rest.length + 18 ≤ n + 1) :
    Ends (arguments (n + 1) closing) s Anything :=
  .peeked (.ite (fun _ => .pure trivial) fun _ => ih.argumentsFrom closing [] 0 s (by omega))

theorem argumentsFrom_ends (closing : Token.Kind) (done : List Expr) (taken : Nat) (s : State)
    (hn : 40 * s.rest.length + 17 ≤ n + 1) :
    Ends (argumentsFrom (n + 1) closing done taken) s Anything := by
  refine (Ends.checkArguments _ _).bind fun _ s₁ _ _ => ?_
  refine (ih.expression s₁ (by omega)).bind fun e s₂ _ h₂ => ?_
  unfold Shorter at h₂
  refine (Ends.accept (by decide)).bind fun b s₃ _ _ => ?_
  exact .ite (fun _ => ih.argumentsFrom _ _ _ s₃ (by omega)) fun _ => .pure trivial

theorem primary_ends (s : State) (hn : 40 * s.rest.length + 1 ≤ n + 1) :
    Ends (primary (n + 1)) s (Shorter s) := by
  have leaf : ∀ (make : NodeId → Expr), (s.rest.headD { kind := .eof }).kind ≠ .eof →
      Ends (Parser.advance >>= fun _ => Parser.freshId >>= fun id => pure (make id)) s (Shorter s) := by
    intro make h
    refine (Ends.advance_of_ne h).bind fun _ s₁ _ h₁ => Ends.freshId.bind fun id s₂ _ _ => .pure ?_
    unfold Shorter at h₁ ⊢
    omega
  refine .peeked ?_
  split
  next h => exact leaf _ (by rw [h]; decide)
  next h => exact leaf _ (by rw [h]; decide)
  next h => exact leaf _ (by rw [h]; decide)
  next h => exact leaf _ (by rw [h]; decide)
  next h => exact leaf _ (by rw [h]; decide)
  next h => exact leaf _ (by rw [h]; decide)
  next h => exact leaf _ (by rw [h]; decide)
  next h =>
    refine (Ends.advance_of_ne (by rw [h]; decide)).bind fun _ s₁ _ h₁ => ?_
    unfold Shorter at h₁
    refine (ih.expression s₁ (by omega)).bind fun inner s₂ _ _ => ?_
    refine (Ends.expect (by decide) _).bind fun _ s₃ _ _ => ?_
    exact Ends.freshId.bind fun _ s₄ _ _ => .pure (by unfold Shorter; omega)
  next h =>
    refine (Ends.advance_of_ne (by rw [h]; decide)).bind fun _ s₁ _ h₁ => ?_
    unfold Shorter at h₁
    refine (ih.arguments _ s₁ (by omega)).bind fun elements s₂ _ _ => ?_
    refine (Ends.expect (by decide) _).bind fun _ s₃ _ _ => ?_
    exact Ends.freshId.bind fun _ s₄ _ _ => .pure (by unfold Shorter; omega)
  next h =>
    refine (Ends.advance_of_ne (by rw [h]; decide)).bind fun _ s₁ _ h₁ => ?_
    unfold Shorter at h₁
    refine (ih.functionTail _ s₁ (by omega)).bind fun tail s₂ _ _ => ?_
    exact Ends.freshId.bind fun _ s₃ _ _ => .pure (by unfold Shorter; omega)
  · exact .failExpected _

theorem parameterNames_ends (done : List Token) (taken : Nat) (s : State)
    (hn : 40 * s.rest.length + 1 ≤ n + 1) :
    Ends (parameterNames done taken (n + 1)) s Anything := by
  refine (Ends.checkRoom _ _).bind fun _ s₁ _ _ => ?_
  refine (Ends.expect (by decide) _).bind fun name s₂ _ h₂ => ?_
  unfold Shorter at h₂
  refine (Ends.accept (by decide)).bind fun b s₃ _ _ => ?_
  exact .ite (fun _ => ih.parameterNames _ _ s₃ (by omega)) fun _ => .pure trivial

theorem functionTail_ends (callee : Callee) (s : State) (hn : 40 * s.rest.length + 1 ≤ n + 1) :
    Ends (functionTail (n + 1) callee) s (Shorter s) := by
  refine (Ends.expect (by decide) _).bind fun _ s₁ _ h₁ => ?_
  unfold Shorter at h₁
  have hparams : Ends (parameters n) s₁ Anything :=
    .peeked (.ite (fun _ => .pure trivial) fun _ => ih.parameterNames _ _ s₁ (by omega))
  refine hparams.bind fun params s₂ _ _ => (Ends.expect (by decide) _).bind fun _ s₃ _ _ => ?_
  refine .peeked (.ite (fun _ => ?_) fun _ => .failExpected _)
  exact (ih.block s₃ (by omega)).bind fun _ s₄ _ _ => .pure (by unfold Shorter; omega)

theorem function_ends (callee : Callee) (s : State) (hn : 40 * s.rest.length + 1 ≤ n + 1) :
    Ends (function (n + 1) callee) s (Shorter s) := by
  refine (Ends.expect (by decide) _).bind fun name s₁ _ h₁ => ?_
  unfold Shorter at h₁
  exact (ih.functionTail callee s₁ (by omega)).bind fun _ s₂ _ _ => .pure (by unfold Shorter; omega)

theorem block_ends (s : State) (hn : 40 * s.rest.length + 1 ≤ n + 1) :
    Ends (block (n + 1)) s (Shorter s) := by
  refine (Ends.expect (by decide) _).bind fun brace s₁ _ h₁ => ?_
  unfold Shorter at h₁
  refine (ih.blockBody [] s₁ (by omega)).bind fun body s₂ _ _ => ?_
  exact (Ends.expect (by decide) _).bind fun _ s₃ _ _ => .pure (by unfold Shorter; omega)

theorem blockBody_ends (done : List Stmt) (s : State) (hn : 40 * s.rest.length + 20 ≤ n + 1) :
    Ends (blockBody (n + 1) done) s Anything := by
  refine .peeked (.ite (fun _ => .pure trivial) fun h => ?_)
  have hne : (s.rest.headD { kind := .eof }).kind ≠ .eof := fun h' => h (by rw [h']; decide)
  refine ((ih.declaration s (by omega)).recovering hne).bind fun found s₁ _ h₁ => ?_
  unfold Shorter at h₁
  split
  · exact ih.blockBody _ s₁ (by omega)
  · exact ih.blockBody _ s₁ (by omega)

theorem declaration_ends (s : State) (hn : 40 * s.rest.length + 19 ≤ n + 1) :
    Ends (declaration (n + 1)) s (Shorter s) := by
  refine .peeked ?_
  split
  · exact ih.classDecl s (by omega)
  · refine Ends.peekSecond.bind fun second s₁ _ hs => ?_
    rw [hs]
    refine .ite (fun _ => ?_) fun _ => ih.statement s (by omega)
    refine Ends.advance.bind fun _ s₂ _ _ => (ih.function _ s₂ (by omega)).bind fun _ s₃ _ h₃ => ?_
    exact .pure (by unfold Shorter at h₃ ⊢; omega)
  · exact ih.variableDecl s (by omega)
  · exact ih.statement s (by omega)

theorem classDecl_ends (s : State) (hn : 40 * s.rest.length + 1 ≤ n + 1) :
    Ends (classDecl (n + 1)) s (Shorter s) := by
  refine Ends.advance.bind fun keyword s₁ _ _ => (Ends.expect (by decide) _).bind fun name s₂ _ h₂ => ?_
  unfold Shorter at h₂
  refine (Ends.expect (by decide) _).bind fun _ s₃ _ _ => ?_
  refine (ih.members [] [] s₃ (by omega)).bind fun _ s₄ _ _ => ?_
  exact (Ends.expect (by decide) _).bind fun _ s₅ _ _ => .pure (by unfold Shorter; omega)

theorem members_ends (fields : List Field) (methods : List Function) (s : State)
    (hn : 40 * s.rest.length + 2 ≤ n + 1) : Ends (members (n + 1) fields methods) s Anything := by
  refine .peeked (.ite (fun _ => .pure trivial) fun h => ?_)
  refine Ends.peekSecond.bind fun second s₁ _ hs => ?_
  rw [hs]
  refine .ite (fun hfield => ?_) fun _ => ?_
  · have hid : (s.rest.headD { kind := .eof }).kind = .identifier := by
      simp only [Bool.and_eq_true, decide_eq_true_eq] at hfield
      exact hfield.1
    refine (Ends.advance_of_ne (by rw [hid]; decide)).bind fun _ s₂ _ h₂ => ?_
    unfold Shorter at h₂
    refine Ends.advance.bind fun _ s₃ _ _ => (ih.expression s₃ (by omega)).bind fun value s₄ _ _ => ?_
    exact (Ends.expect (by decide) _).bind fun _ s₅ _ _ => ih.members _ _ s₅ (by omega)
  · refine (ih.function _ s (by omega)).bind fun _ s₂ _ h₂ => ih.members _ _ s₂ ?_
    unfold Shorter at h₂
    omega

theorem variableDecl_ends (s : State) (hn : 40 * s.rest.length + 1 ≤ n + 1) :
    Ends (variableDecl (n + 1)) s (Shorter s) := by
  refine Ends.advance.bind fun keyword s₁ _ _ => (Ends.expect (by decide) _).bind fun name s₂ _ h₂ => ?_
  unfold Shorter at h₂
  have hvalue : Ends (ifAfter .assign (expression n)) s₂ Anything :=
    .ifAfter (by decide) fun s₃ h₃ => (ih.expression s₃ (by omega)).anything
  refine hvalue.bind fun value s₃ _ _ => ?_
  exact (Ends.expect (by decide) _).bind fun _ s₄ _ _ => .pure (by unfold Shorter; omega)

theorem expressionStmt_ends (s : State) (hn : 40 * s.rest.length + 17 ≤ n + 1) :
    Ends (expressionStmt (n + 1)) s (Shorter s) := by
  refine .peeked ((ih.expression s (by omega)).bind fun e s₁ _ h₁ => ?_)
  unfold Shorter at h₁
  exact (Ends.expect (by decide) _).bind fun _ s₂ _ _ => .pure (by unfold Shorter; omega)

theorem branch_ends (s : State) (hn : 40 * s.rest.length + 1 ≤ n + 1) :
    Ends (branch (n + 1)) s (Shorter s) := by
  refine Ends.advance.bind fun keyword s₁ _ _ => (Ends.expect (by decide) _).bind fun _ s₂ _ h₂ => ?_
  unfold Shorter at h₂
  refine (ih.expression s₂ (by omega)).bind fun cond s₃ _ _ => ?_
  refine (Ends.expect (by decide) _).bind fun _ s₄ _ _ => ?_
  refine (ih.statement s₄ (by omega)).bind fun yes s₅ _ _ => ?_
  have hno : Ends (ifAfter .elseWord (statement n)) s₅ Anything :=
    .ifAfter (by decide) fun s₆ h₆ => (ih.statement s₆ (by omega)).anything
  exact hno.bind fun no s₆ _ _ => .pure (by unfold Shorter; omega)

theorem forLoop_ends (s : State) (hn : 40 * s.rest.length + 1 ≤ n + 1) :
    Ends (forLoop (n + 1)) s (Shorter s) := by
  refine Ends.advance.bind fun keyword s₁ _ _ => (Ends.expect (by decide) _).bind fun _ s₂ _ h₂ => ?_
  unfold Shorter at h₂
  have hstart : Ends (startClause (variableDecl n) (expressionStmt n)) s₂ Anything := by
    refine (Ends.accept (by decide)).bind fun _ s₃ _ _ => .ite (fun _ => .pure trivial) fun _ => ?_
    refine .peeked (.ite (fun _ => ?_) fun _ => ?_)
    · exact (ih.variableDecl s₃ (by omega)).bind fun _ _ _ _ => .pure trivial
    · exact (ih.expressionStmt s₃ (by omega)).bind fun _ _ _ _ => .pure trivial
  refine hstart.bind fun start s₃ _ _ => ?_
  refine (ih.expression s₃ (by omega)).unlessAt.bind fun cond s₄ _ _ => ?_
  refine (Ends.expect (by decide) _).bind fun _ s₅ _ _ => ?_
  refine (ih.expression s₅ (by omega)).unlessAt.bind fun step s₆ _ _ => ?_
  refine (Ends.expect (by decide) _).bind fun _ s₇ _ _ => ?_
  exact (ih.statement s₇ (by omega)).bind fun body s₈ _ _ => .pure (by unfold Shorter; omega)

theorem statement_ends (s : State) (hn : 40 * s.rest.length + 18 ≤ n + 1) :
    Ends (statement (n + 1)) s (Shorter s) := by
  have keyword : ∀ (make : Token → Stmt) (what : Bytes), Ends (keywordStmt make what) s (Shorter s) := by
    intro make what
    refine Ends.advance.bind fun _ s₁ _ _ => (Ends.expect (by decide) _).bind fun _ s₂ _ h₂ => .pure ?_
    unfold Shorter at h₂ ⊢
    omega
  refine .peeked ?_
  split
  next h =>
    refine (Ends.advance_of_ne (by rw [h]; decide)).bind fun keyword s₁ _ h₁ => ?_
    unfold Shorter at h₁
    refine (ih.expression s₁ (by omega)).bind fun e s₂ _ _ => ?_
    exact (Ends.expect (by decide) _).bind fun _ s₃ _ _ => .pure (by unfold Shorter; omega)
  · refine (ih.block s (by omega)).bind fun _ s₁ _ h₁ => .pure ?_
    exact h₁
  · exact ih.branch s (by omega)
  · refine Ends.advance.bind fun keyword s₁ _ _ => (Ends.expect (by decide) _).bind fun _ s₂ _ h₂ => ?_
    unfold Shorter at h₂
    refine (ih.expression s₂ (by omega)).bind fun cond s₃ _ _ => ?_
    refine (Ends.expect (by decide) _).bind fun _ s₄ _ _ => ?_
    exact (ih.statement s₄ (by omega)).bind fun body s₅ _ _ => .pure (by unfold Shorter; omega)
  · exact ih.forLoop s (by omega)
  next h =>
    refine (Ends.advance_of_ne (by rw [h]; decide)).bind fun keyword s₁ _ h₁ => ?_
    unfold Shorter at h₁
    refine (ih.expression s₁ (by omega)).unlessAt.bind fun value s₂ _ _ => ?_
    exact (Ends.expect (by decide) _).bind fun _ s₃ _ _ => .pure (by unfold Shorter; omega)
  · exact keyword _ _
  · exact keyword _ _
  · exact ih.expressionStmt s (by omega)

theorem program_ends_succ (done : List Stmt) (s : State) (hn : 40 * s.rest.length + 20 ≤ n + 1) :
    Ends (program (n + 1) done) s Anything := by
  refine .peeked (.ite (fun _ => .pure trivial) fun hne => ?_)
  refine ((ih.declaration s (by omega)).recovering hne).bind fun found s₁ _ h₁ => ?_
  unfold Shorter at h₁
  split
  · exact ih.program _ s₁ (by omega)
  · exact ih.program _ s₁ (by omega)

end Step

theorem endsAt (n : Nat) : EndsAt n := by
  induction n with
  | zero => constructor <;> (intros; omega)
  | succ n ih =>
    exact {
      expression := expression_ends ih
      ternary := ternary_ends ih
      chain := chain_ends ih
      chainRest := chainRest_ends ih
      operand := operand_ends ih
      unary := unary_ends ih
      callRest := callRest_ends ih
      arguments := arguments_ends ih
      argumentsFrom := argumentsFrom_ends ih
      primary := primary_ends ih
      parameterNames := parameterNames_ends ih
      functionTail := functionTail_ends ih
      function := function_ends ih
      block := block_ends ih
      blockBody := blockBody_ends ih
      declaration := declaration_ends ih
      classDecl := classDecl_ends ih
      members := members_ends ih
      variableDecl := variableDecl_ends ih
      statement := statement_ends ih
      branch := branch_ends ih
      forLoop := forLoop_ends ih
      expressionStmt := expressionStmt_ends ih
      program := program_ends_succ ih }

/-- `p` never ends in a fault. -/
def Faultless (p : Parser α) : Prop := ∀ s s' d, p s ≠ .error (.fault d) s'

theorem Faultless.bind {p : Parser α} {f : α → Parser β} (hp : Faultless p)
    (hf : ∀ a, Faultless (f a)) : Faultless (p >>= f) := by
  intro s s' d
  show EStateM.bind p f s ≠ _
  unfold EStateM.bind
  cases h : p s with
  | ok a s₁ => exact hf a s₁ s' d
  | error e s₁ =>
    intro he
    cases he
    exact hp s s' d h

theorem faultless_recovering (p : Parser Stmt) : Faultless (recovering p) := by
  intro s s' d
  unfold recovering
  split <;> simp

/-- The loop over declarations catches every fault. -/
theorem faultless_program (n : Nat) (done : List Stmt) : Faultless (program n done) := by
  induction n generalizing done with
  | zero => exact fun s s' d h => by cases h
  | succ n ih =>
    have hpeek : Faultless peek := fun s s' d h => by cases h
    refine hpeek.bind fun t => ?_
    split
    · exact fun s s' d h => by cases h
    · refine (faultless_recovering _).bind fun found => ?_
      cases found with
      | some stmt => exact ih _
      | none => exact ih _

/-- The fuel for a token list is enough: the list is read to its end, which is not taken. -/
theorem program_ends (s : State) :
    ∃ stmts s', program (Parsed.fuelFor s.rest) [] s = .ok stmts s' ∧ Onward s s' := by
  have h := (endsAt (Parsed.fuelFor s.rest)).program [] s (by unfold Parsed.fuelFor; omega)
  unfold Ends at h
  cases hp : program (Parsed.fuelFor s.rest) [] s with
  | ok stmts s' =>
    rw [hp] at h
    exact ⟨stmts, s', rfl, h.1⟩
  | error e s' =>
    cases e with
    | fault d => exact absurd hp (faultless_program _ _ _ _ _)
    | outOfFuel =>
      rw [hp] at h
      exact h.elim

end Treewalk.Parser
