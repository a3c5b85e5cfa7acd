import Treewalk.Proofs.Parser.Exact
import Treewalk.Proofs.Token.Lines
import Treewalk.Session

/-!
# Tokens that stop early

Take tokens that are parsed without a fault, and cut them off somewhere. Up to the cut the parser does the
same. Behind it the parser sees the end of input only, takes no more tokens, and every fault that it finds is
found there, so that more text may mend it.

There is one exception (`RefusedStep`). The operand of a `++` or `--` before it is looked at as soon as it is
read. At the cut this is too early: `++f()` has no variable, element or property as its operand, but
`++f().x` has one.

**The relation** (`Truncates`). From tokens that go on behind the cut, a parser finds a result and no fault. Then
from the tokens up to the cut it finds the same result and leaves the same tokens, those behind the cut apart,
or it comes to the cut (`Ended`). What it does from there on is said apart (`EndsFrom`), since it does so
with results that it would not have found otherwise.

**Main theorem** (`needsMore_of_continued`). Lines that more text makes a program are a program themselves or
wait for more, exactly if no step is refused in them.
-/

namespace Treewalk

open Parse

/-- The fault of a step whose operand cannot be stepped. -/
def RefusedStep (d : Diagnostic) : Prop :=
  ∃ t : Token, (Parser.stepOp? t.kind).isSome = true ∧
    d = Parser.faultAt t .structural (text "invalid " ++ t.lexeme ++ text " operand")

/-- More text may mend the fault, or its step may yet get another operand. -/
def Mendable (d : Diagnostic) : Prop := d.incomplete = true ∨ RefusedStep d

namespace Parser

variable {α β : Type} {e : Token} {more : List Token}

/-! ## At the end -/

section

variable (e)

/-- The parser came to the end `e`, with mendable faults only. -/
def Ended : EStateM.Result Stop State α → Prop
  | .ok _ s => s.rest = [e] ∧ ∀ d ∈ s.faults, Mendable d
  | .error (.fault d) s => s.rest = [e] ∧ (∀ d ∈ s.faults, Mendable d) ∧ Mendable d
  | .error .outOfFuel _ => True

/-- With only these tokens before the end, the parser comes to the end. -/
def EndsFrom (ts : List Token) (p : Parser α) : Prop :=
  ∀ n faults, (∀ d ∈ faults, Mendable d) → Ended e (p ⟨ts ++ [e], n, faults⟩)

end

namespace EndsFrom

variable {ts : List Token} {p q : Parser α} {f : α → Parser β}

theorem bind (hp : EndsFrom e ts p) (hf : ∀ a, EndsFrom e [] (f a)) : EndsFrom e ts (p >>= f) := by
  intro n faults hfaults
  have hends := hp n faults hfaults
  simp only [Bind.bind, EStateM.bind]
  generalize p ⟨ts ++ [e], n, faults⟩ = r at hends ⊢
  match r, hends with
  | .ok a ⟨_, m, faults'⟩, ⟨rfl, hfaults'⟩ => exact hf a m faults' hfaults'
  | .error (.fault d) s, hends => exact hends
  | .error .outOfFuel s, _ => trivial

theorem pure (a : α) : EndsFrom e [] (Pure.pure a : Parser α) := fun _ _ h => ⟨rfl, h⟩

theorem outOfFuel : EndsFrom e ts (throw .outOfFuel : Parser α) := fun _ _ _ => trivial

theorem ite {c : Prop} [Decidable c] (hp : EndsFrom e ts p) (hq : EndsFrom e ts q) :
    EndsFrom e ts (if c then p else q) := by
  split
  · exact hp
  · exact hq

theorem peek (he : e.kind = .eof) {f : Token → Parser β} (hf : ∀ t : Token, t.kind = .eof → EndsFrom e [] (f t)) :
    EndsFrom e [] (Parser.peek >>= f) := fun n faults h => hf e he n faults h

theorem peek_cons {t : Token} {f : Token → Parser β} (hf : EndsFrom e (t :: ts) (f t)) :
    EndsFrom e (t :: ts) (Parser.peek >>= f) := fun n faults h => hf n faults h

theorem advance (he : e.kind = .eof) : EndsFrom e [] Parser.advance := by
  intro n faults h
  simp only [Parser.advance, List.nil_append, if_pos he]
  exact ⟨rfl, h⟩

theorem advance_cons {t : Token} (ht : t.kind ≠ .eof) : EndsFrom e [t] Parser.advance := by
  intro n faults h
  simp only [Parser.advance, List.cons_append, if_neg ht]
  exact ⟨rfl, h⟩

theorem expect_cons {t : Token} {kind : Token.Kind} (ht : t.kind = kind) (hkind : kind ≠ .eof) (what : Bytes) :
    EndsFrom e [t] (Parser.expect kind what) := by
  refine .peek_cons ?_
  rw [if_pos ht]
  exact .advance_cons (ht ▸ hkind)

theorem freshId : EndsFrom e [] Parser.freshId := fun _ _ h => ⟨rfl, h⟩

theorem record {d : Diagnostic} (hd : Mendable d) : EndsFrom e [] (Parser.record d) :=
  fun _ _ h => ⟨rfl, List.forall_mem_cons.2 ⟨hd, h⟩⟩

theorem failExpected (he : e.kind = .eof) (what : Bytes) : EndsFrom e [] (Parser.failExpected what : Parser α) :=
  fun _ _ h => ⟨rfl, h, .inl (decide_eq_true he)⟩

end EndsFrom

/-! ## Up to the cut -/

section

variable (e) (more)

/-- A result without faults comes from a state without faults, since faults are only added. -/
def Grows (p : Parser α) : Prop := ∀ ⦃s a s'⦄, p s = .ok a s' → s'.faults = [] → s.faults = []

/-- What a parser does with these tokens and more, it does up to the cut, or it comes to the cut. -/
def CutsAt (ts : List Token) (p : Parser α) : Prop :=
  ∀ ⦃n a s'⦄, p ⟨ts ++ more, n, []⟩ = .ok a s' → s'.faults = [] →
    (∃ us m, (∀ t ∈ us, t.kind ≠ .eof) ∧ s' = ⟨us ++ more, m, []⟩ ∧
      p ⟨ts ++ [e], n, []⟩ = .ok a ⟨us ++ [e], m, []⟩) ∨ Ended e (p ⟨ts ++ [e], n, []⟩)

/-- What a parser does with tokens that go on, it does up to the cut, or it comes to the cut. -/
structure Cuts (p : Parser α) : Prop where
  grows : Grows p
  cut : ∀ {ts}, (∀ t ∈ ts, t.kind ≠ .eof) → CutsAt e more ts p

/-- The parser does the same up to a cut, and comes to the end from there. -/
structure Truncates (p : Parser α) : Prop extends Cuts e more p where
  ends : EndsFrom e [] p

end

namespace Cuts

variable {p q : Parser α} {f : α → Parser β}

/-- If the parts part at the cut, then the second one is run with another result. That it still comes to the
end is known only if it can find a result without a fault at all. -/
theorem bind_of (hp : Cuts e more p) (hf : ∀ a, Cuts e more (f a))
    (hends : ∀ a b s c s', f b s = .ok c s' → s'.faults = [] → EndsFrom e [] (f a)) :
    Cuts e more (p >>= f) := by
  constructor
  · intro s c s'' hrun hfaults
    simp only [Bind.bind, EStateM.bind] at hrun
    cases hps : p s with
    | ok a s' =>
      rw [hps] at hrun
      exact hp.grows hps ((hf a).grows hrun hfaults)
    | error d s' =>
      rw [hps] at hrun
      cases hrun
  · intro ts hts n c s'' hrun hfaults
    simp only [Bind.bind, EStateM.bind] at hrun ⊢
    cases hps : p ⟨ts ++ more, n, []⟩ with
    | error d s' =>
      rw [hps] at hrun
      cases hrun
    | ok b s' =>
      rw [hps] at hrun
      rcases hp.cut hts hps ((hf b).grows hrun hfaults) with ⟨us, m, hus, rfl, hshort⟩ | hended
      · rw [hshort]
        exact (hf b).cut hus hrun hfaults
      · right
        generalize p ⟨ts ++ [e], n, []⟩ = r at hended ⊢
        match r, hended with
        | .ok a ⟨_, m, faults⟩, ⟨rfl, hsoft⟩ => exact hends a b _ _ _ hrun hfaults m faults hsoft
        | .error (.fault d) s, hended => exact hended
        | .error .outOfFuel s, _ => trivial

theorem bind (hp : Cuts e more p) (hf : ∀ a, Truncates e more (f a)) : Cuts e more (p >>= f) :=
  hp.bind_of (fun a => (hf a).toCuts) fun a _ _ _ _ _ _ => (hf a).ends

theorem ite {c : Prop} [Decidable c] (hp : Cuts e more p) (hq : Cuts e more q) :
    Cuts e more (if c then p else q) := by
  split
  · exact hp
  · exact hq

/-- A parser that always adds a fault. -/
theorem of_faulty (h : ∀ s a s', p s = .ok a s' → s'.faults ≠ []) : Cuts e more p :=
  ⟨fun _ _ _ hrun hfaults => absurd hfaults (h _ _ _ hrun), fun _ _ _ _ hrun hfaults => absurd hfaults (h _ _ _ hrun)⟩

theorem record (d : Diagnostic) : Cuts e more (Parser.record d) := by
  refine .of_faulty ?_
  rintro s a s' ⟨⟩
  exact List.cons_ne_nil _ _

/-- The next token is another one at the cut only. -/
theorem peek_of {f : Token → Parser β} (hgrows : ∀ t, Grows (f t))
    (hf : ∀ t ts, (∀ u ∈ t :: ts, u.kind ≠ .eof) → CutsAt e more (t :: ts) (f t))
    (hend : EndsFrom e [] (f e)) : Cuts e more (Parser.peek >>= f) := by
  constructor
  · intro s a s' hrun
    exact hgrows (s.rest.headD { kind := .eof }) hrun
  · intro ts hts n a s' hrun hfaults
    cases ts with
    | nil => exact .inr (hend n [] nofun)
    | cons t ts => exact hf t ts hts hrun hfaults

theorem peek {f : Token → Parser β} (hf : ∀ t, Cuts e more (f t)) (hend : EndsFrom e [] (f e)) :
    Cuts e more (Parser.peek >>= f) :=
  .peek_of (fun t => (hf t).grows) (fun t _ hts => (hf t).cut hts) hend

/-- The token after the next one is another one at the cut, and one before it. -/
theorem peekSecond {f : Token → Parser β} {t : Token} {ts : List Token} (hts : ∀ u ∈ t :: ts, u.kind ≠ .eof)
    (hf : ∀ u, Cuts e more (f u)) (hlast : EndsFrom e [t] (f e)) :
    CutsAt e more (t :: ts) (Parser.peekSecond >>= f) := by
  intro n a s' hrun hfaults
  cases ts with
  | nil => exact .inr (hlast n [] nofun)
  | cons u ts => exact (hf u).cut hts hrun hfaults

/-- What does not depend on the token after the next one is the same. -/
theorem peekSecond_const {q : Parser β} {ts : List Token} (hq : CutsAt e more ts q) :
    CutsAt e more ts (Parser.peekSecond >>= fun _ => q) := by
  have hsame : (Parser.peekSecond >>= fun _ => q) = q := by
    funext s
    obtain ⟨rest, n, faults⟩ := s
    rcases rest with _ | ⟨t, _ | ⟨u, rest⟩⟩ <;> rfl
  rw [hsame]
  exact hq

theorem grows_peekSecond {f : Token → Parser β} (hf : ∀ u, Cuts e more (f u)) :
    Grows (Parser.peekSecond >>= f) := by
  rintro ⟨rest, n, faults⟩ a s' hrun hfaults
  rcases rest with _ | ⟨t, _ | ⟨u, rest⟩⟩ <;> exact (hf _).grows hrun hfaults

end Cuts

namespace Truncates

variable {p q : Parser α} {f : α → Parser β}

theorem bind (hp : Truncates e more p) (hf : ∀ a, Truncates e more (f a)) : Truncates e more (p >>= f) :=
  ⟨hp.toCuts.bind hf, hp.ends.bind fun a => (hf a).ends⟩

theorem pure (a : α) : Truncates e more (Pure.pure a : Parser α) := by
  refine ⟨⟨?_, ?_⟩, .pure a⟩
  · rintro s b s' ⟨⟩ hfaults
    exact hfaults
  · rintro ts hts n b s' ⟨⟩ -
    exact .inl ⟨ts, n, hts, rfl, rfl⟩

theorem outOfFuel : Truncates e more (throw .outOfFuel : Parser α) :=
  ⟨.of_faulty nofun, .outOfFuel⟩

theorem ite {c : Prop} [Decidable c] (hp : Truncates e more p) (hq : Truncates e more q) :
    Truncates e more (if c then p else q) :=
  ⟨.ite hp.toCuts hq.toCuts, .ite hp.ends hq.ends⟩

theorem peek (he : e.kind = .eof) {f : Token → Parser β} (hf : ∀ t, Cuts e more (f t))
    (hend : ∀ t : Token, t.kind = .eof → EndsFrom e [] (f t)) : Truncates e more (Parser.peek >>= f) :=
  ⟨.peek hf (hend e he), .peek he hend⟩

theorem peeked (he : e.kind = .eof) {f : Token → Parser β} (hf : ∀ t, Truncates e more (f t)) :
    Truncates e more (Parser.peek >>= f) :=
  .peek he (fun t => (hf t).toCuts) fun t _ => (hf t).ends

theorem advance (he : e.kind = .eof) : Truncates e more Parser.advance := by
  refine ⟨⟨?_, ?_⟩, .advance he⟩
  · intro s a s' hrun hfaults
    unfold Parser.advance at hrun
    split at hrun
    · cases hrun
      exact hfaults
    · split at hrun <;> cases hrun <;> exact hfaults
  · intro ts hts n a s' hrun hfaults
    cases ts with
    | nil => exact .inr (EndsFrom.advance he n [] nofun)
    | cons t ts =>
      have ht : t.kind ≠ .eof := hts t List.mem_cons_self
      simp only [Parser.advance, List.cons_append, if_neg ht] at hrun ⊢
      cases hrun
      exact .inl ⟨ts, n, fun u hu => hts u (List.mem_cons_of_mem _ hu), rfl, rfl⟩

theorem freshId : Truncates e more Parser.freshId := by
  refine ⟨⟨?_, ?_⟩, .freshId⟩
  · rintro s b s' ⟨⟩ hfaults
    exact hfaults
  · rintro ts hts n b s' ⟨⟩ -
    exact .inl ⟨ts, n + 1, hts, rfl, rfl⟩

theorem record {d : Diagnostic} (hd : Mendable d) : Truncates e more (Parser.record d) :=
  ⟨.record d, .record hd⟩

theorem failExpected (he : e.kind = .eof) (what : Bytes) :
    Truncates e more (Parser.failExpected what : Parser α) :=
  ⟨.of_faulty nofun, .failExpected he what⟩

theorem expect (he : e.kind = .eof) (kind : Token.Kind) (what : Bytes) :
    Truncates e more (Parser.expect kind what) :=
  .peeked he fun _ => .ite (.advance he) (.failExpected he what)

theorem accept (he : e.kind = .eof) (kind : Token.Kind) : Truncates e more (Parser.accept kind) :=
  .peeked he fun _ => .ite ((Truncates.advance he).bind fun _ => .pure true) (.pure false)

theorem unlessAt (he : e.kind = .eof) (kind : Token.Kind) (hp : Truncates e more p) :
    Truncates e more (Parser.unlessAt kind p) :=
  .peeked he fun _ => .ite (.pure none) (hp.bind fun a => .pure (some a))

theorem ifAfter (he : e.kind = .eof) (kind : Token.Kind) (hp : Truncates e more p) :
    Truncates e more (Parser.ifAfter kind p) :=
  (accept he kind).bind fun _ => .ite (hp.bind fun a => .pure (some a)) (.pure none)

/-- A list that is full at the cut may be as long as it is allowed to be. -/
theorem checkRoom (he : e.kind = .eof) (taken : Nat) (what : Bytes) :
    Truncates e more (Parser.checkRoom taken what) :=
  .ite (.peek he (fun _ => .record _) fun _ ht => .record (.inl (decide_eq_true ht))) (.pure ())

theorem checkArguments (he : e.kind = .eof) (closing : Token.Kind) (taken : Nat) :
    Truncates e more (Parser.checkArguments closing taken) :=
  .ite (checkRoom he taken _) (.pure ())

theorem startClause {p q : Parser Stmt} (he : e.kind = .eof) (hp : Truncates e more p) (hq : Truncates e more q) :
    Truncates e more (Parser.startClause p q) := by
  refine (accept he _).bind fun _ => .ite (.pure none) (.peeked he fun _ => ?_)
  exact .ite (hp.bind fun a => .pure (some a)) (hq.bind fun a => .pure (some a))

theorem ended_recovering {p : Parser Stmt} (he : e.kind = .eof) {s : State} (h : Ended e (p s)) :
    Ended e (Parser.recovering p s) := by
  unfold Parser.recovering
  generalize p s = r at h ⊢
  match r, h with
  | .ok a s, h => exact h
  | .error (.fault d) ⟨_, m, faults⟩, ⟨rfl, hsoft, hd⟩ =>
    refine ⟨?_, List.forall_mem_cons.2 ⟨hd, hsoft⟩⟩
    simp only [resume, if_pos he]
  | .error .outOfFuel s, _ => trivial

/-- A fault that a recovery has recorded would have been there without the cut, or is at the end. -/
theorem recovering {p : Parser Stmt} (he : e.kind = .eof) (hp : Truncates e more p) :
    Truncates e more (Parser.recovering p) := by
  have hok : ∀ {s a s'}, Parser.recovering p s = .ok a s' → s'.faults = [] → ∃ stmt, a = some stmt ∧
      p s = .ok stmt s' := by
    intro s a s' hrun hfaults
    unfold Parser.recovering at hrun
    cases hps : p s with
    | ok stmt s₁ =>
      rw [hps] at hrun
      cases hrun
      exact ⟨stmt, rfl, rfl⟩
    | error d s₁ =>
      rw [hps] at hrun
      cases d with
      | fault d =>
        cases hrun
        cases hfaults
      | outOfFuel => cases hrun
  refine ⟨⟨fun s a s' hrun hfaults => ?_, fun hts n a s' hrun hfaults => ?_⟩, fun n faults h => ?_⟩
  · obtain ⟨stmt, -, hps⟩ := hok hrun hfaults
    exact hp.grows hps hfaults
  · obtain ⟨stmt, rfl, hps⟩ := hok hrun hfaults
    rcases hp.cut hts hps hfaults with ⟨us, m, hus, rfl, hshort⟩ | hended
    · refine .inl ⟨us, m, hus, rfl, ?_⟩
      unfold Parser.recovering
      rw [hshort]
    · exact .inr (ended_recovering he hended)
  · exact ended_recovering he (hp.ends n faults h)

end Truncates

/-! ## Targets -/

theorem assignTo_cuts (target : Expr) (sign : Token) (value : Expr) :
    Cuts e more (assignTo target sign value) := by
  cases target with
  | ident | get => exact (Truncates.freshId.bind fun _ => .pure _).toCuts
  | _ => exact (Cuts.record _).bind fun _ => .pure _

/-- If one value can be assigned, then all can. -/
theorem assignTo_ends {target : Expr} {sign : Token} {value c : Expr} {s s' : State}
    (h : assignTo target sign value s = .ok c s') (hfaults : s'.faults = []) (value' : Expr) :
    EndsFrom e [] (assignTo target sign value') := by
  cases target with
  | ident | get => exact EndsFrom.freshId.bind fun _ => .pure _
  | _ =>
    cases h
    cases hfaults

theorem compoundTo_cuts (target : Expr) (op : ArithOp) (sign : Token) (value : Expr) :
    Cuts e more (compoundTo target op sign value) := by
  cases target with
  | ident => exact (Truncates.freshId.bind fun _ => .pure _).toCuts
  | _ => exact (Cuts.record _).bind fun _ => .pure _

theorem compoundTo_ends {target : Expr} {op : ArithOp} {sign : Token} {value c : Expr} {s s' : State}
    (h : compoundTo target op sign value s = .ok c s') (hfaults : s'.faults = []) (value' : Expr) :
    EndsFrom e [] (compoundTo target op sign value') := by
  cases target with
  | ident => exact EndsFrom.freshId.bind fun _ => .pure _
  | _ =>
    cases h
    cases hfaults

/-- The operand of a step may have ended too early. -/
theorem stepOf_truncates {token : Token} (htoken : (stepOp? token.kind).isSome = true) (target : Expr) (op : StepOp)
    (before : Bool) : Truncates e more (stepOf target op token before) := by
  cases target with
  | ident | index | get => exact Truncates.freshId.bind fun _ => .pure _
  | _ => exact (Truncates.record (.inr ⟨token, htoken, rfl⟩)).bind fun _ => .pure _

/-! ## All parsers -/

theorem keywordStmt_truncates (he : e.kind = .eof) (make : Token → Stmt) (what : Bytes) :
    Truncates e more (keywordStmt make what) :=
  (Truncates.advance he).bind fun _ => (Truncates.expect he _ _).bind fun _ => .pure _

theorem parameterNames_truncates (he : e.kind = .eof) (fuel : Nat) : ∀ (done : List Token) (taken : Nat),
    Truncates e more (parameterNames done taken fuel) := by
  induction fuel with
  | zero => exact fun _ _ => .outOfFuel
  | succ fuel ih =>
    intro done taken
    refine (Truncates.checkRoom he _ _).bind fun _ => (Truncates.expect he _ _).bind fun name => ?_
    exact (Truncates.accept he _).bind fun _ => .ite (ih _ _) (.pure _)

section

variable (e)

/-- At the word `fun` alone before the end, every parser with fuel `n` starts a lambda and comes to the end. -/
structure LambdaAt (n : Nat) (t : Token) : Prop where
  expression : EndsFrom e [t] (expression n)
  ternary : EndsFrom e [t] (ternary n)
  chain : ∀ level, EndsFrom e [t] (chain n level)
  operand : ∀ level, EndsFrom e [t] (operand n level)
  unary : EndsFrom e [t] (unary n)
  primary : EndsFrom e [t] (primary n)
  statement : EndsFrom e [t] (statement n)
  expressionStmt : EndsFrom e [t] (expressionStmt n)

variable (more)

/-- Every parser with fuel `n` does the same up to a cut, and comes to the end from there. -/
structure TruncatesAt (n : Nat) : Prop where
  expression : Truncates e more (expression n)
  ternary : Truncates e more (ternary n)
  chain : ∀ level, Truncates e more (chain n level)
  chainRest : ∀ level left, Truncates e more (chainRest n level left)
  operand : ∀ level, Truncates e more (operand n level)
  unary : Truncates e more (unary n)
  callRest : ∀ inner, Truncates e more (callRest n inner)
  arguments : ∀ closing, Truncates e more (arguments n closing)
  argumentsFrom : ∀ closing done taken, Truncates e more (argumentsFrom n closing done taken)
  primary : Truncates e more (primary n)
  functionTail : ∀ callee, Truncates e more (functionTail n callee)
  function : ∀ callee, Truncates e more (function n callee)
  block : Truncates e more (block n)
  blockBody : ∀ done, Truncates e more (blockBody n done)
  declaration : Truncates e more (declaration n)
  classDecl : Truncates e more (classDecl n)
  members : ∀ fields methods, Truncates e more (members n fields methods)
  variableDecl : Truncates e more (variableDecl n)
  statement : Truncates e more (statement n)
  branch : Truncates e more (branch n)
  forLoop : Truncates e more (forLoop n)
  expressionStmt : Truncates e more (expressionStmt n)
  program : ∀ done, Truncates e more (program n done)
  lambda : ∀ t : Token, t.kind = .funWord → LambdaAt e n t
  /-- At a name alone before the end, a function starts and comes to the end. -/
  named : ∀ (t : Token) callee, t.kind = .identifier → EndsFrom e [t] (Parser.function n callee)

end

theorem lambdaAt_zero (t : Token) : LambdaAt e 0 t where
  expression := .outOfFuel
  ternary := .outOfFuel
  chain _ := .outOfFuel
  operand _ := .outOfFuel
  unary := .outOfFuel
  primary := .outOfFuel
  statement := .outOfFuel
  expressionStmt := .outOfFuel

theorem truncatesAt_zero : TruncatesAt e more 0 where
  expression := .outOfFuel
  ternary := .outOfFuel
  chain _ := .outOfFuel
  chainRest _ _ := .outOfFuel
  operand _ := .outOfFuel
  unary := .outOfFuel
  callRest _ := .outOfFuel
  arguments _ := .outOfFuel
  argumentsFrom _ _ _ := .outOfFuel
  primary := .outOfFuel
  functionTail _ := .outOfFuel
  function _ := .outOfFuel
  block := .outOfFuel
  blockBody _ := .outOfFuel
  declaration := .outOfFuel
  classDecl := .outOfFuel
  members _ _ := .outOfFuel
  variableDecl := .outOfFuel
  statement := .outOfFuel
  branch := .outOfFuel
  forLoop := .outOfFuel
  expressionStmt := .outOfFuel
  program _ := .outOfFuel
  lambda t _ := lambdaAt_zero t
  named _ _ _ := .outOfFuel

/-- A value is read and given to a target, which is what it is before the cut. -/
theorem target_cuts (he : e.kind = .eof) {p : Parser Expr} {f : Expr → Parser Expr} (hp : Truncates e more p)
    (hf : ∀ value, Cuts e more (f value))
    (hends : ∀ {value s c s'}, f value s = .ok c s' → s'.faults = [] → ∀ value', EndsFrom e [] (f value')) :
    Cuts e more (advance >>= fun _ => p >>= f) := by
  refine (Truncates.advance he).toCuts.bind_of (fun _ => ?_) fun _ _ s c s' hrun hfaults => ?_
  · exact hp.toCuts.bind_of hf fun value' _ _ _ _ hrun hfaults => hends hrun hfaults value'
  · simp only [Bind.bind, EStateM.bind] at hrun
    cases hps : p s with
    | ok value s₁ =>
      rw [hps] at hrun
      exact hp.ends.bind fun value' => hends hrun hfaults value'
    | error d s₁ =>
      rw [hps] at hrun
      cases hrun

section

variable {n : Nat} (he : e.kind = .eof) (h : TruncatesAt e more n)

include he h

theorem assignment_truncates (target : Expr) : Truncates e more (do
    let sign ← peek
    if sign.kind = .assign then
      let _ ← advance
      assignTo target sign (← expression n)
    else match compoundOp? sign.kind with
      | some op =>
        let _ ← advance
        compoundTo target op sign (← expression n)
      | none => return target) := by
  refine .peek he (fun sign => .ite ?_ ?_) fun sign hsign => ?_
  · exact target_cuts he h.expression (assignTo_cuts target sign) assignTo_ends
  · cases compoundOp? sign.kind with
    | some op => exact target_cuts he h.expression (compoundTo_cuts target op sign) compoundTo_ends
    | none => exact (Truncates.pure target).toCuts
  · simp only [hsign]
    exact .pure target

theorem conditional_truncates (cond : Expr) : Truncates e more (do
    let question ← peek
    if question.kind = .question then
      let _ ← advance
      let yes ← expression n
      let _ ← expect .colon (text "':' in conditional expression")
      let no ← ternary n
      return .ternary (← freshId) question cond yes no
    else return cond) := by
  refine .peeked he fun question => .ite ?_ (.pure cond)
  refine (Truncates.advance he).bind fun _ => h.expression.bind fun yes => (Truncates.expect he _ _).bind fun _ => ?_
  exact h.ternary.bind fun no => Truncates.freshId.bind fun _ => .pure _

omit h in
theorem semicolon_truncates (pos : Position) (value : Expr) : Truncates e more (do
    let _ ← expect .semicolon (text "';' after expression")
    return Stmt.expression pos value) :=
  (Truncates.expect he _ _).bind fun _ => .pure _

theorem lambdaAt_succ {t : Token} (ht : t.kind = .funWord) : LambdaAt e (n + 1) t := by
  have hnext := h.lambda t ht
  have hreal : t.kind ≠ .eof := by
    rw [ht]
    exact nofun
  constructor
  case expression => exact hnext.ternary.bind fun target => (assignment_truncates he h target).ends
  case ternary => exact (hnext.chain _).bind fun cond => (conditional_truncates he h cond).ends
  case chain => exact fun level => (hnext.operand level).bind fun left => (h.chainRest level left).ends
  case operand =>
    intro level
    cases level with
    | factor => exact hnext.unary
    | _ => exact hnext.chain _
  case unary =>
    refine .peek_cons ?_
    simp only [ht, unaryOp?, stepOp?]
    exact hnext.primary.bind fun inner => (h.callRest inner).ends
  case primary =>
    refine .peek_cons ?_
    simp only [ht]
    refine (EndsFrom.advance_cons hreal).bind fun _ => (h.functionTail _).ends.bind fun tail => ?_
    exact EndsFrom.freshId.bind fun _ => .pure _
  case statement =>
    refine .peek_cons ?_
    simp only [ht]
    exact hnext.expressionStmt
  case expressionStmt =>
    refine .peek_cons (hnext.expression.bind fun value => ?_)
    exact (@semicolon_truncates e more he t.pos value).ends

theorem truncatesAt_succ : TruncatesAt e more (n + 1) where
  expression := h.ternary.bind fun target => assignment_truncates he h target
  ternary := (h.chain _).bind fun cond => conditional_truncates he h cond
  chain level := (h.operand level).bind fun left => h.chainRest level left
  chainRest level left := by
    refine .peeked he fun token => ?_
    cases level.joint? token.kind with
    | none => exact .pure left
    | some joint =>
      refine (Truncates.advance he).bind fun _ => (h.operand level).bind fun right => ?_
      exact Truncates.freshId.bind fun fresh => h.chainRest level _
  operand level := by
    cases level with
    | factor => exact h.unary
    | _ => exact h.chain _
  unary := by
    refine .peeked he fun token => ?_
    cases hunary : unaryOp? token.kind with
    | some op =>
      exact (Truncates.advance he).bind fun _ => h.unary.bind fun _ => Truncates.freshId.bind fun _ => .pure _
    | none =>
      cases hstep : stepOp? token.kind with
      | some op =>
        have htoken : (stepOp? token.kind).isSome = true := by rw [hstep]; rfl
        exact (Truncates.advance he).bind fun _ => h.unary.bind fun operand => stepOf_truncates htoken operand op true
      | none => exact h.primary.bind fun inner => h.callRest inner
  callRest inner := by
    refine .peeked he fun token => ?_
    split
    · refine (Truncates.advance he).bind fun _ => (h.arguments _).bind fun args => ?_
      exact (Truncates.expect he _ _).bind fun paren => Truncates.freshId.bind fun fresh => h.callRest _
    · refine (Truncates.advance he).bind fun _ => (Truncates.expect he _ _).bind fun name => ?_
      exact Truncates.freshId.bind fun fresh => h.callRest _
    · refine (Truncates.advance he).bind fun _ => h.expression.bind fun index => ?_
      exact (Truncates.expect he _ _).bind fun _ => Truncates.freshId.bind fun fresh => h.callRest _
    · cases hstep : stepOp? token.kind with
      | some op =>
        have htoken : (stepOp? token.kind).isSome = true := by rw [hstep]; rfl
        exact (Truncates.advance he).bind fun _ => stepOf_truncates htoken inner op false
      | none => exact .pure inner
  arguments closing := .peeked he fun _ => .ite (.pure _) (h.argumentsFrom closing [] 0)
  argumentsFrom closing done taken := by
    refine (Truncates.checkArguments he _ _).bind fun _ => h.expression.bind fun arg => ?_
    exact (Truncates.accept he _).bind fun _ => .ite (h.argumentsFrom _ _ _) (.pure _)
  primary := by
    refine .peeked he fun token => ?_
    split
    case h_8 =>
      refine (Truncates.advance he).bind fun _ => h.expression.bind fun inner => (Truncates.expect he _ _).bind fun _ => ?_
      exact Truncates.freshId.bind fun _ => .pure _
    case h_9 =>
      refine (Truncates.advance he).bind fun _ => (h.arguments _).bind fun es => (Truncates.expect he _ _).bind fun _ => ?_
      exact Truncates.freshId.bind fun _ => .pure _
    case h_10 =>
      refine (Truncates.advance he).bind fun _ => (h.functionTail _).bind fun tail => ?_
      exact Truncates.freshId.bind fun _ => .pure _
    case h_11 => exact .failExpected he _
    all_goals exact (Truncates.advance he).bind fun _ => Truncates.freshId.bind fun _ => .pure _
  functionTail callee := by
    have hparams : Truncates e more (parameters n) :=
      .peeked he fun _ => .ite (.pure _) (parameterNames_truncates he n _ _)
    refine (Truncates.expect he _ _).bind fun _ => hparams.bind fun params => (Truncates.expect he _ _).bind fun _ => ?_
    refine .peeked he fun next => .ite ?_ (.failExpected he _)
    exact h.block.bind fun _ => .pure _
  function callee :=
    (Truncates.expect he _ _).bind fun name => (h.functionTail callee).bind fun tail => .pure _
  block := by
    refine (Truncates.expect he _ _).bind fun brace => (h.blockBody []).bind fun body => ?_
    exact (Truncates.expect he _ _).bind fun _ => .pure _
  blockBody done := by
    refine .peeked he fun next => .ite (.pure _) ?_
    refine (Truncates.recovering he h.declaration).bind fun found => ?_
    cases found with
    | some stmt => exact h.blockBody (stmt :: done)
    | none => exact h.blockBody done
  declaration := by
    have hbehind : ∀ u : Token, Truncates e more (do
        if u.kind = .identifier then
          let _ ← advance
          return Stmt.function (← function n .function)
        else statement n) :=
      fun u => .ite ((Truncates.advance he).bind fun _ => (h.function _).bind fun _ => .pure _) h.statement
    have he' : e.kind ≠ .identifier := by
      rw [he]
      exact nofun
    refine ⟨.peek_of (fun t => ?_) (fun t ts hts => ?_) ?_, .peek he fun t ht => ?_⟩
    · split
      · exact h.classDecl.grows
      · exact Cuts.grows_peekSecond fun u => (hbehind u).toCuts
      · exact h.variableDecl.grows
      · exact h.statement.grows
    · split
      · exact h.classDecl.cut hts
      · rename_i ht
        refine Cuts.peekSecond hts (fun u => (hbehind u).toCuts) ?_
        rw [if_neg he']
        exact (h.lambda t ht).statement
      · exact h.variableDecl.cut hts
      · exact h.statement.cut hts
    · simp only [he]
      exact h.statement.ends
    · simp only [ht]
      exact h.statement.ends
  classDecl := by
    refine (Truncates.advance he).bind fun keyword => (Truncates.expect he _ _).bind fun name => ?_
    refine (Truncates.expect he _ _).bind fun _ => (h.members [] []).bind fun parts => ?_
    exact (Truncates.expect he _ _).bind fun _ => .pure _
  members fields methods := by
    have hbehind : ∀ next u : Token, Truncates e more (do
        if next.kind = .identifier && u.kind = .assign then
          let _ ← advance
          let _ ← advance
          let value ← expression n
          let _ ← expect .semicolon (text "';' after field declaration")
          members n (.mk next value :: fields) methods
        else
          let method ← function n .method
          members n fields (method :: methods)) := by
      intro next u
      refine .ite ?_ ((h.function _).bind fun method => h.members fields (method :: methods))
      refine (Truncates.advance he).bind fun _ => (Truncates.advance he).bind fun _ => h.expression.bind fun value => ?_
      exact (Truncates.expect he _ _).bind fun _ => h.members _ methods
    have he' : e.kind ≠ .assign := by
      rw [he]
      exact nofun
    refine ⟨.peek_of (fun t => ?_) (fun t ts hts => ?_) ?_, .peek he fun t ht => ?_⟩
    · split
      · exact (@Truncates.pure _ e more _).grows
      · exact Cuts.grows_peekSecond fun u => (hbehind t u).toCuts
    · split
      · exact (Truncates.pure _).cut hts
      · by_cases ht : t.kind = .identifier
        · refine Cuts.peekSecond hts (fun u => (hbehind t u).toCuts) ?_
          simp only [he', decide_false, Bool.and_false, Bool.false_eq_true, if_false]
          exact (h.named t _ ht).bind fun method => (h.members _ _).ends
        · -- what is no name starts no field, whatever is behind it
          simp only [ht, decide_false, Bool.false_and, Bool.false_eq_true, if_false]
          refine Cuts.peekSecond_const (Cuts.cut ?_ hts)
          exact ((h.function _).bind fun method => h.members fields (method :: methods)).toCuts
    · simp only [he]
      exact .pure _
    · simp only [ht]
      exact .pure _
  variableDecl := by
    refine (Truncates.advance he).bind fun keyword => (Truncates.expect he _ _).bind fun name => ?_
    refine (Truncates.ifAfter he _ h.expression).bind fun value => ?_
    exact (Truncates.expect he _ _).bind fun _ => .pure _
  statement := by
    refine .peeked he fun next => ?_
    split
    · refine (Truncates.advance he).bind fun keyword => h.expression.bind fun value => ?_
      exact (Truncates.expect he _ _).bind fun _ => .pure _
    · exact h.block.bind fun _ => .pure _
    · exact h.branch
    · refine (Truncates.advance he).bind fun keyword => (Truncates.expect he _ _).bind fun _ => ?_
      refine h.expression.bind fun cond => (Truncates.expect he _ _).bind fun _ => ?_
      exact h.statement.bind fun body => .pure _
    · exact h.forLoop
    · refine (Truncates.advance he).bind fun keyword => (Truncates.unlessAt he _ h.expression).bind fun value => ?_
      exact (Truncates.expect he _ _).bind fun _ => .pure _
    · exact keywordStmt_truncates he _ _
    · exact keywordStmt_truncates he _ _
    · exact h.expressionStmt
  branch := by
    refine (Truncates.advance he).bind fun keyword => (Truncates.expect he _ _).bind fun _ => ?_
    refine h.expression.bind fun cond => (Truncates.expect he _ _).bind fun _ => h.statement.bind fun yes => ?_
    exact (Truncates.ifAfter he _ h.statement).bind fun no => .pure _
  forLoop := by
    refine (Truncates.advance he).bind fun keyword => (Truncates.expect he _ _).bind fun _ => ?_
    refine (Truncates.startClause he h.variableDecl h.expressionStmt).bind fun start => ?_
    refine (Truncates.unlessAt he _ h.expression).bind fun cond => (Truncates.expect he _ _).bind fun _ => ?_
    refine (Truncates.unlessAt he _ h.expression).bind fun step => (Truncates.expect he _ _).bind fun _ => ?_
    exact h.statement.bind fun body => .pure _
  expressionStmt := .peeked he fun first => h.expression.bind fun value => semicolon_truncates he first.pos value
  program done := by
    refine .peeked he fun next => .ite (.pure _) ?_
    refine (Truncates.recovering he h.declaration).bind fun found => ?_
    cases found with
    | some stmt => exact h.program (stmt :: done)
    | none => exact h.program done
  lambda t ht := lambdaAt_succ he h ht
  named t callee ht :=
    (EndsFrom.expect_cons ht nofun _).bind fun name => (h.functionTail callee).ends.bind fun tail => .pure _

end

theorem truncatesAt (he : e.kind = .eof) : ∀ n, TruncatesAt e more n
  | 0 => truncatesAt_zero
  | n + 1 => truncatesAt_succ he (truncatesAt he n)

end Parser

/-! ## Sources -/

namespace Parsed

open Treewalk.Parser

/-- The first ones of tokens that are parsed without a fault: more tokens may mend every fault in them. -/
theorem ofTokens_cut {ts us : List Token} {d e : Token} {n : NodeId} (hts : ∀ t ∈ ts, t.kind ≠ .eof)
    (hd : d.kind = .eof) (he : e.kind = .eof) (h : (ofTokens n (ts ++ (us ++ [e]))).faults = []) :
    ∀ fault ∈ (ofTokens n (ts ++ [d])).faults, Mendable fault := by
  obtain ⟨stmts, s, hshort, -⟩ := program_ends ⟨ts ++ [d], n, []⟩
  obtain ⟨stmts', s', hlong, -⟩ := program_ends ⟨ts ++ (us ++ [e]), n, []⟩
  have hparsed : (ofTokens n (ts ++ [d])).faults = s.faults.reverse := by
    simp only [ofTokens, closed_append hd]
    rw [show program _ [] ⟨ts ++ [d], n, []⟩ = _ from hshort]
  have hparsed' : (ofTokens n (ts ++ (us ++ [e]))).faults = s'.faults.reverse := by
    rw [← List.append_assoc] at hlong ⊢
    simp only [ofTokens, closed_append he]
    rw [show program _ [] ⟨ts ++ us ++ [e], n, []⟩ = _ from hlong]
  rw [hparsed', List.reverse_eq_nil_iff] at h
  -- enough fuel for both
  have hfuel := program_eq_of_le (Nat.le_max_left (fuelFor (ts ++ [d])) (fuelFor (ts ++ (us ++ [e])))) []
    ⟨ts ++ [d], n, []⟩ (fun s'' => by simp [hshort])
  have hfuel' := program_eq_of_le (Nat.le_max_right (fuelFor (ts ++ [d])) (fuelFor (ts ++ (us ++ [e])))) []
    ⟨ts ++ (us ++ [e]), n, []⟩ (fun s'' => by simp [hlong])
  have hcut := ((truncatesAt hd _).program []).cut hts (hfuel'.trans hlong) h
  rw [hfuel, show program _ [] ⟨ts ++ [d], n, []⟩ = _ from hshort] at hcut
  rw [hparsed]
  intro fault hfault
  rcases hcut with ⟨us', m, -, -, hsame⟩ | hended
  · cases hsame
    cases hfault
  · exact hended.2 fault (List.mem_reverse.1 hfault)

end Parsed

theorem RefusedStep.incomplete {d : Diagnostic} (h : RefusedStep d) : d.incomplete = false := by
  obtain ⟨t, hstep, rfl⟩ := h
  refine decide_eq_false fun heof => ?_
  rw [heof] at hstep
  cases hstep

/-- A source is a program or waits for more exactly if more text may mend all of its faults. -/
theorem complete_or_needsMore_iff (source : Bytes) :
    (Parsed.ofSource 0 source).faults = [] ∨ needsMore source = true ↔
      ∀ d ∈ (Parsed.ofSource 0 source).faults, d.incomplete = true := by
  have hmore : needsMore source = Diagnostic.listIncomplete (Parsed.ofSource 0 source).faults := by
    unfold needsMore
    cases (Parsed.ofSource 0 source).faults <;> rfl
  rw [hmore, Diagnostic.listIncomplete]
  cases (Parsed.ofSource 0 source).faults <;> simp

/-- Input that can be completed is given up only for an operand of `++` or `--` that ended too early. If lines
and more text are a program without faults, then every fault of the lines alone is one that more text may mend
or a refused step; and the lines are a program or wait for more exactly if no step is refused. -/
theorem needsMore_of_continued {source more : Bytes} (hline : source.getLast? = some Bytes.newline)
    (h : (Parsed.ofSource 0 (source ++ more)).faults = []) :
    (∀ d ∈ (Parsed.ofSource 0 source).faults, d.incomplete = true ∨ RefusedStep d) ∧
      ((Parsed.ofSource 0 source).faults = [] ∨ needsMore source = true ↔
        ∀ d ∈ (Parsed.ofSource 0 source).faults, ¬ RefusedStep d) := by
  obtain ⟨line, rfl⟩ := List.getLast?_eq_some_iff.1 hline
  rw [List.append_assoc, List.singleton_append] at h
  obtain ⟨hscan, hparsed⟩ := List.append_eq_nil_iff.1 h
  obtain ⟨hopen, ts, d, later, htokens, hall⟩ := Token.scan_continued hscan
  obtain ⟨ts', d', htokens', hd, hproper⟩ := Token.scan_tokens (line ++ [Bytes.newline])
  obtain ⟨us, e, hwhole, he, -⟩ := Token.scan_tokens (line ++ Bytes.newline :: more)
  obtain ⟨rfl, rfl⟩ : ts = ts' ∧ d = d' := List.append_singleton_inj.1 (htokens.symm.trans htokens')
  rw [hall] at hparsed hwhole
  -- the end of the whole is behind the tokens that both have
  obtain ⟨us', rfl⟩ : ∃ us', later = us' ++ [e] := by
    rcases List.eq_nil_or_concat later with rfl | ⟨us', e', rfl⟩
    · have hmem : e ∈ ts := by
        rw [List.append_nil] at hwhole
        rw [hwhole]
        exact List.mem_append_right _ List.mem_cons_self
      exact absurd he (hproper e hmem).kind
    · rw [List.concat_eq_append, ← List.append_assoc] at hwhole
      exact ⟨us', by rw [List.concat_eq_append, (List.append_singleton_inj.1 hwhole).2]⟩
  have hmendable : ∀ fault ∈ (Parsed.ofSource 0 (line ++ [Bytes.newline])).faults,
      fault.incomplete = true ∨ RefusedStep fault := by
    intro fault hfault
    rcases List.mem_append.1 hfault with hfault | hfault
    · exact .inl (hopen fault hfault)
    · rw [htokens] at hfault
      exact Parsed.ofTokens_cut (fun t ht => (hproper t ht).kind) hd he hparsed fault hfault
  refine ⟨hmendable, ?_⟩
  rw [complete_or_needsMore_iff]
  constructor
  · intro hall d hd hrefused
    exact Bool.false_ne_true (hrefused.incomplete.symm.trans (hall d hd))
  · exact fun hnone d hd => (hmendable d hd).resolve_right (hnone d hd)

/-- The step of `f()` is refused, with more to come that makes it one of `f().x`. -/
theorem needsMore_of_continued_step :
    (text "++f()\n").getLast? = some Bytes.newline ∧
      (Parsed.ofSource 0 (text "++f()\n" ++ text ".x;")).faults = [] ∧
      ∀ d ∈ (Parsed.ofSource 0 (text "++f()\n")).faults, d.incomplete = true ∨ RefusedStep d := by
  have hline : (text "++f()\n").getLast? = some Bytes.newline := by decide +kernel
  have hwhole : (Parsed.ofSource 0 (text "++f()\n" ++ text ".x;")).faults = [] := by decide +kernel
  exact ⟨hline, hwhole, (needsMore_of_continued hline hwhole).1⟩

/-- What could be completed is given up: the operand `f()` cannot be stepped, but it may go on. -/
theorem needsMore_refused_step :
    ¬ ∀ source more : Bytes, source.getLast? = some Bytes.newline →
      (Parsed.ofSource 0 (source ++ more)).faults = [] →
      (Parsed.ofSource 0 source).faults = [] ∨ needsMore source = true := by
  intro h
  have hwhole : (Parsed.ofSource 0 (text "++f()\n" ++ text ".x;")).faults = [] := by decide +kernel
  have hgiven : ¬ ((Parsed.ofSource 0 (text "++f()\n")).faults = [] ∨ needsMore (text "++f()\n") = true) := by
    decide +kernel
  exact hgiven (h _ _ (by decide +kernel) hwhole)

end Treewalk
