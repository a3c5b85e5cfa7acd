import Mathlib.Data.List.Basic
import Treewalk.Proofs.Parser.Lines
import Treewalk.Proofs.Parser.Routine

/-!
# The cursor stays in bounds

What is left of the tokens is what lies behind a cursor that goes through them (`StandsAt`). It only goes
forward, and not past the first end of input. So there is always a token at the cursor, and one before it as
soon as one was taken (`InBounds`).

**Main theorem** (`Parsed.ofTokens_bounded`). This holds for every token list, whatever stands in it: every
parsing function keeps the cursor in bounds, every declaration moves it on, reading comes to the end, and
the calls are nested no deeper than a fixed multiple of the number of tokens.

The fuel counts nested calls. A parsing function that starts with `r` tokens left needs at most `40 * r + 20`
of it.
-/

namespace Treewalk.Parser

open Parse

variable {α : Type} {all : List Token} {k : Nat} {s s' : State}

/-- The state that a parser ends in, with a result or without. -/
def endOf : EStateM.Result Stop State α → State
  | .ok _ s => s
  | .error _ s => s

/-- The tokens left are those behind a cursor at `k`, which is inside and past no end of input. -/
structure StandsAt (all : List Token) (k : Nat) (s : State) : Prop where
  rest : s.rest = all.drop k
  inside : k < all.length
  before : ∀ t ∈ all.take k, t.kind ≠ .eof

/-- The token before a cursor, if there is one. -/
def previous? (all : List Token) (k : Nat) : Option Token := if k = 0 then none else all[k - 1]?

/-- Whatever is looked at from here is there. -/
structure InBounds (all : List Token) (k : Nat) (s : State) : Prop where
  /-- The next token. -/
  next : ∃ t, all[k]? = some t ∧ peek s = .ok t s
  /-- The one after it, or the last one. -/
  second : ∃ t, all[min (k + 1) (all.length - 1)]? = some t ∧ peekSecond s = .ok t s
  /-- When a token was to be taken, one stands before the cursor. -/
  taken : ∃ t s' k' before, advance s = .ok t s' ∧ StandsAt all k' s' ∧ k ≤ k' ∧
    previous? all k' = some before ∧ (t.kind ≠ .eof → k' = k + 1 ∧ before = t)
  /-- Recovery starts by taking a token, so one stands before the cursor from there on. -/
  recovered : ∃ k' before, resume s.rest = all.drop k' ∧ k ≤ k' ∧ k' < all.length ∧
    previous? all k' = some before

/-! ## Going forward -/

/-- No parser goes back or takes the end of input. -/
theorem within_compositional : Compositional fun _ p => ∀ s, Within (endOf (p s)).rest s.rest where
  pure _ _ := .refl _
  outOfFuel _ := .refl _
  bind {α β p f} hp hf s := by
    have hfirst := hp s
    show Within (endOf (EStateM.bind p f s)).rest s.rest
    unfold EStateM.bind
    cases hps : p s with
    | ok a s' =>
      rw [hps] at hfirst
      exact hfirst.trans (hf a s')
    | error e s' =>
      rw [hps] at hfirst
      exact hfirst
  look {α f} hf s := by
    rcases hf (s.rest.headD { kind := .eof }) with h | ⟨-, g, hg, h⟩
    · exact h s
    · show Within (endOf (f (s.rest.headD { kind := .eof }) s)).rest s.rest
      rw [hg]
      rcases s with ⟨_ | ⟨t, _ | ⟨u, rest⟩⟩, n, faults⟩ <;> exact h _ _
  advance s := by
    unfold Parser.advance
    rcases s with ⟨_ | ⟨t, rest⟩, n, faults⟩
    · exact .refl _
    · by_cases ht : t.kind = .eof
      · simp only [ht, if_true]
        exact .refl _
      · simp only [ht, if_false]
        exact .cons ht (.refl _)
  freshId _ := .refl _
  recordAt _ _ _ _ _ := .refl _
  recordNext _ _ _ := .refl _
  failExpected _ _ := .refl _
  recovering {p} hp s := by
    have hinner := hp s
    unfold Parser.recovering
    cases hps : p s with
    | ok stmt s' =>
      rw [hps] at hinner
      exact hinner
    | error e s' =>
      rw [hps] at hinner
      cases e with
      | fault d => exact hinner.trans (resume_within _)
      | outOfFuel => exact hinner

theorem Routine.within {n : Nat} {p : Parser α} (h : Routine n p) (s : State) :
    Within (endOf (p s)).rest s.rest := within_compositional.routine n h s

/-- The end of input is among the tokens left, since it is never taken. -/
theorem StandsAt.of_within (h : StandsAt all k s) (hlast : ∃ t, all.getLast? = some t ∧ t.kind = .eof)
    (hs : Within s'.rest s.rest) : ∃ k', k ≤ k' ∧ StandsAt all k' s' := by
  obtain ⟨e, he, hkind⟩ := hlast
  obtain ⟨used, hused, hproper⟩ := hs
  rw [h.rest] at hused
  have hrest : s'.rest = all.drop (k + used.length) := by
    rw [← List.drop_drop, hused, List.drop_left]
  refine ⟨k + used.length, Nat.le_add_right _ _, hrest, ?_, ?_⟩
  · by_contra hle
    have hnil : s'.rest = [] := by
      rw [hrest]
      exact List.drop_eq_nil_of_le (Nat.le_of_not_lt hle)
    rw [hnil, List.append_nil] at hused
    have hmem : e ∈ all.drop k := by
      refine List.mem_of_getLast? ?_
      rw [List.getLast?_drop, if_neg (Nat.not_le_of_lt h.inside), he]
    exact hproper e (hused ▸ hmem) hkind
  · rw [List.take_add, hused, List.take_left]
    intro t ht
    rcases List.mem_append.1 ht with ht | ht
    · exact h.before t ht
    · exact hproper t ht

/-! ## Looking around -/

theorem previous?_eq_some (hk : 1 ≤ k) (hlength : k ≤ all.length) : ∃ t, previous? all k = some t := by
  unfold previous?
  rw [if_neg (Nat.ne_of_gt hk)]
  exact ⟨_, List.getElem?_eq_getElem (by omega)⟩

/-- Unless the tokens start with the end of input, all looks are in range. -/
theorem StandsAt.inBounds (h : StandsAt all k s) (hlast : ∃ t, all.getLast? = some t ∧ t.kind = .eof)
    (hfirst : ∀ t, all.head? = some t → t.kind ≠ .eof) : InBounds all k s := by
  obtain ⟨t, rest, hdrop⟩ : ∃ t rest, all.drop k = t :: rest :=
    List.exists_cons_of_ne_nil (by simpa using h.inside)
  have hrest : s.rest = t :: rest := h.rest.trans hdrop
  have ht : all[k]? = some t := by
    rw [← List.head?_drop, hdrop]
    rfl
  -- the cursor is at the start, before a token that is not the end, or further on
  have hmoved : t.kind = .eof → 1 ≤ k := by
    intro hkind
    by_contra hzero
    obtain rfl : k = 0 := by omega
    rw [List.head?_eq_getElem?] at hfirst
    exact hfirst t ht hkind
  refine ⟨⟨t, ht, ?_⟩, ?_, ?_, ?_⟩
  · unfold peek
    rw [hrest]
    rfl
  · have hrest' : all.drop (k + 1) = rest := by
      rw [← List.drop_drop, hdrop]
      rfl
    cases rest with
    | nil =>
      have hlength : all.length ≤ k + 1 := List.drop_eq_nil_iff.1 hrest'
      have hmin : min (k + 1) (all.length - 1) = k := by
        have hinside := h.inside
        omega
      refine ⟨t, by rw [hmin, ht], ?_⟩
      unfold peekSecond
      rw [hrest]
      rfl
    | cons u rest =>
      have hlength : k + 1 < all.length := by
        by_contra hle
        rw [List.drop_eq_nil_of_le (Nat.le_of_not_lt hle)] at hrest'
        cases hrest'
      have hmin : min (k + 1) (all.length - 1) = k + 1 := by omega
      refine ⟨u, ?_, ?_⟩
      · rw [hmin, ← List.head?_drop, hrest']
        rfl
      · unfold peekSecond
        rw [hrest]
  · have hwithin := within_compositional.advance s
    unfold advance at hwithin ⊢
    rw [hrest] at hwithin ⊢
    by_cases hkind : t.kind = .eof
    · simp only [hkind, if_true]
      obtain ⟨before, hbefore⟩ := previous?_eq_some (hmoved hkind) (Nat.le_of_lt h.inside)
      exact ⟨t, s, k, before, rfl, h, Nat.le_refl k, hbefore, fun hne => absurd hkind hne⟩
    · simp only [hkind, if_false] at hwithin ⊢
      have hstands : StandsAt all (k + 1) { s with rest } := by
        obtain ⟨k', hle, hk'⟩ := h.of_within hlast (hrest ▸ hwithin)
        obtain rfl : k' = k + 1 := by
          have hlengths := congrArg List.length (hdrop)
          have hlengths' := congrArg List.length hk'.rest
          have hinside := h.inside
          have hinside' := hk'.inside
          simp only [List.length_drop, List.length_cons, endOf] at hlengths hlengths'
          omega
        exact hk'
      refine ⟨t, _, k + 1, t, rfl, hstands, Nat.le_succ k, ?_, fun _ => ⟨rfl, rfl⟩⟩
      unfold previous?
      rw [if_neg (Nat.succ_ne_zero k), Nat.add_sub_cancel, ht]
  · have hresume : Within { s with rest := resume s.rest }.rest s.rest := resume_within _
    obtain ⟨k', hle, hk'⟩ := h.of_within hlast hresume
    have hone : 1 ≤ k' := by
      by_cases hkind : t.kind = .eof
      · exact Nat.le_trans (hmoved hkind) hle
      · have hshorter : (resume s.rest).length < (t :: rest).length :=
          resume_length_lt hkind (hrest ▸ .refl _)
        have hlengths := congrArg List.length hk'.rest
        have hlengths' := congrArg List.length hdrop
        simp only [List.length_drop] at hlengths hlengths'
        omega
    obtain ⟨before, hbefore⟩ := previous?_eq_some hone (Nat.le_of_lt hk'.inside)
    exact ⟨k', before, hk'.rest, hle, hk'.inside, hbefore⟩

/-! ## Depth of calls -/

/-- No parsing function needs more fuel than this. -/
theorem Routine.ends {n : Nat} {p : Parser α} (h : Routine n p) (s : State)
    (hn : 40 * s.rest.length + 20 ≤ n) : Ends p s Anything := by
  have hall := endsAt n
  cases h with
  | expression => exact (hall.expression s (by omega)).anything
  | ternary => exact (hall.ternary s (by omega)).anything
  | chain level =>
    have hheight := level.height_le
    exact (hall.chain level s (by omega)).anything
  | chainRest level left => exact hall.chainRest level left s (by omega)
  | operand level =>
    have hheight := level.height_le
    exact (hall.operand level s (by omega)).anything
  | unary => exact (hall.unary s (by omega)).anything
  | callRest inner => exact hall.callRest inner s (by omega)
  | arguments closing => exact hall.arguments closing s (by omega)
  | argumentsFrom closing done taken => exact hall.argumentsFrom closing done taken s (by omega)
  | primary => exact (hall.primary s (by omega)).anything
  | parameterNames done taken => exact hall.parameterNames done taken s (by omega)
  | functionTail callee => exact (hall.functionTail callee s (by omega)).anything
  | function callee => exact (hall.function callee s (by omega)).anything
  | block => exact (hall.block s (by omega)).anything
  | blockBody done => exact hall.blockBody done s hn
  | declaration => exact (hall.declaration s (by omega)).anything
  | classDecl => exact (hall.classDecl s (by omega)).anything
  | members fields methods => exact hall.members fields methods s (by omega)
  | variableDecl => exact (hall.variableDecl s (by omega)).anything
  | statement => exact (hall.statement s (by omega)).anything
  | branch => exact (hall.branch s (by omega)).anything
  | forLoop => exact (hall.forLoop s (by omega)).anything
  | expressionStmt => exact (hall.expressionStmt s (by omega)).anything
  | program done => exact hall.program done s hn

theorem Routine.not_outOfFuel {n : Nat} {p : Parser α} (h : Routine n p) (s : State)
    (hn : 40 * s.rest.length + 20 ≤ n) (s' : State) : p s ≠ .error .outOfFuel s' := by
  intro hout
  have hends := h.ends s hn
  unfold Ends at hends
  rw [hout] at hends
  exact hends

/-- A declaration moves on unless the input is at its end, and gives a statement or recovers. -/
theorem declaration_advances {n : Nat} (s : State) (hnext : (s.rest.headD { kind := .eof }).kind ≠ .eof)
    (hn : 40 * s.rest.length + 20 ≤ n) : ∃ found s', recovering (declaration n) s = .ok found s' ∧
      Within s'.rest s.rest ∧ s'.rest.length < s.rest.length := by
  have hends := ((endsAt n).declaration s (by omega)).recovering hnext
  unfold Ends at hends
  cases hrun : recovering (declaration n) s with
  | ok found s' =>
    rw [hrun] at hends
    exact ⟨found, s', rfl, hends.1.rest, hends.2⟩
  | error e s' =>
    rw [hrun] at hends
    cases e with
    | fault d => exact absurd hrun (faultless_recovering _ _ _ _)
    | outOfFuel => exact hends.elim

/-- The loop over declarations stops at the end of input only. -/
theorem program_reads_all (n : Nat) : ∀ (done : List Stmt) (s : State) {stmts : List Stmt} {s' : State},
    program n done s = .ok stmts s' → (s'.rest.headD { kind := .eof }).kind = .eof := by
  induction n with
  | zero => exact fun _ _ _ _ h => by cases h
  | succ n ih =>
    intro done s stmts s' h
    rw [program_succ] at h
    split at h
    · rename_i heof
      cases h
      exact heof
    · split at h
      · exact ih _ _ h
      · exact ih _ _ h
      · cases h

end Treewalk.Parser

namespace Treewalk.Parsed

open Parse Treewalk.Parser

theorem getLast?_closed (tokens : List Token) :
    ∃ t, (closed tokens).getLast? = some t ∧ t.kind = .eof := by
  unfold closed
  split
  · rename_i t hlast
    split
    · rename_i hkind
      exact ⟨t, hlast, hkind⟩
    · exact ⟨_, List.getLast?_concat, rfl⟩
  · exact ⟨_, rfl, rfl⟩

theorem length_closed (tokens : List Token) :
    0 < (closed tokens).length ∧ (closed tokens).length ≤ tokens.length + 1 := by
  unfold closed
  split
  · rename_i t hlast
    have hpos : 0 < tokens.length := List.length_pos_of_mem (List.mem_of_getLast? hlast)
    split
    · exact ⟨hpos, Nat.le_succ _⟩
    · simp
  · simp

/-- Every token list is read to its end and within its bounds. Parsing functions only move the cursor
forward and not past the first end of input; what they look at is there, the token before the cursor
included, and if the input is at its end from the start nothing is looked for; every declaration moves the
cursor on; calls are nested at most `120` deep for each token and one more. -/
theorem ofTokens_bounded (nextId : NodeId) (tokens : List Token) :
    let all := closed tokens
    let start : Parse.State := { rest := all, nextId }
    StandsAt all 0 start ∧
    (∀ (n : Nat) (α : Type) (p : Parser α), Routine n p → ∀ k s, StandsAt all k s →
      (∃ k', k ≤ k' ∧ StandsAt all k' (endOf (p s))) ∧
      (40 * (all.length - k) + 20 ≤ n → ∀ s', p s ≠ .error .outOfFuel s')) ∧
    (∀ n k s, StandsAt all k s → (∀ t, all[k]? = some t → t.kind ≠ .eof) → 40 * (all.length - k) + 20 ≤ n →
      ∃ found s' k', recovering (declaration n) s = .ok found s' ∧ k < k' ∧ StandsAt all k' s') ∧
    (∀ t, all.head? = some t →
      (t.kind ≠ .eof → ∀ k s, StandsAt all k s → InBounds all k s) ∧
      (t.kind = .eof → ∀ n, program (n + 1) [] start = .ok [] start)) ∧
    ∃ k s', StandsAt all k s' ∧ (∃ t, all[k]? = some t ∧ t.kind = .eof) ∧
      ∀ n, 120 * (tokens.length + 1) ≤ n → program n [] start = .ok (ofTokens nextId tokens).stmts s' := by
  intro all start
  have hlast := getLast?_closed tokens
  obtain ⟨hpos, hlength⟩ := length_closed tokens
  have hstart : StandsAt all 0 start := ⟨rfl, hpos, by simp⟩
  refine ⟨hstart, fun n α p hp k s hs => ⟨hs.of_within hlast (hp.within s), fun hn => ?_⟩, ?_, ?_, ?_⟩
  · refine hp.not_outOfFuel s ?_
    rw [hs.rest, List.length_drop]
    exact hn
  · intro n k s hs hnext hn
    have hlen : s.rest.length = all.length - k := by rw [hs.rest, List.length_drop]
    have hkind : (s.rest.headD { kind := .eof }).kind ≠ .eof := by
      rw [List.headD_eq_head?_getD, hs.rest, List.head?_drop, List.getElem?_eq_getElem hs.inside]
      exact hnext _ (List.getElem?_eq_getElem hs.inside)
    obtain ⟨found, s', hrun, hwithin, hshorter⟩ := declaration_advances (n := n) s hkind (hlen ▸ hn)
    obtain ⟨k', -, hs'⟩ := hs.of_within hlast hwithin
    have hlen' : s'.rest.length = all.length - k' := by rw [hs'.rest, List.length_drop]
    exact ⟨found, s', k', hrun, by omega, hs'⟩
  · refine fun t hhead => ⟨fun hkind k s hs => hs.inBounds hlast ?_, fun hkind n => ?_⟩
    · rintro t' hhead'
      obtain rfl : t = t' := Option.some.inj (hhead.symm.trans hhead')
      exact hkind
    · have hpeek : (Token.first start.rest).kind = .eof := by
        show (all.headD { kind := .eof }).kind = .eof
        rw [List.headD_eq_head?_getD, hhead]
        exact hkind
      rw [program_succ, if_pos hpeek]
      rfl
  · obtain ⟨stmts, s', hrun, honward⟩ := program_ends start
    obtain ⟨k, -, hk⟩ := hstart.of_within hlast honward.rest
    refine ⟨k, s', hk, ?_, fun n hn => ?_⟩
    · have hend := program_reads_all _ _ _ hrun
      rw [List.headD_eq_head?_getD, hk.rest, List.head?_drop, List.getElem?_eq_getElem hk.inside] at hend
      exact ⟨_, List.getElem?_eq_getElem hk.inside, hend⟩
    · have hstmts : (ofTokens nextId tokens).stmts = stmts := by
        unfold ofTokens
        dsimp only
        rw [hrun]
      have henough : ∀ m, 40 * all.length + 20 ≤ m → ∀ s'', program m [] start ≠ .error .outOfFuel s'' :=
        fun m hm => (Routine.program []).not_outOfFuel start hm
      have hsame : ∀ m, 40 * all.length + 20 ≤ m → program m [] start = program (40 * all.length + 20) [] start :=
        fun m hm => program_eq_of_le hm [] start (henough _ (Nat.le_refl _))
      have hn' : 40 * all.length + 20 ≤ n := by
        have : all.length ≤ tokens.length + 1 := hlength
        omega
      rw [hstmts, ← hrun, hsame n hn', ← hsame]
      show 40 * all.length + 20 ≤ 40 * (all.length + 2)
      omega

end Treewalk.Parsed
