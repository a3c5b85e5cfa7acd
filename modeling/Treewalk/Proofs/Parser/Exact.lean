import Treewalk.Proofs.Parser.Complete
import Treewalk.Proofs.Parser.Ends
import Treewalk.Proofs.Parser.Relabel
import Treewalk.Proofs.Parser.Yield

/-!
# The parser is exact

Parsing a token list gives statements without a fault if and only if the list spells well-formed
statements, and then it gives these statements (`ofTokens_eq_iff`). Up to identities and positions this
settles what the parser accepts and what it builds (`ofTokens_exact`).
-/

namespace Treewalk

open Treewalk.Parser Treewalk.Parse

/-! ## From tokens to their end -/

theorem Parsed.closed_append {ts : List Token} {e : Token} (he : e.kind = .eof) :
    Parsed.closed (ts ++ [e]) = ts ++ [e] := by
  simp [Parsed.closed, he]

/-- Of tokens with one end of input, what is left at the end of input is the end of input. -/
theorem Parser.Within.eq_of_first {ts rest : List Token} {e : Token} (hts : ∀ t ∈ ts, t.kind ≠ .eof)
    (h : Within rest (ts ++ [e])) (he : e.kind = .eof) (hrest : (Token.first rest).kind = .eof) :
    rest = [e] := by
  obtain ⟨used, heq, hused⟩ := h
  rcases List.eq_nil_or_concat rest with rfl | ⟨init, last, rfl⟩
  · have : e ∈ used := by
      rw [List.append_nil] at heq
      rw [← heq]
      simp
    exact absurd he (hused e this)
  · rw [List.concat_eq_append] at heq hrest ⊢
    rw [← List.append_assoc] at heq
    obtain ⟨hinit, hlast⟩ := List.append_inj' heq rfl
    cases hlast
    cases init with
    | nil => rfl
    | cons t init =>
      have ht : t ∈ ts := by
        rw [hinit]
        simp
      exact absurd hrest (hts t ht)

/-- What a program gives with any fuel that is large enough is what parsing gives. -/
theorem ofTokens_of_program {ts : List Token} {e : Token} {n : NodeId} {stmts : List Stmt} {s' : State}
    (he : e.kind = .eof) (h : ∃ N, ∀ k, N ≤ k → program k [] ⟨ts ++ [e], n, []⟩ = .ok stmts s') :
    Parsed.ofTokens n (ts ++ [e]) = { stmts, faults := s'.faults.reverse, nextId := s'.nextId } := by
  obtain ⟨N, hN⟩ := h
  obtain ⟨stmts', s'', hrun, -⟩ := program_ends ⟨ts ++ [e], n, []⟩
  have hmore := program_eq_of_le (Nat.le_max_left (Parsed.fuelFor (ts ++ [e])) N) [] ⟨ts ++ [e], n, []⟩
    (fun s'' => by rw [hrun]; exact nofun)
  have hprogram : program (Parsed.fuelFor (ts ++ [e])) [] ⟨ts ++ [e], n, []⟩ = .ok stmts s' := by
    rw [← hmore]
    exact hN _ (Nat.le_max_right _ _)
  simp only [Parsed.ofTokens, Parsed.closed_append he, hprogram]

/-- What a well-formed list of statements spells is parsed into it. -/
theorem ofTokens_eq_of_reads {stmts : List Stmt} {ts : List Token} {e : Token} {n m : NodeId}
    (he : e.kind = .eof) (hw : Stmt.WellFormedAll stmts)
    (h : Stmt.ReadsAll stmts (ts ++ [e], n) ([e], m)) :
    Parsed.ofTokens n (ts ++ [e]) = { stmts, faults := [], nextId := m } := by
  have hend : ∃ N, ∀ k, N ≤ k → program k (stmts.reverse ++ []) ⟨[e], m, []⟩ = .ok stmts ⟨[e], m, []⟩ := by
    refine ⟨1, fun k hk => ?_⟩
    obtain ⟨j, rfl⟩ : ∃ j, k = j + 1 := ⟨k - 1, by omega⟩
    show (if e.kind = .eof then _ else _ : Parser (List Stmt)) _ = _
    rw [if_pos he, List.append_nil, List.reverse_reverse]
    rfl
  exact ofTokens_of_program he (program_of_reads hw h (by rw [Token.first_cons, he]; decide) hend)

/-- What is parsed without a fault is well formed and spelled by the tokens. -/
theorem reads_of_ofTokens {ts : List Token} {e : Token} {n : NodeId} (hts : ∀ t ∈ ts, t.kind ≠ .eof)
    (he : e.kind = .eof) (h : (Parsed.ofTokens n (ts ++ [e])).faults = []) :
    Stmt.WellFormedAll (Parsed.ofTokens n (ts ++ [e])).stmts ∧
      Stmt.ReadsAll (Parsed.ofTokens n (ts ++ [e])).stmts (ts ++ [e], n)
        ([e], (Parsed.ofTokens n (ts ++ [e])).nextId) := by
  obtain ⟨stmts, s', hrun, honward⟩ := program_ends ⟨ts ++ [e], n, []⟩
  have hparsed : Parsed.ofTokens n (ts ++ [e]) =
      { stmts, faults := s'.faults.reverse, nextId := s'.nextId } := by
    simp only [Parsed.ofTokens, Parsed.closed_append he]
    rw [show program _ [] ⟨ts ++ [e], n, []⟩ = _ from hrun]
  rw [hparsed] at h ⊢
  have hfaults : s'.faults = [] := List.reverse_eq_nil_iff.1 h
  obtain ⟨hreads, hw, heof⟩ := reads_of_program hrun (by rw [hfaults])
  have hrest : s'.rest = [e] := honward.rest.eq_of_first hts he heof
  refine ⟨hw, ?_⟩
  rw [State.cursor, State.cursor, hrest] at hreads
  exact hreads

/-- Parsing never gives an identity back, faults or not. -/
theorem nextId_le_ofTokens {ts : List Token} {e : Token} (n : NodeId) (he : e.kind = .eof) :
    n ≤ (Parsed.ofTokens n (ts ++ [e])).nextId := by
  obtain ⟨stmts, s', hrun, honward⟩ := program_ends ⟨ts ++ [e], n, []⟩
  simp only [Parsed.ofTokens, Parsed.closed_append he]
  rw [show program _ [] ⟨ts ++ [e], n, []⟩ = _ from hrun]
  exact honward.nextId

/-- Without a fault, parsing and writing out are inverse to each other, identities and positions
included. -/
theorem ofTokens_eq_iff {ts : List Token} {e : Token} {n : NodeId} (hts : ∀ t ∈ ts, t.kind ≠ .eof)
    (he : e.kind = .eof) (stmts : List Stmt) (m : NodeId) :
    Parsed.ofTokens n (ts ++ [e]) = { stmts, faults := [], nextId := m } ↔
      Stmt.WellFormedAll stmts ∧ Stmt.ReadsAll stmts (ts ++ [e], n) ([e], m) := by
  constructor
  · intro h
    have hreads := reads_of_ofTokens (n := n) hts he (by rw [h])
    rw [h] at hreads
    exact hreads
  · rintro ⟨hw, h⟩
    exact ofTokens_eq_of_reads he hw h

/-! ## Up to identities and positions -/

/-- Statements are written out by the same tokens, whatever stands behind them. -/
theorem readsAll_append {stmts : List Stmt} {ts us : List Token} {n m : Nat}
    (h : Stmt.ReadsAll stmts (ts ++ us, n) (us, m)) (rest : List Token) :
    Stmt.ReadsAll stmts (ts ++ rest, n) (rest, m) := by
  obtain ⟨used, heq, -, hr⟩ := Stmt.readsAll_map (g := id) (f := id) (fun _ _ => rfl) stmts h (Nat.zero_le n)
  have : ts = used := List.append_cancel_right heq
  subst this
  have hrest := hr rest
  rw [Stmt.mapAll_id, Token.map_move_id] at hrest
  exact hrest

/-- Statements can be numbered from any identity on. -/
theorem readsAll_renumber {stmts : List Stmt} {ts : List Token} {n m : Nat}
    (h : Stmt.ReadsAll stmts (ts, n) ([], m)) (n' : Nat) :
    ∃ stmts' m', SameTree stmts' stmts ∧ Stmt.ReadsAll stmts' (ts, n') ([], m') := by
  have hg : ∀ i, n ≤ i → i + 1 - n + n' = i - n + n' + 1 := fun i hi => by omega
  obtain ⟨used, heq, hle, hr⟩ := Stmt.readsAll_map (g := fun i => i - n + n') (f := id) hg stmts h
    (Nat.le_refl n)
  rw [List.append_nil] at heq
  subst heq
  have hrest := hr []
  have hn : n - n + n' = n' := by omega
  rw [Token.map_move_id, List.append_nil] at hrest
  simp only [hn] at hrest
  exact ⟨_, _, sameTree_map _ _ stmts, hrest⟩

/-- The parser accepts its grammar and builds the one tree that a token list spells. Without a fault the
statements are well formed and spelled by the tokens, and every well-formed list of statements is what its
spellings are parsed into, up to identities and positions. One of the spellings is the plain one. -/
theorem ofTokens_exact (n : NodeId) (e : Token) (he : e.kind = .eof) :
    (∀ ts : List Token, (∀ t ∈ ts, t.kind ≠ .eof) → (Parsed.ofTokens n (ts ++ [e])).faults = [] →
      Stmt.WellFormedAll (Parsed.ofTokens n (ts ++ [e])).stmts ∧
        Spells (Parsed.ofTokens n (ts ++ [e])).stmts ts) ∧
    (∀ (stmts : List Stmt) (ts : List Token), Stmt.WellFormedAll stmts → Spells stmts ts →
      (Parsed.ofTokens n (ts ++ [e])).faults = [] ∧
        SameTree (Parsed.ofTokens n (ts ++ [e])).stmts stmts) ∧
    ∀ stmts : List Stmt, Spells stmts (Stmt.yieldAll stmts) := by
  refine ⟨fun ts hts hfaults => ?_, fun stmts ts hw hspells => ?_, spells_yieldAll⟩
  · obtain ⟨hw, hreads⟩ := reads_of_ofTokens hts he hfaults
    have hcut := readsAll_append hreads []
    rw [List.append_nil] at hcut
    exact ⟨hw, _, _, _, rfl, hcut⟩
  · obtain ⟨stmts', k, m, hsame, hreads⟩ := hspells
    obtain ⟨stmts'', m', hsame', hreads'⟩ := readsAll_renumber hreads n
    have hall : SameTree stmts'' stmts := hsame'.trans hsame
    have hread : Stmt.ReadsAll stmts'' (ts ++ [e], n) ([e], m') := by
      rw [← List.append_nil ts] at hreads'
      exact readsAll_append hreads' [e]
    rw [ofTokens_eq_of_reads he (hall.wellFormedAll_iff.2 hw) hread]
    exact ⟨rfl, hall⟩

/-- The statement `if (a) b += c[d]; else print -e(f) * g;`. -/
def sampleBranch : Stmt :=
  let name (s : String) : Token := { kind := .identifier, lexeme := text s }
  .branch {} (.ident 0 (name "a"))
    (.expression {} (.compound 0 (name "b") .add (mark .plusAssign)
      (.index 0 (.ident 0 (name "c")) (mark .leftBracket) (.ident 0 (name "d")))))
    (some (.print {} (.binary 0 (.arith .mul) (mark .star)
      (.unary 0 .negate (mark .minus)
        (.call 0 (.ident 0 (name "e")) (mark .rightParen) [.ident 0 (name "f")]))
      (.ident 0 (name "g")))))

theorem ofTokens_exact_sample :
    (Parsed.ofTokens 7 (Stmt.yieldAll [sampleBranch] ++ [mark .eof])).faults = [] ∧
      SameTree (Parsed.ofTokens 7 (Stmt.yieldAll [sampleBranch] ++ [mark .eof])).stmts [sampleBranch] ∧
      Spells (Parsed.ofTokens 7 (Stmt.yieldAll [sampleBranch] ++ [mark .eof])).stmts
        (Stmt.yieldAll [sampleBranch]) := by
  obtain ⟨hsound, hcomplete, hyield⟩ := ofTokens_exact 7 (mark .eof) rfl
  have hw : Stmt.WellFormedAll [sampleBranch] := by
    simp [sampleBranch, mark, Stmt.WellFormedAll, Stmt.WellFormed, Stmt.WellFormedElse, Expr.WellFormed,
      Expr.WellFormedAll, Expr.rank, Stmt.isDeclaration, Stmt.opensIf, BinaryOp.level, Level.rank,
      Level.joint?, unaryOp?, compoundOp?, maxArguments]
  obtain ⟨hfaults, hsame⟩ := hcomplete _ _ hw (hyield _)
  refine ⟨hfaults, hsame, (hsound _ ?_ hfaults).2⟩
  simp [sampleBranch, mark, Stmt.yieldAll, Stmt.yield, Stmt.yieldElse, Expr.yield, Expr.yieldList,
    Expr.yieldMore]

end Treewalk
