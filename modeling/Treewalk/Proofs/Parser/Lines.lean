import Treewalk.Proofs.Parser.Exact
import Treewalk.Proofs.Parser.Shift

/-!
# Parsing line by line

A source without faults and any source on the lines behind it are parsed one after the other. Only `else`
could draw the second source into the last statement of the first.

**Tokens** (`Token.scan_lines`). A newline ends every token, so the tokens of the whole are those of both.

**Statements** (`ofTokens_behind`). A statement without a fault looks at no token behind its last one, `else`
apart. When the first source is used up, the parser is where it would be at the start of the second one, but
with statements in hand and with later identities. It never looks at those, and faults only ever drop tokens
that are still to come.

**Main theorem** (`Parsed.ofSource_lines`). The statements are those of both sources and the faults are those
of the second one, all of the second one moved down.
-/

namespace Treewalk

open Treewalk.Parser Treewalk.Parse

/-! ## Statements in hand -/

theorem Parser.program_succ (fuel : Nat) (done : List Stmt) (s : State) :
    program (fuel + 1) done s =
      if (Token.first s.rest).kind = .eof then .ok done.reverse s
      else match recovering (declaration fuel) s with
        | .ok (some stmt) s' => program fuel (stmt :: done) s'
        | .ok none s' => program fuel done s'
        | .error e s' => .error e s' := by
  show (if (Token.first s.rest).kind = .eof then _ else _ : Parser (List Stmt)) s = _
  split_ifs with heof
  · rfl
  · show EStateM.bind (recovering (declaration fuel)) _ s = _
    unfold EStateM.bind
    cases recovering (declaration fuel) s with
    | ok found s' => cases found <;> rfl
    | error e s' => rfl

/-- The statements in hand come before those still to be read, and do not matter for these. -/
theorem Parser.program_done (fuel : Nat) (done : List Stmt) (s : State) :
    program fuel done s =
      match program fuel [] s with
      | .ok stmts s' => .ok (done.reverse ++ stmts) s'
      | .error e s' => .error e s' := by
  induction fuel generalizing done s with
  | zero => rfl
  | succ fuel ih =>
    rw [program_succ, program_succ fuel []]
    split_ifs with heof
    · simp
    · cases recovering (declaration fuel) s with
      | error e s' => rfl
      | ok found s' =>
        cases found with
        | none => exact ih done s'
        | some stmt =>
          simp only [ih (stmt :: done), ih [stmt]]
          cases program fuel [] s' <;> simp

/-! ## One text behind another -/

namespace Parsed

/-- Tokens that spell statements and any others behind them that do not go on with `else` are parsed one
after the other. -/
theorem ofTokens_behind {ts us : List Token} {d e : Token} {n : NodeId} (hts : ∀ t ∈ ts, t.kind ≠ .eof)
    (hd : d.kind = .eof) (he : e.kind = .eof) (hfirst : (ofTokens n (ts ++ [d])).faults = [])
    (helse : (Token.first (us ++ [e])).kind ≠ .elseWord) :
    ofTokens n (ts ++ (us ++ [e])) =
      { stmts := (ofTokens n (ts ++ [d])).stmts ++
          (ofTokens (ofTokens n (ts ++ [d])).nextId (us ++ [e])).stmts
        faults := (ofTokens (ofTokens n (ts ++ [d])).nextId (us ++ [e])).faults
        nextId := (ofTokens (ofTokens n (ts ++ [d])).nextId (us ++ [e])).nextId } := by
  obtain ⟨hw, hreads⟩ := reads_of_ofTokens hts hd hfirst
  have hreads := readsAll_append hreads (us ++ [e])
  generalize ofTokens n (ts ++ [d]) = first at hw hreads ⊢
  obtain ⟨stmts, s', hrun, -⟩ := program_ends ⟨us ++ [e], first.nextId, []⟩
  have henough : ∀ k, fuelFor (us ++ [e]) ≤ k →
      program k [] ⟨us ++ [e], first.nextId, []⟩ = .ok stmts s' := by
    intro k hk
    rw [program_eq_of_le hk [] _ (fun s'' => by rw [hrun]; exact nofun), hrun]
  have hwhole := @program_of_reads first.stmts [] _ _ [] (.ok (first.stmts ++ stmts) s') hw hreads helse
    ⟨fuelFor (us ++ [e]), fun k hk => by rw [program_done, henough k hk]; simp⟩
  rw [← List.append_assoc] at hwhole ⊢
  rw [ofTokens_of_program he hwhole, ofTokens_of_program he ⟨_, henough⟩]

/-- How far down a source behind another one stands. -/
def below (source : Bytes) : Position → Position :=
  Position.down (source.length + 1) (source.count Bytes.newline + 1)

/-- The fuel is enough for every source. -/
theorem exhausted_ofSource (n : NodeId) (source : Bytes) : (ofSource n source).exhausted = false := by
  obtain ⟨ts, e, htokens, he, -⟩ := Token.scan_tokens source
  obtain ⟨stmts, s', hrun, -⟩ := Parser.program_ends ⟨ts ++ [e], n, []⟩
  simp only [ofSource, ofTokens, htokens, closed_append he]
  rw [show Parser.program _ [] ⟨ts ++ [e], n, []⟩ = _ from hrun]

/-- A source without faults does not start with `else`. -/
theorem first_ne_else {n : NodeId} {source : Bytes} (h : (ofSource n source).faults = []) :
    (Token.first (Token.scan source).tokens).kind ≠ .elseWord := by
  obtain ⟨ts, e, htokens, he, hproper⟩ := Token.scan_tokens source
  have hparsed := (List.append_eq_nil_iff.1 h).2
  rw [htokens] at hparsed ⊢
  obtain ⟨hw, hreads⟩ := reads_of_ofTokens (fun t ht => (hproper t ht).kind) he hparsed
  exact ne_else_of_readsAll hreads hw (by rw [Token.first_cons, he]; decide)

/-- A source without faults and another one on the lines behind it: the statements of both and the faults of
the second one, which is read with the identities that it has in the whole. -/
theorem ofSource_below {n : NodeId} {source more : Bytes} (hfirst : (ofSource n source).faults = [])
    (helse : (Token.first (Token.scan more).tokens).kind ≠ .elseWord) :
    ofSource n (source ++ Bytes.newline :: more) =
      { stmts := (ofSource n source).stmts ++
          Stmt.mapAll id (below source) (ofSource (ofSource n source).nextId more).stmts
        faults := (ofSource (ofSource n source).nextId more).faults.map
          (Diagnostic.down (source.count Bytes.newline + 1))
        nextId := (ofSource (ofSource n source).nextId more).nextId } := by
  obtain ⟨hscan, hparsed⟩ := List.append_eq_nil_iff.1 hfirst
  obtain ⟨ts, d, htokens, hboth, hfaults⟩ := Token.scan_lines hscan more
  obtain ⟨ts', d', htokens', hd, hproper⟩ := Token.scan_tokens source
  obtain ⟨us, e, hmore, he, -⟩ := Token.scan_tokens more
  obtain ⟨rfl, rfl⟩ : ts = ts' ∧ d = d' := by
    rw [htokens] at htokens'
    exact List.append_singleton_inj.1 htokens'
  simp only [ofSource, htokens, hmore] at hparsed helse ⊢
  have hmoved : (us ++ [e]).map (Token.move (below source)) =
      us.map (Token.move (below source)) ++ [e.move (below source)] := by simp
  have hbehind := @ofTokens_behind ts (us.map (Token.move (below source))) d (e.move (below source)) n
    (fun t ht => (hproper t ht).kind) hd he hparsed (by cases us <;> exact helse)
  rw [← hmoved] at hbehind
  unfold below at hbehind ⊢
  rw [hboth, hmore, hfaults, hbehind, ofTokens_move _ _ _ he, List.map_append]

/-- A source without faults and any source behind it that does not start with `else`: the whole has the
statements of the first and those that survive of the second, moved down, up to identities; and its faults are
those of the second, moved down. -/
theorem ofSource_lines (n k m : NodeId) {source more : Bytes} (hfirst : (ofSource k source).faults = [])
    (helse : (Token.first (Token.scan more).tokens).kind ≠ .elseWord) :
    Stmt.mapAll blank id (ofSource n (source ++ Bytes.newline :: more)).stmts =
        Stmt.mapAll blank id (ofSource k source).stmts ++
          Stmt.mapAll blank (below source) (ofSource m more).stmts ∧
      (ofSource n (source ++ Bytes.newline :: more)).faults =
        (ofSource m more).faults.map (Diagnostic.down (source.count Bytes.newline + 1)) := by
  have hfaults : (ofSource n source).faults = [] := by rw [faults_ofSource n k, hfirst]
  rw [ofSource_below hfaults helse]
  constructor
  · rw [Stmt.mapAll_append, Stmt.mapAll_mapAll, stmts_ofSource n k]
    exact congrArg _ (stmts_ofSource _ m more _)
  · exact congrArg _ (faults_ofSource _ m more)

/-- The second source has two faults, one of them at its end, and one statement that survives. -/
theorem ofSource_lines_refused :
    (ofSource 0 (text "if (a) b;\nc;")).faults = [] ∧
      (ofSource 0 (text "print ;\nd; e")).stmts.length = 1 ∧
      (ofSource 7 (text "if (a) b;\nc;\nprint ;\nd; e")).stmts.length = 3 ∧
      (ofSource 7 (text "if (a) b;\nc;\nprint ;\nd; e")).faults.map (fun d => (d.place, d.incomplete)) =
        [(⟨3, 7⟩, false), (⟨4, 5⟩, true)] := by
  have hfaults : (ofSource 0 (text "if (a) b;\nc;")).faults = [] := by decide +kernel
  have hmore : (ofSource 0 (text "print ;\nd; e")).stmts.length = 1 := by decide +kernel
  have hsource : (ofSource 0 (text "if (a) b;\nc;")).stmts.length = 2 := by decide +kernel
  obtain ⟨hstmts, hboth⟩ := @ofSource_lines 7 0 0 _ (text "print ;\nd; e") hfaults (by decide +kernel)
  have hwhole : text "if (a) b;\nc;" ++ Bytes.newline :: text "print ;\nd; e" =
      text "if (a) b;\nc;\nprint ;\nd; e" := by decide +kernel
  rw [hwhole] at hstmts hboth
  refine ⟨hfaults, hmore, ?_, ?_⟩
  · have hlength := congrArg List.length hstmts
    simpa only [Stmt.mapAll_eq_map, List.length_map, List.length_append, hsource, hmore] using hlength
  · rw [hboth]
    decide +kernel

end Parsed

end Treewalk
