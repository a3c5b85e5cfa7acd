import Treewalk.Proofs.Parser.Unseen

/-!
# Recovery inside a block

A fault ends the declaration it lies in, and parsing goes on at the next statement boundary. A closing brace
is no such boundary. So recovery from a fault inside a block may take the block's closing brace along, and the
block goes on behind it; or it may come to the closing brace of an inner construct, which then ends the block.

**The condition** (`leadsTo`). The declarations read from the body and its closing brace alone stop in front of
this closing brace.

**Main theorem** (`Parsed.recovered_iff_leadsTo`). Exactly then the faults of the body stay inside the block: the
block survives, and whatever tokens follow are parsed as if they stood alone (`Parsed.Recovered`).

One direction is that a parser which stops before a closing brace has not seen what stands behind it. For the
other one, a block that ends early is followed by tokens of its body with the closing brace behind them. If
no statement survives of these, recovery takes the closing brace along, and with it an expression statement behind it.
-/

namespace Treewalk.Parser

open Parse

/-! ## Reading to the end -/

/-- With enough fuel, the tokens left are read into these statements. -/
def Parses (s : State) (stmts : List Stmt) (s' : State) : Prop :=
  ∃ N, ∀ k, N ≤ k → program k [] s = .ok stmts s'

/-- With enough fuel, a declaration gives this or recovers. -/
def Round (s : State) (found : Option Stmt) (s' : State) : Prop :=
  ∃ N, ∀ k, N ≤ k → recovering (declaration k) s = .ok found s'

theorem exists_parses (s : State) : ∃ stmts s', Parses s stmts s' := by
  obtain ⟨stmts, s', hrun, -⟩ := program_ends s
  refine ⟨stmts, s', Parsed.fuelFor s.rest, fun k hk => ?_⟩
  rw [program_eq_of_le hk [] s (fun s'' => by rw [hrun]; exact nofun), hrun]

theorem Parses.unique {s s₁ s₂ : State} {stmts₁ stmts₂ : List Stmt} (h₁ : Parses s stmts₁ s₁)
    (h₂ : Parses s stmts₂ s₂) : stmts₁ = stmts₂ ∧ s₁ = s₂ := by
  obtain ⟨N₁, h₁⟩ := h₁
  obtain ⟨N₂, h₂⟩ := h₂
  have heq := (h₁ (max N₁ N₂) (Nat.le_max_left _ _)).symm.trans (h₂ _ (Nat.le_max_right _ _))
  cases heq
  exact ⟨rfl, rfl⟩

/-- At the end of input there is nothing to read. -/
theorem parses_eof {s : State} (heof : (Token.first s.rest).kind = .eof) : Parses s [] s := by
  refine ⟨1, fun k hk => ?_⟩
  obtain ⟨k, rfl⟩ : ∃ k', k = k' + 1 := ⟨k - 1, by omega⟩
  rw [program_succ, if_pos heof]
  rfl

theorem Parses.round {s s₁ s' : State} {found : Option Stmt} {stmts : List Stmt}
    (hnext : (Token.first s.rest).kind ≠ .eof) (hround : Round s found s₁) (h : Parses s₁ stmts s') :
    Parses s (found.toList ++ stmts) s' := by
  obtain ⟨N₁, h₁⟩ := hround
  obtain ⟨N₂, h₂⟩ := h
  refine ⟨max N₁ N₂ + 1, fun k hk => ?_⟩
  obtain ⟨k, rfl⟩ : ∃ k', k = k' + 1 := ⟨k - 1, by omega⟩
  rw [program_succ, if_neg hnext, h₁ k (by omega)]
  have hrest := h₂ k (by omega)
  cases found with
  | none => exact hrest
  | some stmt =>
    show program k [stmt] s₁ = _
    rw [program_done, hrest]
    rfl

/-- Faults recorded earlier stay as they are. -/
theorem Parses.earlier {s s' : State} {stmts : List Stmt} (h : Parses s stmts s') (earlier : List Diagnostic) :
    Parses { s with faults := s.faults ++ earlier } stmts { s' with faults := s'.faults ++ earlier } := by
  obtain ⟨N, h⟩ := h
  refine ⟨N, fun k hk => ?_⟩
  rw [(Routine.program []).earlier_faults, h k hk]
  rfl

/-- Faults are only added. -/
theorem Parses.faults_subset {s s' : State} {stmts : List Stmt} (h : Parses s stmts s') {d : Diagnostic}
    (hd : d ∈ s.faults) : d ∈ s'.faults := by
  obtain ⟨stmts₁, s₁, h₁⟩ := exists_parses { s with faults := [] }
  obtain ⟨-, rfl⟩ := h.unique (h₁.earlier s.faults)
  exact List.mem_append_right _ hd

/-- What a declaration does is settled once the fuel is enough. -/
theorem declaration_settles (s : State) : ∃ r, (∀ s', r ≠ .error .outOfFuel s') ∧
    ∃ N, ∀ k, N ≤ k → declaration k s = r := by
  let N := 40 * s.rest.length + 20
  have henough := Routine.declaration.not_outOfFuel (n := N) s (Nat.le_refl _)
  refine ⟨declaration N s, henough, N, fun k hk => ?_⟩
  rcases (belowAt_of_le hk).declaration s with ⟨s', hs'⟩ | hsame
  · exact absurd hs' (henough s')
  · exact hsame.symm

/-- If no statement survives, then the first declaration ends in a fault and parsing goes on behind it. -/
theorem Parses.fault {s s' : State} (h : Parses s [] s') (hnext : (Token.first s.rest).kind ≠ .eof) :
    ∃ d s₀, (∃ N, ∀ k, N ≤ k → declaration k s = .error (.fault d) s₀) ∧
      Parses { s₀ with rest := resume s₀.rest, faults := d :: s₀.faults } [] s' := by
  obtain ⟨r, hr, N, hdecl⟩ := declaration_settles s
  match r, hr with
  | .ok stmt s₁, _ =>
    have hround : Round s (some stmt) s₁ := ⟨N, fun k hk => by unfold recovering; rw [hdecl k hk]⟩
    obtain ⟨stmts, s₂, hrest⟩ := exists_parses s₁
    cases (h.unique (.round hnext hround hrest)).1
  | .error .outOfFuel s₀, hr => exact absurd rfl (hr s₀)
  | .error (.fault d) s₀, _ =>
    have hround : Round s none { s₀ with rest := resume s₀.rest, faults := d :: s₀.faults } :=
      ⟨N, fun k hk => by unfold recovering; rw [hdecl k hk]⟩
    obtain ⟨stmts, s₂, hrest⟩ := exists_parses { s₀ with rest := resume s₀.rest, faults := d :: s₀.faults }
    obtain ⟨hstmts, rfl⟩ := h.unique (.round hnext hround hrest)
    obtain rfl : stmts = [] := hstmts.symm
    exact ⟨d, s₀, ⟨N, hdecl⟩, hrest⟩

/-! ## Blocks -/

/-- The declarations of a block, from its body and closing brace alone, stop before this closing brace. -/
def leadsTo (n : NodeId) (body : List Token) (closing : Token) : Bool :=
  let tokens := body ++ [closing, { kind := .eof }]
  match blockBody (Parsed.fuelFor tokens) [] { rest := tokens, nextId := n } with
  | .ok _ s => s.rest.length = 2
  | .error _ _ => false

theorem blockBody_succ (fuel : Nat) (done : List Stmt) (s : State) :
    blockBody (fuel + 1) done s =
      if (Token.first s.rest).kind = .rightBrace || (Token.first s.rest).kind = .eof then .ok done.reverse s
      else match recovering (declaration fuel) s with
        | .ok (some stmt) s' => blockBody fuel (stmt :: done) s'
        | .ok none s' => blockBody fuel done s'
        | .error e s' => .error e s' := by
  simp only [blockBody]
  show (if (Token.first s.rest).kind = .rightBrace || (Token.first s.rest).kind = .eof then _ else _ :
    Parser (List Stmt)) s = _
  split_ifs with hend
  · rfl
  · show EStateM.bind (recovering (declaration fuel)) _ s = _
    unfold EStateM.bind
    cases recovering (declaration fuel) s with
    | ok found s' => cases found <;> rfl
    | error e s' => rfl

/-- Declarations of a block catch every fault and stop at a closing brace or at the end of input. -/
theorem blockBody_stops (fuel : Nat) : ∀ (done : List Stmt) (s : State),
    match blockBody fuel done s with
    | .ok _ s' => (Token.first s'.rest).kind = .rightBrace ∨ (Token.first s'.rest).kind = .eof
    | .error e _ => e = .outOfFuel := by
  induction fuel with
  | zero => exact fun _ _ => rfl
  | succ fuel ih =>
    intro done s
    rw [blockBody_succ]
    split_ifs with hend
    · simpa using hend
    · cases hround : recovering (declaration fuel) s with
      | ok found s' =>
        cases found with
        | some stmt => exact ih _ _
        | none => exact ih _ _
      | error e s' =>
        cases e with
        | fault d => exact absurd hround (faultless_recovering _ _ _ _)
        | outOfFuel => rfl

/-- With enough fuel, the declarations of a block are read up to a closing brace or the end of input. -/
theorem exists_blockBody (s : State) : ∃ inner s',
    (∀ k, 40 * s.rest.length + 20 ≤ k → blockBody k [] s = .ok inner s') ∧ Within s'.rest s.rest ∧
      ((Token.first s'.rest).kind = .rightBrace ∨ (Token.first s'.rest).kind = .eof) := by
  let N := 40 * s.rest.length + 20
  have hroutine : Routine N (blockBody N []) := .blockBody []
  have henough := hroutine.not_outOfFuel s (Nat.le_refl _)
  have hstops := blockBody_stops N [] s
  have hwithin := hroutine.within s
  cases hrun : blockBody N [] s with
  | error e s' =>
    rw [hrun] at hstops
    obtain rfl : e = .outOfFuel := hstops
    exact absurd hrun (henough s')
  | ok inner s' =>
    rw [hrun] at hstops hwithin
    refine ⟨inner, s', fun k hk => ?_, hwithin, hstops⟩
    rcases (belowAt_of_le hk).blockBody [] s with ⟨s'', hs''⟩ | hsame
    · exact absurd hs'' (henough s'')
    · exact hsame.symm.trans hrun

/-- A block statement is its declarations and the closing brace behind them. -/
theorem declaration_block {opening : Token} (hopen : opening.kind = .leftBrace) (fuel : Nat) (ts : List Token)
    (n : NodeId) (faults : List Diagnostic) :
    declaration (fuel + 3) ⟨opening :: ts, n, faults⟩ =
      match blockBody fuel [] ⟨ts, n, faults⟩ with
      | .ok inner s =>
        match expect .rightBrace (text "'\x7d' after block") s with
        | .ok _ s' => .ok (.block opening.pos inner) s'
        | .error e s' => .error e s'
      | .error e s' => .error e s' := by
  have hne : opening.kind ≠ .eof := by rw [hopen]; decide
  have hblock : declaration (fuel + 3) ⟨opening :: ts, n, faults⟩ =
      (block (fuel + 1) >>= fun found => pure (.block found.1.pos found.2)) ⟨opening :: ts, n, faults⟩ := by
    simp only [declaration, statement, bind, EStateM.bind, peek, List.headD_cons, hopen]
  have hbrace : expect .leftBrace (text "'\x7b'") ⟨opening :: ts, n, faults⟩ = .ok opening ⟨ts, n, faults⟩ := by
    show (if opening.kind = .leftBrace then advance else failExpected _ : Parser Token) _ = _
    rw [if_pos hopen, advance_eq, Token.first_cons, if_neg hne]
    rfl
  rw [hblock]
  simp only [block, bind, EStateM.bind, hbrace]
  cases blockBody fuel [] ⟨ts, n, faults⟩ with
  | error e s => rfl
  | ok inner s =>
    dsimp only
    cases expect .rightBrace (text "'\x7d' after block") s <;> rfl

/-- With enough fuel, the declarations of a block are these. -/
def ReadsBody (s : State) (inner : List Stmt) (s' : State) : Prop :=
  ∃ N, ∀ k, N ≤ k → blockBody k [] s = .ok inner s'

section

variable {opening closing : Token} {ts us : List Token} {n m : NodeId} {faults faults' : List Diagnostic}
  {inner stmts : List Stmt} {s' : State}

/-- A block whose declarations stop at a closing brace is a statement. -/
theorem ReadsBody.round (h : ReadsBody ⟨ts, n, faults⟩ inner ⟨closing :: us, m, faults'⟩)
    (hopen : opening.kind = .leftBrace) (hclose : closing.kind = .rightBrace) :
    Round ⟨opening :: ts, n, faults⟩ (some (.block opening.pos inner)) ⟨us, m, faults'⟩ := by
  obtain ⟨N, h⟩ := h
  have hbrace : expect .rightBrace (text "'\x7d' after block") ⟨closing :: us, m, faults'⟩ =
      .ok closing ⟨us, m, faults'⟩ := by
    have hne : closing.kind ≠ .eof := by rw [hclose]; decide
    show (if closing.kind = .rightBrace then advance else failExpected _ : Parser Token) _ = _
    rw [if_pos hclose, advance_eq, Token.first_cons, if_neg hne]
    rfl
  refine ⟨N + 3, fun k hk => ?_⟩
  obtain ⟨k, rfl⟩ : ∃ k', k = k' + 3 := ⟨k - 3, by omega⟩
  unfold recovering
  rw [declaration_block hopen, h k (by omega)]
  simp only [hbrace]

/-- A block whose declarations go on to the end of input is lost. -/
theorem ReadsBody.lost (h : ReadsBody ⟨ts, n, faults⟩ inner s') (hopen : opening.kind = .leftBrace)
    (heof : (Token.first s'.rest).kind = .eof) :
    ∃ d, Round ⟨opening :: ts, n, faults⟩ none { s' with faults := d :: s'.faults } := by
  obtain ⟨N, h⟩ := h
  have hresume : resume s'.rest = s'.rest := by
    cases hrest : s'.rest with
    | nil => rfl
    | cons t rest =>
      rw [hrest] at heof
      exact if_pos heof
  have hbrace : ∃ d, expect .rightBrace (text "'\x7d' after block") s' = .error (.fault d) s' := by
    show ∃ d, (if (Token.first s'.rest).kind = .rightBrace then advance else failExpected _ : Parser Token) _ = _
    rw [if_neg (by rw [heof]; decide)]
    exact ⟨_, rfl⟩
  obtain ⟨d, hbrace⟩ := hbrace
  refine ⟨d, N + 3, fun k hk => ?_⟩
  obtain ⟨k, rfl⟩ : ∃ k', k = k' + 3 := ⟨k - 3, by omega⟩
  unfold recovering
  rw [declaration_block hopen, h k (by omega)]
  simp only [hbrace, hresume]

/-- Behind a block, parsing goes on as it would from there. -/
theorem ReadsBody.parses (h : ReadsBody ⟨ts, n, []⟩ inner ⟨closing :: us, m, faults⟩)
    (hopen : opening.kind = .leftBrace) (hclose : closing.kind = .rightBrace)
    (hbehind : Parses ⟨us, m, []⟩ stmts s') : Parses ⟨opening :: ts, n, []⟩ (.block opening.pos inner :: stmts)
      { s' with faults := s'.faults ++ faults } := by
  have hnext : (Token.first (opening :: ts)).kind ≠ .eof := by rw [Token.first_cons, hopen]; decide
  exact Parses.round hnext (h.round hopen hclose) (hbehind.earlier faults)

/-- What stands behind a closing brace does not matter to declarations that stop before it. -/
theorem ReadsBody.exchanged {b : Token} {body xs : List Token}
    (h : ReadsBody ⟨body ++ b :: us, n, faults⟩ inner ⟨xs ++ b :: us, m, faults'⟩) (hb : b.kind = .rightBrace)
    (vs : List Token) : ReadsBody ⟨body ++ b :: vs, n, faults⟩ inner ⟨xs ++ b :: vs, m, faults'⟩ := by
  obtain ⟨N, h⟩ := h
  refine ⟨N, fun k hk => ?_⟩
  have hend : (endOf (blockBody k [] ⟨body ++ b :: us, n, faults⟩)).rest = xs ++ b :: us := by rw [h k hk]; rfl
  rw [(Routine.blockBody []).unseen_behind hb hend vs, h k hk]
  rfl

end

/-- The condition says that the declarations stop at the closing brace. -/
theorem leadsTo_iff {n : NodeId} {body : List Token} {closing : Token} : leadsTo n body closing = true ↔
    ∃ inner m faults, ReadsBody ⟨body ++ [closing, { kind := .eof }], n, []⟩ inner
      ⟨[closing, { kind := .eof }], m, faults⟩ := by
  obtain ⟨inner, ⟨rest, m, faults⟩, hrun, hwithin, -⟩ :=
    exists_blockBody ⟨body ++ [closing, { kind := .eof }], n, []⟩
  have hleads : leadsTo n body closing = decide (rest.length = 2) := by
    let tokens := body ++ [closing, { kind := .eof }]
    have hfuel : 40 * tokens.length + 20 ≤ Parsed.fuelFor tokens := by unfold Parsed.fuelFor; omega
    unfold leadsTo
    dsimp only
    rw [hrun _ hfuel]
  rw [hleads, decide_eq_true_iff]
  constructor
  · intro hlength
    obtain ⟨used, hused, -⟩ := hwithin
    obtain ⟨-, rfl⟩ := List.append_inj' hused (by rw [hlength]; rfl)
    exact ⟨inner, m, faults, _, hrun⟩
  · rintro ⟨inner', m', faults', N, hrun'⟩
    have heq := (hrun _ (Nat.le_max_left _ N)).symm.trans (hrun' _ (Nat.le_max_right _ _))
    cases heq
    rfl

/-! ## Blocks that end early -/

/-- What is left before the end of input holds the last token before it. -/
theorem Within.eq_append {ws rest : List Token} {closing e : Token} (he : e.kind = .eof)
    (h : Within rest (ws ++ [closing, e])) (hrest : (Token.first rest).kind ≠ .eof) :
    ∃ used ws', ws = used ++ ws' ∧ rest = ws' ++ [closing, e] := by
  obtain ⟨used, heq, hused⟩ := h
  rcases List.append_eq_append_iff.1 heq with ⟨c, rfl, hc⟩ | ⟨ws', rfl, rfl⟩
  · match c, hc with
    | [], hc => exact ⟨ws, [], by simp, hc.symm⟩
    | [_], hc =>
      cases hc
      exact absurd he hrest
    | _ :: e' :: c, hc =>
      obtain ⟨-, h⟩ := List.cons.inj hc
      obtain ⟨rfl, -⟩ := List.cons.inj h
      exact absurd he (hused e (by simp))
  · exact ⟨used, ws', rfl, rfl⟩

/-- Recovery takes a token unless the input is at its end. -/
theorem resume_shorter {ts : List Token} (h : (Token.first ts).kind ≠ .eof) : (resume ts).length < ts.length := by
  cases ts with
  | nil => exact absurd rfl h
  | cons t ts => exact resume_length_lt h (.refl _)

/-- If no statement survives of some tokens and a closing brace behind them, then recovery has taken the brace
along, and it takes an expression statement behind the brace along as well. By induction on the number of tokens:
every round of the loop recovers before the brace, or from before the brace to behind it. -/
theorem parses_nothing {closing y z e : Token} (hclose : closing.kind = .rightBrace)
    (hy : y.kind = .identifier) (hz : z.kind = .semicolon) (he : e.kind = .eof) (k : Nat) :
    ∀ {ws : List Token} {n : NodeId} {faults : List Diagnostic} {s' : State}, ws.length < k →
      (∀ t ∈ ws, t.kind ≠ .eof) → Parses ⟨ws ++ [closing, { kind := .eof }], n, faults⟩ [] s' →
      (∀ d ∈ s'.faults, d.incomplete = false) →
      ∃ s'', Parses ⟨ws ++ [closing, y, z, e], n, faults⟩ [] s'' := by
  have hne : closing.kind ≠ .eof := by rw [hclose]; decide
  induction k with
  | zero => exact fun h => absurd h (Nat.not_lt_zero _)
  | succ k ih =>
    intro ws n faults s' hk hws hparses hcomplete
    have hnext : ∀ us, (Token.first (ws ++ closing :: us)).kind ≠ .eof := by
      intro us
      cases ws with
      | nil => exact hne
      | cons t ws => exact hws t List.mem_cons_self
    obtain ⟨d, s₀, hdecl, hrest⟩ := hparses.fault (hnext _)
    obtain ⟨N, hdecl⟩ := hdecl
    -- the fault is before the end of input, so the brace was not taken before it
    obtain ⟨hwithin, hfault, -⟩ := (Routine.declaration (n := N)).located ⟨ws ++ [closing, { kind := .eof }], n, faults⟩
    rw [hdecl N (Nat.le_refl N)] at hwithin hfault
    have hbefore : (Token.first s₀.rest).kind ≠ .eof := by
      have hd := hcomplete d (hrest.faults_subset List.mem_cons_self)
      rw [hfault d s₀ rfl] at hd
      simpa using hd
    obtain ⟨used, ws₀, rfl, hs₀⟩ := hwithin.eq_append rfl hbefore
    have hround : Round ⟨used ++ ws₀ ++ [closing, y, z, e], n, faults⟩ none
        { s₀ with rest := resume (ws₀ ++ [closing, y, z, e]), faults := d :: s₀.faults } := by
      refine ⟨N, fun k hk => ?_⟩
      have hend : (endOf (declaration k ⟨used ++ ws₀ ++ closing :: [{ kind := .eof }], n, faults⟩)).rest =
          ws₀ ++ closing :: [{ kind := .eof }] := by
        rw [hdecl k hk]
        exact hs₀
      unfold recovering
      rw [Routine.declaration.unseen_behind hclose hend [y, z, e], hdecl k hk]
      rfl
    replace hs₀ : s₀.rest = ws₀ ++ [closing, { kind := .eof }] := hs₀
    rw [hs₀] at hrest hbefore
    rcases resume_cases ws₀ hne with ⟨ws₁, hws₁⟩ | hbehind
    · have hshorter := resume_shorter hbefore
      obtain ⟨used₁, hused₁, -⟩ := resume_within (ws₀ ++ [closing, { kind := .eof }])
      rw [hws₁] at hrest hshorter hround hused₁
      obtain rfl : ws₀ = used₁ ++ ws₁ := List.append_cancel_right (hused₁.trans (List.append_assoc ..).symm)
      have hlength : ws₁.length < k := by
        simp only [List.length_append, List.length_cons] at hshorter hk
        omega
      have hproper : ∀ t ∈ ws₁, t.kind ≠ .eof := fun t ht => hws t (by simp [ht])
      obtain ⟨s'', hs''⟩ := ih hlength hproper hrest hcomplete
      exact ⟨s'', .round (hnext _) hround hs''⟩
    · have hdropped : dropToBoundary closing.kind [y, z, e] = [e] := by
        simp [dropToBoundary, startsStatement, hclose, hy, hz, he]
      rw [hbehind, hdropped] at hround
      exact ⟨_, .round (hnext _) hround (parses_eof he)⟩

end Treewalk.Parser

namespace Treewalk.Parsed

open Parse Treewalk.Parser

/-- Faults between the braces stay there: the block survives, none of its faults is at the end of input, and
whatever follows is parsed as it would be alone. -/
structure Recovered (n : NodeId) (opening : Token) (body : List Token) (closing : Token) : Prop where
  survives : ∃ inner, (ofTokens n (opening :: body ++ [closing])).stmts = [.block opening.pos inner]
  complete : ∀ d ∈ (ofTokens n (opening :: body ++ [closing])).faults, d.incomplete = false
  behind : ∀ (ys : List Token) (e : Token), e.kind = .eof →
    let block := ofTokens n (opening :: body ++ [closing])
    let after := ofTokens block.nextId (ys ++ [e])
    ofTokens n (opening :: body ++ closing :: (ys ++ [e])) =
      { stmts := block.stmts ++ after.stmts, faults := block.faults ++ after.faults, nextId := after.nextId }

section

variable {n : NodeId} {opening closing : Token} {body : List Token}

theorem closed_block {e : Token} (he : e.kind = .eof) (ys : List Token) :
    closed (opening :: body ++ closing :: (ys ++ [e])) = opening :: body ++ closing :: (ys ++ [e]) := by
  rw [show opening :: body ++ closing :: (ys ++ [e]) = (opening :: body ++ closing :: ys) ++ [e] by simp,
    closed_append he]

/-- What is read with enough fuel is what parsing gives. -/
theorem ofTokens_of_parses {all : List Token} {stmts : List Stmt} {s' : State} (hall : closed all = all)
    (h : Parses ⟨all, n, []⟩ stmts s') :
    ofTokens n all = { stmts, faults := s'.faults.reverse, nextId := s'.nextId } := by
  obtain ⟨stmts₁, s₁, hrun, -⟩ := program_ends ⟨all, n, []⟩
  obtain ⟨rfl, rfl⟩ := h.unique ⟨_, fun k hk => by
    rw [program_eq_of_le hk [] _ (fun s'' => by rw [hrun]; exact nofun), hrun]⟩
  unfold ofTokens
  rw [hall]
  dsimp only
  rw [show program (fuelFor all) [] ⟨all, n, []⟩ = _ from hrun]

/-- A block that stands alone is closed by the end of input. -/
theorem ofTokens_alone {stmts : List Stmt} {s' : State} (hclose : closing.kind = .rightBrace)
    (h : Parses ⟨opening :: body ++ [closing, { kind := .eof }], n, []⟩ stmts s') :
    ofTokens n (opening :: body ++ [closing]) = { stmts, faults := s'.faults.reverse, nextId := s'.nextId } := by
  have hclosed : closed (opening :: body ++ [closing]) = opening :: body ++ [closing, { kind := .eof }] := by
    have hne : closing.kind ≠ .eof := by rw [hclose]; decide
    rw [closed, List.getLast?_concat]
    simp only [if_neg hne, List.append_assoc, List.singleton_append]
  have hsame : ofTokens n (opening :: body ++ [closing]) =
      ofTokens n (opening :: body ++ closing :: ([] ++ [{ kind := .eof }])) := by
    unfold ofTokens
    rw [hclosed, closed_block rfl []]
    rfl
  rw [hsame, ofTokens_of_parses (closed_block rfl []) h]

theorem recovered_of_leadsTo (hopen : opening.kind = .leftBrace) (hclose : closing.kind = .rightBrace)
    (h : leadsTo n body closing = true) : Recovered n opening body closing := by
  obtain ⟨inner, m, faults, hread⟩ := leadsTo_iff.1 h
  have hne : closing.kind ≠ .eof := by rw [hclose]; decide
  have hblock : ofTokens n (opening :: body ++ [closing]) =
      { stmts := [.block opening.pos inner], faults := faults.reverse, nextId := m } := by
    have hend : Parses ⟨[{ kind := .eof }], m, []⟩ [] ⟨[{ kind := .eof }], m, []⟩ := parses_eof rfl
    rw [ofTokens_alone hclose (hread.parses hopen hclose hend)]
    rfl
  refine ⟨⟨inner, by rw [hblock]⟩, ?_, fun ys e he => ?_⟩
  · obtain ⟨N, hrun⟩ := hread
    obtain ⟨-, -, hcomplete⟩ := (Routine.blockBody (n := N) []).located ⟨body ++ [closing, { kind := .eof }], n, []⟩
    rw [hrun N (Nat.le_refl N)] at hcomplete
    rw [hblock]
    exact fun d hd => hcomplete hne nofun d (List.mem_reverse.1 hd)
  · obtain ⟨stmts, s', hafter⟩ := exists_parses ⟨ys ++ [e], m, []⟩
    have hread' : ReadsBody ⟨body ++ closing :: [{ kind := .eof }], n, []⟩ inner
      ⟨[] ++ closing :: [{ kind := .eof }], m, faults⟩ := hread
    have hwhole := (hread'.exchanged hclose (ys ++ [e])).parses hopen hclose hafter
    dsimp only
    rw [hblock, ofTokens_of_parses (closed_append he) hafter, ofTokens_of_parses (closed_block he ys) hwhole]
    simp

/-- Suppose that the block survives alone and that what follows is parsed as it would be alone. Then all of the
body is read in it: if the block ended early, an expression statement behind it would be lost. -/
theorem leadsTo_of_recovered (hopen : opening.kind = .leftBrace) (hclose : closing.kind = .rightBrace)
    (hbody : ∀ t ∈ body, t.kind ≠ .eof) (h : Recovered n opening body closing) : leadsTo n body closing = true := by
  obtain ⟨inner, ⟨rest, m, faults⟩, hrun, hwithin, hstop⟩ :=
    exists_blockBody ⟨body ++ [closing, { kind := .eof }], n, []⟩
  have hread : ReadsBody ⟨body ++ [closing, { kind := .eof }], n, []⟩ inner ⟨rest, m, faults⟩ := ⟨_, hrun⟩
  have hne : closing.kind ≠ .eof := by rw [hclose]; decide
  obtain ⟨inner', hsurvives⟩ := h.survives
  by_cases heof : (Token.first rest).kind = .eof
  · -- the block goes on to the end of input and is lost
    obtain ⟨d, hlost⟩ := hread.lost hopen heof
    have hnext : (Token.first (opening :: (body ++ [closing, { kind := .eof }]))).kind ≠ .eof := by
      rw [Token.first_cons, hopen]; decide
    have hwhole := Parses.round hnext hlost (parses_eof heof)
    rw [ofTokens_alone hclose hwhole] at hsurvives
    cases hsurvives
  obtain ⟨used, ws, rfl, rfl⟩ := hwithin.eq_append rfl heof
  cases ws with
  | nil => exact leadsTo_iff.2 ⟨inner, m, faults, by simpa using hread⟩
  | cons b ws =>
    -- another brace of the body ends the block
    have hb : b.kind = .rightBrace := hstop.resolve_right heof
    obtain ⟨stmts, s', hbehind⟩ := exists_parses ⟨ws ++ [closing, { kind := .eof }], m, []⟩
    have hblock := ofTokens_alone hclose (hread.parses hopen hb hbehind)
    have hcomplete := h.complete
    rw [hblock] at hsurvives hcomplete
    obtain ⟨-, rfl⟩ := List.cons.inj hsurvives
    -- so no statement survives behind the block, nor does one that comes after the closing brace
    let y : Token := { kind := .identifier }
    let z : Token := { kind := .semicolon }
    let e : Token := { kind := .eof }
    obtain ⟨s'', hnothing⟩ := parses_nothing (y := y) (z := z) (e := e) hclose rfl rfl rfl _ (Nat.lt_succ_self _)
      (fun t ht => hbody t (by simp [ht])) hbehind (fun d hd => hcomplete d (by simp [hd]))
    have hwhole := ofTokens_of_parses (closed_block rfl [y, z])
      ((hread.exchanged hclose [y, z, e]).parses hopen hb hnothing)
    have hbehind' := h.behind [y, z] e rfl
    dsimp only at hbehind'
    rw [hblock] at hbehind'
    have hlength := congrArg (fun parsed => parsed.stmts.length) (hwhole.symm.trans hbehind')
    have hafter : ∀ n, (ofTokens n [y, z, e]).stmts.length = 1 := fun _ => rfl
    simp only [List.length_cons, List.length_nil, List.cons_append, List.nil_append, hafter] at hlength
    omega

end

/-- What stands in braces is parsed on its own, faults included, exactly if its declarations lead to the closing
brace. -/
theorem recovered_iff_leadsTo (n : NodeId) {opening closing : Token} {body : List Token}
    (hopen : opening.kind = .leftBrace) (hclose : closing.kind = .rightBrace) (hbody : ∀ t ∈ body, t.kind ≠ .eof) :
    Recovered n opening body closing ↔ leadsTo n body closing = true :=
  ⟨leadsTo_of_recovered hopen hclose hbody, recovered_of_leadsTo hopen hclose⟩

/-- A number too many in the first of two statements; recovery goes on behind its semicolon. -/
theorem recovered_before_semicolon :
    let opening : Token := { kind := .leftBrace }
    let closing : Token := { kind := .rightBrace }
    let body : List Token := [{ kind := .number }, { kind := .number }, { kind := .semicolon },
      { kind := .identifier }, { kind := .semicolon }]
    leadsTo 0 body closing = true ∧ (ofTokens 0 (opening :: body ++ [closing])).faults.length = 1 ∧
      Recovered 0 opening body closing :=
  ⟨by decide +kernel, by decide +kernel,
    (recovered_iff_leadsTo 0 rfl rfl (by decide +kernel)).2 (by decide +kernel)⟩

/-- A missing semicolon at the closing brace; recovery takes the brace along, so the block lacks it and is lost,
and with it the statement behind. -/
theorem recovery_takes_brace :
    (ofSource 0 (text "\x7b x \x7d print 1;")).stmts.length = 0 ∧ (ofSource 0 (text "print 1;")).stmts.length = 1 ∧
      (ofSource 0 (text "\x7b x \x7d print 1;")).faults.map (fun d => (d.place, d.message, d.incomplete)) =
        [(⟨1, 5⟩, text "expected ';' after expression, found '\x7d'", false),
          (⟨1, 15⟩, text "expected '\x7d' after block, found end of input", true)] := by
  decide +kernel

end Treewalk.Parsed
