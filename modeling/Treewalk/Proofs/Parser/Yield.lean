import Treewalk.Proofs.Parser.Grammar

/-!
# The plain way to write a tree

`Stmt.yieldAll` writes statements out as tokens: the tokens that the tree holds where they stand, the
usual marks and keywords between them, and the fields of a class before its methods. What it writes is
one of the spellings of the statements (`spells_yieldAll`).
-/

namespace Treewalk

/-- The usual token of a kind that has one spelling. -/
def mark (kind : Token.Kind) : Token := { kind, lexeme := kind.name }

/-- Names behind the first one. -/
def yieldMoreParams : List Token → List Token
  | [] => []
  | p :: ps => mark .comma :: p :: yieldMoreParams ps

/-- Names between commas. -/
def yieldParams : List Token → List Token
  | [] => []
  | p :: ps => p :: yieldMoreParams ps

mutual

/-- The tokens of an expression. -/
def Expr.yield : Expr → List Token
  | .literal _ t => [t]
  | .group _ t e => t :: (e.yield ++ [mark .rightParen])
  | .unary _ _ t e => t :: e.yield
  | .binary _ _ t l r => l.yield ++ t :: r.yield
  | .logical _ _ t l r => l.yield ++ t :: r.yield
  | .ternary _ t c y n => c.yield ++ t :: (y.yield ++ mark .colon :: n.yield)
  | .ident _ t => [t]
  | .assign _ t e => t :: mark .assign :: e.yield
  | .compound _ t _ u e => t :: u :: e.yield
  | .update _ t _ u before => if before then [u, t] else [t, u]
  | .updateIndex _ o t i _ u before =>
    if before then u :: (o.yield ++ t :: (i.yield ++ [mark .rightBracket]))
    else o.yield ++ t :: (i.yield ++ [mark .rightBracket, u])
  | .updateGet _ o t _ u before =>
    if before then u :: (o.yield ++ [mark .dot, t]) else o.yield ++ [mark .dot, t, u]
  | .call _ c t args => c.yield ++ mark .leftParen :: (Expr.yieldList args ++ [t])
  | .lambda _ t ps body =>
    t :: mark .leftParen :: (yieldParams ps ++ mark .rightParen :: mark .leftBrace ::
      (Stmt.yieldAll body ++ [mark .rightBrace]))
  | .array _ t es => t :: (Expr.yieldList es ++ [mark .rightBracket])
  | .index _ o t i => o.yield ++ t :: (i.yield ++ [mark .rightBracket])
  | .get _ o t => o.yield ++ [mark .dot, t]
  | .set _ o t e => o.yield ++ mark .dot :: t :: mark .assign :: e.yield
  | .this _ t => [t]

/-- Expressions between commas. -/
def Expr.yieldList : List Expr → List Token
  | [] => []
  | e :: es => e.yield ++ Expr.yieldMore es

/-- Expressions behind the first one. -/
def Expr.yieldMore : List Expr → List Token
  | [] => []
  | e :: es => mark .comma :: (e.yield ++ Expr.yieldMore es)

/-- An expression that may be absent. -/
def Expr.yieldOpt : Option Expr → List Token
  | none => []
  | some e => e.yield

/-- The value of a variable. -/
def Expr.yieldValue : Option Expr → List Token
  | none => []
  | some e => mark .assign :: e.yield

/-- The tokens of a statement. -/
def Stmt.yield : Stmt → List Token
  | .expression _ e => e.yield ++ [mark .semicolon]
  | .print _ e => mark .printWord :: (e.yield ++ [mark .semicolon])
  | .declare _ t v => mark .letWord :: t :: (Expr.yieldValue v ++ [mark .semicolon])
  | .block _ body => mark .leftBrace :: (Stmt.yieldAll body ++ [mark .rightBrace])
  | .branch _ c y n =>
    mark .ifWord :: mark .leftParen :: (c.yield ++ mark .rightParen :: (y.yield ++ Stmt.yieldElse n))
  | .loop _ c b => mark .whileWord :: mark .leftParen :: (c.yield ++ mark .rightParen :: b.yield)
  | .forLoop _ s c u b =>
    mark .forWord :: mark .leftParen :: (Stmt.yieldClause s ++ (Expr.yieldOpt c ++ mark .semicolon ::
      (Expr.yieldOpt u ++ mark .rightParen :: b.yield)))
  | .leave t => [t, mark .semicolon]
  | .skip t => [t, mark .semicolon]
  | .result t v => t :: (Expr.yieldOpt v ++ [mark .semicolon])
  | .function d => mark .funWord :: d.yield
  | .classDecl _ t fs ms =>
    mark .classWord :: t :: mark .leftBrace ::
      (Field.yieldAll fs ++ (Function.yieldAll ms ++ [mark .rightBrace]))

/-- Statements one after the other. -/
def Stmt.yieldAll : List Stmt → List Token
  | [] => []
  | s :: ss => s.yield ++ Stmt.yieldAll ss

/-- What follows a branch. -/
def Stmt.yieldElse : Option Stmt → List Token
  | none => []
  | some s => mark .elseWord :: s.yield

/-- The first clause of a loop's header. -/
def Stmt.yieldClause : Option Stmt → List Token
  | none => [mark .semicolon]
  | some s => s.yield

/-- A function from its name on. -/
def Function.yield : Function → List Token
  | .mk t ps body =>
    t :: mark .leftParen :: (yieldParams ps ++ mark .rightParen :: mark .leftBrace ::
      (Stmt.yieldAll body ++ [mark .rightBrace]))

/-- Methods one after the other. -/
def Function.yieldAll : List Function → List Token
  | [] => []
  | d :: ds => d.yield ++ Function.yieldAll ds

/-- Fields one after the other. -/
def Field.yieldAll : List Field → List Token
  | [] => []
  | .mk t e :: ds => t :: mark .assign :: (e.yield ++ mark .semicolon :: Field.yieldAll ds)

end

/-! ## It is a spelling -/

theorem moreParams_yield (ps rest : List Token) : MoreParams ps (yieldMoreParams ps ++ rest) rest := by
  induction ps with
  | nil => exact .nil
  | cons p ps ih => exact .cons rfl ih

theorem params_yield (ps rest : List Token) : Params ps (yieldParams ps ++ rest) rest := by
  cases ps with
  | nil => exact .nil
  | cons p ps => exact .cons (moreParams_yield ps rest)

/-- An expression takes a token at least. -/
theorem Expr.yield_ne_nil (e : Expr) : e.yield ≠ [] := by
  cases e <;> simp [Expr.yield] <;> split <;> simp

mutual

theorem Expr.reads_yield : ∀ (e : Expr) (n : NodeId), ∃ e' m, e'.map blank nowhere = e.map blank nowhere ∧
    ∀ rest, Expr.Reads e' (e.yield ++ rest, n) (rest, m)
  | .literal _ t, n => ⟨.literal n t, n + 1, rfl, fun _ => .literal⟩
  | .ident _ t, n => ⟨.ident n t, n + 1, rfl, fun _ => .ident⟩
  | .this _ t, n => ⟨.this n t, n + 1, rfl, fun _ => .this⟩
  | .group _ t e, n => by
    obtain ⟨e', m, he, hr⟩ := Expr.reads_yield e n
    refine ⟨.group m t e', m + 1, by simp only [Expr.map, he, blank], fun rest => ?_⟩
    simp only [Expr.yield, List.cons_append, List.append_assoc]
    exact .group (hr _) rfl
  | .unary _ op t e, n => by
    obtain ⟨e', m, he, hr⟩ := Expr.reads_yield e n
    exact ⟨.unary m op t e', m + 1, by simp only [Expr.map, he, blank], fun rest => .unary (hr rest)⟩
  | .binary _ op t l r, n => by
    obtain ⟨l', i, hl, hrl⟩ := Expr.reads_yield l n
    obtain ⟨r', j, hr, hrr⟩ := Expr.reads_yield r i
    refine ⟨.binary j op t l' r', j + 1, by simp only [Expr.map, hl, hr, blank], fun rest => ?_⟩
    simp only [Expr.yield, List.append_assoc]
    exact .binary (hrl _) (hrr _)
  | .logical _ op t l r, n => by
    obtain ⟨l', i, hl, hrl⟩ := Expr.reads_yield l n
    obtain ⟨r', j, hr, hrr⟩ := Expr.reads_yield r i
    refine ⟨.logical j op t l' r', j + 1, by simp only [Expr.map, hl, hr, blank], fun rest => ?_⟩
    simp only [Expr.yield, List.append_assoc]
    exact .logical (hrl _) (hrr _)
  | .ternary _ t c y no, n => by
    obtain ⟨c', i, hc, hrc⟩ := Expr.reads_yield c n
    obtain ⟨y', j, hy, hry⟩ := Expr.reads_yield y i
    obtain ⟨n', k, hn, hrn⟩ := Expr.reads_yield no j
    refine ⟨.ternary k t c' y' n', k + 1, by simp only [Expr.map, hc, hy, hn, blank], fun rest => ?_⟩
    simp only [Expr.yield, List.append_assoc, List.cons_append]
    exact .ternary (hrc _) (hry _) rfl (hrn _)
  | .assign _ t e, n => by
    obtain ⟨e', m, he, hr⟩ := Expr.reads_yield e (n + 1)
    exact ⟨.assign m t e', m + 1, by simp only [Expr.map, he, blank], fun rest => .assign rfl (hr rest)⟩
  | .compound _ t op u e, n => by
    obtain ⟨e', m, he, hr⟩ := Expr.reads_yield e (n + 1)
    exact ⟨.compound m t op u e', m + 1, by simp only [Expr.map, he, blank], fun rest => .compound (hr rest)⟩
  | .update _ t op u before, n => by
    refine ⟨.update (n + 1) t op u before, n + 2, rfl, fun rest => ?_⟩
    cases before with
    | true => exact .updateBefore
    | false => exact .updateAfter
  | .updateIndex _ o t i op u before, n => by
    obtain ⟨o', j, ho, hro⟩ := Expr.reads_yield o n
    obtain ⟨i', k, hi, hri⟩ := Expr.reads_yield i j
    refine ⟨.updateIndex (k + 1) o' t i' op u before, k + 2, by simp only [Expr.map, ho, hi, blank],
      fun rest => ?_⟩
    cases before with
    | true =>
      simp only [Expr.yield, if_true, List.append_assoc, List.cons_append]
      exact .updateIndexBefore (hro _) (hri _) rfl
    | false =>
      simp only [Expr.yield, Bool.false_eq_true, if_false, List.append_assoc, List.cons_append]
      exact .updateIndexAfter (hro _) (hri _) rfl
  | .updateGet _ o t op u before, n => by
    obtain ⟨o', j, ho, hro⟩ := Expr.reads_yield o n
    refine ⟨.updateGet (j + 1) o' t op u before, j + 2, by simp only [Expr.map, ho, blank],
      fun rest => ?_⟩
    cases before with
    | true =>
      simp only [Expr.yield, if_true, List.append_assoc, List.cons_append]
      exact .updateGetBefore (hro _) rfl
    | false =>
      simp only [Expr.yield, Bool.false_eq_true, if_false, List.append_assoc, List.cons_append]
      exact .updateGetAfter (hro _) rfl
  | .call _ c t args, n => by
    obtain ⟨c', i, hc, hrc⟩ := Expr.reads_yield c n
    obtain ⟨args', j, ha, hra⟩ := Expr.readsList_yield args i
    refine ⟨.call j c' t args', j + 1, by simp only [Expr.map, hc, ha, blank], fun rest => ?_⟩
    simp only [Expr.yield, List.append_assoc, List.cons_append]
    exact .call (hrc _) rfl (hra _)
  | .lambda _ t ps body, n => by
    obtain ⟨body', m, hb, hr⟩ := Stmt.readsAll_yield body n
    refine ⟨.lambda m t ps body', m + 1, by simp only [Expr.map, hb, blank], fun rest => ?_⟩
    simp only [Expr.yield, List.append_assoc, List.cons_append]
    exact .lambda (.mk rfl (params_yield ps _) rfl rfl (hr _) rfl)
  | .array _ t es, n => by
    obtain ⟨es', m, he, hr⟩ := Expr.readsList_yield es n
    refine ⟨.array m t es', m + 1, by simp only [Expr.map, he, blank], fun rest => ?_⟩
    simp only [Expr.yield, List.cons_append, List.append_assoc]
    exact .array (hr _) rfl
  | .index _ o t i, n => by
    obtain ⟨o', j, ho, hro⟩ := Expr.reads_yield o n
    obtain ⟨i', k, hi, hri⟩ := Expr.reads_yield i j
    refine ⟨.index k o' t i', k + 1, by simp only [Expr.map, ho, hi, blank], fun rest => ?_⟩
    simp only [Expr.yield, List.append_assoc, List.cons_append]
    exact .index (hro _) (hri _) rfl
  | .get _ o t, n => by
    obtain ⟨o', j, ho, hro⟩ := Expr.reads_yield o n
    refine ⟨.get j o' t, j + 1, by simp only [Expr.map, ho, blank], fun rest => ?_⟩
    simp only [Expr.yield, List.append_assoc, List.cons_append]
    exact .get (hro _) rfl
  | .set _ o t e, n => by
    obtain ⟨o', j, ho, hro⟩ := Expr.reads_yield o n
    obtain ⟨e', k, he, hre⟩ := Expr.reads_yield e (j + 1)
    refine ⟨.set k o' t e', k + 1, by simp only [Expr.map, ho, he, blank], fun rest => ?_⟩
    simp only [Expr.yield, List.append_assoc, List.cons_append]
    exact .set (hro _) rfl rfl (hre _)

theorem Expr.readsList_yield : ∀ (es : List Expr) (n : NodeId), ∃ es' m,
    Expr.mapAll blank nowhere es' = Expr.mapAll blank nowhere es ∧
      ∀ rest, Expr.ReadsList es' (Expr.yieldList es ++ rest, n) (rest, m)
  | [], n => ⟨[], n, rfl, fun _ => .nil⟩
  | e :: es, n => by
    obtain ⟨e', i, he, hre⟩ := Expr.reads_yield e n
    obtain ⟨es', j, hes, hres⟩ := Expr.readsMore_yield es i
    refine ⟨e' :: es', j, by simp only [Expr.mapAll, he, hes], fun rest => ?_⟩
    simp only [Expr.yieldList, List.append_assoc]
    exact .cons (hre _) (hres _)

theorem Expr.readsMore_yield : ∀ (es : List Expr) (n : NodeId), ∃ es' m,
    Expr.mapAll blank nowhere es' = Expr.mapAll blank nowhere es ∧
      ∀ rest, Expr.ReadsMore es' (Expr.yieldMore es ++ rest, n) (rest, m)
  | [], n => ⟨[], n, rfl, fun _ => .nil⟩
  | e :: es, n => by
    obtain ⟨e', i, he, hre⟩ := Expr.reads_yield e n
    obtain ⟨es', j, hes, hres⟩ := Expr.readsMore_yield es i
    refine ⟨e' :: es', j, by simp only [Expr.mapAll, he, hes], fun rest => ?_⟩
    simp only [Expr.yieldMore, List.cons_append, List.append_assoc]
    exact .cons rfl (hre _) (hres _)

theorem Expr.readsOpt_yield : ∀ (v : Option Expr) (n : NodeId), ∃ v' m,
    Expr.mapOpt blank nowhere v' = Expr.mapOpt blank nowhere v ∧
      ∀ rest, Expr.ReadsOpt v' (Expr.yieldOpt v ++ rest, n) (rest, m)
  | none, n => ⟨none, n, rfl, fun _ => .none⟩
  | some e, n => by
    obtain ⟨e', m, he, hr⟩ := Expr.reads_yield e n
    exact ⟨some e', m, by simp only [Expr.mapOpt, he], fun rest => .some (hr rest)⟩

theorem Expr.readsValue_yield : ∀ (v : Option Expr) (n : NodeId), ∃ v' m,
    Expr.mapOpt blank nowhere v' = Expr.mapOpt blank nowhere v ∧
      ∀ rest, Expr.ReadsValue v' (Expr.yieldValue v ++ rest, n) (rest, m)
  | none, n => ⟨none, n, rfl, fun _ => .none⟩
  | some e, n => by
    obtain ⟨e', m, he, hr⟩ := Expr.reads_yield e n
    exact ⟨some e', m, by simp only [Expr.mapOpt, he], fun rest => .some rfl (hr rest)⟩

theorem Stmt.reads_yield : ∀ (s : Stmt) (n : NodeId), ∃ s' m, s'.map blank nowhere = s.map blank nowhere ∧
    ∀ rest, Stmt.Reads s' (s.yield ++ rest, n) (rest, m)
  | .expression _ e, n => by
    obtain ⟨e', m, he, hr⟩ := Expr.reads_yield e n
    obtain ⟨t, ts, ht⟩ : ∃ t ts, e.yield = t :: ts := List.exists_cons_of_ne_nil e.yield_ne_nil
    refine ⟨.expression t.pos e', m, by simp only [Stmt.map, he, nowhere], fun rest => ?_⟩
    simp only [Stmt.yield, List.append_assoc, ht]
    rw [ht] at hr
    exact .expression (hr _) rfl
  | .print _ e, n => by
    obtain ⟨e', m, he, hr⟩ := Expr.reads_yield e n
    refine ⟨.print (mark .printWord).pos e', m, by simp only [Stmt.map, he, nowhere], fun rest => ?_⟩
    simp only [Stmt.yield, List.cons_append, List.append_assoc]
    exact .print rfl (hr _) rfl
  | .declare _ t v, n => by
    obtain ⟨v', m, hv, hr⟩ := Expr.readsValue_yield v n
    refine ⟨.declare (mark .letWord).pos t v', m, by simp only [Stmt.map, hv, nowhere], fun rest => ?_⟩
    simp only [Stmt.yield, List.cons_append, List.append_assoc]
    exact .declare rfl (hr _) rfl
  | .block _ body, n => by
    obtain ⟨body', m, hb, hr⟩ := Stmt.readsAll_yield body n
    refine ⟨.block (mark .leftBrace).pos body', m, by simp only [Stmt.map, hb, nowhere], fun rest => ?_⟩
    simp only [Stmt.yield, List.cons_append, List.append_assoc]
    exact .block rfl (hr _) rfl
  | .branch _ c y no, n => by
    obtain ⟨c', i, hc, hrc⟩ := Expr.reads_yield c n
    obtain ⟨y', j, hy, hry⟩ := Stmt.reads_yield y i
    obtain ⟨n', k, hn, hrn⟩ := Stmt.readsElse_yield no j
    refine ⟨.branch (mark .ifWord).pos c' y' n', k, by simp only [Stmt.map, hc, hy, hn, nowhere],
      fun rest => ?_⟩
    simp only [Stmt.yield, List.cons_append, List.append_assoc]
    exact .branch rfl rfl (hrc _) rfl (hry _) (hrn _)
  | .loop _ c b, n => by
    obtain ⟨c', i, hc, hrc⟩ := Expr.reads_yield c n
    obtain ⟨b', j, hb, hrb⟩ := Stmt.reads_yield b i
    refine ⟨.loop (mark .whileWord).pos c' b', j, by simp only [Stmt.map, hc, hb, nowhere],
      fun rest => ?_⟩
    simp only [Stmt.yield, List.cons_append, List.append_assoc]
    exact .loop rfl rfl (hrc _) rfl (hrb _)
  | .forLoop _ s c u b, n => by
    obtain ⟨s', i, hs, hrs⟩ := Stmt.readsClause_yield s n
    obtain ⟨c', j, hc, hrc⟩ := Expr.readsOpt_yield c i
    obtain ⟨u', k, hu, hru⟩ := Expr.readsOpt_yield u j
    obtain ⟨b', l, hb, hrb⟩ := Stmt.reads_yield b k
    refine ⟨.forLoop (mark .forWord).pos s' c' u' b', l,
      by simp only [Stmt.map, hs, hc, hu, hb, nowhere], fun rest => ?_⟩
    simp only [Stmt.yield, List.cons_append, List.append_assoc]
    exact .forLoop rfl rfl (hrs _) (hrc _) rfl (hru _) rfl (hrb _)
  | .leave t, n => ⟨.leave t, n, rfl, fun _ => .leave rfl⟩
  | .skip t, n => ⟨.skip t, n, rfl, fun _ => .skip rfl⟩
  | .result t v, n => by
    obtain ⟨v', m, hv, hr⟩ := Expr.readsOpt_yield v n
    refine ⟨.result t v', m, by simp only [Stmt.map, hv], fun rest => ?_⟩
    simp only [Stmt.yield, List.cons_append, List.append_assoc]
    exact .result (hr _) rfl
  | .function d, n => by
    obtain ⟨d', m, hd, hr⟩ := Function.reads_yield d n
    exact ⟨.function d', m, by simp only [Stmt.map, hd], fun rest => .function rfl (hr rest)⟩
  | .classDecl _ t fs ms, n => by
    obtain ⟨fs', i, hfs, hrfs⟩ := Field.reads_yieldAll fs n
    obtain ⟨ms', j, hms, hrms⟩ := Function.reads_yieldAll ms i
    refine ⟨.classDecl (mark .classWord).pos t fs' ms', j,
      by simp only [Stmt.map, hfs, hms, nowhere], fun rest => ?_⟩
    simp only [Stmt.yield, List.cons_append, List.append_assoc]
    exact .classDecl rfl rfl (hrfs (hrms _)) rfl

theorem Stmt.readsAll_yield : ∀ (ss : List Stmt) (n : NodeId), ∃ ss' m,
    Stmt.mapAll blank nowhere ss' = Stmt.mapAll blank nowhere ss ∧
      ∀ rest, Stmt.ReadsAll ss' (Stmt.yieldAll ss ++ rest, n) (rest, m)
  | [], n => ⟨[], n, rfl, fun _ => .nil⟩
  | s :: ss, n => by
    obtain ⟨s', i, hs, hrs⟩ := Stmt.reads_yield s n
    obtain ⟨ss', j, hss, hrss⟩ := Stmt.readsAll_yield ss i
    refine ⟨s' :: ss', j, by simp only [Stmt.mapAll, hs, hss], fun rest => ?_⟩
    simp only [Stmt.yieldAll, List.append_assoc]
    exact .cons (hrs _) (hrss _)

theorem Stmt.readsElse_yield : ∀ (s : Option Stmt) (n : NodeId), ∃ s' m,
    Stmt.mapOpt blank nowhere s' = Stmt.mapOpt blank nowhere s ∧
      ∀ rest, Stmt.ReadsElse s' (Stmt.yieldElse s ++ rest, n) (rest, m)
  | none, n => ⟨none, n, rfl, fun _ => .none⟩
  | some s, n => by
    obtain ⟨s', m, hs, hr⟩ := Stmt.reads_yield s n
    exact ⟨some s', m, by simp only [Stmt.mapOpt, hs], fun rest => .some rfl (hr rest)⟩

theorem Stmt.readsClause_yield : ∀ (s : Option Stmt) (n : NodeId), ∃ s' m,
    Stmt.mapOpt blank nowhere s' = Stmt.mapOpt blank nowhere s ∧
      ∀ rest, Stmt.ReadsClause s' (Stmt.yieldClause s ++ rest, n) (rest, m)
  | none, n => ⟨none, n, rfl, fun _ => .none rfl⟩
  | some s, n => by
    obtain ⟨s', m, hs, hr⟩ := Stmt.reads_yield s n
    exact ⟨some s', m, by simp only [Stmt.mapOpt, hs], fun rest => .some (hr rest)⟩

theorem Function.reads_yield : ∀ (d : Function) (n : NodeId), ∃ d' m,
    d'.map blank nowhere = d.map blank nowhere ∧ ∀ rest, Function.Reads d' (d.yield ++ rest, n) (rest, m)
  | .mk t ps body, n => by
    obtain ⟨body', m, hb, hr⟩ := Stmt.readsAll_yield body n
    refine ⟨.mk t ps body', m, by simp only [Function.map, hb], fun rest => ?_⟩
    simp only [Function.yield, List.append_assoc, List.cons_append]
    exact .mk (.mk rfl (params_yield ps _) rfl rfl (hr _) rfl)

theorem Function.reads_yieldAll : ∀ (ds : List Function) (n : NodeId), ∃ ds' m,
    Function.mapAll blank nowhere ds' = Function.mapAll blank nowhere ds ∧
      ∀ rest, ReadsMembers [] ds' (Function.yieldAll ds ++ rest, n) (rest, m)
  | [], n => ⟨[], n, rfl, fun _ => .nil⟩
  | d :: ds, n => by
    obtain ⟨d', i, hd, hrd⟩ := Function.reads_yield d n
    obtain ⟨ds', j, hds, hrds⟩ := Function.reads_yieldAll ds i
    refine ⟨d' :: ds', j, by simp only [Function.mapAll, hd, hds], fun rest => ?_⟩
    simp only [Function.yieldAll, List.append_assoc]
    exact .method (hrd _) (hrds _)

/-- Fields stand before methods. -/
theorem Field.reads_yieldAll : ∀ (ds : List Field) (n : NodeId), ∃ ds' m,
    Field.mapAll blank nowhere ds' = Field.mapAll blank nowhere ds ∧ ∀ {ms rest c},
      ReadsMembers [] ms (rest, m) c → ReadsMembers ds' ms (Field.yieldAll ds ++ rest, n) c
  | [], n => ⟨[], n, rfl, fun h => h⟩
  | .mk t e :: ds, n => by
    obtain ⟨e', i, he, hre⟩ := Expr.reads_yield e n
    obtain ⟨ds', j, hds, hrds⟩ := Field.reads_yieldAll ds i
    refine ⟨.mk t e' :: ds', j, by simp only [Field.mapAll, Field.map, he, hds], fun h => ?_⟩
    simp only [Field.yieldAll, List.cons_append, List.append_assoc]
    exact .field rfl (hre _) rfl (hrds h)

end

/-- Every list of statements has a spelling. -/
theorem spells_yieldAll (ss : List Stmt) : Spells ss (Stmt.yieldAll ss) := by
  obtain ⟨ss', m, hss, hr⟩ := Stmt.readsAll_yield ss 0
  have := hr []
  rw [List.append_nil] at this
  exact ⟨ss', 0, m, hss, this⟩

end Treewalk
