import Mathlib.Data.List.Basic
import Treewalk.Proofs.Parser.Grammar

/-!
# The grammar does not look at identities and positions

Renumbering a tree from another identity on and moving its tokens gives a tree that is written out by
the moved tokens (`Stmt.readsAll_map`), and the shape of a tree does not depend on identities and
positions at all (`SameTree.wellFormedAll_iff`).
-/

namespace Treewalk

/-! ## Shape -/

section

variable (g : NodeId → NodeId) (f : Position → Position)

theorem Expr.rank_map (e : Expr) : (e.map g f).rank = e.rank := by cases e <;> rfl

theorem Stmt.isDeclaration_map (s : Stmt) : (s.map g f).isDeclaration = s.isDeclaration := by
  cases s <;> rfl

theorem Stmt.isClause_map (s : Stmt) : (s.map g f).isClause = s.isClause := by cases s <;> rfl

theorem Stmt.opensIf_map : ∀ s : Stmt, (s.map g f).opensIf = s.opensIf
  | .branch _ _ _ none => rfl
  | .branch _ _ _ (some no) => Stmt.opensIf_map no
  | .loop _ _ body => Stmt.opensIf_map body
  | .forLoop _ _ _ _ body => Stmt.opensIf_map body
  | .expression _ _ | .print _ _ | .declare _ _ _ | .block _ _ | .leave _ | .skip _ | .result _ _
  | .function _ | .classDecl _ _ _ _ => rfl

theorem wellFormedParams_map (ps : List Token) :
    WellFormedParams (ps.map (Token.move f)) ↔ WellFormedParams ps := by
  simp [WellFormedParams]

mutual

theorem Expr.wellFormed_map : ∀ e : Expr, (e.map g f).WellFormed ↔ e.WellFormed
  | .literal _ _ | .ident _ _ | .update _ _ _ _ _ | .this _ _ => by
    simp only [Expr.map, Expr.WellFormed, Token.kind_move]
  | .group _ _ e | .unary _ _ _ e | .assign _ _ e | .compound _ _ _ _ e | .updateGet _ e _ _ _ _
  | .get _ e _ => by
    simp only [Expr.map, Expr.WellFormed, Token.kind_move, Expr.wellFormed_map e, Expr.rank_map]
  | .binary _ _ _ l r | .logical _ _ _ l r | .updateIndex _ l _ r _ _ _ | .index _ l _ r
  | .set _ l _ r => by
    simp only [Expr.map, Expr.WellFormed, Token.kind_move, Expr.wellFormed_map l,
      Expr.wellFormed_map r, Expr.rank_map]
  | .ternary _ _ c y n => by
    simp only [Expr.map, Expr.WellFormed, Token.kind_move, Expr.wellFormed_map c,
      Expr.wellFormed_map y, Expr.wellFormed_map n, Expr.rank_map]
  | .call _ c _ args => by
    have hlength : (Expr.mapAll g f args).length = args.length := by
      rw [Expr.mapAll_eq_map, List.length_map]
    simp only [Expr.map, Expr.WellFormed, Token.kind_move, Expr.wellFormed_map c,
      Expr.wellFormedAll_map args, Expr.rank_map, hlength]
  | .lambda _ _ ps body => by
    simp only [Expr.map, Expr.WellFormed, Token.kind_move, wellFormedParams_map,
      Stmt.wellFormedAll_map body]
  | .array _ _ es => by
    simp only [Expr.map, Expr.WellFormed, Token.kind_move, Expr.wellFormedAll_map es]

theorem Expr.wellFormedAll_map :
    ∀ es : List Expr, Expr.WellFormedAll (Expr.mapAll g f es) ↔ Expr.WellFormedAll es
  | [] => Iff.rfl
  | e :: es => and_congr (Expr.wellFormed_map e) (Expr.wellFormedAll_map es)

theorem Expr.wellFormedOpt_map :
    ∀ v : Option Expr, Expr.WellFormedOpt (Expr.mapOpt g f v) ↔ Expr.WellFormedOpt v
  | none => Iff.rfl
  | some e => Expr.wellFormed_map e

theorem Stmt.wellFormed_map : ∀ s : Stmt, (s.map g f).WellFormed ↔ s.WellFormed
  | .expression _ e | .print _ e => Expr.wellFormed_map e
  | .declare _ _ v | .result _ v => and_congr Iff.rfl (Expr.wellFormedOpt_map v)
  | .block _ body => Stmt.wellFormedAll_map body
  | .branch _ c y n => by
    simp only [Stmt.map, Stmt.WellFormed, Expr.wellFormed_map c, Stmt.wellFormed_map y,
      Stmt.isDeclaration_map, Stmt.opensIf_map, Stmt.wellFormedElse_map n]
  | .loop _ c b => by
    simp only [Stmt.map, Stmt.WellFormed, Expr.wellFormed_map c, Stmt.wellFormed_map b,
      Stmt.isDeclaration_map]
  | .forLoop _ s c u b => by
    simp only [Stmt.map, Stmt.WellFormed, Stmt.wellFormedClause_map s, Expr.wellFormedOpt_map c,
      Expr.wellFormedOpt_map u, Stmt.wellFormed_map b, Stmt.isDeclaration_map]
  | .leave _ | .skip _ => Iff.rfl
  | .function d => Function.wellFormed_map d
  | .classDecl _ _ fs ms =>
    and_congr Iff.rfl (and_congr (Field.wellFormedAll_map fs) (Function.wellFormedAll_map ms))

theorem Stmt.wellFormedAll_map :
    ∀ ss : List Stmt, Stmt.WellFormedAll (Stmt.mapAll g f ss) ↔ Stmt.WellFormedAll ss
  | [] => Iff.rfl
  | s :: ss => and_congr (Stmt.wellFormed_map s) (Stmt.wellFormedAll_map ss)

theorem Stmt.wellFormedElse_map {taken : Bool} :
    ∀ s : Option Stmt, Stmt.WellFormedElse taken (Stmt.mapOpt g f s) ↔ Stmt.WellFormedElse taken s
  | none => Iff.rfl
  | some s => by
    simp only [Stmt.mapOpt, Stmt.WellFormedElse, Stmt.wellFormed_map s, Stmt.isDeclaration_map]

theorem Stmt.wellFormedClause_map :
    ∀ s : Option Stmt, Stmt.WellFormedClause (Stmt.mapOpt g f s) ↔ Stmt.WellFormedClause s
  | none => Iff.rfl
  | some s => by
    simp only [Stmt.mapOpt, Stmt.WellFormedClause, Stmt.wellFormed_map s, Stmt.isClause_map]

theorem Function.wellFormed_map : ∀ d : Function, (d.map g f).WellFormed ↔ d.WellFormed
  | .mk _ ps body =>
    and_congr Iff.rfl (and_congr (wellFormedParams_map f ps) (Stmt.wellFormedAll_map body))

theorem Function.wellFormedAll_map : ∀ ds : List Function,
    Function.WellFormedAll (Function.mapAll g f ds) ↔ Function.WellFormedAll ds
  | [] => Iff.rfl
  | d :: ds => and_congr (Function.wellFormed_map d) (Function.wellFormedAll_map ds)

theorem Field.wellFormedAll_map :
    ∀ ds : List Field, Field.WellFormedAll (Field.mapAll g f ds) ↔ Field.WellFormedAll ds
  | [] => Iff.rfl
  | .mk _ e :: ds =>
    and_congr (and_congr Iff.rfl (Expr.wellFormed_map e)) (Field.wellFormedAll_map ds)

end

end

theorem SameTree.wellFormedAll_iff {ss ts : List Stmt} (h : SameTree ss ts) :
    Stmt.WellFormedAll ss ↔ Stmt.WellFormedAll ts := by
  rw [← Stmt.wellFormedAll_map blank nowhere ss, show Stmt.mapAll _ _ ss = _ from h,
    Stmt.wellFormedAll_map]

/-! ## Writing out -/

/-- The tokens `ts` are some tokens and then `us`, and moved by `f` these tokens are what `R` reads in
front of anything, with identities renumbered by `g`. -/
def Moved (g : NodeId → NodeId) (f : Position → Position) (R : Cursor → Cursor → Prop)
    (ts : List Token) (n : Nat) (us : List Token) (m : Nat) : Prop :=
  ∃ used, ts = used ++ us ∧ n ≤ m ∧ ∀ rest, R (used.map (Token.move f) ++ rest, g n) (rest, g m)

theorem MoreParams.map {f : Position → Position} {ps ts us : List Token} (h : MoreParams ps ts us) :
    ∃ used, ts = used ++ us ∧ ∀ rest,
      MoreParams (ps.map (Token.move f)) (used.map (Token.move f) ++ rest) rest := by
  induction h with
  | nil => exact ⟨[], rfl, fun _ => .nil⟩
  | cons hcomma _ ih =>
    obtain ⟨used, rfl, h⟩ := ih
    exact ⟨_ :: _ :: used, rfl, fun rest => .cons hcomma (h rest)⟩

theorem Params.map {f : Position → Position} {ps ts us : List Token} (h : Params ps ts us) :
    ∃ used, ts = used ++ us ∧ ∀ rest,
      Params (ps.map (Token.move f)) (used.map (Token.move f) ++ rest) rest := by
  cases h with
  | nil => exact ⟨[], rfl, fun _ => .nil⟩
  | cons h =>
    obtain ⟨used, rfl, h⟩ := h.map
    exact ⟨_ :: used, rfl, fun rest => .cons (h rest)⟩

/-- An expression takes a token, that of its leftmost part if no other. -/
theorem Expr.reads_ne_nil : ∀ (e : Expr) {c c' : Cursor}, e.Reads c c' → c.1 ≠ []
  | .literal _ _, _, _, h | .group _ _ _, _, _, h | .unary _ _ _ _, _, _, h | .ident _ _, _, _, h
  | .assign _ _ _, _, _, h | .compound _ _ _ _ _, _, _, h | .update _ _ _ _ _, _, _, h
  | .lambda _ _ _ _, _, _, h | .array _ _ _, _, _, h | .this _ _, _, _, h => by cases h <;> simp
  | .binary _ _ _ l _, _, _, h | .logical _ _ _ l _, _, _, h | .ternary _ _ l _ _, _, _, h
  | .call _ l _ _, _, _, h | .index _ l _ _, _, _, h | .get _ l _, _, _, h | .set _ l _ _, _, _, h
  | .updateIndex _ l _ _ _ _ _, _, _, h | .updateGet _ l _ _ _ _, _, _, h => by
    have hl {c c'} : l.Reads c c' → c.1 ≠ [] := Expr.reads_ne_nil l
    cases h <;> first | exact List.cons_ne_nil _ _ | exact hl ‹_›

section

variable {g : Nat → Nat} {f : Position → Position} {n₀ : Nat}

theorem readsTail_map {ps : List Token} {body : List Stmt}
    (hbody : ∀ {ts us : List Token} {n m : Nat}, Stmt.ReadsAll body (ts, n) (us, m) → n₀ ≤ n →
      Moved g f (Stmt.ReadsAll (Stmt.mapAll g f body)) ts n us m) {ts us : List Token} {n m : Nat}
    (h : ReadsTail ps body (ts, n) (us, m)) (hn : n₀ ≤ n) :
    Moved g f (ReadsTail (ps.map (Token.move f)) (Stmt.mapAll g f body)) ts n us m := by
  cases h with
  | @mk _ _ opening close brace last _ _ _ _ _ ho hp hc hb h hl =>
    obtain ⟨u₁, rfl, hr₁⟩ := hp.map (f := f)
    obtain ⟨u₂, rfl, hle, hr₂⟩ := hbody h hn
    refine ⟨opening :: u₁ ++ close :: brace :: u₂ ++ [last], by simp, hle, fun rest => ?_⟩
    rw [List.map_append, List.map_append, List.append_assoc, List.append_assoc]
    exact .mk ho (hr₁ _) hc hb (hr₂ _) hl

/-- Fields and methods are moved in the order in which they are mixed. -/
theorem readsMembers_map {fs : List Field} {ms : List Function}
    (hfs : ∀ d ∈ fs, ∀ {ts us : List Token} {n m : Nat}, d.value.Reads (ts, n) (us, m) → n₀ ≤ n →
      Moved g f (d.value.map g f).Reads ts n us m)
    (hms : ∀ d ∈ ms, ∀ {ts us : List Token} {n m : Nat}, d.Reads (ts, n) (us, m) → n₀ ≤ n →
      Moved g f (d.map g f).Reads ts n us m) {ts us : List Token} {n m : Nat}
    (h : ReadsMembers fs ms (ts, n) (us, m)) (hn : n₀ ≤ n) :
    Moved g f (ReadsMembers (Field.mapAll g f fs) (Function.mapAll g f ms)) ts n us m := by
  obtain ⟨k, hk⟩ : ∃ k, k = fs.length + ms.length := ⟨_, rfl⟩
  induction k generalizing fs ms ts n with
  | zero =>
    cases h with
    | nil => exact ⟨[], rfl, Nat.le_refl _, fun _ => .nil⟩
    | field => simp only [List.length_cons] at hk; omega
    | method => simp only [List.length_cons] at hk; omega
  | succ k ih =>
    cases h with
    | nil => simp at hk
    | @field t e sign semi fs _ _ _ _ _ _ hsign he hsemi h =>
      have hlen : k = fs.length + ms.length := by
        simp only [List.length_cons] at hk
        omega
      obtain ⟨u₁, rfl, hle₁, hr₁⟩ := hfs (.mk t e) (by simp) he hn
      obtain ⟨u₂, rfl, hle₂, hr₂⟩ :=
        ih (fun d hd => hfs d (List.mem_cons_of_mem _ hd)) hms h (by omega) hlen
      refine ⟨t :: sign :: u₁ ++ semi :: u₂, by simp, by omega, fun rest => ?_⟩
      rw [List.map_append, List.append_assoc]
      exact .field hsign (hr₁ _) hsemi (hr₂ _)
    | @method d _ ms _ c' _ hd h =>
      have hlen : k = fs.length + ms.length := by
        simp only [List.length_cons] at hk
        omega
      obtain ⟨ts', n'⟩ := c'
      obtain ⟨u₁, rfl, hle₁, hr₁⟩ := hms d (by simp) hd hn
      obtain ⟨u₂, rfl, hle₂, hr₂⟩ :=
        ih hfs (fun d hd => hms d (List.mem_cons_of_mem _ hd)) h (by omega) hlen
      refine ⟨u₁ ++ u₂, by simp, by omega, fun rest => ?_⟩
      rw [List.map_append, List.append_assoc]
      exact .method (hr₁ _) (hr₂ _)

mutual

theorem Expr.reads_map (hg : ∀ i, n₀ ≤ i → g (i + 1) = g i + 1) : ∀ (e : Expr) {ts us : List Token} {n m : Nat},
    e.Reads (ts, n) (us, m) → n₀ ≤ n → Moved g f (e.map g f).Reads ts n us m
  | .literal _ t, _, _, _, _, .literal, hn => by
    refine ⟨[t], rfl, Nat.le_succ _, fun rest => ?_⟩
    rw [hg _ hn]
    exact .literal
  | .group _ t e, _, _, _, _, @Expr.Reads.group _ _ _ close _ _ _ h hclose, hn => by
    obtain ⟨u, rfl, hle, hr⟩ := Expr.reads_map hg e h hn
    refine ⟨t :: u ++ [close], by simp, by omega, fun rest => ?_⟩
    rw [hg _ (by omega), List.map_append, List.append_assoc]
    exact .group (hr _) hclose
  | .binary _ _ t l r, _, _, _, _, .binary hl hr, hn => by
    obtain ⟨u₁, rfl, hle₁, hr₁⟩ := Expr.reads_map hg l hl hn
    obtain ⟨u₂, rfl, hle₂, hr₂⟩ := Expr.reads_map hg r hr (by omega)
    refine ⟨u₁ ++ t :: u₂, by simp, by omega, fun rest => ?_⟩
    rw [hg _ (by omega), List.map_append, List.append_assoc]
    exact .binary (hr₁ _) (hr₂ _)
  | .unary _ _ t e, _, _, _, _, .unary h, hn => by
    obtain ⟨u, rfl, hle, hr⟩ := Expr.reads_map hg e h hn
    refine ⟨t :: u, by simp, by omega, fun rest => ?_⟩
    rw [hg _ (by omega)]
    exact .unary (hr _)
  | .logical _ _ t l r, _, _, _, _, .logical hl hr, hn => by
    obtain ⟨u₁, rfl, hle₁, hr₁⟩ := Expr.reads_map hg l hl hn
    obtain ⟨u₂, rfl, hle₂, hr₂⟩ := Expr.reads_map hg r hr (by omega)
    refine ⟨u₁ ++ t :: u₂, by simp, by omega, fun rest => ?_⟩
    rw [hg _ (by omega), List.map_append, List.append_assoc]
    exact .logical (hr₁ _) (hr₂ _)
  | .ternary _ t c y n, _, _, _, _, @Expr.Reads.ternary _ _ _ _ _ colon _ _ _ _ _ _ hc hy hk h, hn => by
    obtain ⟨u₁, rfl, hle₁, hr₁⟩ := Expr.reads_map hg c hc hn
    obtain ⟨u₂, rfl, hle₂, hr₂⟩ := Expr.reads_map hg y hy (by omega)
    obtain ⟨u₃, rfl, hle₃, hr₃⟩ := Expr.reads_map hg n h (by omega)
    refine ⟨u₁ ++ t :: (u₂ ++ colon :: u₃), by simp, by omega, fun rest => ?_⟩
    rw [hg _ (by omega), List.map_append, List.append_assoc, List.map_cons, List.cons_append,
      List.map_append, List.append_assoc]
    exact .ternary (hr₁ _) (hr₂ _) hk (hr₃ _)
  | .ident _ t, _, _, _, _, .ident, hn => by
    refine ⟨[t], rfl, Nat.le_succ _, fun rest => ?_⟩
    rw [hg _ hn]
    exact .ident
  | .assign _ t e, _, _, _, _, @Expr.Reads.assign _ _ _ sign _ _ _ hsign h, hn => by
    obtain ⟨u, rfl, hle, hr⟩ := Expr.reads_map hg e h (by omega)
    refine ⟨t :: sign :: u, by simp, by omega, fun rest => ?_⟩
    rw [hg _ hn] at hr
    rw [hg _ (by omega)]
    exact .assign hsign (hr _)
  | .compound _ t _ sign e, _, _, _, _, .compound h, hn => by
    obtain ⟨u, rfl, hle, hr⟩ := Expr.reads_map hg e h (by omega)
    refine ⟨t :: sign :: u, by simp, by omega, fun rest => ?_⟩
    rw [hg _ hn] at hr
    rw [hg _ (by omega)]
    exact .compound (hr _)
  | .update _ t _ u _, _, _, n, _, .updateBefore, hn => by
    refine ⟨[u, t], rfl, by omega, fun rest => ?_⟩
    rw [show n + 2 = n + 1 + 1 from rfl, hg _ (by omega), hg _ hn, Expr.map, hg _ hn]
    exact .updateBefore
  | .update _ t _ u _, _, _, n, _, .updateAfter, hn => by
    refine ⟨[t, u], rfl, by omega, fun rest => ?_⟩
    rw [show n + 2 = n + 1 + 1 from rfl, hg _ (by omega), hg _ hn, Expr.map, hg _ hn]
    exact .updateAfter
  | .updateIndex _ o t i _ v _, _, _, _, _,
      @Expr.Reads.updateIndexBefore _ _ k _ _ _ _ _ close _ _ _ ho hi hclose, hn => by
    obtain ⟨u₁, rfl, hle₁, hr₁⟩ := Expr.reads_map hg o ho hn
    obtain ⟨u₂, rfl, hle₂, hr₂⟩ := Expr.reads_map hg i hi (by omega)
    refine ⟨v :: (u₁ ++ t :: (u₂ ++ [close])), by simp, by omega, fun rest => ?_⟩
    have hk := hg k (by omega)
    rw [show k + 2 = k + 1 + 1 from rfl, hg _ (by omega), hk, Expr.map, hk, List.map_cons,
      List.cons_append, List.map_append, List.append_assoc, List.map_cons, List.cons_append,
      List.map_append, List.append_assoc]
    exact .updateIndexBefore (hr₁ _) (hr₂ _) hclose
  | .updateIndex _ o t i _ v _, _, _, _, _,
      @Expr.Reads.updateIndexAfter _ _ k _ _ _ _ _ close _ _ ho hi hclose, hn => by
    obtain ⟨u₁, rfl, hle₁, hr₁⟩ := Expr.reads_map hg o ho hn
    obtain ⟨u₂, rfl, hle₂, hr₂⟩ := Expr.reads_map hg i hi (by omega)
    refine ⟨u₁ ++ t :: (u₂ ++ [close, v]), by simp, by omega, fun rest => ?_⟩
    have hk := hg k (by omega)
    rw [show k + 2 = k + 1 + 1 from rfl, hg _ (by omega), hk, Expr.map, hk, List.map_append,
      List.append_assoc, List.map_cons, List.cons_append, List.map_append, List.append_assoc]
    exact .updateIndexAfter (hr₁ _) (hr₂ _) hclose
  | .updateGet _ o t _ v _, _, _, _, _, @Expr.Reads.updateGetBefore _ k _ _ _ _ dot _ _ ho hdot, hn => by
    obtain ⟨u, rfl, hle, hr⟩ := Expr.reads_map hg o ho hn
    refine ⟨v :: (u ++ [dot, t]), by simp, by omega, fun rest => ?_⟩
    have hk := hg k (by omega)
    rw [show k + 2 = k + 1 + 1 from rfl, hg _ (by omega), hk, Expr.map, hk, List.map_cons,
      List.cons_append, List.map_append, List.append_assoc]
    exact .updateGetBefore (hr _) hdot
  | .updateGet _ o t _ v _, _, _, _, _, @Expr.Reads.updateGetAfter _ k _ _ _ _ dot _ ho hdot, hn => by
    obtain ⟨u, rfl, hle, hr⟩ := Expr.reads_map hg o ho hn
    refine ⟨u ++ [dot, t, v], by simp, by omega, fun rest => ?_⟩
    have hk := hg k (by omega)
    rw [show k + 2 = k + 1 + 1 from rfl, hg _ (by omega), hk, Expr.map, hk, List.map_append,
      List.append_assoc]
    exact .updateGetAfter (hr _) hdot
  | .call _ c t args, _, _, _, _, @Expr.Reads.call _ _ _ _ _ _ opening _ _ hc hopening ha, hn => by
    obtain ⟨u₁, rfl, hle₁, hr₁⟩ := Expr.reads_map hg c hc hn
    obtain ⟨u₂, rfl, hle₂, hr₂⟩ := Expr.readsList_map hg args ha (by omega)
    refine ⟨u₁ ++ opening :: (u₂ ++ [t]), by simp, by omega, fun rest => ?_⟩
    rw [hg _ (by omega), List.map_append, List.append_assoc, List.map_cons, List.cons_append,
      List.map_append, List.append_assoc]
    exact .call (hr₁ _) hopening (hr₂ _)
  | .lambda _ t ps body, _, _, _, _, .lambda h, hn => by
    obtain ⟨u, rfl, hle, hr⟩ := readsTail_map (Stmt.readsAll_map hg body) h hn
    refine ⟨t :: u, by simp, by omega, fun rest => ?_⟩
    rw [hg _ (by omega)]
    exact .lambda (hr _)
  | .array _ t es, _, _, _, _, @Expr.Reads.array _ _ _ _ close _ _ h hclose, hn => by
    obtain ⟨u, rfl, hle, hr⟩ := Expr.readsList_map hg es h hn
    refine ⟨t :: u ++ [close], by simp, by omega, fun rest => ?_⟩
    rw [hg _ (by omega), List.map_append, List.append_assoc]
    exact .array (hr _) hclose
  | .index _ o t i, _, _, _, _, @Expr.Reads.index _ _ _ _ _ _ close _ _ ho hi hclose, hn => by
    obtain ⟨u₁, rfl, hle₁, hr₁⟩ := Expr.reads_map hg o ho hn
    obtain ⟨u₂, rfl, hle₂, hr₂⟩ := Expr.reads_map hg i hi (by omega)
    refine ⟨u₁ ++ t :: (u₂ ++ [close]), by simp, by omega, fun rest => ?_⟩
    rw [hg _ (by omega), List.map_append, List.append_assoc, List.map_cons, List.cons_append,
      List.map_append, List.append_assoc]
    exact .index (hr₁ _) (hr₂ _) hclose
  | .get _ o t, _, _, _, _, @Expr.Reads.get _ _ _ _ dot _ ho hdot, hn => by
    obtain ⟨u, rfl, hle, hr⟩ := Expr.reads_map hg o ho hn
    refine ⟨u ++ [dot, t], by simp, by omega, fun rest => ?_⟩
    rw [hg _ (by omega), List.map_append, List.append_assoc]
    exact .get (hr _) hdot
  | .set _ o t e, _, _, _, _, @Expr.Reads.set _ k _ _ _ _ dot sign _ _ ho hdot hsign he, hn => by
    obtain ⟨u₁, rfl, hle₁, hr₁⟩ := Expr.reads_map hg o ho hn
    obtain ⟨u₂, rfl, hle₂, hr₂⟩ := Expr.reads_map hg e he (by omega)
    refine ⟨u₁ ++ dot :: t :: sign :: u₂, by simp, by omega, fun rest => ?_⟩
    rw [hg k (by omega)] at hr₂
    rw [hg _ (by omega), List.map_append, List.append_assoc]
    exact .set (hr₁ _) hdot hsign (hr₂ _)
  | .this _ t, _, _, _, _, .this, hn => by
    refine ⟨[t], rfl, Nat.le_succ _, fun rest => ?_⟩
    rw [hg _ hn]
    exact .this

theorem Expr.readsList_map (hg : ∀ i, n₀ ≤ i → g (i + 1) = g i + 1) :
    ∀ (es : List Expr) {ts us : List Token} {n m : Nat}, Expr.ReadsList es (ts, n) (us, m) → n₀ ≤ n →
      Moved g f (Expr.ReadsList (Expr.mapAll g f es)) ts n us m
  | [], _, _, _, _, .nil, _ => ⟨[], rfl, Nat.le_refl _, fun _ => .nil⟩
  | e :: es, _, _, _, _, @Expr.ReadsList.cons _ _ _ (_, _) _ he hes, hn => by
    obtain ⟨u₁, rfl, hle₁, hr₁⟩ := Expr.reads_map hg e he hn
    obtain ⟨u₂, rfl, hle₂, hr₂⟩ := Expr.readsMore_map hg es hes (by omega)
    refine ⟨u₁ ++ u₂, by simp, by omega, fun rest => ?_⟩
    rw [List.map_append, List.append_assoc]
    exact .cons (hr₁ _) (hr₂ _)

theorem Expr.readsMore_map (hg : ∀ i, n₀ ≤ i → g (i + 1) = g i + 1) :
    ∀ (es : List Expr) {ts us : List Token} {n m : Nat}, Expr.ReadsMore es (ts, n) (us, m) → n₀ ≤ n →
      Moved g f (Expr.ReadsMore (Expr.mapAll g f es)) ts n us m
  | [], _, _, _, _, .nil, _ => ⟨[], rfl, Nat.le_refl _, fun _ => .nil⟩
  | e :: es, _, _, _, _, @Expr.ReadsMore.cons _ _ comma _ _ (_, _) _ hcomma he hes, hn => by
    obtain ⟨u₁, rfl, hle₁, hr₁⟩ := Expr.reads_map hg e he hn
    obtain ⟨u₂, rfl, hle₂, hr₂⟩ := Expr.readsMore_map hg es hes (by omega)
    refine ⟨comma :: (u₁ ++ u₂), by simp, by omega, fun rest => ?_⟩
    rw [List.map_cons, List.map_append, List.cons_append, List.append_assoc]
    exact .cons hcomma (hr₁ _) (hr₂ _)

theorem Expr.readsOpt_map (hg : ∀ i, n₀ ≤ i → g (i + 1) = g i + 1) :
    ∀ (v : Option Expr) {ts us : List Token} {n m : Nat}, Expr.ReadsOpt v (ts, n) (us, m) → n₀ ≤ n →
      Moved g f (Expr.ReadsOpt (Expr.mapOpt g f v)) ts n us m
  | none, _, _, _, _, .none, _ => ⟨[], rfl, Nat.le_refl _, fun _ => .none⟩
  | some e, _, _, _, _, .some he, hn => by
    obtain ⟨u, rfl, hle, hr⟩ := Expr.reads_map hg e he hn
    exact ⟨u, rfl, hle, fun rest => .some (hr rest)⟩

theorem Expr.readsValue_map (hg : ∀ i, n₀ ≤ i → g (i + 1) = g i + 1) :
    ∀ (v : Option Expr) {ts us : List Token} {n m : Nat}, Expr.ReadsValue v (ts, n) (us, m) → n₀ ≤ n →
      Moved g f (Expr.ReadsValue (Expr.mapOpt g f v)) ts n us m
  | none, _, _, _, _, .none, _ => ⟨[], rfl, Nat.le_refl _, fun _ => .none⟩
  | some e, _, _, _, _, @Expr.ReadsValue.some _ sign _ _ _ hsign he, hn => by
    obtain ⟨u, rfl, hle, hr⟩ := Expr.reads_map hg e he hn
    exact ⟨sign :: u, rfl, hle, fun rest => .some hsign (hr rest)⟩

theorem Stmt.reads_map (hg : ∀ i, n₀ ≤ i → g (i + 1) = g i + 1) :
    ∀ (s : Stmt) {ts us : List Token} {n m : Nat}, s.Reads (ts, n) (us, m) → n₀ ≤ n →
      Moved g f (s.map g f).Reads ts n us m
  | .expression _ e, _, _, _, _, @Stmt.Reads.expression _ first semi ts us n m he hsemi, hn => by
    obtain ⟨u, heq, hle, hr⟩ := Expr.reads_map hg e he hn
    cases u with
    | nil => exact absurd rfl (Expr.reads_ne_nil _ (hr []))
    | cons t u =>
      obtain ⟨rfl, rfl⟩ := List.cons.inj heq
      refine ⟨first :: u ++ [semi], by simp, hle, fun rest => ?_⟩
      rw [List.map_append, List.append_assoc]
      exact .expression (hr _) hsemi
  | .print _ e, _, _, _, _, @Stmt.Reads.print _ word semi _ _ _ _ hword he hsemi, hn => by
    obtain ⟨u, rfl, hle, hr⟩ := Expr.reads_map hg e he hn
    refine ⟨word :: u ++ [semi], by simp, hle, fun rest => ?_⟩
    rw [List.map_append, List.append_assoc]
    exact .print (show (word.move f).kind = _ from hword) (hr _) hsemi
  | .declare _ t v, _, _, _, _, @Stmt.Reads.declare _ _ word semi _ _ _ _ hword hv hsemi, hn => by
    obtain ⟨u, rfl, hle, hr⟩ := Expr.readsValue_map hg v hv hn
    refine ⟨word :: t :: u ++ [semi], by simp, hle, fun rest => ?_⟩
    rw [List.map_append, List.append_assoc]
    exact .declare (show (word.move f).kind = _ from hword) (hr _) hsemi
  | .block _ body, _, _, _, _, @Stmt.Reads.block _ brace last _ _ _ _ hbrace hb hlast, hn => by
    obtain ⟨u, rfl, hle, hr⟩ := Stmt.readsAll_map hg body hb hn
    refine ⟨brace :: u ++ [last], by simp, hle, fun rest => ?_⟩
    rw [List.map_append, List.append_assoc]
    exact .block (show (brace.move f).kind = _ from hbrace) (hr _) hlast
  | .branch _ cond yes no, _, _, _, _,
      @Stmt.Reads.branch _ _ _ word opening close _ _ _ _ (_, _) _ hword hopening hc hclose hy hno,
      hn => by
    obtain ⟨u₁, rfl, hle₁, hr₁⟩ := Expr.reads_map hg cond hc hn
    obtain ⟨u₂, rfl, hle₂, hr₂⟩ := Stmt.reads_map hg yes hy (by omega)
    obtain ⟨u₃, rfl, hle₃, hr₃⟩ := Stmt.readsElse_map hg no hno (by omega)
    refine ⟨word :: opening :: u₁ ++ close :: (u₂ ++ u₃), by simp, by omega, fun rest => ?_⟩
    rw [List.map_append, List.append_assoc, List.map_cons (a := close), List.cons_append,
      List.map_append, List.append_assoc]
    exact .branch (show (word.move f).kind = _ from hword) hopening (hr₁ _) hclose (hr₂ _) (hr₃ _)
  | .loop _ cond body, _, _, _, _,
      @Stmt.Reads.loop _ _ word opening close _ _ _ _ _ hword hopening hc hclose hb, hn => by
    obtain ⟨u₁, rfl, hle₁, hr₁⟩ := Expr.reads_map hg cond hc hn
    obtain ⟨u₂, rfl, hle₂, hr₂⟩ := Stmt.reads_map hg body hb (by omega)
    refine ⟨word :: opening :: u₁ ++ close :: u₂, by simp, by omega, fun rest => ?_⟩
    rw [List.map_append, List.append_assoc]
    exact .loop (show (word.move f).kind = _ from hword) hopening (hr₁ _) hclose (hr₂ _)
  | .forLoop _ start cond step body, _, _, _, _,
      @Stmt.Reads.forLoop _ _ _ _ word opening semi close _ _ _ _ _ _ (_, _) _ hword hopening hs hc hsemi
        hu hclose hb, hn => by
    obtain ⟨u₁, rfl, hle₁, hr₁⟩ := Stmt.readsClause_map hg start hs hn
    obtain ⟨u₂, rfl, hle₂, hr₂⟩ := Expr.readsOpt_map hg cond hc (by omega)
    obtain ⟨u₃, rfl, hle₃, hr₃⟩ := Expr.readsOpt_map hg step hu (by omega)
    obtain ⟨u₄, rfl, hle₄, hr₄⟩ := Stmt.reads_map hg body hb (by omega)
    refine ⟨word :: opening :: u₁ ++ (u₂ ++ semi :: (u₃ ++ close :: u₄)), by simp, by omega,
      fun rest => ?_⟩
    rw [List.map_append, List.append_assoc, List.map_append, List.append_assoc,
      List.map_cons (a := semi), List.cons_append, List.map_append, List.append_assoc]
    exact .forLoop (show (word.move f).kind = _ from hword) hopening (hr₁ _) (hr₂ _) hsemi (hr₃ _)
      hclose (hr₄ _)
  | .leave t, _, _, _, _, @Stmt.Reads.leave _ semi _ _ hsemi, _ =>
    ⟨[t, semi], rfl, Nat.le_refl _, fun _ => .leave hsemi⟩
  | .skip t, _, _, _, _, @Stmt.Reads.skip _ semi _ _ hsemi, _ =>
    ⟨[t, semi], rfl, Nat.le_refl _, fun _ => .skip hsemi⟩
  | .result t v, _, _, _, _, @Stmt.Reads.result _ _ semi _ _ _ _ hv hsemi, hn => by
    obtain ⟨u, rfl, hle, hr⟩ := Expr.readsOpt_map hg v hv hn
    refine ⟨t :: u ++ [semi], by simp, hle, fun rest => ?_⟩
    rw [List.map_append, List.append_assoc]
    exact .result (hr _) hsemi
  | .function d, _, _, _, _, @Stmt.Reads.function _ word _ _ _ hword hd, hn => by
    obtain ⟨u, rfl, hle, hr⟩ := Function.reads_map hg d hd hn
    exact ⟨word :: u, rfl, hle, fun rest => .function hword (hr rest)⟩
  | .classDecl _ t fs ms, _, _, _, _,
      @Stmt.Reads.classDecl _ _ _ word brace last _ _ _ _ hword hbrace hm hlast, hn => by
    obtain ⟨u, rfl, hle, hr⟩ :=
      readsMembers_map (Field.reads_mapAll hg fs) (Function.reads_mapAll hg ms) hm hn
    refine ⟨word :: t :: brace :: u ++ [last], by simp, hle, fun rest => ?_⟩
    rw [List.map_append, List.append_assoc]
    exact .classDecl (show (word.move f).kind = _ from hword) hbrace (hr _) hlast

theorem Stmt.readsElse_map (hg : ∀ i, n₀ ≤ i → g (i + 1) = g i + 1) :
    ∀ (s : Option Stmt) {ts us : List Token} {n m : Nat}, Stmt.ReadsElse s (ts, n) (us, m) → n₀ ≤ n →
      Moved g f (Stmt.ReadsElse (Stmt.mapOpt g f s)) ts n us m
  | none, _, _, _, _, .none, _ => ⟨[], rfl, Nat.le_refl _, fun _ => .none⟩
  | some s, _, _, _, _, @Stmt.ReadsElse.some _ word _ _ _ hword hs, hn => by
    obtain ⟨u, rfl, hle, hr⟩ := Stmt.reads_map hg s hs hn
    exact ⟨word :: u, rfl, hle, fun rest => .some hword (hr rest)⟩

theorem Stmt.readsClause_map (hg : ∀ i, n₀ ≤ i → g (i + 1) = g i + 1) :
    ∀ (s : Option Stmt) {ts us : List Token} {n m : Nat}, Stmt.ReadsClause s (ts, n) (us, m) → n₀ ≤ n →
      Moved g f (Stmt.ReadsClause (Stmt.mapOpt g f s)) ts n us m
  | none, _, _, _, _, @Stmt.ReadsClause.none semi _ _ hsemi, _ =>
    ⟨[semi], rfl, Nat.le_refl _, fun _ => .none hsemi⟩
  | some s, _, _, _, _, .some hs, hn => by
    obtain ⟨u, rfl, hle, hr⟩ := Stmt.reads_map hg s hs hn
    exact ⟨u, rfl, hle, fun rest => .some (hr rest)⟩

theorem Function.reads_map (hg : ∀ i, n₀ ≤ i → g (i + 1) = g i + 1) :
    ∀ (d : Function) {ts us : List Token} {n m : Nat}, d.Reads (ts, n) (us, m) → n₀ ≤ n →
      Moved g f (d.map g f).Reads ts n us m
  | .mk t ps body, _, _, _, _, .mk h, hn => by
    obtain ⟨u, rfl, hle, hr⟩ := readsTail_map (Stmt.readsAll_map hg body) h hn
    exact ⟨t :: u, rfl, hle, fun rest => .mk (hr rest)⟩

theorem Function.reads_mapAll (hg : ∀ i, n₀ ≤ i → g (i + 1) = g i + 1) :
    ∀ ds : List Function, ∀ d ∈ ds, ∀ {ts us : List Token} {n m : Nat}, d.Reads (ts, n) (us, m) →
      n₀ ≤ n → Moved g f (d.map g f).Reads ts n us m
  | [] => nofun
  | d :: ds => List.forall_mem_cons.2 ⟨Function.reads_map hg d, Function.reads_mapAll hg ds⟩

theorem Field.reads_mapAll (hg : ∀ i, n₀ ≤ i → g (i + 1) = g i + 1) :
    ∀ ds : List Field, ∀ d ∈ ds, ∀ {ts us : List Token} {n m : Nat}, d.value.Reads (ts, n) (us, m) →
      n₀ ≤ n → Moved g f (d.value.map g f).Reads ts n us m
  | [] => nofun
  | .mk _ e :: ds => List.forall_mem_cons.2 ⟨Expr.reads_map hg e, Field.reads_mapAll hg ds⟩

theorem Stmt.readsAll_map (hg : ∀ i, n₀ ≤ i → g (i + 1) = g i + 1) :
    ∀ (ss : List Stmt) {ts us : List Token} {n m : Nat}, Stmt.ReadsAll ss (ts, n) (us, m) → n₀ ≤ n →
      Moved g f (Stmt.ReadsAll (Stmt.mapAll g f ss)) ts n us m
  | [], _, _, _, _, .nil, _ => ⟨[], rfl, Nat.le_refl _, fun _ => .nil⟩
  | s :: ss, _, _, _, _, @Stmt.ReadsAll.cons _ _ _ (_, _) _ hs hss, hn => by
    obtain ⟨u₁, rfl, hle₁, hr₁⟩ := Stmt.reads_map hg s hs hn
    obtain ⟨u₂, rfl, hle₂, hr₂⟩ := Stmt.readsAll_map hg ss hss (by omega)
    refine ⟨u₁ ++ u₂, by simp, by omega, fun rest => ?_⟩
    rw [List.map_append, List.append_assoc]
    exact .cons (hr₁ _) (hr₂ _)

end

end

end Treewalk
