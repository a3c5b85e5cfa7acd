import Treewalk.Proofs.Token.Spelling
import Treewalk.Tree.Dump

/-!
# Words and lists

The text of a tree is that of a symbolic expression (`Sexp`): a word, a quoted text, or a list in
parentheses with a blank between neighbours. `Expr.sexp` and `Stmt.sexp` give the symbolic expression that
a tree is shown as.

Symbolic expressions whose words are unbroken are uniquely readable: if the texts of two of them start the
same text, and each ends where a word would, then they are the same (`Sexp.text_append_inj`). None of them
holds a newline (`Sexp.newline_notMem`).
-/

namespace Treewalk

/-- A symbolic expression. -/
inductive Sexp where
  | word (w : Bytes)
  | quoted (s : Bytes)
  | list (items : List Sexp)

namespace Sexp

mutual

/-- The text of a symbolic expression. -/
def text : Sexp → Bytes
  | .word w => w
  | .quoted s => Quoted.string s
  | .list items => 0x28 :: (texts items ++ [0x29])

/-- The texts of items with a blank between neighbours. -/
def texts : List Sexp → Bytes
  | [] => []
  | x :: xs => x.text ++ more xs

/-- The texts of items, each after a blank. -/
def more : List Sexp → Bytes
  | [] => []
  | x :: xs => 0x20 :: (x.text ++ more xs)

end

/-! ## Unique reading -/

mutual

/-- All words are unbroken. -/
def Plain : Sexp → Prop
  | .word w => w.IsWord
  | .quoted _ => True
  | .list items => PlainAll items

/-- All words of some items are unbroken. -/
def PlainAll : List Sexp → Prop
  | [] => True
  | x :: xs => x.Plain ∧ PlainAll xs

end

/-- What may stand behind a word: nothing, or a byte that ends it. -/
def Ended (u : Bytes) : Prop := ∀ b ∈ u.head?, b ∈ Bytes.breaks

theorem ended_cons {b : UInt8} (hb : b ∈ Bytes.breaks) (u : Bytes) : Ended (b :: u) := by
  intro c hc
  rw [← Option.some.inj hc]
  exact hb

theorem ended_more (xs : List Sexp) (u : Bytes) : Ended (more xs ++ 0x29 :: u) := by
  cases xs with
  | nil => exact ended_cons (by decide) u
  | cons x xs => exact ended_cons (by decide) _

/-- A word ends where the first byte stands that ends it. -/
theorem word_append_inj {w w' u v : Bytes} (hw : ∀ b ∈ w, b ∉ Bytes.breaks)
    (hw' : ∀ b ∈ w', b ∉ Bytes.breaks) (hu : Ended u) (hv : Ended v) (h : w ++ u = w' ++ v) :
    w = w' ∧ u = v := by
  induction w generalizing w' with
  | nil =>
    cases w' with
    | nil => exact ⟨rfl, h⟩
    | cons b w' =>
      rw [List.nil_append] at h
      exact absurd (hu b (by rw [h]; rfl)) (hw' b List.mem_cons_self)
  | cons a w ih =>
    cases w' with
    | nil =>
      rw [List.nil_append] at h
      exact absurd (hv a (by rw [← h]; rfl)) (hw a List.mem_cons_self)
    | cons b w' =>
      rw [List.forall_mem_cons] at hw hw'
      obtain ⟨rfl, hrest⟩ := List.cons.inj h
      obtain ⟨rfl, huv⟩ := ih hw.2 hw'.2 hrest
      exact ⟨rfl, huv⟩

/-- A word is told by its first byte from all that starts with a byte that ends words. -/
theorem word_append_ne {w : Bytes} (hw : w.IsWord) {b : UInt8} (hb : b ∈ Bytes.breaks) (u v : Bytes) :
    w ++ u ≠ b :: v := by
  obtain ⟨a, rest, rfl⟩ := List.exists_cons_of_ne_nil hw.ne_nil
  intro h
  obtain ⟨rfl, -⟩ := List.cons.inj h
  exact hw.unbroken a List.mem_cons_self hb

/-- No item starts like the end of a list. -/
theorem text_append_ne {x : Sexp} (hx : x.Plain) (u v : Bytes) : x.text ++ u ≠ 0x29 :: v := by
  cases x with
  | word w => exact word_append_ne hx (by decide) u v
  | quoted s => exact fun h => absurd (List.cons.inj h).1 (by decide)
  | list items => exact fun h => absurd (List.cons.inj h).1 (by decide)

mutual

/-- **Unique reading.** Two symbolic expressions that start the same text are the same. -/
theorem text_append_inj : ∀ (x y : Sexp), x.Plain → y.Plain → ∀ {u v : Bytes}, Ended u → Ended v →
    x.text ++ u = y.text ++ v → x = y ∧ u = v
  | .word w, .word w', hx, hy, _, _, hu, hv, h => by
    obtain ⟨rfl, huv⟩ := word_append_inj hx.unbroken hy.unbroken hu hv h
    exact ⟨rfl, huv⟩
  | .quoted s, .quoted s', _, _, _, _, _, _, h => by
    obtain ⟨rfl, huv⟩ := Quoted.string_append_inj h
    exact ⟨rfl, huv⟩
  | .list xs, .list ys, hx, hy, _, _, _, _, h => by
    have h : texts xs ++ [0x29] ++ _ = texts ys ++ [0x29] ++ _ := (List.cons.inj h).2
    rw [List.append_assoc, List.append_assoc] at h
    obtain ⟨rfl, huv⟩ := texts_append_inj xs ys hx hy h
    exact ⟨rfl, huv⟩
  | .word _, .quoted _, hx, _, _, _, _, _, h => absurd h (word_append_ne hx (by decide) _ _)
  | .word _, .list _, hx, _, _, _, _, _, h => absurd h (word_append_ne hx (by decide) _ _)
  | .quoted _, .word _, _, hy, _, _, _, _, h => absurd h.symm (word_append_ne hy (by decide) _ _)
  | .quoted _, .list _, _, _, _, _, _, _, h => absurd (List.cons.inj h).1 (by decide)
  | .list _, .word _, _, hy, _, _, _, _, h => absurd h.symm (word_append_ne hy (by decide) _ _)
  | .list _, .quoted _, _, _, _, _, _, _, h => absurd (List.cons.inj h).1 (by decide)

/-- The items of a list and where it ends. -/
theorem texts_append_inj : ∀ (xs ys : List Sexp), PlainAll xs → PlainAll ys → ∀ {u v : Bytes},
    texts xs ++ 0x29 :: u = texts ys ++ 0x29 :: v → xs = ys ∧ u = v
  | [], [], _, _, _, _, h => ⟨rfl, (List.cons.inj h).2⟩
  | [], y :: ys, _, hy, _, _, h => by
    rw [texts, texts, List.append_assoc] at h
    exact absurd h.symm (text_append_ne hy.1 _ _)
  | x :: xs, [], hx, _, _, _, h => by
    rw [texts, texts, List.append_assoc] at h
    exact absurd h (text_append_ne hx.1 _ _)
  | x :: xs, y :: ys, hx, hy, u, v, h => by
    rw [texts, texts, List.append_assoc, List.append_assoc] at h
    obtain ⟨rfl, hrest⟩ := text_append_inj x y hx.1 hy.1 (ended_more xs u) (ended_more ys v) h
    obtain ⟨rfl, huv⟩ := more_append_inj xs ys hx.2 hy.2 hrest
    exact ⟨rfl, huv⟩

theorem more_append_inj : ∀ (xs ys : List Sexp), PlainAll xs → PlainAll ys → ∀ {u v : Bytes},
    more xs ++ 0x29 :: u = more ys ++ 0x29 :: v → xs = ys ∧ u = v
  | [], [], _, _, _, _, h => ⟨rfl, (List.cons.inj h).2⟩
  | [], y :: ys, _, _, _, _, h => by cases (List.cons.inj h).1
  | x :: xs, [], _, _, _, _, h => by cases (List.cons.inj h).1
  | x :: xs, y :: ys, hx, hy, u, v, h => by
    have h : x.text ++ more xs ++ _ = y.text ++ more ys ++ _ := (List.cons.inj h).2
    rw [List.append_assoc, List.append_assoc] at h
    obtain ⟨rfl, hrest⟩ := text_append_inj x y hx.1 hy.1 (ended_more xs u) (ended_more ys v) h
    obtain ⟨rfl, huv⟩ := more_append_inj xs ys hx.2 hy.2 hrest
    exact ⟨rfl, huv⟩

end

mutual

theorem newline_notMem : ∀ x : Sexp, x.Plain → Bytes.newline ∉ x.text
  | .word w, hx => fun h => hx.unbroken _ h (by decide)
  | .quoted s, _ => Quoted.newline_notMem_string s
  | .list xs, hx => by
    have hxs := newline_notMem_texts xs hx
    rw [text, List.mem_cons, List.mem_append, List.mem_singleton]
    rintro (h | h | h)
    · cases h
    · exact hxs h
    · cases h

theorem newline_notMem_texts : ∀ xs : List Sexp, PlainAll xs → Bytes.newline ∉ texts xs
  | [], _ => List.not_mem_nil
  | x :: xs, hx => by
    rw [texts, List.mem_append, not_or]
    exact ⟨newline_notMem x hx.1, newline_notMem_more xs hx.2⟩

theorem newline_notMem_more : ∀ xs : List Sexp, PlainAll xs → Bytes.newline ∉ more xs
  | [], _ => List.not_mem_nil
  | x :: xs, hx => by
    have hhead := newline_notMem x hx.1
    have htail := newline_notMem_more xs hx.2
    rw [more, List.mem_cons, List.mem_append]
    rintro (h | h | h)
    · cases h
    · exact hhead h
    · exact htail h

end

end Sexp

/-! ## The symbolic expression of a tree -/

/-- The names of parameters. -/
def Sexp.params (ps : List Token) : Sexp := .list (ps.map fun p => .word p.lexeme)

/-- A literal: texts quoted, all else as it was spelled. -/
def Sexp.literal (t : Token) : Sexp :=
  match t.literal with
  | .string s => .quoted s
  | .none => .word (Treewalk.text "none")
  | .bool _ | .number _ => .word t.lexeme

/-- A list with its head. -/
def Sexp.form (head : Bytes) (items : List Sexp) : Sexp := .list (.word head :: items)

/-- What stands for an absent clause. -/
def Sexp.absent : Sexp := .word (Treewalk.text "none")

open Sexp Dump

mutual

/-- The symbolic expression of an expression. -/
def Expr.sexp : Expr → Sexp
  | .literal _ t => .literal t
  | .group _ _ e => form (text "group") [e.sexp]
  | .unary _ _ t e => form t.lexeme [e.sexp]
  | .binary _ _ t l r => form t.lexeme [l.sexp, r.sexp]
  | .logical _ _ t l r => form t.lexeme [l.sexp, r.sexp]
  | .ternary _ _ c y n => form (text "?:") [c.sexp, y.sexp, n.sexp]
  | .ident _ t => .word t.lexeme
  | .assign _ t e => form (text "=") [.word t.lexeme, e.sexp]
  | .compound _ t _ u e => form u.lexeme [.word t.lexeme, e.sexp]
  | .update _ t _ u before => form (stepHead u before) [.word t.lexeme]
  | .updateIndex _ o _ i _ u before => form (stepHead u before) [form (text "index") [o.sexp, i.sexp]]
  | .updateGet _ o t _ u before => form (stepHead u before) [form (text ".") [o.sexp, .word t.lexeme]]
  | .call _ c _ args => form (text "call") (c.sexp :: Expr.sexps args)
  | .lambda _ _ ps body => form (text "fun") (.params ps :: Stmt.sexps body)
  | .array _ _ es => form (text "array") (Expr.sexps es)
  | .index _ o _ i => form (text "index") [o.sexp, i.sexp]
  | .get _ o t => form (text ".") [o.sexp, .word t.lexeme]
  | .set _ o t e => form (text "=") [form (text ".") [o.sexp, .word t.lexeme], e.sexp]
  | .this _ _ => .word (text "this")

/-- The symbolic expressions of expressions. -/
def Expr.sexps : List Expr → List Sexp
  | [] => []
  | e :: es => e.sexp :: Expr.sexps es

/-- The symbolic expression of an expression if there is one. -/
def Expr.sexpOpt : Option Expr → List Sexp
  | none => []
  | some e => [e.sexp]

/-- The symbolic expression of a statement; an expression statement is its expression. -/
def Stmt.sexp : Stmt → Sexp
  | .expression _ e => e.sexp
  | .print _ e => form (text "print") [e.sexp]
  | .declare _ t v => form (text "let") (.word t.lexeme :: Expr.sexpOpt v)
  | .block _ body => form (text "block") (Stmt.sexps body)
  | .branch _ c y n => form (text "if") (c.sexp :: y.sexp :: Stmt.sexpOpt n)
  | .loop _ c b => form (text "while") [c.sexp, b.sexp]
  | .forLoop _ s c u b =>
    form (text "for") [(Stmt.sexpOpt s).headD absent, (Expr.sexpOpt c).headD absent,
      (Expr.sexpOpt u).headD absent, b.sexp]
  | .leave _ => form (text "break") []
  | .skip _ => form (text "continue") []
  | .result _ v => form (text "return") (Expr.sexpOpt v)
  | .function d => d.sexp
  | .classDecl _ t fs ms =>
    form (text "class") (.word t.lexeme :: (Field.sexps fs ++ Function.sexps ms))

/-- The symbolic expressions of statements. -/
def Stmt.sexps : List Stmt → List Sexp
  | [] => []
  | s :: ss => s.sexp :: Stmt.sexps ss

/-- The symbolic expression of a statement if there is one. -/
def Stmt.sexpOpt : Option Stmt → List Sexp
  | none => []
  | some s => [s.sexp]

/-- The symbolic expression of a function. -/
def Function.sexp : Function → Sexp
  | .mk t ps body => form (text "fun") (.word t.lexeme :: .params ps :: Stmt.sexps body)

/-- The symbolic expressions of functions. -/
def Function.sexps : List Function → List Sexp
  | [] => []
  | d :: ds => d.sexp :: Function.sexps ds

/-- The symbolic expression of a field. -/
def Field.sexp : Field → Sexp
  | .mk t e => form (text "field") [.word t.lexeme, e.sexp]

/-- The symbolic expressions of fields. -/
def Field.sexps : List Field → List Sexp
  | [] => []
  | d :: ds => d.sexp :: Field.sexps ds

end

/-! ## Its text is the text of the tree -/

/-- The text of a symbolic expression as a piece. -/
def Sexp.piece (x : Sexp) : Piece := Dump.word x.text

theorem Dump.list_piece (head : Bytes) (xs : List Sexp) :
    Dump.list head (xs.map Sexp.piece) = (form head xs).piece := by
  funext rest
  have hmore : (xs.map Sexp.piece).foldr (fun item rest => Treewalk.text " " ++ item rest)
      (Treewalk.text ")" ++ rest) = more xs ++ 0x29 :: rest := by
    induction xs with
    | nil => rfl
    | cons x xs ih =>
      rw [List.map_cons, List.foldr_cons, ih]
      show 0x20 :: (x.text ++ (more xs ++ 0x29 :: rest)) = 0x20 :: (x.text ++ more xs ++ 0x29 :: rest)
      rw [List.append_assoc]
  rw [Dump.list, hmore]
  show 0x28 :: (head ++ (more xs ++ 0x29 :: rest)) = 0x28 :: (head ++ more xs ++ [0x29] ++ rest)
  simp only [List.append_assoc, List.singleton_append]

theorem Sexp.join_eq : ∀ ws : List Bytes, Bytes.join (Treewalk.text " ") ws = texts (ws.map .word)
  | [] => rfl
  | [w] => by simp [Bytes.join, texts, more, text]
  | w :: v :: ws => by
    have ih : Bytes.join (Treewalk.text " ") (v :: ws) = v ++ more (ws.map .word) := join_eq (v :: ws)
    show w ++ (0x20 :: Bytes.join (Treewalk.text " ") (v :: ws)) = w ++ 0x20 :: (v ++ more (ws.map .word))
    rw [ih]

theorem Dump.params_piece (ps : List Token) : Dump.params ps = (Sexp.params ps).piece := by
  rw [Dump.params, Sexp.join_eq, List.map_map]
  rfl

theorem Dump.literal_piece (t : Token) : Dump.literal t = (Sexp.literal t).piece := by
  rw [Dump.literal, Sexp.literal]
  cases t.literal <;> rfl

mutual

theorem Expr.piece_eq : ∀ e : Expr, e.piece = e.sexp.piece
  | .literal _ t => literal_piece t
  | .ident _ _ | .this _ _ => rfl
  | .group _ _ e | .unary _ _ _ e => by
    rw [Expr.piece, Expr.piece_eq e]
    exact list_piece _ [e.sexp]
  | .binary _ _ _ l r | .logical _ _ _ l r | .index _ l _ r => by
    rw [Expr.piece, Expr.piece_eq l, Expr.piece_eq r]
    exact list_piece _ [l.sexp, r.sexp]
  | .ternary _ _ c y n => by
    rw [Expr.piece, Expr.piece_eq c, Expr.piece_eq y, Expr.piece_eq n]
    exact list_piece _ [c.sexp, y.sexp, n.sexp]
  | .assign _ t e | .compound _ t _ _ e => by
    rw [Expr.piece, Expr.piece_eq e]
    exact list_piece _ [.word t.lexeme, e.sexp]
  | .update _ t _ _ _ => list_piece _ [.word t.lexeme]
  | .updateIndex _ o _ i _ _ _ => by
    rw [Expr.piece, Expr.piece_eq o, Expr.piece_eq i]
    exact (congrArg (fun p => Dump.list _ [p]) (list_piece _ [o.sexp, i.sexp])).trans
      (list_piece _ [form _ [o.sexp, i.sexp]])
  | .updateGet _ o t _ _ _ => by
    rw [Expr.piece, Expr.piece_eq o]
    exact (congrArg (fun p => Dump.list _ [p]) (list_piece _ [o.sexp, .word t.lexeme])).trans
      (list_piece _ [form _ [o.sexp, .word t.lexeme]])
  | .call _ c _ args => by
    rw [Expr.piece, Expr.piece_eq c, Expr.pieces_eq args]
    exact list_piece _ (c.sexp :: Expr.sexps args)
  | .lambda _ _ ps body => by
    rw [Expr.piece, params_piece, Stmt.pieces_eq body]
    exact list_piece _ (.params ps :: Stmt.sexps body)
  | .array _ _ es => by
    rw [Expr.piece, Expr.pieces_eq es]
    exact list_piece _ (Expr.sexps es)
  | .get _ o t => by
    rw [Expr.piece, Expr.piece_eq o]
    exact list_piece _ [o.sexp, .word t.lexeme]
  | .set _ o t e => by
    rw [Expr.piece, Expr.piece_eq o, Expr.piece_eq e]
    exact (congrArg (fun p => Dump.list _ [p, e.sexp.piece]) (list_piece _ [o.sexp, .word t.lexeme])).trans
      (list_piece _ [form _ [o.sexp, .word t.lexeme], e.sexp])

theorem Expr.pieces_eq : ∀ es : List Expr, Expr.pieces es = (Expr.sexps es).map Sexp.piece
  | [] => rfl
  | e :: es => by rw [Expr.pieces, Expr.piece_eq e, Expr.pieces_eq es, Expr.sexps, List.map_cons]

theorem Expr.pieceOpt_eq : ∀ v : Option Expr, Expr.pieceOpt v = (Expr.sexpOpt v).map Sexp.piece
  | none => rfl
  | some e => by rw [Expr.pieceOpt, Expr.piece_eq e]; rfl

theorem Stmt.piece_eq : ∀ s : Stmt, s.piece = s.sexp.piece
  | .expression _ e => Expr.piece_eq e
  | .print _ e => by
    rw [Stmt.piece, Expr.piece_eq e]
    exact list_piece _ [e.sexp]
  | .declare _ t v => by
    rw [Stmt.piece, Expr.pieceOpt_eq v]
    exact list_piece _ (.word t.lexeme :: Expr.sexpOpt v)
  | .block _ body => by
    rw [Stmt.piece, Stmt.pieces_eq body]
    exact list_piece _ (Stmt.sexps body)
  | .branch _ c y n => by
    rw [Stmt.piece, Expr.piece_eq c, Stmt.piece_eq y, Stmt.pieceOpt_eq n]
    exact list_piece _ (c.sexp :: y.sexp :: Stmt.sexpOpt n)
  | .loop _ c b => by
    rw [Stmt.piece, Expr.piece_eq c, Stmt.piece_eq b]
    exact list_piece _ [c.sexp, b.sexp]
  | .forLoop _ s c u b => by
    have hclause : ∀ xs : List Sexp, (xs.map Sexp.piece).headD absent = (xs.headD .absent).piece := by
      intro xs
      cases xs <;> rfl
    rw [Stmt.piece, Stmt.pieceOpt_eq s, Expr.pieceOpt_eq c, Expr.pieceOpt_eq u, Stmt.piece_eq b, hclause,
      hclause, hclause]
    exact list_piece _ [(Stmt.sexpOpt s).headD .absent, (Expr.sexpOpt c).headD .absent,
      (Expr.sexpOpt u).headD .absent, b.sexp]
  | .leave _ | .skip _ => list_piece _ []
  | .result _ v => by
    rw [Stmt.piece, Expr.pieceOpt_eq v]
    exact list_piece _ (Expr.sexpOpt v)
  | .function d => Function.piece_eq d
  | .classDecl _ t fs ms => by
    rw [Stmt.piece, Field.pieces_eq fs, Function.pieces_eq ms, ← List.map_append]
    exact list_piece _ (.word t.lexeme :: (Field.sexps fs ++ Function.sexps ms))

theorem Stmt.pieces_eq : ∀ ss : List Stmt, Stmt.pieces ss = (Stmt.sexps ss).map Sexp.piece
  | [] => rfl
  | s :: ss => by rw [Stmt.pieces, Stmt.piece_eq s, Stmt.pieces_eq ss, Stmt.sexps, List.map_cons]

theorem Stmt.pieceOpt_eq : ∀ s : Option Stmt, Stmt.pieceOpt s = (Stmt.sexpOpt s).map Sexp.piece
  | none => rfl
  | some s => by rw [Stmt.pieceOpt, Stmt.piece_eq s]; rfl

theorem Function.piece_eq : ∀ d : Function, d.piece = d.sexp.piece
  | .mk t ps body => by
    rw [Function.piece, params_piece, Stmt.pieces_eq body]
    exact list_piece _ (.word t.lexeme :: .params ps :: Stmt.sexps body)

theorem Function.pieces_eq : ∀ ds : List Function, Function.pieces ds = (Function.sexps ds).map Sexp.piece
  | [] => rfl
  | d :: ds => by
    rw [Function.pieces, Function.piece_eq d, Function.pieces_eq ds, Function.sexps, List.map_cons]

theorem Field.piece_eq : ∀ d : Field, d.piece = d.sexp.piece
  | .mk t e => by
    rw [Field.piece, Expr.piece_eq e]
    exact list_piece _ [.word t.lexeme, e.sexp]

theorem Field.pieces_eq : ∀ ds : List Field, Field.pieces ds = (Field.sexps ds).map Sexp.piece
  | [] => rfl
  | d :: ds => by rw [Field.pieces, Field.piece_eq d, Field.pieces_eq ds, Field.sexps, List.map_cons]

end

/-- A statement is shown as its symbolic expression. -/
theorem Stmt.dump_eq (s : Stmt) : s.dump = s.sexp.text := by
  rw [Stmt.dump, Stmt.piece_eq]
  exact List.append_nil _

end Treewalk
