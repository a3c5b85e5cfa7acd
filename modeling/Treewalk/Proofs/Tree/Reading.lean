import Treewalk.Proofs.Scope.Numbering
import Treewalk.Proofs.Tree.Essence
import Mathlib.Data.List.Forall2

/-!
# Trees read back from their text

A symbolic expression can be read as a tree (`Sexp.read`), and what is read from that of a well-formed tree
of scanned tokens is the essence of the tree (`Stmt.stands`).

Reading goes by the head of a list and then by the number of its items. Where two forms share both, as an
assignment to a name and one to a property, or the three kinds of steps, the first item decides, which is
read like any other item. A function and a function without a name differ in whether a word or a list
follows the head; a parameter list is the one list without a head.
-/

namespace Treewalk

open Dump (stepHead)
open Treewalk.Parser (Level Joint unaryOp? compoundOp? stepOp?)

namespace Sexp

/-! ## Heads -/

/-- What the head of a list tells. -/
inductive Head where
  /-- An operator before one operand or between two. -/
  | op (kind : Token.Kind)
  | step (kind : Token.Kind) (before : Bool)
  | group | ternary | assign | call | function | array | index | get
  | print | declare | block | branch | loop | forLoop | leave | skip | result | field | classDecl
deriving DecidableEq

namespace Head

/-- How a head is spelled. -/
def name : Head → Bytes
  | .op kind => kind.name
  | .step kind before => stepHead (mark kind) before
  | .group => Treewalk.text "group"
  | .ternary => Treewalk.text "?:"
  | .assign => Treewalk.text "="
  | .call => Treewalk.text "call"
  | .function => Treewalk.text "fun"
  | .array => Treewalk.text "array"
  | .index => Treewalk.text "index"
  | .get => Treewalk.text "."
  | .print => Treewalk.text "print"
  | .declare => Treewalk.text "let"
  | .block => Treewalk.text "block"
  | .branch => Treewalk.text "if"
  | .loop => Treewalk.text "while"
  | .forLoop => Treewalk.text "for"
  | .leave => Treewalk.text "break"
  | .skip => Treewalk.text "continue"
  | .result => Treewalk.text "return"
  | .field => Treewalk.text "field"
  | .classDecl => Treewalk.text "class"

/-- The kinds of operators that are heads. -/
def operators : List Token.Kind :=
  [.bang, .minus, .plus, .star, .slash, .less, .lessEqual, .greater, .greaterEqual, .equalEqual,
    .bangEqual, .andWord, .orWord, .plusAssign, .minusAssign, .starAssign, .slashAssign]

/-- All heads. -/
def all : List Head :=
  operators.map op ++ ([step .plusPlus true, step .plusPlus false, step .minusMinus true,
    step .minusMinus false, group, ternary, assign, call, function, array, index, get, print,
    declare, block, branch, loop, forLoop, leave, skip, result, field, classDecl] : List Head)

/-- The head with a given spelling. -/
def of? (w : Bytes) : Option Head := all.find? (·.name == w)

/-- Heads are words, and no two are spelled alike. -/
theorem of?_name : ∀ h ∈ all, of? h.name = some h ∧ h.name.IsWord := by decide +kernel

theorem op_mem {kind : Token.Kind} (h : kind ∈ operators) : Head.op kind ∈ all :=
  List.mem_append_left _ (List.mem_map_of_mem h)

end Head

/-! ## Reading -/

/-- What is read where nothing can be read. -/
def nothing : Stmt := .block {} []

/-- The token of a name. -/
def nameToken (w : Bytes) : Token := { kind := .identifier, lexeme := w }

/-- A word that is an item: a number, a literal word, `this` or a name. -/
def readWord (w : Bytes) : Expr :=
  if w.startsDigit then .literal 0 ⟨.number, w, .number (Segment.numberValue w), {}⟩
  else match Token.Kind.ofWord w with
    | .identifier => .ident 0 (nameToken w)
    | .thisWord => .this 0 (mark .thisWord)
    | kind => .literal 0 ⟨kind, w, Segment.wordLiteral kind, {}⟩

/-- The expression of an item. -/
def operand : Stmt → Expr
  | .expression _ e => e
  | _ => .literal 0 { kind := .eof }

/-- The name that an item is. -/
def named (s : Stmt) : Token :=
  match operand s with
  | .ident _ t => t
  | _ => { kind := .eof }

/-- An item that stands for a clause: the literal `none` stands for none. -/
def clause (s : Stmt) : Option Stmt := (some s).filter fun s => !s.isNone

/-- The names in a parameter list. -/
def names : Sexp → List Token
  | .list items => items.map fun
    | .word w => nameToken w
    | _ => { kind := .eof }
  | _ => []

/-- A field, which is read like a declaration with a value. -/
def asField? : Stmt → Option Field
  | .declare _ t (some e) => some (.mk t e)
  | _ => none

/-- A method, which is read like a function. -/
def asMethod? : Stmt → Option Function
  | .function d => some d
  | _ => none

/-- The operator between two operands, on whatever level. -/
def joint? (kind : Token.Kind) : Option Joint :=
  [Level.or, .and, .equality, .comparison, .term, .factor].findSome? (·.joint? kind)

/-- An operator with its operands. -/
def readOp (kind : Token.Kind) : List Stmt → Option Expr
  | [e] => (unaryOp? kind).map fun op => .unary 0 op (mark kind) (operand e)
  | [l, r] =>
    match compoundOp? kind with
    | some op => some (.compound 0 (named l) op (mark kind) (operand r))
    | none => (joint? kind).map fun j => j.build 0 (mark kind) (operand l) (operand r)
  | _ => none

/-- A step of what an item is. -/
def readStep (kind : Token.Kind) (before : Bool) (target : Expr) : Option Expr :=
  (stepOp? kind).bind fun op =>
    match target with
    | .ident _ t => some (.update 0 t op (mark kind) before)
    | .index _ o t i => some (.updateIndex 0 o t i op (mark kind) before)
    | .get _ o t => some (.updateGet 0 o t op (mark kind) before)
    | _ => none

/-- An assignment to what an item is. -/
def readAssign (value : Expr) : Expr → Option Expr
  | .ident _ t => some (.assign 0 t value)
  | .get _ o t => some (.set 0 o t value)
  | _ => none

/-- The expression with a given head and items. -/
def readExpr (items : List Sexp) : Head → List Stmt → Option Expr
  | .op kind, parts => readOp kind parts
  | .step kind before, [e] => readStep kind before (operand e)
  | .group, [e] => some (.group 0 (mark .leftParen) (operand e))
  | .ternary, [c, y, n] => some (.ternary 0 (mark .question) (operand c) (operand y) (operand n))
  | .assign, [t, e] => readAssign (operand e) (operand t)
  | .call, c :: args => some (.call 0 (operand c) (mark .rightParen) (args.map operand))
  | .array, es => some (.array 0 (mark .leftBracket) (es.map operand))
  | .index, [o, i] => some (.index 0 (operand o) (mark .leftBracket) (operand i))
  | .get, [o, t] => some (.get 0 (operand o) (named t))
  | .function, _ :: body =>
    match items with
    | .list ps :: _ => some (.lambda 0 (mark .funWord) (names (.list ps)) body)
    | _ => none
  | _, _ => none

/-- The statement with a given head and items that is no expression. -/
def readStmt (items : List Sexp) : Head → List Stmt → Stmt
  | .print, [e] => .print {} (operand e)
  | .declare, [t] => .declare {} (named t) none
  | .declare, [t, e] => .declare {} (named t) (some (operand e))
  | .block, body => .block {} body
  | .branch, [c, y] => .branch {} (operand c) y none
  | .branch, [c, y, n] => .branch {} (operand c) y (some n)
  | .loop, [c, b] => .loop {} (operand c) b
  | .forLoop, [s, c, u, b] => .forLoop {} (clause s) ((clause c).map operand) ((clause u).map operand) b
  | .leave, [] => .leave (mark .breakWord)
  | .skip, [] => .skip (mark .continueWord)
  | .result, [] => .result (mark .returnWord) none
  | .result, [e] => .result (mark .returnWord) (some (operand e))
  | .field, [t, e] => .declare {} (named t) (some (operand e))
  | .function, t :: _ :: body => .function (.mk (named t) (names (items.getD 1 .absent)) body)
  | .classDecl, t :: members =>
    .classDecl {} (named t) (members.filterMap asField?) (members.filterMap asMethod?)
  | _, _ => nothing

/-- What a list with a given head and items is read as. -/
def Head.read (h : Head) (items : List Sexp) (parts : List Stmt) : Stmt :=
  match readExpr items h parts with
  | some e => .expression {} e
  | none => readStmt items h parts

/-- What a list is read as, given its items and what they are read as. -/
def build : List Sexp → List Stmt → Stmt
  | .word w :: items, _ :: parts =>
    match Head.of? w with
    | some h => h.read items parts
    | none => nothing
  | _, _ => nothing

mutual

/-- The statement that a symbolic expression is read as; an expression is read as a statement. -/
def read : Sexp → Stmt
  | .word w => .expression {} (readWord w)
  | .quoted s => .expression {} (.literal 0 { kind := .string, literal := .string s })
  | .list items => build items (readAll items)

/-- The items of a list. -/
def readAll : List Sexp → List Stmt
  | [] => []
  | x :: xs => x.read :: readAll xs

end

/-! ## Standing for a tree -/

/-- A symbolic expression has unbroken words and is read as a statement. -/
structure Stands (x : Sexp) (s : Stmt) : Prop where
  plain : x.Plain
  read : x.read = s

theorem standsAll {xs : List Sexp} {ss : List Stmt} (h : List.Forall₂ Stands xs ss) :
    PlainAll xs ∧ readAll xs = ss := by
  induction h with
  | nil => exact ⟨trivial, rfl⟩
  | cons hx _ ih =>
    refine ⟨⟨hx.plain, ih.1⟩, ?_⟩
    rw [readAll, hx.read, ih.2]

theorem Stands.self {x : Sexp} (h : x.Plain) : x.Stands x.read := ⟨h, rfl⟩

/-- A list stands for what its head makes of what its items stand for. -/
theorem Stands.form {h : Head} (hmem : h ∈ Head.all) {xs : List Sexp} {ss : List Stmt}
    (hxs : List.Forall₂ Stands xs ss) : (Sexp.form h.name xs).Stands (h.read xs ss) := by
  obtain ⟨hplain, hread⟩ := standsAll hxs
  obtain ⟨hhead, hword⟩ := Head.of?_name h hmem
  refine ⟨⟨hword, hplain⟩, ?_⟩
  rw [Sexp.form, Sexp.read, readAll, hread, build, hhead]

theorem Stands.word {t : Token} (h : t.Genuine) (hkind : t.kind = .identifier) :
    (Sexp.word t.lexeme).Stands (.expression {} (.ident 0 (t.move nowhere))) := by
  obtain ⟨hmove, hword, hdigit, hofWord⟩ := h.ident hkind
  refine ⟨hword, ?_⟩
  rw [Sexp.read, readWord, hdigit, hofWord, hmove]
  rfl

/-- The words that stand for a value. -/
theorem ofWord_of_isLiteral {w : Bytes} (h : (Token.Kind.ofWord w).isLiteral = true) :
    (Token.Kind.ofWord w = .trueWord ∨ Token.Kind.ofWord w = .falseWord) ∨
      Token.Kind.ofWord w = .noneWord ∧ w = Treewalk.text "none" := by
  have hne : Token.Kind.ofWord w ≠ .identifier := by
    intro heq
    rw [heq] at h
    cases h
  obtain ⟨hmem, hname⟩ := Token.Kind.ofWord_eq rfl hne
  generalize Token.Kind.ofWord w = kind at h hmem hname
  cases kind with
  | trueWord => exact .inl (.inl rfl)
  | falseWord => exact .inl (.inr rfl)
  | noneWord => exact .inr ⟨rfl, hname⟩
  | number => exact absurd hmem (by decide)
  | string => exact absurd hmem (by decide)
  | _ => cases h

theorem Stands.literal {t : Token} (h : t.Genuine) (hkind : t.kind.isLiteral = true) :
    (Sexp.literal t).Stands (.expression {} (.literal 0 t.value)) := by
  cases h with
  | @word w pos hword hdigit =>
    have hread : readWord w = match Token.Kind.ofWord w with
        | .identifier => .ident 0 (nameToken w)
        | .thisWord => .this 0 (mark .thisWord)
        | kind => .literal 0 ⟨kind, w, Segment.wordLiteral kind, {}⟩ := by
      rw [readWord, hdigit]
      rfl
    rcases ofWord_of_isLiteral hkind with (heq | heq) | ⟨heq, rfl⟩
    all_goals
      rw [heq] at hread ⊢
      exact ⟨hword, congrArg (Stmt.expression {}) hread⟩
  | @number w pos hword hdigit =>
    refine ⟨hword, ?_⟩
    show Stmt.expression {} (readWord w) = _
    rw [readWord, hdigit]
    rfl
  | string => exact ⟨trivial, rfl⟩
  | @mark kind pos hmark =>
    have hnone : kind.isLiteral = true → kind.isMark = false := by cases kind <;> decide
    rw [hnone hkind] at hmark
    cases hmark

theorem plain_params {ps : List Token} (h : ∀ p ∈ ps, p.Genuine) (hps : WellFormedParams ps) :
    (Sexp.params ps).Plain := by
  show PlainAll (ps.map fun p => .word p.lexeme)
  replace hps := hps.1
  induction ps with
  | nil => trivial
  | cons p ps ih =>
    rw [List.forall_mem_cons] at h hps
    exact ⟨(h.1.ident hps.1).2.1, ih h.2 hps.2⟩

theorem names_params {ps : List Token} (h : ∀ p ∈ ps, p.Genuine) (hps : WellFormedParams ps) :
    names (Sexp.params ps) = ps.map (Token.move nowhere) := by
  rw [Sexp.params, names, List.map_map]
  refine List.map_congr_left fun p hp => ?_
  exact ((h p hp).ident (hps.1 p hp)).1.symm

end Sexp

/-! ## Tokens of a tree -/

/-- All tokens in a piece come from a source. -/
def Fragment.Scanned (p : Fragment) : Prop :=
  ∃ Γ, Everywhere (fun _ q => q.Built Token.Genuine ∧ q.Worded Token.Genuine) Γ p

namespace Fragment.Scanned

theorem part {p q : Fragment} (h : p.Scanned) (hpart : ∀ Γ, ∃ Δ, (Δ, q) ∈ p.parts Γ) : q.Scanned := by
  obtain ⟨Γ, h⟩ := h
  obtain ⟨Δ, hmem⟩ := hpart Γ
  exact ⟨Δ, fun _ _ hbelow => h _ _ ((Below.part .here hmem).trans hbelow)⟩

theorem operand {e e' : Expr} (h : (Fragment.expr e).Scanned)
    (hpart : ∀ Γ, (Γ, Fragment.expr e') ∈ e.parts Γ) : (Fragment.expr e').Scanned :=
  h.part fun Γ => ⟨Γ, hpart Γ⟩

theorem token {e : Expr} (h : (Fragment.expr e).Scanned) {t : Token} (ht : t ∈ e.tokens) : t.Genuine := by
  obtain ⟨Γ, h⟩ := h
  exact h.here.1 t ht

theorem word {s : Stmt} (h : (Fragment.stmt s).Scanned) {t : Token} (ht : t ∈ s.tokens) : t.Genuine := by
  obtain ⟨Γ, h⟩ := h
  exact h.here.1.1 t ht

theorem field {p : Position} {t : Token} {fs : List Field} {ms : List Function}
    (h : (Fragment.stmt (.classDecl p t fs ms)).Scanned) : ∀ d ∈ fs, d.name.Genuine := by
  obtain ⟨Γ, h⟩ := h
  exact h.here.2

end Fragment.Scanned

/-! ## Operators -/

namespace Sexp

theorem mem_operators_of_unaryOp? {kind : Token.Kind} {op : UnaryOp} (h : unaryOp? kind = some op) :
    kind ∈ Head.operators := by
  simp only [unaryOp?] at h
  split at h <;> cases h <;> decide

theorem joint?_of_level {level : Level} {kind : Token.Kind} {j : Joint} (h : level.joint? kind = some j) :
    kind ∈ Head.operators ∧ compoundOp? kind = none ∧ joint? kind = some j := by
  simp only [Level.joint?] at h
  split at h <;> cases h <;> decide

theorem mem_operators_of_compoundOp? {kind : Token.Kind} {op : ArithOp} (h : compoundOp? kind = some op) :
    kind ∈ Head.operators := by
  simp only [compoundOp?] at h
  split at h <;> cases h <;> decide

theorem step_mem {kind : Token.Kind} {op : StepOp} (h : stepOp? kind = some op) (before : Bool) :
    kind.isFixed = true ∧ Head.step kind before ∈ Head.all := by
  simp only [stepOp?] at h
  split at h <;> cases h <;> cases before <;> decide

theorem isFixed_of_mem_operators {kind : Token.Kind} (h : kind ∈ Head.operators) : kind.isFixed = true := by
  have hall : ∀ k ∈ Head.operators, k.isFixed = true := by decide
  exact hall kind h

/-- A list with an operator for its head. -/
theorem Stands.op {t : Token} (h : t.Genuine) (hop : t.kind ∈ Head.operators) {xs : List Sexp}
    {ss : List Stmt} (hxs : List.Forall₂ Stands xs ss) {e : Expr} (he : readOp t.kind ss = some e) :
    (Sexp.form t.lexeme xs).Stands (.expression {} e) := by
  have hname : t.lexeme = t.kind.name := congrArg Token.lexeme (h.move_eq_mark rfl (isFixed_of_mem_operators hop))
  have hform := Stands.form (Head.op_mem hop) hxs
  have hread : (Head.op t.kind).read xs ss = .expression {} e := by
    rw [Head.read, readExpr, he]
  rw [hname]
  rwa [hread] at hform

/-- A list with an operator between two operands for its head. -/
theorem Stands.joint {t : Token} (h : t.Genuine) {level : Level} {j : Joint}
    (hj : level.joint? t.kind = some j) {x y : Sexp} {l r : Expr} (hx : x.Stands (.expression {} l))
    (hy : y.Stands (.expression {} r)) :
    (Sexp.form t.lexeme [x, y]).Stands (.expression {} (j.build 0 (t.move nowhere) l r)) := by
  obtain ⟨hop, hcompound, hjoint⟩ := joint?_of_level hj
  rw [h.move_eq_mark rfl (isFixed_of_mem_operators hop)]
  refine Stands.op h hop (.cons hx (.cons hy .nil)) ?_
  rw [readOp, hcompound, hjoint]
  rfl

/-- A list with a step for its head. -/
theorem Stands.step {t : Token} (h : t.Genuine) {op : StepOp} (hop : stepOp? t.kind = some op)
    (before : Bool) {x : Sexp} {target e : Expr} (hx : x.Stands (.expression {} target))
    (he : readStep t.kind before target = some e) :
    (Sexp.form (stepHead t before) [x]).Stands (.expression {} e) := by
  obtain ⟨hfixed, hmem⟩ := step_mem hop before
  have hname : t.lexeme = t.kind.name := congrArg Token.lexeme (h.move_eq_mark rfl hfixed)
  have hform := Stands.form hmem (.cons hx .nil)
  have hread : (Head.step t.kind before).read [x] [.expression {} target] = .expression {} e := by
    rw [Head.read, readExpr]
    show (match readStep t.kind before target with | some e => _ | none => _) = _
    rw [he]
  rw [hread] at hform
  have hhead : stepHead t before = (Head.step t.kind before).name := by
    rw [Head.name, stepHead, stepHead, hname]
    rfl
  rw [hhead]
  exact hform

end Sexp

/-! ## Trees -/

namespace Sexp

theorem map_operand (es : List Expr) : (es.map (Stmt.expression {})).map operand = es := by
  rw [List.map_map]
  exact List.map_id es

theorem Stands.this : (Sexp.word (Treewalk.text "this")).Stands (.expression {} (.this 0 (mark .thisWord))) := by
  have hdigit : (Treewalk.text "this").startsDigit = false := by decide
  have hword : Token.Kind.ofWord (Treewalk.text "this") = .thisWord := by decide
  refine ⟨(by decide : (Treewalk.text "this").IsWord), ?_⟩
  rw [Sexp.read, readWord, hdigit, hword]
  rfl

/-- An absent clause is read as the literal `none`, and so as no clause. -/
theorem Stands.absent : ∃ s, Sexp.absent.Stands s ∧ clause s = none := by
  have hdigit : (Treewalk.text "none").startsDigit = false := by decide
  have hword : Token.Kind.ofWord (Treewalk.text "none") = .noneWord := by decide
  refine ⟨_, Stands.self (x := .absent) (by decide : (Treewalk.text "none").IsWord), ?_⟩
  rw [Sexp.absent, Sexp.read, readWord, hdigit, hword]
  rfl

/-- A field as the declaration that it is read as. -/
def asDeclaration : Field → Stmt
  | .mk t e => .declare {} t (some e)

theorem filterMap_asField? (fs : List Field) (ms : List Function) :
    (fs.map asDeclaration ++ ms.map Stmt.function).filterMap asField? = fs := by
  rw [List.filterMap_append, List.filterMap_map, List.filterMap_map]
  have hfields : asField? ∘ asDeclaration = some := by
    funext d
    cases d
    rfl
  have hmethods : asField? ∘ Stmt.function = fun _ => none := rfl
  rw [hfields, hmethods]
  simp

theorem filterMap_asMethod? (fs : List Field) (ms : List Function) :
    (fs.map asDeclaration ++ ms.map Stmt.function).filterMap asMethod? = ms := by
  rw [List.filterMap_append, List.filterMap_map, List.filterMap_map]
  have hfields : asMethod? ∘ asDeclaration = fun _ => none := by
    funext d
    cases d
    rfl
  have hmethods : asMethod? ∘ Stmt.function = some := rfl
  rw [hfields, hmethods]
  simp

end Sexp

open Sexp

mutual

/-- The symbolic expression of an expression is read as its essence. -/
theorem Expr.stands : ∀ e : Expr, e.WellFormed → (Fragment.expr e).Scanned →
    e.sexp.Stands (.expression {} e.essence)
  | .literal _ t, hw, h => Stands.literal (h.token (by simp [Expr.tokens])) hw
  | .group _ t e, hw, h => by
    have ht : t.Genuine := h.token (by simp [Expr.tokens])
    have he := Expr.stands e hw.2 (h.operand (by simp [Expr.parts]))
    rw [Expr.essence, ht.move_eq_mark hw.1 (by decide)]
    exact Stands.form (h := .group) (by decide) (.cons he .nil)
  | .unary _ op t e, hw, h => by
    have ht : t.Genuine := h.token (by simp [Expr.tokens])
    have hop := mem_operators_of_unaryOp? hw.1
    have he := Expr.stands e hw.2.1 (h.operand (by simp [Expr.parts]))
    rw [Expr.essence, ht.move_eq_mark rfl (isFixed_of_mem_operators hop)]
    refine Stands.op ht hop (.cons he .nil) ?_
    rw [readOp, hw.1]
    rfl
  | .binary _ op t l r, hw, h => by
    have ht : t.Genuine := h.token (by simp [Expr.tokens])
    have hl := Expr.stands l hw.2.1.1 (h.operand (by simp [Expr.parts]))
    have hr := Expr.stands r hw.2.2.1 (h.operand (by simp [Expr.parts]))
    exact Stands.joint ht hw.1 hl hr
  | .logical _ op t l r, hw, h => by
    have ht : t.Genuine := h.token (by simp [Expr.tokens])
    have hl := Expr.stands l hw.2.1.1 (h.operand (by simp [Expr.parts]))
    have hr := Expr.stands r hw.2.2.1 (h.operand (by simp [Expr.parts]))
    exact Stands.joint ht hw.1 hl hr
  | .ternary _ t c y n, hw, h => by
    have ht : t.Genuine := h.token (by simp [Expr.tokens])
    have hc := Expr.stands c hw.2.1.1 (h.operand (by simp [Expr.parts]))
    have hy := Expr.stands y hw.2.2.1 (h.operand (by simp [Expr.parts]))
    have hn := Expr.stands n hw.2.2.2.1 (h.operand (by simp [Expr.parts]))
    rw [Expr.essence, ht.move_eq_mark hw.1 (by decide)]
    exact Stands.form (h := .ternary) (by decide) (.cons hc (.cons hy (.cons hn .nil)))
  | .ident _ t, hw, h => Stands.word (h.token (by simp [Expr.tokens])) hw
  | .assign _ t e, hw, h => by
    have ht := Stands.word (h.token (by simp [Expr.tokens])) hw.1
    have he := Expr.stands e hw.2 (h.operand (by simp [Expr.parts]))
    exact Stands.form (h := .assign) (by decide) (.cons ht (.cons he .nil))
  | .compound _ t op u e, hw, h => by
    have ht := Stands.word (t := t) (h.token (by simp [Expr.tokens])) hw.1
    have hu : u.Genuine := h.token (by simp [Expr.tokens])
    have hop := mem_operators_of_compoundOp? hw.2.1
    have he := Expr.stands e hw.2.2 (h.operand (by simp [Expr.parts]))
    rw [Expr.essence, hu.move_eq_mark rfl (isFixed_of_mem_operators hop)]
    refine Stands.op hu hop (.cons ht (.cons he .nil)) ?_
    rw [readOp, hw.2.1]
    rfl
  | .update _ t op u before, hw, h => by
    have ht := Stands.word (t := t) (h.token (by simp [Expr.tokens])) hw.1
    have hu : u.Genuine := h.token (by simp [Expr.tokens])
    rw [Expr.essence, hu.move_eq_mark rfl (step_mem hw.2 before).1]
    refine Stands.step hu hw.2 before ht ?_
    rw [readStep, hw.2]
    rfl
  | .updateIndex _ o t i op u before, hw, h => by
    have ht : t.Genuine := h.token (by simp [Expr.tokens])
    have hu : u.Genuine := h.token (by simp [Expr.tokens])
    have ho := Expr.stands o hw.2.2.1.1 (h.operand (by simp [Expr.parts]))
    have hi := Expr.stands i hw.2.2.2 (h.operand (by simp [Expr.parts]))
    rw [Expr.essence, ht.move_eq_mark hw.1 (by decide), hu.move_eq_mark rfl (step_mem hw.2.1 before).1]
    refine Stands.step hu hw.2.1 before
      (Stands.form (h := .index) (by decide) (.cons ho (.cons hi .nil))) ?_
    rw [readStep, hw.2.1]
    rfl
  | .updateGet _ o t op u before, hw, h => by
    have ht := Stands.word (t := t) (h.token (by simp [Expr.tokens])) hw.1
    have hu : u.Genuine := h.token (by simp [Expr.tokens])
    have ho := Expr.stands o hw.2.2.1 (h.operand (by simp [Expr.parts]))
    rw [Expr.essence, hu.move_eq_mark rfl (step_mem hw.2.1 before).1]
    refine Stands.step hu hw.2.1 before
      (Stands.form (h := .get) (by decide) (.cons ho (.cons ht .nil))) ?_
    rw [readStep, hw.2.1]
    rfl
  | .call _ c t args, hw, h => by
    have ht : t.Genuine := h.token (by simp [Expr.tokens])
    have hc := Expr.stands c hw.2.1.1 (h.operand (by simp [Expr.parts]))
    have hargs := Expr.standsAll args hw.2.2.1 fun e he => h.operand (by simp [Expr.parts, he])
    rw [Expr.essence, ht.move_eq_mark hw.1 (by decide), ← map_operand (Expr.essenceAll args)]
    exact Stands.form (h := .call) (by decide) (.cons hc hargs)
  | .lambda _ t ps body, hw, h => by
    have ht : t.Genuine := h.token (by simp [Expr.tokens])
    have hps : ∀ p ∈ ps, p.Genuine := fun p hp => h.token (by simp [Expr.tokens, hp])
    have hbody := Stmt.standsAll body hw.2.2 (h.part (by simp [Fragment.parts, Expr.parts]))
    rw [Expr.essence, ht.move_eq_mark hw.1 (by decide), ← names_params hps hw.2.1]
    exact Stands.form (h := .function) (by decide) (.cons (Stands.self (plain_params hps hw.2.1)) hbody)
  | .array _ t es, hw, h => by
    have ht : t.Genuine := h.token (by simp [Expr.tokens])
    have hes := Expr.standsAll es hw.2 fun e he => h.operand (by simp [Expr.parts, he])
    rw [Expr.essence, ht.move_eq_mark hw.1 (by decide), ← map_operand (Expr.essenceAll es)]
    exact Stands.form (h := .array) (by decide) hes
  | .index _ o t i, hw, h => by
    have ht : t.Genuine := h.token (by simp [Expr.tokens])
    have ho := Expr.stands o hw.2.1.1 (h.operand (by simp [Expr.parts]))
    have hi := Expr.stands i hw.2.2 (h.operand (by simp [Expr.parts]))
    rw [Expr.essence, ht.move_eq_mark hw.1 (by decide)]
    exact Stands.form (h := .index) (by decide) (.cons ho (.cons hi .nil))
  | .get _ o t, hw, h => by
    have ht := Stands.word (t := t) (h.token (by simp [Expr.tokens])) hw.1
    have ho := Expr.stands o hw.2.1 (h.operand (by simp [Expr.parts]))
    exact Stands.form (h := .get) (by decide) (.cons ho (.cons ht .nil))
  | .set _ o t e, hw, h => by
    have ht := Stands.word (t := t) (h.token (by simp [Expr.tokens])) hw.1
    have ho := Expr.stands o hw.2.1.1 (h.operand (by simp [Expr.parts]))
    have he := Expr.stands e hw.2.2 (h.operand (by simp [Expr.parts]))
    exact Stands.form (h := .assign) (by decide)
      (.cons (Stands.form (h := .get) (by decide) (.cons ho (.cons ht .nil))) (.cons he .nil))
  | .this _ t, hw, h => by
    have ht : t.Genuine := h.token (by simp [Expr.tokens])
    rw [Expr.essence, ht.move_eq_mark hw (by decide)]
    exact Stands.this

theorem Expr.standsAll : ∀ es : List Expr, Expr.WellFormedAll es →
    (∀ e ∈ es, (Fragment.expr e).Scanned) →
      List.Forall₂ Stands (Expr.sexps es) ((Expr.essenceAll es).map (Stmt.expression {}))
  | [], _, _ => .nil
  | e :: es, hw, h =>
    .cons (Expr.stands e hw.1 (h e List.mem_cons_self))
      (Expr.standsAll es hw.2 fun e' he' => h e' (List.mem_cons_of_mem _ he'))

/-- A clause of a loop's header. -/
theorem Expr.stands_clause : ∀ v : Option Expr, Expr.WellFormedOpt v →
    (∀ e ∈ v, (Fragment.expr e).Scanned) → ∃ s, ((Expr.sexpOpt v).headD .absent).Stands s ∧
      (clause s).map operand = (Expr.essenceOpt v).filter fun e => !e.isNone
  | none, _, _ => by
    obtain ⟨s, hs, hclause⟩ := Stands.absent
    exact ⟨s, hs, by rw [hclause]; rfl⟩
  | some e, hw, h => by
    refine ⟨_, Expr.stands e hw (h e rfl), ?_⟩
    rw [clause, Expr.essenceOpt, Option.filter_some, Option.filter_some, Stmt.isNone]
    cases e.essence.isNone <;> rfl

/-- The symbolic expression of a statement is read as its essence. -/
theorem Stmt.stands : ∀ s : Stmt, s.WellFormed → (Fragment.stmt s).Scanned → s.sexp.Stands s.essence
  | .expression _ e, hw, h => Expr.stands e hw (h.part (by simp [Fragment.parts, Stmt.parts]))
  | .print _ e, hw, h => by
    have he := Expr.stands e hw (h.part (by simp [Fragment.parts, Stmt.parts]))
    exact Stands.form (h := .print) (by decide) (.cons he .nil)
  | .declare _ t none, hw, h => by
    have ht := Stands.word (t := t) (h.word (by simp [Stmt.tokens])) hw.1
    exact Stands.form (h := .declare) (by decide) (.cons ht .nil)
  | .declare _ t (some e), hw, h => by
    have ht := Stands.word (t := t) (h.word (by simp [Stmt.tokens])) hw.1
    have he := Expr.stands e hw.2 (h.part (by simp [Fragment.parts, Stmt.parts]))
    exact Stands.form (h := .declare) (by decide) (.cons ht (.cons he .nil))
  | .block _ body, hw, h => by
    have hbody := Stmt.standsAll body hw (h.part (by simp [Fragment.parts, Stmt.parts]))
    exact Stands.form (h := .block) (by decide) hbody
  | .branch _ c y none, hw, h => by
    have hc := Expr.stands c hw.1 (h.part (by simp [Fragment.parts, Stmt.parts]))
    have hy := Stmt.stands y hw.2.1.1 (h.part (by simp [Fragment.parts, Stmt.parts]))
    exact Stands.form (h := .branch) (by decide) (.cons hc (.cons hy .nil))
  | .branch _ c y (some n), hw, h => by
    have hc := Expr.stands c hw.1 (h.part (by simp [Fragment.parts, Stmt.parts]))
    have hy := Stmt.stands y hw.2.1.1 (h.part (by simp [Fragment.parts, Stmt.parts]))
    have hn := Stmt.stands n hw.2.2.2.1 (h.part (by simp [Fragment.parts, Stmt.parts]))
    exact Stands.form (h := .branch) (by decide) (.cons hc (.cons hy (.cons hn .nil)))
  | .loop _ c b, hw, h => by
    have hc := Expr.stands c hw.1 (h.part (by simp [Fragment.parts, Stmt.parts]))
    have hb := Stmt.stands b hw.2.1 (h.part (by simp [Fragment.parts, Stmt.parts]))
    exact Stands.form (h := .loop) (by decide) (.cons hc (.cons hb .nil))
  | .forLoop _ s c u b, hw, h => by
    obtain ⟨s', hs, hs'⟩ := Stmt.stands_clause s hw.1 fun v hv => h.part (by
      rw [Option.mem_def] at hv
      simp [Fragment.parts, Stmt.parts, hv])
    obtain ⟨c', hc, hc'⟩ := Expr.stands_clause c hw.2.1 fun v hv => h.part (by
      rw [Option.mem_def] at hv
      simp [Fragment.parts, Stmt.parts, hv])
    obtain ⟨u', hu, hu'⟩ := Expr.stands_clause u hw.2.2.1 fun v hv => h.part (by
      rw [Option.mem_def] at hv
      simp [Fragment.parts, Stmt.parts, hv])
    have hb := Stmt.stands b hw.2.2.2.1 (h.part (by simp [Fragment.parts, Stmt.parts]))
    rw [Stmt.essence, ← hs', ← hc', ← hu']
    exact Stands.form (h := .forLoop) (by decide) (.cons hs (.cons hc (.cons hu (.cons hb .nil))))
  | .leave t, hw, h => by
    have ht : t.Genuine := h.word (by simp [Stmt.tokens])
    rw [Stmt.essence, ht.move_eq_mark hw (by decide)]
    exact Stands.form (h := .leave) (by decide) .nil
  | .skip t, hw, h => by
    have ht : t.Genuine := h.word (by simp [Stmt.tokens])
    rw [Stmt.essence, ht.move_eq_mark hw (by decide)]
    exact Stands.form (h := .skip) (by decide) .nil
  | .result t none, hw, h => by
    have ht : t.Genuine := h.word (by simp [Stmt.tokens])
    rw [Stmt.essence, ht.move_eq_mark hw.1 (by decide)]
    exact Stands.form (h := .result) (by decide) .nil
  | .result t (some e), hw, h => by
    have ht : t.Genuine := h.word (by simp [Stmt.tokens])
    have he := Expr.stands e hw.2 (h.part (by simp [Fragment.parts, Stmt.parts]))
    rw [Stmt.essence, ht.move_eq_mark hw.1 (by decide)]
    exact Stands.form (h := .result) (by decide) (.cons he .nil)
  | .function (.mk t ps body), hw, h =>
    Function.stands (.mk t ps body) hw (fun _ ht => h.word ht) (h.part fun _ => ⟨_, List.mem_cons_self⟩)
  | .classDecl _ t fs ms, hw, h => by
    have ht := Stands.word (t := t) (h.word (by simp [Stmt.tokens])) hw.1
    have hfs := Field.standsAll fs hw.2.1 fun d hd =>
      ⟨h.field d hd, h.part fun _ => ⟨_, List.mem_append_left _ (List.mem_map_of_mem hd)⟩⟩
    have hms := Function.standsAll ms hw.2.2 fun d hd =>
      ⟨fun t ht => h.word (List.mem_cons_of_mem _ (List.mem_flatMap.2 ⟨d, hd, ht⟩)),
        h.part fun _ => ⟨_, List.mem_append_right _ (List.mem_map_of_mem hd)⟩⟩
    have hform := Stands.form (h := .classDecl) (by decide) (.cons ht (List.rel_append hfs hms))
    simp only [Head.read, readExpr, readStmt, filterMap_asField?, filterMap_asMethod?] at hform
    exact hform

theorem Stmt.standsAll : ∀ ss : List Stmt, Stmt.WellFormedAll ss → (Fragment.list ss).Scanned →
    List.Forall₂ Stands (Stmt.sexps ss) (Stmt.essenceAll ss)
  | [], _, _ => .nil
  | s :: ss, hw, h =>
    .cons (Stmt.stands s hw.1 (h.part (by simp [Fragment.parts])))
      (Stmt.standsAll ss hw.2 (h.part fun Γ => ⟨Γ.after s, List.mem_cons_of_mem _ List.mem_cons_self⟩))

/-- The first clause of a loop's header. -/
theorem Stmt.stands_clause : ∀ v : Option Stmt, Stmt.WellFormedClause v →
    (∀ s ∈ v, (Fragment.stmt s).Scanned) → ∃ s, ((Stmt.sexpOpt v).headD .absent).Stands s ∧
      clause s = (Stmt.essenceOpt v).filter fun s => !s.isNone
  | none, _, _ => Stands.absent
  | some s, hw, h => ⟨_, Stmt.stands s hw.2 (h s rfl), rfl⟩

theorem Function.stands : ∀ d : Function, d.WellFormed → (∀ t ∈ d.name :: d.params, t.Genuine) →
    (Fragment.list d.body).Scanned → d.sexp.Stands (.function d.essence)
  | .mk t ps body, hw, ht, hb => by
    have hname := Stands.word (ht t List.mem_cons_self) hw.1
    have hps : ∀ p ∈ ps, p.Genuine := fun p hp => ht p (List.mem_cons_of_mem _ hp)
    have hbody := Stmt.standsAll body hw.2.2 hb
    rw [Function.essence, ← names_params hps hw.2.1]
    exact Stands.form (h := .function) (by decide)
      (.cons hname (.cons (Stands.self (plain_params hps hw.2.1)) hbody))

theorem Function.standsAll : ∀ ds : List Function, Function.WellFormedAll ds →
    (∀ d ∈ ds, (∀ t ∈ d.name :: d.params, t.Genuine) ∧ (Fragment.list d.body).Scanned) →
      List.Forall₂ Stands (Function.sexps ds) ((Function.essenceAll ds).map Stmt.function)
  | [], _, _ => .nil
  | d :: ds, hw, h => by
    obtain ⟨ht, hb⟩ := h d List.mem_cons_self
    exact .cons (Function.stands d hw.1 ht hb)
      (Function.standsAll ds hw.2 fun d' hd' => h d' (List.mem_cons_of_mem _ hd'))

/-- A field is read as a declaration. -/
theorem Field.stands : ∀ d : Field, d.WellFormed → d.name.Genuine → (Fragment.expr d.value).Scanned →
    d.sexp.Stands (asDeclaration d.essence)
  | .mk t e, hw, ht, he => by
    have hname := Stands.word ht hw.1
    have hvalue := Expr.stands e hw.2 he
    exact Stands.form (h := .field) (by decide) (.cons hname (.cons hvalue .nil))

theorem Field.standsAll : ∀ ds : List Field, Field.WellFormedAll ds →
    (∀ d ∈ ds, d.name.Genuine ∧ (Fragment.expr d.value).Scanned) →
      List.Forall₂ Stands (Field.sexps ds) ((Field.essenceAll ds).map asDeclaration)
  | [], _, _ => .nil
  | d :: ds, hw, h => by
    obtain ⟨ht, he⟩ := h d List.mem_cons_self
    exact .cons (Field.stands d hw.1 ht he)
      (Field.standsAll ds hw.2 fun d' hd' => h d' (List.mem_cons_of_mem _ hd'))

end

end Treewalk
