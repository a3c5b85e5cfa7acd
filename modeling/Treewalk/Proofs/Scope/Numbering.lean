import Treewalk.Proofs.Parser.Grammar
import Treewalk.Proofs.Scope.Static

/-!
# Trees and the tokens they were read from

A tree that was read from tokens holds nothing but these tokens and positions of them, and its identities
are new and all different. Both are shown at once along the grammar: `Drawn` says what a stretch of tokens
gives, stretches are put together one behind the other, and every form of tree is one such composition.

Main result: `Stmt.readsAll_drawn`.
-/

namespace Treewalk

/-! ## The tokens of a piece -/

/-- The tokens that an expression itself holds. -/
def Expr.tokens : Expr → List Token
  | .literal _ t | .group _ t _ | .unary _ _ t _ | .binary _ _ t _ _ | .logical _ _ t _ _
  | .ternary _ t _ _ _ | .ident _ t | .assign _ t _ | .call _ _ t _ | .array _ t _ | .index _ _ t _
  | .get _ _ t | .set _ _ t _ | .this _ t => [t]
  | .compound _ t _ u _ | .update _ t _ u _ | .updateIndex _ _ t _ _ u _ | .updateGet _ _ t _ u _ =>
    [t, u]
  | .lambda _ t ps _ => t :: ps

/-- The tokens that a statement itself holds; methods are no pieces and count as part of their class. -/
def Stmt.tokens : Stmt → List Token
  | .declare _ t _ | .leave t | .skip t | .result t _ => [t]
  | .function d => d.name :: d.params
  | .classDecl _ t _ methods => t :: methods.flatMap fun d => d.name :: d.params
  | _ => []

/-- All tokens and positions of a piece itself are of a kind. -/
def Fragment.Built (P : Token → Prop) : Fragment → Prop
  | .expr e => ∀ t ∈ e.tokens, P t
  | .stmt s => (∀ t ∈ s.tokens, P t) ∧ ∃ t, P t ∧ t.pos = s.pos
  | .list _ => True

/-- The tokens that stand beside those of a piece itself are of a kind: the names of the fields that it declares,
and the word that it prints with. -/
def Fragment.Worded (P : Token → Prop) : Fragment → Prop
  | .stmt (.classDecl _ _ fields _) => ∀ d ∈ fields, P d.name
  | .stmt (.print pos _) => ∃ t, P t ∧ t.kind = .printWord ∧ t.pos = pos
  | _ => True

/-- All tokens and positions in a piece are of a kind. -/
def Fragment.Throughout (P : Token → Prop) (p : Fragment) : Prop :=
  ∀ Γ, Everywhere (fun _ q => q.Built P) Γ p

/-- All tokens and positions in a piece are of a kind, and all names of fields and words that print, too. -/
def Fragment.Made (P : Token → Prop) (p : Fragment) : Prop :=
  ∀ Γ, Everywhere (fun _ q => q.Built P ∧ q.Worded P) Γ p

theorem Fragment.made_of_parts {P : Token → Prop} {p : Fragment} (h : p.Built P)
    (hparts : ∀ Γ, ∀ part ∈ p.parts Γ, part.2.Made P) (hwords : p.Worded P := by exact trivial) :
    p.Made P :=
  fun Γ => everywhere_of_parts ⟨h, hwords⟩ fun part hmem => hparts Γ part hmem part.1

theorem Fragment.Made.throughout {P : Token → Prop} {p : Fragment} (h : p.Made P) : p.Throughout P :=
  fun Γ Δ q hbelow => (h Γ Δ q hbelow).1

/-! ## Stretches of tokens -/

/-- Identities given out between `n` and `m`, each once. -/
structure Numbered (ids : List NodeId) (n m : NodeId) : Prop where
  le : n ≤ m
  nodup : ids.Nodup
  within : ∀ i ∈ ids, n ≤ i ∧ i < m

theorem Numbered.append {ids ids' : List NodeId} {n m k : NodeId} (h : Numbered ids n m)
    (h' : Numbered ids' m k) : Numbered (ids ++ ids') n k := by
  have hle : n ≤ k := Nat.le_trans h.le h'.le
  refine ⟨hle, List.nodup_append.2 ⟨h.nodup, h'.nodup, fun i hi j hj => ?_⟩, fun i hi => ?_⟩
  · exact Nat.ne_of_lt (Nat.lt_of_lt_of_le (h.within i hi).2 (h'.within j hj).1)
  · rcases List.mem_append.1 hi with hi | hi
    · exact ⟨(h.within i hi).1, Nat.lt_of_lt_of_le (h.within i hi).2 h'.le⟩
    · exact ⟨Nat.le_trans h.le (h'.within i hi).1, (h'.within i hi).2⟩

theorem Numbered.close {ids : List NodeId} {n m : NodeId} (h : Numbered ids n m) :
    Numbered (m :: ids) n (m + 1) := by
  refine ⟨Nat.le_succ_of_le h.le, List.nodup_cons.2 ⟨fun hm => ?_, h.nodup⟩, fun i hi => ?_⟩
  · exact Nat.lt_irrefl _ (h.within m hm).2
  · rcases List.mem_cons.1 hi with rfl | hi
    · exact ⟨h.le, Nat.lt_succ_self _⟩
    · exact ⟨(h.within i hi).1, Nat.lt_succ_of_lt (h.within i hi).2⟩

/-- A stretch of tokens between two cursors gives out these identities, and if all its tokens are of a kind,
then `Q` holds of what is built from it. -/
structure Drawn (P : Token → Prop) (ids : List NodeId) (Q : Prop) (c c' : Cursor) : Prop where
  numbered : Numbered ids c.2 c'.2
  rest : (∀ t ∈ c.1, P t) → ∀ t ∈ c'.1, P t
  built : (∀ t ∈ c.1, P t) → Q

namespace Drawn

variable {P : Token → Prop} {ids ids' : List NodeId} {Q Q' : Prop} {c c' c'' : Cursor}
  {t : Token} {ts : List Token} {n : NodeId}

theorem start : Drawn P [] True c c :=
  ⟨⟨Nat.le_refl _, List.nodup_nil, List.forall_mem_nil _⟩, id, fun _ => trivial⟩

/-- Two stretches, one behind the other. -/
theorem andThen (h : Drawn P ids Q c c') (h' : Drawn P ids' Q' c' c'') :
    Drawn P (ids ++ ids') (Q ∧ Q') c c'' :=
  ⟨h.numbered.append h'.numbered, fun hP => h'.rest (h.rest hP),
    fun hP => ⟨h.built hP, h'.built (h.rest hP)⟩⟩

/-- One more token. -/
theorem token (h : Drawn P ids Q c (t :: ts, n)) : Drawn P ids (Q ∧ P t) c (ts, n) :=
  ⟨h.numbered, fun hP u hu => h.rest hP u (List.mem_cons_of_mem _ hu),
    fun hP => ⟨h.built hP, h.rest hP t List.mem_cons_self⟩⟩

/-- One more identity, for the form that is complete now. -/
theorem close (h : Drawn P ids Q c (ts, n)) : Drawn P (n :: ids) Q c (ts, n + 1) :=
  ⟨h.numbered.close, h.rest, h.built⟩

/-- One more identity that no tree holds. -/
theorem waste (h : Drawn P ids Q c (ts, n)) : Drawn P ids Q c (ts, n + 1) :=
  ⟨⟨Nat.le_succ_of_le h.numbered.le, h.numbered.nodup, fun i hi =>
    ⟨(h.numbered.within i hi).1, Nat.lt_succ_of_lt (h.numbered.within i hi).2⟩⟩, h.rest, h.built⟩

theorem imp (h : Drawn P ids Q c c') (hQ : Q → Q') : Drawn P ids Q' c c' :=
  ⟨h.numbered, h.rest, fun hP => hQ (h.built hP)⟩

theorem perm (h : Drawn P ids Q c c') (hids : ids.Perm ids') : Drawn P ids' Q c c' :=
  ⟨⟨h.numbered.le, hids.nodup_iff.1 h.numbered.nodup, fun i hi =>
    h.numbered.within i (hids.mem_iff.2 hi)⟩, h.rest, h.built⟩

end Drawn

/-! ## Along the grammar -/

section

variable {P : Token → Prop}

theorem MoreParams.drawn {ps ts us : List Token} {n : NodeId} (h : MoreParams ps ts us) :
    Drawn P [] (∀ p ∈ ps, P p) (ts, n) (us, n) := by
  induction h with
  | nil => exact Drawn.start.imp fun _ => List.forall_mem_nil _
  | cons _ _ ih =>
    exact (Drawn.start.token.token.andThen ih).imp fun ⟨⟨_, hp⟩, hps⟩ =>
      List.forall_mem_cons.2 ⟨hp, hps⟩

theorem Params.drawn {ps ts us : List Token} {n : NodeId} (h : Params ps ts us) :
    Drawn P [] (∀ p ∈ ps, P p) (ts, n) (us, n) := by
  cases h with
  | nil => exact Drawn.start.imp fun _ => List.forall_mem_nil _
  | cons h =>
    exact (Drawn.start.token.andThen h.drawn).imp fun ⟨⟨_, hp⟩, hps⟩ =>
      List.forall_mem_cons.2 ⟨hp, hps⟩

theorem readsTail_drawn {ps : List Token} {body : List Stmt}
    (hbody : ∀ {c c' : Cursor}, Stmt.ReadsAll body c c' →
      Drawn P (Stmt.nodesAll body) ((Fragment.list body).Made P) c c') {c c' : Cursor}
    (h : ReadsTail ps body c c') :
    Drawn P (Stmt.nodesAll body) ((∀ p ∈ ps, P p) ∧ (Fragment.list body).Made P) c c' := by
  cases h with
  | mk _ hp _ _ hb _ =>
    exact ((Drawn.start.token.andThen hp.drawn).token.token.andThen (hbody hb)).token.imp
      fun ⟨⟨⟨⟨⟨_, hps⟩, _⟩, _⟩, hb⟩, _⟩ => ⟨hps, hb⟩

/-- The fields and methods of a class may be mixed; the identities are the same in another order. -/
theorem readsMembers_drawn {fs : List Field} {ms : List Function}
    (hfs : ∀ d ∈ fs, ∀ {c c' : Cursor}, d.value.Reads c c' →
      Drawn P d.value.nodes ((Fragment.expr d.value).Made P) c c')
    (hms : ∀ d ∈ ms, ∀ {c c' : Cursor}, d.Reads c c' →
      Drawn P d.nodes ((∀ t ∈ d.name :: d.params, P t) ∧ (Fragment.list d.body).Made P) c c')
    {c c' : Cursor} (h : ReadsMembers fs ms c c') :
    Drawn P (Field.nodesAll fs ++ Function.nodesAll ms)
      ((∀ d ∈ fs, P d.name ∧ (Fragment.expr d.value).Made P) ∧
        ∀ d ∈ ms, (∀ t ∈ d.name :: d.params, P t) ∧ (Fragment.list d.body).Made P) c c' := by
  obtain ⟨k, hk⟩ : ∃ k, k = fs.length + ms.length := ⟨_, rfl⟩
  induction k generalizing fs ms c with
  | zero =>
    cases h with
    | nil => exact Drawn.start.imp fun _ => ⟨List.forall_mem_nil _, List.forall_mem_nil _⟩
    | field => simp only [List.length_cons] at hk; omega
    | method => simp only [List.length_cons] at hk; omega
  | succ k ih =>
    cases h with
    | nil => simp at hk
    | @field t e _ _ fs _ _ _ _ _ _ _ he _ h =>
      have hlen : k = fs.length + ms.length := by
        simp only [List.length_cons] at hk
        omega
      have hhead := hfs (.mk t e) (by simp) he
      have htail := ih (fun d hd => hfs d (List.mem_cons_of_mem _ hd)) hms h hlen
      refine (((Drawn.start.token.token.andThen hhead).token.andThen htail).imp
        fun ⟨⟨⟨⟨⟨_, ht⟩, _⟩, he⟩, _⟩, hfs, hms⟩ =>
          ⟨List.forall_mem_cons.2 ⟨⟨ht, he⟩, hfs⟩, hms⟩).perm (.of_eq ?_)
      rw [List.nil_append, ← List.append_assoc]
      rfl
    | @method d _ ms _ _ _ hd h =>
      have hlen : k = fs.length + ms.length := by
        simp only [List.length_cons] at hk
        omega
      have hhead := hms d (by simp) hd
      have htail := ih hfs (fun d hd => hms d (List.mem_cons_of_mem _ hd)) h hlen
      refine ((hhead.andThen htail).imp
        fun ⟨hd, hfs, hms⟩ => ⟨hfs, List.forall_mem_cons.2 ⟨hd, hms⟩⟩).perm ?_
      show (d.nodes ++ (Field.nodesAll fs ++ Function.nodesAll ms)).Perm
        (Field.nodesAll fs ++ (d.nodes ++ Function.nodesAll ms))
      exact List.perm_append_comm_assoc _ _ _

mutual

theorem Expr.reads_drawn : ∀ (e : Expr) {c c' : Cursor}, e.Reads c c' →
    Drawn P e.nodes ((Fragment.expr e).Made P) c c'
  | .literal _ _, _, _, h => by
    cases h
    refine Drawn.start.token.close.imp fun ⟨_, ht⟩ => Fragment.made_of_parts ?_ ?_
    · simp [Fragment.Built, Expr.tokens, ht]
    · simp [Fragment.parts, Expr.parts]
  | .ident _ _, _, _, h => by
    cases h
    refine Drawn.start.token.close.imp fun ⟨_, ht⟩ => Fragment.made_of_parts ?_ ?_
    · simp [Fragment.Built, Expr.tokens, ht]
    · simp [Fragment.parts, Expr.parts]
  | .this _ _, _, _, h => by
    cases h
    refine Drawn.start.token.close.imp fun ⟨_, ht⟩ => Fragment.made_of_parts ?_ ?_
    · simp [Fragment.Built, Expr.tokens, ht]
    · simp [Fragment.parts, Expr.parts]
  | .update _ _ _ _ _, _, _, h => by
    cases h with
    | updateBefore =>
      refine Drawn.start.token.token.waste.close.imp fun ⟨⟨_, hu⟩, ht⟩ =>
        Fragment.made_of_parts ?_ ?_
      · simp [Fragment.Built, Expr.tokens, hu, ht]
      · simp [Fragment.parts, Expr.parts]
    | updateAfter =>
      refine Drawn.start.token.token.waste.close.imp fun ⟨⟨_, ht⟩, hu⟩ =>
        Fragment.made_of_parts ?_ ?_
      · simp [Fragment.Built, Expr.tokens, hu, ht]
      · simp [Fragment.parts, Expr.parts]
  | .group _ _ e, _, _, h => by
    cases h with
    | group h _ =>
      refine (Drawn.start.token.andThen (Expr.reads_drawn e h)).token.close.imp
        fun ⟨⟨⟨_, ht⟩, he⟩, _⟩ => Fragment.made_of_parts ?_ ?_
      · simp [Fragment.Built, Expr.tokens, ht]
      · simp [Fragment.parts, Expr.parts, he]
  | .unary _ _ _ e, _, _, h => by
    cases h with
    | unary h =>
      refine (Drawn.start.token.andThen (Expr.reads_drawn e h)).close.imp
        fun ⟨⟨_, ht⟩, he⟩ => Fragment.made_of_parts ?_ ?_
      · simp [Fragment.Built, Expr.tokens, ht]
      · simp [Fragment.parts, Expr.parts, he]
  | .binary _ _ _ l r, _, _, h => by
    cases h with
    | binary hl hr =>
      refine ((Expr.reads_drawn l hl).token.andThen (Expr.reads_drawn r hr)).close.imp
        fun ⟨⟨hl, ht⟩, hr⟩ => Fragment.made_of_parts ?_ ?_
      · simp [Fragment.Built, Expr.tokens, ht]
      · simp [Fragment.parts, Expr.parts, hl, hr]
  | .logical _ _ _ l r, _, _, h => by
    cases h with
    | logical hl hr =>
      refine ((Expr.reads_drawn l hl).token.andThen (Expr.reads_drawn r hr)).close.imp
        fun ⟨⟨hl, ht⟩, hr⟩ => Fragment.made_of_parts ?_ ?_
      · simp [Fragment.Built, Expr.tokens, ht]
      · simp [Fragment.parts, Expr.parts, hl, hr]
  | .ternary _ _ cond yes no, _, _, h => by
    cases h with
    | ternary hc hy _ hn =>
      refine (((Expr.reads_drawn cond hc).token.andThen (Expr.reads_drawn yes hy)).token.andThen
        (Expr.reads_drawn no hn)).close.imp
        fun ⟨⟨⟨⟨hc, ht⟩, hy⟩, _⟩, hn⟩ => Fragment.made_of_parts ?_ ?_
      · simp [Fragment.Built, Expr.tokens, ht]
      · simp [Fragment.parts, Expr.parts, hc, hy, hn]
  | .assign _ _ e, _, _, h => by
    cases h with
    | assign _ h =>
      refine (Drawn.start.token.token.waste.andThen (Expr.reads_drawn e h)).close.imp
        fun ⟨⟨⟨_, ht⟩, _⟩, he⟩ => Fragment.made_of_parts ?_ ?_
      · simp [Fragment.Built, Expr.tokens, ht]
      · simp [Fragment.parts, Expr.parts, he]
  | .compound _ _ _ _ e, _, _, h => by
    cases h with
    | compound h =>
      refine (Drawn.start.token.token.waste.andThen (Expr.reads_drawn e h)).close.imp
        fun ⟨⟨⟨_, ht⟩, hu⟩, he⟩ => Fragment.made_of_parts ?_ ?_
      · simp [Fragment.Built, Expr.tokens, ht, hu]
      · simp [Fragment.parts, Expr.parts, he]
  | .updateIndex _ o _ i _ _ _, _, _, h => by
    cases h with
    | updateIndexBefore ho hi _ =>
      refine (((Drawn.start.token.andThen (Expr.reads_drawn o ho)).token.andThen
        (Expr.reads_drawn i hi)).token.waste.close).imp
        fun ⟨⟨⟨⟨⟨_, hu⟩, ho⟩, ht⟩, hi⟩, _⟩ => Fragment.made_of_parts ?_ ?_
      · simp [Fragment.Built, Expr.tokens, ht, hu]
      · simp [Fragment.parts, Expr.parts, ho, hi]
    | updateIndexAfter ho hi _ =>
      refine ((Expr.reads_drawn o ho).token.andThen
        (Expr.reads_drawn i hi)).token.token.waste.close.imp
        fun ⟨⟨⟨⟨ho, ht⟩, hi⟩, _⟩, hu⟩ => Fragment.made_of_parts ?_ ?_
      · simp [Fragment.Built, Expr.tokens, ht, hu]
      · simp [Fragment.parts, Expr.parts, ho, hi]
  | .updateGet _ o _ _ _ _, _, _, h => by
    cases h with
    | updateGetBefore ho _ =>
      refine (Drawn.start.token.andThen (Expr.reads_drawn o ho)).token.token.waste.close.imp
        fun ⟨⟨⟨⟨_, hu⟩, ho⟩, _⟩, ht⟩ => Fragment.made_of_parts ?_ ?_
      · simp [Fragment.Built, Expr.tokens, ht, hu]
      · simp [Fragment.parts, Expr.parts, ho]
    | updateGetAfter ho _ =>
      refine (Expr.reads_drawn o ho).token.token.token.waste.close.imp
        fun ⟨⟨⟨ho, _⟩, ht⟩, hu⟩ => Fragment.made_of_parts ?_ ?_
      · simp [Fragment.Built, Expr.tokens, ht, hu]
      · simp [Fragment.parts, Expr.parts, ho]
  | .call _ callee _ args, _, _, h => by
    cases h with
    | call hc _ ha =>
      refine ((Expr.reads_drawn callee hc).token.andThen
        (Expr.readsList_drawn args ha)).token.close.imp
        fun ⟨⟨⟨hc, _⟩, ha⟩, ht⟩ => Fragment.made_of_parts ?_ ?_
      · simp [Fragment.Built, Expr.tokens, ht]
      · simpa [Fragment.parts, Expr.parts, hc] using fun _ : Environs => ha
  | .lambda _ _ _ body, _, _, h => by
    cases h with
    | lambda h =>
      refine (Drawn.start.token.andThen (readsTail_drawn (Stmt.readsAll_drawn body) h)).close.imp
        fun ⟨⟨_, ht⟩, hps, hb⟩ => Fragment.made_of_parts ?_ ?_
      · simpa [Fragment.Built, Expr.tokens, ht] using hps
      · simp [Fragment.parts, Expr.parts, hb]
  | .array _ _ es, _, _, h => by
    cases h with
    | array h _ =>
      refine (Drawn.start.token.andThen (Expr.readsList_drawn es h)).token.close.imp
        fun ⟨⟨⟨_, ht⟩, hes⟩, _⟩ => Fragment.made_of_parts ?_ ?_
      · simp [Fragment.Built, Expr.tokens, ht]
      · simpa [Fragment.parts, Expr.parts] using fun _ : Environs => hes
  | .index _ o _ i, _, _, h => by
    cases h with
    | index ho hi _ =>
      refine ((Expr.reads_drawn o ho).token.andThen (Expr.reads_drawn i hi)).token.close.imp
        fun ⟨⟨⟨ho, ht⟩, hi⟩, _⟩ => Fragment.made_of_parts ?_ ?_
      · simp [Fragment.Built, Expr.tokens, ht]
      · simp [Fragment.parts, Expr.parts, ho, hi]
  | .get _ o _, _, _, h => by
    cases h with
    | get ho _ =>
      refine (Expr.reads_drawn o ho).token.token.close.imp
        fun ⟨⟨ho, _⟩, ht⟩ => Fragment.made_of_parts ?_ ?_
      · simp [Fragment.Built, Expr.tokens, ht]
      · simp [Fragment.parts, Expr.parts, ho]
  | .set _ o _ e, _, _, h => by
    cases h with
    | set ho _ _ he =>
      refine ((Expr.reads_drawn o ho).token.token.token.waste.andThen
        (Expr.reads_drawn e he)).close.imp
        fun ⟨⟨⟨⟨ho, _⟩, ht⟩, _⟩, he⟩ => Fragment.made_of_parts ?_ ?_
      · simp [Fragment.Built, Expr.tokens, ht]
      · simp [Fragment.parts, Expr.parts, ho, he]

theorem Expr.readsList_drawn : ∀ (es : List Expr) {c c' : Cursor}, Expr.ReadsList es c c' →
    Drawn P (Expr.nodesAll es) (∀ e ∈ es, (Fragment.expr e).Made P) c c'
  | [], _, _, h => by
    cases h
    exact Drawn.start.imp fun _ => List.forall_mem_nil _
  | e :: es, _, _, h => by
    cases h with
    | cons he hes =>
      exact ((Expr.reads_drawn e he).andThen (Expr.readsMore_drawn es hes)).imp
        fun ⟨he, hes⟩ => List.forall_mem_cons.2 ⟨he, hes⟩

theorem Expr.readsMore_drawn : ∀ (es : List Expr) {c c' : Cursor}, Expr.ReadsMore es c c' →
    Drawn P (Expr.nodesAll es) (∀ e ∈ es, (Fragment.expr e).Made P) c c'
  | [], _, _, h => by
    cases h
    exact Drawn.start.imp fun _ => List.forall_mem_nil _
  | e :: es, _, _, h => by
    cases h with
    | cons _ he hes =>
      exact ((Drawn.start.token.andThen (Expr.reads_drawn e he)).andThen
        (Expr.readsMore_drawn es hes)).imp
        fun ⟨⟨_, he⟩, hes⟩ => List.forall_mem_cons.2 ⟨he, hes⟩

theorem Expr.readsOpt_drawn : ∀ (e : Option Expr) {c c' : Cursor}, Expr.ReadsOpt e c c' →
    Drawn P (Expr.nodesOpt e) (∀ v ∈ e, (Fragment.expr v).Made P) c c'
  | none, _, _, h => by
    cases h
    exact Drawn.start.imp fun _ => nofun
  | some e, _, _, h => by
    cases h with
    | some he => exact (Expr.reads_drawn e he).imp fun he v hv => Option.mem_some.1 hv ▸ he

theorem Expr.readsValue_drawn : ∀ (e : Option Expr) {c c' : Cursor}, Expr.ReadsValue e c c' →
    Drawn P (Expr.nodesOpt e) (∀ v ∈ e, (Fragment.expr v).Made P) c c'
  | none, _, _, h => by
    cases h
    exact Drawn.start.imp fun _ => nofun
  | some e, _, _, h => by
    cases h with
    | some _ he =>
      exact (Drawn.start.token.andThen (Expr.reads_drawn e he)).imp
        fun ⟨_, he⟩ v hv => Option.mem_some.1 hv ▸ he

theorem Stmt.reads_drawn : ∀ (s : Stmt) {c c' : Cursor}, s.Reads c c' →
    Drawn P s.nodes ((Fragment.stmt s).Made P) c c'
  | .expression _ e, _, _, h => by
    cases h with
    | @expression _ first _ _ _ _ _ he _ =>
      have hdrawn := Expr.reads_drawn e he
      have hfirst : Drawn P e.nodes (P first ∧ (Fragment.expr e).Made P) _ _ :=
        ⟨hdrawn.numbered, hdrawn.rest, fun hP => ⟨hP first List.mem_cons_self, hdrawn.built hP⟩⟩
      refine hfirst.token.imp fun ⟨⟨hfirst, he⟩, _⟩ => Fragment.made_of_parts ?_ ?_
      · exact ⟨List.forall_mem_nil _, first, hfirst, rfl⟩
      · simp [Fragment.parts, Stmt.parts, he]
  | .print _ e, _, _, h => by
    cases h with
    | print hkind he _ =>
      refine (Drawn.start.token.andThen (Expr.reads_drawn e he)).token.imp
        fun ⟨⟨⟨_, hword⟩, he⟩, _⟩ => Fragment.made_of_parts ?_ ?_ ⟨_, hword, hkind, rfl⟩
      · exact ⟨List.forall_mem_nil _, _, hword, rfl⟩
      · simp [Fragment.parts, Stmt.parts, he]
  | .declare _ _ value, _, _, h => by
    cases h with
    | declare _ hv _ =>
      refine (Drawn.start.token.token.andThen (Expr.readsValue_drawn value hv)).token.imp
        fun ⟨⟨⟨⟨_, hword⟩, ht⟩, hv⟩, _⟩ => Fragment.made_of_parts ?_ ?_
      · exact ⟨by simp [Stmt.tokens, ht], _, hword, rfl⟩
      · simpa [Fragment.parts, Stmt.parts] using fun _ : Environs => hv
  | .block _ body, _, _, h => by
    cases h with
    | block _ hb _ =>
      refine (Drawn.start.token.andThen (Stmt.readsAll_drawn body hb)).token.imp
        fun ⟨⟨⟨_, hbrace⟩, hb⟩, _⟩ => Fragment.made_of_parts ?_ ?_
      · exact ⟨List.forall_mem_nil _, _, hbrace, rfl⟩
      · simp [Fragment.parts, Stmt.parts, hb]
  | .branch _ cond yes no, _, _, h => by
    cases h with
    | branch _ _ hc _ hy hn =>
      refine (((Drawn.start.token.token.andThen (Expr.reads_drawn cond hc)).token.andThen
        (Stmt.reads_drawn yes hy)).andThen (Stmt.readsElse_drawn no hn)).imp
        fun ⟨⟨⟨⟨⟨⟨_, hword⟩, _⟩, hc⟩, _⟩, hy⟩, hn⟩ => Fragment.made_of_parts ?_ ?_
      · exact ⟨List.forall_mem_nil _, _, hword, rfl⟩
      · simpa [Fragment.parts, Stmt.parts, hc, hy] using fun _ : Environs => hn
  | .loop _ cond body, _, _, h => by
    cases h with
    | loop _ _ hc _ hb =>
      refine ((Drawn.start.token.token.andThen (Expr.reads_drawn cond hc)).token.andThen
        (Stmt.reads_drawn body hb)).imp
        fun ⟨⟨⟨⟨⟨_, hword⟩, _⟩, hc⟩, _⟩, hb⟩ => Fragment.made_of_parts ?_ ?_
      · exact ⟨List.forall_mem_nil _, _, hword, rfl⟩
      · simp [Fragment.parts, Stmt.parts, hc, hb]
  | .forLoop _ start cond step body, _, _, h => by
    cases h with
    | forLoop _ _ hs hc _ hu _ hb =>
      refine (((((Drawn.start.token.token.andThen (Stmt.readsClause_drawn start hs)).andThen
        (Expr.readsOpt_drawn cond hc)).token.andThen (Expr.readsOpt_drawn step hu)).token.andThen
        (Stmt.reads_drawn body hb))).imp
        fun ⟨⟨⟨⟨⟨⟨⟨⟨_, hword⟩, _⟩, hs⟩, hc⟩, _⟩, hu⟩, _⟩, hb⟩ => Fragment.made_of_parts ?_ ?_
      · exact ⟨List.forall_mem_nil _, _, hword, rfl⟩
      · intro Γ part hpart
        simp only [Fragment.parts, Stmt.parts, List.mem_append, List.mem_map, Option.mem_toList,
          List.mem_singleton] at hpart
        rcases hpart with ((⟨s, hs', rfl⟩ | ⟨e, he, rfl⟩) | ⟨e, he, rfl⟩) | rfl
        · exact hs s hs'
        · exact hc e he
        · exact hu e he
        · exact hb
  | .leave _, _, _, h => by
    cases h
    refine Drawn.start.token.token.imp fun ⟨⟨_, ht⟩, _⟩ => Fragment.made_of_parts ?_ ?_
    · exact ⟨by simp [Stmt.tokens, ht], _, ht, rfl⟩
    · simp [Fragment.parts, Stmt.parts]
  | .skip _, _, _, h => by
    cases h
    refine Drawn.start.token.token.imp fun ⟨⟨_, ht⟩, _⟩ => Fragment.made_of_parts ?_ ?_
    · exact ⟨by simp [Stmt.tokens, ht], _, ht, rfl⟩
    · simp [Fragment.parts, Stmt.parts]
  | .result _ value, _, _, h => by
    cases h with
    | result hv _ =>
      refine (Drawn.start.token.andThen (Expr.readsOpt_drawn value hv)).token.imp
        fun ⟨⟨⟨_, ht⟩, hv⟩, _⟩ => Fragment.made_of_parts ?_ ?_
      · exact ⟨by simp [Stmt.tokens, ht], _, ht, rfl⟩
      · simpa [Fragment.parts, Stmt.parts] using fun _ : Environs => hv
  | .function d, _, _, h => by
    cases h with
    | function _ hd =>
      refine (Drawn.start.token.andThen (Function.reads_drawn d hd)).imp
        fun ⟨_, ht, hb⟩ => Fragment.made_of_parts ?_ ?_
      · exact ⟨ht, d.name, ht _ List.mem_cons_self, rfl⟩
      · simp [Fragment.parts, Stmt.parts, hb]
  | .classDecl _ _ fs ms, _, _, h => by
    cases h with
    | classDecl _ _ hm _ =>
      refine (Drawn.start.token.token.token.andThen (readsMembers_drawn (Field.reads_drawnAll fs)
        (Function.reads_drawnAll ms) hm)).token.imp
        fun ⟨⟨⟨⟨⟨_, hword⟩, ht⟩, _⟩, hfs, hms⟩, _⟩ =>
          Fragment.made_of_parts ?_ ?_ fun d hd => (hfs d hd).1
      · refine ⟨List.forall_mem_cons.2 ⟨ht, fun t hmem => ?_⟩, _, hword, rfl⟩
        obtain ⟨d, hd, hmem⟩ := List.mem_flatMap.1 hmem
        exact (hms d hd).1 t hmem
      · intro Γ part hpart
        simp only [Fragment.parts, Stmt.parts, List.mem_append, List.mem_map] at hpart
        rcases hpart with ⟨d, hd, rfl⟩ | ⟨d, hd, rfl⟩
        · exact (hfs d hd).2
        · exact (hms d hd).2

theorem Stmt.readsElse_drawn : ∀ (s : Option Stmt) {c c' : Cursor}, Stmt.ReadsElse s c c' →
    Drawn P (Stmt.nodesOpt s) (∀ v ∈ s, (Fragment.stmt v).Made P) c c'
  | none, _, _, h => by
    cases h
    exact Drawn.start.imp fun _ => nofun
  | some s, _, _, h => by
    cases h with
    | some _ hs =>
      exact (Drawn.start.token.andThen (Stmt.reads_drawn s hs)).imp
        fun ⟨_, hs⟩ v hv => Option.mem_some.1 hv ▸ hs

theorem Stmt.readsClause_drawn : ∀ (s : Option Stmt) {c c' : Cursor}, Stmt.ReadsClause s c c' →
    Drawn P (Stmt.nodesOpt s) (∀ v ∈ s, (Fragment.stmt v).Made P) c c'
  | none, _, _, h => by
    cases h
    exact Drawn.start.token.imp fun _ => nofun
  | some s, _, _, h => by
    cases h with
    | some hs => exact (Stmt.reads_drawn s hs).imp fun hs v hv => Option.mem_some.1 hv ▸ hs

theorem Function.reads_drawn : ∀ (d : Function) {c c' : Cursor}, d.Reads c c' →
    Drawn P d.nodes ((∀ t ∈ d.name :: d.params, P t) ∧ (Fragment.list d.body).Made P) c c'
  | .mk _ _ body, _, _, h => by
    cases h with
    | mk h =>
      exact (Drawn.start.token.andThen (readsTail_drawn (Stmt.readsAll_drawn body) h)).imp
        fun ⟨⟨_, ht⟩, hps, hb⟩ => ⟨List.forall_mem_cons.2 ⟨ht, hps⟩, hb⟩

theorem Function.reads_drawnAll : ∀ ds : List Function, ∀ d ∈ ds, ∀ {c c' : Cursor}, d.Reads c c' →
    Drawn P d.nodes ((∀ t ∈ d.name :: d.params, P t) ∧ (Fragment.list d.body).Made P) c c'
  | [] => List.forall_mem_nil _
  | d :: ds => List.forall_mem_cons.2 ⟨Function.reads_drawn d, Function.reads_drawnAll ds⟩

theorem Field.reads_drawnAll : ∀ ds : List Field, ∀ d ∈ ds, ∀ {c c' : Cursor}, d.value.Reads c c' →
    Drawn P d.value.nodes ((Fragment.expr d.value).Made P) c c'
  | [] => List.forall_mem_nil _
  | .mk _ e :: ds => List.forall_mem_cons.2 ⟨Expr.reads_drawn e, Field.reads_drawnAll ds⟩

/-- Statements that were read from tokens hold only these tokens and new identities. -/
theorem Stmt.readsAll_drawn : ∀ (ss : List Stmt) {c c' : Cursor}, Stmt.ReadsAll ss c c' →
    Drawn P (Stmt.nodesAll ss) ((Fragment.list ss).Made P) c c'
  | [], _, _, h => by
    cases h
    exact Drawn.start.imp fun _ => Fragment.made_of_parts trivial (by simp [Fragment.parts])
  | s :: ss, _, _, h => by
    cases h with
    | cons hs hss =>
      refine ((Stmt.reads_drawn s hs).andThen (Stmt.readsAll_drawn ss hss)).imp
        fun ⟨hs, hss⟩ => Fragment.made_of_parts trivial ?_
      simp [Fragment.parts, hs, hss]

end

end

/-! ## Well-formed pieces -/

/-- The shape of pieces. -/
def Fragment.WellFormed : Fragment → Prop
  | .expr e => e.WellFormed
  | .stmt s => s.WellFormed
  | .list ss => Stmt.WellFormedAll ss

theorem Expr.wellFormed_of_mem {es : List Expr} (h : Expr.WellFormedAll es) : ∀ e ∈ es, e.WellFormed := by
  induction es with
  | nil => exact List.forall_mem_nil _
  | cons e es ih => exact List.forall_mem_cons.2 ⟨h.1, ih h.2⟩

theorem Field.wellFormed_of_mem {ds : List Field} (h : Field.WellFormedAll ds) : ∀ d ∈ ds, d.WellFormed := by
  induction ds with
  | nil => exact List.forall_mem_nil _
  | cons d ds ih => exact List.forall_mem_cons.2 ⟨h.1, ih h.2⟩

theorem Function.wellFormed_of_mem {ds : List Function} (h : Function.WellFormedAll ds) :
    ∀ d ∈ ds, d.WellFormed := by
  induction ds with
  | nil => exact List.forall_mem_nil _
  | cons d ds ih => exact List.forall_mem_cons.2 ⟨h.1, ih h.2⟩

theorem Expr.wellFormed_part {e : Expr} (h : e.WellFormed) {Γ Δ : Environs} {q : Fragment}
    (hpart : (Δ, q) ∈ e.parts Γ) : q.WellFormed := by
  cases e with
  | literal | ident | update | this => cases hpart
  | group | assign =>
    obtain ⟨-, rfl⟩ := Prod.mk.inj (List.mem_singleton.1 hpart)
    exact h.2
  | unary | get =>
    obtain ⟨-, rfl⟩ := Prod.mk.inj (List.mem_singleton.1 hpart)
    exact h.2.1
  | compound =>
    obtain ⟨-, rfl⟩ := Prod.mk.inj (List.mem_singleton.1 hpart)
    exact h.2.2
  | updateGet =>
    obtain ⟨-, rfl⟩ := Prod.mk.inj (List.mem_singleton.1 hpart)
    exact h.2.2.1
  | lambda =>
    obtain ⟨-, rfl⟩ := Prod.mk.inj (List.mem_singleton.1 hpart)
    exact h.2.2
  | binary | logical =>
    simp only [Expr.parts, List.mem_cons, Prod.mk.injEq, List.not_mem_nil, or_false] at hpart
    rcases hpart with ⟨-, rfl⟩ | ⟨-, rfl⟩
    · exact h.2.1.1
    · exact h.2.2.1
  | index | set =>
    simp only [Expr.parts, List.mem_cons, Prod.mk.injEq, List.not_mem_nil, or_false] at hpart
    rcases hpart with ⟨-, rfl⟩ | ⟨-, rfl⟩
    · exact h.2.1.1
    · exact h.2.2
  | updateIndex =>
    simp only [Expr.parts, List.mem_cons, Prod.mk.injEq, List.not_mem_nil, or_false] at hpart
    rcases hpart with ⟨-, rfl⟩ | ⟨-, rfl⟩
    · exact h.2.2.1.1
    · exact h.2.2.2
  | ternary =>
    simp only [Expr.parts, List.mem_cons, Prod.mk.injEq, List.not_mem_nil, or_false] at hpart
    rcases hpart with ⟨-, rfl⟩ | ⟨-, rfl⟩ | ⟨-, rfl⟩
    · exact h.2.1.1
    · exact h.2.2.1
    · exact h.2.2.2.1
  | call =>
    rcases List.mem_cons.1 hpart with heq | hpart
    · obtain ⟨-, rfl⟩ := Prod.mk.inj heq
      exact h.2.1.1
    · obtain ⟨e, he, heq⟩ := List.mem_map.1 hpart
      obtain ⟨-, rfl⟩ := Prod.mk.inj heq
      exact Expr.wellFormed_of_mem h.2.2.1 e he
  | array =>
    obtain ⟨e, he, heq⟩ := List.mem_map.1 hpart
    obtain ⟨-, rfl⟩ := Prod.mk.inj heq
    exact Expr.wellFormed_of_mem h.2 e he

theorem Stmt.wellFormed_part {s : Stmt} (h : s.WellFormed) {Γ Δ : Environs} {q : Fragment}
    (hpart : (Δ, q) ∈ s.parts Γ) : q.WellFormed := by
  cases s with
  | expression | print | block =>
    obtain ⟨-, rfl⟩ := Prod.mk.inj (List.mem_singleton.1 hpart)
    exact h
  | leave | skip => cases hpart
  | declare _ _ v | result _ v =>
    cases v with
    | none => cases hpart
    | some e =>
      obtain ⟨-, rfl⟩ := Prod.mk.inj (List.mem_singleton.1 hpart)
      exact h.2
  | branch _ c y n =>
    simp only [Stmt.parts, List.mem_cons, List.mem_map, Option.mem_toList, Prod.mk.injEq] at hpart
    rcases hpart with ⟨-, rfl⟩ | ⟨-, rfl⟩ | ⟨n, rfl, -, rfl⟩
    · exact h.1
    · exact h.2.1.1
    · exact h.2.2.2.1
  | loop =>
    simp only [Stmt.parts, List.mem_cons, Prod.mk.injEq, List.not_mem_nil, or_false] at hpart
    rcases hpart with ⟨-, rfl⟩ | ⟨-, rfl⟩
    · exact h.1
    · exact h.2.1
  | forLoop =>
    simp only [Stmt.parts, List.mem_append, List.mem_map, Option.mem_toList, Prod.mk.injEq,
      List.mem_singleton] at hpart
    rcases hpart with ((⟨s, rfl, -, rfl⟩ | ⟨e, rfl, -, rfl⟩) | ⟨e, rfl, -, rfl⟩) | ⟨-, rfl⟩
    · exact h.1.2
    · exact h.2.1
    · exact h.2.2.1
    · exact h.2.2.2.1
  | function d =>
    obtain ⟨t, ps, body⟩ := d
    obtain ⟨-, rfl⟩ := Prod.mk.inj (List.mem_singleton.1 hpart)
    exact h.2.2
  | classDecl =>
    rcases List.mem_append.1 hpart with hpart | hpart
    · obtain ⟨⟨t, e⟩, hd, heq⟩ := List.mem_map.1 hpart
      obtain ⟨-, rfl⟩ := Prod.mk.inj heq
      exact (Field.wellFormed_of_mem h.2.1 _ hd).2
    · obtain ⟨⟨t, ps, body⟩, hd, heq⟩ := List.mem_map.1 hpart
      obtain ⟨-, rfl⟩ := Prod.mk.inj heq
      exact (Function.wellFormed_of_mem h.2.2 _ hd).2.2

/-- What occurs in a well-formed program is well formed. -/
theorem Occurs.wellFormed {program : List Stmt} (hw : Stmt.WellFormedAll program) {Γ : Environs}
    {q : Fragment} (h : Occurs program Γ q) : q.WellFormed := by
  induction h with
  | here => exact hw
  | @part Δ p _ _ _ hpart ih =>
    cases p with
    | expr e => exact Expr.wellFormed_part ih hpart
    | stmt s => exact Stmt.wellFormed_part ih hpart
    | list ss =>
      cases ss with
      | nil => cases hpart
      | cons s ss =>
        simp only [Fragment.parts, List.mem_cons, Prod.mk.injEq, List.not_mem_nil, or_false] at hpart
        rcases hpart with ⟨-, rfl⟩ | ⟨-, rfl⟩
        · exact ih.1
        · exact ih.2

end Treewalk
