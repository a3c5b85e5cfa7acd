import Treewalk.Proofs.Scope.Mentions

/-!
# What parsers give, with faults or without

A fault does not end a run: parsers drop what they have read of a declaration and go on, and they put
a target in the place of an assignment that is none. Still no identity is given to two expressions, since an
identity that was given out is either in exactly one place of what is built or nowhere.

**Main result** (`Parsed.ofSource_draws`). Whatever the source, the identities of the statements that survive
are new and all different, the statements hold tokens of the source only, and every fault of the parser is at
such a token.

The invariant is `Draws held p gives Q`: a parser `p` that is entered with the identities `held` in hand ends
with those that its result has, which are some of `held` and new ones, each once. In a sequence the identities
of the first result join those in hand (`Draws.bind`), and a result may leave some of them aside
(`Draws.pure`).
-/

namespace Treewalk

variable {P : Token → Prop}

/-- A diagnostic stands at a token of a kind. -/
def Diagnostic.At (P : Token → Prop) (d : Diagnostic) : Prop := ∃ t, P t ∧ d.place = t.pos.place

/-- A parser's end stands at a token of a kind, if it is a fault. -/
def Parse.Stop.At (P : Token → Prop) : Parse.Stop → Prop
  | .fault d => d.At P
  | .outOfFuel => True

/-- Some of the identities that were numbered. -/
theorem Numbered.subperm {ids ids' : List NodeId} {n m : NodeId} (h : Numbered ids n m)
    (hsub : ids'.Subperm ids) : Numbered ids' n m := by
  refine ⟨h.le, ?_, fun i hi => h.within i (hsub.subset hi)⟩
  obtain ⟨chosen, hperm, hchosen⟩ := hsub
  exact hperm.nodup_iff.1 (hchosen.nodup h.nodup)

theorem Numbered.nil (n : NodeId) : Numbered [] n n :=
  ⟨Nat.le_refl n, List.nodup_nil, List.forall_mem_nil _⟩

theorem Numbered.mono {ids : List NodeId} {n m k : NodeId} (h : Numbered ids n m) (hle : m ≤ k) :
    Numbered ids n k :=
  ⟨Nat.le_trans h.le hle, h.nodup, fun i hi => ⟨(h.within i hi).1, Nat.lt_of_lt_of_le (h.within i hi).2 hle⟩⟩

theorem Fragment.throughout_of_parts {p : Fragment} (h : p.Built P)
    (hparts : ∀ Γ, ∀ part ∈ p.parts Γ, part.2.Throughout P) : p.Throughout P :=
  fun Γ => everywhere_of_parts h fun part hmem => hparts Γ part hmem part.1

/-- What is built of tokens of a kind has parts that are built of them. -/
theorem Fragment.Throughout.part {Γ Δ : Environs} {p q : Fragment} (h : p.Throughout P)
    (hpart : (Δ, q) ∈ p.parts Γ) : q.Throughout P := Everywhere.part_anywhere h hpart

theorem Fragment.Throughout.built {p : Fragment} (h : p.Throughout P) : p.Built P := (h {}).here

theorem Fragment.throughout_list {ss : List Stmt} (h : ∀ s ∈ ss, (Fragment.stmt s).Throughout P) :
    (Fragment.list ss).Throughout P := by
  induction ss with
  | nil => exact throughout_of_parts trivial (by simp [Fragment.parts])
  | cons s ss ih =>
    obtain ⟨hs, hss⟩ := List.forall_mem_cons.1 h
    exact throughout_of_parts trivial (by simp [Fragment.parts, hs, ih hss])

theorem Stmt.nodesAll_eq_flatMap (ss : List Stmt) : Stmt.nodesAll ss = ss.flatMap Stmt.nodes := by
  induction ss with
  | nil => rfl
  | cons s ss ih => rw [Stmt.nodesAll, ih, List.flatMap_cons]

namespace Parser

open Parse

/-- The tokens left are of a kind, and the end of input is one of them. -/
structure Supply (P : Token → Prop) (ts : List Token) : Prop where
  all : ∀ t ∈ ts, P t
  closed : ∃ t ∈ ts, t.kind = .eof

namespace Supply

variable {t : Token} {ts : List Token}

/-- There is a next token. -/
theorem head (h : Supply P ts) : P (ts.headD { kind := .eof }) := by
  cases ts with
  | nil =>
    obtain ⟨t, ht, -⟩ := h.closed
    cases ht
  | cons t ts => exact h.all t List.mem_cons_self

/-- Behind a token that is not the end of input there are more. -/
theorem tail (h : Supply P (t :: ts)) (ht : t.kind ≠ .eof) : Supply P ts := by
  refine ⟨fun u hu => h.all u (List.mem_cons_of_mem _ hu), ?_⟩
  obtain ⟨e, hmem, he⟩ := h.closed
  rcases List.mem_cons.1 hmem with rfl | hmem
  · exact absurd he ht
  · exact ⟨e, hmem, he⟩

theorem dropToBoundary (h : Supply P ts) : ∀ before, Supply P (dropToBoundary before ts) := by
  induction ts with
  | nil => exact fun _ => h
  | cons t ts ih =>
    intro before
    rw [Parser.dropToBoundary]
    split
    · exact h
    · next hstop => exact ih (h.tail fun he => hstop (by simp [he])) _

/-- Recovery does not drop the end of input. -/
theorem resume (h : Supply P ts) : Supply P (resume ts) := by
  cases ts with
  | nil => exact h
  | cons t ts =>
    rw [Parser.resume]
    split
    · exact h
    · next hne => exact (h.tail hne).dropToBoundary _

end Supply

/-- From one state to another no identity and no fault is taken back, and new faults are at tokens of a
kind. -/
structure Kept (P : Token → Prop) (s s' : State) : Prop where
  supply : Supply P s'.rest
  le : s.nextId ≤ s'.nextId
  faults : ∀ d ∈ s'.faults, d ∈ s.faults ∨ d.At P

namespace Kept

variable {s s' s'' : State}

theorem refl (h : Supply P s.rest) : Kept P s s := ⟨h, Nat.le_refl _, fun _ => .inl⟩

theorem trans (h : Kept P s s') (h' : Kept P s' s'') : Kept P s s'' :=
  ⟨h'.supply, Nat.le_trans h.le h'.le, fun d hd => (h'.faults d hd).elim (h.faults d) .inr⟩

end Kept

variable {α β : Type}

/-- Entered with the identities `held` in hand, all of them given out before, the parser gives a result that
has each of its identities once, all of them from `held` or new; the result is as `Q` says. -/
def Draws (P : Token → Prop) (held : List NodeId) (p : Parser α) (gives : α → List NodeId)
    (Q : α → Prop) : Prop :=
  ∀ s n, Supply P s.rest → Numbered held n s.nextId →
    match p s with
    | .ok a s' => Kept P s s' ∧ Numbered (gives a) n s'.nextId ∧ Q a
    | .error e s' => Kept P s s' ∧ e.At P

/-- A parser gives something without identities. -/
abbrev Takes (P : Token → Prop) (p : Parser α) (Q : α → Prop) : Prop := Draws P [] p (fun _ => []) Q

/-- A parser gives an expression. -/
abbrev DrawsExpr (P : Token → Prop) (held : List NodeId) (p : Parser Expr) : Prop :=
  Draws P held p Expr.nodes fun e => (Fragment.expr e).Throughout P

/-- A parser gives a statement. -/
abbrev DrawsStmt (P : Token → Prop) (p : Parser Stmt) : Prop :=
  Draws P [] p Stmt.nodes fun s => (Fragment.stmt s).Throughout P

namespace Draws

variable {held held' : List NodeId} {p : Parser α} {f : α → Parser β} {gives : α → List NodeId}
  {gives' : β → List NodeId} {Q : α → Prop} {R : β → Prop}

theorem pure {a : α} (hids : (gives a).Subperm held) (hQ : Q a) : Draws P held (Pure.pure a) gives Q :=
  fun _ _ hsupply hheld => ⟨.refl hsupply, hheld.subperm hids, hQ⟩

theorem outOfFuel : Draws P held (throw .outOfFuel : Parser α) gives Q :=
  fun _ _ hsupply _ => ⟨.refl hsupply, trivial⟩

/-- What is in hand may be more. -/
theorem less (h : Draws P held p gives Q) (hsub : held.Subperm held') : Draws P held' p gives Q :=
  fun s n hsupply hheld => h s n hsupply (hheld.subperm hsub)

/-- The identities of the first result join those in hand. -/
theorem bind (hp : Draws P [] p gives Q) (hf : ∀ a, Q a → Draws P (held ++ gives a) (f a) gives' R) :
    Draws P held (p >>= f) gives' R := by
  intro s n hsupply hheld
  have hfirst := hp s s.nextId hsupply (.nil _)
  show match EStateM.bind p f s with
    | .ok b s' => Kept P s s' ∧ Numbered (gives' b) n s'.nextId ∧ R b
    | .error e s' => Kept P s s' ∧ e.At P
  unfold EStateM.bind
  cases hrun : p s with
  | error e s' =>
    rw [hrun] at hfirst
    exact hfirst
  | ok a s' =>
    rw [hrun] at hfirst
    obtain ⟨hkept, hids, hQ⟩ := hfirst
    have hrest := hf a hQ s' n hkept.supply (hheld.append hids)
    dsimp only
    cases hrun' : f a s' with
    | error e s'' =>
      rw [hrun'] at hrest
      exact ⟨hkept.trans hrest.1, hrest.2⟩
    | ok b s'' =>
      rw [hrun'] at hrest
      exact ⟨hkept.trans hrest.1, hrest.2⟩

/-- A first result without identities leaves those in hand as they are. -/
theorem after (hp : Takes P p Q) (hf : ∀ a, Q a → Draws P held (f a) gives' R) :
    Draws P held (p >>= f) gives' R :=
  hp.bind fun a ha => by
    rw [List.append_nil]
    exact hf a ha

/-- From a result alone. -/
theorem map {g : α → β} (hp : Draws P [] p gives Q) (hids : ∀ a, (gives' (g a)).Subperm (gives a))
    (hR : ∀ a, Q a → R (g a)) : Draws P [] (p >>= fun a => Pure.pure (g a)) gives' R :=
  hp.bind fun a ha => .pure (hids a) (hR a ha)

theorem ite {c : Prop} [Decidable c] {q : Parser α} (hp : Draws P held p gives Q)
    (hq : Draws P held q gives Q) : Draws P held (if c then p else q) gives Q := by
  split
  · exact hp
  · exact hq

/-! ## The steps -/

theorem peek : Takes P Parser.peek P :=
  fun _ _ hsupply hheld => ⟨.refl hsupply, hheld, hsupply.head⟩

theorem peekSecond : Takes P Parser.peekSecond P := by
  intro s n hsupply hheld
  rcases s with ⟨_ | ⟨t, _ | ⟨u, rest⟩⟩, next, faults⟩
  · exact ⟨.refl hsupply, hheld, hsupply.head⟩
  · exact ⟨.refl hsupply, hheld, hsupply.head⟩
  · exact ⟨.refl hsupply, hheld, hsupply.all u (by simp)⟩

theorem advance : Takes P Parser.advance P := by
  intro s n hsupply hheld
  rcases s with ⟨_ | ⟨t, rest⟩, next, faults⟩
  · exact ⟨.refl hsupply, hheld, hsupply.head⟩
  · by_cases ht : t.kind = .eof
    · simp only [Parser.advance, ht, if_true]
      exact ⟨.refl hsupply, hheld, hsupply.head⟩
    · simp only [Parser.advance, ht, if_false]
      exact ⟨⟨hsupply.tail ht, Nat.le_refl _, fun _ => .inl⟩, hheld, hsupply.head⟩

/-- A new identity is put before those in hand. -/
theorem freshId {f : NodeId → Parser α} (h : ∀ id, Draws P (id :: held) (f id) gives Q) :
    Draws P held (Parser.freshId >>= f) gives Q := by
  intro s n hsupply hheld
  have hrest := h s.nextId { s with nextId := s.nextId + 1 } n hsupply hheld.close
  show match f s.nextId { s with nextId := s.nextId + 1 } with
    | .ok a s' => Kept P s s' ∧ Numbered (gives a) n s'.nextId ∧ Q a
    | .error e s' => Kept P s s' ∧ e.At P
  have hstep : Kept P s { s with nextId := s.nextId + 1 } := ⟨hsupply, Nat.le_succ _, fun _ => .inl⟩
  cases hrun : f s.nextId { s with nextId := s.nextId + 1 } with
  | ok a s' =>
    rw [hrun] at hrest
    exact ⟨hstep.trans hrest.1, hrest.2⟩
  | error e s' =>
    rw [hrun] at hrest
    exact ⟨hstep.trans hrest.1, hrest.2⟩

/-- The form that is complete now takes one more identity. -/
theorem close {build : NodeId → α} (hids : ∀ id, (gives (build id)).Subperm (id :: held))
    (hQ : ∀ id, Q (build id)) : Draws P held (Parser.freshId >>= fun id => Pure.pure (build id)) gives Q :=
  freshId fun id => .pure (hids id) (hQ id)

theorem record {d : Diagnostic} (hd : d.At P) : Takes P (Parser.record d) fun _ => True := by
  refine fun s n hsupply hheld => ⟨⟨hsupply, Nat.le_refl _, fun d' hd' => ?_⟩, hheld, trivial⟩
  rcases List.mem_cons.1 hd' with rfl | hd'
  · exact .inr hd
  · exact .inl hd'

theorem at_faultAt {t : Token} (ht : P t) (kind : Diagnostic.Kind) (message : Bytes) :
    (faultAt t kind message).At P := ⟨t, ht, rfl⟩

theorem failExpected (what : Bytes) : Draws P held (Parser.failExpected (α := α) what) gives Q :=
  after peek fun _ ht _ _ hsupply _ => ⟨.refl hsupply, at_faultAt ht _ _⟩

/-! ## Forms that parsers share -/

theorem expect (kind : Token.Kind) (what : Bytes) : Takes P (Parser.expect kind what) P :=
  after peek fun _ _ => ite advance (failExpected what)

theorem accept (kind : Token.Kind) : Takes P (Parser.accept kind) fun _ => True :=
  after peek fun _ _ => ite (after advance fun _ _ => .pure (by simp) trivial) (.pure (by simp) trivial)

/-- What may be absent. -/
theorem opt {givesOpt : Option α → List NodeId} (hp : Draws P [] p gives Q)
    (hsome : ∀ a, givesOpt (some a) = gives a) :
    Draws P [] (p >>= fun a => Pure.pure (some a)) givesOpt fun found => ∀ a ∈ found, Q a :=
  hp.map (fun a => hsome a ▸ .refl _) fun a ha b hb => by
    cases hb
    exact ha

theorem unlessAt {kind : Token.Kind} (givesOpt : Option α → List NodeId) (hp : Draws P [] p gives Q)
    (hnone : givesOpt none = []) (hsome : ∀ a, givesOpt (some a) = gives a) :
    Draws P [] (Parser.unlessAt kind p) givesOpt fun found => ∀ a ∈ found, Q a :=
  after peek fun _ _ => ite (.pure (hnone ▸ .refl _) nofun) (hp.opt hsome)

theorem ifAfter {kind : Token.Kind} (givesOpt : Option α → List NodeId) (hp : Draws P [] p gives Q)
    (hnone : givesOpt none = []) (hsome : ∀ a, givesOpt (some a) = gives a) :
    Draws P [] (Parser.ifAfter kind p) givesOpt fun found => ∀ a ∈ found, Q a :=
  after (accept kind) fun _ _ => ite (hp.opt hsome) (.pure (hnone ▸ .refl _) nofun)

theorem checkRoom (taken : Nat) (what : Bytes) : Takes P (Parser.checkRoom taken what) fun _ => True :=
  ite (after peek fun _ ht => record (at_faultAt ht _ _)) (.pure (.refl _) trivial)

theorem checkArguments (closing : Token.Kind) (taken : Nat) :
    Takes P (Parser.checkArguments closing taken) fun _ => True :=
  ite (checkRoom taken _) (.pure (.refl _) trivial)

theorem startClause {p q : Parser Stmt} (hp : DrawsStmt P p) (hq : DrawsStmt P q) :
    Draws P [] (Parser.startClause p q) Stmt.nodesOpt
      fun found => ∀ s ∈ found, (Fragment.stmt s).Throughout P :=
  after (accept _) fun _ _ => ite (.pure (.refl _) fun _ h => (Option.not_mem_none _ h).elim)
    (after peek fun _ _ => ite (hp.opt fun _ => rfl) (hq.opt fun _ => rfl))

theorem keywordStmt {make : Token → Stmt} (hnone : ∀ t, (make t).nodes = [])
    (hmake : ∀ t, P t → (Fragment.stmt (make t)).Throughout P) (what : Bytes) :
    DrawsStmt P (Parser.keywordStmt make what) :=
  after advance fun keyword ht => after (expect _ _) fun _ _ =>
    .pure (hnone keyword ▸ .refl _) (hmake keyword ht)

/-- A fault inside ends here: what the parser had in hand is given up. -/
theorem recovering {p : Parser Stmt} (hp : DrawsStmt P p) :
    Draws P [] (Parser.recovering p) Stmt.nodesOpt
      fun found => ∀ s ∈ found, (Fragment.stmt s).Throughout P := by
  intro s n hsupply hheld
  have hrun := hp s n hsupply hheld
  unfold Parser.recovering
  cases h : p s with
  | ok a s' =>
    rw [h] at hrun
    obtain ⟨hkept, hids, ha⟩ := hrun
    exact ⟨hkept, hids, fun b hb => by cases hb; exact ha⟩
  | error e s' =>
    rw [h] at hrun
    obtain ⟨hkept, hat⟩ := hrun
    cases e with
    | outOfFuel => exact ⟨hkept, trivial⟩
    | fault d =>
      refine ⟨⟨hkept.supply.resume, hkept.le, fun d' hd' => ?_⟩, hheld.mono hkept.le,
        fun _ h => (Option.not_mem_none _ h).elim⟩
      rcases List.mem_cons.1 hd' with rfl | hd'
      · exact .inr hat
      · exact hkept.faults d' hd'

/-! ## Targets -/

/-- An identity that is given up for a new one. -/
theorem subperm_replace (id i : NodeId) (ids : List NodeId) : (id :: ids).Subperm (id :: i :: ids) :=
  ((List.sublist_cons_self i ids).cons_cons id).subperm

/-- The parts of a target move into the assignment; the identity of the target itself is given up. -/
theorem assignTo {target value : Expr} {sign : Token} (hsign : P sign)
    (htarget : (Fragment.expr target).Throughout P) (hvalue : (Fragment.expr value).Throughout P) :
    DrawsExpr P (target.nodes ++ value.nodes) (Parser.assignTo target sign value) := by
  unfold Parser.assignTo
  split
  next name =>
    have hname : P name := htarget.built name List.mem_cons_self
    refine close (fun id => subperm_replace id _ _) fun id => ?_
    exact Fragment.throughout_of_parts (by simp [Fragment.Built, Expr.tokens, hname])
      (by simp [Fragment.parts, Expr.parts, hvalue])
  next object name =>
    have hname : P name := htarget.built name List.mem_cons_self
    have hobject : (Fragment.expr object).Throughout P := htarget.part (Γ := {}) List.mem_cons_self
    refine close (fun id => subperm_replace id _ _) fun id => ?_
    exact Fragment.throughout_of_parts (by simp [Fragment.Built, Expr.tokens, hname])
      (by simp [Fragment.parts, Expr.parts, hobject, hvalue])
  · exact after (record (at_faultAt hsign _ _)) fun _ _ =>
      .pure (List.sublist_append_left ..).subperm htarget

theorem compoundTo {target value : Expr} {op : ArithOp} {sign : Token} (hsign : P sign)
    (htarget : (Fragment.expr target).Throughout P) (hvalue : (Fragment.expr value).Throughout P) :
    DrawsExpr P (target.nodes ++ value.nodes) (Parser.compoundTo target op sign value) := by
  unfold Parser.compoundTo
  split
  next name =>
    have hname : P name := htarget.built name List.mem_cons_self
    refine close (fun id => subperm_replace id _ _) fun id => ?_
    exact Fragment.throughout_of_parts (by simp [Fragment.Built, Expr.tokens, hname, hsign])
      (by simp [Fragment.parts, Expr.parts, hvalue])
  · exact after (record (at_faultAt hsign _ _)) fun _ _ =>
      .pure (List.sublist_append_left ..).subperm htarget

/-- A step takes the place of its target. -/
theorem stepOf {target : Expr} {op : StepOp} {token : Token} {before : Bool} (htoken : P token)
    (htarget : (Fragment.expr target).Throughout P) :
    DrawsExpr P target.nodes (Parser.stepOf target op token before) := by
  unfold Parser.stepOf
  split
  next name =>
    have hname : P name := htarget.built name List.mem_cons_self
    refine close (fun id => subperm_replace id _ _) fun id => ?_
    exact Fragment.throughout_of_parts (by simp [Fragment.Built, Expr.tokens, hname, htoken])
      (by simp [Fragment.parts, Expr.parts])
  next object bracket index =>
    have hbracket : P bracket := htarget.built bracket List.mem_cons_self
    have hobject : (Fragment.expr object).Throughout P := htarget.part (Γ := {}) List.mem_cons_self
    have hindex : (Fragment.expr index).Throughout P :=
      htarget.part (Γ := {}) (List.mem_cons_of_mem _ List.mem_cons_self)
    refine close (fun id => subperm_replace id _ _) fun id => ?_
    exact Fragment.throughout_of_parts (by simp [Fragment.Built, Expr.tokens, hbracket, htoken])
      (by simp [Fragment.parts, Expr.parts, hobject, hindex])
  next object name =>
    have hname : P name := htarget.built name List.mem_cons_self
    have hobject : (Fragment.expr object).Throughout P := htarget.part (Γ := {}) List.mem_cons_self
    refine close (fun id => subperm_replace id _ _) fun id => ?_
    exact Fragment.throughout_of_parts (by simp [Fragment.Built, Expr.tokens, hname, htoken])
      (by simp [Fragment.parts, Expr.parts, hobject])
  · exact after (record (at_faultAt htoken _ _)) fun _ _ => .pure (.refl _) htarget

/-- A loop over declarations ends with those read, in the order read. -/
theorem done_reverse {done : List Stmt} (hdone : ∀ s ∈ done, (Fragment.stmt s).Throughout P) :
    Draws P (Stmt.nodesAll done) (Pure.pure done.reverse) Stmt.nodesAll
      fun ss => ∀ s ∈ ss, (Fragment.stmt s).Throughout P := by
  refine .pure (List.Perm.subperm ?_) fun s hs => hdone s (List.mem_reverse.1 hs)
  simp only [Stmt.nodesAll_eq_flatMap]
  exact (List.reverse_perm _).flatMap_right _

end Draws

/-! ## The parsers -/

/-- What every parser with fuel `n` gives. Those that carry on from something already read are entered with
its identities in hand. -/
structure DrawsAt (P : Token → Prop) (n : Nat) : Prop where
  expression : DrawsExpr P [] (expression n)
  ternary : DrawsExpr P [] (ternary n)
  chain : ∀ level, DrawsExpr P [] (chain n level)
  chainRest : ∀ level left, (Fragment.expr left).Throughout P → DrawsExpr P left.nodes (chainRest n level left)
  operand : ∀ level, DrawsExpr P [] (operand n level)
  unary : DrawsExpr P [] (unary n)
  callRest : ∀ inner, (Fragment.expr inner).Throughout P → DrawsExpr P inner.nodes (callRest n inner)
  arguments : ∀ closing, Draws P [] (arguments n closing) Expr.nodesAll
    fun es => ∀ e ∈ es, (Fragment.expr e).Throughout P
  argumentsFrom : ∀ closing done taken, (∀ e ∈ done, (Fragment.expr e).Throughout P) →
    Draws P (Expr.nodesAll done) (argumentsFrom n closing done taken) Expr.nodesAll
      fun es => ∀ e ∈ es, (Fragment.expr e).Throughout P
  primary : DrawsExpr P [] (primary n)
  parameterNames : ∀ done taken, (∀ t ∈ done, P t) →
    Takes P (parameterNames done taken n) fun ps => ∀ t ∈ ps, P t
  functionTail : ∀ callee, Draws P [] (functionTail n callee) (fun tail => Stmt.nodesAll tail.2)
    fun tail => (∀ t ∈ tail.1, P t) ∧ (Fragment.list tail.2).Throughout P
  function : ∀ callee, Draws P [] (function n callee) Function.nodes
    fun d => (∀ t ∈ d.name :: d.params, P t) ∧ (Fragment.list d.body).Throughout P
  block : Draws P [] (block n) (fun found => Stmt.nodesAll found.2)
    fun found => P found.1 ∧ (Fragment.list found.2).Throughout P
  blockBody : ∀ done, (∀ s ∈ done, (Fragment.stmt s).Throughout P) →
    Draws P (Stmt.nodesAll done) (blockBody n done) Stmt.nodesAll
      fun ss => ∀ s ∈ ss, (Fragment.stmt s).Throughout P
  declaration : DrawsStmt P (declaration n)
  classDecl : DrawsStmt P (classDecl n)
  members : ∀ fields methods, (∀ d ∈ fields, (Fragment.expr d.value).Throughout P) →
    (∀ d ∈ methods, (∀ t ∈ d.name :: d.params, P t) ∧ (Fragment.list d.body).Throughout P) →
    Draws P (Field.nodesAll fields ++ Function.nodesAll methods) (members n fields methods)
      (fun found => Field.nodesAll found.1 ++ Function.nodesAll found.2)
      fun found => (∀ d ∈ found.1, (Fragment.expr d.value).Throughout P) ∧
        ∀ d ∈ found.2, (∀ t ∈ d.name :: d.params, P t) ∧ (Fragment.list d.body).Throughout P
  variableDecl : DrawsStmt P (variableDecl n)
  statement : DrawsStmt P (statement n)
  branch : DrawsStmt P (branch n)
  forLoop : DrawsStmt P (forLoop n)
  expressionStmt : DrawsStmt P (expressionStmt n)
  program : ∀ done, (∀ s ∈ done, (Fragment.stmt s).Throughout P) →
    Draws P (Stmt.nodesAll done) (program n done) Stmt.nodesAll
      fun ss => ∀ s ∈ ss, (Fragment.stmt s).Throughout P

theorem drawsAt_zero : DrawsAt P 0 where
  expression := .outOfFuel
  ternary := .outOfFuel
  chain _ := .outOfFuel
  chainRest _ _ _ := .outOfFuel
  operand _ := .outOfFuel
  unary := .outOfFuel
  callRest _ _ := .outOfFuel
  arguments _ := .outOfFuel
  argumentsFrom _ _ _ _ := .outOfFuel
  primary := .outOfFuel
  parameterNames _ _ _ := .outOfFuel
  functionTail _ := .outOfFuel
  function _ := .outOfFuel
  block := .outOfFuel
  blockBody _ _ := .outOfFuel
  declaration := .outOfFuel
  classDecl := .outOfFuel
  members _ _ _ _ := .outOfFuel
  variableDecl := .outOfFuel
  statement := .outOfFuel
  branch := .outOfFuel
  forLoop := .outOfFuel
  expressionStmt := .outOfFuel
  program _ _ := .outOfFuel

namespace DrawsAt

variable {n : Nat} (h : DrawsAt P n)

include h

theorem expression_succ : DrawsExpr P [] (Parser.expression (n + 1)) := by
  refine h.ternary.bind fun target htarget => .after .peek fun sign hsign => .ite ?_ ?_
  · exact .after .advance fun _ _ => h.expression.bind fun value hvalue => .assignTo hsign htarget hvalue
  · split
    · exact .after .advance fun _ _ => h.expression.bind fun value hvalue => .compoundTo hsign htarget hvalue
    · exact .pure (.refl _) htarget

theorem ternary_succ : DrawsExpr P [] (Parser.ternary (n + 1)) := by
  refine (h.chain _).bind fun cond hcond => .after .peek fun question hquestion => .ite ?_ (.pure (.refl _) hcond)
  refine .after .advance fun _ _ => h.expression.bind fun yes hyes => .after (.expect _ _) fun _ _ => ?_
  refine h.ternary.bind fun no hno => .close (fun _ => .refl _) fun _ => ?_
  exact Fragment.throughout_of_parts (by simp [Fragment.Built, Expr.tokens, hquestion])
    (by simp [Fragment.parts, Expr.parts, hcond, hyes, hno])

theorem chainRest_succ (level : Level) (left : Expr) (hleft : (Fragment.expr left).Throughout P) :
    DrawsExpr P left.nodes (Parser.chainRest (n + 1) level left) := by
  refine .after .peek fun token htoken => ?_
  split
  · exact .pure (.refl _) hleft
  next joint _ =>
    refine .after .advance fun _ _ => (h.operand level).bind fun right hright => .freshId fun id => ?_
    cases joint with
    | logical op =>
      exact h.chainRest level (.logical id op token left right)
        (Fragment.throughout_of_parts (by simp [Fragment.Built, Expr.tokens, htoken])
          (by simp [Fragment.parts, Expr.parts, hleft, hright]))
    | binary op =>
      exact h.chainRest level (.binary id op token left right)
        (Fragment.throughout_of_parts (by simp [Fragment.Built, Expr.tokens, htoken])
          (by simp [Fragment.parts, Expr.parts, hleft, hright]))

theorem operand_succ (level : Level) : DrawsExpr P [] (Parser.operand (n + 1) level) := by
  cases level with
  | factor => exact h.unary
  | _ => exact h.chain _

theorem unary_succ : DrawsExpr P [] (Parser.unary (n + 1)) := by
  refine .after .peek fun token htoken => ?_
  split
  · refine .after .advance fun _ _ => h.unary.bind fun operand hoperand => .close (fun _ => .refl _) fun _ => ?_
    exact Fragment.throughout_of_parts (by simp [Fragment.Built, Expr.tokens, htoken])
      (by simp [Fragment.parts, Expr.parts, hoperand])
  · exact .after .advance fun _ _ => h.unary.bind fun operand hoperand => .stepOf htoken hoperand
  · exact h.primary.bind fun inner hinner => h.callRest inner hinner

theorem callRest_succ (inner : Expr) (hinner : (Fragment.expr inner).Throughout P) :
    DrawsExpr P inner.nodes (Parser.callRest (n + 1) inner) := by
  refine .after .peek fun token htoken => ?_
  split
  · refine .after .advance fun _ _ => (h.arguments _).bind fun args hargs => .after (.expect _ _) fun paren hparen => ?_
    refine .freshId fun id => h.callRest (.call id inner paren args) (Fragment.throughout_of_parts ?_ ?_)
    · simp [Fragment.Built, Expr.tokens, hparen]
    · intro Γ part hpart
      rcases List.mem_cons.1 hpart with rfl | hpart
      · exact hinner
      · obtain ⟨e, he, rfl⟩ := List.mem_map.1 hpart
        exact hargs e he
  · refine .after .advance fun _ _ => .after (.expect _ _) fun name hname => .freshId fun id => ?_
    exact h.callRest (.get id inner name)
      (Fragment.throughout_of_parts (by simp [Fragment.Built, Expr.tokens, hname])
        (by simp [Fragment.parts, Expr.parts, hinner]))
  · refine .after .advance fun _ _ => h.expression.bind fun index hindex => .after (.expect _ _) fun _ _ => ?_
    refine .freshId fun id => h.callRest (.index id inner token index) ?_
    exact Fragment.throughout_of_parts (by simp [Fragment.Built, Expr.tokens, htoken])
      (by simp [Fragment.parts, Expr.parts, hinner, hindex])
  · split
    · exact .after .advance fun _ _ => .stepOf htoken hinner
    · exact .pure (.refl _) hinner

theorem arguments_succ (closing : Token.Kind) : Draws P [] (Parser.arguments (n + 1) closing) Expr.nodesAll
    fun es => ∀ e ∈ es, (Fragment.expr e).Throughout P :=
  .after .peek fun _ _ => .ite (.pure (.refl _) (List.forall_mem_nil _))
    (h.argumentsFrom closing [] 0 (List.forall_mem_nil _))

theorem argumentsFrom_succ (closing : Token.Kind) (done : List Expr) (taken : Nat)
    (hdone : ∀ e ∈ done, (Fragment.expr e).Throughout P) :
    Draws P (Expr.nodesAll done) (Parser.argumentsFrom (n + 1) closing done taken) Expr.nodesAll
      fun es => ∀ e ∈ es, (Fragment.expr e).Throughout P := by
  refine .after (.checkArguments _ _) fun _ _ => h.expression.bind fun e he => .after (.accept _) fun _ _ => ?_
  have hall : ∀ e' ∈ e :: done, (Fragment.expr e').Throughout P := List.forall_mem_cons.2 ⟨he, hdone⟩
  have hids : (Expr.nodesAll (e :: done)).Perm (Expr.nodesAll done ++ e.nodes) := List.perm_append_comm
  refine .ite ((h.argumentsFrom closing (e :: done) (taken + 1) hall).less hids.subperm) (.pure ?_ ?_)
  · refine (List.Perm.trans ?_ hids).subperm
    simp only [Expr.nodesAll_eq_flatMap]
    exact (List.reverse_perm _).flatMap_right _
  · exact fun e' he' => hall e' (List.mem_reverse.1 he')

theorem primary_succ : DrawsExpr P [] (Parser.primary (n + 1)) := by
  refine .after .peek fun token htoken => ?_
  split
  case h_8 =>
    refine .after .advance fun _ _ => h.expression.bind fun inner hinner => .after (.expect _ _) fun _ _ => ?_
    refine .close (fun _ => .refl _) fun _ => ?_
    exact Fragment.throughout_of_parts (by simp [Fragment.Built, Expr.tokens, htoken])
      (by simp [Fragment.parts, Expr.parts, hinner])
  case h_9 =>
    refine .after .advance fun _ _ => (h.arguments _).bind fun elements helements => ?_
    refine .after (.expect _ _) fun _ _ => .close (fun _ => .refl _) fun _ => ?_
    refine Fragment.throughout_of_parts (by simp [Fragment.Built, Expr.tokens, htoken]) fun Γ part hpart => ?_
    obtain ⟨e, he, rfl⟩ := List.mem_map.1 hpart
    exact helements e he
  case h_10 =>
    refine .after .advance fun _ _ => (h.functionTail _).bind fun tail htail => .close (fun _ => .refl _) fun _ => ?_
    exact Fragment.throughout_of_parts (List.forall_mem_cons.2 ⟨htoken, htail.1⟩)
      (by simp [Fragment.parts, Expr.parts, htail.2])
  case h_11 => exact .failExpected _
  -- literals, names and receivers
  all_goals
    refine .after .advance fun _ _ => .close (fun _ => .refl _) fun _ => ?_
    exact Fragment.throughout_of_parts (by simp [Fragment.Built, Expr.tokens, htoken])
      (by simp [Fragment.parts, Expr.parts])

theorem parameterNames_succ (done : List Token) (taken : Nat) (hdone : ∀ t ∈ done, P t) :
    Takes P (Parser.parameterNames done taken (n + 1)) fun ps => ∀ t ∈ ps, P t := by
  refine .after (.checkRoom _ _) fun _ _ => .after (.expect _ _) fun name hname => .after (.accept _) fun _ _ => ?_
  have hall : ∀ t ∈ name :: done, P t := List.forall_mem_cons.2 ⟨hname, hdone⟩
  refine .ite (h.parameterNames (name :: done) (taken + 1) hall) (.pure (.refl _) fun t ht => ?_)
  exact hall t (List.mem_reverse.1 ht)

theorem functionTail_succ (callee : Callee) :
    Draws P [] (Parser.functionTail (n + 1) callee) (fun tail => Stmt.nodesAll tail.2)
      fun tail => (∀ t ∈ tail.1, P t) ∧ (Fragment.list tail.2).Throughout P := by
  have hparams : Takes P (Parser.parameters n) fun ps => ∀ t ∈ ps, P t :=
    .after .peek fun _ _ => .ite (.pure (.refl _) (List.forall_mem_nil _))
      (h.parameterNames [] 0 (List.forall_mem_nil _))
  refine .after (.expect _ _) fun _ _ => .after hparams fun params hps => .after (.expect _ _) fun _ _ => ?_
  refine .after .peek fun _ _ => .ite ?_ (.failExpected _)
  exact h.block.bind fun found hfound => .pure (.refl _) ⟨hps, hfound.2⟩

theorem function_succ (callee : Callee) : Draws P [] (Parser.function (n + 1) callee) Function.nodes
    fun d => (∀ t ∈ d.name :: d.params, P t) ∧ (Fragment.list d.body).Throughout P :=
  .after (.expect _ _) fun _ hname => (h.functionTail callee).bind fun _ htail =>
    .pure (.refl _) ⟨List.forall_mem_cons.2 ⟨hname, htail.1⟩, htail.2⟩

theorem block_succ : Draws P [] (Parser.block (n + 1)) (fun found => Stmt.nodesAll found.2)
    fun found => P found.1 ∧ (Fragment.list found.2).Throughout P :=
  .after (.expect _ _) fun _ hbrace => (h.blockBody [] (List.forall_mem_nil _)).bind fun _ hbody =>
    .after (.expect _ _) fun _ _ => .pure (.refl _) ⟨hbrace, Fragment.throughout_list hbody⟩

/-- A round of a loop over declarations. -/
theorem round {next : List Stmt → Parser (List Stmt)} {done : List Stmt}
    (hdone : ∀ s ∈ done, (Fragment.stmt s).Throughout P)
    (hnext : ∀ done, (∀ s ∈ done, (Fragment.stmt s).Throughout P) →
      Draws P (Stmt.nodesAll done) (next done) Stmt.nodesAll
        fun ss => ∀ s ∈ ss, (Fragment.stmt s).Throughout P) :
    Draws P (Stmt.nodesAll done)
      (Parser.recovering (Parser.declaration n) >>= fun
        | some stmt => next (stmt :: done)
        | none => next done)
      Stmt.nodesAll fun ss => ∀ s ∈ ss, (Fragment.stmt s).Throughout P := by
  refine h.declaration.recovering.bind fun found hfound => ?_
  cases found with
  | none =>
    have hids : Stmt.nodesAll done ++ Stmt.nodesOpt none = Stmt.nodesAll done := List.append_nil _
    rw [hids]
    exact hnext done hdone
  | some stmt =>
    exact (hnext (stmt :: done) (List.forall_mem_cons.2 ⟨hfound stmt rfl, hdone⟩)).less
      List.perm_append_comm.subperm

theorem declaration_succ : DrawsStmt P (Parser.declaration (n + 1)) := by
  refine .after .peek fun _ _ => ?_
  split
  · exact h.classDecl
  · refine .after .peekSecond fun _ _ => .ite ?_ h.statement
    refine .after .advance fun _ _ => (h.function _).bind fun d hd => .pure (.refl _) ?_
    exact Fragment.throughout_of_parts ⟨hd.1, d.name, hd.1 _ List.mem_cons_self, rfl⟩
      (by simp [Fragment.parts, Stmt.parts, hd.2])
  · exact h.variableDecl
  · exact h.statement

theorem classDecl_succ : DrawsStmt P (Parser.classDecl (n + 1)) := by
  refine .after .advance fun keyword hkeyword => .after (.expect _ _) fun name hname => ?_
  refine .after (.expect _ _) fun _ _ => (h.members [] [] (List.forall_mem_nil _) (List.forall_mem_nil _)).bind
    fun found ⟨hfields, hmethods⟩ => .after (.expect _ _) fun _ _ => .pure (.refl _) ?_
  refine Fragment.throughout_of_parts ⟨List.forall_mem_cons.2 ⟨hname, fun t hmem => ?_⟩, keyword, hkeyword, rfl⟩ ?_
  · obtain ⟨d, hd, hmem⟩ := List.mem_flatMap.1 hmem
    exact (hmethods d hd).1 t hmem
  · intro Γ part hpart
    simp only [Fragment.parts, Stmt.parts, List.mem_append, List.mem_map] at hpart
    rcases hpart with ⟨d, hd, rfl⟩ | ⟨d, hd, rfl⟩
    · exact hfields d hd
    · exact (hmethods d hd).2

theorem members_succ (fields : List Field) (methods : List Function)
    (hfields : ∀ d ∈ fields, (Fragment.expr d.value).Throughout P)
    (hmethods : ∀ d ∈ methods, (∀ t ∈ d.name :: d.params, P t) ∧ (Fragment.list d.body).Throughout P) :
    Draws P (Field.nodesAll fields ++ Function.nodesAll methods) (Parser.members (n + 1) fields methods)
      (fun found => Field.nodesAll found.1 ++ Function.nodesAll found.2)
      fun found => (∀ d ∈ found.1, (Fragment.expr d.value).Throughout P) ∧
        ∀ d ∈ found.2, (∀ t ∈ d.name :: d.params, P t) ∧ (Fragment.list d.body).Throughout P := by
  refine .after .peek fun next hnext =>
    .ite (.pure (List.Perm.subperm ?_) ?_) (.after .peekSecond fun _ _ => .ite ?_ ?_)
  · simp only [Field.nodesAll_eq_flatMap, Function.nodesAll_eq_flatMap]
    exact ((List.reverse_perm _).flatMap_right _).append ((List.reverse_perm _).flatMap_right _)
  · exact ⟨fun d hd => hfields d (List.mem_reverse.1 hd), fun d hd => hmethods d (List.mem_reverse.1 hd)⟩
  · refine .after .advance fun _ _ => .after .advance fun _ _ => h.expression.bind fun value hvalue => ?_
    refine .after (.expect _ _) fun _ _ => (h.members (.mk next value :: fields) methods ?_ hmethods).less ?_
    · exact List.forall_mem_cons.2 ⟨hvalue, hfields⟩
    · show (value.nodes ++ Field.nodesAll fields ++ Function.nodesAll methods).Subperm _
      rw [List.append_assoc]
      exact List.perm_append_comm.subperm
  · refine (h.function _).bind fun d hd => (h.members fields (d :: methods) hfields ?_).less ?_
    · exact List.forall_mem_cons.2 ⟨hd, hmethods⟩
    · show (Field.nodesAll fields ++ (d.nodes ++ Function.nodesAll methods)).Subperm _
      rw [List.append_assoc]
      exact (List.perm_append_comm.append_left _).subperm

theorem variableDecl_succ : DrawsStmt P (Parser.variableDecl (n + 1)) := by
  refine .after .advance fun keyword hkeyword => .after (.expect _ _) fun name hname => ?_
  refine (Draws.ifAfter Expr.nodesOpt h.expression rfl fun _ => rfl).bind fun value hvalue => ?_
  refine .after (.expect _ _) fun _ _ => .pure (.refl _) ?_
  exact Fragment.throughout_of_parts ⟨by simp [Stmt.tokens, hname], keyword, hkeyword, rfl⟩
    (by simpa [Fragment.parts, Stmt.parts] using fun _ : Environs => hvalue)

theorem expressionStmt_succ : DrawsStmt P (Parser.expressionStmt (n + 1)) :=
  .after .peek fun first hfirst => h.expression.bind fun e he => .after (.expect _ _) fun _ _ =>
    .pure (.refl _) (Fragment.throughout_of_parts ⟨List.forall_mem_nil _, first, hfirst, rfl⟩
      (by simp [Fragment.parts, Stmt.parts, he]))

theorem statement_succ : DrawsStmt P (Parser.statement (n + 1)) := by
  refine .after .peek fun _ _ => ?_
  split
  · refine .after .advance fun keyword hkeyword => h.expression.bind fun e he => ?_
    refine .after (.expect _ _) fun _ _ => .pure (.refl _) ?_
    exact Fragment.throughout_of_parts ⟨List.forall_mem_nil _, keyword, hkeyword, rfl⟩
      (by simp [Fragment.parts, Stmt.parts, he])
  · refine h.block.bind fun found ⟨hbrace, hbody⟩ => .pure (.refl _) ?_
    exact Fragment.throughout_of_parts ⟨List.forall_mem_nil _, found.1, hbrace, rfl⟩
      (by simp [Fragment.parts, Stmt.parts, hbody])
  · exact h.branch
  · refine .after .advance fun keyword hkeyword => .after (.expect _ _) fun _ _ =>
      h.expression.bind fun cond hcond => ?_
    refine .after (.expect _ _) fun _ _ => h.statement.bind fun body hbody => .pure (.refl _) ?_
    exact Fragment.throughout_of_parts ⟨List.forall_mem_nil _, keyword, hkeyword, rfl⟩
      (by simp [Fragment.parts, Stmt.parts, hcond, hbody])
  · exact h.forLoop
  · refine .after .advance fun keyword hkeyword => ?_
    refine (Draws.unlessAt Expr.nodesOpt h.expression rfl fun _ => rfl).bind fun value hvalue => ?_
    refine .after (.expect _ _) fun _ _ => .pure (.refl _) ?_
    exact Fragment.throughout_of_parts ⟨by simp [Stmt.tokens, hkeyword], keyword, hkeyword, rfl⟩
      (by simpa [Fragment.parts, Stmt.parts] using fun _ : Environs => hvalue)
  · exact .keywordStmt (fun _ => rfl) (fun t ht => Fragment.throughout_of_parts
      ⟨by simp [Stmt.tokens, ht], t, ht, rfl⟩ (by simp [Fragment.parts, Stmt.parts])) _
  · exact .keywordStmt (fun _ => rfl) (fun t ht => Fragment.throughout_of_parts
      ⟨by simp [Stmt.tokens, ht], t, ht, rfl⟩ (by simp [Fragment.parts, Stmt.parts])) _
  · exact h.expressionStmt

theorem branch_succ : DrawsStmt P (Parser.branch (n + 1)) := by
  refine .after .advance fun keyword hkeyword => .after (.expect _ _) fun _ _ => h.expression.bind fun cond hcond => ?_
  refine .after (.expect _ _) fun _ _ => h.statement.bind fun yes hyes => ?_
  refine (Draws.ifAfter Stmt.nodesOpt h.statement rfl fun _ => rfl).bind fun no hno => .pure (.refl _) ?_
  exact Fragment.throughout_of_parts ⟨List.forall_mem_nil _, keyword, hkeyword, rfl⟩
    (by simpa [Fragment.parts, Stmt.parts, hcond, hyes] using fun _ : Environs => hno)

theorem forLoop_succ : DrawsStmt P (Parser.forLoop (n + 1)) := by
  refine .after .advance fun keyword hkeyword => .after (.expect _ _) fun _ _ => ?_
  refine (Draws.startClause h.variableDecl h.expressionStmt).bind fun start hstart => ?_
  refine (Draws.unlessAt Expr.nodesOpt h.expression rfl fun _ => rfl).bind fun cond hcond =>
    .after (.expect _ _) fun _ _ => ?_
  refine (Draws.unlessAt Expr.nodesOpt h.expression rfl fun _ => rfl).bind fun step hstep =>
    .after (.expect _ _) fun _ _ => ?_
  refine h.statement.bind fun body hbody => .pure (.refl _) ?_
  refine Fragment.throughout_of_parts ⟨List.forall_mem_nil _, keyword, hkeyword, rfl⟩ fun Γ part hpart => ?_
  simp only [Fragment.parts, Stmt.parts, List.mem_append, List.mem_map, Option.mem_toList,
    List.mem_singleton] at hpart
  rcases hpart with ((⟨s, hs, rfl⟩ | ⟨e, he, rfl⟩) | ⟨e, he, rfl⟩) | rfl
  · exact hstart s hs
  · exact hcond e he
  · exact hstep e he
  · exact hbody

end DrawsAt

/-- Every parser keeps its promise, with any fuel. -/
theorem drawsAt : ∀ n, DrawsAt P n
  | 0 => drawsAt_zero
  | n + 1 =>
    have h := drawsAt n
    { expression := h.expression_succ
      ternary := h.ternary_succ
      chain := fun level => (h.operand level).bind fun left hleft => h.chainRest level left hleft
      chainRest := h.chainRest_succ
      operand := h.operand_succ
      unary := h.unary_succ
      callRest := h.callRest_succ
      arguments := h.arguments_succ
      argumentsFrom := h.argumentsFrom_succ
      primary := h.primary_succ
      parameterNames := h.parameterNames_succ
      functionTail := h.functionTail_succ
      function := h.function_succ
      block := h.block_succ
      blockBody := fun _ hdone => .after .peek fun _ _ => .ite (.done_reverse hdone)
        (h.round hdone h.blockBody)
      declaration := h.declaration_succ
      classDecl := h.classDecl_succ
      members := h.members_succ
      variableDecl := h.variableDecl_succ
      statement := h.statement_succ
      branch := h.branch_succ
      forLoop := h.forLoop_succ
      expressionStmt := h.expressionStmt_succ
      program := fun _ hdone => .after .peek fun _ _ => .ite (.done_reverse hdone)
        (h.round hdone h.program) }

end Parser

/-! ## Sources -/

open Treewalk.Parser in
/-- Whatever the source, the identities of the statements that survive are new and all different, the
statements hold tokens of the source only, and a fault that is not the scanner's is at a token of the source. -/
theorem Parsed.ofSource_draws (n : NodeId) (source : Bytes) :
    Treewalk.Numbered (Stmt.nodesAll (ofSource n source).stmts) n (ofSource n source).nextId ∧
      (Fragment.list (ofSource n source).stmts).Throughout (· ∈ (Token.scan source).tokens) ∧
      ∀ d ∈ (ofSource n source).faults,
        d ∈ (Token.scan source).faults ∨ d.At (· ∈ (Token.scan source).tokens) := by
  obtain ⟨ts, e, htokens, he, -⟩ := Token.scan_tokens source
  have hclosed : closed (Token.scan source).tokens = (Token.scan source).tokens := by
    rw [htokens, closed, List.getLast?_concat]
    simp [he]
  have hsupply : Supply (· ∈ (Token.scan source).tokens) (Token.scan source).tokens :=
    ⟨fun _ ht => ht, e, by simp [htokens], he⟩
  have hrun := (drawsAt (fuelFor (Token.scan source).tokens)).program [] (List.forall_mem_nil _)
    { rest := (Token.scan source).tokens, nextId := n } n hsupply (.nil n)
  unfold ofSource ofTokens
  simp only [hclosed]
  split at hrun
  next ss s' heq =>
    obtain ⟨hkept, hids, hss⟩ := hrun
    rw [heq]
    refine ⟨hids, Fragment.throughout_list hss, fun d hd => ?_⟩
    rcases List.mem_append.1 hd with hd | hd
    · exact .inl hd
    · exact .inr ((hkept.faults d (List.mem_reverse.1 hd)).resolve_left List.not_mem_nil)
  next stop s' heq =>
    obtain ⟨hkept, -⟩ := hrun
    rw [heq]
    refine ⟨(Numbered.nil n).mono hkept.le, Fragment.throughout_list (List.forall_mem_nil _), fun d hd => ?_⟩
    rcases List.mem_append.1 hd with hd | hd
    · exact .inl hd
    · exact .inr ((hkept.faults d (List.mem_reverse.1 hd)).resolve_left List.not_mem_nil)

end Treewalk
