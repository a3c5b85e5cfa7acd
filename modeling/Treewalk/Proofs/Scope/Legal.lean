import Treewalk.Proofs.Scope.Steps
import Mathlib.Logic.Relation

/-!
# What the check accepts

Which programs are legal is said of the text alone. Every piece of a program lies in loops, functions and
methods, innermost first (`Lies`). A program is `Legal` if

* no scope declares a name twice, where the parameters of a function and what its body declares are in one
  scope and names outside all scopes are free;
* every return lies in a function, and the innermost one is not an initializer;
* every exit from a round of a loop lies in a loop that is inside the innermost function;
* every use of the receiver lies in a method.

The check keeps scopes, a kind of function and two marks while it goes through the tree. `Judges` says of a
step which names it declares and when it finds no fault, and each form of tree is a composition of such
steps.

Main result: the check finds no fault exactly in legal programs (`Resolution.faultless_iff_legal`).
-/

namespace Treewalk

open Scope

/-! ## The text -/

/-- What a piece of a program may lie in. -/
inductive Enclosure where
  /-- The body of a loop. -/
  | loop
  /-- The body of a function that is no method. -/
  | function
  /-- The body of a method of this name. -/
  | method (name : Bytes)
deriving DecidableEq, Repr

namespace Enclosure

/-- Functions and methods; what is outside of them does not count for exits. -/
def isFunction : Enclosure → Bool
  | loop => false
  | function | method _ => true

end Enclosure

/-- The parts of an expression, each with what it lies in. -/
def Expr.enclosed (π : List Enclosure) : Expr → List (List Enclosure × Fragment)
  | .literal _ _ | .ident _ _ | .update _ _ _ _ _ | .this _ _ => []
  | .group _ _ e | .unary _ _ _ e | .assign _ _ e | .compound _ _ _ _ e | .updateGet _ e _ _ _ _
  | .get _ e _ => [(π, .expr e)]
  | .binary _ _ _ l r | .logical _ _ _ l r | .updateIndex _ l _ r _ _ _ | .index _ l _ r
  | .set _ l _ r => [(π, .expr l), (π, .expr r)]
  | .ternary _ _ c y n => [(π, .expr c), (π, .expr y), (π, .expr n)]
  | .call _ c _ args => (π, .expr c) :: args.map fun e => (π, .expr e)
  | .array _ _ es => es.map fun e => (π, .expr e)
  | .lambda _ _ _ body => [(.function :: π, .list body)]

/-- The parts of a statement, each with what it lies in. -/
def Stmt.enclosed (π : List Enclosure) : Stmt → List (List Enclosure × Fragment)
  | .expression _ e | .print _ e => [(π, .expr e)]
  | .declare _ _ value | .result _ value => value.toList.map fun e => (π, .expr e)
  | .block _ body => [(π, .list body)]
  | .branch _ cond yes no => (π, .expr cond) :: (π, .stmt yes) :: no.toList.map fun s => (π, .stmt s)
  | .loop _ cond body => [(π, .expr cond), (.loop :: π, .stmt body)]
  | .forLoop _ start cond step body =>
    (start.toList.map fun s => (π, .stmt s)) ++ (cond.toList.map fun e => (π, .expr e))
      ++ (step.toList.map fun e => (π, .expr e)) ++ [(.loop :: π, .stmt body)]
  | .leave _ | .skip _ => []
  | .function d => [(.function :: π, .list d.body)]
  | .classDecl _ _ fields methods =>
    (fields.map fun f => (π, .expr f.value)) ++
      methods.map fun f => (.method f.name.lexeme :: π, .list f.body)

/-- The parts of a piece, each with what it lies in. -/
def Fragment.enclosed (π : List Enclosure) : Fragment → List (List Enclosure × Fragment)
  | .expr e => e.enclosed π
  | .stmt s => s.enclosed π
  | .list ss => ss.map fun s => (π, .stmt s)

/-- From a piece to one of its parts. -/
def PartOf (a b : List Enclosure × Fragment) : Prop := b ∈ a.2.enclosed a.1

/-- A piece lies in a program, with these enclosures around it, innermost first. -/
def Lies (program : List Stmt) (π : List Enclosure) (p : Fragment) : Prop :=
  Relation.ReflTransGen PartOf ([], .list program) (π, p)

/-- The names that a statement declares in the scope it stands in. -/
def Stmt.declares : Stmt → List Token
  | .declare _ name _ => [name]
  | .function d => [d.name]
  | .classDecl _ name _ _ => [name]
  | .branch _ _ yes none => yes.declares
  | .branch _ _ yes (some no) => yes.declares ++ no.declares
  | .loop _ _ body => body.declares
  | _ => []

theorem Stmt.declares_branch (pos : Position) (cond : Expr) (yes : Stmt) (no : Option Stmt) :
    (Stmt.branch pos cond yes no).declares = yes.declares ++ no.toList.flatMap Stmt.declares := by
  cases no with
  | none => simp [Stmt.declares]
  | some s => simp [Stmt.declares]

/-- The names that statements declare in the scope they stand in. -/
def Stmt.declaresAll (stmts : List Stmt) : List Token := stmts.flatMap Stmt.declares

/-- The names that the header of a loop declares. -/
def Stmt.declaresHeader (start : Option Stmt) (body : Stmt) : List Token :=
  start.toList.flatMap Stmt.declares ++ body.declares

/-- The names of a function's scope. -/
def Function.declares (d : Function) : List Token := d.params ++ Stmt.declaresAll d.body

/-- The names of each scope that a piece itself opens. The scope of a class's receiver has no other name. -/
def Fragment.scopes : Fragment → List (List Token)
  | .stmt (.block _ body) => [Stmt.declaresAll body]
  | .stmt (.forLoop _ start _ _ body) => [Stmt.declaresHeader start body]
  | .stmt (.function d) => [d.declares]
  | .stmt (.classDecl _ _ _ methods) => methods.map Function.declares
  | .expr (.lambda _ _ params body) => [params ++ Stmt.declaresAll body]
  | _ => []

/-- No two of these names are spelled alike. -/
def Distinct (names : List Token) : Prop := (names.map (·.lexeme)).Nodup

/-- The innermost function is one that may be returned from. -/
def MayReturn (π : List Enclosure) : Prop :=
  ∃ f, π.find? Enclosure.isFunction = some f ∧ f ≠ .method initName

/-- There is a loop around, inside the innermost function. -/
def MayExit (π : List Enclosure) : Prop := .loop ∈ π.takeWhile fun f => !f.isFunction

/-- There is a method around. -/
def HasReceiver (π : List Enclosure) : Prop := ∃ name, .method name ∈ π

/-- What a program must keep to. -/
structure Legal (program : List Stmt) : Prop where
  distinct : ∀ π p, Lies program π p → ∀ names ∈ p.scopes, Distinct names
  returns : ∀ π keyword value, Lies program π (.stmt (.result keyword value)) → MayReturn π
  leaves : ∀ π keyword, Lies program π (.stmt (.leave keyword)) → MayExit π
  skips : ∀ π keyword, Lies program π (.stmt (.skip keyword)) → MayExit π
  receivers : ∀ π id keyword, Lies program π (.expr (.this id keyword)) → HasReceiver π

/-! ## Piece by piece -/

/-- A piece itself keeps to the rules. -/
def Fragment.Allowed (π : List Enclosure) (p : Fragment) : Prop :=
  (∀ names ∈ p.scopes, Distinct names) ∧
    match p with
    | .stmt (.result _ _) => MayReturn π
    | .stmt (.leave _) | .stmt (.skip _) => MayExit π
    | .expr (.this _ _) => HasReceiver π
    | _ => True

/-- A piece and all that lies in it keep to the rules. -/
def Fragment.AllowedIn (π : List Enclosure) (p : Fragment) : Prop :=
  ∀ π' q, Relation.ReflTransGen PartOf (π, p) (π', q) → q.Allowed π'

theorem Fragment.allowedIn_iff {π : List Enclosure} {p : Fragment} :
    p.AllowedIn π ↔ p.Allowed π ∧ ∀ part ∈ p.enclosed π, part.2.AllowedIn part.1 := by
  constructor
  · intro h
    exact ⟨h π p .refl, fun part hpart π' q hlies => h π' q (.head hpart hlies)⟩
  · rintro ⟨h, hparts⟩ π' q hlies
    rcases hlies.cases_head with heq | ⟨part, hpart, hlies⟩
    · obtain ⟨rfl, rfl⟩ := Prod.mk.inj heq
      exact h
    · exact hparts part hpart π' q hlies

/-- The parts of a piece, where the rest of a list is one part. -/
def Fragment.inward (π : List Enclosure) : Fragment → List (List Enclosure × Fragment)
  | .list (s :: ss) => [(π, .stmt s), (π, .list ss)]
  | p => p.enclosed π

theorem Fragment.allowedIn_iff_inward {π : List Enclosure} {p : Fragment} :
    p.AllowedIn π ↔ p.Allowed π ∧ ∀ part ∈ p.inward π, part.2.AllowedIn part.1 := by
  cases p with
  | expr e => exact allowedIn_iff
  | stmt s => exact allowedIn_iff
  | list ss =>
    cases ss with
    | nil => exact allowedIn_iff
    | cons s ss =>
      have hrest := allowedIn_iff (π := π) (p := .list ss)
      rw [allowedIn_iff]
      simp [Allowed, scopes, enclosed, inward, hrest]

/-- The parts are those of the text. -/
theorem Fragment.inward_eq_parts (π : List Enclosure) (Γ : Environs) (p : Fragment) :
    (p.inward π).map Prod.snd = (p.parts Γ).map Prod.snd := by
  cases p with
  | expr e => cases e <;> simp [inward, enclosed, Expr.enclosed, parts, Expr.parts]
  | stmt s => cases s <;> simp [inward, enclosed, Stmt.enclosed, parts, Stmt.parts, Function.comp_def]
  | list ss => cases ss <;> simp [inward, enclosed, parts]

theorem Fragment.exists_inward {Γ : Environs} {p : Fragment} {part : Environs × Fragment}
    (h : part ∈ p.parts Γ) (π : List Enclosure) : ∃ π', (π', part.2) ∈ p.inward π := by
  have hmem := List.mem_map_of_mem (f := Prod.snd) h
  rw [← inward_eq_parts π Γ] at hmem
  obtain ⟨⟨π', q⟩, hpart, rfl⟩ := List.mem_map.1 hmem
  exact ⟨π', hpart⟩

theorem Fragment.exists_part {π : List Enclosure} {p : Fragment} {part : List Enclosure × Fragment}
    (h : part ∈ p.inward π) (Γ : Environs) : ∃ Δ, (Δ, part.2) ∈ p.parts Γ := by
  have hmem := List.mem_map_of_mem (f := Prod.snd) h
  rw [inward_eq_parts π Γ] at hmem
  obtain ⟨⟨Δ, q⟩, hpart, rfl⟩ := List.mem_map.1 hmem
  exact ⟨Δ, hpart⟩

theorem legal_iff_allowedIn (program : List Stmt) :
    Legal program ↔ (Fragment.list program).AllowedIn [] := by
  constructor
  · intro h π p hlies
    refine ⟨h.distinct π p hlies, ?_⟩
    split
    · exact h.returns _ _ _ hlies
    · exact h.leaves _ _ hlies
    · exact h.skips _ _ hlies
    · exact h.receivers _ _ _ hlies
    · trivial
  · intro h
    exact
      { distinct := fun π p hlies => (h π p hlies).1
        returns := fun π _ _ hlies => (h π _ hlies).2
        leaves := fun π _ hlies => (h π _ hlies).2
        skips := fun π _ hlies => (h π _ hlies).2
        receivers := fun π _ _ hlies => (h π _ hlies).2 }

/-! ## Steps of the check -/

/-- The names can be declared in the innermost scope. -/
def Scope.Free : List (List (Token × Origin)) → List (Token × Origin) → Prop
  | [], _ => True
  | names :: _, ds => (ds.map (·.1.lexeme)).Nodup ∧ ∀ d ∈ ds, ∀ n ∈ names, n.1.lexeme ≠ d.1.lexeme

theorem Scope.free_nil (scopes : List (List (Token × Origin))) : Free scopes [] := by
  cases scopes <;> simp [Free]

theorem Scope.free_append (scopes : List (List (Token × Origin))) (ds ds' : List (Token × Origin)) :
    Free scopes (ds ++ ds') ↔ Free scopes ds ∧ Free (scopes.modifyHead (· ++ ds)) ds' := by
  cases scopes with
  | nil => simp [Free]
  | cons names outer =>
    simp only [Free, List.modifyHead_cons, List.map_append, List.nodup_append, List.mem_append]
    constructor
    · rintro ⟨⟨hds, hds', hapart⟩, hfree⟩
      refine ⟨⟨hds, fun d hd => hfree d (.inl hd)⟩, hds', fun d hd n hn => ?_⟩
      rcases hn with hn | hn
      · exact hfree d (.inr hd) n hn
      · exact hapart _ (List.mem_map_of_mem hn) _ (List.mem_map_of_mem hd)
    · rintro ⟨⟨hds, hfree⟩, hds', hfree'⟩
      refine ⟨⟨hds, hds', ?_⟩, fun d hd n hn => ?_⟩
      · intro a ha b hb
        obtain ⟨n, hn, rfl⟩ := List.mem_map.1 ha
        obtain ⟨d, hd, rfl⟩ := List.mem_map.1 hb
        exact hfree' d hd n (.inr hn)
      · rcases hd with hd | hd
        · exact hfree d hd n hn
        · exact hfree' d hd n (.inl hn)

/-- A step that comes to its end and finds no fault. -/
def Scope.Clean (c : Check Unit) (s s' : State) : Prop := c s = .ok () s' ∧ s'.faults = s.faults

namespace Scope

variable {c c' : Check Unit} {s s' : State}

/-- Nothing was found in either of two steps if nothing was found in both. -/
theorem clean_bind (hc : Adds c) (hc' : Adds c') {s'' : State} :
    Clean (c >>= fun _ => c') s s'' ↔ ∃ s', Clean c s s' ∧ Clean c' s' s'' := by
  constructor
  · rintro ⟨hrun, hfaults⟩
    obtain ⟨s', hfirst, hsecond⟩ := Finds.bind_eq_ok hrun
    obtain ⟨new, hnew⟩ := hc.faults s
    obtain ⟨new', hnew'⟩ := hc'.faults s'
    rw [hfirst, final] at hnew
    rw [hsecond, final] at hnew'
    have hlength : (new' ++ (new ++ s.faults)).length = s.faults.length := by
      rw [← hnew, ← hnew', hfaults]
    simp only [List.length_append] at hlength
    have hnone : new = [] := List.eq_nil_of_length_eq_zero (by omega)
    have hnone' : new' = [] := List.eq_nil_of_length_eq_zero (by omega)
    subst hnone hnone'
    exact ⟨s', ⟨hfirst, hnew⟩, hsecond, hnew'⟩
  · rintro ⟨s', ⟨hfirst, hfaults⟩, hsecond, hfaults'⟩
    refine ⟨?_, hfaults'.trans hfaults⟩
    simp only [Bind.bind, EStateM.bind, hfirst, hsecond]

theorem clean_within : Clean (within c) s s' ↔
    ∃ s₁, Clean c { s with scopes := [] :: s.scopes } s₁ ∧ s' = s₁.close := by
  unfold Clean within
  cases c { s with scopes := [] :: s.scopes } with
  | error d s₁ => simp
  | ok u s₁ =>
    simp only [EStateM.Result.ok.injEq, true_and]
    constructor
    · rintro ⟨rfl, hfaults⟩
      exact ⟨s₁, ⟨rfl, hfaults⟩, rfl⟩
    · rintro ⟨_, ⟨rfl, hfaults⟩, rfl⟩
      exact ⟨rfl, hfaults⟩

/-- A fault that was recorded was found. -/
theorem clean_recording (hc : Adds c) : Clean (recording c) s s' ↔ Clean c s s' := by
  obtain ⟨new, hnew⟩ := hc.faults s
  unfold Clean recording
  cases hrun : c s with
  | ok u s₁ => rfl
  | error d s₁ =>
    rw [hrun, final] at hnew
    simp only [reduceCtorEq, false_and, iff_false, EStateM.Result.ok.injEq, true_and]
    rintro ⟨rfl, hfaults⟩
    have hlength := congrArg List.length hfaults
    simp only [hnew, List.length_cons, List.length_append] at hlength
    omega

end Scope

/-- A step finds no fault exactly if `Q` holds and the names that it declares are free, and then it has
declared them. -/
structure Judges (c : Check Unit) (ds : List (Token × Origin)) (Q : Prop) : Prop where
  adds : Adds c
  accepts : ∀ s, Q → Free (s.scopes.map declared) ds → ∃ s', Clean c s s'
  clean : ∀ s s', Clean c s s' → Q ∧ Free (s.scopes.map declared) ds ∧
    s'.scopes.map declared = (s.scopes.map declared).modifyHead (· ++ ds)

namespace Judges

variable {c c' : Check Unit} {ds ds' : List (Token × Origin)} {Q Q' : Prop}

theorem of_eq (h : Judges c ds Q) (hds : ds = ds') : Judges c ds' Q := hds ▸ h

theorem congr (h : Judges c ds Q) (hQ : Q ↔ Q') : Judges c ds Q' :=
  ⟨h.adds, fun s hq => h.accepts s (hQ.2 hq), fun s s' hrun => (h.clean s s' hrun).imp_left hQ.1⟩

/-- One step behind the other. -/
theorem andThen (h : Judges c ds Q) (h' : Judges c' ds' Q') :
    Judges (c >>= fun _ => c') (ds ++ ds') (Q ∧ Q') := by
  refine ⟨adds_stable.bind h.adds fun _ => h'.adds, ?_, ?_⟩
  · intro s ⟨hq, hq'⟩ hfree
    rw [free_append] at hfree
    obtain ⟨s', hrun⟩ := h.accepts s hq hfree.1
    have hfree' := hfree.2
    rw [← (h.clean s s' hrun).2.2] at hfree'
    obtain ⟨s'', hrun'⟩ := h'.accepts s' hq' hfree'
    exact ⟨s'', (clean_bind h.adds h'.adds).2 ⟨s', hrun, hrun'⟩⟩
  · intro s s'' hrun
    obtain ⟨s', hrun, hrun'⟩ := (clean_bind h.adds h'.adds).1 hrun
    obtain ⟨hq, hfree, hnames⟩ := h.clean s s' hrun
    obtain ⟨hq', hfree', hnames'⟩ := h'.clean s' s'' hrun'
    rw [hnames] at hfree' hnames'
    refine ⟨⟨hq, hq'⟩, (free_append _ _ _).2 ⟨hfree, hfree'⟩, ?_⟩
    rw [hnames']
    cases s.scopes <;> simp

/-- A step without faults that keeps the names of all scopes. -/
theorem of_quiet (hc : Adds c) (h : ∀ s, ∃ s', Clean c s s' ∧ s'.scopes.map declared = s.scopes.map declared) :
    Judges c [] True := by
  refine ⟨hc, fun s _ _ => (h s).imp fun _ hs' => hs'.1, fun s s' hrun => ⟨trivial, free_nil _, ?_⟩⟩
  obtain ⟨s₁, ⟨hrun₁, -⟩, hnames⟩ := h s
  rw [hrun.1] at hrun₁
  cases hrun₁
  rw [hnames]
  cases s.scopes <;> simp

theorem nothing : Judges (pure ()) [] True :=
  of_quiet (adds_stable.pure ()) fun s => ⟨s, ⟨rfl, rfl⟩, rfl⟩

theorem warned (w : Diagnostic) : Judges (warn w) [] True :=
  of_quiet (adds_stable.warn w) fun _ => ⟨_, ⟨rfl, rfl⟩, rfl⟩

theorem defined (name : Token) : Judges (define name) [] True := by
  refine of_quiet (adds_stable.define name) fun s => ?_
  unfold Clean define
  cases hscopes : s.scopes with
  | nil => exact ⟨s, ⟨rfl, rfl⟩, by rw [hscopes]⟩
  | cons scope outer => exact ⟨_, ⟨rfl, rfl⟩, by simp only [List.map_cons, declared_ready]⟩

theorem used (ctx : Context) (id : NodeId) (use : Use) (name : Token) :
    Judges (useName ctx id use name) [] True := by
  refine of_quiet (adds_stable.useName ctx id use name) fun s => ?_
  unfold Clean useName
  cases distance? ctx.outside name.lexeme s.scopes with
  | none => exact ⟨s, ⟨rfl, rfl⟩, rfl⟩
  | some d => exact ⟨_, ⟨rfl, rfl⟩, map_declared_modify (declared_used name.lexeme) d s.scopes⟩

theorem required (ok : Bool) (keyword : Token) (message : String) :
    Judges (require ok keyword message) [] (ok = true) := by
  cases ok with
  | true => exact nothing.congr (by simp)
  | false =>
    refine ⟨adds_stable.require false keyword message, nofun, ?_⟩
    rintro s s' ⟨hrun, -⟩
    cases hrun

theorem declared (name : Token) (origin : Origin) :
    Judges (Scope.declare name origin) [(name, origin)] True := by
  have htaken : ∀ scope : Scope, scope.any (·.name.lexeme == name.lexeme) = true ↔
      ¬ ∀ n ∈ Scope.declared scope, n.1.lexeme ≠ name.lexeme := by
    intro scope
    simp [Scope.declared]
  refine ⟨adds_stable.declare name origin, ?_, ?_⟩
  · intro s _ hfree
    unfold Clean Scope.declare
    cases hscopes : s.scopes with
    | nil => exact ⟨s, rfl, rfl⟩
    | cons scope outer =>
      rw [hscopes, List.map_cons, Free] at hfree
      have hnew : ¬ scope.any (·.name.lexeme == name.lexeme) = true := fun h =>
        (htaken scope).1 h (hfree.2 _ List.mem_cons_self)
      simp only [if_neg hnew]
      exact ⟨_, rfl, rfl⟩
  · rintro s s' ⟨hrun, -⟩
    unfold Scope.declare at hrun
    cases hscopes : s.scopes with
    | nil =>
      simp only [hscopes, EStateM.Result.ok.injEq, true_and] at hrun
      subst hrun
      simp [hscopes, Free]
    | cons scope outer =>
      simp only [hscopes] at hrun
      split at hrun
      · cases hrun
      · rename_i hnew
        simp only [EStateM.Result.ok.injEq, true_and] at hrun
        subst hrun
        refine ⟨trivial, ⟨List.nodup_singleton _, ?_⟩, by simp [Scope.declared]⟩
        rintro d hd
        rw [List.mem_singleton.1 hd]
        exact not_not.1 fun h => hnew ((htaken scope).2 h)

theorem declaredAll (ps : List Token) :
    Judges (declareAll ps) (ps.map fun p => (p, .parameter)) True := by
  induction ps with
  | nil => exact nothing
  | cons p ps ih =>
    exact ((declared p .parameter).andThen ((defined p).andThen ih)).congr (by simp)

/-- The number of open scopes makes no difference to what is accepted. -/
theorem measured {f : Nat → Check Unit} (h : ∀ n, Judges (f n) ds Q) : Judges (depth >>= f) ds Q :=
  ⟨adds_stable.bind adds_stable.depth fun n => (h n).adds,
    fun s => (h s.scopes.length).accepts s, fun s s' => (h s.scopes.length).clean s s'⟩

/-- A scope of its own declares nothing outside, and no name twice inside. -/
theorem inside (h : Judges c ds Q) : Judges (within c) [] (Q ∧ (ds.map (·.1.lexeme)).Nodup) := by
  refine ⟨adds_stable.within h.adds, ?_, ?_⟩
  · rintro s ⟨hq, hnodup⟩ -
    have hfree : Free ((([] : Scope) :: s.scopes).map Scope.declared) ds :=
      ⟨hnodup, fun _ _ _ hn => absurd hn List.not_mem_nil⟩
    obtain ⟨s₁, hs₁⟩ := h.accepts { s with scopes := [] :: s.scopes } hq hfree
    exact ⟨s₁.close, clean_within.2 ⟨s₁, hs₁, rfl⟩⟩
  · intro s s' hclean
    obtain ⟨s₁, hs₁, rfl⟩ := clean_within.1 hclean
    obtain ⟨hq, hfree, hnames⟩ := h.clean _ _ hs₁
    refine ⟨⟨hq, hfree.1⟩, free_nil _, ?_⟩
    have htail := congrArg List.tail hnames
    rw [List.map_cons, List.modifyHead_cons, List.tail_cons, ← List.map_tail] at htail
    rw [show s₁.close.scopes = s₁.scopes.tail from rfl, htail]
    cases s.scopes <;> simp

/-- The fault of a statement would be on record. -/
theorem recorded (h : Judges c ds Q) : Judges (recording c) ds Q := by
  refine ⟨adds_stable.recording h.adds, fun s hq hfree => ?_, fun s s' hclean => ?_⟩
  · exact (h.accepts s hq hfree).imp fun s' => (clean_recording h.adds).2
  · exact h.clean s s' ((clean_recording h.adds).1 hclean)

end Judges

/-! ## What is around -/

/-- What the check remembers about the surroundings is what the text says. -/
structure Scope.Context.Agrees (ctx : Context) (π : List Enclosure) : Prop where
  body : (ctx.body ≠ .none ∧ ctx.body ≠ .initializer) ↔ MayReturn π
  loop : ctx.inLoop = true ↔ MayExit π
  receiver : ctx.inClass = true ↔ HasReceiver π

namespace Scope.Context.Agrees

variable {ctx : Context} {π : List Enclosure}

theorem start : ({} : Context).Agrees [] := by
  constructor <;> simp [MayReturn, MayExit, HasReceiver]

theorem enterLoop (h : ctx.Agrees π) : Context.Agrees { ctx with inLoop := true } (.loop :: π) := by
  constructor
  · simpa [MayReturn, Enclosure.isFunction] using h.body
  · simp [MayExit, Enclosure.isFunction]
  · simpa [HasReceiver] using h.receiver

theorem enterFunction (h : ctx.Agrees π) (n : Nat) :
    (ctx.enter .function n).Agrees (.function :: π) := by
  constructor
  · simp [Context.enter, MayReturn, Enclosure.isFunction]
  · simp [Context.enter, MayExit, Enclosure.isFunction]
  · simpa [Context.enter, HasReceiver] using h.receiver

theorem enterMethod (name : Bytes) (n : Nat) (hclass : ctx.inClass = true) :
    (ctx.enter (if name == initName then .initializer else .function) n).Agrees (.method name :: π) := by
  constructor
  · by_cases hinit : name = initName <;> simp [Context.enter, MayReturn, Enclosure.isFunction, hinit]
  · simp [Context.enter, MayExit, Enclosure.isFunction]
  · simp [Context.enter, HasReceiver, hclass]

end Scope.Context.Agrees

/-! ## Along the tree -/

namespace Judges

variable {c : Check Unit} {ds : List (Token × Origin)} {Q : Prop} {π : List Enclosure}

/-- A piece is judged by itself and by its parts. -/
theorem piece {p : Fragment} (h : Judges c ds Q)
    (hQ : Q ↔ p.Allowed π ∧ ∀ part ∈ p.enclosed π, part.2.AllowedIn part.1) : Judges c ds (p.AllowedIn π) :=
  h.congr (hQ.trans Fragment.allowedIn_iff.symm)

/-- The parameters and the body of a function are in one scope. -/
theorem function {ctx : Context} {kind : Body} {params : List Token} {body : List Stmt}
    (h : ∀ n, Judges (Stmt.checkAll (ctx.enter kind n) false body)
      ((Stmt.declaresAll body).map fun t => (t, .local)) Q) :
    Judges (do
      let inner := ctx.enter kind (← depth)
      within do
        declareAll params
        Stmt.checkAll inner false body) [] (Q ∧ Distinct (params ++ Stmt.declaresAll body)) := by
  refine measured fun n => (((declaredAll params).andThen (h n)).inside).congr ?_
  simp [Distinct, Function.comp_def]

end Judges

mutual

theorem Expr.check_judges : ∀ (e : Expr) {ctx : Context} {π : List Enclosure}, ctx.Agrees π →
    Judges (e.check ctx) [] ((Fragment.expr e).AllowedIn π)
  | .literal _ _, _, _, _ => by
    rw [Expr.check]
    exact Judges.nothing.piece (by simp [Fragment.Allowed, Fragment.scopes, Fragment.enclosed, Expr.enclosed])
  | .group _ _ e, _, _, h | .unary _ _ _ e, _, _, h | .updateGet _ e _ _ _ _, _, _, h
  | .get _ e _, _, _, h => by
    rw [Expr.check]
    exact (Expr.check_judges e h).piece
      (by simp [Fragment.Allowed, Fragment.scopes, Fragment.enclosed, Expr.enclosed])
  | .binary _ _ _ l r, _, _, h | .logical _ _ _ l r, _, _, h | .updateIndex _ l _ r _ _ _, _, _, h
  | .index _ l _ r, _, _, h => by
    rw [Expr.check]
    exact ((Expr.check_judges l h).andThen (Expr.check_judges r h)).piece
      (by simp [Fragment.Allowed, Fragment.scopes, Fragment.enclosed, Expr.enclosed])
  | .ternary _ _ cond yes no, _, _, h => by
    rw [Expr.check]
    exact ((Expr.check_judges cond h).andThen
      ((Expr.check_judges yes h).andThen (Expr.check_judges no h))).piece
      (by simp [Fragment.Allowed, Fragment.scopes, Fragment.enclosed, Expr.enclosed])
  | .set _ object _ value, _, _, h => by
    rw [Expr.check]
    exact ((Expr.check_judges value h).andThen (Expr.check_judges object h)).piece
      (by simp [Fragment.Allowed, Fragment.scopes, Fragment.enclosed, Expr.enclosed, and_comm])
  | .ident _ _, _, _, _ | .update _ _ _ _ _, _, _, _ => by
    rw [Expr.check]
    exact (Judges.used _ _ _ _).piece
      (by simp [Fragment.Allowed, Fragment.scopes, Fragment.enclosed, Expr.enclosed])
  | .assign _ _ value, _, _, h | .compound _ _ _ _ value, _, _, h => by
    rw [Expr.check]
    exact ((Expr.check_judges value h).andThen (Judges.used _ _ _ _)).piece
      (by simp [Fragment.Allowed, Fragment.scopes, Fragment.enclosed, Expr.enclosed])
  | .call _ callee _ args, _, _, h => by
    rw [Expr.check]
    exact ((Expr.check_judges callee h).andThen (Expr.checkAll_judges args h)).piece
      (by simp [Fragment.Allowed, Fragment.scopes, Fragment.enclosed, Expr.enclosed])
  | .array _ _ elements, _, _, h => by
    rw [Expr.check]
    exact (Expr.checkAll_judges elements h).piece
      (by simp [Fragment.Allowed, Fragment.scopes, Fragment.enclosed, Expr.enclosed])
  | .lambda _ _ params body, _, _, h => by
    rw [Expr.check]
    exact (Judges.function fun n => Stmt.checkAll_judges body false (h.enterFunction n)).piece
      (by simp [Fragment.Allowed, Fragment.scopes, Fragment.enclosed, Expr.enclosed, and_comm])
  | .this _ keyword, _, _, h => by
    rw [Expr.check]
    exact ((Judges.required _ keyword _).andThen (Judges.used _ _ _ _)).piece
      (by simp [Fragment.Allowed, Fragment.scopes, Fragment.enclosed, Expr.enclosed, h.receiver])

theorem Expr.checkAll_judges : ∀ (es : List Expr) {ctx : Context} {π : List Enclosure}, ctx.Agrees π →
    Judges (Expr.checkAll ctx es) [] (∀ e ∈ es, (Fragment.expr e).AllowedIn π)
  | [], _, _, _ => by
    rw [Expr.checkAll]
    exact Judges.nothing.congr (by simp)
  | e :: es, _, _, h => by
    rw [Expr.checkAll]
    exact ((Expr.check_judges e h).andThen (Expr.checkAll_judges es h)).congr (by simp)

theorem Expr.checkOpt_judges : ∀ (e : Option Expr) {ctx : Context} {π : List Enclosure}, ctx.Agrees π →
    Judges (Expr.checkOpt ctx e) [] (∀ v ∈ e, (Fragment.expr v).AllowedIn π)
  | none, _, _, _ => by
    rw [Expr.checkOpt]
    exact Judges.nothing.congr (by simp)
  | some e, _, _, h => by
    rw [Expr.checkOpt]
    exact (Expr.check_judges e h).congr (by simp)

theorem Stmt.check_judges : ∀ (s : Stmt) {ctx : Context} {π : List Enclosure}, ctx.Agrees π →
    Judges (s.check ctx) (s.declares.map fun t => (t, .local)) ((Fragment.stmt s).AllowedIn π)
  | .expression _ e, _, _, h | .print _ e, _, _, h => by
    rw [Stmt.check]
    exact (Expr.check_judges e h).piece
      (by simp [Fragment.Allowed, Fragment.scopes, Fragment.enclosed, Stmt.enclosed])
  | .declare _ name value, _, _, h => by
    rw [Stmt.check]
    exact ((Judges.declared name .local).andThen
      ((Expr.checkOpt_judges value h).andThen (Judges.defined name))).piece
      (by simp [Fragment.Allowed, Fragment.scopes, Fragment.enclosed, Stmt.enclosed])
  | .block _ body, _, _, h => by
    rw [Stmt.check]
    exact (Stmt.checkAll_judges body false h).inside.piece
      (by simp [Fragment.Allowed, Fragment.scopes, Fragment.enclosed, Stmt.enclosed, Distinct,
        Function.comp_def, and_comm])
  | .branch _ cond yes no, _, _, h => by
    rw [Stmt.check]
    exact (((Expr.check_judges cond h).andThen
      ((Stmt.check_judges yes h).andThen (Stmt.checkOpt_judges no h))).of_eq
      (by simp [Stmt.declares_branch])).piece
      (by simp [Fragment.Allowed, Fragment.scopes, Fragment.enclosed, Stmt.enclosed])
  | .loop _ cond body, _, _, h => by
    rw [Stmt.check]
    exact ((Expr.check_judges cond h).andThen (Stmt.check_judges body h.enterLoop)).piece
      (by simp [Fragment.Allowed, Fragment.scopes, Fragment.enclosed, Stmt.enclosed])
  | .forLoop _ start cond step body, _, _, h => by
    rw [Stmt.check]
    exact ((Stmt.checkOpt_judges start h).andThen ((Expr.checkOpt_judges cond h).andThen
      ((Expr.checkOpt_judges step h).andThen (Stmt.check_judges body h.enterLoop)))).inside.piece
      (by
        simp only [Fragment.Allowed, Fragment.scopes, Fragment.enclosed, Stmt.enclosed, Distinct,
          Stmt.declaresHeader]
        simp [or_imp, forall_and, Function.comp_def, and_comm, and_assoc])
  | .leave keyword, _, _, h | .skip keyword, _, _, h => by
    rw [Stmt.check]
    exact (Judges.required _ keyword _).piece
      (by simp [Fragment.Allowed, Fragment.scopes, Fragment.enclosed, Stmt.enclosed, h.loop])
  | .result keyword value, _, _, h => by
    rw [Stmt.check]
    exact ((Judges.required _ keyword _).andThen ((Judges.required _ keyword _).andThen
      (Expr.checkOpt_judges value h))).piece
      (by simp [Fragment.Allowed, Fragment.scopes, Fragment.enclosed, Stmt.enclosed, ← h.body, and_assoc])
  | .function (.mk name params body), _, _, h => by
    rw [Stmt.check]
    exact ((Judges.declared name .local).andThen ((Judges.defined name).andThen
      (Judges.function fun n => Stmt.checkAll_judges body false (h.enterFunction n)))).piece
      (by simp [Fragment.Allowed, Fragment.scopes, Fragment.enclosed, Stmt.enclosed, Function.declares,
        Function.params, Function.body, and_comm])
  | .classDecl _ name fields methods, ctx, π, h => by
    rw [Stmt.check]
    have hmethods := ((Judges.declared (receiver name) .receiver).andThen
      ((Judges.defined (receiver name)).andThen
        (@Function.checkAll_judges methods { ctx with inClass := true } π rfl))).inside
    exact ((Judges.declared name .local).andThen ((Judges.defined name).andThen
      ((Field.checkAll_judges fields h).andThen hmethods))).piece
      (by
        simp only [Fragment.Allowed, Fragment.scopes, Fragment.enclosed, Stmt.enclosed]
        simp [or_imp, forall_and, and_comm, and_left_comm])

theorem Stmt.checkOpt_judges : ∀ (s : Option Stmt) {ctx : Context} {π : List Enclosure}, ctx.Agrees π →
    Judges (Stmt.checkOpt ctx s) ((s.toList.flatMap Stmt.declares).map fun t => (t, .local))
      (∀ v ∈ s, (Fragment.stmt v).AllowedIn π)
  | none, _, _, _ => by
    rw [Stmt.checkOpt]
    exact Judges.nothing.congr (by simp)
  | some s, _, _, h => by
    rw [Stmt.checkOpt]
    simpa using Stmt.check_judges s h

theorem Stmt.checkAll_judges : ∀ (ss : List Stmt) (exited : Bool) {ctx : Context} {π : List Enclosure},
    ctx.Agrees π → Judges (Stmt.checkAll ctx exited ss) ((Stmt.declaresAll ss).map fun t => (t, .local))
      ((Fragment.list ss).AllowedIn π)
  | [], _, _, _, _ => by
    rw [Stmt.checkAll]
    exact Judges.nothing.piece (by simp [Fragment.Allowed, Fragment.scopes, Fragment.enclosed])
  | s :: ss, exited, _, π, h => by
    have hpieces : (Fragment.stmt s).AllowedIn π ∧ (Fragment.list ss).AllowedIn π ↔
        (Fragment.list (s :: ss)).AllowedIn π := by
      rw [Fragment.allowedIn_iff_inward (p := .list (s :: ss))]
      simp [Fragment.Allowed, Fragment.scopes, Fragment.inward]
    have hrest := ((Stmt.check_judges s h).recorded.andThen (Stmt.checkAll_judges ss s.exits h)).congr
      hpieces
    rw [← List.map_append] at hrest
    rw [Stmt.checkAll]
    cases exited with
    | false => exact hrest
    | true => exact ((Judges.warned _).andThen hrest).congr (by simp)

theorem Function.checkAll_judges : ∀ (fs : List Function) {ctx : Context} (π : List Enclosure),
    ctx.inClass = true → Judges (Function.checkAll ctx fs) []
      (∀ f ∈ fs, (Fragment.list f.body).AllowedIn (.method f.name.lexeme :: π) ∧ Distinct f.declares)
  | [], _, _, _ => by
    rw [Function.checkAll]
    exact Judges.nothing.congr (by simp)
  | .mk name params body :: fs, ctx, π, h => by
    rw [Function.checkAll]
    have hbody := @Judges.function _ ctx _ params body fun n =>
      Stmt.checkAll_judges body false (Context.Agrees.enterMethod (π := π) name.lexeme n h)
    have hall := hbody.andThen (Function.checkAll_judges fs π h)
    rw [bind_assoc] at hall
    exact hall.congr (by simp [Function.body, Function.name, Function.declares, Function.params])

theorem Field.checkAll_judges : ∀ (fs : List Field) {ctx : Context} {π : List Enclosure}, ctx.Agrees π →
    Judges (Field.checkAll ctx fs) [] (∀ f ∈ fs, (Fragment.expr f.value).AllowedIn π)
  | [], _, _, _ => by
    rw [Field.checkAll]
    exact Judges.nothing.congr (by simp)
  | .mk _ value :: fs, _, _, h => by
    rw [Field.checkAll]
    exact ((Expr.check_judges value h).andThen (Field.checkAll_judges fs h)).congr
      (by simp [Field.value])

end

theorem Resolution.faultless_iff_allowedIn (stmts : List Stmt) :
    (ofProgram stmts).faults = [] ↔ (Fragment.list stmts).AllowedIn [] := by
  have hjudges := Stmt.checkAll_judges stmts false Context.Agrees.start
  obtain ⟨s, hrun, heq⟩ := ofProgram_eq stmts
  rw [heq, List.reverse_eq_nil_iff]
  constructor
  · intro hfaults
    exact (hjudges.clean {} s ⟨hrun, hfaults⟩).1
  · intro hallowed
    obtain ⟨s', hrun', hfaults⟩ := hjudges.accepts {} hallowed trivial
    rw [hrun] at hrun'
    cases hrun'
    exact hfaults

/-- The check finds no fault exactly in legal programs, whatever the statements. -/
theorem Resolution.faultless_iff_legal (stmts : List Stmt) :
    (ofProgram stmts).faults = [] ↔ Legal stmts :=
  (faultless_iff_allowedIn stmts).trans (legal_iff_allowedIn stmts).symm

end Treewalk
