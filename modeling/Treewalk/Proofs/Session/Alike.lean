import Treewalk.Proofs.Machine.Lockstep
import Treewalk.Proofs.Scope.Mentions
import Treewalk.Proofs.Session.Protection
import Treewalk.Session

/-!
# Interpreters that differ in identities and positions only

The code that a store holds is a piece of the programs that were accepted. So if every piece of these
programs is like itself (`Likeness.Fixes`), then so is the store (`Store.Fits.like_self`): this is where a
comparison of two sessions starts.

From there on it is kept by runs: programs that are alike end alike on interpreters that are alike
(`Interpreter.execute_like`).
-/

namespace Treewalk

/-! ## Parameters of functions around a piece -/

/-- The regions around a part are those around the piece, and maybe some more, whose parameters are among the
piece's own words. -/
theorem Fragment.regions_part {Γ Δ : Environs} {p q : Fragment} {P : Token → Prop}
    (hpart : (Δ, q) ∈ p.parts Γ) (hbuilt : p.Built P) (h : ∀ r ∈ Γ.regions, ∀ t ∈ r.params, P t) :
    ∀ r ∈ Δ.regions, ∀ t ∈ r.params, P t := by
  have hopened : ∀ {x}, x ∈ p.opens Γ → ∀ t ∈ x.region.params, P t :=
    fun hx t ht => hbuilt.binders t (params_of_opens hx ht)
  rcases Fragment.regions_step hpart with ⟨hsame, -⟩ | ⟨x, hx, -, hregions | ⟨name, fields, methods, hregions⟩⟩
  · rw [hsame]
    exact h
  · rw [hregions]
    exact List.forall_mem_cons.2 ⟨hopened hx, h⟩
  · rw [hregions]
    exact List.forall_mem_cons.2 ⟨hopened hx, List.forall_mem_cons.2 ⟨nofun, h⟩⟩

theorem Occurs.params {program : List Stmt} {P : Token → Prop}
    (hbuilt : ∀ Γ q, Occurs program Γ q → q.Built P) {Γ : Environs} {q : Fragment} (h : Occurs program Γ q) :
    ∀ r ∈ Γ.regions, ∀ t ∈ r.params, P t := by
  induction h with
  | here => exact nofun
  | part h hpart ih => exact Fragment.regions_part hpart (hbuilt _ _ h) ih

/-! ## Code of programs -/

section

variable {L : Likeness} {programs : List (List Stmt)} {labels : List Region}

theorem Fragment.Built.mono {P Q : Token → Prop} {q : Fragment} (h : q.Built P) (himp : ∀ t, P t → Q t) :
    q.Built Q := by
  cases q with
  | expr e => exact fun t ht => himp t (h t ht)
  | stmt s =>
    obtain ⟨t, ht, hpos⟩ := h.2
    exact ⟨fun t ht => himp t (h.1 t ht), t, himp t ht, hpos⟩
  | list ss => trivial

/-- Every piece of the programs is like itself. -/
def Likeness.Fixes (L : Likeness) (programs : List (List Stmt)) : Prop :=
  ∀ Γ q, Here programs Γ q → q.Built (fun t => L.places t.pos t.pos) ∧
    ∀ e id name, q = .expr e → e.use? = some (id, name) → L.ids id id

namespace Likeness.Fixes

variable (h : L.Fixes programs)

include h

theorem corresponds {Γ : Environs} {q : Fragment} (hq : Here programs Γ q) : q.Corresponds L id id := by
  obtain ⟨program, hmem, hocc⟩ := hq
  exact ⟨Γ, fun Δ r hbelow => h Δ r ⟨program, hmem, hocc.trans hbelow⟩⟩

theorem body {Γ : Environs} {stmts : List Stmt} (hs : Here programs Γ (.list stmts)) :
    List.Forall₂ (Stmt.Like L) stmts stmts := by
  have hlike := Stmt.likeAll_map stmts (h.corresponds hs)
  rwa [Stmt.mapAll_id] at hlike

theorem expr {Γ : Environs} {e : Expr} (he : Here programs Γ (.expr e)) : e.Like L e := by
  have hlike := Expr.like_map e (h.corresponds he)
  rwa [Expr.map_id] at hlike

theorem params {Γ : Environs} {kind : Scope.Body} {ps : List Token} {body : List Stmt}
    (hbody : Here programs (Γ.enterFunction kind ps body) (.list body)) :
    List.Forall₂ (Token.Like L) ps ps := by
  obtain ⟨program, hmem, hocc⟩ := hbody
  have hplaces := hocc.params fun Δ q hq => (h Δ q ⟨program, hmem, hq⟩).1
  rw [Environs.regions_enterFunction] at hplaces
  refine List.forall₂_same.2 fun t ht => ?_
  exact ⟨t.pos, hplaces (.function ps body) List.mem_cons_self t ht, rfl⟩

end Likeness.Fixes

theorem Pointwise.same {α : Type} {R : α → α → Prop} {a : Array α} (h : ∀ x ∈ a, R x x) : Pointwise R a a := by
  refine ⟨rfl, fun i => ?_⟩
  cases hi : a[i]? with
  | none => exact .none
  | some x => exact .some (h x (Array.mem_of_getElem? hi))

/-- A store that holds pieces of programs is like itself, if these are. -/
theorem Store.Fits.like_self {s : Store} (h : s.Fits programs labels) (hfixes : L.Fixes programs)
    (hgiven : ∀ n ∈ s.natives, ∀ e, n.op.Raises e → L.given e) : s.Like L s := by
  refine ⟨rfl, .same fun f hf => ?_, .same fun c hc => ?_, hgiven⟩
  · obtain ⟨-, Γ, kind, -, hbody⟩ := h.functions f hf
    exact ⟨rfl, hfixes.params hbody, hfixes.body hbody, rfl, rfl⟩
  · obtain ⟨Γ, -, hfields, hmethods⟩ := h.classes c hc
    refine ⟨rfl, List.forall₂_same.2 fun m hm => ?_, List.forall₂_same.2 fun f hf => ?_, rfl⟩
    · obtain ⟨-, -, kind, hbody⟩ := hmethods m hm
      exact ⟨rfl, hfixes.params hbody, hfixes.body hbody, rfl, rfl⟩
    · have hvalue := hfixes.expr (hfields f hf)
      cases f
      exact .mk rfl hvalue

/-! ## Runs -/

/-- The same outcome; a fault is at a corresponding place. -/
inductive Outcome.Like (L : Likeness) {α : Type} : Outcome α → Outcome α → Prop
  | done {a} : Outcome.Like L (.done a) (.done a)
  | error {e e'} (he : e.Like L e') : Outcome.Like L (.failed (.runtime e)) (.failed (.runtime e'))
  | plain {message} : Outcome.Like L (.failed (.plain message)) (.failed (.plain message))
  | broken {f} : Outcome.Like L (.broken f) (.broken f)
  | unfinished : Outcome.Like L .unfinished .unfinished

theorem Halt.Like.outcome {α : Type} {h h' : Halt} (hh : h.Like L h') :
    (Interpreter.haltOutcome h : Outcome α).Like L (Interpreter.haltOutcome h') := by
  cases hh with
  | error he => exact .error he
  | plain => exact .plain
  | fault => exact .broken

/-- Interpreters with objects alike that a program sees alike. -/
structure Interpreter.Like (L : Likeness) (i i' : Interpreter) : Prop where
  store : i.store.Like L i'.store
  console : i.console.Like L i'.console

/-- What a run comes to. -/
def Interpreter.finish (i : Interpreter) : Option Machine → Outcome Unit × Interpreter
  | none => (.unfinished, i)
  | some m =>
    match m.control with
    | .halt h => (haltOutcome h, i.after m)
    | _ => (.done (), i.after m)

theorem Interpreter.execute_eq (i : Interpreter) (stmts : List Stmt) :
    i.execute stmts = i.finish (i.machine (.complete .normal) [.program stmts]).run := rfl

theorem Interpreter.finish_some (i : Interpreter) (m : Machine) : (i.finish (some m)).2 = i.after m := by
  unfold finish
  dsimp only
  split <;> rfl

/-- Nothing waits any more, and nothing went wrong. -/
def Machine.hasEnded (m : Machine) : Bool :=
  match m.pending, m.control with
  | [], .complete _ => true
  | _, _ => false

theorem Interpreter.execute_of_hasEnded {i : Interpreter} {stmts : List Stmt} {n : Nat}
    (h : ((i.machine (.complete .normal) [.program stmts]).steps n).hasEnded = true) :
    (i.execute stmts).1 = .done () := by
  generalize hm : (i.machine (.complete .normal) [.program stmts]).steps n = m at h
  unfold Machine.hasEnded at h
  split at h
  · rename_i c hpending hcontrol
    have hfinal : m.isFinal = true := by simp [Machine.isFinal, hpending, hcontrol]
    rw [execute_eq, Machine.run_eq_some_iff.2 ⟨hfinal, n, hm.symm⟩]
    simp only [finish, hcontrol]
  · cases h

/-- Machines alike leave interpreters alike, whatever these were before. -/
theorem Machine.Like.finish {d d' : Distances} {m m' : Machine} (hm : m.Like L none d d' m')
    (i i' : Interpreter) : (i.finish (some m)).1.Like L (i'.finish (some m')).1 ∧
      (i.finish (some m)).2.Like L (i'.finish (some m')).2 := by
  have hafter : (i.after m).Like L (i'.after m') := ⟨hm.store, hm.console⟩
  have hcontrol := hm.control
  unfold Interpreter.finish
  dsimp only
  generalize m.control = c at hcontrol ⊢
  generalize m'.control = c' at hcontrol ⊢
  cases hcontrol with
  | halt hh => exact ⟨hh.outcome, hafter⟩
  | _ => exact ⟨.done, hafter⟩

/-- Runs that end alike leave interpreters alike. -/
theorem Interpreter.Like.finish {d d' : Distances} {i i' : Interpreter} (h : i.Like L i')
    {r r' : Option Machine} (hr : Option.Rel (Machine.Like L none d d') r r') :
    (i.finish r).1.Like L (i'.finish r').1 ∧ (i.finish r).2.Like L (i'.finish r').2 := by
  cases hr with
  | none => exact ⟨.unfinished, h⟩
  | some hm => exact hm.finish i i'

/-- Programs that are alike start alike on interpreters that are alike. -/
theorem Interpreter.Like.start {i i' : Interpreter} (h : i.Like L i') {stmts stmts' : List Stmt}
    (hlike : List.Forall₂ (Stmt.Like L) stmts stmts') :
    (i.machine (.complete .normal) [.program stmts]).Like L none i.distances i'.distances
      (i'.machine (.complete .normal) [.program stmts']) := by
  have hwaits : Waits L none 0 [.program stmts] [.program (stmts' ++ [])] := .program hlike
  rw [List.append_nil] at hwaits
  exact ⟨⟨hwaits, rfl, rfl, h.store, h.console, rfl, rfl⟩, .complete⟩

/-- An accepted program starts with accepted code only. -/
theorem Phase.Fits.start {i : Interpreter} (h : Phase.Fits programs labels (.idle i)) {stmts : List Stmt}
    (hstmts : stmts ∈ programs) :
    (i.machine (.complete .normal) [.program stmts]).Fits programs labels false :=
  ⟨⟨h.1.known, h.2⟩, .complete (c := .normal) (Γ := {}) h.2.globals (.program rfl ⟨stmts, hstmts, .here⟩)⟩

section

variable {i i' : Interpreter} {stmts stmts' : List Stmt} (h : i.Like L i')
  (hagree : i.distances.AgreeOn programs L i'.distances) (hfits : Phase.Fits programs labels (.idle i))
  (hstmts : stmts ∈ programs) (hlike : List.Forall₂ (Stmt.Like L) stmts stmts')

include h hagree hfits hstmts hlike

/-- Programs alike end alike on interpreters alike, if the tables agree on the names that programs use. -/
theorem Interpreter.execute_like :
    (i.execute stmts).1.Like L (i'.execute stmts').1 ∧
      (i.execute stmts).2.Like L (i'.execute stmts').2 := by
  rw [Interpreter.execute_eq, Interpreter.execute_eq]
  exact h.finish ((h.start hlike).run hagree (hfits.start hstmts))

/-- And they are alike at each step. -/
theorem Interpreter.steps_like (n : Nat) :
    (i.after ((i.machine (.complete .normal) [.program stmts]).steps n)).Like L
      (i'.after ((i'.machine (.complete .normal) [.program stmts']).steps n)) := by
  have hthere := (h.start hlike).steps hagree n (hfits.start hstmts) fun _ _ _ => rfl
  exact ⟨hthere.store, hthere.console⟩

end

end

/-! ## Sources -/

/-- A source with faults in its text. -/
theorem Interpreter.compile_of_faults {i : Interpreter} {source : Bytes} {d : Diagnostic} {ds : List Diagnostic}
    (h : (Parsed.ofSource i.nextId source).faults = d :: ds) :
    i.compile source = (⟨.error (.unparsed (Diagnostic.listIncomplete (d :: ds)) (.faults (d :: ds))), []⟩,
      { i with nextId := (Parsed.ofSource i.nextId source).nextId }) := by
  unfold compile
  simp only [h, Failure.ofFaults?]

/-- A source whose text is right: the check decides. -/
theorem Interpreter.compile_of_parsed {i : Interpreter} {source : Bytes} {stmts : List Stmt} {r : Resolution}
    (h : (Parsed.ofSource i.nextId source).faults = []) (hstmts : (Parsed.ofSource i.nextId source).stmts = stmts)
    (hr : Resolution.ofProgram stmts = r) :
    i.compile source =
      (⟨if r.faults = [] then .ok stmts else .error (.faults r.faults), r.warnings⟩,
        { i with
          nextId := (Parsed.ofSource i.nextId source).nextId
          distances := i.distances.insertAll r.uses }) := by
  subst hstmts hr
  unfold compile
  simp only [h, Failure.ofFaults?]
  cases hfaults : (Resolution.ofProgram (Parsed.ofSource i.nextId source).stmts).faults with
  | nil => simp
  | cons d ds => simp

theorem Interpreter.execute_distances (i : Interpreter) (stmts : List Stmt) :
    (i.execute stmts).2.distances = i.distances := by
  unfold execute
  dsimp only
  split
  · rfl
  · split <;> rfl

/-! ## What a session shows -/

/-- What can be seen of a session from outside. -/
structure Sight where
  /-- The console, diagnostics left out. -/
  console : Console
  /-- All objects, code left out. -/
  objects : Store
  /-- The global names in the order of definition, with their values and the texts of these. -/
  globals : List (Bytes × Value × Bytes)

namespace Session

/-- What can be seen of a session now. -/
def sight (s : Session) : Sight where
  console := { s.interpreter.console with err := {} }
  objects := { s.interpreter.store with functions := #[], classes := #[] }
  globals := s.interpreter.globals.map fun b => (b.1, b.2, s.interpreter.store.display b.2)

/-- Interpreters alike look the same. -/
theorem sight_eq {L : Likeness} {s s' : Session} (h : s.interpreter.Like L s'.interpreter) :
    s'.sight = s.sight := by
  have hstore := h.store
  obtain ⟨err, hconsole, -⟩ := h.console
  have hframe : s'.interpreter.store.frame Store.globals = s.interpreter.store.frame Store.globals := by
    rw [hstore.same]
    rfl
  have hdisplay : s'.interpreter.store.display = s.interpreter.store.display := funext hstore.display_eq
  unfold sight Interpreter.globals
  rw [hframe, hdisplay, hconsole, hstore.same]

end Session

end Treewalk
