import Treewalk.Machine.Step
import Treewalk.Proofs.Machine.Frames
import Treewalk.Proofs.Scope.Resolved

/-!
# Machines that run checked programs

A machine runs checked programs (`Machine.Fits`) if everything in it is a piece of one of them, and
every environment that waits for a piece matches the environs of the piece.

**The store** (`Store.Fits`). Functions and classes hold pieces, and their environments match the
environs that these pieces have in the text.

**The stack** (`Stack`). What waits is given a type: whether it takes a value or a completion
(`Awaited`). A completion has environs: which completions may arrive, and which names are bound if it is a
normal one. Each pending part is a suspended form of the text, or restores what its caller had.

**The control** (`Control.Fits`). What happens next is what the top of the stack waits for. A halt
that has no place in a source yet is still above the call that will give it one (`Shielded`).

All of this survives growth of the store (`Stack.mono`).
-/

namespace Treewalk

/-! ## Regions of closures and classes -/

/-- The region that a call of a function enters. -/
def Closure.region (f : Closure) : Region := .function f.params f.body

/-- The region of the methods of a class. -/
def Class.region (c : Class) : Region :=
  .receiver c.name c.fields (c.methods.map fun m => (m.name, m.params, m.body))

section

variable (programs : List (List Stmt)) (labels : List Region)

/-- A piece of one of the programs, with its environs. -/
def Here (Γ : Environs) (p : Fragment) : Prop := ∃ program ∈ programs, Occurs program Γ p

/-! ## Stores -/

variable (s : Store)

/-- A function is a piece of a program, made where its text stands. -/
def Closure.Fits (f : Closure) : Prop :=
  (∀ p ∈ f.params, p.Proper) ∧ ∃ (Γ : Environs) (kind : Scope.Body), Chain labels s f.env Γ.layers ∧
    Here programs (Γ.enterFunction kind f.params f.body) (.list f.body)

/-- A class is a piece of a program, made where its text stands. Its methods have the environment of the
class until they get a receiver. -/
def Class.Fits (c : Class) : Prop :=
  ∃ Γ : Environs, Chain labels s c.env Γ.layers ∧
    (∀ f ∈ c.fields, Here programs Γ (.expr f.value)) ∧
    ∀ m ∈ c.methods, m.env = c.env ∧ (∀ p ∈ m.params, p.Proper) ∧
      ∃ kind, Here programs ((Γ.receive c.region).enterFunction kind m.params m.body) (.list m.body)

/-- All functions and classes are pieces of programs, and every frame has a label. -/
structure Store.Fits : Prop where
  length : labels.length = s.frames.size
  globals : Chain labels s Store.globals []
  functions : ∀ f ∈ s.functions, f.Fits programs labels s
  classes : ∀ c ∈ s.classes, c.Fits programs labels s

/-! ## What waits -/

/-- What a pending part waits for: a value, or a completion in some environs. -/
inductive Awaited where
  | value
  | completion (Γ : Environs)

/-- An expression that waits for the value of a part of it. -/
inductive Expr.Suspends : Expr → Pending → Prop
  | unary {id op t e} : Expr.Suspends (.unary id op t e) (.unary op t)
  | left {id op t l r} : Expr.Suspends (.binary id op t l r) (.left op t r)
  | right {id op t l r v} : Expr.Suspends (.binary id op t l r) (.right op t v)
  | logical {id op t l r} : Expr.Suspends (.logical id op t l r) (.logical op r)
  | ternary {id t c y n} : Expr.Suspends (.ternary id t c y n) (.ternary t y n)
  | assign {id name e} : Expr.Suspends (.assign id name e) (.assign id name)
  | compound {id name op t e v} :
    Expr.Suspends (.compound id name op t e) (.compound id name op t v)
  | indexed {id o t i} : Expr.Suspends (.index id o t i) (.indexed t i .read)
  | index {id o t i v} : Expr.Suspends (.index id o t i) (.index t v .read)
  | indexedStep {id o t i op u b} :
    Expr.Suspends (.updateIndex id o t i op u b) (.indexed t i (.step op u b))
  | indexStep {id o t i op u b v} :
    Expr.Suspends (.updateIndex id o t i op u b) (.index t v (.step op u b))
  | get {id o t} : Expr.Suspends (.get id o t) (.property t .read)
  | getStep {id o t op u b} : Expr.Suspends (.updateGet id o t op u b) (.property t (.step op u b))
  | set {id o t e} : Expr.Suspends (.set id o t e) (.property t (.write e))
  | write {id o t e i} : Expr.Suspends (.set id o t e) (.write t i)
  | callee {id c t args} : Expr.Suspends (.call id c t args) (.callee t args)
  | argument {id c t args v done rest} (h : rest <:+ args) :
    Expr.Suspends (.call id c t args) (.argument t v done rest)
  | element {id t es done rest} (h : rest <:+ es) : Expr.Suspends (.array id t es) (.element done rest)

/-- A statement that waits for a value. -/
inductive Stmt.Suspends : Stmt → Pending → Prop
  | expression {pos e} : Stmt.Suspends (.expression pos e) .discard
  | print {pos e} : Stmt.Suspends (.print pos e) (.print pos)
  | declare {pos t e} : Stmt.Suspends (.declare pos t (some e)) (.declare t)
  | branch {pos c y n} : Stmt.Suspends (.branch pos c y n) (.branch y n)
  | loop {pos c b} : Stmt.Suspends (.loop pos c b) (.loopTest c b)
  | result {t e} : Stmt.Suspends (.result t (some e)) .result

/-- Every completion that may arrive in `Γ'` may arrive in `Γ`. -/
structure Environs.Admits (Γ Γ' : Environs) : Prop where
  leaves : Γ'.inLoop = true → Γ.inLoop = true
  returns : Γ'.body ≠ .none → Γ.body ≠ .none

/-- `Γ'` takes the completions of a statement with the environs `Γ`: the names of a normal one, and all
others, unless the statement is a clause of a loop's header, which has no others. -/
def Environs.Takes (Γ' Γ : Environs) (stmt : Stmt) : Prop :=
  Γ'.layers = (Γ.after stmt).layers ∧ (stmt.isClause = true ∨ Γ'.Admits Γ)

/-- The environs of the clauses behind the first one in a loop's header. -/
def Environs.round (Γ : Environs) (pos : Position) (start : Option Stmt) (cond step : Option Expr)
    (body : Stmt) : Environs :=
  (Γ.enter (.header pos start cond step body)).afterOpt start

/-- Environs in which only normal completions arrive. -/
def Environs.quiet (Γ : Environs) : Environs := { Γ with inLoop := false, body := .none }

/-- The next call in the program that waits comes before anything but calls by the host. -/
def Shielded : List Pending → Prop
  | .site _ _ :: _ => True
  | .depart _ :: rest | .callback _ _ :: rest => Shielded rest
  | _ => False

variable (hosted : Bool)

/-- A halt will get its place: in a run of a program, from a call that waits. -/
def Guarded (pending : List Pending) : Prop := hosted = true ∨ Shielded pending

/-- Pending parts, innermost first, that wait in an environment. A run of the host ends with a value, a run
of a program with a completion. -/
inductive Stack : Awaited → FrameId → List Pending → Prop
  | returned (h : hosted = true) : Stack .value Store.globals []
  | finished (h : hosted = false) : Stack (.completion {}) Store.globals []
  | program {rest} (h : hosted = false) (hrest : Here programs {} (.list rest)) :
    Stack (.completion {}) Store.globals [.program rest]
  | operand {e p Γ env rest} (hp : Expr.Suspends e p) (he : Here programs Γ (.expr e))
    (henv : Chain labels s env Γ.layers) (h : Stack .value env rest) : Stack .value env (p :: rest)
  | statement {stmt p Γ Γ' env rest} (hp : Stmt.Suspends stmt p) (hs : Here programs Γ (.stmt stmt))
    (henv : Chain labels s env Γ.layers) (htakes : Γ'.Takes Γ stmt)
    (h : Stack (.completion Γ') env rest) : Stack .value env (p :: rest)
  | loopBody {pos cond body Γ Γ' env rest} (hs : Here programs Γ (.stmt (.loop pos cond body)))
    (henv : Chain labels s env Γ.layers) (htakes : Γ'.Takes Γ (.loop pos cond body))
    (h : Stack (.completion Γ') env rest) :
    Stack (.completion Γ.enterLoop) env (.loopBody cond body :: rest)
  | forStart {pos start cond step body Γ env rest}
    (hs : Here programs Γ (.stmt (.forLoop pos start cond step body)))
    (h : Stack (.completion (Γ.round pos start cond step body)) env rest) :
    Stack (.completion (Γ.round pos start cond step body).quiet) env (.forStart cond step body :: rest)
  | forTest {pos start cond step body Γ env rest}
    (hs : Here programs Γ (.stmt (.forLoop pos start cond step body)))
    (henv : Chain labels s env (Γ.round pos start cond step body).layers)
    (h : Stack (.completion (Γ.round pos start cond step body)) env rest) :
    Stack .value env (.forTest cond step body :: rest)
  | forBody {pos start cond step body Γ env rest}
    (hs : Here programs Γ (.stmt (.forLoop pos start cond step body)))
    (henv : Chain labels s env (Γ.round pos start cond step body).layers)
    (h : Stack (.completion (Γ.round pos start cond step body)) env rest) :
    Stack (.completion (Γ.round pos start cond step body).enterLoop) env
      (.forBody cond step body :: rest)
  | forStep {pos start cond step body Γ env rest}
    (hs : Here programs Γ (.stmt (.forLoop pos start cond step body)))
    (henv : Chain labels s env (Γ.round pos start cond step body).layers)
    (h : Stack (.completion (Γ.round pos start cond step body)) env rest) :
    Stack .value env (.forStep cond step body :: rest)
  | sequence {stmts Γ env rest} (hs : Here programs Γ (.list stmts))
    (h : Stack (.completion (Γ.afterAll stmts)) env rest) :
    Stack (.completion Γ) env (.sequence stmts :: rest)
  | restore {Γ Γ' env back rest} (hback : Chain labels s back Γ.layers) (hadmits : Γ.Admits Γ')
    (h : Stack (.completion Γ) back rest) : Stack (.completion Γ') env (.restore back :: rest)
  | body {f Γ env back rest} (hΓ : Γ.inLoop = false) (h : Stack .value back rest) :
    Stack (.completion Γ) env (.body f back :: rest)
  | field {object name more cls args env back rest} (hcls : Class.Fits programs labels s cls)
    (hmore : ∀ f ∈ more, f ∈ cls.fields) (hargs : args.length = cls.arity)
    (h : Stack .value back rest) :
    Stack .value env (.field object name more cls args back :: rest)
  | construct {object env rest} (h : Stack .value env rest) :
    Stack .value env (.construct object :: rest)
  | site {paren name env rest} (hparen : paren.Proper) (h : Stack .value env rest) :
    Stack .value env (.site paren name :: rest)
  | depart {depth env rest} (hguard : Guarded hosted rest) (h : Stack .value env rest) :
    Stack .value env (.depart depth :: rest)
  | callback {rescues next env rest} (hguard : Guarded hosted rest) (h : Stack .value env rest) :
    Stack .value env (.callback rescues next :: rest)

/-! ## What happens next -/

/-- A completion may arrive in these environs. -/
def Completion.Fits (env : FrameId) (Γ : Environs) : Completion → Prop
  | .normal => Chain labels s env Γ.layers
  | .leave | .skip => Γ.inLoop = true
  | .result _ => Γ.body ≠ .none

/-- A halt has a place in a source or will get one, and no chain was too short. -/
def Halt.Fits (pending : List Pending) : Halt → Prop
  | .error e => e.isLocated = true ∨ Guarded hosted pending
  | .plain _ => Guarded hosted pending
  | .fault f => ∀ d, f ≠ .shortChain d

/-- What happens next is what the stack waits for. -/
inductive Control.Fits (env : FrameId) (pending : List Pending) : Control → Prop
  | eval {e Γ} (he : Here programs Γ (.expr e)) (henv : Chain labels s env Γ.layers)
    (h : Stack programs labels s hosted .value env pending) : Control.Fits env pending (.eval e)
  | exec {stmt Γ Γ'} (hs : Here programs Γ (.stmt stmt)) (henv : Chain labels s env Γ.layers)
    (htakes : Γ'.Takes Γ stmt) (h : Stack programs labels s hosted (.completion Γ') env pending) :
    Control.Fits env pending (.exec stmt)
  | call {callee args} (hguard : Guarded hosted pending)
    (h : Stack programs labels s hosted .value env pending) :
    Control.Fits env pending (.call callee args)
  | give {v} (h : Stack programs labels s hosted .value env pending) :
    Control.Fits env pending (.give v)
  | complete {c Γ} (hc : c.Fits labels s env Γ)
    (h : Stack programs labels s hosted (.completion Γ) env pending) :
    Control.Fits env pending (.complete c)
  | halt {halt a} (hhalt : halt.Fits hosted pending)
    (h : Stack programs labels s hosted a env pending) : Control.Fits env pending (.halt halt)

/-- All pieces of the programs are resolved by a table of distances, and all their tokens are proper. -/
def Known (d : Distances) : Prop :=
  ∃ n, ∀ program ∈ programs,
    Everywhere (fun Γ p => p.Resolved d n Γ ∧ p.Built Token.Proper) {} (.list program)

/-- A machine holds checked programs. -/
structure Machine.Holds (m : Machine) : Prop where
  known : Known programs m.distances
  store : m.store.Fits programs labels

/-- A machine runs checked programs. -/
structure Machine.Fits (m : Machine) : Prop extends m.Holds programs labels where
  control : m.control.Fits programs labels m.store hosted m.env m.pending

end

/-! ## Growth -/

section

variable {programs : List (List Stmt)} {labels labels' : List Region} {s s' : Store} {hosted : Bool}

theorem Closure.Fits.mono {f : Closure} (h : f.Fits programs labels s) (hs : s.Grows s')
    (hlabels : labels <+: labels') : f.Fits programs labels' s' := by
  obtain ⟨hparams, Γ, kind, hchain, hbody⟩ := h
  exact ⟨hparams, Γ, kind, hchain.mono hs hlabels, hbody⟩

theorem Class.Fits.mono {c : Class} (h : c.Fits programs labels s) (hs : s.Grows s')
    (hlabels : labels <+: labels') : c.Fits programs labels' s' := by
  obtain ⟨Γ, hchain, hrest⟩ := h
  exact ⟨Γ, hchain.mono hs hlabels, hrest⟩

theorem Stack.mono {a : Awaited} {env : FrameId} {pending : List Pending}
    (h : Stack programs labels s hosted a env pending) (hs : s.Grows s')
    (hlabels : labels <+: labels') : Stack programs labels' s' hosted a env pending := by
  induction h with
  | returned h => exact .returned h
  | finished h => exact .finished h
  | program h hrest => exact .program h hrest
  | operand hp he henv _ ih => exact .operand hp he (henv.mono hs hlabels) ih
  | statement hp hstmt henv htakes _ ih =>
    exact .statement hp hstmt (henv.mono hs hlabels) htakes ih
  | loopBody hstmt henv htakes _ ih => exact .loopBody hstmt (henv.mono hs hlabels) htakes ih
  | forStart hstmt _ ih => exact .forStart hstmt ih
  | forTest hstmt henv _ ih => exact .forTest hstmt (henv.mono hs hlabels) ih
  | forBody hstmt henv _ ih => exact .forBody hstmt (henv.mono hs hlabels) ih
  | forStep hstmt henv _ ih => exact .forStep hstmt (henv.mono hs hlabels) ih
  | sequence hstmts _ ih => exact .sequence hstmts ih
  | restore hback hadmits _ ih => exact .restore (hback.mono hs hlabels) hadmits ih
  | body hΓ _ ih => exact .body hΓ ih
  | field hcls hmore hargs _ ih => exact .field (hcls.mono hs hlabels) hmore hargs ih
  | construct _ ih => exact .construct ih
  | site hparen _ ih => exact .site hparen ih
  | depart hguard _ ih => exact .depart hguard ih
  | callback hguard _ ih => exact .callback hguard ih

theorem Stack.grow {a : Awaited} {env : FrameId} {pending : List Pending}
    (h : Stack programs labels s hosted a env pending) (hs : s.Grows s') :
    Stack programs labels s' hosted a env pending := h.mono hs (List.prefix_refl _)

namespace Store.Fits

/-- A change that makes no frames, functions or classes. -/
theorem same (h : s.Fits programs labels) (hs : s.Grows s') (hsize : s'.frames.size = s.frames.size)
    (hfunctions : s'.functions = s.functions) (hclasses : s'.classes = s.classes) :
    s'.Fits programs labels := by
  refine ⟨h.length.trans hsize.symm, h.globals.grow hs, ?_, ?_⟩
  · rw [hfunctions]
    exact fun f hf => (h.functions f hf).mono hs (List.prefix_refl _)
  · rw [hclasses]
    exact fun c hc => (h.classes c hc).mono hs (List.prefix_refl _)

theorem put (h : s.Fits programs labels) (f : FrameId) (name : Bytes) (v : Value) :
    (s.put f name v).Fits programs labels := h.same (.put s f name v) (by simp [Store.put]) rfl rfl

/-- A change that keeps frames, functions and classes. -/
theorem of_eq (h : s.Fits programs labels) (hframes : s'.frames = s.frames)
    (hfunctions : s'.functions = s.functions) (hclasses : s'.classes = s.classes) :
    s'.Fits programs labels := h.same (.of_frames hframes) (by rw [hframes]) hfunctions hclasses

/-- A new frame gets a label. -/
theorem push (h : s.Fits programs labels) (fr : Frame) (region : Region) :
    ({ s with frames := s.frames.push fr } : Store).Fits programs (labels ++ [region]) := by
  have hs : s.Grows { s with frames := s.frames.push fr } := .push s fr
  have hlabels : labels <+: labels ++ [region] := List.prefix_append _ _
  refine ⟨by simp [h.length], h.globals.mono hs hlabels, ?_, ?_⟩
  · exact fun f hf => (h.functions f hf).mono hs hlabels
  · exact fun c hc => (h.classes c hc).mono hs hlabels

/-- A new function. -/
theorem withFunction (h : s.Fits programs labels) (hs : s.Grows s')
    (hsize : s'.frames.size = s.frames.size) {f : Closure}
    (hfunctions : s'.functions = s.functions.push f) (hclasses : s'.classes = s.classes)
    (hf : f.Fits programs labels s') : s'.Fits programs labels := by
  refine ⟨h.length.trans hsize.symm, h.globals.grow hs, ?_, ?_⟩
  · intro g hg
    rw [hfunctions] at hg
    rcases Array.mem_push.1 hg with hg | rfl
    · exact (h.functions g hg).mono hs (List.prefix_refl _)
    · exact hf
  · rw [hclasses]
    exact fun c hc => (h.classes c hc).mono hs (List.prefix_refl _)

/-- A new class. -/
theorem withClass (h : s.Fits programs labels) (hs : s.Grows s')
    (hsize : s'.frames.size = s.frames.size) {c : Class} (hfunctions : s'.functions = s.functions)
    (hclasses : s'.classes = s.classes.push c) (hc : c.Fits programs labels s') :
    s'.Fits programs labels := by
  refine ⟨h.length.trans hsize.symm, h.globals.grow hs, ?_, ?_⟩
  · rw [hfunctions]
    exact fun f hf => (h.functions f hf).mono hs (List.prefix_refl _)
  · intro d hd
    rw [hclasses] at hd
    rcases Array.mem_push.1 hd with hd | rfl
    · exact (h.classes d hd).mono hs (List.prefix_refl _)
    · exact hc

end Store.Fits

/-! ## Completions -/

theorem Environs.Admits.of_context {Γ Γ' : Environs} (h : Γ.toContext = Γ'.toContext) :
    Γ.Admits Γ' := by
  constructor
  · intro hleaves
    rw [h]
    exact hleaves
  · intro hreturns
    rw [h]
    exact hreturns

/-- A statement that declares nothing leaves the names as they are. -/
theorem Environs.Takes.of_not_isDeclaration {Γ Γ' : Environs} {stmt : Stmt}
    (h : stmt.isDeclaration = false) (hlayers : Γ'.layers = Γ.layers) (hadmits : Γ'.Admits Γ) :
    Γ'.Takes Γ stmt := by
  refine ⟨?_, .inr hadmits⟩
  rw [Γ.after_of_not_isDeclaration h]
  exact hlayers

/-- Where there is no loop to leave and no function to return from, completions are normal. -/
theorem Completion.Fits.normal {env : FrameId} {Γ : Environs} {c : Completion}
    (h : c.Fits labels s env Γ) (hloop : Γ.inLoop = false) (hbody : Γ.body = .none) : c = .normal := by
  cases c with
  | normal => rfl
  | leave => exact absurd (hloop.symm.trans h) Bool.false_ne_true
  | skip => exact absurd (hloop.symm.trans h) Bool.false_ne_true
  | result v => exact absurd hbody h

/-! ## Pieces of known programs -/

theorem Here.part {Γ Δ : Environs} {p q : Fragment} (h : Here programs Γ p) (hpart : (Δ, q) ∈ p.parts Γ) :
    Here programs Δ q := by
  obtain ⟨program, hmem, hocc⟩ := h
  exact ⟨program, hmem, hocc.part hpart⟩

namespace Known

variable {d : Distances} {Γ : Environs}

theorem placed {p : Fragment} (h : Known programs d) (hp : Here programs Γ p) : p.Placed Γ := by
  obtain ⟨n, hall⟩ := h
  obtain ⟨program, hmem, hocc⟩ := hp
  exact (hall program hmem Γ p hocc).1.1

theorem built {p : Fragment} (h : Known programs d) (hp : Here programs Γ p) : p.Built Token.Proper := by
  obtain ⟨n, hall⟩ := h
  obtain ⟨program, hmem, hocc⟩ := hp
  exact (hall program hmem Γ p hocc).2

theorem find?_eq {e : Expr} (h : Known programs d) (he : Here programs Γ (.expr e)) {id : NodeId}
    {name : Bytes} (huse : e.use? = some (id, name)) : d.find? id = Γ.distance? name := by
  obtain ⟨n, hall⟩ := h
  obtain ⟨program, hmem, hocc⟩ := he
  exact ((hall program hmem Γ _ hocc).1.2 e id name rfl huse).2

end Known

end

end Treewalk
