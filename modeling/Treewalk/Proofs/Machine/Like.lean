import Treewalk.Machine.Step
import Treewalk.Proofs.Tree.Like

/-!
# Machines that differ in identities and positions only

Two machines are alike if they do the same to the same objects, with code that is alike. Values, frames,
arrays and instances are equal, and so is everything that a program can see of the console; the diagnostics
stream may differ. A fault has the corresponding place, unless the host gave it one.

Below everything that waits, one of the two programs may go on with more statements (`Waits`). The same
relation knows the depth of calls, which is what the calls that wait have saved.
-/

namespace Treewalk

/-! ## Faults of the host -/

/-- A script may end with this fault. -/
inductive Script.Raises (e : RuntimeError) : Script → Prop
  | fail : Script.Raises e (.fail e)
  | look {array next values} (h : Script.Raises e (next values)) : Script.Raises e (.look array next)
  | call {callee args rescues next v} (h : Script.Raises e (next v)) :
    Script.Raises e (.call callee args rescues next)

/-- A native may fail with this fault of the host's own. -/
def NativeOp.Raises (e : RuntimeError) : NativeOp → Prop
  | .fails e' => e' = e
  | .script run => ∃ args, (run args).Raises e
  | _ => False

section

variable (L : Likeness)

/-! ## Objects -/

/-- Functions alike, made in the same frame. -/
structure Closure.Like (f f' : Closure) : Prop where
  name : f'.name = f.name
  params : List.Forall₂ (Token.Like L) f.params f'.params
  body : List.Forall₂ (Stmt.Like L) f.body f'.body
  env : f'.env = f.env
  isInit : f'.isInit = f.isInit

/-- Classes alike, declared in the same frame. -/
structure Class.Like (c c' : Class) : Prop where
  name : c'.name = c.name
  methods : List.Forall₂ (Closure.Like L) c.methods c'.methods
  fields : List.Forall₂ (Field.Like L) c.fields c'.fields
  env : c'.env = c.env

/-- Arrays with related elements. -/
structure Pointwise {α : Type} (R : α → α → Prop) (a b : Array α) : Prop where
  size : b.size = a.size
  get : ∀ i : Nat, Option.Rel R a[i]? b[i]?

/-- The same objects, but for the code of functions and classes, which is alike. -/
structure Store.Like (s s' : Store) : Prop where
  same : s' = { s with functions := s'.functions, classes := s'.classes }
  functions : Pointwise (Closure.Like L) s.functions s'.functions
  classes : Pointwise (Class.Like L) s.classes s'.classes
  given : ∀ n ∈ s.natives, ∀ e, n.op.Raises e → L.given e

/-- The same but for what was written to the diagnostics stream. -/
def Console.Like (c c' : Console) : Prop := ∃ err, c' = { c with err } ∧ L.streams c.err err

/-! ## Faults -/

/-- The same fault at a corresponding place, or one that the host gave. -/
inductive RuntimeError.Like : RuntimeError → RuntimeError → Prop
  | unlocated {kind message} : RuntimeError.Like ⟨kind, none, message⟩ ⟨kind, none, message⟩
  | located {kind lexeme p p' message} (hp : L.places p p') :
    RuntimeError.Like ⟨kind, some ⟨lexeme, p⟩, message⟩ ⟨kind, some ⟨lexeme, p'⟩, message⟩
  | given {e} (h : L.given e) : RuntimeError.Like e e

/-- The same halt at a corresponding place. -/
inductive Halt.Like : Halt → Halt → Prop
  | error {e e'} (he : e.Like L e') : Halt.Like (.error e) (.error e')
  | plain {message} : Halt.Like (.plain message) (.plain message)
  | fault {f} : Halt.Like (.fault f) (.fault f)

/-- The same result, or the same halt at a corresponding place. -/
inductive SameResult {α : Type} : Except Halt α → Except Halt α → Prop
  | ok {a} : SameResult (.ok a) (.ok a)
  | error {h h'} (hh : h.Like L h') : SameResult (.error h) (.error h')

/-! ## States -/

/-- The same use of an element. -/
inductive ElementUse.Like : ElementUse → ElementUse → Prop
  | read : ElementUse.Like .read .read
  | step {op t t' b} (ht : t.Like L t') : ElementUse.Like (.step op t b) (.step op t' b)

/-- The same use of a property. -/
inductive PropertyUse.Like : PropertyUse → PropertyUse → Prop
  | read : PropertyUse.Like .read .read
  | step {op t t' b} (ht : t.Like L t') : PropertyUse.Like (.step op t b) (.step op t' b)
  | write {e e'} (he : e.Like L e') : PropertyUse.Like (.write e) (.write e')

/-- Parts that wait alike. What counts calls and what holds the rest of the program have places of their own
in `Waits`. -/
inductive Pending.Like : Pending → Pending → Prop
  | unary {op t t'} (ht : t.Like L t') : Pending.Like (.unary op t) (.unary op t')
  | left {op t t' e e'} (ht : t.Like L t') (he : e.Like L e') : Pending.Like (.left op t e) (.left op t' e')
  | right {op t t' v} (ht : t.Like L t') : Pending.Like (.right op t v) (.right op t' v)
  | logical {op e e'} (he : e.Like L e') : Pending.Like (.logical op e) (.logical op e')
  | ternary {t t' y y' n n'} (ht : t.Like L t') (hy : y.Like L y') (hn : n.Like L n') :
    Pending.Like (.ternary t y n) (.ternary t' y' n')
  | assign {id id' t t'} (hid : L.ids id id') (ht : t.Like L t') : Pending.Like (.assign id t) (.assign id' t')
  | compound {id id' t t' op u u' v} (hid : L.ids id id') (ht : t.Like L t') (hu : u.Like L u') :
    Pending.Like (.compound id t op u v) (.compound id' t' op u' v)
  | indexed {t t' e e' use use'} (ht : t.Like L t') (he : e.Like L e') (hu : use.Like L use') :
    Pending.Like (.indexed t e use) (.indexed t' e' use')
  | index {t t' v use use'} (ht : t.Like L t') (hu : use.Like L use') :
    Pending.Like (.index t v use) (.index t' v use')
  | property {t t' use use'} (ht : t.Like L t') (hu : use.Like L use') :
    Pending.Like (.property t use) (.property t' use')
  | write {t t' i} (ht : t.Like L t') : Pending.Like (.write t i) (.write t' i)
  | callee {t t' args args'} (ht : t.Like L t') (hargs : List.Forall₂ (Expr.Like L) args args') :
    Pending.Like (.callee t args) (.callee t' args')
  | argument {t t' v done rest rest'} (ht : t.Like L t') (hrest : List.Forall₂ (Expr.Like L) rest rest') :
    Pending.Like (.argument t v done rest) (.argument t' v done rest')
  | element {done rest rest'} (hrest : List.Forall₂ (Expr.Like L) rest rest') :
    Pending.Like (.element done rest) (.element done rest')
  | site {t t' name} (ht : t.Like L t') : Pending.Like (.site t name) (.site t' name)
  | callback {rescues next} (h : ∀ v e, (next v).Raises e → L.given e) :
    Pending.Like (.callback rescues next) (.callback rescues next)
  | body {f f' env} (hf : f.Like L f') : Pending.Like (.body f env) (.body f' env)
  | field {object name rest rest' cls cls' args env} (hrest : List.Forall₂ (Field.Like L) rest rest')
    (hcls : cls.Like L cls') :
    Pending.Like (.field object name rest cls args env) (.field object name rest' cls' args env)
  | construct {object} : Pending.Like (.construct object) (.construct object)
  | discard : Pending.Like .discard .discard
  | print {p p'} (hp : L.places p p') : Pending.Like (.print p) (.print p')
  | declare {t t'} (ht : t.Like L t') : Pending.Like (.declare t) (.declare t')
  | branch {y y' n n'} (hy : y.Like L y') (hn : Option.Rel (Stmt.Like L) n n') :
    Pending.Like (.branch y n) (.branch y' n')
  | loopTest {c c' b b'} (hc : c.Like L c') (hb : b.Like L b') :
    Pending.Like (.loopTest c b) (.loopTest c' b')
  | loopBody {c c' b b'} (hc : c.Like L c') (hb : b.Like L b') :
    Pending.Like (.loopBody c b) (.loopBody c' b')
  | forStart {c c' u u' b b'} (hc : Option.Rel (Expr.Like L) c c') (hu : Option.Rel (Expr.Like L) u u')
    (hb : b.Like L b') : Pending.Like (.forStart c u b) (.forStart c' u' b')
  | forTest {c c' u u' b b'} (hc : Option.Rel (Expr.Like L) c c') (hu : Option.Rel (Expr.Like L) u u')
    (hb : b.Like L b') : Pending.Like (.forTest c u b) (.forTest c' u' b')
  | forBody {c c' u u' b b'} (hc : Option.Rel (Expr.Like L) c c') (hu : Option.Rel (Expr.Like L) u u')
    (hb : b.Like L b') : Pending.Like (.forBody c u b) (.forBody c' u' b')
  | forStep {c c' u u' b b'} (hc : Option.Rel (Expr.Like L) c c') (hu : Option.Rel (Expr.Like L) u u')
    (hb : b.Like L b') : Pending.Like (.forStep c u b) (.forStep c' u' b')
  | result : Pending.Like .result .result
  | sequence {rest rest'} (hrest : List.Forall₂ (Stmt.Like L) rest rest') :
    Pending.Like (.sequence rest) (.sequence rest')
  | restore {env} : Pending.Like (.restore env) (.restore env)

/-- What waits alike, with calls nested this deep. If there is `more`, then the second program goes on with
it, and the first one is not over. -/
inductive Waits (more : Option (List Stmt)) : Nat → List Pending → List Pending → Prop
  | nothing (h : more = none) : Waits more 0 [] []
  | program {rest rest'} (hrest : List.Forall₂ (Stmt.Like L) rest rest') :
    Waits more 0 [.program rest] [.program (rest' ++ more.getD [])]
  | part {depth p p' ps ps'} (hp : p.Like L p') (h : Waits more depth ps ps') :
    Waits more depth (p :: ps) (p' :: ps')
  | depart {depth ps ps'} (h : Waits more depth ps ps') :
    Waits more (depth + 1) (.depart depth :: ps) (.depart depth :: ps')

/-- The same control, with code alike. -/
inductive Control.Like : Control → Control → Prop
  | eval {e e'} (he : e.Like L e') : Control.Like (.eval e) (.eval e')
  | exec {s s'} (hs : s.Like L s') : Control.Like (.exec s) (.exec s')
  | call {callee args} : Control.Like (.call callee args) (.call callee args)
  | give {v} : Control.Like (.give v) (.give v)
  | complete {c} : Control.Like (.complete c) (.complete c)
  | halt {h h'} (hh : h.Like L h') : Control.Like (.halt h) (.halt h')

/-- Machines alike but for what they do next. -/
structure Machine.Beside (more : Option (List Stmt)) (d d' : Distances) (m m' : Machine) : Prop where
  waits : Waits L more m.depth m.pending m'.pending
  env : m'.env = m.env
  depth : m'.depth = m.depth
  store : m.store.Like L m'.store
  console : m.console.Like L m'.console
  table : m.distances = d
  table' : m'.distances = d'

/-- Machines that differ in identities and positions only. -/
structure Machine.Like (more : Option (List Stmt)) (d d' : Distances) (m m' : Machine) : Prop extends
    Machine.Beside L more d d' m m' where
  control : m.control.Like L m'.control

end

/-! ## Objects -/

section

variable {L : Likeness}

theorem Pointwise.push {α : Type} {R : α → α → Prop} {a b : Array α} (h : Pointwise R a b) {x y : α}
    (hxy : R x y) : Pointwise R (a.push x) (b.push y) := by
  refine ⟨by simp [h.size], fun i => ?_⟩
  rw [Array.getElem?_push, Array.getElem?_push, h.size]
  split
  · exact .some hxy
  · exact h.get i

theorem Pointwise.map_eq {α β : Type} {R : α → α → Prop} {a b : Array α} (h : Pointwise R a b)
    {f : α → β} (hf : ∀ x y, R x y → f y = f x) (i : Nat) : b[i]?.map f = a[i]?.map f := by
  have hi := h.get i
  generalize a[i]? = x at hi ⊢
  generalize b[i]? = y at hi ⊢
  cases hi with
  | none => rfl
  | some hxy => rw [Option.map_some, Option.map_some, hf _ _ hxy]

/-! ## Texts

The texts of values, their equality and the look-up of names see nothing of code but the names of functions
and classes. -/

/-- The same objects, where functions and classes have the same names. -/
structure Store.Resembles (s s' : Store) : Prop where
  same : s' = { s with functions := s'.functions, classes := s'.classes }
  functions : ∀ i : Nat, s'.functions[i]?.map Closure.name = s.functions[i]?.map Closure.name
  classes : ∀ i : Nat, s'.classes[i]?.map Class.name = s.classes[i]?.map Class.name

namespace Store.Resembles

variable {s s' : Store} (h : s.Resembles s')

include h

/-- Stores that resemble each other have all but code in common. -/
theorem proj {α : Type} (f : Store → α) (hf : ∀ functions classes, f { s with functions, classes } = f s) :
    f s' = f s := by
  rw [h.same]
  exact hf _ _

theorem typeName_eq : s'.typeName = s.typeName := h.proj Store.typeName fun _ _ => rfl

theorem elements_eq : s'.elements = s.elements := h.proj Store.elements fun _ _ => rfl

theorem className_eq (c : ClassId) : s'.className c = s.className c := by
  unfold Store.className
  rw [h.classes]

theorem displayFlat_eq (v : Value) : s'.displayFlat v = s.displayFlat v := by
  cases v with
  | function f =>
    unfold Store.displayFlat
    dsimp only
    rw [h.functions]
  | classRef c =>
    unfold Store.displayFlat
    dsimp only
    rw [h.className_eq]
  | object i =>
    have hinstances : s'.instances = s.instances := h.proj Store.instances fun _ _ => rfl
    unfold Store.displayFlat
    simp only [hinstances, h.className_eq]
  | native n =>
    have hnatives : s'.natives = s.natives := h.proj Store.natives fun _ _ => rfl
    unfold Store.displayFlat
    simp only [hnatives]
  | host n =>
    unfold Store.displayFlat
    simp only [h.typeName_eq]
  | hollow hollow => cases hollow <;> rfl
  | _ => rfl

theorem reprFlat_eq (v : Value) : s'.reprFlat v = s.reprFlat v := by
  cases v with
  | string t => rfl
  | _ =>
    simp only [Store.reprFlat]
    exact h.displayFlat_eq _

theorem reprIn_eq (fuel : Nat) : ∀ (active : List ArrayId) (v : Value),
    s'.reprIn fuel active v = s.reprIn fuel active v := by
  induction fuel with
  | zero => exact fun _ v => h.reprFlat_eq v
  | succ fuel ih =>
    intro active v
    cases v with
    | array a =>
      have hinner : s'.reprIn fuel (a :: active) = s.reprIn fuel (a :: active) :=
        funext (ih (a :: active))
      simp only [Store.reprIn, h.elements_eq, hinner]
    | _ =>
      simp only [Store.reprIn]
      exact h.reprFlat_eq _

theorem repr_eq (v : Value) : s'.repr v = s.repr v := by
  have harrays : s'.arrays = s.arrays := h.proj Store.arrays fun _ _ => rfl
  unfold Store.repr
  rw [harrays, h.reprIn_eq]

theorem display_eq (v : Value) : s'.display v = s.display v := by
  cases v with
  | string t => rfl
  | _ =>
    simp only [Store.display]
    exact h.repr_eq _

theorem lacksObject_eq (fuel : Nat) : ∀ (active : List ArrayId) (v : Value),
    s'.lacksObject fuel active v = s.lacksObject fuel active v := by
  induction fuel with
  | zero =>
    intro active v
    cases v with
    | hollow hollow => cases hollow <;> rfl
    | _ => rfl
  | succ fuel ih =>
    intro active v
    cases v with
    | hollow hollow => cases hollow <;> rfl
    | array a =>
      have hrest : s'.lacksObject fuel (a :: active) = s.lacksObject fuel (a :: active) :=
        funext (ih (a :: active))
      simp only [Store.lacksObject, h.elements_eq, hrest]
    | _ => rfl

theorem isShown_eq (v : Value) : s'.isShown v = s.isShown v := by
  have harrays : s'.arrays = s.arrays := h.proj Store.arrays fun _ _ => rfl
  unfold Store.isShown
  rw [harrays, h.lacksObject_eq]

theorem display?_eq (v : Value) : s'.display? v = s.display? v := by
  have hpacked : s'.displayPacked v = s.displayPacked v := by
    cases v with
    | string t => rfl
    | _ =>
      unfold Store.displayPacked
      dsimp only
      rw [h.repr_eq]
  unfold Store.display?
  rw [h.isShown_eq, hpacked]

theorem repr?_eq (v : Value) : s'.repr? v = s.repr? v := by
  unfold Store.repr?
  rw [h.isShown_eq, h.repr_eq]

theorem glanceAll_eq (pairs : List (Value × Value)) : ∀ r : Store.Round,
    s'.glanceAll r pairs = s.glanceAll r pairs := by
  have hglance : s'.glance = s.glance := h.proj Store.glance fun _ _ => rfl
  induction pairs with
  | nil => exact fun _ => rfl
  | cons pair rest ih =>
    intro r
    simp only [Store.glanceAll, hglance, h.elements_eq, ih]

theorem settle_eq (fuel : Nat) : ∀ (met : List (ArrayId × ArrayId)) (due : List (Value × Value)),
    s'.settle fuel met due = s.settle fuel met due := by
  induction fuel with
  | zero => exact fun _ _ => rfl
  | succ fuel ih =>
    intro met due
    cases due with
    | nil => rfl
    | cons pair rest => simp only [Store.settle, h.glanceAll_eq, ih]

theorem equal_eq (v w : Value) : s'.equal v w = s.equal v w := by
  have harrays : s'.arrays = s.arrays := h.proj Store.arrays fun _ _ => rfl
  unfold Store.equal
  rw [harrays, h.settle_eq]

/-! ### Names -/

theorem frame_eq : s'.frame = s.frame := h.proj Store.frame fun _ _ => rfl

theorem binds_eq : s'.binds = s.binds := h.proj Store.binds fun _ _ => rfl

theorem ancestor?_eq (n : Nat) : ∀ f : FrameId, s'.ancestor? f n = s.ancestor? f n := by
  induction n with
  | zero => exact fun _ => rfl
  | succ n ih =>
    intro f
    simp only [Store.ancestor?, h.frame_eq, ih]

theorem target_eq (f : FrameId) (distance : Int) (name : Bytes) :
    s'.target f distance name = s.target f distance name := by
  simp only [Store.target, h.ancestor?_eq, h.frame_eq]

theorem owner?_eq (name : Bytes) (fuel : Nat) : ∀ f : FrameId, s'.owner? name fuel f = s.owner? name fuel f := by
  induction fuel with
  | zero =>
    intro f
    simp only [Store.owner?, h.binds_eq]
  | succ fuel ih =>
    intro f
    simp only [Store.owner?, h.binds_eq, h.frame_eq, funext ih]

end Store.Resembles

namespace Store.Like

variable {s s' : Store} (h : s.Like L s')

include h

theorem resembles : s.Resembles s' :=
  ⟨h.same, h.functions.map_eq fun _ _ hf => hf.name, h.classes.map_eq fun _ _ hc => hc.name⟩

theorem proj {α : Type} (f : Store → α) (hf : ∀ functions classes, f { s with functions, classes } = f s) :
    f s' = f s := h.resembles.proj f hf

theorem typeName_eq : s'.typeName = s.typeName := h.resembles.typeName_eq

theorem elements_eq : s'.elements = s.elements := h.resembles.elements_eq

theorem display_eq (v : Value) : s'.display v = s.display v := h.resembles.display_eq v

theorem display?_eq (v : Value) : s'.display? v = s.display? v := h.resembles.display?_eq v

theorem repr?_eq (v : Value) : s'.repr? v = s.repr? v := h.resembles.repr?_eq v

theorem equal_eq (v w : Value) : s'.equal v w = s.equal v w := h.resembles.equal_eq v w

end Store.Like

end

end Treewalk
