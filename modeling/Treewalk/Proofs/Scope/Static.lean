import Treewalk.Scope

/-!
# Scopes of the text

What a program's text says about scopes, without a word about the check or the machine.

**Regions.** A `Region` is a piece of text that has a scope of its own: a block, the header of a loop,
the parameters and the body of a function, or the receiver of a class's methods.

**Environs.** Around every piece of syntax lie regions, innermost first, each with the names declared
in it so far (`Layer`). A name is not ready while its own initial value is computed. The environs also
tell whether the piece is inside a loop, a function or a class.

**Parts.** `Fragment.parts` gives the parts of a piece with their environs. What can be reached from a
program by going from pieces to parts occurs in it (`Occurs`), and `Everywhere` says that something holds
of all that can be reached.

Main result: a name that is not ready is looked at from inside its own initial value
(`Occurs.initializing`).
-/

namespace Treewalk

/-! ## Regions and environs -/

/-- A piece of text with a scope of its own. -/
inductive Region where
  /-- The whole of the text; its names are global. -/
  | globals
  | block (pos : Position) (body : List Stmt)
  | header (pos : Position) (start : Option Stmt) (cond step : Option Expr) (body : Stmt)
  | function (params : List Token) (body : List Stmt)
  /-- The methods of a class, each with its name, parameters and body. -/
  | receiver (name : Bytes) (fields : List Field) (methods : List (Bytes × List Token × List Stmt))

/-- The region of the methods of a declared class. -/
def Region.ofClass (name : Token) (fields : List Field) (methods : List Function) : Region :=
  .receiver name.lexeme fields (methods.map fun f => (f.name.lexeme, f.params, f.body))

/-- A region around a piece with the names declared so far; the mark tells which are ready. -/
structure Layer where
  region : Region
  names : List (Bytes × Bool) := []

namespace Layer

/-- Adds a name that is not ready. -/
def declare (l : Layer) (name : Bytes) : Layer := { l with names := l.names ++ [(name, false)] }

/-- Makes a name ready. -/
def define (l : Layer) (name : Bytes) : Layer :=
  { l with names := l.names.map fun n => if n.1 == name then (n.1, true) else n }

/-- Can a name of this layer be used? One that is not ready can only be used `later`. -/
def offers (l : Layer) (later : Bool) (name : Bytes) : Bool :=
  l.names.any fun n => n.1 == name && (n.2 || later)

end Layer

/-- What is around a piece of syntax. -/
structure Environs extends Scope.Context where
  /-- The regions, innermost first; the whole of the text is left out. -/
  layers : List Layer := []

namespace Environs

/-- Declares a name in the innermost region; outside all regions nothing is declared. -/
def declare (Γ : Environs) (name : Bytes) : Environs :=
  { Γ with layers := Γ.layers.modifyHead (·.declare name) }

/-- Makes a name of the innermost region ready. -/
def define (Γ : Environs) (name : Bytes) : Environs :=
  { Γ with layers := Γ.layers.modifyHead (·.define name) }

/-- Declares a name that is ready at once. -/
def add (Γ : Environs) (name : Bytes) : Environs := (Γ.declare name).define name

/-- Goes into a region. -/
def enter (Γ : Environs) (region : Region) : Environs :=
  { Γ with layers := ⟨region, []⟩ :: Γ.layers }

/-- Declares parameters. -/
def addAll (Γ : Environs) (params : List Token) : Environs :=
  params.foldl (fun Γ p => Γ.add p.lexeme) Γ

/-- Goes into the body of a function. -/
def enterFunction (Γ : Environs) (body : Scope.Body) (params : List Token) (stmts : List Stmt) :
    Environs :=
  ({ Γ.enter (.function params stmts) with
      toContext := Γ.toContext.enter body Γ.layers.length }).addAll params

/-- Goes to the methods of a class. -/
def receive (Γ : Environs) (region : Region) : Environs :=
  { (Γ.enter region).add (text "this") with inClass := true }

/-- Goes into the body of a loop. -/
def enterLoop (Γ : Environs) : Environs := { Γ with inLoop := true }

/-- What is around the statement behind this one. -/
def after (Γ : Environs) : Stmt → Environs
  | .declare _ name _ => Γ.add name.lexeme
  | .function d => Γ.add d.name.lexeme
  | .classDecl _ name _ _ => Γ.add name.lexeme
  | _ => Γ

/-- The same for a statement that may be absent. -/
def afterOpt (Γ : Environs) : Option Stmt → Environs
  | none => Γ
  | some s => Γ.after s

/-- What is around the end of a list of statements. -/
def afterAll (Γ : Environs) (stmts : List Stmt) : Environs := stmts.foldl after Γ

/-- The number of layers between here and the nearest one with a usable name. A name that is not ready
can be used from inside a function that its layer lies outside of. -/
def distanceIn? (outside : Nat) (name : Bytes) : List Layer → Option Nat
  | [] => none
  | layer :: outer =>
    if layer.offers (outer.length < outside) name then some 0
    else (distanceIn? outside name outer).map (· + 1)

/-- The number of layers between here and the declaration of a name, if it is local. -/
def distance? (Γ : Environs) (name : Bytes) : Option Nat := distanceIn? Γ.outside name Γ.layers

end Environs

/-! ## Pieces and their parts -/

/-- A piece of syntax. -/
inductive Fragment where
  | expr (e : Expr)
  | stmt (s : Stmt)
  | list (ss : List Stmt)

open Environs

/-- The parts of an expression. -/
def Expr.parts (Γ : Environs) : Expr → List (Environs × Fragment)
  | .literal _ _ | .ident _ _ | .update _ _ _ _ _ | .this _ _ => []
  | .group _ _ e | .unary _ _ _ e | .assign _ _ e | .compound _ _ _ _ e | .updateGet _ e _ _ _ _
  | .get _ e _ => [(Γ, .expr e)]
  | .binary _ _ _ l r | .logical _ _ _ l r | .updateIndex _ l _ r _ _ _ | .index _ l _ r
  | .set _ l _ r => [(Γ, .expr l), (Γ, .expr r)]
  | .ternary _ _ c y n => [(Γ, .expr c), (Γ, .expr y), (Γ, .expr n)]
  | .call _ c _ args => (Γ, .expr c) :: args.map fun e => (Γ, .expr e)
  | .array _ _ es => es.map fun e => (Γ, .expr e)
  | .lambda _ _ params body => [(Γ.enterFunction .function params body, .list body)]

/-- The kind of body that a method has. -/
def Function.bodyKind (f : Function) : Scope.Body :=
  if f.name.lexeme == Scope.initName then .initializer else .function

/-- The parts of a statement. -/
def Stmt.parts (Γ : Environs) : Stmt → List (Environs × Fragment)
  | .expression _ e | .print _ e => [(Γ, .expr e)]
  | .declare _ name value => value.toList.map fun e => (Γ.declare name.lexeme, .expr e)
  | .block pos body => [(Γ.enter (.block pos body), .list body)]
  | .branch _ cond yes no => (Γ, .expr cond) :: (Γ, .stmt yes) :: no.toList.map fun s => (Γ, .stmt s)
  | .loop _ cond body => [(Γ, .expr cond), (Γ.enterLoop, .stmt body)]
  | .forLoop pos start cond step body =>
    let inside := Γ.enter (.header pos start cond step body)
    let round := inside.afterOpt start
    (start.toList.map fun s => (inside, .stmt s)) ++ (cond.toList.map fun e => (round, .expr e))
      ++ (step.toList.map fun e => (round, .expr e)) ++ [(round.enterLoop, .stmt body)]
  | .leave _ | .skip _ => []
  | .result _ value => value.toList.map fun e => (Γ, .expr e)
  | .function d => [((Γ.add d.name.lexeme).enterFunction .function d.params d.body, .list d.body)]
  | .classDecl _ name fields methods =>
    let inside := Γ.add name.lexeme
    (fields.map fun f => (inside, .expr f.value)) ++ methods.map fun f =>
      ((inside.receive (.ofClass name fields methods)).enterFunction f.bodyKind f.params f.body,
        .list f.body)

/-- The parts of a piece, each with what is around it. -/
def Fragment.parts (Γ : Environs) : Fragment → List (Environs × Fragment)
  | .expr e => e.parts Γ
  | .stmt s => s.parts Γ
  | .list [] => []
  | .list (s :: ss) => [(Γ, .stmt s), (Γ.after s, .list ss)]

/-- What can be reached from a piece by going to parts, any number of times. -/
inductive Below (Γ : Environs) (p : Fragment) : Environs → Fragment → Prop
  | here : Below Γ p Γ p
  | part {Δ q Δ' q'} (h : Below Γ p Δ q) (hpart : (Δ', q') ∈ q.parts Δ) : Below Γ p Δ' q'

/-- A piece occurs in a program, with these environs. -/
def Occurs (program : List Stmt) (Γ : Environs) (p : Fragment) : Prop :=
  Below {} (.list program) Γ p

/-- Something holds of a piece and of all that can be reached from it. -/
def Everywhere (P : Environs → Fragment → Prop) (Γ : Environs) (p : Fragment) : Prop :=
  ∀ Δ q, Below Γ p Δ q → P Δ q

theorem Below.trans {Γ Δ Δ' : Environs} {p q q' : Fragment} (h : Below Γ p Δ q)
    (h' : Below Δ q Δ' q') : Below Γ p Δ' q' := by
  induction h' with
  | here => exact h
  | part _ hpart ih => exact ih.part hpart

/-- What can be reached is the piece itself or can be reached from one of its parts. -/
theorem Below.cases_head {Γ Δ : Environs} {p q : Fragment} (h : Below Γ p Δ q) :
    (Δ = Γ ∧ q = p) ∨ ∃ part ∈ p.parts Γ, Below part.1 part.2 Δ q := by
  induction h with
  | here => exact .inl ⟨rfl, rfl⟩
  | part _ hpart ih =>
    rcases ih with ⟨rfl, rfl⟩ | ⟨part, hmem, hbelow⟩
    · exact .inr ⟨_, hpart, .here⟩
    · exact .inr ⟨part, hmem, hbelow.part hpart⟩

section

variable {P Q : Environs → Fragment → Prop} {Γ : Environs} {p : Fragment}

theorem everywhere_of_parts (h : P Γ p) (hparts : ∀ part ∈ p.parts Γ, Everywhere P part.1 part.2) :
    Everywhere P Γ p := by
  intro Δ q hbelow
  rcases hbelow.cases_head with ⟨rfl, rfl⟩ | ⟨part, hmem, hpart⟩
  · exact h
  · exact hparts part hmem Δ q hpart

theorem Everywhere.here (h : Everywhere P Γ p) : P Γ p := h Γ p .here

theorem Everywhere.mono (h : Everywhere P Γ p) (hPQ : ∀ Δ q, P Δ q → Q Δ q) : Everywhere Q Γ p :=
  fun Δ q hbelow => hPQ Δ q (h Δ q hbelow)

end

theorem Occurs.part {program : List Stmt} {Γ Δ : Environs} {p q : Fragment}
    (h : Occurs program Γ p) (hpart : (Δ, q) ∈ p.parts Γ) : Occurs program Δ q :=
  Below.part h hpart

/-! ## Names that are not ready -/

namespace Environs

/-- The innermost of the outer `n` layers has declared a name that is not ready. -/
def UnreadyIn (n : Nat) (name : Bytes) : List Layer → Prop
  | [] => False
  | layer :: outer =>
    (outer.length + 1 = n ∧ (name, false) ∈ layer.names) ∨ UnreadyIn n name outer

/-- The same for the layers around a piece. -/
def Unready (Γ : Environs) (n : Nat) (name : Bytes) : Prop := UnreadyIn n name Γ.layers

variable {Γ : Environs} {n : Nat} {name : Bytes}

theorem unready_enter {region : Region} (h : (Γ.enter region).Unready n name) : Γ.Unready n name := by
  simpa [Unready, UnreadyIn, enter] using h

theorem unready_declare {x : Bytes} (h : (Γ.declare x).Unready n name) :
    Γ.Unready n name ∨ (x = name ∧ Γ.layers.length = n) := by
  unfold Unready declare at h
  unfold Unready
  cases hl : Γ.layers with
  | nil => simp [hl, UnreadyIn] at h
  | cons layer outer =>
    simp only [hl, List.modifyHead_cons, UnreadyIn, Layer.declare, List.mem_append,
      List.mem_singleton, Prod.mk.injEq, and_true] at h
    rcases h with ⟨hn, hmem | hx⟩ | houter
    · exact .inl (.inl ⟨hn, hmem⟩)
    · exact .inr ⟨hx.symm, hn⟩
    · exact .inl (.inr houter)

/-- A name that is ready at once is never looked at before. -/
theorem unready_add {x : Bytes} (h : (Γ.add x).Unready n name) : Γ.Unready n name := by
  unfold Unready add define declare at h
  unfold Unready
  cases hl : Γ.layers with
  | nil => simp [hl, UnreadyIn] at h
  | cons layer outer =>
    simp only [hl, List.modifyHead_cons, UnreadyIn, Layer.declare, Layer.define] at h
    rcases h with ⟨hn, hmem⟩ | houter
    · obtain ⟨entry, hentry, heq⟩ := List.mem_map.1 hmem
      by_cases hx : entry.1 == x
      · simp [hx] at heq
      · simp only [hx, Bool.false_eq_true, if_false] at heq
        subst heq
        rcases List.mem_append.1 hentry with hold | hnew
        · exact .inl ⟨hn, hold⟩
        · simp_all
    · exact .inr houter

theorem unready_addAll : ∀ {Γ : Environs} (params : List Token),
    (Γ.addAll params).Unready n name → Γ.Unready n name
  | _, [], h => h
  | _, _ :: ps, h => unready_add (unready_addAll ps h)

theorem unready_enterFunction {body : Scope.Body} {params : List Token} {stmts : List Stmt}
    (h : (Γ.enterFunction body params stmts).Unready n name) : Γ.Unready n name := by
  have hinside := unready_addAll params h
  exact @unready_enter Γ n name (.function params stmts) hinside

theorem unready_receive {region : Region} (h : (Γ.receive region).Unready n name) :
    Γ.Unready n name :=
  unready_enter (unready_add (Γ := Γ.enter region) h)

theorem unready_enterLoop (h : Γ.enterLoop.Unready n name) : Γ.Unready n name := h

theorem unready_after {s : Stmt} (h : (Γ.after s).Unready n name) : Γ.Unready n name := by
  cases s <;> first | exact h | exact unready_add h

theorem unready_afterOpt {s : Option Stmt} (h : (Γ.afterOpt s).Unready n name) :
    Γ.Unready n name := by
  cases s with
  | none => exact h
  | some s => exact unready_after h

end Environs

/-- Going to a part, a name becomes one that is not ready only at its own initial value. -/
theorem Fragment.unready_part {Γ Δ : Environs} {p q : Fragment} {n : Nat} {name : Bytes}
    (hpart : (Δ, q) ∈ p.parts Γ) (h : Δ.Unready n name) :
    Γ.Unready n name ∨ ∃ pos t v, p = .stmt (.declare pos t (some v)) ∧ q = .expr v ∧
      Δ = Γ.declare t.lexeme ∧ t.lexeme = name ∧ Γ.layers.length = n := by
  cases p with
  | expr e =>
    left
    cases e with
    | lambda =>
      simp only [Fragment.parts, Expr.parts, List.mem_singleton, Prod.mk.injEq] at hpart
      rw [hpart.1] at h
      exact unready_enterFunction h
    | _ =>
      have hΔ : Δ = Γ := by
        grind [Fragment.parts, Expr.parts]
      rw [hΔ] at h
      exact h
  | list ss =>
    left
    cases ss with
    | nil => simp [Fragment.parts] at hpart
    | cons s ss =>
      simp only [Fragment.parts, List.mem_cons, Prod.mk.injEq, List.not_mem_nil, or_false] at hpart
      rcases hpart with ⟨rfl, -⟩ | ⟨rfl, -⟩
      · exact h
      · exact unready_after h
  | stmt s =>
    cases s with
    | declare pos t value =>
      cases value with
      | none => simp [Fragment.parts, Stmt.parts] at hpart
      | some v =>
        simp only [Fragment.parts, Stmt.parts, Option.toList_some, List.map_cons, List.map_nil,
          List.mem_singleton, Prod.mk.injEq] at hpart
        obtain ⟨rfl, rfl⟩ := hpart
        rcases unready_declare h with hold | ⟨rfl, hlength⟩
        · exact .inl hold
        · exact .inr ⟨pos, t, v, rfl, rfl, rfl, rfl, hlength⟩
    | leave | skip => simp [Fragment.parts, Stmt.parts] at hpart
    | _ =>
      left
      simp only [Fragment.parts, Stmt.parts, List.mem_cons, List.mem_append, List.mem_map, Prod.mk.injEq,
        List.not_mem_nil, or_false] at hpart
      grind [unready_enter, unready_enterLoop, unready_afterOpt, unready_add, unready_enterFunction,
        unready_receive]

/-- A name that is not ready is looked at from inside its own initial value. -/
theorem Occurs.initializing {program : List Stmt} {Γ : Environs} {p : Fragment} {n : Nat}
    {name : Bytes} (h : Occurs program Γ p) (hunready : Γ.Unready n name) :
    ∃ Γ₀ pos t v, Occurs program Γ₀ (.stmt (.declare pos t (some v))) ∧ t.lexeme = name ∧
      Γ₀.layers.length = n ∧ Below (Γ₀.declare name) (.expr v) Γ p := by
  induction h with
  | here => exact absurd hunready id
  | part hocc hpart ih =>
    rcases Fragment.unready_part hpart hunready with hold | ⟨pos, t, v, rfl, rfl, rfl, rfl, hlength⟩
    · obtain ⟨Γ₀, pos, t, v, hdeclare, hname, hlength, hbelow⟩ := ih hold
      exact ⟨Γ₀, pos, t, v, hdeclare, hname, hlength, hbelow.part hpart⟩
    · exact ⟨_, pos, t, v, hocc, rfl, hlength, .here⟩

/-! ## Regions around a piece -/

namespace Environs

/-- The regions around a piece, innermost first. -/
def regions (Γ : Environs) : List Region := Γ.layers.map Layer.region

variable (Γ : Environs)

theorem regions_declare (name : Bytes) : (Γ.declare name).regions = Γ.regions := by
  unfold regions declare
  cases Γ.layers <;> rfl

theorem regions_define (name : Bytes) : (Γ.define name).regions = Γ.regions := by
  unfold regions define
  cases Γ.layers <;> rfl

theorem regions_add (name : Bytes) : (Γ.add name).regions = Γ.regions := by
  rw [add, regions_define, regions_declare]

theorem regions_addAll (params : List Token) : (Γ.addAll params).regions = Γ.regions := by
  unfold addAll
  induction params generalizing Γ with
  | nil => rfl
  | cons p ps ih => rw [List.foldl_cons, ih, regions_add]

theorem regions_after (s : Stmt) : (Γ.after s).regions = Γ.regions := by
  cases s with
  | declare | function | classDecl => exact regions_add Γ _
  | _ => rfl

theorem regions_afterOpt (s : Option Stmt) : (Γ.afterOpt s).regions = Γ.regions := by
  cases s with
  | none => rfl
  | some s => exact regions_after Γ s

theorem regions_enterFunction (body : Scope.Body) (params : List Token) (stmts : List Stmt) :
    (Γ.enterFunction body params stmts).regions = .function params stmts :: Γ.regions := by
  rw [enterFunction, regions_addAll]
  rfl

theorem regions_receive (region : Region) : (Γ.receive region).regions = region :: Γ.regions :=
  regions_add (Γ.enter region) _

end Environs

/-- The parameters of a region, if it is a function. -/
def Region.params : Region → List Token
  | .function params _ => params
  | _ => []

end Treewalk
