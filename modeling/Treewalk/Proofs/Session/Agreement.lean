import Treewalk.Proofs.Session.Reached

/-!
# The check and the run agree on frames

The check counts, for every use of a local name, the regions between the use and the declaration that it
matched; the run walks that many frames up. **Main theorem** (`Reached.frames_agree`): in every phase of
every session, whenever an expression is evaluated, the frames from the current one outwards are one for
each region around the expression, followed by the globals, and whenever a name with a distance is looked up
or assigned to, the distance leads to the frame that was made for the region of the matched declaration.

That frame binds the name, with one exception. A name is declared before its initial value is computed, and
bound after it; a function inside the initial value may be called in between (`Initializing`).
-/

namespace Treewalk

/-! ## Functions in initial values -/

/-- From an expression one gets to other environs only through a function in it. -/
theorem Below.through_lambda {Γ Δ : Environs} {e : Expr} {q : Fragment} (h : Below Γ (.expr e) Δ q) :
    (Δ = Γ ∧ ∃ e', q = .expr e') ∨ ∃ id keyword params body,
      Below Γ (.expr e) Γ (.expr (.lambda id keyword params body)) ∧
        Below (Γ.enterFunction .function params body) (.list body) Δ q := by
  induction h with
  | here => exact .inl ⟨rfl, e, rfl⟩
  | @part Δ q Δ' q' hbelow hpart ih =>
    rcases ih with ⟨rfl, e', rfl⟩ | ⟨id, keyword, params, body, hlambda, hinside⟩
    · cases e' with
      | lambda id keyword params body =>
        simp only [Fragment.parts, Expr.parts, List.mem_singleton, Prod.mk.injEq] at hpart
        obtain ⟨rfl, rfl⟩ := hpart
        exact .inr ⟨id, keyword, params, body, hbelow, .here⟩
      | literal | ident | update | this => simp [Fragment.parts, Expr.parts] at hpart
      | _ =>
        left
        simp only [Fragment.parts, Expr.parts, List.mem_cons, List.mem_map, Prod.mk.injEq,
          List.not_mem_nil, or_false] at hpart
        grind
    · exact .inr ⟨id, keyword, params, body, hlambda, hinside.part hpart⟩

namespace Environs

/-- The region of the innermost function is around a piece in it. -/
def Inside (Γ : Environs) : Prop := Γ.outside ≤ Γ.layers.tail.length

variable {Γ : Environs}

theorem Inside.enter (h : Γ.Inside) (region : Region) : (Γ.enter region).Inside := by
  have htail : Γ.layers.tail.length ≤ Γ.layers.length := by simp
  exact Nat.le_trans h htail

theorem inside_enterFunction (Γ : Environs) (body : Scope.Body) (params : List Token)
    (stmts : List Stmt) : (Γ.enterFunction body params stmts).Inside := by
  unfold Inside
  rw [toContext_enterFunction, enterFunction, tail_addAll]
  exact Nat.le_refl _

theorem Inside.add (h : Γ.Inside) (name : Bytes) : (Γ.add name).Inside := by
  unfold Inside
  rw [toContext_add, tail_add]
  exact h

theorem Inside.declare (h : Γ.Inside) (name : Bytes) : (Γ.declare name).Inside := by
  unfold Inside
  have htail : (Γ.declare name).layers.tail = Γ.layers.tail := by simp [Environs.declare]
  rw [htail]
  exact h

theorem Inside.after (h : Γ.Inside) (s : Stmt) : (Γ.after s).Inside := by
  unfold Inside
  rw [toContext_after, tail_after]
  exact h

theorem Inside.afterOpt (h : Γ.Inside) (s : Option Stmt) : (Γ.afterOpt s).Inside := by
  unfold Inside
  rw [toContext_afterOpt, tail_afterOpt]
  exact h

end Environs

theorem Fragment.inside_part {Γ Δ : Environs} {p q : Fragment} (hpart : (Δ, q) ∈ p.parts Γ)
    (h : Γ.Inside) : Δ.Inside := by
  cases p with
  | expr e =>
    cases e with
    | lambda =>
      simp only [Fragment.parts, Expr.parts, List.mem_singleton, Prod.mk.injEq] at hpart
      rw [hpart.1]
      exact Environs.inside_enterFunction _ _ _ _
    | _ => grind [Fragment.parts, Expr.parts]
  | list ss =>
    cases ss with
    | nil => simp [Fragment.parts] at hpart
    | cons s ss =>
      simp only [Fragment.parts, List.mem_cons, Prod.mk.injEq, List.not_mem_nil, or_false] at hpart
      rcases hpart with ⟨rfl, -⟩ | ⟨rfl, -⟩
      · exact h
      · exact h.after s
  | stmt s =>
    cases s with
    | leave | skip => simp [Fragment.parts, Stmt.parts] at hpart
    | forLoop pos start cond step body =>
      have hround : (Γ.round pos start cond step body).Inside := (h.enter _).afterOpt start
      have hloop : (Γ.round pos start cond step body).enterLoop.Inside := hround
      have hheader := h.enter (.header pos start cond step body)
      simp only [Fragment.parts, Stmt.parts, List.mem_append, List.mem_map, List.mem_singleton,
        Prod.mk.injEq] at hpart
      grind [Environs.round]
    | _ =>
      simp only [Fragment.parts, Stmt.parts, List.mem_cons, List.mem_append, List.mem_map, Prod.mk.injEq,
        List.not_mem_nil, or_false] at hpart
      grind [Environs.Inside.enter, Environs.Inside.declare, Environs.inside_enterFunction,
        Environs.Inside.add, Environs.enterLoop, Environs.Inside]

theorem Occurs.inside {program : List Stmt} {Γ : Environs} {p : Fragment} (h : Occurs program Γ p) :
    Γ.Inside := by
  induction h with
  | here => exact Nat.le_refl 0
  | part _ hpart ih => exact Fragment.inside_part hpart ih

/-- An expression uses a name from inside a function in the initial value of the variable itself, which is
declared in the region that `distance` layers lead to. -/
def Initializing (program : List Stmt) (Γ : Environs) (e : Expr) (name : Bytes) (distance : Nat) :
    Prop :=
  ∃ Γ₀ pos t value id keyword params body,
    Occurs program Γ₀ (.stmt (.declare pos t (some value))) ∧ t.lexeme = name ∧
      Γ₀.layers.length + distance = Γ.layers.length ∧
      Below (Γ₀.declare name) (.expr value) (Γ₀.declare name)
        (.expr (.lambda id keyword params body)) ∧
      Below ((Γ₀.declare name).enterFunction .function params body) (.list body) Γ (.expr e)

theorem Environs.unreadyIn_of_mem {name : Bytes} : ∀ {layers : List Layer} {d : Nat} {layer : Layer},
    layers[d]? = some layer → (name, false) ∈ layer.names → UnreadyIn (layers.length - d) name layers
  | [], _, _, h, _ => by simp at h
  | first :: outer, 0, layer, h, hmem => by
    obtain rfl : first = layer := by simpa using h
    exact .inl ⟨rfl, hmem⟩
  | first :: outer, d + 1, layer, h, hmem => by
    have hlater := Environs.unreadyIn_of_mem (by simpa using h) hmem
    right
    rwa [List.length_cons, Nat.add_sub_add_right]

/-- A distance leads to a layer with the name; if the name is not ready there, it is used from inside its
own initial value. -/
theorem Occurs.distance_layer {program : List Stmt} {Γ : Environs} {e : Expr} {name : Bytes} {d : Nat}
    (h : Occurs program Γ (.expr e)) (hd : Γ.distance? name = some d) :
    ∃ layer, Γ.layers[d]? = some layer ∧ name ∈ layer.names.map Prod.fst ∧
      ((name, true) ∈ layer.names ∨ Initializing program Γ e name d) := by
  obtain ⟨layer, hlayer, ready, hmem, hready⟩ := Environs.distance?_layer hd
  refine ⟨layer, hlayer, List.mem_map.2 ⟨_, hmem, rfl⟩, ?_⟩
  cases ready with
  | true => exact .inl hmem
  | false =>
    right
    have hlt : d < Γ.layers.length := (List.getElem?_eq_some_iff.1 hlayer).1
    obtain ⟨Γ₀, pos, t, value, hdeclare, hname, hlength, hbelow⟩ :=
      h.initializing (Environs.unreadyIn_of_mem hlayer hmem)
    rcases hbelow.through_lambda with ⟨hΓ, -⟩ | ⟨id, keyword, params, body, hlambda, hinside⟩
    · -- outside all functions of the initial value the name is not usable
      have hin := h.inside
      have hout := hready rfl
      have hsame : Γ.layers.length = Γ₀.layers.length := by
        rw [hΓ]
        simp [Environs.declare]
      unfold Environs.Inside at hin
      rw [List.length_tail] at hin
      omega
    · exact ⟨Γ₀, pos, t, value, id, keyword, params, body, hdeclare, hname, by omega, hlambda, hinside⟩

/-! ## Uses of names -/

/-- The use of a name that the next step looks up or assigns to. -/
def Machine.touches (m : Machine) : Option (NodeId × Token) :=
  match m.control with
  | .eval (.ident id name) | .eval (.compound id name _ _ _) | .eval (.update id name _ _ _)
  | .eval (.this id name) => some (id, name)
  | .give _ =>
    match m.pending with
    | .assign id name :: _ | .compound id name _ _ _ :: _ => some (id, name)
    | _ => none
  | _ => none

section

variable {programs : List (List Stmt)} {labels : List Region} {hosted : Bool} {m : Machine}

/-- A name that is used now is used by a piece of a program, in an environment that matches it. -/
theorem Machine.Fits.touches (h : m.Fits programs labels hosted) {id : NodeId} {name : Token}
    (ht : m.touches = some (id, name)) : ∃ Γ e, Here programs Γ (.expr e) ∧
      Chain labels m.store m.env Γ.layers ∧ e.use? = some (id, name.lexeme) := by
  have hcontrol := h.control
  unfold Machine.touches at ht
  generalize m.control = control at hcontrol ht
  cases hcontrol with
  | @eval e Γ he henv _ =>
    have hspelled : e.use? = some (id, name.lexeme) := by
      cases e with
      | ident | compound | update =>
        cases ht
        rfl
      | this =>
        cases ht
        have hproper := h.known.built he name (by simp [Expr.tokens])
        rw [Expr.use?, hproper.this (h.known.placed he).2]
      | _ => cases ht
    exact ⟨Γ, e, he, henv, hspelled⟩
  | give hstack =>
    generalize m.env = env at hstack ⊢
    generalize m.pending = pending at hstack ht
    cases hstack with
    | @operand e p Γ env rest hp he henv _ =>
      have hspelled : e.use? = some (id, name.lexeme) := by
        cases hp with
        | assign | compound =>
          cases ht
          rfl
        | _ => cases ht
      exact ⟨Γ, e, he, henv, hspelled⟩
    | statement hp => cases hp <;> cases ht
    | _ => cases ht
  | _ => cases ht

end

/-! ## Agreement -/

/-- The frames of every run are those that the check counted. -/
theorem Reached.frames_agree {programs : List (List Stmt)} {labels : List Region} {hosted : Bool}
    {i : Interpreter} {m : Machine} (h : Reached programs labels (.running hosted i m)) :
    (∀ e, m.control = .eval e → ∃ program ∈ programs, ∃ Γ, Occurs program Γ (.expr e) ∧
      Mirrors labels m.store m.env Γ.layers) ∧
    (∀ id name, m.touches = some (id, name) → ∃ program ∈ programs, ∃ Γ e,
      Occurs program Γ (.expr e) ∧ e.use? = some (id, name.lexeme) ∧
      Mirrors labels m.store m.env Γ.layers ∧
      m.distances.find? id = Γ.distance? name.lexeme ∧
      ∀ d, m.distances.find? id = some d → ∃ f layer, m.store.ancestor? m.env d = some f ∧
        Γ.layers[d]? = some layer ∧ labels[f]? = some layer.region ∧
        name.lexeme ∈ layer.names.map Prod.fst ∧
        (m.store.binds f name.lexeme = true ∨ Initializing program Γ e name.lexeme d)) ∧
    ∀ d, m.control ≠ .halt (.fault (.shortChain d)) := by
  have hm : m.Fits programs labels hosted := h.fits.2
  refine ⟨fun e he => ?_, fun id name ht => ?_, fun d hd => ?_⟩
  · have hcontrol := hm.control
    rw [he] at hcontrol
    cases hcontrol with
    | eval hhere henv _ =>
      obtain ⟨program, hprogram, hocc⟩ := hhere
      exact ⟨program, hprogram, _, hocc, henv.mirrors⟩
  · obtain ⟨Γ, e, hhere, henv, huse⟩ := hm.touches ht
    have hfind := hm.known.find?_eq hhere huse
    obtain ⟨program, hprogram, hocc⟩ := hhere
    refine ⟨program, hprogram, Γ, e, hocc, huse, henv.mirrors, hfind, fun d hd => ?_⟩
    obtain ⟨layer, hlayer, hnames, hready⟩ := hocc.distance_layer (hfind.symm.trans hd)
    obtain ⟨f, hf, hlabel, hbinds⟩ := henv.ancestor d layer hlayer
    exact ⟨f, layer, hf, hlayer, hlabel, hnames, hready.imp_left (hbinds _)⟩
  · have hcontrol := hm.control
    rw [hd] at hcontrol
    cases hcontrol with
    | halt hhalt _ => exact hhalt d rfl

/-- A block inside a block, in which a name of the outer one is read. -/
theorem Reached.frames_agree_nested : ∃ programs labels i m id name f region,
    Reached programs labels (.running false i m) ∧ m.touches = some (id, name) ∧
      m.distances.find? id = some 1 ∧ m.store.ancestor? m.env 1 = some f ∧
      labels[f]? = some region := by
  obtain ⟨programs, labels, hm⟩ := Reached.start.launch
    (show Interpreter.accepts 0 (text "\x7b let a = 1; \x7b print a; \x7d \x7d") = true by
      decide +kernel) 8
  generalize hlookup : Machine.steps _ 8 = m at hm
  have huse : (m.touches.bind fun use => m.distances.find? use.1) = some 1 := by
    rw [← hlookup]
    decide +kernel
  obtain ⟨⟨id, name⟩, ht, hd⟩ := Option.bind_eq_some_iff.1 huse
  obtain ⟨_, -, _, _, -, -, -, -, hframe⟩ := hm.frames_agree.2.1 id name ht
  obtain ⟨f, layer, hf, -, hlabel, -, -⟩ := hframe 1 hd
  exact ⟨programs, labels, _, m, id, name, f, layer.region, hm, ht, hd, hf, hlabel⟩

end Treewalk
