import Treewalk.Proofs.Scope.Report
import Treewalk.Proofs.Token.Spelling

/-!
# Names of locals do not matter

A local is renamed where it is declared and at the uses that lead to it. The new name is one that the source
does not have.

**Renaming.** A `Renaming` changes one declaration and some uses, and leaves everything else as it is: names
of methods, fields and properties, and the receiver. `Renaming.of` takes the uses from the report of the
check.

**Environs.** What is around a piece and what is around the renamed piece differ in one name of one region
(`Renaming.Relates`). Going to parts keeps this (`Renaming.relates_order`), and then a use is at the same
distance from its declaration, whether it has got the new name or not (`Renaming.distanceIn?_eq`).

Main result: a source that is accepted is accepted with a local renamed, and the check notes the same uses
with the same distances (`Resolution.ofProgram_rename`).
-/

namespace Treewalk

open Environs

/-! ## Renaming -/

/-- The same word of the text. -/
def Token.same (t u : Token) : Bool := t.lexeme == u.lexeme && t.pos == u.pos

theorem Token.lexeme_of_same {t u : Token} (h : t.same u = true) : t.lexeme = u.lexeme := by
  simp only [same, Bool.and_eq_true, beq_iff_eq] at h
  exact h.1

/-- A name is declared in a region. -/
def Region.declares (r : Region) (t : Token) : Bool := r.names.any (·.same t)

/-- A declaration and the identities of the uses that get a new name. -/
structure Renaming where
  old : Token
  uses : NodeId → Bool
  new : Bytes

namespace Renaming

variable (R : Renaming)

/-- The name of a declaration. -/
def binder (t : Token) : Token := if t.same R.old then { t with lexeme := R.new } else t

/-- The name in a use. -/
def use (id : NodeId) (t : Token) : Token := if R.uses id then { t with lexeme := R.new } else t

/-- How a name that a region declares is spelled then. -/
def spelling (r : Region) (name : Bytes) : Bytes :=
  if r.declares R.old = true ∧ name = R.old.lexeme then R.new else name

end Renaming

mutual

/-- Renames in an expression. -/
def Expr.rename (R : Renaming) : Expr → Expr
  | .literal id t => .literal id t
  | .group id t e => .group id t (e.rename R)
  | .unary id op t e => .unary id op t (e.rename R)
  | .binary id op t l r => .binary id op t (l.rename R) (r.rename R)
  | .logical id op t l r => .logical id op t (l.rename R) (r.rename R)
  | .ternary id t c y n => .ternary id t (c.rename R) (y.rename R) (n.rename R)
  | .ident id t => .ident id (R.use id t)
  | .assign id t e => .assign id (R.use id t) (e.rename R)
  | .compound id t op u e => .compound id (R.use id t) op u (e.rename R)
  | .update id t op u before => .update id (R.use id t) op u before
  | .updateIndex id o t i op u before => .updateIndex id (o.rename R) t (i.rename R) op u before
  | .updateGet id o t op u before => .updateGet id (o.rename R) t op u before
  | .call id c t args => .call id (c.rename R) t (Expr.renameAll R args)
  | .lambda id t params body => .lambda id t (params.map R.binder) (Stmt.renameAll R body)
  | .array id t es => .array id t (Expr.renameAll R es)
  | .index id o t i => .index id (o.rename R) t (i.rename R)
  | .get id o t => .get id (o.rename R) t
  | .set id o t e => .set id (o.rename R) t (e.rename R)
  | .this id t => .this id t

/-- Renames in expressions. -/
def Expr.renameAll (R : Renaming) : List Expr → List Expr
  | [] => []
  | e :: es => e.rename R :: Expr.renameAll R es

/-- Renames in an expression that may be absent. -/
def Expr.renameOpt (R : Renaming) : Option Expr → Option Expr
  | none => none
  | some e => some (e.rename R)

/-- Renames in a statement. -/
def Stmt.rename (R : Renaming) : Stmt → Stmt
  | .expression pos e => .expression pos (e.rename R)
  | .print pos e => .print pos (e.rename R)
  | .declare pos t value => .declare pos (R.binder t) (Expr.renameOpt R value)
  | .block pos body => .block pos (Stmt.renameAll R body)
  | .branch pos cond yes no => .branch pos (cond.rename R) (yes.rename R) (Stmt.renameOpt R no)
  | .loop pos cond body => .loop pos (cond.rename R) (body.rename R)
  | .forLoop pos start cond step body =>
    .forLoop pos (Stmt.renameOpt R start) (Expr.renameOpt R cond) (Expr.renameOpt R step) (body.rename R)
  | .leave t => .leave t
  | .skip t => .skip t
  | .result t value => .result t (Expr.renameOpt R value)
  | .function (.mk t params body) =>
    .function (.mk (R.binder t) (params.map R.binder) (Stmt.renameAll R body))
  | .classDecl pos t fields methods =>
    .classDecl pos (R.binder t) (Field.renameAll R fields) (Function.renameAll R methods)

/-- Renames in a statement that may be absent. -/
def Stmt.renameOpt (R : Renaming) : Option Stmt → Option Stmt
  | none => none
  | some s => some (s.rename R)

/-- Renames in statements. -/
def Stmt.renameAll (R : Renaming) : List Stmt → List Stmt
  | [] => []
  | s :: ss => s.rename R :: Stmt.renameAll R ss

/-- Renames in methods; their own names are no locals. -/
def Function.renameAll (R : Renaming) : List Function → List Function
  | [] => []
  | .mk t params body :: ds => .mk t (params.map R.binder) (Stmt.renameAll R body) :: Function.renameAll R ds

/-- Renames in the initial values of fields. -/
def Field.renameAll (R : Renaming) : List Field → List Field
  | [] => []
  | .mk t value :: ds => .mk t (value.rename R) :: Field.renameAll R ds

end

/-- Renames in a piece. -/
def Fragment.rename (R : Renaming) : Fragment → Fragment
  | .expr e => .expr (e.rename R)
  | .stmt s => .stmt (s.rename R)
  | .list ss => .list (Stmt.renameAll R ss)

section

variable (R : Renaming)

@[simp] theorem Expr.renameAll_eq_map (es : List Expr) : Expr.renameAll R es = es.map (Expr.rename R) := by
  induction es with
  | nil => rfl
  | cons e es ih => rw [Expr.renameAll, ih, List.map_cons]

@[simp] theorem Expr.renameOpt_eq_map (e : Option Expr) : Expr.renameOpt R e = e.map (Expr.rename R) := by
  cases e <;> simp [Expr.renameOpt]

@[simp] theorem Stmt.renameOpt_eq_map (s : Option Stmt) : Stmt.renameOpt R s = s.map (Stmt.rename R) := by
  cases s <;> simp [Stmt.renameOpt]

theorem Stmt.renameAll_eq_map (ss : List Stmt) : Stmt.renameAll R ss = ss.map (Stmt.rename R) := by
  induction ss with
  | nil => rfl
  | cons s ss ih => rw [Stmt.renameAll, ih, List.map_cons]

/-- Renames in a method. -/
def Function.rename (d : Function) : Function := .mk d.name (d.params.map R.binder) (Stmt.renameAll R d.body)

/-- Renames in the initial value of a field. -/
def Field.rename (d : Field) : Field := .mk d.name (d.value.rename R)

@[simp] theorem Function.renameAll_eq_map (ds : List Function) :
    Function.renameAll R ds = ds.map (Function.rename R) := by
  induction ds with
  | nil => rfl
  | cons d ds ih =>
    cases d
    rw [Function.renameAll, ih, List.map_cons]
    rfl

@[simp] theorem Field.renameAll_eq_map (ds : List Field) :
    Field.renameAll R ds = ds.map (Field.rename R) := by
  induction ds with
  | nil => rfl
  | cons d ds ih =>
    cases d
    rw [Field.renameAll, ih, List.map_cons]
    rfl

end

/-! ## Parts of a renamed piece -/

section

variable (R : Renaming)

/-- Renaming commutes with going to parts. -/
theorem Fragment.inward_rename (π : List Enclosure) (p : Fragment) :
    (p.rename R).inward π = (p.inward π).map fun part => (part.1, part.2.rename R) := by
  cases p with
  | expr e =>
    cases e <;> simp [rename, Expr.rename, inward, enclosed, Expr.enclosed, Function.comp_def]
  | stmt s =>
    cases s with
    | function d =>
      cases d
      simp [rename, Stmt.rename, inward, enclosed, Stmt.enclosed, Function.body]
    | _ => simp [rename, Stmt.rename, inward, enclosed, Stmt.enclosed, Function.comp_def, Function.rename,
      Field.rename, Function.body, Field.value, Function.name, Option.toList_map]
  | list ss => cases ss <;> simp [rename, Stmt.renameAll, inward, enclosed]

/-- The parts of a renamed piece are the renamed parts. -/
theorem Fragment.part_of_rename {Γ' : Environs} {p : Fragment} {part' : Environs × Fragment}
    (h : part' ∈ (p.rename R).parts Γ') (Γ : Environs) : ∃ part ∈ p.parts Γ, part'.2 = part.2.rename R := by
  obtain ⟨π, hinward⟩ := exists_inward h []
  rw [inward_rename] at hinward
  obtain ⟨part, hpart, heq⟩ := List.mem_map.1 hinward
  obtain ⟨Δ, hmem⟩ := exists_part hpart Γ
  exact ⟨(Δ, part.2), hmem, (Prod.mk.inj heq).2.symm⟩

theorem Stmt.isDeclaration_rename (s : Stmt) : (s.rename R).isDeclaration = s.isDeclaration := by
  cases s with
  | function d =>
    cases d
    rfl
  | _ => simp only [Stmt.rename, Stmt.isDeclaration]

theorem Fragment.Plain.rename {p : Fragment} (h : p.Plain) : (p.rename R).Plain := by
  cases p with
  | expr e => cases e <;> trivial
  | stmt s =>
    cases s with
    | branch pos cond yes no =>
      simpa [Plain, Fragment.rename, Stmt.rename, Stmt.isDeclaration_rename] using h
    | loop pos cond body | forLoop pos start cond step body =>
      simpa [Plain, Fragment.rename, Stmt.rename, Stmt.isDeclaration_rename] using h
    | function d =>
      cases d
      trivial
    | _ => trivial
  | list ss => trivial

/-- The bodies of branches and loops declare nothing after renaming, either. -/
theorem Fragment.plain_rename : ∀ (Γ : Environs) (p : Fragment), Everywhere (fun _ q => q.Plain) Γ p →
    ∀ Γ', Everywhere (fun _ q => q.Plain) Γ' (p.rename R) := by
  refine Fragment.of_parts fun Γ p ih h Γ' => ?_
  refine everywhere_of_parts (h.here.rename R) fun part' hpart' => ?_
  obtain ⟨part, hpart, heq⟩ := part_of_rename R hpart' Γ
  rw [heq]
  exact ih part hpart (h.part hpart) part'.1

/-! ## Names of a renamed piece -/

theorem Stmt.declares_rename : ∀ s : Stmt, (s.rename R).declares = s.declares.map R.binder
  | .branch _ _ yes none => by
    simpa [Stmt.rename, Stmt.declares] using Stmt.declares_rename yes
  | .branch _ _ yes (some no) => by
    simp [Stmt.rename, Stmt.declares, Stmt.declares_rename yes, Stmt.declares_rename no]
  | .loop _ _ body => by
    simpa [Stmt.rename, Stmt.declares] using Stmt.declares_rename body
  | .function (.mk _ _ _) => by
    simp [Stmt.rename, Stmt.declares, Function.name]
  | .expression _ _ | .print _ _ | .declare _ _ _ | .block _ _ | .forLoop _ _ _ _ _ | .leave _ | .skip _
  | .result _ _ | .classDecl _ _ _ _ => by
    simp [Stmt.rename, Stmt.declares]

theorem Stmt.declaresAll_rename (ss : List Stmt) :
    Stmt.declaresAll (Stmt.renameAll R ss) = (Stmt.declaresAll ss).map R.binder := by
  simp [Stmt.declaresAll, Stmt.renameAll_eq_map, List.flatMap_map, List.map_flatMap, Stmt.declares_rename]

/-- A renamed piece has the same scopes with the new name. -/
theorem Fragment.scopes_rename (p : Fragment) : (p.rename R).scopes = p.scopes.map (List.map R.binder) := by
  cases p with
  | expr e =>
    cases e <;> simp [Fragment.rename, Expr.rename, scopes, Stmt.declaresAll_rename]
  | stmt s =>
    cases s with
    | function d =>
      cases d
      simp [Fragment.rename, Stmt.rename, scopes, Function.declares, Function.params, Function.body,
        Stmt.declaresAll_rename]
    | forLoop pos start cond step body =>
      cases start <;> simp [Fragment.rename, Stmt.rename, scopes, Stmt.declaresHeader, Stmt.declares_rename]
    | _ => simp [Fragment.rename, Stmt.rename, scopes, Stmt.declaresAll_rename, Function.rename,
      Function.declares, Function.params, Function.body, Function.comp_def]
  | list ss => rfl

end

namespace Renaming

variable {R : Renaming}

variable (R) in
/-- A region without two names alike, of which none is the new one or the receiver. -/
structure Fitting (r : Region) : Prop where
  distinct : Distinct r.names
  fresh : ∀ t ∈ r.names, t.lexeme ≠ R.new
  proper : ∀ t ∈ r.names, t.lexeme ≠ text "this"

/-- Different names are spelled differently. -/
theorem spelling_inj {r : Region} {a b : Bytes} (ha : a ≠ R.new) (hb : b ≠ R.new) :
    R.spelling r a = R.spelling r b ↔ a = b := by
  unfold spelling
  constructor
  · intro h
    split at h <;> split at h
    · rename_i h₁ h₂
      exact h₁.2.trans h₂.2.symm
    · exact absurd h.symm hb
    · exact absurd h ha
    · exact h
  · rintro rfl
    rfl

/-- In the region of the declaration no other name is spelled like the one that changes. -/
theorem Fitting.lexeme_binder {r : Region} (h : R.Fitting r) {t : Token} (ht : t ∈ r.names) :
    (R.binder t).lexeme = R.spelling r t.lexeme := by
  unfold binder spelling
  by_cases hsame : t.same R.old = true
  · have hdeclares : r.declares R.old = true := List.any_eq_true.2 ⟨t, ht, hsame⟩
    rw [if_pos hsame, if_pos ⟨hdeclares, Token.lexeme_of_same hsame⟩]
  · rw [if_neg hsame, if_neg]
    rintro ⟨hdeclares, hlexeme⟩
    obtain ⟨u, hu, hsame'⟩ := List.any_eq_true.1 hdeclares
    have heq : t = u :=
      List.inj_on_of_nodup_map h.distinct ht hu (hlexeme.trans (Token.lexeme_of_same hsame').symm)
    exact hsame (heq ▸ hsame')

theorem Fitting.distinct_binder {r : Region} (h : R.Fitting r) : Distinct (r.names.map R.binder) := by
  have hlexemes : (r.names.map R.binder).map (·.lexeme) = (r.names.map (·.lexeme)).map (R.spelling r) := by
    rw [List.map_map, List.map_map]
    exact List.map_congr_left fun t ht => h.lexeme_binder ht
  unfold Distinct
  rw [hlexemes]
  refine h.distinct.map_on fun a ha b hb heq => ?_
  obtain ⟨t, ht, rfl⟩ := List.mem_map.1 ha
  obtain ⟨u, hu, rfl⟩ := List.mem_map.1 hb
  exact (spelling_inj (h.fresh t ht) (h.fresh u hu)).1 heq

/-! ## Environs of a renamed piece -/

variable (R) in
/-- The layers have the same names up to the new spelling. -/
structure Carries (l l' : Layer) : Prop where
  names : l'.names = l.names.map fun n => (R.spelling l.region n.1, n.2)
  fresh : ∀ n ∈ l.names, n.1 ≠ R.new

namespace Carries

variable {l l' : Layer} {name : Bytes}

theorem declare (h : R.Carries l l') (hname : name ≠ R.new) :
    R.Carries (l.declare name) (l'.declare (R.spelling l.region name)) := by
  refine ⟨by simp [Layer.declare, h.names], fun n hn => ?_⟩
  rcases List.mem_append.1 hn with hn | hn
  · exact h.fresh n hn
  · rw [List.mem_singleton.1 hn]
    exact hname

theorem define (h : R.Carries l l') (hname : name ≠ R.new) :
    R.Carries (l.define name) (l'.define (R.spelling l.region name)) := by
  constructor
  · simp only [Layer.define, h.names, List.map_map]
    refine List.map_congr_left fun n hn => ?_
    have hinj := spelling_inj (r := l.region) (h.fresh n hn) hname
    by_cases heq : n.1 = name
    · simp [heq]
    · simp [heq, hinj]
  · intro n hn
    obtain ⟨m, hm, rfl⟩ := List.mem_map.1 hn
    split <;> exact h.fresh m hm

/-- A name can be used under its new spelling. -/
theorem offers_spelling (h : R.Carries l l') {later : Bool} (hoffers : l.offers later name = true) :
    l'.offers later (R.spelling l.region name) = true := by
  obtain ⟨n, hn, heq⟩ := List.any_eq_true.1 hoffers
  rw [Bool.and_eq_true, beq_iff_eq] at heq
  refine List.any_eq_true.2 ⟨(R.spelling l.region n.1, n.2), ?_, by simp [heq.1, heq.2]⟩
  rw [h.names]
  exact List.mem_map_of_mem hn

/-- What can be used under the old or the new spelling can be used before. -/
theorem offers_of_offers (h : R.Carries l l') (hname : name ≠ R.new) {x : Bytes} {later : Bool}
    (hx : x = name ∨ x = R.new ∧ name = R.old.lexeme) (hoffers : l'.offers later x = true) :
    l.offers later name = true := by
  obtain ⟨n', hn', heq⟩ := List.any_eq_true.1 hoffers
  rw [h.names] at hn'
  obtain ⟨n, hn, rfl⟩ := List.mem_map.1 hn'
  rw [Bool.and_eq_true, beq_iff_eq] at heq
  have hsame : n.1 = name := by
    obtain ⟨hspelling, -⟩ := heq
    have hfresh := h.fresh n hn
    unfold spelling at hspelling
    grind
  exact List.any_eq_true.2 ⟨n, hn, by simp [hsame, heq.2]⟩

end Carries

/-- A name is at the same distance under its new spelling. -/
theorem distanceIn?_eq {outside : Nat} {name : Bytes} {ls ls' : List Layer}
    (h : List.Forall₂ R.Carries ls ls') (hname : name ≠ R.new) {renamed : Bool}
    (hrenamed : renamed = true ↔ name = R.old.lexeme ∧ ∃ r,
      (distanceIn? outside name ls).bind ((ls.map Layer.region)[·]?) = some r ∧ r.declares R.old = true) :
    distanceIn? outside (if renamed then R.new else name) ls' = distanceIn? outside name ls := by
  induction h with
  | nil => rfl
  | @cons l l' outer outer' hl houter ih =>
    rw [distanceIn?, ← houter.length_eq]
    rw [distanceIn?] at hrenamed ⊢
    by_cases hoffers : l.offers (outer.length < outside) name = true
    · rw [if_pos hoffers] at hrenamed ⊢
      have hspelling : (if renamed then R.new else name) = R.spelling l.region name := by
        unfold spelling
        simp only [Option.bind_some, List.map_cons, List.getElem?_cons_zero, Option.some.injEq,
          exists_eq_left'] at hrenamed
        simp only [hrenamed, and_comm]
      rw [hspelling, if_pos (hl.offers_spelling hoffers)]
    · rw [if_neg hoffers] at hrenamed ⊢
      have hshift : ∀ found : Option Nat, (found.map (· + 1)).bind (((l :: outer).map Layer.region)[·]?) =
          found.bind ((outer.map Layer.region)[·]?) := by
        intro found
        cases found <;> simp
      rw [hshift] at hrenamed
      have hx : (if renamed then R.new else name) = name ∨
          (if renamed then R.new else name) = R.new ∧ name = R.old.lexeme := by
        cases renamed with
        | false => exact .inl rfl
        | true => exact .inr ⟨rfl, (hrenamed.1 rfl).1⟩
      rw [if_neg fun h => hoffers (hl.offers_of_offers hname hx h), ih hrenamed]

variable (R) in
/-- What is around a piece, and what is around it once it is renamed. -/
structure Relates (Γ Γ' : Environs) : Prop where
  context : Γ'.toContext = Γ.toContext
  layers : List.Forall₂ R.Carries Γ.layers Γ'.layers

variable (R) in
/-- The name belongs to the innermost region around. -/
def Admits (Γ : Environs) (t : Token) : Prop :=
  ∀ r, Γ.regions.head? = some r → R.Fitting r ∧ t ∈ r.names

theorem Fitting.admits {r : Region} (h : R.Fitting r) {t : Token} (ht : t ∈ r.names) {Γ : Environs}
    {outer : List Region} (hΓ : Γ.regions = r :: outer) : R.Admits Γ t := by
  intro r' hr'
  rw [hΓ, List.head?_cons, Option.some.injEq] at hr'
  exact hr' ▸ ⟨h, ht⟩

namespace Relates

variable {Γ Γ' : Environs} {t : Token}

theorem start : R.Relates {} {} := ⟨rfl, .nil⟩

/-- A change of the innermost layer. -/
theorem modifyHead {f g : Layer → Layer} (h : R.Relates Γ Γ')
    (hfg : ∀ l l', Γ.regions.head? = some l.region → R.Carries l l' → R.Carries (f l) (g l')) :
    R.Relates { Γ with layers := Γ.layers.modifyHead f } { Γ' with layers := Γ'.layers.modifyHead g } := by
  refine ⟨h.context, ?_⟩
  have hlayers := h.layers
  unfold Environs.regions at hfg
  revert hfg hlayers
  cases Γ.layers <;> cases Γ'.layers <;> simp +contextual

theorem declare (h : R.Relates Γ Γ') (ht : R.Admits Γ t) :
    R.Relates (Γ.declare t.lexeme) (Γ'.declare (R.binder t).lexeme) := by
  refine h.modifyHead fun l l' hl hcarries => ?_
  obtain ⟨hfitting, hmem⟩ := ht l.region hl
  rw [hfitting.lexeme_binder hmem]
  exact hcarries.declare (hfitting.fresh t hmem)

theorem add (h : R.Relates Γ Γ') (ht : R.Admits Γ t) :
    R.Relates (Γ.add t.lexeme) (Γ'.add (R.binder t).lexeme) := by
  refine (h.declare ht).modifyHead fun l l' hl hcarries => ?_
  rw [regions_declare] at hl
  obtain ⟨hfitting, hmem⟩ := ht l.region hl
  rw [hfitting.lexeme_binder hmem]
  exact hcarries.define (hfitting.fresh t hmem)

theorem addAll (ts : List Token) (h : R.Relates Γ Γ') (hts : ∀ t ∈ ts, R.Admits Γ t) :
    R.Relates (Γ.addAll ts) (Γ'.addAll (ts.map R.binder)) := by
  induction ts generalizing Γ Γ' with
  | nil => exact h
  | cons t ts ih =>
    refine ih (h.add (hts t List.mem_cons_self)) fun u hu => ?_
    unfold Admits
    rw [regions_add]
    exact hts u (List.mem_cons_of_mem _ hu)

theorem enter (h : R.Relates Γ Γ') (r r' : Region) : R.Relates (Γ.enter r) (Γ'.enter r') :=
  ⟨h.context, .cons ⟨rfl, nofun⟩ h.layers⟩

theorem enterFunction (h : R.Relates Γ Γ') {kind : Scope.Body} {params : List Token} {body : List Stmt}
    (hfitting : R.Fitting (.function params body)) (body' : List Stmt) :
    R.Relates (Γ.enterFunction kind params body) (Γ'.enterFunction kind (params.map R.binder) body') := by
  have hinside := h.enter (.function params body) (.function (params.map R.binder) body')
  refine addAll params ⟨?_, hinside.layers⟩ fun t ht => ?_
  · rw [h.context, h.layers.length_eq]
  · exact hfitting.admits (List.mem_append_left _ ht) rfl

theorem receive (h : R.Relates Γ Γ') (hnew : R.new ≠ text "this") (name : Token) (fields : List Field)
    (methods : List Function) (r' : Region) :
    R.Relates (Γ.receive (.ofClass name fields methods)) (Γ'.receive r') := by
  have hspelling : R.spelling (.ofClass name fields methods) (text "this") = text "this" := by
    simp [spelling, Region.declares, Region.ofClass, Region.names, Region.params, Region.locals]
  refine ⟨congrArg (fun ctx : Scope.Context => { ctx with inClass := true }) h.context, ?_⟩
  refine .cons ⟨?_, fun n hn => ?_⟩ h.layers
  · simp [Layer.declare, Layer.define, hspelling]
  · simp only [Layer.declare, Layer.define, List.nil_append, List.map_cons, List.map_nil,
      List.mem_singleton] at hn
    rw [hn]
    simpa using hnew.symm

theorem enterLoop (h : R.Relates Γ Γ') : R.Relates Γ.enterLoop Γ'.enterLoop :=
  ⟨congrArg (fun ctx : Scope.Context => { ctx with inLoop := true }) h.context, h.layers⟩

theorem after (s : Stmt) (h : R.Relates Γ Γ') (hs : ∀ t ∈ s.declares, R.Admits Γ t) :
    R.Relates (Γ.after s) (Γ'.after (s.rename R)) := by
  cases s with
  | declare pos t value | classDecl pos t fields methods =>
    simp only [Stmt.rename]
    exact h.add (hs t (List.mem_singleton_self _))
  | function d =>
    cases d
    simp only [Stmt.rename]
    exact h.add (hs _ (List.mem_singleton_self _))
  | _ =>
    simp only [Stmt.rename]
    exact h

theorem afterOpt (s : Option Stmt) (h : R.Relates Γ Γ') (hs : ∀ v ∈ s, ∀ t ∈ v.declares, R.Admits Γ t) :
    R.Relates (Γ.afterOpt s) (Γ'.afterOpt (s.map (Stmt.rename R))) := by
  cases s with
  | none => exact h
  | some s => exact h.after s (hs s rfl)

end Relates

/-! ## Along the tree -/

variable (R) in
/-- A piece can be renamed: the regions around it and those that it opens fit, it declares names of the
innermost one, and it gets the new name exactly if it is a use of the declaration. -/
structure Suits (Γ : Environs) (p : Fragment) : Prop where
  around : ∀ r ∈ Γ.regions, R.Fitting r
  declares : ∀ r, Γ.regions.head? = some r → p.declares ⊆ r.names
  opens : ∀ x ∈ p.opens Γ, R.Fitting x.region
  own : ∀ m ∈ p.own Γ, m.name ≠ R.new ∧ (R.uses m.id = true ↔
    m.name = R.old.lexeme ∧ ∃ r, m.region? = some r ∧ r.declares R.old = true)

variable {Γ Γ' : Environs} {p : Fragment}

theorem Suits.admits (h : R.Suits Γ p) {t : Token} (ht : t ∈ p.declares) : R.Admits Γ t :=
  fun r hr => ⟨h.around r (List.mem_of_mem_head? hr), h.declares r hr ht⟩

variable (R) in
/-- A part and the renamed part, each with what is around it. -/
def Matches (part part' : Environs × Fragment) : Prop :=
  R.Relates part.1 part'.1 ∧ part'.2 = part.2.rename R

/-- Parts that have the same around them. -/
theorem Relates.matches_map (h : R.Relates Γ Γ') {α : Type} {f : α → Fragment} {g : α → α}
    (hfg : ∀ x, f (g x) = (f x).rename R) (xs : List α) :
    List.Forall₂ R.Matches (xs.map fun x => (Γ, f x)) ((xs.map g).map fun x => (Γ', f x)) := by
  rw [List.forall₂_map_left_iff, List.forall₂_map_right_iff, List.forall₂_map_right_iff, List.forall₂_same]
  exact fun x _ => ⟨h, hfg x⟩

/-- Going to parts is the same before and after renaming. -/
theorem relates_order (h : R.Suits Γ p) (hΓ : R.Relates Γ Γ') (hnew : R.new ≠ text "this") :
    List.Forall₂ R.Matches (p.order Γ) ((p.rename R).order Γ') := by
  have hexprs : ∀ {Δ Δ'}, R.Relates Δ Δ' → ∀ es : List Expr, List.Forall₂ R.Matches
      (es.map fun e => (Δ, .expr e)) ((es.map (Expr.rename R)).map fun e => (Δ', .expr e)) :=
    fun hΔ => hΔ.matches_map fun _ => rfl
  have hstmts : ∀ {Δ Δ'}, R.Relates Δ Δ' → ∀ ss : List Stmt, List.Forall₂ R.Matches
      (ss.map fun s => (Δ, .stmt s)) ((ss.map (Stmt.rename R)).map fun s => (Δ', .stmt s)) :=
    fun hΔ => hΔ.matches_map fun _ => rfl
  cases p with
  | expr e =>
    cases e with
    | lambda id t params body =>
      have hfitting : R.Fitting (.function params body) := h.opens _ (List.mem_singleton_self _)
      simp only [Fragment.rename, Expr.rename, Fragment.order, Fragment.parts, Expr.parts]
      exact .cons ⟨hΓ.enterFunction hfitting _, rfl⟩ .nil
    | _ => simp [Fragment.rename, Expr.rename, Fragment.order, Fragment.parts, Expr.parts, Matches, hΓ]
  | stmt s =>
    cases s with
    | expression | print | leave | skip =>
      simp [Fragment.rename, Stmt.rename, Fragment.order, Fragment.parts, Stmt.parts, Matches, hΓ]
    | declare pos t value =>
      simp only [Fragment.rename, Stmt.rename, Fragment.order, Fragment.parts, Stmt.parts,
        Expr.renameOpt_eq_map, Option.toList_map]
      exact hexprs (hΓ.declare (h.admits (List.mem_singleton_self t))) _
    | block pos body =>
      simp only [Fragment.rename, Stmt.rename, Fragment.order, Fragment.parts, Stmt.parts]
      exact .cons ⟨hΓ.enter _ _, rfl⟩ .nil
    | branch pos cond yes no =>
      simp only [Fragment.rename, Stmt.rename, Fragment.order, Fragment.parts, Stmt.parts,
        Stmt.renameOpt_eq_map, Option.toList_map]
      exact .cons ⟨hΓ, rfl⟩ (.cons ⟨hΓ, rfl⟩ (hstmts hΓ _))
    | loop pos cond body =>
      simp only [Fragment.rename, Stmt.rename, Fragment.order, Fragment.parts, Stmt.parts]
      exact .cons ⟨hΓ, rfl⟩ (.cons ⟨hΓ.enterLoop, rfl⟩ .nil)
    | forLoop pos start cond step body =>
      let r := Region.header pos start cond step body
      let r' := Region.header pos (start.map (Stmt.rename R)) (cond.map (Expr.rename R))
        (step.map (Expr.rename R)) (body.rename R)
      have hfitting : R.Fitting r := h.opens _ (List.mem_singleton_self _)
      have hnames : ∀ s ∈ start, s.declares ⊆ r.names := by
        intro s hs t ht
        show t ∈ start.toList.flatMap Stmt.declares ++ body.declares
        exact List.mem_append_left _ (List.mem_flatMap.2 ⟨s, Option.mem_toList.2 hs, ht⟩)
      have hinside := hΓ.enter r r'
      have hround := hinside.afterOpt start fun s hs t ht => hfitting.admits (hnames s hs ht) rfl
      simp only [Fragment.rename, Stmt.rename, Fragment.order, Fragment.parts, Stmt.parts,
        Stmt.renameOpt_eq_map, Expr.renameOpt_eq_map, Option.toList_map]
      exact List.rel_append (List.rel_append (List.rel_append (hstmts hinside _) (hexprs hround _))
        (hexprs hround _)) (.cons ⟨hround.enterLoop, rfl⟩ .nil)
    | result t value =>
      simp only [Fragment.rename, Stmt.rename, Fragment.order, Fragment.parts, Stmt.parts,
        Expr.renameOpt_eq_map, Option.toList_map]
      exact hexprs hΓ _
    | function d =>
      obtain ⟨t, params, body⟩ := d
      have hfitting : R.Fitting (.function params body) := h.opens _ (List.mem_singleton_self _)
      simp only [Fragment.rename, Stmt.rename, Fragment.order, Fragment.parts, Stmt.parts]
      exact .cons ⟨(hΓ.add (h.admits (List.mem_singleton_self t))).enterFunction hfitting _, rfl⟩ .nil
    | classDecl pos t fields methods =>
      have hinside := hΓ.add (h.admits (List.mem_singleton_self t))
      have hreceive := hinside.receive hnew t fields methods
        (.ofClass (R.binder t) (fields.map (Field.rename R)) (methods.map (Function.rename R)))
      simp only [Fragment.rename, Stmt.rename, Fragment.order, Fragment.parts, Stmt.parts,
        Field.renameAll_eq_map, Function.renameAll_eq_map]
      refine List.rel_append (hinside.matches_map (f := fun d => .expr d.value) (g := Field.rename R)
        (fun _ => rfl) fields) ?_
      rw [List.forall₂_map_left_iff, List.forall₂_map_right_iff, List.forall₂_map_right_iff,
        List.forall₂_same]
      exact fun d hd => ⟨hreceive.enterFunction (h.opens _ (List.mem_map_of_mem hd)) _, rfl⟩
  | list ss =>
    cases ss with
    | nil => exact .nil
    | cons s ss =>
      have hafter := hΓ.after s fun t ht => h.admits (List.mem_append_left _ ht)
      exact .cons ⟨hΓ, rfl⟩ (.cons ⟨hafter, rfl⟩ .nil)

/-- The use that a renamed piece is has the new name if it is one of the uses. -/
theorem own_rename (h : R.Suits Γ p) : (p.rename R).own Γ' =
    (p.own Γ).map fun m => ⟨Γ', m.id, if R.uses m.id then R.new else m.name⟩ := by
  have huse : ∀ id t, (R.use id t).lexeme = if R.uses id then R.new else t.lexeme := by
    intro id t
    unfold use
    split <;> rfl
  cases p with
  | expr e =>
    cases e with
    | this id t =>
      -- the receiver is no name of a region
      have hkept : R.uses id = false := by
        have hown := (h.own ⟨Γ, id, text "this"⟩ (List.mem_singleton_self _)).2
        rw [Bool.eq_false_iff]
        intro hrenamed
        obtain ⟨hold, r, hregion, hdeclares⟩ := hown.1 hrenamed
        obtain ⟨d, -, hget⟩ := Option.bind_eq_some_iff.1 hregion
        obtain ⟨t, ht, hsame⟩ := List.any_eq_true.1 hdeclares
        refine (h.around r (List.mem_of_getElem? hget)).proper t ht ?_
        exact (Token.lexeme_of_same hsame).trans hold.symm
      simp [Fragment.rename, Expr.rename, Fragment.own, Expr.use?, hkept]
    | _ => simp [Fragment.rename, Expr.rename, Fragment.own, Expr.use?, huse]
  | stmt s => rfl
  | list ss => rfl

end Renaming

/-- The identity of a use with its distance. -/
def Mention.link (m : Mention) : NodeId × Option Nat := (m.id, m.distance?)

namespace Renaming

variable {R : Renaming} {Γ Γ' : Environs} {p : Fragment}

/-- The use that a piece is has the same distance after renaming. -/
theorem link_own (h : R.Suits Γ p) (hΓ : R.Relates Γ Γ') :
    ((p.rename R).own Γ').map Mention.link = (p.own Γ).map Mention.link := by
  rw [own_rename h, List.map_map]
  refine List.map_congr_left fun m hm => ?_
  obtain ⟨hname, hrenamed⟩ := h.own m hm
  obtain ⟨hm, -⟩ := Fragment.mem_own.1 hm
  refine Prod.ext rfl ?_
  show Γ'.distance? _ = m.around.distance? m.name
  have houtside : Γ'.outside = Γ.outside := congrArg Scope.Context.outside hΓ.context
  unfold Mention.region? Mention.distance? Environs.distance? at hrenamed
  rw [hm] at hrenamed ⊢
  rw [Environs.distance?, houtside]
  exact distanceIn?_eq hΓ.layers hname hrenamed

/-- The uses in a piece have the same distances after renaming. -/
theorem link_mentions (hnew : R.new ≠ text "this") : ∀ (Γ : Environs) (p : Fragment),
    Everywhere R.Suits Γ p → ∀ Γ', R.Relates Γ Γ' →
      ((p.rename R).mentions Γ').map Mention.link = (p.mentions Γ).map Mention.link := by
  refine Fragment.of_parts fun Γ p ih h Γ' hΓ => ?_
  rw [Fragment.mentions_eq, Fragment.mentions_eq, List.map_append, List.map_append, link_own h.here hΓ,
    List.map_flatMap, List.map_flatMap]
  congr 1
  have hparts : ∀ part ∈ p.order Γ, ∀ part', R.Matches part part' →
      (part'.2.mentions part'.1).map Mention.link = (part.2.mentions part.1).map Mention.link := by
    rintro part hpart part' ⟨haround, hrename⟩
    rw [hrename]
    have hmem := (Fragment.order_perm Γ p).mem_iff.1 hpart
    exact ih part hmem (h.part hmem) part'.1 haround
  have horder := relates_order h.here hΓ hnew
  revert hparts horder
  generalize p.order Γ = parts
  generalize (p.rename R).order Γ' = parts'
  intro hparts horder
  induction horder with
  | nil => rfl
  | @cons part part' rest rest' hmatch _ ihrest =>
    rw [List.flatMap_cons, List.flatMap_cons, hparts part List.mem_cons_self part' hmatch,
      ihrest fun q hq => hparts q (List.mem_cons_of_mem _ hq)]

/-- What a piece may do it may do after renaming. -/
theorem allowed_rename {π : List Enclosure} (h : R.Suits Γ p) (hallowed : p.Allowed π) :
    (p.rename R).Allowed π := by
  constructor
  · rw [Fragment.scopes_rename, Fragment.scopes_eq Γ, List.map_map]
    intro names hnames
    obtain ⟨x, hx, rfl⟩ := List.mem_map.1 hnames
    exact (h.opens x hx).distinct_binder
  · have hplace := hallowed.2
    cases p with
    | expr e => cases e <;> exact hplace
    | stmt s =>
      cases s with
      | function d =>
        cases d
        trivial
      | _ => exact hplace
    | list ss => trivial

/-- What is accepted in a piece is accepted after renaming. -/
theorem allowedIn_rename : ∀ (Γ : Environs) (p : Fragment), Everywhere R.Suits Γ p →
    ∀ π, p.AllowedIn π → (p.rename R).AllowedIn π := by
  refine Fragment.of_parts fun Γ p ih h π hallowed => ?_
  rw [Fragment.allowedIn_iff_inward] at hallowed ⊢
  refine ⟨allowed_rename h.here hallowed.1, ?_⟩
  rw [Fragment.inward_rename]
  intro part' hpart'
  obtain ⟨part, hpart, rfl⟩ := List.mem_map.1 hpart'
  obtain ⟨Δ, hmem⟩ := Fragment.exists_part hpart Γ
  exact ih _ hmem (h.part hmem) part.1 (hallowed.2 part hpart)

end Renaming

/-! ## Names of a source -/

section

variable {P : Token → Prop} {Γ : Environs} {p : Fragment}

theorem Function.WellFormed.binders {d : Function} (h : d.WellFormed) :
    ∀ t ∈ d.name :: d.params, t.kind = .identifier := by
  cases d
  exact List.forall_mem_cons.2 ⟨h.1, h.2.1.1⟩

theorem Fragment.WellFormed.binders (h : p.WellFormed) : ∀ t ∈ p.binders, t.kind = .identifier := by
  unfold Fragment.binders
  split
  · exact h.2.1.1
  · exact List.forall_mem_singleton.2 h.1
  · exact Function.WellFormed.binders h
  · refine List.forall_mem_cons.2 ⟨h.1, fun t ht => ?_⟩
    obtain ⟨d, hd, ht⟩ := List.mem_flatMap.1 ht
    exact (Function.wellFormed_of_mem h.2.2 d hd).binders t (List.mem_cons_of_mem _ ht)
  · exact fun _ => nofun

/-- What a piece declares is declared by itself or by a part. -/
theorem Fragment.mem_declares {t : Token} (h : t ∈ p.declares) (Γ : Environs) :
    t ∈ p.binders ∨ ∃ part ∈ p.parts Γ, t ∈ part.2.declares := by
  cases p with
  | expr e => cases h
  | stmt s =>
    cases s with
    | declare | classDecl | function =>
      rw [List.mem_singleton.1 h]
      exact .inl List.mem_cons_self
    | branch pos cond yes no =>
      rw [declares, Stmt.declares_branch] at h
      rcases List.mem_append.1 h with h | h
      · exact .inr ⟨(Γ, .stmt yes), by simp [parts, Stmt.parts], h⟩
      · obtain ⟨s, hs, h⟩ := List.mem_flatMap.1 h
        exact .inr ⟨(Γ, .stmt s), by simp [parts, Stmt.parts, Option.mem_toList.1 hs], h⟩
    | loop pos cond body => exact .inr ⟨(Γ.enterLoop, .stmt body), by simp [parts, Stmt.parts], h⟩
    | _ => cases h
  | list ss =>
    cases ss with
    | nil => cases h
    | cons s ss =>
      rcases List.mem_append.1 h with h | h
      · exact .inr ⟨(Γ, .stmt s), by simp [parts], h⟩
      · exact .inr ⟨(Γ.after s, .list ss), by simp [parts], h⟩

/-- What holds of all names that are declared in a piece holds of those in the region around it. -/
theorem Everywhere.of_declares : ∀ (Γ : Environs) (p : Fragment),
    Everywhere (fun _ q => ∀ t ∈ q.binders, P t) Γ p → ∀ t ∈ p.declares, P t := by
  refine Fragment.of_parts fun Γ p ih h t ht => ?_
  rcases Fragment.mem_declares ht Γ with ht | ⟨part, hpart, ht⟩
  · exact h.here t ht
  · exact ih part hpart (h.part hpart) t ht

/-- And it holds of those in the regions that the piece opens. -/
theorem Everywhere.of_opens (h : Everywhere (fun _ q => ∀ t ∈ q.binders, P t) Γ p) {x : Extent}
    (hx : x ∈ p.opens Γ) : ∀ t ∈ x.region.names, P t := by
  intro t ht
  rcases List.mem_append.1 ht with ht | ht
  · exact h.here t (Fragment.params_of_opens hx ht)
  · have hopened := Fragment.opened_of_mem hx
    rw [Region.locals_eq, ← hopened.fragments] at ht
    obtain ⟨q, hq, ht⟩ := List.mem_flatMap.1 ht
    obtain ⟨part, hpart, rfl⟩ := List.mem_map.1 hq
    exact Everywhere.of_declares part.1 part.2 (h.part (hopened.parts hpart)) t ht

end

/-- What occurs in an accepted program is accepted where it stands. -/
theorem Occurs.allowedIn {program : List Stmt} {Γ : Environs} {p : Fragment} (h : Occurs program Γ p)
    (hallowed : (Fragment.list program).AllowedIn []) : ∃ π, p.AllowedIn π := by
  induction h with
  | here => exact ⟨[], hallowed⟩
  | @part Δ q Δ' q' _ hpart ih =>
    obtain ⟨π, hq⟩ := ih
    obtain ⟨π', hinward⟩ := Fragment.exists_inward hpart π
    exact ⟨π', (Fragment.allowedIn_iff_inward.1 hq).2 _ hinward⟩

/-- A name is not spelled like the receiver. -/
theorem Token.Genuine.ne_this {t : Token} (h : t.Genuine) (hkind : t.kind = .identifier) :
    t.lexeme ≠ text "this" := by
  intro hthis
  have hword := (h.ident hkind).2.2.2
  rw [hthis] at hword
  revert hword
  decide

/-- No name that a piece itself declares is the new one or the receiver. -/
def Fragment.Fresh (R : Renaming) (p : Fragment) : Prop :=
  ∀ t ∈ p.binders, t.lexeme ≠ R.new ∧ t.lexeme ≠ text "this"

section

variable {stmts : List Stmt} {R : Renaming} {Γ : Environs} {p : Fragment}

/-- Where the declared names are fresh, every region that is opened fits. -/
theorem Occurs.fitting (h : Occurs stmts Γ p) (hfaults : (Resolution.ofProgram stmts).faults = [])
    (hfresh : Everywhere (fun _ q => q.Fresh R) {} (.list stmts)) : ∀ x ∈ p.opens Γ, R.Fitting x.region := by
  intro x hx
  have hnames := Everywhere.of_opens (fun Δ q hbelow => hfresh Δ q (h.trans hbelow)) hx
  obtain ⟨π, hallowed⟩ := h.allowedIn ((Resolution.faultless_iff_allowedIn stmts).1 hfaults)
  have hscope : x.region.names ∈ p.scopes := by
    rw [Fragment.scopes_eq Γ]
    exact List.mem_map_of_mem hx
  exact ⟨(Fragment.allowedIn_iff.1 hallowed).1.1 _ hscope, fun t ht => (hnames t ht).1,
    fun t ht => (hnames t ht).2⟩

/-- Then all regions around a piece fit; the receiver of a class has no names. -/
theorem Occurs.fitting_around (h : Occurs stmts Γ p) (hfaults : (Resolution.ofProgram stmts).faults = [])
    (hfresh : Everywhere (fun _ q => q.Fresh R) {} (.list stmts)) : ∀ r ∈ Γ.regions, R.Fitting r := by
  intro r hr
  by_cases hreceiver : ∃ name fields methods, r = .receiver name fields methods
  · obtain ⟨name, fields, methods, rfl⟩ := hreceiver
    exact ⟨List.nodup_nil, fun _ => nofun, fun _ => nofun⟩
  · obtain ⟨inner, outer, heq⟩ := List.append_of_mem hr
    obtain ⟨Δ, q, hocc, x, hx, rfl, -⟩ := h.opened ⟨inner, heq.symm⟩
      fun name fields methods hr => hreceiver ⟨name, fields, methods, hr⟩
    exact hocc.fitting hfaults hfresh x hx

end

theorem Expr.name_of_use? {P : Bytes → Prop} {e : Expr} {id : NodeId} {name : Bytes}
    (h : e.use? = some (id, name)) (htokens : ∀ t ∈ e.tokens, P t.lexeme) (hthis : P (text "this")) :
    P name := by
  cases e <;> simp only [Expr.use?, reduceCtorEq, Option.some.injEq, Prod.mk.injEq] at h <;>
    obtain ⟨-, rfl⟩ := h <;> first | exact hthis | exact htokens _ List.mem_cons_self

open Classical in
/-- Renames a declaration and exactly the uses that the check reports with a distance that leads to it. -/
noncomputable def Renaming.of (stmts : List Stmt) (declared : Token) (name : Bytes) : Renaming where
  old := declared
  uses id := decide (∃ u ∈ (Resolution.ofProgram stmts).uses, u.id = id ∧
    ∃ r : Region, r.declares declared = true ∧ u.LeadsTo stmts r declared.lexeme)
  new := name

section

variable {n : NodeId} {source : Bytes} {stmts : List Stmt} {name : Bytes}

/-- The uses that are renamed are those of the declaration. -/
theorem Renaming.uses_of_iff (hids : (((Fragment.list stmts).mentions {}).map Mention.id).Nodup)
    (huses : (Resolution.ofProgram stmts).uses.map (fun u => (u.id, u.distance)) =
      ((Fragment.list stmts).mentions {}).filterMap Mention.noted?) (declared : Token) {m : Mention}
    (hm : m ∈ (Fragment.list stmts).mentions {}) :
    (Renaming.of stmts declared name).uses m.id = true ↔
      m.name = declared.lexeme ∧ ∃ r, m.region? = some r ∧ r.declares declared = true := by
  have hleads : ∀ r, (∃ u ∈ (Resolution.ofProgram stmts).uses, u.id = m.id ∧
      u.LeadsTo stmts r declared.lexeme) ↔ m.name = declared.lexeme ∧ m.region? = some r := by
    intro r
    rw [LocalUse.leadsTo_iff hids huses]
    constructor
    · rintro ⟨m', hm', hid, hrest⟩
      exact List.inj_on_of_nodup_map hids hm' hm hid ▸ hrest
    · intro hrest
      exact ⟨m, hm, rfl, hrest⟩
  simp only [Renaming.of, decide_eq_true_iff]
  constructor
  · rintro ⟨u, hu, hid, r, hdeclares, hlead⟩
    obtain ⟨hold, hregion⟩ := (hleads r).1 ⟨u, hu, hid, hlead⟩
    exact ⟨hold, r, hregion, hdeclares⟩
  · rintro ⟨hold, r, hregion, hdeclares⟩
    obtain ⟨u, hu, hid, hlead⟩ := (hleads r).2 ⟨hold, hregion⟩
    exact ⟨u, hu, hid, r, hdeclares, hlead⟩

/-- The tokens in the statements of a source are genuine, and none is spelled like a word that the source does
not have. -/
theorem Parsed.ofSource_fresh (hparsed : (ofSource n source).faults = [])
    (hfresh : ∀ t ∈ (Token.scan source).tokens, t.lexeme ≠ name) :
    (Fragment.list (ofSource n source).stmts).Throughout fun t => t.Genuine ∧ t.lexeme ≠ name := by
  exact (Parsed.made_of_tokens hparsed fun t ht hkind =>
    ⟨Token.genuine_of_mem_scan ht hkind, hfresh t ht⟩).throughout

/-- Every piece of an accepted source can be renamed. -/
theorem Renaming.suits_of (hparsed : (Parsed.ofSource n source).faults = [])
    (hstmts : (Parsed.ofSource n source).stmts = stmts) (hfaults : (Resolution.ofProgram stmts).faults = [])
    (declared : Token) (hfresh : ∀ t ∈ (Token.scan source).tokens, t.lexeme ≠ name)
    (hname : name ≠ text "this") : Everywhere (Renaming.of stmts declared name).Suits {} (.list stmts) := by
  obtain ⟨hplain, hids⟩ := Parsed.ofSource_plain hparsed hstmts hfaults
  obtain ⟨huses, -⟩ := Resolution.ofProgram_reports hplain hids hfaults
  obtain ⟨-, -, -, -, hw, -⟩ := Parsed.ofSource_reads hparsed
  have hbuilt := Parsed.ofSource_fresh hparsed hfresh {}
  rw [hstmts] at hw hbuilt
  have hwords : Everywhere (fun _ q => q.Fresh (Renaming.of stmts declared name)) {} (.list stmts) := by
    intro Γ p hocc t ht
    obtain ⟨hgenuine, hne⟩ := (hbuilt Γ p hocc).binders t ht
    exact ⟨hne, hgenuine.ne_this ((Occurs.wellFormed hw hocc).binders t ht)⟩
  intro Γ p hocc
  refine ⟨Occurs.fitting_around hocc hfaults hwords, fun r hr => Occurs.declares_subset hocc hr,
    Occurs.fitting hocc hfaults hwords, fun m hm => ?_⟩
  obtain ⟨hΓ, e, rfl, huse⟩ := Fragment.mem_own.1 hm
  have hmention : m ∈ (Fragment.list stmts).mentions {} := by
    rw [Fragment.mem_mentions, hΓ]
    exact ⟨e, hocc, huse⟩
  constructor
  · exact Expr.name_of_use? (P := (· ≠ name)) huse (fun t ht => (hbuilt Γ _ hocc t ht).2) hname.symm
  · exact uses_of_iff hids huses declared hmention

/-- A source that is accepted is accepted with a declaration and the uses that lead to it renamed, and the
check notes the same uses with the same distances. The new name is any word that the source does not have,
except the one that stands for the receiver. -/
theorem Resolution.ofProgram_rename (hparsed : (Parsed.ofSource n source).faults = [])
    (hstmts : (Parsed.ofSource n source).stmts = stmts) (hfaults : (ofProgram stmts).faults = [])
    (declared : Token) (hfresh : ∀ t ∈ (Token.scan source).tokens, t.lexeme ≠ name)
    (hname : name ≠ text "this") :
    (ofProgram (Stmt.renameAll (Renaming.of stmts declared name) stmts)).faults = [] ∧
      (ofProgram (Stmt.renameAll (Renaming.of stmts declared name) stmts)).uses.map
        (fun u => (u.id, u.distance)) = (ofProgram stmts).uses.map fun u => (u.id, u.distance) := by
  let R := Renaming.of stmts declared name
  have hsuits : Everywhere R.Suits {} (.list stmts) :=
    Renaming.suits_of hparsed hstmts hfaults declared hfresh hname
  obtain ⟨hplain, hids⟩ := Parsed.ofSource_plain hparsed hstmts hfaults
  have haccepted : (ofProgram (Stmt.renameAll R stmts)).faults = [] := by
    rw [faultless_iff_allowedIn] at hfaults ⊢
    exact Renaming.allowedIn_rename {} (.list stmts) hsuits [] hfaults
  have hlinks := Renaming.link_mentions hname {} (.list stmts) hsuits {} .start
  have hsame : ((Fragment.list (Stmt.renameAll R stmts)).mentions {}).map Mention.id =
      ((Fragment.list stmts).mentions {}).map Mention.id := by
    have hfirst := congrArg (List.map Prod.fst) hlinks
    rw [List.map_map, List.map_map] at hfirst
    exact hfirst
  have hnoted : ∀ ms : List Mention, ms.filterMap Mention.noted? =
      (ms.map Mention.link).filterMap fun link => link.2.map (link.1, ·) := by
    intro ms
    rw [List.filterMap_map]
    rfl
  refine ⟨haccepted, ?_⟩
  obtain ⟨huses, -⟩ := ofProgram_reports hplain hids hfaults
  obtain ⟨huses', -⟩ := ofProgram_reports (Fragment.plain_rename R {} (.list stmts) hplain {})
    (hsame ▸ hids) haccepted
  rw [huses, huses', hnoted, hnoted ((Fragment.list stmts).mentions {})]
  exact congrArg _ hlinks

end

/-- Two blocks with a variable of the same name, where the inner one starts from the outer one, is used in a
function and is hidden by a parameter of another. -/
def sampleShadow : Bytes :=
  text "\x7b let a = 1; \x7b let a = a + 1; fun f(x) \x7b return a + x; \x7d " ++
    text "fun g(a) \x7b return a; \x7d print f(g(a)); \x7d print a; \x7d"

/-- The inner variable of the sample, as it is declared. -/
def sampleShadow.inner : Token := ⟨.identifier, text "a", .none, ⟨19, 1, 20⟩⟩

/-- Renaming the inner variable of the sample leaves all distances as they are. -/
theorem Resolution.ofProgram_rename_sample :
    (Stmt.nestedAll (Parsed.ofSource 0 sampleShadow).stmts).countP (·.declares sampleShadow.inner) = 1 ∧
      (ofProgram (Stmt.renameAll (Renaming.of (Parsed.ofSource 0 sampleShadow).stmts sampleShadow.inner
        (text "b")) (Parsed.ofSource 0 sampleShadow).stmts)).faults = [] ∧
      (ofProgram (Stmt.renameAll (Renaming.of (Parsed.ofSource 0 sampleShadow).stmts sampleShadow.inner
        (text "b")) (Parsed.ofSource 0 sampleShadow).stmts)).uses.map (fun u => (u.id, u.distance)) =
        [(1, 1), (4, 1), (5, 0), (7, 0), (8, 0), (9, 0), (10, 0), (13, 0)] := by
  have hparsed : (Parsed.ofSource 0 sampleShadow).faults = [] := by decide +kernel
  have hfaults : (ofProgram (Parsed.ofSource 0 sampleShadow).stmts).faults = [] := by decide +kernel
  have hfresh : ∀ t ∈ (Token.scan sampleShadow).tokens, t.lexeme ≠ text "b" := by decide +kernel
  obtain ⟨haccepted, huses⟩ :=
    ofProgram_rename hparsed rfl hfaults sampleShadow.inner hfresh (by decide)
  refine ⟨by decide +kernel, haccepted, ?_⟩
  rw [huses]
  decide +kernel

end Treewalk
