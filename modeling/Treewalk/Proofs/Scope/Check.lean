import Treewalk.Proofs.Parser.Grammar
import Treewalk.Proofs.Scope.Static
import Mathlib.Data.List.Basic
import Mathlib.Data.List.Perm.Subperm

/-!
# The check finds the scopes of the text

The check keeps a stack of scopes while it goes through a program. If it reports no fault, then at every
piece this stack shows the names of the environs of the piece (`Environs.Seen`), every use of a name is
noted with its distance in the environs, and every statement stands where it may (`Fragment.Lawful`).

`Finds` says this of a step of the check, and each form of tree is a composition of such steps.

Main result: `Stmt.checkAll_finds`.
-/

namespace Treewalk

open Scope

/-! ## What the check is to find -/

/-- The name that an expression uses, with the identity of the use. -/
def Expr.use? : Expr → Option (NodeId × Bytes)
  | .ident id name | .assign id name _ | .compound id name _ _ _ | .update id name _ _ _ =>
    some (id, name.lexeme)
  | .this id _ => some (id, text "this")
  | _ => none

/-- A piece stands where it may: loops are left and continued from inside, functions returned from, bodies
of branches and loops declare nothing. -/
def Fragment.Placed (Γ : Environs) : Fragment → Prop
  | .expr (.this _ keyword) => Γ.inClass = true ∧ keyword.kind = .thisWord
  | .stmt (.branch _ _ yes no) => yes.isDeclaration = false ∧ ∀ s ∈ no, s.isDeclaration = false
  | .stmt (.loop _ _ body) => body.isDeclaration = false
  | .stmt (.forLoop _ start _ _ body) =>
    (∀ s ∈ start, s.isClause = true) ∧ body.isDeclaration = false
  | .stmt (.leave _) | .stmt (.skip _) => Γ.inLoop = true
  | .stmt (.result _ _) => Γ.body ≠ .none
  | _ => True

/-- An identity with the distance that belongs to it, if the name used there is local. -/
abbrev Mark := NodeId × Option Nat

/-- A piece stands where it may, and the name it uses is among the marks. -/
def Fragment.Lawful (marks : List Mark) (Γ : Environs) (p : Fragment) : Prop :=
  p.Placed Γ ∧ ∀ e id name, p = .expr e → e.use? = some (id, name) → (id, Γ.distance? name) ∈ marks

/-- The marks of local names. -/
def settled (marks : List Mark) : List (NodeId × Nat) := marks.filterMap fun m => m.2.map (m.1, ·)

theorem settled_append (marks marks' : List Mark) :
    settled (marks ++ marks') = settled marks ++ settled marks' := List.filterMap_append

/-! ## What the check sees -/

/-- The names of a scope, each with whether it is ready. -/
def Scope.view (scope : Scope) : List (Bytes × Bool) := scope.map fun e => (e.name.lexeme, e.ready)

/-- The names of the scopes are those of the environs. -/
def Environs.Seen (Γ : Environs) (scopes : List Scope) : Prop :=
  scopes.map Scope.view = Γ.layers.map Layer.names

/-- The uses noted so far, latest first. -/
def Scope.State.noted (s : Scope.State) : List (NodeId × Nat) := s.uses.map fun u => (u.id, u.distance)

/-- Looking a name up in the scopes is looking it up in the environs. -/
theorem Environs.Seen.distance?_eq {outside : Nat} {name : Bytes} :
    ∀ {scopes : List Scope} {layers : List Layer}, scopes.map Scope.view = layers.map Layer.names →
      Scope.distance? outside name scopes = Environs.distanceIn? outside name layers
  | [], [], _ => rfl
  | scope :: outer, layer :: layers, h => by
    simp only [List.map_cons, List.cons.injEq] at h
    have hlength : outer.length = layers.length := by
      simpa using congrArg List.length h.2
    have hoffers : scope.any (fun e => e.name.lexeme == name && (e.ready || outer.length < outside)) =
        layer.offers (layers.length < outside) name := by
      rw [Layer.offers, ← h.1, Scope.view, List.any_map, hlength]
      rfl
    rw [Scope.distance?, Environs.distanceIn?, hoffers, Environs.Seen.distance?_eq h.2]

theorem Scope.view_mark {f : Entry → Entry} (name : Bytes)
    (hf : ∀ e, ((f e).name.lexeme, (f e).ready) = (e.name.lexeme, e.ready)) (scope : Scope) :
    Scope.view (mark name f scope) = Scope.view scope := by
  simp only [Scope.view, mark, List.map_map]
  refine List.map_congr_left fun e _ => ?_
  by_cases h : e.name.lexeme = name <;> simp_all

/-- Marking a name as used shows nowhere. -/
theorem Scope.map_view_modify {f : Scope → Scope} (hf : ∀ scope, Scope.view (f scope) = Scope.view scope) :
    ∀ (d : Nat) (scopes : List Scope), (scopes.modify d f).map Scope.view = scopes.map Scope.view
  | _, [] => by simp
  | 0, scope :: outer => by simp [hf]
  | d + 1, scope :: outer => by simp [Scope.map_view_modify hf d outer]

theorem Scope.view_define (name : Bytes) (scope : Scope) :
    Scope.view (Scope.mark name ({ · with ready := true }) scope) =
      (Scope.view scope).map fun n => if n.1 == name then (n.1, true) else n := by
  simp only [Scope.view, mark, List.map_map]
  refine List.map_congr_left fun e _ => ?_
  by_cases h : e.name.lexeme = name <;> simp [h]

/-! ## Steps of the check -/

/-- A step of the check that leaves no fault found none. It goes from one place of the text to another,
notes uses under some of the identities `ids`, and makes `Q` true of all marks that go beyond the noted
ones. -/
structure Finds (c : Check Unit) (Γ Γ' : Environs) (ids : List NodeId) (Q : List Mark → Prop) :
    Prop where
  clean : ∀ s s', c s = .ok () s' → s'.faults = [] → s.faults = []
  finds : ∀ s s', Γ.Seen s.scopes → c s = .ok () s' → s'.faults = [] →
    Γ'.Seen s'.scopes ∧ ∃ marks, s'.noted = settled marks ++ s.noted ∧
      (marks.map Prod.fst).Subperm ids ∧ ∀ all, marks ⊆ all → Q all

namespace Finds

variable {c d : Check Unit} {Γ Γ' Γ'' : Environs} {ids ids' : List NodeId} {Q Q' : List Mark → Prop}

theorem weaken (h : Finds c Γ Γ' ids Q) (hids : ids.Subperm ids') (hQ : ∀ all, Q all → Q' all) :
    Finds c Γ Γ' ids' Q' := by
  refine ⟨h.clean, ?_⟩
  intro s s' hseen hrun hfaults
  obtain ⟨hseen', marks, hnoted, hsub, hall⟩ := h.finds s s' hseen hrun hfaults
  exact ⟨hseen', marks, hnoted, hsub.trans hids, fun all hmarks => hQ all (hall all hmarks)⟩

theorem imp (h : Finds c Γ Γ' ids Q) (hQ : ∀ all, Q all → Q' all) : Finds c Γ Γ' ids Q' :=
  h.weaken (List.Subperm.refl _) hQ

/-- What the check sees of the environs is their layers. -/
theorem relocate {Γ₀ Γ₀' : Environs} (h : Finds c Γ₀ Γ₀' ids Q) (hstart : Γ₀.layers = Γ.layers)
    (hend : Γ₀'.layers = Γ'.layers) : Finds c Γ Γ' ids Q := by
  refine ⟨h.clean, ?_⟩
  intro s s' hseen hrun hfaults
  rw [Environs.Seen, ← hstart] at hseen
  rw [Environs.Seen, ← hend]
  exact h.finds s s' hseen hrun hfaults

theorem bind_eq_ok {s s'' : Scope.State} (h : (c >>= fun _ => d) s = .ok () s'') :
    ∃ s', c s = .ok () s' ∧ d s' = .ok () s'' := by
  cases hc : c s with
  | error e s' => simp [bind, EStateM.bind, hc] at h
  | ok u s' => exact ⟨s', rfl, by simpa [bind, EStateM.bind, hc] using h⟩

/-- One step behind the other. -/
theorem andThen (h : Finds c Γ Γ' ids Q) (h' : Finds d Γ' Γ'' ids' Q') :
    Finds (c >>= fun _ => d) Γ Γ'' (ids ++ ids') (fun all => Q all ∧ Q' all) := by
  constructor
  · intro s s'' hrun hfaults
    obtain ⟨s', hc, hd⟩ := bind_eq_ok hrun
    exact h.clean s s' hc (h'.clean s' s'' hd hfaults)
  · intro s s'' hseen hrun hfaults
    obtain ⟨s', hc, hd⟩ := bind_eq_ok hrun
    obtain ⟨hseen', marks, hnoted, hsub, hall⟩ :=
      h.finds s s' hseen hc (h'.clean s' s'' hd hfaults)
    obtain ⟨hseen'', marks', hnoted', hsub', hall'⟩ := h'.finds s' s'' hseen' hd hfaults
    refine ⟨hseen'', marks' ++ marks, ?_, ?_, fun all hmarks => ⟨?_, ?_⟩⟩
    · rw [hnoted', hnoted, settled_append, List.append_assoc]
    · rw [List.map_append]
      exact List.perm_append_comm.subperm.trans (hsub.append hsub')
    · exact hall all fun m hm => hmarks (List.mem_append_right _ hm)
    · exact hall' all fun m hm => hmarks (List.mem_append_left _ hm)

theorem nothing : Finds (pure ()) Γ Γ [] (fun _ => True) := by
  constructor
  · rintro s _ ⟨⟩ hfaults
    exact hfaults
  · rintro s _ hseen ⟨⟩ -
    exact ⟨hseen, [], rfl, List.Subperm.refl _, fun _ _ => trivial⟩

theorem warning (w : Diagnostic) : Finds (warn w) Γ Γ [] (fun _ => True) := by
  constructor
  · rintro s _ ⟨⟩ hfaults
    exact hfaults
  · rintro s _ hseen ⟨⟩ -
    exact ⟨hseen, [], rfl, List.Subperm.refl _, fun _ _ => trivial⟩

theorem required {ok : Bool} (keyword : Token) (message : String) :
    Finds (require ok keyword message) Γ Γ [] (fun _ => ok = true) := by
  cases ok with
  | true => exact nothing.imp fun _ _ => rfl
  | false => exact ⟨nofun, nofun⟩

/-- The fault of a statement would be on record. -/
theorem recorded (h : Finds c Γ Γ' ids Q) : Finds (recording c) Γ Γ' ids Q := by
  have hc : ∀ s s', recording c s = .ok () s' → s'.faults = [] → c s = .ok () s' := by
    intro s s' hrun hfaults
    unfold recording at hrun
    cases hc : c s with
    | ok u s₁ => simpa [hc] using hrun
    | error d s₁ =>
      simp only [hc, EStateM.Result.ok.injEq, true_and] at hrun
      rw [← hrun] at hfaults
      simp at hfaults
  constructor
  · intro s s' hrun hfaults
    exact h.clean s s' (hc s s' hrun hfaults) hfaults
  · intro s s' hseen hrun hfaults
    exact h.finds s s' hseen (hc s s' hrun hfaults) hfaults

/-- A region of its own: behind it the environs are what they were. -/
theorem inside {Γ₀ : Environs} {region : Region} (h : Finds c Γ₀ Γ' ids Q)
    (henter : Γ₀.layers = (Γ.enter region).layers) (htail : Γ'.layers.tail = Γ.layers) :
    Finds (within c) Γ Γ ids Q := by
  have hc : ∀ s s', within c s = .ok () s' → ∃ s₁, c { s with scopes := [] :: s.scopes } = .ok () s₁ ∧
      s' = s₁.close := by
    intro s s' hrun
    unfold within at hrun
    cases hc : c { s with scopes := [] :: s.scopes } with
    | ok u s₁ => exact ⟨s₁, rfl, by simpa [hc] using hrun.symm⟩
    | error d s₁ => simp [hc] at hrun
  constructor
  · intro s s' hrun hfaults
    obtain ⟨s₁, hrun₁, rfl⟩ := hc s s' hrun
    exact h.clean { s with scopes := [] :: s.scopes } s₁ hrun₁ hfaults
  · intro s s' hseen hrun hfaults
    obtain ⟨s₁, hrun₁, rfl⟩ := hc s s' hrun
    have hinside : Γ₀.Seen ([] :: s.scopes) := by
      simp only [Environs.Seen, henter, Environs.enter, List.map_cons, List.cons.injEq]
      exact ⟨rfl, hseen⟩
    obtain ⟨hseen', hmarks⟩ :=
      h.finds { s with scopes := [] :: s.scopes } s₁ hinside hrun₁ hfaults
    refine ⟨?_, hmarks⟩
    have htails := congrArg List.tail hseen'
    rw [← List.map_tail, ← List.map_tail, htail] at htails
    exact htails

theorem declared (name : Token) (origin : Origin) :
    Finds (Scope.declare name origin) Γ (Γ.declare name.lexeme) [] (fun _ => True) := by
  have hrun : ∀ s s', Scope.declare name origin s = .ok () s' → s'.uses = s.uses ∧
      s'.faults = s.faults ∧
      s'.scopes = s.scopes.modifyHead fun scope => scope ++ [{ name, origin }] := by
    intro s s' hrun
    unfold Scope.declare at hrun
    cases hs : s.scopes with
    | nil =>
      simp only [hs, EStateM.Result.ok.injEq, true_and] at hrun
      subst hrun
      exact ⟨rfl, rfl, hs⟩
    | cons scope outer =>
      simp only [hs] at hrun
      split at hrun
      · cases hrun
      · simp only [EStateM.Result.ok.injEq, true_and] at hrun
        subst hrun
        exact ⟨rfl, rfl, rfl⟩
  constructor
  · intro s s' h hfaults
    rw [← (hrun s s' h).2.1]
    exact hfaults
  · intro s s' hseen h _
    obtain ⟨huses, -, hscopes⟩ := hrun s s' h
    refine ⟨?_, [], ?_, List.Subperm.refl _, fun _ _ => trivial⟩
    · unfold Environs.Seen at hseen ⊢
      rw [hscopes]
      unfold Environs.declare
      cases hs : s.scopes <;> cases hl : Γ.layers <;>
        simp_all [Scope.view, Layer.declare]
    · rw [Scope.State.noted, huses]
      rfl

theorem defined (name : Token) :
    Finds (Scope.define name) Γ (Γ.define name.lexeme) [] (fun _ => True) := by
  have hrun : ∀ s s', Scope.define name s = .ok () s' → s'.uses = s.uses ∧ s'.faults = s.faults ∧
      s'.scopes = s.scopes.modifyHead (Scope.mark name.lexeme ({ · with ready := true })) := by
    intro s s' hrun
    unfold Scope.define at hrun
    cases hs : s.scopes with
    | nil =>
      simp only [hs, EStateM.Result.ok.injEq, true_and] at hrun
      subst hrun
      exact ⟨rfl, rfl, hs⟩
    | cons scope outer =>
      simp only [hs, EStateM.Result.ok.injEq, true_and] at hrun
      subst hrun
      exact ⟨rfl, rfl, rfl⟩
  constructor
  · intro s s' h hfaults
    rw [← (hrun s s' h).2.1]
    exact hfaults
  · intro s s' hseen h _
    obtain ⟨huses, -, hscopes⟩ := hrun s s' h
    refine ⟨?_, [], ?_, List.Subperm.refl _, fun _ _ => trivial⟩
    · unfold Environs.Seen at hseen ⊢
      rw [hscopes]
      unfold Environs.define
      cases hs : s.scopes <;> cases hl : Γ.layers <;>
        simp_all [Scope.view_define, Layer.define]
    · rw [Scope.State.noted, huses]
      rfl

/-- A use is noted with the distance in the environs. -/
theorem used (Γ : Environs) (id : NodeId) (use : Use) (name : Token) :
    Finds (useName Γ.toContext id use name) Γ Γ [id]
      (fun all => (id, Γ.distance? name.lexeme) ∈ all) := by
  have hdistance : ∀ s : Scope.State, Γ.Seen s.scopes →
      Scope.distance? Γ.outside name.lexeme s.scopes = Γ.distance? name.lexeme :=
    fun s hseen => Environs.Seen.distance?_eq hseen
  constructor
  · intro s s' hrun hfaults
    unfold useName at hrun
    split at hrun
    · cases hrun
      exact hfaults
    · cases hrun
      exact hfaults
  · intro s s' hseen hrun _
    unfold useName at hrun
    rw [hdistance s hseen] at hrun
    refine ⟨?_, [(id, Γ.distance? name.lexeme)], ?_, List.Subperm.refl _,
      fun all hall => hall List.mem_cons_self⟩
    · cases hd : Γ.distance? name.lexeme with
      | none =>
        simp only [hd, EStateM.Result.ok.injEq, true_and] at hrun
        subst hrun
        exact hseen
      | some d =>
        simp only [hd, EStateM.Result.ok.injEq, true_and] at hrun
        subst hrun
        have hview : ∀ scope, Scope.view (Scope.mark name.lexeme ({ · with used := true }) scope) =
            Scope.view scope := Scope.view_mark _ fun _ => rfl
        exact (Scope.map_view_modify hview d s.scopes).trans hseen
    · cases hd : Γ.distance? name.lexeme with
      | none =>
        simp only [hd, EStateM.Result.ok.injEq, true_and] at hrun
        subst hrun
        rfl
      | some d =>
        simp only [hd, EStateM.Result.ok.injEq, true_and] at hrun
        subst hrun
        rfl

/-- The number of scopes is the number of regions around. -/
theorem measured {f : Nat → Check Unit} (h : Finds (f Γ.layers.length) Γ Γ' ids Q)
    (hclean : ∀ n s s', f n s = .ok () s' → s'.faults = [] → s.faults = []) :
    Finds (depth >>= f) Γ Γ' ids Q := by
  have hlength : ∀ s : Scope.State, Γ.Seen s.scopes → s.scopes.length = Γ.layers.length := by
    intro s hseen
    simpa using congrArg List.length hseen
  constructor
  · intro s s' hrun hfaults
    exact hclean s.scopes.length s s' hrun hfaults
  · intro s s' hseen hrun hfaults
    have hrun' : f s.scopes.length s = .ok () s' := hrun
    rw [hlength s hseen] at hrun'
    exact h.finds s s' hseen hrun' hfaults

theorem declaredAll : ∀ {Γ : Environs} (params : List Token),
    Finds (declareAll params) Γ (Γ.addAll params) [] (fun _ => True)
  | _, [] => nothing
  | Γ, p :: ps =>
    ((declared p .parameter).andThen ((defined p).andThen (declaredAll (Γ := Γ.add p.lexeme) ps))).imp
      fun _ _ => trivial

end Finds

/-! ## What stays around -/

namespace Environs

variable (Γ : Environs)

@[simp] theorem toContext_add (name : Bytes) : (Γ.add name).toContext = Γ.toContext := rfl

@[simp] theorem toContext_addAll : ∀ (Γ : Environs) (params : List Token),
    (Γ.addAll params).toContext = Γ.toContext
  | _, [] => rfl
  | Γ, p :: ps => toContext_addAll (Γ.add p.lexeme) ps

@[simp] theorem toContext_after (s : Stmt) : (Γ.after s).toContext = Γ.toContext := by
  cases s <;> rfl

@[simp] theorem toContext_afterOpt (s : Option Stmt) : (Γ.afterOpt s).toContext = Γ.toContext := by
  cases s with
  | none => rfl
  | some s => exact toContext_after Γ s

@[simp] theorem toContext_afterAll : ∀ (Γ : Environs) (ss : List Stmt),
    (Γ.afterAll ss).toContext = Γ.toContext
  | _, [] => rfl
  | Γ, s :: ss => (toContext_afterAll (Γ.after s) ss).trans (toContext_after Γ s)

@[simp] theorem toContext_enterFunction (body : Body) (params : List Token) (stmts : List Stmt) :
    (Γ.enterFunction body params stmts).toContext = Γ.toContext.enter body Γ.layers.length :=
  toContext_addAll _ params

@[simp] theorem tail_add (name : Bytes) : (Γ.add name).layers.tail = Γ.layers.tail := by
  cases h : Γ.layers <;> simp [add, declare, define, h]

@[simp] theorem tail_addAll : ∀ (Γ : Environs) (params : List Token),
    (Γ.addAll params).layers.tail = Γ.layers.tail
  | _, [] => rfl
  | Γ, p :: ps => (tail_addAll (Γ.add p.lexeme) ps).trans (tail_add Γ p.lexeme)

@[simp] theorem tail_after (s : Stmt) : (Γ.after s).layers.tail = Γ.layers.tail := by
  cases s <;> first | rfl | exact tail_add Γ _

@[simp] theorem tail_afterOpt (s : Option Stmt) : (Γ.afterOpt s).layers.tail = Γ.layers.tail := by
  cases s with
  | none => rfl
  | some s => exact tail_after Γ s

@[simp] theorem tail_afterAll : ∀ (Γ : Environs) (ss : List Stmt),
    (Γ.afterAll ss).layers.tail = Γ.layers.tail
  | _, [] => rfl
  | Γ, s :: ss => (tail_afterAll (Γ.after s) ss).trans (tail_after Γ s)

theorem after_of_not_isDeclaration {s : Stmt} (h : s.isDeclaration = false) : Γ.after s = Γ := by
  cases s <;> first | rfl | cases h

end Environs

/-! ## Along the tree -/

section

variable {Γ : Environs}

theorem Expr.lawful_of_parts {marks : List Mark} {e : Expr} (hplaced : (Fragment.expr e).Placed Γ)
    (huse : e.use? = none) (hparts : ∀ part ∈ e.parts Γ, Everywhere (Fragment.Lawful marks) part.1 part.2) :
    Everywhere (Fragment.Lawful marks) Γ (.expr e) := by
  refine everywhere_of_parts ⟨hplaced, ?_⟩ hparts
  rintro _ id name ⟨⟩ h
  rw [huse] at h
  cases h

theorem Expr.lawful_of_use {marks : List Mark} {e : Expr} {id : NodeId} {name : Bytes}
    (hplaced : (Fragment.expr e).Placed Γ) (huse : e.use? = some (id, name))
    (hmark : (id, Γ.distance? name) ∈ marks)
    (hparts : ∀ part ∈ e.parts Γ, Everywhere (Fragment.Lawful marks) part.1 part.2) :
    Everywhere (Fragment.Lawful marks) Γ (.expr e) := by
  refine everywhere_of_parts ⟨hplaced, ?_⟩ hparts
  rintro _ id' name' ⟨⟩ h
  rw [huse] at h
  cases h
  exact hmark

theorem Stmt.lawful_of_parts {marks : List Mark} {s : Stmt} (hplaced : (Fragment.stmt s).Placed Γ)
    (hparts : ∀ part ∈ s.parts Γ, Everywhere (Fragment.Lawful marks) part.1 part.2) :
    Everywhere (Fragment.Lawful marks) Γ (.stmt s) :=
  everywhere_of_parts ⟨hplaced, nofun⟩ hparts

/-- The check of a function goes through its parameters and its body. -/
theorem Finds.function {kind : Body} {params : List Token} {body : List Stmt} {ids : List NodeId}
    (hbody : ∀ Γ : Environs, Finds (Stmt.checkAll Γ.toContext false body) Γ (Γ.afterAll body) ids
      (fun all => Everywhere (Fragment.Lawful all) Γ (.list body))) :
    Finds (do
      let inner := Γ.toContext.enter kind (← depth)
      within do
        declareAll params
        Stmt.checkAll inner false body) Γ Γ ids
      (fun all => Everywhere (Fragment.Lawful all) (Γ.enterFunction kind params body) (.list body)) := by
  have hinside : ∀ n, Finds (within do
        declareAll params
        Stmt.checkAll (Γ.toContext.enter kind n) false body) Γ Γ ids
      (fun all => Everywhere (Fragment.Lawful all)
        (({ Γ.enter (.function params body) with
            toContext := Γ.toContext.enter kind n } : Environs).addAll params) (.list body)) := by
    intro n
    have hparams : Finds (declareAll params)
        ({ Γ.enter (.function params body) with toContext := Γ.toContext.enter kind n } : Environs)
        _ [] _ := Finds.declaredAll params
    have hstmts := hbody (({ Γ.enter (.function params body) with
      toContext := Γ.toContext.enter kind n } : Environs).addAll params)
    rw [Environs.toContext_addAll] at hstmts
    refine ((hparams.andThen hstmts).inside rfl ?_).imp fun _ h => h.2
    rw [Environs.tail_afterAll, Environs.tail_addAll]
    rfl
  exact Finds.measured (hinside Γ.layers.length) fun n => (hinside n).clean

mutual

theorem Expr.check_finds : ∀ (e : Expr) (Γ : Environs), e.WellFormed →
    Finds (e.check Γ.toContext) Γ Γ e.nodes (fun all => Everywhere (Fragment.Lawful all) Γ (.expr e))
  | .literal _ _, Γ, _ => by
    rw [Expr.check]
    exact Finds.nothing.weaken List.nil_subperm fun all _ =>
      Expr.lawful_of_parts trivial rfl (by simp [Expr.parts])
  | .group _ _ inner, Γ, hw => by
    rw [Expr.check]
    exact (Expr.check_finds inner Γ hw.2).weaken (List.sublist_cons_self _ _).subperm fun all h =>
      Expr.lawful_of_parts trivial rfl (by simp [Expr.parts, h])
  | .unary _ _ _ operand, Γ, hw => by
    rw [Expr.check]
    exact (Expr.check_finds operand Γ hw.2.1).weaken (List.sublist_cons_self _ _).subperm fun all h =>
      Expr.lawful_of_parts trivial rfl (by simp [Expr.parts, h])
  | .binary _ _ _ l r, Γ, hw => by
    rw [Expr.check]
    exact ((Expr.check_finds l Γ hw.2.1.1).andThen (Expr.check_finds r Γ hw.2.2.1)).weaken
      (List.sublist_cons_self _ _).subperm fun all h =>
      Expr.lawful_of_parts trivial rfl (by simp [Expr.parts, h.1, h.2])
  | .logical _ _ _ l r, Γ, hw => by
    rw [Expr.check]
    exact ((Expr.check_finds l Γ hw.2.1.1).andThen (Expr.check_finds r Γ hw.2.2.1)).weaken
      (List.sublist_cons_self _ _).subperm fun all h =>
      Expr.lawful_of_parts trivial rfl (by simp [Expr.parts, h.1, h.2])
  | .ternary id _ cond yes no, Γ, hw => by
    rw [Expr.check]
    have hall := (Expr.check_finds cond Γ hw.2.1.1).andThen
      ((Expr.check_finds yes Γ hw.2.2.1).andThen (Expr.check_finds no Γ hw.2.2.2.1))
    rw [← List.append_assoc] at hall
    exact hall.weaken (List.sublist_cons_self _ _).subperm fun all h =>
      Expr.lawful_of_parts trivial rfl (by simp [Expr.parts, h.1, h.2.1, h.2.2])
  | .ident _ _, Γ, _ => by
    rw [Expr.check]
    exact (Finds.used Γ _ _ _).imp fun all h =>
      Expr.lawful_of_use trivial rfl h (by simp [Expr.parts])
  | .assign _ _ value, Γ, hw => by
    rw [Expr.check]
    exact ((Expr.check_finds value Γ hw.2).andThen (Finds.used Γ _ _ _)).weaken
      (List.perm_append_singleton _ _).subperm fun all h =>
      Expr.lawful_of_use trivial rfl h.2 (by simp [Expr.parts, h.1])
  | .compound _ _ _ _ value, Γ, hw => by
    rw [Expr.check]
    exact ((Expr.check_finds value Γ hw.2.2).andThen (Finds.used Γ _ _ _)).weaken
      (List.perm_append_singleton _ _).subperm fun all h =>
      Expr.lawful_of_use trivial rfl h.2 (by simp [Expr.parts, h.1])
  | .update _ name _ token _, Γ, _ => by
    rw [Expr.check]
    exact (Finds.used Γ _ .update { name with pos := token.pos }).imp fun all h =>
      Expr.lawful_of_use trivial rfl h (by simp [Expr.parts])
  | .updateIndex _ object _ index _ _ _, Γ, hw => by
    rw [Expr.check]
    exact ((Expr.check_finds object Γ hw.2.2.1.1).andThen (Expr.check_finds index Γ hw.2.2.2)).weaken
      (List.sublist_cons_self _ _).subperm fun all h =>
      Expr.lawful_of_parts trivial rfl (by simp [Expr.parts, h.1, h.2])
  | .updateGet _ object _ _ _ _, Γ, hw => by
    rw [Expr.check]
    exact (Expr.check_finds object Γ hw.2.2.1).weaken (List.sublist_cons_self _ _).subperm
      fun all h => Expr.lawful_of_parts trivial rfl (by simp [Expr.parts, h])
  | .call _ callee _ args, Γ, hw => by
    rw [Expr.check]
    refine ((Expr.check_finds callee Γ hw.2.1.1).andThen
      (Expr.checkAll_finds args Γ hw.2.2.1)).weaken (List.sublist_cons_self _ _).subperm
      fun all h => Expr.lawful_of_parts trivial rfl ?_
    simpa [Expr.parts, h.1] using h.2
  | .lambda _ _ params body, Γ, hw => by
    rw [Expr.check]
    exact (Finds.function fun Δ => Stmt.checkAll_finds body Δ false hw.2.2).weaken
      (List.sublist_cons_self _ _).subperm fun all h =>
      Expr.lawful_of_parts trivial rfl (by simp [Expr.parts, h])
  | .array _ _ elements, Γ, hw => by
    rw [Expr.check]
    refine (Expr.checkAll_finds elements Γ hw.2).weaken (List.sublist_cons_self _ _).subperm
      fun all h => Expr.lawful_of_parts trivial rfl ?_
    simpa [Expr.parts] using h
  | .index _ object _ index, Γ, hw => by
    rw [Expr.check]
    exact ((Expr.check_finds object Γ hw.2.1.1).andThen (Expr.check_finds index Γ hw.2.2)).weaken
      (List.sublist_cons_self _ _).subperm fun all h =>
      Expr.lawful_of_parts trivial rfl (by simp [Expr.parts, h.1, h.2])
  | .get _ object _, Γ, hw => by
    rw [Expr.check]
    exact (Expr.check_finds object Γ hw.2.1).weaken (List.sublist_cons_self _ _).subperm
      fun all h => Expr.lawful_of_parts trivial rfl (by simp [Expr.parts, h])
  | .set id object _ value, Γ, hw => by
    rw [Expr.check]
    -- the value is checked before the object, which stands first in the tree
    have hids : (value.nodes ++ object.nodes).Subperm (id :: (object.nodes ++ value.nodes)) :=
      List.perm_append_comm.subperm.trans (List.sublist_cons_self _ _).subperm
    exact ((Expr.check_finds value Γ hw.2.2).andThen (Expr.check_finds object Γ hw.2.1.1)).weaken
      hids fun all h => Expr.lawful_of_parts trivial rfl (by simp [Expr.parts, h.1, h.2])
  | .this _ keyword, Γ, hw => by
    rw [Expr.check]
    exact ((Finds.required keyword _).andThen
      (Finds.used Γ _ .receiver { keyword with lexeme := text "this" })).imp fun all h =>
      Expr.lawful_of_use ⟨h.1, hw⟩ rfl h.2 (by simp [Expr.parts])

theorem Expr.checkAll_finds : ∀ (es : List Expr) (Γ : Environs), Expr.WellFormedAll es →
    Finds (Expr.checkAll Γ.toContext es) Γ Γ (Expr.nodesAll es)
      (fun all => ∀ e ∈ es, Everywhere (Fragment.Lawful all) Γ (.expr e))
  | [], Γ, _ => by
    rw [Expr.checkAll]
    exact Finds.nothing.imp fun _ _ => nofun
  | e :: es, Γ, hw => by
    rw [Expr.checkAll]
    exact ((Expr.check_finds e Γ hw.1).andThen (Expr.checkAll_finds es Γ hw.2)).imp
      fun _ h => List.forall_mem_cons.2 h

theorem Expr.checkOpt_finds : ∀ (e : Option Expr) (Γ : Environs), Expr.WellFormedOpt e →
    Finds (Expr.checkOpt Γ.toContext e) Γ Γ (Expr.nodesOpt e)
      (fun all => ∀ v ∈ e, Everywhere (Fragment.Lawful all) Γ (.expr v))
  | none, Γ, _ => by
    rw [Expr.checkOpt]
    exact Finds.nothing.imp fun _ _ => nofun
  | some e, Γ, hw => by
    rw [Expr.checkOpt]
    exact (Expr.check_finds e Γ hw).imp fun _ h v hv => Option.mem_some.1 hv ▸ h

theorem Stmt.check_finds : ∀ (s : Stmt) (Γ : Environs), s.WellFormed →
    Finds (s.check Γ.toContext) Γ (Γ.after s) s.nodes
      (fun all => Everywhere (Fragment.Lawful all) Γ (.stmt s))
  | .expression _ e, Γ, hw => by
    rw [Stmt.check]
    exact (Expr.check_finds e Γ hw).imp fun all h =>
      Stmt.lawful_of_parts trivial (by simp [Stmt.parts, h])
  | .print _ e, Γ, hw => by
    rw [Stmt.check]
    exact (Expr.check_finds e Γ hw).imp fun all h =>
      Stmt.lawful_of_parts trivial (by simp [Stmt.parts, h])
  | .declare _ name value, Γ, hw => by
    rw [Stmt.check]
    have hvalue : Finds (Expr.checkOpt Γ.toContext value) (Γ.declare name.lexeme) _ _ _ :=
      Expr.checkOpt_finds value (Γ.declare name.lexeme) hw.2
    have hall := (Finds.declared name .local).andThen (hvalue.andThen (Finds.defined name))
    rw [List.append_nil, List.nil_append] at hall
    refine hall.imp fun all h => Stmt.lawful_of_parts trivial ?_
    simpa [Stmt.parts] using h.2.1
  | .block pos body, Γ, hw => by
    rw [Stmt.check]
    have hbody : Finds (Stmt.checkAll Γ.toContext false body) (Γ.enter (.block pos body)) _ _ _ :=
      Stmt.checkAll_finds body (Γ.enter (.block pos body)) false hw
    refine (hbody.inside rfl ?_).imp fun all h =>
      Stmt.lawful_of_parts trivial (by simp [Stmt.parts, h])
    rw [Environs.tail_afterAll]
    rfl
  | .branch _ cond yes no, Γ, hw => by
    rw [Stmt.check]
    have hyes := Stmt.check_finds yes Γ hw.2.1.1
    rw [Γ.after_of_not_isDeclaration hw.2.1.2] at hyes
    have hall := (Expr.check_finds cond Γ hw.1).andThen
      (hyes.andThen (Stmt.checkElse_finds no Γ hw.2.2))
    rw [← List.append_assoc] at hall
    refine hall.imp fun all h => Stmt.lawful_of_parts ⟨hw.2.1.2, ?_⟩ ?_
    · rintro s rfl
      exact hw.2.2.2.2
    · simpa [Stmt.parts, h.1, h.2.1] using h.2.2
  | .loop _ cond body, Γ, hw => by
    rw [Stmt.check]
    have hbody : Finds (body.check { Γ.toContext with inLoop := true }) Γ.enterLoop _ _ _ :=
      Stmt.check_finds body Γ.enterLoop hw.2.1
    rw [Γ.enterLoop.after_of_not_isDeclaration hw.2.2] at hbody
    have hround : Finds (body.check { Γ.toContext with inLoop := true }) Γ Γ _ _ :=
      hbody.relocate rfl rfl
    exact ((Expr.check_finds cond Γ hw.1).andThen hround).imp fun all h =>
      Stmt.lawful_of_parts hw.2.2 (by simp [Stmt.parts, h.1, h.2])
  | .forLoop pos start cond step body, Γ, hw => by
    rw [Stmt.check]
    -- the clauses of the header see what the first one declares
    let inside := Γ.enter (.header pos start cond step body)
    let round := inside.afterOpt start
    have hcontext : round.toContext = Γ.toContext := inside.toContext_afterOpt start
    have hstart : Finds (Stmt.checkOpt Γ.toContext start) inside round _ _ :=
      Stmt.checkClause_finds start inside hw.1
    have hcond := Expr.checkOpt_finds cond round hw.2.1
    have hstep := Expr.checkOpt_finds step round hw.2.2.1
    have hbody := Stmt.check_finds body round.enterLoop hw.2.2.2.1
    rw [round.enterLoop.after_of_not_isDeclaration hw.2.2.2.2] at hbody
    have hround : Finds (body.check { round.toContext with inLoop := true }) round round _ _ :=
      hbody.relocate rfl rfl
    rw [hcontext] at hcond hstep hround
    have hall := hstart.andThen (hcond.andThen (hstep.andThen hround))
    rw [← List.append_assoc, ← List.append_assoc] at hall
    refine (hall.inside rfl (inside.tail_afterOpt start)).imp fun all h =>
      Stmt.lawful_of_parts ⟨?_, hw.2.2.2.2⟩ fun part hpart => ?_
    · rintro s rfl
      exact hw.1.1
    · simp only [Stmt.parts, List.mem_append, List.mem_map, Option.mem_toList,
        List.mem_singleton] at hpart
      rcases hpart with ((⟨s, hs, rfl⟩ | ⟨e, he, rfl⟩) | ⟨e, he, rfl⟩) | rfl
      · exact h.1 s hs
      · exact h.2.1 e he
      · exact h.2.2.1 e he
      · exact h.2.2.2
  | .leave keyword, Γ, _ => by
    rw [Stmt.check]
    exact (Finds.required keyword _).imp fun all h => Stmt.lawful_of_parts h (by simp [Stmt.parts])
  | .skip keyword, Γ, _ => by
    rw [Stmt.check]
    exact (Finds.required keyword _).imp fun all h => Stmt.lawful_of_parts h (by simp [Stmt.parts])
  | .result keyword value, Γ, hw => by
    rw [Stmt.check]
    refine ((Finds.required keyword _).andThen ((Finds.required keyword _).andThen
      (Expr.checkOpt_finds value Γ hw.2))).imp fun all h => Stmt.lawful_of_parts ?_ ?_
    · have hbody : Γ.body ≠ .none := by simpa using h.1
      exact hbody
    · simpa [Stmt.parts] using h.2.2
  | .function (.mk name params body), Γ, hw => by
    rw [Stmt.check]
    have hbody := @Finds.function (Γ.add name.lexeme) .function params body _ fun Δ =>
      Stmt.checkAll_finds body Δ false hw.2.2
    refine ((Finds.declared name .local).andThen ((Finds.defined name).andThen hbody)).imp
      fun all h => Stmt.lawful_of_parts trivial fun part hpart => ?_
    rw [List.mem_singleton.1 hpart]
    exact h.2.2
  | .classDecl _ name fields methods, Γ, hw => by
    rw [Stmt.check]
    have hfields : Finds (Field.checkAll Γ.toContext fields) (Γ.add name.lexeme) _ _ _ :=
      Field.checkAll_finds fields (Γ.add name.lexeme) hw.2.1
    have hmethods : Finds (Function.checkAll { Γ.toContext with inClass := true } methods)
        (((Γ.add name.lexeme).enter (.ofClass name fields methods)).add (text "this")) _ _ _ :=
      (Function.checkAll_finds methods
        ((Γ.add name.lexeme).receive (.ofClass name fields methods)) hw.2.2).relocate rfl rfl
    have hinside := (Finds.declared (Scope.receiver name) .receiver).andThen
      ((Finds.defined (Scope.receiver name)).andThen hmethods)
    have htail : ((Γ.add name.lexeme).receive (.ofClass name fields methods)).layers.tail =
        (Γ.add name.lexeme).layers :=
      Environs.tail_add ((Γ.add name.lexeme).enter (.ofClass name fields methods)) (text "this")
    refine ((Finds.declared name .local).andThen ((Finds.defined name).andThen
      (hfields.andThen (hinside.inside rfl htail)))).imp fun all h =>
      Stmt.lawful_of_parts trivial fun part hpart => ?_
    simp only [Stmt.parts, List.mem_append, List.mem_map] at hpart
    rcases hpart with ⟨f, hf, rfl⟩ | ⟨f, hf, rfl⟩
    · exact h.2.2.1 f hf
    · exact h.2.2.2.2.2 f hf

theorem Stmt.checkElse_finds {taken : Bool} : ∀ (s : Option Stmt) (Γ : Environs),
    Stmt.WellFormedElse taken s → Finds (Stmt.checkOpt Γ.toContext s) Γ Γ (Stmt.nodesOpt s)
      (fun all => ∀ v ∈ s, Everywhere (Fragment.Lawful all) Γ (.stmt v))
  | none, Γ, _ => by
    rw [Stmt.checkOpt]
    exact Finds.nothing.imp fun _ _ => nofun
  | some s, Γ, hw => by
    rw [Stmt.checkOpt]
    have hs := Stmt.check_finds s Γ hw.2.1
    rw [Γ.after_of_not_isDeclaration hw.2.2] at hs
    exact hs.imp fun _ h v hv => Option.mem_some.1 hv ▸ h

theorem Stmt.checkClause_finds : ∀ (s : Option Stmt) (Γ : Environs), Stmt.WellFormedClause s →
    Finds (Stmt.checkOpt Γ.toContext s) Γ (Γ.afterOpt s) (Stmt.nodesOpt s)
      (fun all => ∀ v ∈ s, Everywhere (Fragment.Lawful all) Γ (.stmt v))
  | none, Γ, _ => by
    rw [Stmt.checkOpt]
    exact Finds.nothing.imp fun _ _ => nofun
  | some s, Γ, hw => by
    rw [Stmt.checkOpt]
    exact (Stmt.check_finds s Γ hw.2).imp fun _ h v hv => Option.mem_some.1 hv ▸ h

theorem Stmt.checkAll_finds : ∀ (ss : List Stmt) (Γ : Environs) (exited : Bool),
    Stmt.WellFormedAll ss → Finds (Stmt.checkAll Γ.toContext exited ss) Γ (Γ.afterAll ss)
      (Stmt.nodesAll ss) (fun all => Everywhere (Fragment.Lawful all) Γ (.list ss))
  | [], Γ, _, _ => by
    rw [Stmt.checkAll]
    exact Finds.nothing.imp fun all _ =>
      everywhere_of_parts ⟨trivial, nofun⟩ (by simp [Fragment.parts])
  | s :: ss, Γ, exited, hw => by
    rw [Stmt.checkAll]
    have hrest := Stmt.checkAll_finds ss (Γ.after s) s.exits hw.2
    rw [Environs.toContext_after] at hrest
    have hboth := (Stmt.check_finds s Γ hw.1).recorded.andThen hrest
    have hparts : ∀ all, Everywhere (Fragment.Lawful all) Γ (.stmt s) ∧
        Everywhere (Fragment.Lawful all) (Γ.after s) (.list ss) →
        Everywhere (Fragment.Lawful all) Γ (.list (s :: ss)) := by
      intro all h
      exact everywhere_of_parts ⟨trivial, nofun⟩ (by simp [Fragment.parts, h.1, h.2])
    cases exited with
    | false => exact (Finds.nothing.andThen hboth).imp fun all h => hparts all h.2
    | true => exact ((Finds.warning _).andThen hboth).imp fun all h => hparts all h.2

theorem Function.checkAll_finds : ∀ (ds : List Function) (Γ : Environs), Function.WellFormedAll ds →
    Finds (Function.checkAll Γ.toContext ds) Γ Γ (Function.nodesAll ds)
      (fun all => ∀ d ∈ ds, Everywhere (Fragment.Lawful all)
        (Γ.enterFunction d.bodyKind d.params d.body) (.list d.body))
  | [], Γ, _ => by
    rw [Function.checkAll]
    exact Finds.nothing.imp fun _ _ => nofun
  | .mk name params body :: ds, Γ, hw => by
    rw [Function.checkAll]
    have hbody := @Finds.function Γ (Function.mk name params body).bodyKind params body _ fun Δ =>
      Stmt.checkAll_finds body Δ false hw.1.2.2
    have hall := hbody.andThen (Function.checkAll_finds ds Γ hw.2)
    rw [bind_assoc] at hall
    exact hall.imp fun _ h => List.forall_mem_cons.2 h

theorem Field.checkAll_finds : ∀ (ds : List Field) (Γ : Environs), Field.WellFormedAll ds →
    Finds (Field.checkAll Γ.toContext ds) Γ Γ (Field.nodesAll ds)
      (fun all => ∀ d ∈ ds, Everywhere (Fragment.Lawful all) Γ (.expr d.value))
  | [], Γ, _ => by
    rw [Field.checkAll]
    exact Finds.nothing.imp fun _ _ => nofun
  | .mk _ value :: ds, Γ, hw => by
    rw [Field.checkAll]
    exact ((Expr.check_finds value Γ hw.1.2).andThen (Field.checkAll_finds ds Γ hw.2)).imp
      fun _ h => List.forall_mem_cons.2 h

end

end

end Treewalk
