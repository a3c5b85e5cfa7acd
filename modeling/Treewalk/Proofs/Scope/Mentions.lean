import Treewalk.Proofs.Scope.Legal

/-!
# What the uses of names lead to

**Mentions.** A `Mention` is an expression that uses a name, with its identity and with what is around it.
`Fragment.mentions` lists those of a piece in the order in which the check comes to them, and they are the
uses that occur in the piece (`Fragment.mem_mentions`).

**Regions.** `Stmt.nestedAll` lists the regions of a program, each behind the regions inside it. A use that
is noted with a distance leads to the region that so many regions lie before, counted from the use outward
(`LocalUse.LeadsTo`).

**Extents.** A region that is opened in the text has pieces in it (`Extent`). Every region around a piece was
opened somewhere, with the piece in it (`Occurs.opened`).

Main result: where identities are different, the uses in the program that lead to a region are the uses in
its pieces that reach it (`Occurs.fits`), so that the check, which sees only the pieces, knows them all when
the region ends.
-/

namespace Treewalk

open Environs

/-! ## Names of a region -/

/-- The names that variables, functions and classes have in a region. -/
def Region.locals : Region → List Token
  | .block _ body | .function _ body => Stmt.declaresAll body
  | .header _ start _ _ body => Stmt.declaresHeader start body
  | .globals | .receiver _ _ _ => []

/-- The names of a region, where the receiver is none. -/
def Region.names (r : Region) : List Token := r.params ++ r.locals

mutual

/-- The regions in an expression, inner ones first. -/
def Expr.nested : Expr → List Region
  | .literal _ _ | .ident _ _ | .update _ _ _ _ _ | .this _ _ => []
  | .group _ _ e | .unary _ _ _ e | .assign _ _ e | .compound _ _ _ _ e | .updateGet _ e _ _ _ _
  | .get _ e _ => e.nested
  | .binary _ _ _ l r | .logical _ _ _ l r | .updateIndex _ l _ r _ _ _ | .index _ l _ r =>
    l.nested ++ r.nested
  | .set _ object _ value => value.nested ++ object.nested
  | .ternary _ _ c y n => c.nested ++ y.nested ++ n.nested
  | .call _ c _ args => c.nested ++ Expr.nestedAll args
  | .array _ _ es => Expr.nestedAll es
  | .lambda _ _ params body => Stmt.nestedAll body ++ [.function params body]

/-- The regions in expressions. -/
def Expr.nestedAll : List Expr → List Region
  | [] => []
  | e :: es => e.nested ++ Expr.nestedAll es

/-- The regions in an expression that may be absent. -/
def Expr.nestedOpt : Option Expr → List Region
  | none => []
  | some e => e.nested

/-- The regions in a statement, inner ones first. -/
def Stmt.nested : Stmt → List Region
  | .expression _ e | .print _ e => e.nested
  | .declare _ _ value | .result _ value => Expr.nestedOpt value
  | .block pos body => Stmt.nestedAll body ++ [.block pos body]
  | .branch _ cond yes no => cond.nested ++ yes.nested ++ Stmt.nestedOpt no
  | .loop _ cond body => cond.nested ++ body.nested
  | .forLoop pos start cond step body =>
    Stmt.nestedOpt start ++ Expr.nestedOpt cond ++ Expr.nestedOpt step ++ body.nested ++
      [.header pos start cond step body]
  | .leave _ | .skip _ => []
  | .function (.mk _ params body) => Stmt.nestedAll body ++ [.function params body]
  | .classDecl _ name fields methods =>
    Field.nestedAll fields ++ Function.nestedAll methods ++ [.ofClass name fields methods]

/-- The regions in a statement that may be absent. -/
def Stmt.nestedOpt : Option Stmt → List Region
  | none => []
  | some s => s.nested

/-- The regions in statements. -/
def Stmt.nestedAll : List Stmt → List Region
  | [] => []
  | s :: ss => s.nested ++ Stmt.nestedAll ss

/-- The regions of methods, each behind those in its body. -/
def Function.nestedAll : List Function → List Region
  | [] => []
  | .mk _ params body :: ds => Stmt.nestedAll body ++ [.function params body] ++ Function.nestedAll ds

/-- The regions in the initial values of fields. -/
def Field.nestedAll : List Field → List Region
  | [] => []
  | .mk _ value :: ds => value.nested ++ Field.nestedAll ds

end

/-! ## Parts are smaller -/

theorem Function.sizeOf_body (d : Function) : sizeOf d.body < sizeOf d := by
  cases d
  simp only [Function.body, Function.mk.sizeOf_spec]
  omega

theorem Function.sizeOf_body_of_mem {d : Function} {ds : List Function} (h : d ∈ ds) :
    sizeOf d.body < sizeOf ds := Nat.lt_trans d.sizeOf_body (List.sizeOf_lt_of_mem h)

theorem Field.sizeOf_value_of_mem {d : Field} {ds : List Field} (h : d ∈ ds) :
    sizeOf d.value < sizeOf ds := by
  refine Nat.lt_trans ?_ (List.sizeOf_lt_of_mem h)
  cases d
  simp only [Field.value, Field.mk.sizeOf_spec]
  omega

theorem Fragment.sizeOf_part {Γ Δ : Environs} {p q : Fragment} (h : (Δ, q) ∈ p.parts Γ) :
    sizeOf q < sizeOf p := by
  cases p with
  | expr e =>
    cases e <;> simp only [Fragment.parts, Expr.parts, List.mem_cons, List.not_mem_nil, or_false,
      Prod.mk.injEq, List.mem_map] at h <;> grind [→ List.sizeOf_lt_of_mem]
  | stmt s =>
    cases s <;> simp only [Fragment.parts, Stmt.parts, List.mem_cons, List.not_mem_nil, or_false,
      Prod.mk.injEq, List.mem_map, List.mem_append, Option.mem_toList] at h <;>
      grind [Function.sizeOf_body, → Function.sizeOf_body_of_mem, → Field.sizeOf_value_of_mem]
  | list ss =>
    cases ss with
    | nil => simp [Fragment.parts] at h
    | cons s ss =>
      simp only [Fragment.parts, List.mem_cons, List.not_mem_nil, or_false, Prod.mk.injEq] at h
      simp only [Fragment.list.sizeOf_spec, List.cons.sizeOf_spec]
      rcases h with ⟨-, rfl⟩ | ⟨-, rfl⟩
      · simp only [Fragment.stmt.sizeOf_spec]
        omega
      · simp only [Fragment.list.sizeOf_spec]
        omega

/-- What goes from the parts of a piece to the piece holds of all pieces. -/
theorem Fragment.of_parts {P : Environs → Fragment → Prop}
    (h : ∀ Γ p, (∀ part ∈ p.parts Γ, P part.1 part.2) → P Γ p) (Γ : Environs) (p : Fragment) : P Γ p :=
  h Γ p fun part hpart =>
    have : sizeOf part.2 < sizeOf p := sizeOf_part hpart
    of_parts h part.1 part.2
termination_by sizeOf p

theorem Everywhere.part {P : Environs → Fragment → Prop} {Γ Δ : Environs} {p q : Fragment}
    (h : Everywhere P Γ p) (hpart : (Δ, q) ∈ p.parts Γ) : Everywhere P Δ q :=
  fun Δ' q' hbelow => h Δ' q' ((Below.here.part hpart).trans hbelow)

/-! ## Mentions -/

/-- A use of a name, with what is around it. -/
structure Mention where
  around : Environs
  id : NodeId
  name : Bytes

namespace Mention

/-- The distance to the declaration, if the name is local. -/
def distance? (m : Mention) : Option Nat := m.around.distance? m.name

/-- The identity with the distance, if the name is local. -/
def noted? (m : Mention) : Option (NodeId × Nat) := m.distance?.map (m.id, ·)

/-- The region with the declaration, if the name is local. -/
def region? (m : Mention) : Option Region := m.distance?.bind (m.around.regions[·]?)

/-- The declaration is in the region around which there are so many. -/
def Reaches (m : Mention) (level : Nat) : Prop :=
  ∃ d, m.distance? = some d ∧ m.around.layers.length = level + d + 1

end Mention

/-- The use that a piece itself is. -/
def Fragment.own (Γ : Environs) : Fragment → List Mention
  | .expr e => e.use?.toList.map fun use => ⟨Γ, use.1, use.2⟩
  | _ => []

/-- The parts of a piece in the order in which they are checked. -/
def Fragment.order (Γ : Environs) : Fragment → List (Environs × Fragment)
  | .expr (.set _ object _ value) => [(Γ, .expr value), (Γ, .expr object)]
  | p => p.parts Γ

theorem Fragment.order_perm (Γ : Environs) (p : Fragment) : (p.order Γ).Perm (p.parts Γ) := by
  unfold order
  split
  · exact List.Perm.swap ..
  · exact List.Perm.refl _

/-- The uses in a piece in the order in which they are checked: those of its parts first. -/
def Fragment.mentions (Γ : Environs) (p : Fragment) : List Mention :=
  (p.order Γ).attach.flatMap (fun part => part.1.2.mentions part.1.1) ++ p.own Γ
termination_by sizeOf p
decreasing_by exact sizeOf_part ((order_perm Γ p).mem_iff.1 part.2)

theorem Fragment.mentions_eq (Γ : Environs) (p : Fragment) :
    p.mentions Γ = (p.order Γ).flatMap (fun part => part.2.mentions part.1) ++ p.own Γ := by
  rw [mentions, List.flatMap_subtype (g := fun part => part.2.mentions part.1) (fun _ _ => rfl),
    List.unattach_attach]

theorem Fragment.mem_own {Γ : Environs} {p : Fragment} {m : Mention} :
    m ∈ p.own Γ ↔ m.around = Γ ∧ ∃ e, p = .expr e ∧ e.use? = some (m.id, m.name) := by
  obtain ⟨Δ, id, name⟩ := m
  cases p with
  | expr e =>
    simp only [own, List.mem_map, Option.mem_toList, Mention.mk.injEq, Fragment.expr.injEq]
    constructor
    · rintro ⟨use, huse, rfl, rfl, rfl⟩
      exact ⟨rfl, e, rfl, huse⟩
    · rintro ⟨rfl, _, rfl, huse⟩
      exact ⟨_, huse, rfl, rfl, rfl⟩
  | stmt s => simp [own]
  | list ss => simp [own]

/-- The uses in a piece are those that can be reached from it. -/
theorem Fragment.mem_mentions {m : Mention} : ∀ {Γ : Environs} {p : Fragment}, m ∈ p.mentions Γ ↔
    ∃ e, Below Γ p m.around (.expr e) ∧ e.use? = some (m.id, m.name) := by
  refine @Fragment.of_parts (fun Γ p => _) fun Γ p ih => ?_
  rw [mentions_eq, List.mem_append, List.mem_flatMap, mem_own]
  simp only [(order_perm Γ p).mem_iff]
  constructor
  · rintro (⟨part, hpart, hm⟩ | ⟨hΓ, e, rfl, huse⟩)
    · obtain ⟨e, hbelow, huse⟩ := (ih part hpart).1 hm
      exact ⟨e, (Below.here.part hpart).trans hbelow, huse⟩
    · exact ⟨e, hΓ ▸ .here, huse⟩
  · rintro ⟨e, hbelow, huse⟩
    rcases hbelow.cases_head with ⟨hΓ, rfl⟩ | ⟨part, hpart, hbelow⟩
    · exact .inr ⟨hΓ, e, rfl, huse⟩
    · exact .inl ⟨part, hpart, (ih part hpart).2 ⟨e, hbelow, huse⟩⟩

theorem Below.mentions_subset {Γ Δ : Environs} {p q : Fragment} (h : Below Γ p Δ q) :
    q.mentions Δ ⊆ p.mentions Γ := by
  intro m hm
  obtain ⟨e, hbelow, huse⟩ := Fragment.mem_mentions.1 hm
  exact Fragment.mem_mentions.2 ⟨e, h.trans hbelow, huse⟩

/-! ## Identities -/

/-- The identities in a piece. -/
def Fragment.nodes : Fragment → List NodeId
  | .expr e => e.nodes
  | .stmt s => s.nodes
  | .list ss => Stmt.nodesAll ss

theorem Expr.nodesAll_eq_flatMap (es : List Expr) : Expr.nodesAll es = es.flatMap Expr.nodes := by
  induction es with
  | nil => rfl
  | cons e es ih => rw [Expr.nodesAll, ih, List.flatMap_cons]

theorem Expr.nodesOpt_eq_flatMap (e : Option Expr) : Expr.nodesOpt e = e.toList.flatMap Expr.nodes := by
  cases e <;> simp [Expr.nodesOpt]

theorem Stmt.nodesOpt_eq_flatMap (s : Option Stmt) : Stmt.nodesOpt s = s.toList.flatMap Stmt.nodes := by
  cases s <;> simp [Stmt.nodesOpt]

theorem Function.nodesAll_eq_flatMap (ds : List Function) :
    Function.nodesAll ds = ds.flatMap fun d => Stmt.nodesAll d.body := by
  induction ds with
  | nil => rfl
  | cons d ds ih =>
    cases d
    rw [Function.nodesAll, ih, List.flatMap_cons]
    rfl

theorem Field.nodesAll_eq_flatMap (ds : List Field) :
    Field.nodesAll ds = ds.flatMap fun d => d.value.nodes := by
  induction ds with
  | nil => rfl
  | cons d ds ih =>
    cases d
    rw [Field.nodesAll, ih, List.flatMap_cons]
    rfl

theorem Expr.nodes_eq_cons (Γ : Environs) (e : Expr) :
    e.nodes = e.id :: (e.parts Γ).flatMap fun part => part.2.nodes := by
  cases e <;> simp [Expr.nodes, Expr.id, Expr.parts, Fragment.nodes, Expr.nodesAll_eq_flatMap,
    List.flatMap_map]

theorem Stmt.nodes_eq_flatMap (Γ : Environs) (s : Stmt) :
    s.nodes = (s.parts Γ).flatMap fun part => part.2.nodes := by
  cases s with
  | function d =>
    cases d
    simp [Stmt.nodes, Stmt.parts, Fragment.nodes, Function.nodes, Function.body]
  | _ => simp [Stmt.nodes, Stmt.parts, Fragment.nodes, Expr.nodesOpt_eq_flatMap, Stmt.nodesOpt_eq_flatMap,
    Function.nodesAll_eq_flatMap, Field.nodesAll_eq_flatMap, List.flatMap_map]

theorem Expr.id_of_use? {e : Expr} {use : NodeId × Bytes} (h : e.use? = some use) : use.1 = e.id := by
  cases e <;> cases h <;> rfl

/-- A piece has its own identity, if any, and those of its parts. -/
theorem Fragment.nodes_subperm (Γ : Environs) (p : Fragment) :
    ((p.parts Γ).flatMap (fun part => part.2.nodes) ++ (p.own Γ).map Mention.id).Subperm p.nodes := by
  cases p with
  | expr e =>
    rw [nodes, Expr.nodes_eq_cons Γ e]
    refine List.perm_append_comm.subperm.trans (List.Sublist.subperm ?_)
    have hown : (((Fragment.expr e).own Γ).map Mention.id).Sublist [e.id] := by
      cases huse : e.use? with
      | none => simp [own, huse]
      | some use => simp [own, huse, Expr.id_of_use? huse]
    exact hown.append (List.Sublist.refl _)
  | stmt s => simp [nodes, own, parts, Stmt.nodes_eq_flatMap Γ s, List.Subperm.refl]
  | list ss =>
    cases ss with
    | nil => simp [nodes, own, parts]
    | cons s ss => simp [nodes, own, parts, Stmt.nodesAll, List.Subperm.refl]

/-- Every use has an identity of the piece of its own. -/
theorem Fragment.mentions_subperm : ∀ (Γ : Environs) (p : Fragment),
    ((p.mentions Γ).map Mention.id).Subperm p.nodes := by
  refine Fragment.of_parts fun Γ p ih => ?_
  refine List.Subperm.trans ?_ (nodes_subperm Γ p)
  rw [mentions_eq, List.map_append]
  have hparts : ∀ parts : List (Environs × Fragment), parts ⊆ p.parts Γ →
      ((parts.flatMap fun part => part.2.mentions part.1).map Mention.id).Subperm
        (parts.flatMap fun part => part.2.nodes) := by
    intro parts hsub
    induction parts with
    | nil => exact List.Subperm.refl _
    | cons part rest ihrest =>
      rw [List.flatMap_cons, List.flatMap_cons, List.map_append]
      exact (ih part (hsub List.mem_cons_self)).append
        (ihrest fun q hq => hsub (List.mem_cons_of_mem _ hq))
  refine List.Subperm.append ?_ (List.Subperm.refl _)
  refine (hparts (p.order Γ) (order_perm Γ p).subset).trans ?_
  exact ((order_perm Γ p).flatMap_right _).subperm

/-! ## Extents -/

/-- A region as it is opened in the text: how many regions are around it, and the pieces in it. -/
structure Extent where
  region : Region
  level : Nat
  parts : List (Environs × Fragment)

namespace Extent

/-- The parameters and the body of a function. -/
def function (Γ : Environs) (kind : Scope.Body) (params : List Token) (body : List Stmt) : Extent :=
  ⟨.function params body, Γ.layers.length, [(Γ.enterFunction kind params body, .list body)]⟩

/-- The uses in a region. -/
def mentions (x : Extent) : List Mention := x.parts.flatMap fun part => part.2.mentions part.1

end Extent

/-- The regions that a piece itself opens; the receiver of a class has no names and counts for nothing. -/
def Fragment.opens (Γ : Environs) : Fragment → List Extent
  | .expr (.lambda _ _ params body) => [.function Γ .function params body]
  | .stmt (.block pos body) =>
    [⟨.block pos body, Γ.layers.length, [(Γ.enter (.block pos body), .list body)]⟩]
  | .stmt (.forLoop pos start cond step body) =>
    [⟨.header pos start cond step body, Γ.layers.length, (Stmt.forLoop pos start cond step body).parts Γ⟩]
  | .stmt (.function d) => [.function (Γ.add d.name.lexeme) .function d.params d.body]
  | .stmt (.classDecl _ name fields methods) => methods.map fun d =>
    .function ((Γ.add name.lexeme).receive (.ofClass name fields methods)) d.bodyKind d.params d.body
  | _ => []

/-- The names that a piece declares in the region it stands in. -/
def Fragment.declares : Fragment → List Token
  | .expr _ => []
  | .stmt s => s.declares
  | .list ss => Stmt.declaresAll ss

/-- The pieces in a region. -/
def Region.fragments : Region → List Fragment
  | .block _ body | .function _ body => [.list body]
  | .header _ start cond step body =>
    start.toList.map .stmt ++ cond.toList.map .expr ++ step.toList.map .expr ++ [.stmt body]
  | .globals | .receiver _ _ _ => []

/-- The locals of a region are what its pieces declare. -/
theorem Region.locals_eq (r : Region) : r.locals = r.fragments.flatMap Fragment.declares := by
  have hnone : ∀ es : List Expr, es.flatMap (fun _ => ([] : List Token)) = [] := by simp
  cases r <;> simp only [Region.locals, Region.fragments, Fragment.declares, Stmt.declaresHeader,
    List.flatMap_append, List.flatMap_map, List.flatMap_cons, List.flatMap_nil, List.append_nil, hnone]

/-- The regions that a piece opens are its scopes. -/
theorem Fragment.scopes_eq (Γ : Environs) (p : Fragment) :
    p.scopes = (p.opens Γ).map fun x => x.region.names := by
  unfold scopes
  split <;> simp [opens, Extent.function, Region.names, Region.params, Region.locals, Function.declares]

theorem Environs.length_regions (Γ : Environs) : Γ.regions.length = Γ.layers.length := List.length_map ..

theorem Environs.regions_empty : ({} : Environs).regions = [] := rfl

theorem Environs.regions_enter (Γ : Environs) (region : Region) :
    (Γ.enter region).regions = region :: Γ.regions := rfl

theorem Environs.regions_enterLoop (Γ : Environs) : Γ.enterLoop.regions = Γ.regions := rfl

section

variable {Γ Δ : Environs} {p q : Fragment} {x : Extent}

/-- The pieces in a region are parts of the piece that opens it, and have the region around them and so many
others. -/
structure Extent.Opened (x : Extent) (Γ : Environs) (p : Fragment) : Prop where
  fragments : x.parts.map Prod.snd = x.region.fragments
  parts : x.parts ⊆ p.parts Γ
  around : ∀ part ∈ x.parts, ∃ outer, part.1.regions = x.region :: outer ∧ outer.length = x.level

theorem Extent.opened_function {kind : Scope.Body} {params : List Token} {body : List Stmt}
    (h : (Δ.enterFunction kind params body, .list body) ∈ p.parts Γ) :
    (Extent.function Δ kind params body).Opened Γ p := by
  refine ⟨rfl, List.cons_subset.2 ⟨h, List.nil_subset _⟩, ?_⟩
  rintro _ (_ | _)
  · exact ⟨Δ.regions, regions_enterFunction .., Δ.length_regions⟩
  · contradiction

theorem Stmt.regions_header {pos : Position} {start : Option Stmt} {cond step : Option Expr} {body : Stmt}
    {part : Environs × Fragment} (h : part ∈ (Stmt.forLoop pos start cond step body).parts Γ) :
    part.1.regions = .header pos start cond step body :: Γ.regions := by
  simp only [Stmt.parts, List.mem_append, List.mem_map, List.mem_singleton] at h
  rcases h with ((⟨_, -, rfl⟩ | ⟨_, -, rfl⟩) | ⟨_, -, rfl⟩) | rfl
  · rfl
  · exact regions_afterOpt _ start
  · exact regions_afterOpt _ start
  · exact regions_afterOpt _ start

theorem Extent.opened_header (pos : Position) (start : Option Stmt) (cond step : Option Expr) (body : Stmt) :
    (Extent.mk (.header pos start cond step body) Γ.layers.length
      ((Stmt.forLoop pos start cond step body).parts Γ)).Opened Γ
        (.stmt (.forLoop pos start cond step body)) := by
  refine ⟨by simp [Stmt.parts, Region.fragments, Function.comp_def], List.Subset.refl _, ?_⟩
  exact fun part hpart => ⟨Γ.regions, Stmt.regions_header hpart, Γ.length_regions⟩

theorem Fragment.opened_of_mem (h : x ∈ p.opens Γ) : x.Opened Γ p := by
  unfold opens at h
  split at h <;> simp only [List.mem_singleton, List.mem_map, List.not_mem_nil] at h
  · subst h
    exact Extent.opened_function (by simp [parts, Expr.parts])
  · subst h
    refine ⟨rfl, List.Subset.refl _, ?_⟩
    rintro _ (_ | _)
    · exact ⟨Γ.regions, rfl, Γ.length_regions⟩
    · contradiction
  · subst h
    exact Extent.opened_header ..
  · subst h
    exact Extent.opened_function (by simp [parts, Stmt.parts])
  · obtain ⟨d, hd, rfl⟩ := h
    refine Extent.opened_function ?_
    simp only [parts, Stmt.parts, List.mem_append, List.mem_map]
    exact .inr ⟨d, hd, rfl⟩

/-- The names that a piece itself declares, in whatever region. -/
def Fragment.binders : Fragment → List Token
  | .expr (.lambda _ _ params _) => params
  | .stmt (.declare _ t _) => [t]
  | .stmt (.function d) => d.name :: d.params
  | .stmt (.classDecl _ t _ methods) => t :: methods.flatMap Function.params
  | _ => []

theorem Fragment.Built.binders {P : Token → Prop} (h : p.Built P) : ∀ t ∈ p.binders, P t := by
  unfold Fragment.binders
  split
  · exact fun t ht => h t (List.mem_cons_of_mem _ ht)
  · exact h.1
  · exact h.1
  · intro t ht
    rcases List.mem_cons.1 ht with rfl | ht
    · exact h.1 _ List.mem_cons_self
    · obtain ⟨d, hd, ht⟩ := List.mem_flatMap.1 ht
      exact h.1 t (List.mem_cons_of_mem _ (List.mem_flatMap.2 ⟨d, hd, List.mem_cons_of_mem _ ht⟩))
  · exact fun _ => nofun

theorem Fragment.params_of_opens (hx : x ∈ p.opens Γ) : x.region.params ⊆ p.binders := by
  unfold opens at hx
  split at hx <;> simp only [List.mem_singleton, List.mem_map, List.not_mem_nil] at hx
  · subst hx
    exact List.Subset.refl _
  · subst hx
    exact List.nil_subset _
  · subst hx
    exact List.nil_subset _
  · subst hx
    exact List.subset_cons_self ..
  · obtain ⟨d, hd, rfl⟩ := hx
    exact fun t ht => List.mem_cons_of_mem _ (List.mem_flatMap.2 ⟨d, hd, ht⟩)

/-- A part has the regions of the piece around it and declares nothing that the piece does not declare, or it
is in a region that the piece opens. -/
theorem Fragment.regions_step (h : (Δ, q) ∈ p.parts Γ) :
    (Δ.regions = Γ.regions ∧ q.declares ⊆ p.declares) ∨
    ∃ x ∈ p.opens Γ, (Δ, q) ∈ x.parts ∧ (Δ.regions = x.region :: Γ.regions ∨
      ∃ name fields methods, Δ.regions = x.region :: .receiver name fields methods :: Γ.regions) := by
  cases p with
  | expr e =>
    cases e with
    | lambda id keyword params body =>
      obtain ⟨rfl, rfl⟩ := Prod.mk.inj (List.mem_singleton.1 h)
      exact .inr ⟨_, List.mem_singleton_self _, List.mem_singleton_self _, .inl (regions_enterFunction ..)⟩
    | _ => exact .inl (by grind [parts, Expr.parts, declares])
  | list ss =>
    cases ss with
    | nil => simp [parts] at h
    | cons s ss =>
      simp only [parts, List.mem_cons, Prod.mk.injEq, List.not_mem_nil, or_false] at h
      rcases h with ⟨rfl, rfl⟩ | ⟨rfl, rfl⟩
      · exact .inl ⟨rfl, List.subset_append_left ..⟩
      · exact .inl ⟨regions_after Γ s, List.subset_append_right ..⟩
  | stmt s =>
    cases s with
    | block pos body =>
      obtain ⟨rfl, rfl⟩ := Prod.mk.inj (List.mem_singleton.1 h)
      exact .inr ⟨_, List.mem_singleton_self _, List.mem_singleton_self _, .inl rfl⟩
    | forLoop pos start cond step body =>
      exact .inr ⟨_, List.mem_singleton_self _, h, .inl (Stmt.regions_header h)⟩
    | function d =>
      obtain ⟨rfl, rfl⟩ := Prod.mk.inj (List.mem_singleton.1 h)
      refine .inr ⟨_, List.mem_singleton_self _, List.mem_singleton_self _, .inl ?_⟩
      rw [regions_enterFunction, regions_add]
      rfl
    | classDecl pos name fields methods =>
      simp only [parts, Stmt.parts, List.mem_append, List.mem_map, Prod.mk.injEq] at h
      rcases h with ⟨d, -, rfl, rfl⟩ | ⟨d, hd, rfl, rfl⟩
      · exact .inl ⟨regions_add Γ _, List.nil_subset _⟩
      · refine .inr ⟨_, List.mem_map_of_mem hd, List.mem_singleton_self _, .inr ⟨name.lexeme, fields,
          methods.map fun f => (f.name.lexeme, f.params, f.body), ?_⟩⟩
        rw [regions_enterFunction, regions_receive, regions_add]
        rfl
    | declare pos name value =>
      simp only [parts, Stmt.parts, List.mem_map, Prod.mk.injEq] at h
      obtain ⟨_, -, rfl, rfl⟩ := h
      exact .inl ⟨regions_declare Γ _, List.nil_subset _⟩
    | branch pos cond yes no =>
      simp only [parts, Stmt.parts, List.mem_cons, List.mem_map, Option.mem_toList, Prod.mk.injEq] at h
      rw [declares, Stmt.declares_branch]
      rcases h with ⟨rfl, rfl⟩ | ⟨rfl, rfl⟩ | ⟨s, rfl, rfl, rfl⟩
      · exact .inl ⟨rfl, List.nil_subset _⟩
      · exact .inl ⟨rfl, List.subset_append_left ..⟩
      · exact .inl ⟨rfl, by simp [declares]⟩
    | _ => exact .inl (by grind [parts, Stmt.parts, regions_enterLoop, declares, Stmt.declares])

/-- Every region around a piece was opened in the text, with the piece in it. -/
theorem Occurs.opened {program : List Stmt} {r : Region} {outer : List Region} (h : Occurs program Δ q)
    (hr : r :: outer <:+ Δ.regions) (hreceiver : ∀ name fields methods, r ≠ .receiver name fields methods) :
    ∃ Γ p, Occurs program Γ p ∧ ∃ x ∈ p.opens Γ, x.region = r ∧ x.level = outer.length ∧
      ∃ part ∈ x.parts, Below part.1 part.2 Δ q := by
  induction h with
  | here => simp [regions_empty] at hr
  | @part Δ q Δ' q' hocc hpart ih =>
    have hstep : (∃ x ∈ q.opens Δ, (Δ', q') ∈ x.parts ∧ r :: outer = Δ'.regions) ∨
        r :: outer <:+ Δ.regions := by
      rcases Fragment.regions_step hpart with ⟨hsame, -⟩ | ⟨x, hx, hmem, heq | ⟨name, fields, methods, heq⟩⟩
      · exact .inr (hsame ▸ hr)
      · rw [heq] at hr ⊢
        exact (List.suffix_cons_iff.1 hr).imp_left fun h => ⟨x, hx, hmem, h⟩
      · rw [heq] at hr ⊢
        rcases List.suffix_cons_iff.1 hr with h | hr
        · exact .inl ⟨x, hx, hmem, h⟩
        · refine .inr ((List.suffix_cons_iff.1 hr).resolve_left fun h => ?_)
          exact hreceiver name fields methods (List.cons.inj h).1
    rcases hstep with ⟨x, hx, hmem, heq⟩ | hr
    · obtain ⟨outer', haround, hlevel⟩ := (Fragment.opened_of_mem hx).around (Δ', q') hmem
      obtain ⟨hregion, rfl⟩ := List.cons.inj (heq.trans haround)
      exact ⟨Δ, q, hocc, x, hx, hregion.symm, hlevel.symm, (Δ', q'), hmem, .here⟩
    · obtain ⟨Γ, p, hocc', x, hx, hregion, hlevel, part, hmem, hbelow⟩ := ih hr
      exact ⟨Γ, p, hocc', x, hx, hregion, hlevel, part, hmem, hbelow.part hpart⟩

/-- What a piece declares, if it is in a region, are names of the region. -/
theorem Occurs.declares_subset {program : List Stmt} {r : Region} (h : Occurs program Δ q)
    (hr : Δ.regions.head? = some r) : q.declares ⊆ r.names := by
  induction h with
  | here => simp [regions_empty] at hr
  | @part Δ q Δ' q' hocc hpart ih =>
    rcases Fragment.regions_step hpart with ⟨hsame, hsub⟩ | ⟨x, hx, hmem, -⟩
    · rw [hsame] at hr
      exact fun t ht => ih hr (hsub ht)
    · have hopened := Fragment.opened_of_mem hx
      obtain ⟨outer, haround, -⟩ := hopened.around (Δ', q') hmem
      rw [haround, List.head?_cons, Option.some.injEq] at hr
      subst hr
      have hfragment : q' ∈ x.region.fragments := hopened.fragments ▸ List.mem_map_of_mem hmem
      intro t ht
      rw [Region.names, Region.locals_eq]
      exact List.mem_append_right _ (List.mem_flatMap.2 ⟨q', hfragment, ht⟩)

/-- The parts of a piece and the regions opened around them do not depend on what is around the piece. -/
theorem Fragment.parts_shape (Γ : Environs) (p : Fragment) :
    (p.parts Γ).map (fun part => (part.1.regions, part.2)) =
      (p.parts {}).map fun part => (part.1.regions ++ Γ.regions, part.2) := by
  cases p with
  | expr e => cases e <;> simp [parts, Expr.parts, regions_enterFunction, regions_empty]
  | stmt s =>
    cases s <;> simp [parts, Stmt.parts, regions_enterFunction, regions_empty, regions_declare, regions_add,
      regions_enter, regions_enterLoop, regions_afterOpt, regions_receive, Function.comp_def]
  | list ss => cases ss <;> simp [parts, regions_after, regions_empty]

/-- The way from a piece to another goes through the same regions, whatever is around. -/
theorem Below.shape (h : Below Γ p Δ q) : ∃ rs, Δ.regions = rs ++ Γ.regions ∧
    ∀ Γ', ∃ Δ', Below Γ' p Δ' q ∧ Δ'.regions = rs ++ Γ'.regions := by
  induction h with
  | here => exact ⟨[], rfl, fun Γ' => ⟨Γ', .here, rfl⟩⟩
  | @part Δ q Δ₁ q₁ _ hpart ih =>
    obtain ⟨rs, hrs, hway⟩ := ih
    have hmem := List.mem_map_of_mem (f := fun part => (part.1.regions, part.2)) hpart
    rw [Fragment.parts_shape] at hmem
    obtain ⟨part, hpart₀, heq⟩ := List.mem_map.1 hmem
    obtain ⟨hregions, rfl⟩ := Prod.mk.inj heq
    refine ⟨part.1.regions ++ rs, ?_, fun Γ' => ?_⟩
    · rw [← hregions, hrs, List.append_assoc]
    · obtain ⟨Δ', hbelow, hΔ'⟩ := hway Γ'
      have hmem' := List.mem_map_of_mem (f := fun part => (part.1.regions ++ Δ'.regions, part.2)) hpart₀
      rw [← Fragment.parts_shape] at hmem'
      obtain ⟨part', hpart', heq'⟩ := List.mem_map.1 hmem'
      obtain ⟨hregions', hfragment⟩ := Prod.mk.inj heq'
      refine ⟨part'.1, hbelow.part (hfragment ▸ hpart'), ?_⟩
      rw [hregions', hΔ', List.append_assoc]

/-- What holds of all that can be reached from a piece, whatever is around it, holds so of its parts. -/
theorem Everywhere.part_anywhere {P : Fragment → Prop} (h : ∀ Γ, Everywhere (fun _ q => P q) Γ p)
    (hpart : (Δ, q) ∈ p.parts Γ) : ∀ Γ', Everywhere (fun _ q => P q) Γ' q := by
  intro Γ' Δ' r hbelow
  obtain ⟨rs, -, hway⟩ := hbelow.shape
  obtain ⟨Δ'', hbelow', -⟩ := hway Δ
  exact h Γ Δ'' r ((Below.part .here hpart).trans hbelow')

end

/-! ## Where uses lead to -/

/-- A noted use leads to a region that declares the name: the one that `distance` regions lie before, counted
from the use outward. -/
def LocalUse.LeadsTo (program : List Stmt) (u : LocalUse) (r : Region) (name : Bytes) : Prop :=
  ∃ Γ e, Occurs program Γ (.expr e) ∧ e.use? = some (u.id, name) ∧ Γ.regions[u.distance]? = some r

/-- Some use in a program is of a name in this region. -/
def Mentioned (program : List Stmt) (r : Region) (name : Bytes) : Prop :=
  ∃ m ∈ (Fragment.list program).mentions {}, m.name = name ∧ m.region? = some r

/-- Whether a local of a region that a piece opens is used can be told from the pieces in the region. -/
def Fragment.Fits (Led : Region → Bytes → Prop) (Γ : Environs) (p : Fragment) : Prop :=
  ∀ x ∈ p.opens Γ, ∀ name, (∃ m ∈ x.mentions, m.name = name ∧ m.Reaches x.level) ↔ Led x.region name

theorem Fragment.region_ne_receiver {Γ : Environs} {p : Fragment} {x : Extent} (h : x ∈ p.opens Γ)
    (name : Bytes) (fields : List Field) (methods : List (Bytes × List Token × List Stmt)) :
    x.region ≠ .receiver name fields methods := by
  unfold opens at h
  split at h <;> grind [Extent.function]

/-- A use in a region that reaches its level leads to the region. -/
theorem Extent.Opened.region?_of_reaches {Γ : Environs} {p : Fragment} {x : Extent} (h : x.Opened Γ p)
    {m : Mention} (hm : m ∈ x.mentions) (hreaches : m.Reaches x.level) : m.region? = some x.region := by
  obtain ⟨part, hpart, hm⟩ := List.mem_flatMap.1 hm
  obtain ⟨e, hbelow, -⟩ := Fragment.mem_mentions.1 hm
  obtain ⟨d, hd, hlength⟩ := hreaches
  obtain ⟨outer, houter, hlevel⟩ := h.around part hpart
  obtain ⟨rs, hrs, -⟩ := hbelow.shape
  have hinner : rs.length = d := by
    have hall := congrArg List.length hrs
    rw [houter, length_regions, List.length_append, List.length_cons] at hall
    omega
  rw [Mention.region?, hd, Option.bind_some, hrs, houter, ← hinner]
  simp

/-- Where identities are different, the uses in a program that lead to a region are those in its pieces. -/
theorem Occurs.fits {program : List Stmt} {Γ : Environs} {p : Fragment} (h : Occurs program Γ p)
    (hids : (((Fragment.list program).mentions {}).map Mention.id).Nodup) :
    p.Fits (Mentioned program) Γ := by
  intro x hx name
  have hopened := Fragment.opened_of_mem hx
  have hall : x.mentions ⊆ (Fragment.list program).mentions {} := by
    intro m hm
    obtain ⟨part, hpart, hm⟩ := List.mem_flatMap.1 hm
    exact (h.part (hopened.parts hpart)).mentions_subset hm
  constructor
  · rintro ⟨m, hm, rfl, hreaches⟩
    exact ⟨m, hall hm, rfl, hopened.region?_of_reaches hm hreaches⟩
  · rintro ⟨m, hm, rfl, hregion⟩
    obtain ⟨d, hd, hregion⟩ := Option.bind_eq_some_iff.1 hregion
    obtain ⟨e, hocc, huse⟩ := Fragment.mem_mentions.1 hm
    obtain ⟨hlt, hget⟩ := List.getElem?_eq_some_iff.1 hregion
    have hsuffix : x.region :: m.around.regions.drop (d + 1) <:+ m.around.regions := by
      rw [← hget, ← List.drop_eq_getElem_cons hlt]
      exact List.drop_suffix ..
    -- the region was opened somewhere with the use in it; the same pieces are in this extent
    obtain ⟨Γ', p', -, x', hx', hregion', hlevel', part', hpart', hbelow'⟩ :=
      Occurs.opened hocc hsuffix (Fragment.region_ne_receiver hx)
    have hopened' := Fragment.opened_of_mem hx'
    have hfragment : part'.2 ∈ x.parts.map Prod.snd := by
      rw [hopened.fragments, ← hregion', ← hopened'.fragments]
      exact List.mem_map_of_mem hpart'
    obtain ⟨part, hpart, hsame⟩ := List.mem_map.1 hfragment
    obtain ⟨rs, hrs, hway⟩ := hbelow'.shape
    obtain ⟨Δ, hbelow, hΔ⟩ := hway part.1
    rw [← hsame] at hbelow
    have hcopy : ⟨Δ, m.id, m.name⟩ ∈ x.mentions :=
      List.mem_flatMap.2 ⟨part, hpart, Fragment.mem_mentions.2 ⟨e, hbelow, huse⟩⟩
    have heq : ⟨Δ, m.id, m.name⟩ = m := List.inj_on_of_nodup_map hids (hall hcopy) hm rfl
    refine ⟨m, heq ▸ hcopy, rfl, d, hd, ?_⟩
    obtain ⟨outer, houter, hlevel⟩ := hopened.around part hpart
    obtain ⟨outer', houter', hlevel''⟩ := hopened'.around part' hpart'
    have hlength := congrArg List.length hrs
    have hlength' := congrArg List.length hΔ
    rw [show Δ = m.around from congrArg Mention.around heq] at hlength'
    simp only [houter, houter', List.length_append, List.length_cons, length_regions] at hlength hlength'
    rw [List.length_drop, length_regions] at hlevel'
    rw [length_regions] at hlt
    omega

end Treewalk
