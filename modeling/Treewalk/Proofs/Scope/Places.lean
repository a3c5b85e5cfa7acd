import Treewalk.Proofs.Scope.Static
import Treewalk.Proofs.Tree.Map

/-!
# Places alike

Two places are alike if the same scopes are around them, with the same names declared so far, of which the same are
ready (`Environs.Alike`). What else the text around them says does not matter: at such places a name is at the same
distance (`Environs.Alike.distance?_eq`), and going to the same part of two pieces leads from places alike to places
alike.
-/

namespace Treewalk

/-! ## Words -/

theorem Token.lexeme_eq {t t' : Token} (h : t'.move nowhere = t.move nowhere) : t'.lexeme = t.lexeme := by
  simpa using congrArg Token.lexeme h

theorem Token.lexemes_eq {ps ps' : List Token} (h : ps'.map (Token.move nowhere) = ps.map (Token.move nowhere)) :
    ps'.map Token.lexeme = ps.map Token.lexeme := by
  simpa [Function.comp_def] using congrArg (List.map Token.lexeme) h

/-! ## Environs -/

/-- The same scopes are around two places, with the same names so far, of which the same are ready. -/
structure Environs.Alike (Γ Γ' : Environs) : Prop where
  outside : Γ'.outside = Γ.outside
  names : Γ'.layers.map Layer.names = Γ.layers.map Layer.names

namespace Environs

theorem names_declare (Γ : Environs) (name : Bytes) : (Γ.declare name).layers.map Layer.names =
    (Γ.layers.map Layer.names).modifyHead (· ++ [(name, false)]) := by
  unfold declare
  cases Γ.layers <;> rfl

theorem names_define (Γ : Environs) (name : Bytes) : (Γ.define name).layers.map Layer.names =
    (Γ.layers.map Layer.names).modifyHead (·.map fun n => if n.1 == name then (n.1, true) else n) := by
  unfold define
  cases Γ.layers <;> rfl

/-- The distance to a name depends on the names of the scopes only. -/
theorem distanceIn?_eq (outside : Nat) (name : Bytes) : ∀ {layers layers' : List Layer},
    layers'.map Layer.names = layers.map Layer.names →
      distanceIn? outside name layers' = distanceIn? outside name layers
  | [], [], _ => rfl
  | layer :: outer, layer' :: outer', h => by
    obtain ⟨hnames, houter⟩ := List.cons_eq_cons.1 h
    have hlength : outer'.length = outer.length := by simpa using congrArg List.length houter
    have hoffers : layer'.offers (outer'.length < outside) name = layer.offers (outer.length < outside) name := by
      simp only [Layer.offers, hnames, hlength]
    rw [distanceIn?, distanceIn?, hoffers, distanceIn?_eq outside name houter]

namespace Alike

theorem refl (Γ : Environs) : Γ.Alike Γ := ⟨rfl, rfl⟩

variable {Γ Γ' : Environs} (h : Γ.Alike Γ')

include h

theorem length_eq : Γ'.layers.length = Γ.layers.length := by simpa using congrArg List.length h.names

theorem distance?_eq (name : Bytes) : Γ'.distance? name = Γ.distance? name := by
  unfold distance?
  rw [h.outside]
  exact distanceIn?_eq _ name h.names

theorem enter (r r' : Region) : (Γ.enter r).Alike (Γ'.enter r') :=
  ⟨h.outside, congrArg ([] :: ·) h.names⟩

theorem declare (name : Bytes) : (Γ.declare name).Alike (Γ'.declare name) :=
  ⟨h.outside, by rw [names_declare, names_declare, h.names]⟩

theorem add (name : Bytes) : (Γ.add name).Alike (Γ'.add name) := by
  have hdeclared := h.declare name
  exact ⟨hdeclared.outside, by unfold Environs.add; rw [names_define, names_define, hdeclared.names]⟩

omit h in
theorem addAll {ps ps' : List Token} (hps : ps'.map Token.lexeme = ps.map Token.lexeme) : ∀ {Γ Γ' : Environs},
    Γ.Alike Γ' → (Γ.addAll ps).Alike (Γ'.addAll ps') := by
  induction ps generalizing ps' with
  | nil =>
    obtain rfl : ps' = [] := List.map_eq_nil_iff.1 hps
    exact id
  | cons p ps ih =>
    obtain ⟨p', rest, rfl, hp, hrest⟩ := List.map_eq_cons_iff.1 hps
    intro Γ Γ' h
    have hadded : (Γ.add p.lexeme).Alike (Γ'.add p'.lexeme) := by
      rw [hp]
      exact h.add _
    exact ih hrest hadded

theorem enterFunction (kind kind' : Scope.Body) {ps ps' : List Token}
    (hps : ps'.map Token.lexeme = ps.map Token.lexeme) (body body' : List Stmt) :
    (Γ.enterFunction kind ps body).Alike (Γ'.enterFunction kind' ps' body') :=
  addAll hps ⟨h.length_eq, congrArg ([] :: ·) h.names⟩

theorem receive (r r' : Region) : (Γ.receive r).Alike (Γ'.receive r') := by
  have hadded := (h.enter r r').add (text "this")
  exact ⟨hadded.outside, hadded.names⟩

theorem enterLoop : Γ.enterLoop.Alike Γ'.enterLoop := ⟨h.outside, h.names⟩

/-- Behind statements that are the same up to identities and positions. -/
theorem after {s s' : Stmt} (hs : s'.map blank nowhere = s.map blank nowhere) : (Γ.after s).Alike (Γ'.after s') := by
  have hword : ∀ {t t' : Token}, t'.move nowhere = t.move nowhere → (Γ.add t.lexeme).Alike (Γ'.add t'.lexeme) := by
    intro t t' ht
    rw [show t'.lexeme = t.lexeme from by simpa using congrArg Token.lexeme ht]
    exact h.add _
  cases s with
  | declare =>
    cases s' with
    | declare => exact hword (by injection hs)
    | _ => cases hs
  | function d =>
    cases s' with
    | function d' =>
      obtain ⟨t, ps, body⟩ := d
      obtain ⟨t', ps', body'⟩ := d'
      injection hs with hd
      exact hword (by injection hd)
    | _ => cases hs
  | classDecl =>
    cases s' with
    | classDecl => exact hword (by injection hs)
    | _ => cases hs
  | _ =>
    cases s' with
    | declare | function | classDecl => cases hs
    | _ => exact h

theorem afterOpt {v v' : Option Stmt} (hv : Stmt.mapOpt blank nowhere v' = Stmt.mapOpt blank nowhere v) :
    (Γ.afterOpt v).Alike (Γ'.afterOpt v') := by
  cases v with
  | none =>
    cases v' with
    | none => exact h
    | some s' => cases hv
  | some s =>
    cases v' with
    | none => cases hv
    | some s' => exact h.after (Option.some.inj hv)

end Alike

end Environs

end Treewalk
