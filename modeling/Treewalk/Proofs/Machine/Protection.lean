import Treewalk.Proofs.Machine.Growth
import Treewalk.Proofs.Session.Agreement

/-!
# Protected names stay as they are

A binding of the globals is protected if the host made it so. Programs have three ways to touch a frame.
A declaration adds a name that the frame does not bind. An assignment to a global name asks whether the
binding is protected. An assignment at a distance does not ask, but it never gets to the globals: the frame
that a distance leads to was made for a region of the text, so it has a parent, and the globals have none.

Main result: a step of a run keeps every protected binding (`Machine.Fits.step_keeps`).
-/

namespace Treewalk

/-! ## Stores -/

namespace Store

/-- Protected bindings of the globals stay as they are. -/
def Keeps (s s' : Store) : Prop :=
  ∀ name b, (s.frame globals).find? name = some b → b.isProtected = true →
    (s'.frame globals).find? name = some b

variable {s s' s'' : Store}

theorem Keeps.refl (s : Store) : s.Keeps s := fun _ _ hb _ => hb

theorem Keeps.trans (h : s.Keeps s') (h' : s'.Keeps s'') : s.Keeps s'' :=
  fun name b hb hprotected => h' name b (h name b hb hprotected) hprotected

theorem Keeps.of_frames (h : s'.frames = s.frames) : s.Keeps s' := by
  intro name b hb _
  simpa only [Store.frame, h] using hb

/-- A heap that has grown without a write to a protected name. -/
theorem Keeps.of_extends {w : Set (FrameId × Bytes)} (h : s.Extends w s')
    (hw : ∀ name b, (s.frame globals).find? name = some b → b.isProtected = true → (globals, name) ∉ w) :
    s.Keeps s' :=
  fun name b hb hprotected => h.bindings globals name b hb (hw name b hb hprotected)

/-- A new binding comes behind the others. -/
theorem Keeps.add (s : Store) (f : FrameId) (b : Binding) : s.Keeps (s.add f b) :=
  .of_extends (.add (w := ∅) s f b) fun _ _ _ _ => Set.notMem_empty _

/-- A write spares the protected names of the globals. -/
def Spares (s : Store) (f : FrameId) (name : Bytes) : Prop :=
  f = globals → ∀ b, (s.frame globals).find? name = some b → b.isProtected = false

end Store

/-! ## Names that are written to -/

section

variable {programs : List (List Stmt)} {labels : List Region} {hosted : Bool} {m : Machine}

/-- A frame that some layers lead to is none of the globals: it has a parent. -/
theorem Chain.ancestor_ne_globals {s : Store} {env : FrameId} {layers : List Layer}
    (h : Chain labels s env layers) (hglobals : (s.frame Store.globals).parent = none) : ∀ {d : Nat}
    {f : FrameId}, d < layers.length → s.ancestor? env d = some f → f ≠ Store.globals := by
  induction h with
  | globals =>
    intro d f hd
    simp at hd
  | @layer env up layer outer _ _ hparent _ _ ih =>
    intro d f hd hf
    cases d with
    | zero =>
      obtain rfl : env = f := Option.some.inj hf
      rintro rfl
      rw [hglobals] at hparent
      cases hparent
    | succ d =>
      rw [Store.ancestor?, hparent] at hf
      exact ih (by simpa using hd) hf

theorem Chain.parent_globals {s : Store} (h : Chain labels s Store.globals []) :
    (s.frame Store.globals).parent = none := by
  cases h with
  | globals _ hparent => exact hparent

theorem Store.target_ancestor {s : Store} {env f : FrameId} {d : Nat} {name : Bytes} {v : Value}
    (h : s.target env d name = .ok (f, v)) : s.ancestor? env d = some f := by
  unfold Store.target at h
  rw [Int.toNat_natCast] at h
  cases hancestor : s.ancestor? env d with
  | none => simp [hancestor] at h
  | some g =>
    simp only [hancestor] at h
    split at h
    · cases h
      rfl
    · cases h

theorem Store.spares_of_assignee {s : Store} {f : FrameId} {name : Bytes}
    (h : s.assignee Store.globals name = .ok f) : s.Spares f name := by
  intro _ b hb
  have hbinds : s.binds Store.globals name = true := by
    rw [Store.binds, hb]
    rfl
  have howner : s.owner? name Store.globals Store.globals = some Store.globals := if_pos hbinds
  simp only [Store.assignee, howner, hb, Option.any_some] at h
  cases hprotected : b.isProtected with
  | false => rfl
  | true => simp [hprotected] at h

/-- What a run writes to by name spares the protected names. -/
theorem Machine.Fits.destination_spares (h : m.Fits programs labels hosted) {id : NodeId} {name : Token}
    (ht : m.touches = some (id, name)) {f : FrameId} (hf : m.destination id name = .ok f) :
    m.store.Spares f name.lexeme := by
  obtain ⟨Γ, e, he, henv, huse⟩ := h.touches ht
  have hfind := h.known.find?_eq he huse
  unfold Machine.destination at hf
  cases hd : m.distances.find? id with
  | none =>
    rw [hd] at hf
    cases hassignee : m.store.assignee Store.globals name.lexeme with
    | error b => simp [hassignee, Except.mapError] at hf
    | ok g =>
      simp only [hassignee, Except.mapError, Except.ok.injEq] at hf
      rw [← hf]
      exact Store.spares_of_assignee hassignee
  | some d =>
    rw [hd] at hf
    obtain ⟨layer, hlayer, -⟩ := Environs.distance?_layer (hfind.symm.trans hd)
    have hlt : d < Γ.layers.length := (List.getElem?_eq_some_iff.1 hlayer).1
    cases htarget : m.store.target m.env d name.lexeme with
    | error b => simp [htarget, Except.map, Except.mapError] at hf
    | ok t =>
      simp only [htarget, Except.map, Except.mapError, Except.ok.injEq] at hf
      have hne := henv.ancestor_ne_globals h.store.globals.parent_globals hlt
        (Store.target_ancestor htarget)
      exact fun heq => absurd (hf.trans heq) hne

end

/-! ## Steps -/

/-- What a step assigns to is what it touches. -/
theorem Machine.touches_of_assigns? {m : Machine} {id : NodeId} {name : Token} {v : Value}
    (h : m.assigns? = some (id, name, v)) : m.touches = some (id, name) := by
  unfold assigns? at h
  split at h
  · rename_i hc
    obtain ⟨next, -, heq⟩ := Option.map_eq_some_iff.1 h
    cases heq
    simp [touches, hc]
  · rename_i hc
    split at h
    · rename_i hp
      cases h
      simp [touches, hc, hp]
    · rename_i hp
      obtain ⟨result, -, heq⟩ := Option.map_eq_some_iff.1 h
      cases heq
      simp [touches, hc, hp]
    · cases h
  · cases h

/-- A step of a run keeps every protected binding: it would have to assign to it. -/
theorem Machine.Fits.step_keeps {programs : List (List Stmt)} {labels : List Region} {hosted : Bool}
    {m : Machine} (h : m.Fits programs labels hosted) : m.store.Keeps m.step.store := by
  refine .of_extends m.step_extends fun name b hb hprotected => ?_
  rintro ⟨id, token, v, hassigns, hdestination, rfl⟩
  have hspared := h.destination_spares (touches_of_assigns? hassigns) hdestination rfl b hb
  rw [hspared] at hprotected
  cases hprotected

end Treewalk
