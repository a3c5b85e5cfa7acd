import Treewalk.Proofs.Scope.Static
import Treewalk.Store

/-!
# Frames and layers

A run makes a frame whenever it enters a region of the text, and labels tell for every frame which region
that was. `Chain` relates the frames from an environment outwards to the layers of some environs: one
frame for each layer, made for its region, in which the names that are ready are bound, and behind them
the globals.

Stores only grow (`Store.Grows`): frames are added and names are bound, and neither is ever taken back. So
a chain stays one whatever happens later (`Chain.mono`).
-/

namespace Treewalk

/-! ## Growing stores -/

theorem Frame.find?_add_or (f : Frame) (b : Binding) (name : Bytes) :
    (f.add b).find? name = (f.find? name).or (if b.name == name then some b else none) := by
  simp only [find?, add, List.find?_append, List.find?_cons, List.find?_nil]
  cases b.name == name <;> rfl

/-- Writing a value keeps the name of every binding, so that it may be written after the look-up as well. -/
theorem Frame.find?_put_map (f : Frame) (name other : Bytes) (v : Value) : (f.put name v).find? other =
    (f.find? other).map fun b => if b.name == name then { b with value := v } else b := by
  have hname : ((fun b : Binding => b.name == other) ∘ fun b =>
      if b.name == name then { b with value := v } else b) = fun b => b.name == other := by
    funext b
    by_cases hb : b.name = name <;> simp [hb]
  simp only [find?, put, List.find?_map, hname]

namespace Store

/-- Frames keep their parents and their names. -/
structure Grows (s s' : Store) : Prop where
  size : s.frames.size ≤ s'.frames.size
  parent : ∀ f < s.frames.size, (s'.frame f).parent = (s.frame f).parent
  binds : ∀ f < s.frames.size, ∀ name, s.binds f name = true → s'.binds f name = true

variable {s s' s'' : Store}

theorem Grows.refl (s : Store) : s.Grows s := ⟨Nat.le_refl _, fun _ _ => rfl, fun _ _ _ h => h⟩

theorem Grows.trans (h : s.Grows s') (h' : s'.Grows s'') : s.Grows s'' := by
  refine ⟨Nat.le_trans h.size h'.size, fun f hf => ?_, fun f hf name hname => ?_⟩
  · exact (h'.parent f (Nat.lt_of_lt_of_le hf h.size)).trans (h.parent f hf)
  · exact h'.binds f (Nat.lt_of_lt_of_le hf h.size) name (h.binds f hf name hname)

/-- What is done to other objects leaves the frames alone. -/
theorem Grows.of_frames (h : s'.frames = s.frames) : s.Grows s' := by
  refine ⟨Nat.le_of_eq (by rw [h]), fun f _ => ?_, fun f _ name hname => ?_⟩
  · simp only [Store.frame, h]
  · simpa only [Store.binds, Store.frame, h] using hname

theorem frame_push_of_lt {fr : Frame} {f : FrameId} (hf : f < s.frames.size) :
    ({ s with frames := s.frames.push fr } : Store).frame f = s.frame f := by
  simp [Store.frame, Array.getElem?_push_lt hf, hf]

theorem frame_push_size (s : Store) (fr : Frame) :
    ({ s with frames := s.frames.push fr } : Store).frame s.frames.size = fr := by
  simp [Store.frame]

theorem Grows.push (s : Store) (fr : Frame) : s.Grows { s with frames := s.frames.push fr } := by
  refine ⟨by simp, fun f hf => ?_, fun f hf name hname => ?_⟩
  · rw [frame_push_of_lt hf]
  · rw [Store.binds, frame_push_of_lt hf]
    exact hname

theorem frame_modify (s : Store) (f g : FrameId) (change : Frame → Frame) (hg : g < s.frames.size) :
    ({ s with frames := s.frames.modify f change } : Store).frame g =
      if f = g then change (s.frame g) else s.frame g := by
  simp only [Store.frame, Array.getElem?_modify]
  split
  · simp [hg]
  · rfl

/-- A change of one frame that keeps its parent and its names. -/
theorem Grows.modify (s : Store) (f : FrameId) {change : Frame → Frame}
    (hparent : ∀ fr, (change fr).parent = fr.parent)
    (hfind : ∀ fr name, (fr.find? name).isSome = true → ((change fr).find? name).isSome = true) :
    s.Grows { s with frames := s.frames.modify f change } := by
  refine ⟨by simp, fun g hg => ?_, fun g hg name hname => ?_⟩
  · rw [frame_modify s f g change hg]
    split
    · exact hparent _
    · rfl
  · rw [Store.binds, frame_modify s f g change hg]
    split
    · exact hfind _ _ hname
    · exact hname

theorem Grows.add (s : Store) (f : FrameId) (b : Binding) : s.Grows (s.add f b) := by
  refine Grows.modify s f (fun _ => rfl) fun fr name h => ?_
  rw [Frame.find?_add_or, Option.isSome_or, h, Bool.true_or]

theorem Grows.put (s : Store) (f : FrameId) (name : Bytes) (v : Value) :
    s.Grows (s.put f name v) := by
  refine Grows.modify s f (fun _ => rfl) fun fr other h => ?_
  rw [Frame.find?_put_map, Option.isSome_map]
  exact h

theorem binds_add (s : Store) {f : FrameId} (hf : f < s.frames.size) (b : Binding) :
    (s.add f b).binds f b.name = true := by
  rw [Store.binds, Store.add, frame_modify s f f _ hf, if_pos rfl]
  simp [Frame.find?, Frame.add]

end Store

/-! ## Chains -/

/-- The frames from an environment outwards match some layers, and the globals lie behind them. -/
inductive Chain (labels : List Region) (s : Store) : FrameId → List Layer → Prop
  | globals (hsize : 0 < s.frames.size) (hparent : (s.frame Store.globals).parent = none) :
    Chain labels s Store.globals []
  | layer {env up : FrameId} {layer : Layer} {outer : List Layer} (hsize : env < s.frames.size)
    (hlabel : labels[env]? = some layer.region) (hparent : (s.frame env).parent = some up)
    (hbinds : ∀ name, (name, true) ∈ layer.names → s.binds env name = true)
    (h : Chain labels s up outer) : Chain labels s env (layer :: outer)

namespace Chain

variable {labels labels' : List Region} {s s' : Store} {env : FrameId} {layers : List Layer}

theorem env_lt (h : Chain labels s env layers) : env < s.frames.size := by
  cases h with
  | globals hsize _ => exact hsize
  | layer hsize _ _ _ _ => exact hsize

theorem mono (h : Chain labels s env layers) (hs : s.Grows s') (hlabels : labels <+: labels') :
    Chain labels' s' env layers := by
  induction h with
  | globals hsize hparent =>
    exact .globals (Nat.lt_of_lt_of_le hsize hs.size) ((hs.parent Store.globals hsize).trans hparent)
  | layer hsize hlabel hparent hbinds _ ih =>
    refine .layer (Nat.lt_of_lt_of_le hsize hs.size) ?_ ?_ ?_ ih
    · obtain ⟨more, rfl⟩ := hlabels
      rw [List.getElem?_append_left]
      · exact hlabel
      · exact (List.getElem?_eq_some_iff.1 hlabel).1
    · rw [hs.parent _ hsize]
      exact hparent
    · exact fun name hname => hs.binds _ hsize name (hbinds name hname)

theorem grow (h : Chain labels s env layers) (hs : s.Grows s') : Chain labels s' env layers :=
  h.mono hs (List.prefix_refl _)

/-- A new frame for a region, with some names bound in it. -/
theorem push (h : Chain labels s env layers) (hlength : labels.length = s.frames.size)
    (region : Region) (bindings : List Binding) :
    Chain (labels ++ [region])
      { s with frames := s.frames.push { parent := some env, bindings } } s.frames.size
      (⟨region, []⟩ :: layers) := by
  refine .layer (by simp) ?_ ?_ nofun (h.mono (.push s _) (List.prefix_append _ _))
  · rw [← hlength]
    simp
  · rw [Store.frame_push_size]

/-- A name that is not ready need not be bound. -/
theorem declare {Γ : Environs} (h : Chain labels s env Γ.layers) (name : Bytes) :
    Chain labels s env (Γ.declare name).layers := by
  unfold Environs.declare
  cases hl : Γ.layers with
  | nil =>
    rw [hl] at h
    exact h
  | cons layer outer =>
    rw [hl] at h
    cases h with
    | layer hsize hlabel hparent hbinds h =>
      refine .layer hsize hlabel hparent (fun other hother => hbinds other ?_) h
      simpa [Layer.declare] using hother

/-- A bound name may be made ready. -/
theorem define {Γ : Environs} (h : Chain labels s env Γ.layers) {name : Bytes}
    (hname : s.binds env name = true) : Chain labels s env (Γ.define name).layers := by
  unfold Environs.define
  cases hl : Γ.layers with
  | nil =>
    rw [hl] at h
    exact h
  | cons layer outer =>
    rw [hl] at h
    cases h with
    | layer hsize hlabel hparent hbinds h =>
      refine .layer hsize hlabel hparent (fun other hother => ?_) h
      obtain ⟨entry, hentry, heq⟩ := List.mem_map.1 hother
      by_cases hx : entry.1 = name
      · simp only [hx, beq_self_eq_true, if_true, Prod.mk.injEq, and_true] at heq
        rw [← heq]
        exact hname
      · simp only [beq_iff_eq, hx, if_false] at heq
        rw [heq] at hentry
        exact hbinds other hentry

theorem add {Γ : Environs} (h : Chain labels s env Γ.layers) {name : Bytes}
    (hname : s.binds env name = true) : Chain labels s env (Γ.add name).layers :=
  (h.declare name).define hname

theorem addAll {params : List Token} : ∀ {Γ : Environs}, Chain labels s env Γ.layers →
    (∀ p ∈ params, s.binds env p.lexeme = true) → Chain labels s env (Γ.addAll params).layers := by
  induction params with
  | nil => exact fun h _ => h
  | cons p ps ih =>
    intro Γ h hparams
    exact ih (h.add (hparams p List.mem_cons_self)) fun q hq =>
      hparams q (List.mem_cons_of_mem _ hq)

end Chain

/-! ## Looking along a chain -/

/-- The frames from an environment outwards are those made for some layers, innermost first, followed by
the globals and nothing more. -/
structure Mirrors (labels : List Region) (s : Store) (env : FrameId) (layers : List Layer) : Prop where
  layer : ∀ k layer, layers[k]? = some layer →
    ∃ f, s.ancestor? env k = some f ∧ labels[f]? = some layer.region
  globals : s.ancestor? env layers.length = some Store.globals
  beyond : s.ancestor? env (layers.length + 1) = none

namespace Chain

variable {labels : List Region} {s : Store} {env : FrameId} {layers : List Layer}

theorem ancestor (h : Chain labels s env layers) : ∀ (k : Nat) (layer : Layer),
    layers[k]? = some layer → ∃ f, s.ancestor? env k = some f ∧ labels[f]? = some layer.region ∧
      ∀ name, (name, true) ∈ layer.names → s.binds f name = true := by
  induction h with
  | globals => simp
  | @layer env up layer outer hsize hlabel hparent hbinds _ ih =>
    intro k found hk
    cases k with
    | zero =>
      obtain rfl : layer = found := by simpa using hk
      exact ⟨env, rfl, hlabel, hbinds⟩
    | succ k =>
      obtain ⟨f, hf, hrest⟩ := ih k found (by simpa using hk)
      refine ⟨f, ?_, hrest⟩
      rw [Store.ancestor?, hparent]
      exact hf

theorem mirrors (h : Chain labels s env layers) : Mirrors labels s env layers := by
  constructor
  · intro k layer hk
    obtain ⟨f, hf, hlabel, -⟩ := h.ancestor k layer hk
    exact ⟨f, hf, hlabel⟩
  · induction h with
    | globals => rfl
    | layer _ _ hparent _ _ ih =>
      rw [List.length_cons, Store.ancestor?, hparent]
      exact ih
  · induction h with
    | globals _ hparent =>
      rw [List.length_nil, Store.ancestor?, hparent]
      rfl
    | layer _ _ hparent _ _ ih =>
      rw [List.length_cons, Store.ancestor?, hparent]
      exact ih

end Chain

/-- The layer that a distance leads to declares the name; if the name is not ready there, the layer lies
outside the innermost function. -/
theorem Environs.distance?_layer {outside : Nat} {name : Bytes} : ∀ {layers : List Layer} {d : Nat},
    Environs.distanceIn? outside name layers = some d → ∃ layer, layers[d]? = some layer ∧
      ∃ ready, (name, ready) ∈ layer.names ∧ (ready = false → layers.length - d - 1 < outside)
  | [], _, h => by cases h
  | layer :: outer, d, h => by
    unfold Environs.distanceIn? at h
    split at h
    · rename_i hoffers
      obtain rfl : 0 = d := by simpa using h
      obtain ⟨⟨n, ready⟩, hmem, hn⟩ := List.any_eq_true.1 hoffers
      simp only [Bool.and_eq_true, beq_iff_eq, Bool.or_eq_true, decide_eq_true_eq] at hn
      obtain ⟨rfl, hready⟩ := hn
      refine ⟨layer, rfl, ready, hmem, fun hfalse => ?_⟩
      rw [hfalse] at hready
      simpa using hready
    · obtain ⟨d', hd', rfl⟩ := Option.map_eq_some_iff.1 h
      obtain ⟨found, hfound, ready, hmem, hready⟩ := Environs.distance?_layer hd'
      refine ⟨found, by simpa using hfound, ready, hmem, fun hfalse => ?_⟩
      have := hready hfalse
      rw [List.length_cons]
      omega

end Treewalk
