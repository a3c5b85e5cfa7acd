import Mathlib.Order.BooleanAlgebra.Set
import Treewalk.Proofs.Machine.Frames

/-!
# Stores without stray marks

A variable that is declared without a value is bound to a mark, and the mark belongs in frames only.

**Frames** (`Store.unassigned`, `Store.Retains`). The names bound to the mark are known exactly: a new binding
adds at most its own name, and writing a value takes the name out. A name that has a value never loses it.

**Objects** (`Store.Tidy`). No element, field or property is the mark, natives supply none, and a closure that
sets up instances finds its receiver in its frame. `Store.Steady` says of what is done to a store that it keeps
all this and changes no name to or from the mark; there is one lemma for each thing that can be done.
-/

namespace Treewalk

/-! ## Host functions -/

/-- A script that gives and passes on no mark unless it was handed one. -/
def Script.Tidy : Script → Prop
  | .give v => v ≠ .unset
  | .fail _ | .failPlain _ => True
  | .look _ next => ∀ elements, (∀ v ∈ elements, v ≠ .unset) → (next elements).Tidy
  | .call callee args _ next =>
    callee ≠ .unset ∧ (∀ v ∈ args, v ≠ .unset) ∧
      ∀ r : Option Value, (∀ v ∈ r, v ≠ .unset) → (next r).Tidy

/-- A native that supplies no mark: those of the language never do. -/
def NativeOp.Tidy : NativeOp → Prop
  | .script run => ∀ args, (∀ v ∈ args, v ≠ .unset) → (run args).Tidy
  | _ => True

/-! ## Frames -/

namespace Store

variable {s s' s'' : Store}

theorem frame_push (s : Store) (fr : Frame) (f : FrameId) :
    ({ s with frames := s.frames.push fr } : Store).frame f =
      if f = s.frames.size then fr else s.frame f := by
  simp only [Store.frame, Array.getElem?_push]
  split <;> simp_all

theorem frame_change (s : Store) (f g : FrameId) (change : Frame → Frame) :
    ({ s with frames := s.frames.modify f change } : Store).frame g =
      if f = g ∧ g < s.frames.size then change (s.frame g) else s.frame g := by
  by_cases hg : g < s.frames.size
  · simp [frame_modify s f g change hg, hg]
  · simp [Store.frame, hg]

/-- The names that are bound to the mark of an unassigned variable. -/
def unassigned (s : Store) : Set (FrameId × Bytes) :=
  {p | ∃ b ∈ (s.frame p.1).bindings, b.name = p.2 ∧ b.value = .unset}

theorem unassigned_of_frames (h : s'.frames = s.frames) : s'.unassigned = s.unassigned := by
  simp only [unassigned, Store.frame, h]

theorem unassigned_push {bindings : List Binding} (parent : Option FrameId)
    (h : ∀ b ∈ bindings, b.value ≠ .unset) :
    ({ s with frames := s.frames.push { parent, bindings } } : Store).unassigned = s.unassigned := by
  ext ⟨f, name⟩
  simp only [unassigned, frame_push, Set.mem_ofPred_eq]
  split_ifs with hf
  · have hnone : (s.frame f).bindings = [] := by simp [Store.frame, hf]
    rw [hnone]
    constructor
    · rintro ⟨b, hb, -, hvalue⟩
      exact absurd hvalue (h b hb)
    · rintro ⟨b, hb, -⟩
      cases hb
  · rfl

theorem mem_unassigned_add {f : FrameId} {b : Binding} {p : FrameId × Bytes} :
    p ∈ (s.add f b).unassigned ↔
      p ∈ s.unassigned ∨ (b.value = .unset ∧ p = (f, b.name) ∧ f < s.frames.size) := by
  obtain ⟨g, name⟩ := p
  simp only [unassigned, Store.add, frame_change, Set.mem_ofPred_eq, Prod.mk.injEq]
  split_ifs with hg
  · obtain ⟨rfl, hsize⟩ := hg
    simp only [Frame.add, List.mem_append, List.mem_singleton, or_and_right, exists_or, exists_eq_left,
      true_and, hsize, and_true]
    exact or_congr Iff.rfl ⟨fun h => ⟨h.2, h.1.symm⟩, fun h => ⟨h.2.symm, h.1⟩⟩
  · constructor
    · exact .inl
    · rintro (h | ⟨-, ⟨rfl, -⟩, hsize⟩)
      · exact h
      · exact absurd ⟨rfl, hsize⟩ hg

theorem unassigned_add {f : FrameId} {b : Binding} (h : b.value ≠ .unset) :
    (s.add f b).unassigned = s.unassigned := by
  ext p
  simp [mem_unassigned_add, h]

theorem mem_unassigned_put {f : FrameId} {name : Bytes} {v : Value} (hv : v ≠ .unset)
    {p : FrameId × Bytes} : p ∈ (s.put f name v).unassigned ↔ p ∈ s.unassigned ∧ p ≠ (f, name) := by
  obtain ⟨g, other⟩ := p
  simp only [unassigned, Store.put, frame_change, Set.mem_ofPred_eq, ne_eq, Prod.mk.injEq]
  split_ifs with hg
  · obtain ⟨rfl, -⟩ := hg
    simp only [Frame.put, List.mem_map, true_and]
    constructor
    · rintro ⟨-, ⟨b, hb, rfl⟩, hname, hvalue⟩
      by_cases hb' : b.name = name
      · simp [hb', hv] at hvalue
      · simp only [beq_iff_eq, hb', if_false] at hname hvalue
        exact ⟨⟨b, hb, hname, hvalue⟩, fun heq => hb' (hname.trans heq)⟩
    · rintro ⟨⟨b, hb, rfl, hvalue⟩, hne⟩
      exact ⟨b, ⟨b, hb, by simp [hne]⟩, rfl, hvalue⟩
  · constructor
    · rintro ⟨b, hb, hname, hvalue⟩
      refine ⟨⟨b, hb, hname, hvalue⟩, ?_⟩
      rintro ⟨rfl, -⟩
      apply hg
      refine ⟨rfl, ?_⟩
      by_contra hsize
      simp [Store.frame, hsize] at hb
    · exact fun h => h.1

/-- A name that has a value keeps having one. -/
def Retains (s s' : Store) : Prop :=
  ∀ f name v, (s.frame f).lookup? name = some v → v ≠ .unset →
    ∃ w, (s'.frame f).lookup? name = some w ∧ w ≠ .unset

theorem Retains.trans (h : s.Retains s') (h' : s'.Retains s'') : s.Retains s'' := by
  intro f name v hv hset
  obtain ⟨w, hw, hset'⟩ := h f name v hv hset
  exact h' f name w hw hset'

theorem Retains.of_frames (h : s'.frames = s.frames) : s.Retains s' := by
  intro f name v hv hset
  exact ⟨v, by simpa only [Store.frame, h] using hv, hset⟩

theorem lt_size_of_lookup? {f : FrameId} {name : Bytes} {v : Value}
    (h : (s.frame f).lookup? name = some v) : f < s.frames.size := by
  by_contra hsize
  simp [Store.frame, hsize, Frame.lookup?, Frame.find?] at h

theorem Retains.push (s : Store) (fr : Frame) : s.Retains { s with frames := s.frames.push fr } := by
  intro f name v hv hset
  rw [frame_push_of_lt (lt_size_of_lookup? hv)]
  exact ⟨v, hv, hset⟩

theorem Retains.add (s : Store) (f : FrameId) (b : Binding) : s.Retains (s.add f b) := by
  intro g name v hv hset
  rw [Store.add, frame_change]
  split_ifs
  · obtain ⟨found, hfound, hvalue⟩ := Option.map_eq_some_iff.1 hv
    refine ⟨v, Option.map_eq_some_iff.2 ⟨found, ?_, hvalue⟩, hset⟩
    rw [Frame.find?_add_or, hfound]
    rfl
  · exact ⟨v, hv, hset⟩

theorem Retains.put (s : Store) (f : FrameId) (name : Bytes) {v : Value} (h : v ≠ .unset) :
    s.Retains (s.put f name v) := by
  intro g other w hw hset
  rw [Store.put, frame_change]
  split_ifs
  · simp only [Frame.lookup?, Frame.find?_put_map, Option.map_map, Option.map_eq_some_iff] at hw ⊢
    obtain ⟨b, hb, rfl⟩ := hw
    refine ⟨_, ⟨b, hb, rfl⟩, ?_⟩
    by_cases hb' : b.name = name
    · simpa [hb'] using h
    · simpa [hb'] using hset
  · exact ⟨w, hw, hset⟩

/-- A frame binds the name of the receiver to a value. -/
def Receives (s : Store) (f : FrameId) : Prop :=
  ∃ v, (s.frame f).lookup? receiverName = some v ∧ v ≠ .unset

theorem Receives.mono {f : FrameId} (h : s.Receives f) (hr : s.Retains s') : s'.Receives f := by
  obtain ⟨v, hv, hset⟩ := h
  exact hr f receiverName v hv hset

/-! ## Objects -/

/-- What holds of all values in fields, and of the value written, holds of all after the write. -/
theorem fields_putField {P : Value → Prop} (h : ∀ o ∈ s.instances, ∀ p ∈ o.fields, P p.2) (i : InstanceId)
    (name : Bytes) {v : Value} (hv : P v) : ∀ o ∈ (s.putField i name v).instances, ∀ p ∈ o.fields, P p.2 := by
  intro o ho p hp
  obtain ⟨j, hj⟩ := Array.mem_iff_getElem?.1 ho
  simp only [Store.putField, Array.getElem?_modify] at hj
  split_ifs at hj with hij
  · obtain ⟨old, hold, rfl⟩ := Option.map_eq_some_iff.1 hj
    have hfields := h old (Array.mem_of_getElem? hold)
    simp only [Instance.put] at hp
    split_ifs at hp
    · obtain ⟨q, hq, rfl⟩ := List.mem_map.1 hp
      split_ifs
      · exact hv
      · exact hfields q hq
    · rcases List.mem_append.1 hp with hp | hp
      · exact hfields p hp
      · rw [List.mem_singleton.1 hp]
        exact hv
  · exact h o (Array.mem_of_getElem? hj) p hp

theorem fields_field? {P : Value → Prop} (h : ∀ o ∈ s.instances, ∀ p ∈ o.fields, P p.2) {i : InstanceId}
    {name : Bytes} {v : Value} (hfield : s.instances[i]?.bind (·.field? name) = some v) : P v := by
  obtain ⟨o, ho, hv⟩ := Option.bind_eq_some_iff.1 hfield
  obtain ⟨p, hp, rfl⟩ := Option.map_eq_some_iff.1 hv
  exact h o (Array.mem_of_getElem? ho) p (List.mem_of_find?_eq_some hp)

/-- No object holds the mark, natives supply none, and what sets up instances finds its receiver. -/
structure Tidy (s : Store) : Prop where
  elements : ∀ a, ∀ v ∈ s.elements a, v ≠ .unset
  fields : ∀ i ∈ s.instances, ∀ p ∈ i.fields, p.2 ≠ .unset
  properties : ∀ h ∈ s.hosts, ∀ p ∈ h.properties, p.2 ≠ .unset
  natives : ∀ n ∈ s.natives, n.op.Tidy
  receivers : ∀ f ∈ s.functions, f.isInit = true → s.Receives f.env

/-- A tidy store in which names keep their values and the same names are unassigned. -/
structure Steady (s s' : Store) : Prop where
  tidy : s'.Tidy
  retains : s.Retains s'
  unassigned : s'.unassigned = s.unassigned

theorem Steady.trans (h : s.Steady s') (h' : s'.Steady s'') : s.Steady s'' :=
  ⟨h'.tidy, h.retains.trans h'.retains, h'.unassigned.trans h.unassigned⟩

theorem Steady.of_frames (hframes : s'.frames = s.frames) (h : s'.Tidy) : s.Steady s' :=
  ⟨h, .of_frames hframes, unassigned_of_frames hframes⟩

namespace Tidy

variable (h : s.Tidy)

include h

theorem steady : s.Steady s := .of_frames rfl h

/-- New frames and new values in frames leave the objects alone. -/
theorem withFrames {frames : Array Frame} (hr : s.Retains { s with frames }) :
    ({ s with frames } : Store).Tidy where
  elements := h.elements
  fields := h.fields
  properties := h.properties
  natives := h.natives
  receivers f hf hinit := (h.receivers f hf hinit).mono hr

theorem pushFrame {bindings : List Binding} (parent : Option FrameId)
    (hset : ∀ b ∈ bindings, b.value ≠ .unset) :
    s.Steady { s with frames := s.frames.push { parent, bindings } } :=
  ⟨h.withFrames (.push s _), .push s _, unassigned_push parent hset⟩

theorem add (f : FrameId) {b : Binding} (hset : b.value ≠ .unset) : s.Steady (s.add f b) :=
  ⟨h.withFrames (.add s f b), .add s f b, unassigned_add hset⟩

theorem newArray {elements : Array Value} (hset : ∀ v ∈ elements, v ≠ .unset) :
    s.Steady (s.newArray elements).2 := by
  refine .of_frames rfl ⟨fun a v hv => ?_, h.fields, h.properties, h.natives, h.receivers⟩
  simp only [Store.newArray, Store.elements, Array.getElem?_push] at hv
  split at hv
  · exact hset v hv
  · exact h.elements a v hv

theorem modifyArray (a : ArrayId) {change : Array Value → Array Value}
    (hset : ∀ v ∈ change (s.elements a), v ≠ .unset) : s.Steady (s.modifyArray a change) := by
  refine .of_frames rfl ⟨fun b v hv => ?_, h.fields, h.properties, h.natives, h.receivers⟩
  simp only [Store.modifyArray, Store.elements, Array.getElem?_modify] at hv
  split_ifs at hv with hab
  · subst hab
    cases hfound : s.arrays[a]? with
    | none => simp [hfound] at hv
    | some elements =>
      apply hset
      simpa [Store.elements, hfound] using hv
  · exact h.elements b v hv

theorem newFunction {f : Closure} (hinit : f.isInit = true → s.Receives f.env) :
    s.Steady (s.newFunction f).2 := by
  refine .of_frames rfl ⟨h.elements, h.fields, h.properties, h.natives, fun g hg => ?_⟩
  rcases Array.mem_push.1 hg with hg | rfl
  · exact h.receivers g hg
  · exact hinit

theorem newClass (c : Class) : s.Steady (s.newClass c).2 :=
  .of_frames rfl ⟨h.elements, h.fields, h.properties, h.natives, h.receivers⟩

theorem newInstance (cls : ClassId) : s.Steady (s.newInstance cls).2 := by
  refine .of_frames rfl ⟨h.elements, fun i hi => ?_, h.properties, h.natives, h.receivers⟩
  rcases Array.mem_push.1 hi with hi | rfl
  · exact h.fields i hi
  · simp

theorem putField (i : InstanceId) (name : Bytes) {v : Value} (hv : v ≠ .unset) :
    s.Steady (s.putField i name v) :=
  .of_frames rfl ⟨h.elements, fields_putField (P := (· ≠ .unset)) h.fields i name hv, h.properties, h.natives, h.receivers⟩

/-- A method with its receiver finds it in its frame. -/
theorem bind (f : Closure) (receiver : InstanceId) :
    s.Steady (s.bind f receiver).2 ∧ (s.bind f receiver).2.Receives (s.bind f receiver).1.env := by
  refine ⟨h.pushFrame (some f.env) (by simp), .object receiver, ?_, by simp⟩
  show (Store.frame { s with frames := s.frames.push _ } s.frames.size).lookup? receiverName = _
  rw [frame_push_size]
  simp [Frame.lookup?, Frame.find?]

theorem property (i : InstanceId) (name : Bytes) :
    s.Steady (s.property i name).2 ∧ ∀ v, (s.property i name).1 = some v → v ≠ .unset := by
  unfold Store.property
  split
  · rename_i v hfield
    refine ⟨h.steady, ?_⟩
    rintro w ⟨⟩
    exact fields_field? (P := (· ≠ .unset)) h.fields hfield
  · split
    · exact ⟨h.steady, nofun⟩
    · rename_i f _
      obtain ⟨hbound, hreceives⟩ := h.bind f i
      refine ⟨hbound.trans (hbound.tidy.newFunction fun _ => hreceives), ?_⟩
      rintro w ⟨⟩
      nofun

theorem clone {v : Value} (hv : v ≠ .unset) :
    s.Steady (s.clone v).2 ∧ (s.clone v).1 ≠ .unset := by
  unfold Store.clone
  split
  · rename_i a
    exact ⟨h.newArray (h.elements a), by simp [Store.newArray]⟩
  · exact ⟨h.steady, hv⟩

end Tidy

theorem clone?_ok {v : Value} {r : Value × Store} (h : s.clone? v = .ok r) :
    s.clone v = r := by
  unfold Store.clone? at h
  split at h <;> cases h
  rfl

end Store

end Treewalk
