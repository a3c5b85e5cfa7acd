import Treewalk.Proofs.Store.Tidy

/-!
# Heaps that have grown

Nothing is ever taken out of a heap. A frame keeps its parent and its names and gets new names behind them; an
instance keeps its class and its fields; functions and classes stay what they are; natives and host objects are
the host's.

**Growth** (`Store.Extends`) says so of two heaps, and also which values the frames have kept: of the names bound
in the first one, only those in a given set were written. There is one lemma for each thing that can be done to a
heap.
-/

namespace Treewalk

/-- The names of the fields of an instance, in the order in which they were written first. -/
def Instance.names (i : Instance) : List Bytes := i.fields.map Prod.fst

namespace Frame

theorem names_add (f : Frame) (b : Binding) : (f.add b).names = f.names ++ [b.name] := by
  simp [names, add]

theorem names_put (f : Frame) (name : Bytes) (v : Value) : (f.put name v).names = f.names := by
  simp only [names, put, List.map_map]
  refine List.map_congr_left fun b _ => ?_
  by_cases hb : b.name = name <;> simp [hb]

/-- A new binding comes behind the others. -/
theorem find?_add {f : Frame} {name : Bytes} {b : Binding} (h : f.find? name = some b) (new : Binding) :
    (f.add new).find? name = some b := by
  rw [find?_add_or, h]
  rfl

/-- A write changes no other name. -/
theorem find?_put {f : Frame} {name other : Bytes} (hne : other ≠ name) (v : Value) :
    (f.put name v).find? other = f.find? other := by
  rw [find?_put_map]
  cases hfound : f.find? other with
  | none => rfl
  | some b =>
    have hb : b.name = other := by simpa using List.find?_some hfound
    simp [hb, hne]

end Frame

namespace Instance

theorem cls_put (i : Instance) (name : Bytes) (v : Value) : (i.put name v).cls = i.cls := by
  unfold put
  split <;> rfl

/-- A write adds the name at most. -/
theorem names_put (i : Instance) (name : Bytes) (v : Value) : i.names <+: (i.put name v).names := by
  unfold put names
  split
  · rw [List.map_map]
    refine (List.prefix_iff_eq_take.2 ?_)
    rw [List.length_map, ← List.length_map (f := Prod.fst ∘ _), List.take_length]
    refine List.map_congr_left fun p _ => ?_
    by_cases hp : p.1 = name <;> simp [hp]
  · rw [List.map_append]
    exact List.prefix_append _ _

/-- A field is there once it is written. -/
theorem mem_names_put (i : Instance) (name : Bytes) (v : Value) : name ∈ (i.put name v).names := by
  unfold put names
  split
  · rename_i h
    obtain ⟨p, hp, hname⟩ := List.any_eq_true.1 h
    refine List.mem_map.2 ⟨_, List.mem_map.2 ⟨p, hp, rfl⟩, ?_⟩
    simp [hname]
  · simp

end Instance

namespace Store

/-- A heap that has grown out of another one. Of the names bound then, only those in `w` were written. -/
structure Extends (w : Set (FrameId × Bytes)) (s s' : Store) : Prop where
  frames : s.frames.size ≤ s'.frames.size
  parent : ∀ f < s.frames.size, (s'.frame f).parent = (s.frame f).parent
  names : ∀ f < s.frames.size, (s.frame f).names <+: (s'.frame f).names
  bindings : ∀ f name b, (s.frame f).find? name = some b → (f, name) ∉ w →
    (s'.frame f).find? name = some b
  arrays : s.arrays.size ≤ s'.arrays.size
  instances : ∀ (i : InstanceId) o, s.instances[i]? = some o →
    ∃ o' : Instance, s'.instances[i]? = some o' ∧ o'.cls = o.cls ∧ o.names <+: o'.names
  functions : ∀ (f : FunctionId) c, s.functions[f]? = some c → s'.functions[f]? = some c
  classes : ∀ (c : ClassId) cls, s.classes[c]? = some cls → s'.classes[c]? = some cls
  natives : s'.natives = s.natives
  hosts : s'.hosts = s.hosts

variable {w w' : Set (FrameId × Bytes)} {s s' s'' : Store}

namespace Extends

theorem refl (s : Store) : s.Extends w s where
  frames := Nat.le_refl _
  parent _ _ := rfl
  names _ _ := List.prefix_refl _
  bindings _ _ _ h _ := h
  arrays := Nat.le_refl _
  instances _ o h := ⟨o, h, rfl, List.prefix_refl _⟩
  functions _ _ h := h
  classes _ _ h := h
  natives := rfl
  hosts := rfl

theorem trans (h : s.Extends w s') (h' : s'.Extends w s'') : s.Extends w s'' where
  frames := Nat.le_trans h.frames h'.frames
  parent f hf := (h'.parent f (Nat.lt_of_lt_of_le hf h.frames)).trans (h.parent f hf)
  names f hf := (h.names f hf).trans (h'.names f (Nat.lt_of_lt_of_le hf h.frames))
  bindings f name b hb hw := h'.bindings f name b (h.bindings f name b hb hw) hw
  arrays := Nat.le_trans h.arrays h'.arrays
  instances i o ho := by
    obtain ⟨o', ho', hcls, hnames⟩ := h.instances i o ho
    obtain ⟨o'', ho'', hcls', hnames'⟩ := h'.instances i o' ho'
    exact ⟨o'', ho'', hcls'.trans hcls, hnames.trans hnames'⟩
  functions f c hc := h'.functions f c (h.functions f c hc)
  classes c cls hcls := h'.classes c cls (h.classes c cls hcls)
  natives := h'.natives.trans h.natives
  hosts := h'.hosts.trans h.hosts

theorem mono (h : s.Extends w s') (hw : w ⊆ w') : s.Extends w' s' :=
  { h with bindings := fun f name b hb hnot => h.bindings f name b hb fun hmem => hnot (hw hmem) }

/-- Only frames are changed. -/
theorem of_frames {frames : Array Frame} (hsize : s.frames.size ≤ frames.size)
    (h : ∀ f < s.frames.size, (frame { s with frames } f).parent = (s.frame f).parent ∧
      (s.frame f).names <+: (frame { s with frames } f).names)
    (hbindings : ∀ f name b, (s.frame f).find? name = some b → (f, name) ∉ w →
      (frame { s with frames } f).find? name = some b) :
    s.Extends w { s with frames } :=
  { refl (w := w) s with
    frames := hsize
    parent := fun f hf => (h f hf).1
    names := fun f hf => (h f hf).2
    bindings := hbindings }

theorem push (s : Store) (fr : Frame) : s.Extends w { s with frames := s.frames.push fr } := by
  refine .of_frames (by simp) (fun f hf => ?_) fun f name b hb _ => ?_
  · rw [frame_push_of_lt hf]
    exact ⟨rfl, List.prefix_refl _⟩
  · have hv : (s.frame f).lookup? name = some b.value := by rw [Frame.lookup?, hb]; rfl
    rwa [frame_push_of_lt (lt_size_of_lookup? hv)]

theorem add (s : Store) (f : FrameId) (b : Binding) : s.Extends w (s.add f b) := by
  refine .of_frames (by simp) (fun g hg => ?_) fun g name found hfound _ => ?_
  · rw [frame_change]
    split_ifs
    · exact ⟨rfl, by rw [Frame.names_add]; exact List.prefix_append _ _⟩
    · exact ⟨rfl, List.prefix_refl _⟩
  · rw [frame_change]
    split_ifs
    · exact Frame.find?_add hfound b
    · exact hfound

theorem put {f : FrameId} {name : Bytes} (hw : (f, name) ∈ w) (v : Value) : s.Extends w (s.put f name v) := by
  refine .of_frames (by simp) (fun g hg => ?_) fun g other b hb hnot => ?_
  · rw [frame_change]
    split_ifs
    · exact ⟨rfl, by simp only [Frame.names_put, List.prefix_rfl]⟩
    · exact ⟨rfl, List.prefix_refl _⟩
  · rw [frame_change]
    split_ifs with hf
    · have hne : other ≠ name := by
        rintro rfl
        rw [← hf.1] at hnot
        exact hnot hw
      rw [Frame.find?_put hne]
      exact hb
    · exact hb

theorem newArray (s : Store) (elems : Array Value) : s.Extends w (s.newArray elems).2 :=
  { refl s with arrays := by simp [Store.newArray] }

theorem modifyArray (s : Store) (a : ArrayId) (f : Array Value → Array Value) :
    s.Extends w (s.modifyArray a f) :=
  { refl s with arrays := by simp [Store.modifyArray] }

theorem newFunction (s : Store) (f : Closure) : s.Extends w (s.newFunction f).2 :=
  { refl s with
    functions := fun g c hc => by
      have hg : g < s.functions.size := (Array.getElem?_eq_some_iff.1 hc).1
      simpa [Store.newFunction, Array.getElem?_push_lt hg] using (Array.getElem?_eq_some_iff.1 hc).2 }

theorem newClass (s : Store) (c : Class) : s.Extends w (s.newClass c).2 :=
  { refl s with
    classes := fun g cls hcls => by
      have hg : g < s.classes.size := (Array.getElem?_eq_some_iff.1 hcls).1
      simpa [Store.newClass, Array.getElem?_push_lt hg] using (Array.getElem?_eq_some_iff.1 hcls).2 }

theorem newInstance (s : Store) (cls : ClassId) : s.Extends w (s.newInstance cls).2 :=
  { refl s with
    instances := fun i o ho => by
      have hi : i < s.instances.size := (Array.getElem?_eq_some_iff.1 ho).1
      refine ⟨o, ?_, rfl, List.prefix_refl _⟩
      simpa [Store.newInstance, Array.getElem?_push_lt hi] using (Array.getElem?_eq_some_iff.1 ho).2 }

theorem putField (s : Store) (i : InstanceId) (name : Bytes) (v : Value) : s.Extends w (s.putField i name v) :=
  { refl s with
    instances := fun j o ho => by
      simp only [Store.putField, Array.getElem?_modify, ho]
      split_ifs
      · exact ⟨_, rfl, o.cls_put name v, o.names_put name v⟩
      · exact ⟨o, rfl, rfl, List.prefix_refl _⟩ }

theorem bind (s : Store) (f : Closure) (receiver : InstanceId) : s.Extends w (s.bind f receiver).2 := push s _

theorem property (s : Store) (i : InstanceId) (name : Bytes) : s.Extends w (s.property i name).2 := by
  unfold Store.property
  split
  · exact .refl s
  · split
    · exact .refl s
    · exact (bind s _ i).trans (newFunction _ _)

theorem clone (s : Store) (v : Value) : s.Extends w (s.clone v).2 := by
  cases v with
  | array a => exact newArray s _
  | _ => exact .refl s

end Extends

end Store

end Treewalk
