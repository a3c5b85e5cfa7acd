import Treewalk.Proofs.Machine.Part

/-!
# What a call cannot get at

A function may keep frames and arrays to itself while it calls others. **Hidden** (`Store.Hides`) are frames and
arrays that nothing else in the heap leads to; what is not made yet is hidden with them, for later a new frame or
array must not turn out to be one of them.

**Main theorem** (`Machine.Ends.hides`). A call with arguments that are not hidden leaves alone what is hidden,
leaves it hidden, and gives a value that is not hidden. The realm of the call lacks what is hidden
(`Realm.besides`); nothing is known about the code that it runs.
-/

namespace Treewalk

/-- The realm that lacks some frames and arrays and nothing else. -/
def Realm.besides (X : Set FrameId) (A : Set ArrayId) (h : Store.globals ∉ X) : Realm :=
  { Realm.all with frames := Xᶜ, arrays := Aᶜ, globals_mem := h }

namespace Store

/-- Some frames and arrays, and others that are not made yet. -/
structure Masks (s : Store) (X : Set FrameId) (A : Set ArrayId) (Z : Set FrameId) (C : Set ArrayId) : Prop where
  frames : X ⊆ Z
  later : ∀ f ∈ Z, f ∈ X ∨ s.frames.size ≤ f
  arrays : A ⊆ C
  laterArrays : ∀ a ∈ C, a ∈ A ∨ s.arrays.size ≤ a

/-- Nothing else in a heap leads to the frames in `X` and the arrays in `A`, or to what is not made yet. -/
structure Hides (s : Store) (X : Set FrameId) (A : Set ArrayId) : Prop where
  globals : Store.globals ∉ X
  frames : ∀ f ∈ X, f < s.frames.size
  arrays : ∀ a ∈ A, a < s.arrays.size
  closed : ∀ Z C (h : Store.globals ∉ Z), s.Masks X A Z C → s.In (.besides Z C h)

/-- A value is not one of the arrays in `A`, and it is made already. -/
def Shows (s : Store) (A : Set ArrayId) : Value → Prop
  | .array a => a ∉ A ∧ a < s.arrays.size
  | _ => True

variable {R : Realm} {s s' : Store} {X X' Z : Set FrameId} {A A' C : Set ArrayId}

theorem Masks.refl (s : Store) (X : Set FrameId) (A : Set ArrayId) : s.Masks X A X A :=
  ⟨Set.Subset.rfl, fun _ => .inl, Set.Subset.rfl, fun _ => .inl⟩

/-- A smaller heap has all the more that is not made yet. -/
theorem Masks.earlier (h : s'.Masks X A Z C) (hframes : s.frames.size ≤ s'.frames.size)
    (harrays : s.arrays.size ≤ s'.arrays.size) : s.Masks X A Z C :=
  ⟨h.frames, fun f hf => (h.later f hf).imp_right hframes.trans, h.arrays,
    fun a ha => (h.laterArrays a ha).imp_right harrays.trans⟩

theorem Shows.in {v : Value} (h : s.Shows A v) (hmasks : s.Masks X A Z C) {hZ : Store.globals ∉ Z} :
    v.In (.besides Z C hZ) := by
  cases v with
  | array a => exact fun ha => (hmasks.laterArrays a ha).elim h.1 (Nat.not_le.2 h.2)
  | _ => trivial

theorem Shows.mono {v : Value} (h : s.Shows A v) (hsize : s.arrays.size ≤ s'.arrays.size) : s'.Shows A v := by
  cases v with
  | array a => exact ⟨h.1, Nat.lt_of_lt_of_le h.2 hsize⟩
  | _ => trivial

/-- Heaps that differ in what a realm lacks are closed under it together. -/
theorem In.congr (h : s.In R) (hframes : ∀ f ∈ R.frames, s'.frame f = s.frame f)
    (harrays : ∀ a ∈ R.arrays, s'.elements a = s.elements a) (hinstances : s'.instances = s.instances)
    (hfunctions : s'.functions = s.functions) (hclasses : s'.classes = s.classes)
    (hnatives : s'.natives = s.natives) (hhosts : s'.hosts = s.hosts) : s'.In R where
  parents f hf := hframes f hf ▸ h.parents f hf
  bindings f hf := hframes f hf ▸ h.bindings f hf
  arrays a ha := harrays a ha ▸ h.arrays a ha
  fields := hinstances ▸ h.fields
  functions f hf c hc := h.functions f hf c (hfunctions ▸ hc)
  classes := hclasses ▸ h.classes
  natives := hnatives ▸ h.natives
  properties := hhosts ▸ h.properties

namespace Hides

/-- What is hidden may change, and what is made may be hidden at once. -/
theorem change (h : s.Hides X A) (hX : X ⊆ X') (hA : A ⊆ A') (hglobals : Store.globals ∉ X')
    (hnew : ∀ f ∈ X', f < s'.frames.size ∧ (f ∈ X ∨ s.frames.size ≤ f))
    (hnewArrays : ∀ a ∈ A', a < s'.arrays.size ∧ (a ∈ A ∨ s.arrays.size ≤ a))
    (hsize : s.frames.size ≤ s'.frames.size) (hsizeArrays : s.arrays.size ≤ s'.arrays.size)
    (hframes : ∀ f ∉ X', s'.frame f = s.frame f) (harrays : ∀ a ∉ A', s'.elements a = s.elements a)
    (hinstances : s'.instances = s.instances) (hfunctions : s'.functions = s.functions)
    (hclasses : s'.classes = s.classes) (hnatives : s'.natives = s.natives) (hhosts : s'.hosts = s.hosts) :
    s'.Hides X' A' where
  globals := hglobals
  frames f hf := (hnew f hf).1
  arrays a ha := (hnewArrays a ha).1
  closed Z C hZ hmasks := by
    have hearlier : s.Masks X A Z C := by
      refine ⟨hX.trans hmasks.frames, fun f hf => ?_, hA.trans hmasks.arrays, fun a ha => ?_⟩
      · exact (hmasks.later f hf).elim (fun hf' => (hnew f hf').2) fun hlate => .inr (hsize.trans hlate)
      · exact (hmasks.laterArrays a ha).elim (fun ha' => (hnewArrays a ha').2) fun hlate =>
          .inr (hsizeArrays.trans hlate)
    refine (h.closed Z C hZ hearlier).congr (fun f hf => hframes f fun hX' => hf (hmasks.frames hX'))
      (fun a ha => harrays a fun hA' => ha (hmasks.arrays hA')) hinstances hfunctions hclasses hnatives hhosts

/-- A new frame is hidden. -/
theorem pushFrame (h : s.Hides X A) (hpos : Store.globals < s.frames.size) (frame : Frame) :
    Store.Hides { s with frames := s.frames.push frame } (insert s.frames.size X) A := by
  refine h.change (Set.subset_insert _ _) Set.Subset.rfl ?_ (fun f hf => ?_)
    (fun a ha => ⟨h.arrays a ha, .inl ha⟩) (by simp) (Nat.le_refl _) (fun f hf => ?_) (fun _ _ => rfl)
    rfl rfl rfl rfl rfl
  · rintro (hnew | hold)
    · exact Nat.ne_of_lt hpos hnew
    · exact h.globals hold
  · rcases hf with rfl | hf
    · exact ⟨by simp, .inr (Nat.le_refl _)⟩
    · exact ⟨Nat.lt_of_lt_of_le (h.frames f hf) (by simp), .inl hf⟩
  · rw [frame_push, if_neg fun heq => hf (.inl heq)]

/-- A new array is hidden. -/
theorem newArray (h : s.Hides X A) (elements : Array Value) :
    (s.newArray elements).2.Hides X (insert s.arrays.size A) := by
  refine h.change Set.Subset.rfl (Set.subset_insert _ _) h.globals (fun f hf => ⟨h.frames f hf, .inl hf⟩)
    (fun a ha => ?_) (Nat.le_refl _) (by simp [Store.newArray]) (fun _ _ => rfl) (fun a ha => ?_) rfl rfl rfl rfl rfl
  · rcases ha with rfl | ha
    · exact ⟨by simp [Store.newArray], .inr (Nat.le_refl _)⟩
    · exact ⟨Nat.lt_of_lt_of_le (h.arrays a ha) (by simp [Store.newArray]), .inl ha⟩
  · have hne : a ≠ s.arrays.size := fun heq => ha (.inl heq)
    simp [Store.newArray, Store.elements, Array.getElem?_push, hne]

/-- A hidden frame changes. -/
theorem modifyFrame (h : s.Hides X A) {f : FrameId} (hf : f ∈ X) (change : Frame → Frame) :
    Store.Hides { s with frames := s.frames.modify f change } X A := by
  refine h.change Set.Subset.rfl Set.Subset.rfl h.globals (fun g hg => ⟨by simpa using h.frames g hg, .inl hg⟩)
    (fun a ha => ⟨h.arrays a ha, .inl ha⟩) (by simp) (Nat.le_refl _) (fun g hg => ?_) (fun _ _ => rfl)
    rfl rfl rfl rfl rfl
  rw [frame_change, if_neg]
  rintro ⟨rfl, -⟩
  exact hg hf

/-- A hidden array changes. -/
theorem modifyArray (h : s.Hides X A) {a : ArrayId} (ha : a ∈ A) (change : Array Value → Array Value) :
    (s.modifyArray a change).Hides X A := by
  refine h.change Set.Subset.rfl Set.Subset.rfl h.globals (fun g hg => ⟨h.frames g hg, .inl hg⟩)
    (fun b hb => ⟨by simpa [Store.modifyArray] using h.arrays b hb, .inl hb⟩) (Nat.le_refl _)
    (by simp [Store.modifyArray]) (fun _ _ => rfl) (fun b hb => ?_) rfl rfl rfl rfl rfl
  have hne : a ≠ b := fun heq => hb (heq ▸ ha)
  simp [Store.modifyArray, Store.elements, Array.getElem?_modify, hne]

/-- The elements of an array that is not hidden are not hidden. -/
theorem element (h : s.Hides X A) {a : ArrayId} (ha : a ∉ A) {v : Value} (hv : v ∈ s.elements a) : s.Shows A v := by
  have hsize : a < s.arrays.size := by
    by_contra hlarge
    rw [Store.elements, Array.getElem?_eq_none (Nat.le_of_not_lt hlarge)] at hv
    exact Array.not_mem_empty v hv
  have hmasks : s.Masks X A X (A ∪ {b | s.arrays.size ≤ b}) :=
    ⟨Set.Subset.rfl, fun _ => .inl, Set.subset_union_left, fun _ hb => hb⟩
  have hin := (h.closed X _ h.globals hmasks).arrays a (fun hb => hb.elim ha (Nat.not_le.2 hsize)) v hv
  cases v with
  | array b => exact ⟨fun hb => hin (.inl hb), Nat.not_le.1 fun hle => hin (.inr hle)⟩
  | _ => trivial

end Hides

end Store

/-! ## Calls -/

namespace Machine

variable {m : Machine} {X Z : Set FrameId} {A C : Set ArrayId} {callee : Value} {args : List Value} {n : Nat}

/-- A call gets at nothing that is hidden. -/
theorem Ends.spares (h : m.Ends m.pending n) (hcall : m.control = .call callee args) (hides : m.store.Hides X A)
    (hcallee : m.store.Shows A callee) (hargs : ∀ v ∈ args, m.store.Shows A v)
    (hmasks : (m.steps n).store.Masks X A Z C) (hZ : Store.globals ∉ Z) :
    (m.steps n).Within (.besides Z C hZ) ⟨.value, m.pending, m.env, m.depth⟩ m.store := by
  have hgrown := m.steps_extends n
  have hearlier := hmasks.earlier hgrown.frames hgrown.arrays
  have hstart : m.Within (.besides Z C hZ) ⟨.value, m.pending, m.env, m.depth⟩ m.store := by
    refine ⟨⟨(hides.closed Z C hZ hearlier).leads, Nat.le_max_left _ _⟩, ?_⟩
    rw [hcall]
    exact ⟨hcallee.in hearlier, fun v hv => (hargs v hv).in hearlier, .anchor⟩
  refine hstart.steps n h.first ⟨fun f hf hlt hfZ => ?_, fun a ha hlt haC => ?_, fun _ _ _ => trivial⟩
  · rcases hmasks.later f hfZ with hfX | hlate
    · exact Nat.not_lt.2 hf (hides.frames f hfX)
    · exact Nat.not_le.2 hlt hlate
  · rcases hmasks.laterArrays a haC with haA | hlate
    · exact Nat.not_lt.2 ha (hides.arrays a haA)
    · exact Nat.not_le.2 hlt hlate

/-- A call leaves alone what is hidden, and it stays hidden. -/
theorem Ends.hides (h : m.Ends m.pending n) (hcall : m.control = .call callee args) (hides : m.store.Hides X A)
    (hcallee : m.store.Shows A callee) (hargs : ∀ v ∈ args, m.store.Shows A v) :
    (m.steps n).store.Hides X A ∧ (∀ f ∈ X, (m.steps n).store.frame f = m.store.frame f) ∧
      (∀ a ∈ A, (m.steps n).store.elements a = m.store.elements a) ∧
      ∀ v, (m.steps n).control = .give v → (m.steps n).store.Shows A v := by
  have hgrown := m.steps_extends n
  have hspares := h.spares hcall hides hcallee hargs (.refl _ X A) hides.globals
  refine ⟨⟨hides.globals, fun f hf => (hides.frames f hf).trans_le hgrown.frames,
    fun a ha => (hides.arrays a ha).trans_le hgrown.arrays, fun Z C hZ hmasks =>
      (h.spares hcall hides hcallee hargs hmasks hZ).leads.closed⟩,
    fun f hf => hspares.leads.frames f (not_not_intro hf), fun a ha => hspares.leads.arrays a (not_not_intro ha),
    fun v hv => ?_⟩
  have hmasks : (m.steps n).store.Masks X A X (A ∪ {a | (m.steps n).store.arrays.size ≤ a}) :=
    ⟨Set.Subset.rfl, fun _ => .inl, Set.subset_union_left, fun _ ha => ha⟩
  have hcontrol := (h.spares hcall hides hcallee hargs hmasks hides.globals).control
  rw [hv] at hcontrol
  cases v with
  | array a => exact ⟨fun ha => hcontrol.1 (.inl ha), Nat.not_le.1 fun hle => hcontrol.1 (.inr hle)⟩
  | _ => trivial

end Machine

end Treewalk
