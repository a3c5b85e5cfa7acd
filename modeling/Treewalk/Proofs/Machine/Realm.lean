import Treewalk.Proofs.Machine.Growth

/-!
# What a run can get at

A program forges no reference. What it gets at is what it was handed, what that leads to in the heap, and what it
makes itself.

**Realms.** A realm says which arrays, frames and functions may be got at, under which names the frames hold
values of the realm, which pieces of syntax may run, and which sites errors may be reported at. The globals belong
to every realm.

**Closed heaps** (`Store.In`). A heap is closed under a realm if all that the realm holds leads back into the
realm. `Realm.Leads` says of a change that it leaves a closed heap and does not touch what the realm lacks; there
is one lemma for each thing that can be done to a heap. What is made has to be in the realm (`Realm.Makes`).

The step of a machine is in the module about confined runs.
-/

namespace Treewalk

/-- The tokens of a piece itself; those of its parts are theirs. -/
def Fragment.tokens : Fragment → List Token
  | .expr e => e.tokens
  | .stmt s => s.tokens
  | .list _ => []

/-- What a run may get at. -/
structure Realm where
  arrays : Set ArrayId
  frames : Set FrameId
  functions : Set FunctionId
  /-- Under these names the frames of the realm hold values of the realm. -/
  names : Set Bytes
  /-- What may run. -/
  code : Fragment → Prop
  /-- Where errors may be reported. -/
  sites : Set Site
  globals_mem : Store.globals ∈ frames
  receiver_mem : Store.receiverName ∈ names
  code_part : ∀ {Γ Δ p q}, code p → (Δ, q) ∈ p.parts Γ → code q
  code_token : ∀ {p}, code p → ∀ t ∈ p.tokens, t.lexeme ∈ names ∧ t.site ∈ sites
  code_print : ∀ {pos e}, code (.stmt (.print pos e)) → ⟨text "print", pos⟩ ∈ sites

namespace Realm

variable (R : Realm)

/-- A token names something of the realm and stands where errors may be reported. -/
def Has (t : Token) : Prop := t.lexeme ∈ R.names ∧ t.site ∈ R.sites

theorem has_token {R : Realm} {p : Fragment} (h : R.code p) : ∀ t ∈ p.tokens, R.Has t := R.code_token h

/-- With a piece all its parts may run. -/
theorem parts {R : Realm} {p : Fragment} (h : R.code p) : ∀ part ∈ p.parts {}, R.code part.2 :=
  fun _ hpart => R.code_part h hpart

end Realm

section

variable (R : Realm)

/-! ## Values, errors and scripts -/

/-- A value refers to nothing that the realm lacks. -/
def Value.In : Value → Prop
  | .array a => a ∈ R.arrays
  | .function f => f ∈ R.functions
  | _ => True

/-- An error that is located is reported at a site of the realm. -/
def RuntimeError.In (e : RuntimeError) : Prop := ∀ s, e.site = some s → 0 < s.pos.line → s ∈ R.sites

def Halt.In : Halt → Prop
  | .error e => e.In R
  | _ => True

/-- A script that hands on what it was handed and nothing else. -/
def Script.In : Script → Prop
  | .give v => v.In R
  | .fail e => e.In R
  | .failPlain _ => True
  | .look array next => array.In R ∧ ∀ elements, (∀ v ∈ elements, v.In R) → (next elements).In
  | .call callee args _ next =>
    callee.In R ∧ (∀ v ∈ args, v.In R) ∧ ∀ r : Option Value, (∀ v ∈ r, v.In R) → (next r).In

/-- A native that hands on what it was handed: those of the language always do. -/
def NativeOp.In : NativeOp → Prop
  | .script run => ∀ args, (∀ v ∈ args, v.In R) → (run args).In R
  | .fails e => e.In R
  | _ => True

/-! ## Heaps -/

/-- A function with the frame it was made in. -/
structure Closure.In (f : Closure) : Prop where
  env : f.env ∈ R.frames
  params : ∀ p ∈ f.params, R.Has p
  body : R.code (.list f.body)

structure Class.In (c : Class) : Prop where
  env : c.env ∈ R.frames
  fields : ∀ f ∈ c.fields, R.code (.expr f.value)
  methods : ∀ m ∈ c.methods, m.In R

/-- All that a realm holds leads back into the realm. -/
structure Store.In (s : Store) : Prop where
  parents : ∀ f ∈ R.frames, ∀ g, (s.frame f).parent = some g → g ∈ R.frames
  bindings : ∀ f ∈ R.frames, ∀ b ∈ (s.frame f).bindings, b.name ∈ R.names → b.value.In R
  arrays : ∀ a ∈ R.arrays, ∀ v ∈ s.elements a, v.In R
  fields : ∀ i ∈ s.instances, ∀ p ∈ i.fields, p.2.In R
  functions : ∀ f ∈ R.functions, ∀ c, s.functions[f]? = some c → c.In R
  classes : ∀ c ∈ s.classes, c.In R
  natives : ∀ n ∈ s.natives, n.op.In R
  properties : ∀ h ∈ s.hosts, ∀ p ∈ h.properties, p.2.In R

/-- A change that leaves a closed heap and does not touch what the realm lacks. -/
structure Realm.Leads (s s' : Store) : Prop where
  closed : s'.In R
  frames : ∀ f ∉ R.frames, s'.frame f = s.frame f
  arrays : ∀ a ∉ R.arrays, s'.elements a = s.elements a

/-- What is new in a heap is in the realm. -/
structure Realm.Makes (s s' : Store) : Prop where
  frames : ∀ f, s.frames.size ≤ f → f < s'.frames.size → f ∈ R.frames
  arrays : ∀ a, s.arrays.size ≤ a → a < s'.arrays.size → a ∈ R.arrays
  functions : ∀ f, s.functions.size ≤ f → f < s'.functions.size → f ∈ R.functions

end

theorem Store.Extends.size_functions {w : Set (FrameId × Bytes)} {s s' : Store} (h : s.Extends w s') :
    s.functions.size ≤ s'.functions.size := by
  by_contra hlt
  have hlast : s.functions.size - 1 < s.functions.size := by omega
  have hkept := h.functions _ _ (Array.getElem?_eq_getElem hlast)
  have := (Array.getElem?_eq_some_iff.1 hkept).1
  omega

section

variable {R : Realm} {s s' s'' : Store} {w : Set (FrameId × Bytes)}

namespace Realm

theorem Leads.trans (h : R.Leads s s') (h' : R.Leads s' s'') : R.Leads s s'' where
  closed := h'.closed
  frames f hf := (h'.frames f hf).trans (h.frames f hf)
  arrays a ha := (h'.arrays a ha).trans (h.arrays a ha)

theorem Makes.first (h : R.Makes s s'') (hs : s'.Extends w s'') : R.Makes s s' where
  frames f hf hlt := h.frames f hf (Nat.lt_of_lt_of_le hlt hs.frames)
  arrays a ha hlt := h.arrays a ha (Nat.lt_of_lt_of_le hlt hs.arrays)
  functions f hf hlt := h.functions f hf (Nat.lt_of_lt_of_le hlt hs.size_functions)

theorem Makes.second (h : R.Makes s s'') (hs : s.Extends w s') : R.Makes s' s'' where
  frames f hf := h.frames f (Nat.le_trans hs.frames hf)
  arrays a ha := h.arrays a (Nat.le_trans hs.arrays ha)
  functions f hf := h.functions f (Nat.le_trans hs.size_functions hf)

end Realm

/-! ## What can be done to a heap -/

namespace Store.In

variable (h : s.In R)

include h

theorem leads : R.Leads s s := ⟨h, fun _ _ => rfl, fun _ _ => rfl⟩

/-- The same heap but for its frames. -/
theorem withFrames {frames : Array Frame}
    (hparents : ∀ f ∈ R.frames, ∀ g, (Store.frame { s with frames } f).parent = some g → g ∈ R.frames)
    (hbindings : ∀ f ∈ R.frames, ∀ b ∈ (Store.frame { s with frames } f).bindings, b.name ∈ R.names →
      b.value.In R)
    (hother : ∀ f ∉ R.frames, Store.frame { s with frames } f = s.frame f) :
    R.Leads s { s with frames } :=
  ⟨⟨hparents, hbindings, h.arrays, h.fields, h.functions, h.classes, h.natives, h.properties⟩, hother,
    fun _ _ => rfl⟩

theorem pushFrame {parent : Option FrameId} {bindings : List Binding} (hnew : s.frames.size ∈ R.frames)
    (hparent : ∀ g, parent = some g → g ∈ R.frames)
    (hset : ∀ b ∈ bindings, b.name ∈ R.names → b.value.In R) :
    R.Leads s { s with frames := s.frames.push { parent, bindings } } := by
  refine h.withFrames (fun f hf g hg => ?_) (fun f hf b hb hname => ?_) fun f hf => ?_
  · rw [frame_push] at hg
    split_ifs at hg
    · exact hparent g hg
    · exact h.parents f hf g hg
  · rw [frame_push] at hb
    split_ifs at hb
    · exact hset b hb hname
    · exact h.bindings f hf b hb hname
  · rw [frame_push, if_neg]
    rintro rfl
    exact hf hnew

theorem add {f : FrameId} (hf : f ∈ R.frames) {b : Binding} (hb : b.name ∈ R.names → b.value.In R) :
    R.Leads s (s.add f b) := by
  refine h.withFrames (fun g hg up hup => ?_) (fun g hg c hc hname => ?_) fun g hg => ?_
  · refine h.parents g hg up ?_
    rw [frame_change] at hup
    split_ifs at hup <;> exact hup
  · rw [frame_change] at hc
    split_ifs at hc
    · rcases List.mem_append.1 hc with hc | hc
      · exact h.bindings g hg c hc hname
      · rw [List.mem_singleton.1 hc] at hname ⊢
        exact hb hname
    · exact h.bindings g hg c hc hname
  · rw [frame_change, if_neg]
    rintro ⟨rfl, -⟩
    exact hg hf

theorem put {f : FrameId} (hf : f ∈ R.frames) {name : Bytes} {v : Value} (hv : name ∈ R.names → v.In R) :
    R.Leads s (s.put f name v) := by
  refine h.withFrames (fun g hg up hup => ?_) (fun g hg c hc hname => ?_) fun g hg => ?_
  · refine h.parents g hg up ?_
    rw [frame_change] at hup
    split_ifs at hup <;> exact hup
  · rw [frame_change] at hc
    split_ifs at hc
    · obtain ⟨b, hb, rfl⟩ := List.mem_map.1 hc
      by_cases hbname : b.name = name
      · simp only [hbname, beq_self_eq_true, if_true] at hname ⊢
        exact hv hname
      · simp only [beq_iff_eq, hbname, if_false] at hname ⊢
        exact h.bindings g hg b hb hname
    · exact h.bindings g hg c hc hname
  · rw [frame_change, if_neg]
    rintro ⟨rfl, -⟩
    exact hg hf

theorem newArray {elements : Array Value} (hnew : s.arrays.size ∈ R.arrays) (hset : ∀ v ∈ elements, v.In R) :
    R.Leads s (s.newArray elements).2 := by
  have helements : ∀ a, (s.newArray elements).2.elements a =
      if a = s.arrays.size then elements else s.elements a := by
    intro a
    simp only [Store.newArray, Store.elements, Array.getElem?_push]
    split_ifs <;> rfl
  refine ⟨{ h with arrays := fun a ha v hv => ?_ }, fun _ _ => rfl, fun a ha => ?_⟩
  · rw [helements] at hv
    split_ifs at hv
    · exact hset v hv
    · exact h.arrays a ha v hv
  · rw [helements, if_neg]
    rintro rfl
    exact ha hnew

theorem modifyArray {a : ArrayId} (ha : a ∈ R.arrays) {change : Array Value → Array Value}
    (hset : ∀ v ∈ change (s.elements a), v.In R) : R.Leads s (s.modifyArray a change) := by
  have helements : ∀ b, (s.modifyArray a change).elements b =
      if a = b ∧ b < s.arrays.size then change (s.elements b) else s.elements b := by
    intro b
    by_cases hb : b < s.arrays.size
    · simp only [Store.modifyArray, Store.elements, Array.getElem?_modify, hb, and_true]
      split_ifs
      · simp [hb]
      · rfl
    · simp [Store.modifyArray, Store.elements, hb]
  refine ⟨{ h with arrays := fun b hb v hv => ?_ }, fun _ _ => rfl, fun b hb => ?_⟩
  · rw [helements] at hv
    split_ifs at hv with hab
    · rw [← hab.1] at hv
      exact hset v hv
    · exact h.arrays b hb v hv
  · rw [helements, if_neg]
    rintro ⟨rfl, -⟩
    exact hb ha

theorem newFunction {f : Closure} (hf : s.functions.size ∈ R.functions → f.In R) :
    R.Leads s (s.newFunction f).2 := by
  refine ⟨{ h with functions := fun g hg c hc => ?_ }, fun _ _ => rfl, fun _ _ => rfl⟩
  simp only [Store.newFunction, Array.getElem?_push] at hc
  split_ifs at hc with hsize
  · cases hc
    exact hf (hsize ▸ hg)
  · exact h.functions g hg c hc

theorem newClass {c : Class} (hc : c.In R) : R.Leads s (s.newClass c).2 := by
  refine ⟨{ h with classes := fun d hd => ?_ }, fun _ _ => rfl, fun _ _ => rfl⟩
  rcases Array.mem_push.1 hd with hd | rfl
  · exact h.classes d hd
  · exact hc

theorem newInstance (cls : ClassId) : R.Leads s (s.newInstance cls).2 := by
  refine ⟨{ h with fields := fun i hi => ?_ }, fun _ _ => rfl, fun _ _ => rfl⟩
  rcases Array.mem_push.1 hi with hi | rfl
  · exact h.fields i hi
  · simp

theorem putField (i : InstanceId) (name : Bytes) {v : Value} (hv : v.In R) :
    R.Leads s (s.putField i name v) :=
  ⟨{ h with fields := Store.fields_putField h.fields i name hv }, fun _ _ => rfl, fun _ _ => rfl⟩

/-- A method with its receiver. -/
theorem bind {f : Closure} (hf : f.In R) (receiver : InstanceId) (hnew : s.frames.size ∈ R.frames) :
    R.Leads s (s.bind f receiver).2 ∧ (s.bind f receiver).1.In R := by
  refine ⟨h.pushFrame hnew ?_ ?_, hnew, hf.params, hf.body⟩
  · rintro g ⟨⟩
    exact hf.env
  · intro b hb _
    rw [List.mem_singleton.1 hb]
    trivial

/-- A property of an instance; a method gets a frame and becomes a function. -/
theorem property (i : InstanceId) (name : Bytes) (hmakes : R.Makes s (s.property i name).2) :
    R.Leads s (s.property i name).2 ∧ ∀ v, (s.property i name).1 = some v → v.In R := by
  unfold Store.property at hmakes ⊢
  split at hmakes
  · rename_i v hfield
    refine ⟨h.leads, ?_⟩
    rintro w ⟨⟩
    exact Store.fields_field? h.fields hfield
  · split at hmakes
    · exact ⟨h.leads, nofun⟩
    · rename_i f hmethod
      obtain ⟨cls, hcls, hfound⟩ := Option.bind_eq_some_iff.1 hmethod
      obtain ⟨o, -, hclass⟩ := Option.bind_eq_some_iff.1 hcls
      have hf : f.In R := (h.classes cls (Array.mem_of_getElem? hclass)).methods f
        (List.mem_reverse.1 (List.mem_of_find?_eq_some hfound))
      have hframe : s.frames.size ∈ R.frames :=
        hmakes.frames _ (Nat.le_refl _) (by simp [Store.bind, Store.newFrameWith, Store.newFunction])
      obtain ⟨hbound, hin⟩ := h.bind hf i hframe
      refine ⟨hbound.trans (hbound.closed.newFunction fun _ => hin), ?_⟩
      rintro w ⟨⟩
      exact hmakes.functions _ (Nat.le_refl _) (by simp [Store.bind, Store.newFrameWith, Store.newFunction])

theorem clone {v : Value} (hv : v.In R) (hmakes : R.Makes s (s.clone v).2) :
    R.Leads s (s.clone v).2 ∧ (s.clone v).1.In R := by
  cases v with
  | array a =>
    have hnew : s.arrays.size ∈ R.arrays :=
      hmakes.arrays _ (Nat.le_refl _) (by simp [Store.clone, Store.newArray])
    exact ⟨h.newArray hnew (h.arrays a hv), hnew⟩
  | _ => exact ⟨h.leads, hv⟩

/-- Frames of the realm have all their ancestors in it. -/
theorem ancestor : ∀ {d : Nat} {f g : FrameId}, f ∈ R.frames → s.ancestor? f d = some g → g ∈ R.frames
  | 0, f, g, hf, hg => by
    obtain rfl : f = g := Option.some.inj hg
    exact hf
  | d + 1, f, g, hf, hg => by
    obtain ⟨up, hup, hrest⟩ := Option.bind_eq_some_iff.1 hg
    exact ancestor (h.parents f hf up hup) hrest

theorem owner {name : Bytes} : ∀ {fuel : Nat} {f g : FrameId}, f ∈ R.frames →
    s.owner? name fuel f = some g → g ∈ R.frames
  | 0, f, g, hf, hg => by
    unfold Store.owner? at hg
    split_ifs at hg
    obtain rfl : f = g := Option.some.inj hg
    exact hf
  | fuel + 1, f, g, hf, hg => by
    unfold Store.owner? at hg
    split_ifs at hg
    · obtain rfl : f = g := Option.some.inj hg
      exact hf
    · obtain ⟨up, hup, hrest⟩ := Option.bind_eq_some_iff.1 hg
      exact owner (h.parents f hf up hup) hrest

/-- What a frame of the realm binds to a name of the realm. -/
theorem lookup {f : FrameId} (hf : f ∈ R.frames) {name : Bytes} (hname : name ∈ R.names) {v : Value}
    (hv : (s.frame f).lookup? name = some v) : v.In R := by
  obtain ⟨b, hb, rfl⟩ := Option.map_eq_some_iff.1 hv
  have hbname : b.name = name := by simpa using List.find?_some hb
  exact h.bindings f hf b (List.mem_of_find?_eq_some hb) (hbname ▸ hname)

theorem target {f g : FrameId} (hf : f ∈ R.frames) {d : Int} {name : Bytes} {v : Value}
    (htarget : s.target f d name = .ok (g, v)) : g ∈ R.frames ∧ (name ∈ R.names → v.In R) := by
  unfold Store.target at htarget
  split at htarget
  · cases htarget
  · rename_i k hancestor
    split at htarget
    · rename_i u hlookup
      cases htarget
      have hk := h.ancestor hf hancestor
      exact ⟨hk, fun hname => h.lookup hk hname hlookup⟩
    · cases htarget

end Store.In

end

end Treewalk
