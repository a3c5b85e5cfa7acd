import Treewalk.Proofs.Store.Growth

/-!
# Calls on frames

Hosts and runs make frames and call on them: they define and register names, and they assign to a name, either to
the one found along the chain of parents or to the one at a given distance. A frame is taken as a map from names to
bindings that keeps the order in which its names came.

**Chains** (`Store.Nearest`). A name that is looked up stands for the nearest frame up the chain that binds it.
Parents are older than their children (`Store.Aged`), so the search gets to the end of every chain.

**Calls** (`FrameCall.Effect`). A call puts one binding into one frame (`Store.Puts`), or makes a frame, or is
refused. The relation says when it does which, and what calls keep is derived from it.

Main result: every call has its effect (`FrameCall.effect`).
-/

namespace Treewalk

/-! ## Frames as maps -/

namespace Frame

variable {f : Frame} {name : Bytes} {b : Binding}

theorem mem_names_iff : name ∈ f.names ↔ (f.find? name).isSome = true := by
  simp [names, find?, List.find?_isSome]

theorem find?_eq_none_iff : f.find? name = none ↔ name ∉ f.names := by
  rw [mem_names_iff, Bool.not_eq_true, Option.isSome_eq_false_iff, Option.isNone_iff_eq_none]

theorem name_of_find? (h : f.find? name = some b) : b.name = name := by
  simpa using List.find?_some h

/-- A new name is bound as it was added, and all others as before. -/
theorem find?_add_new (h : b.name ∉ f.names) (other : Bytes) :
    (f.add b).find? other = if other = b.name then some b else f.find? other := by
  rw [find?_add_or]
  by_cases hname : other = b.name
  · subst hname
    simp [find?_eq_none_iff.2 h]
  · simp [hname, Ne.symm hname]

/-- A name that is written keeps its protection, and all others are bound as before. -/
theorem find?_put_bound (h : f.find? name = some b) (v : Value) (other : Bytes) :
    (f.put name v).find? other = if other = name then some { b with value := v } else f.find? other := by
  split_ifs with hname
  · subst hname
    simp [find?_put_map, h, name_of_find? h]
  · exact find?_put hname v

end Frame

namespace Store

variable {s s' : Store} {f g up : FrameId} {name : Bytes} {v : Value} {b : Binding}

theorem binds_iff : s.binds f name = true ↔ name ∈ (s.frame f).names := Frame.mem_names_iff.symm

theorem mem_names_of_find? (h : (s.frame f).find? name = some b) : name ∈ (s.frame f).names :=
  Frame.mem_names_iff.2 (Option.isSome_iff_exists.2 ⟨b, h⟩)

theorem lt_size_of_find? (h : (s.frame f).find? name = some b) : f < s.frames.size := by
  have hv : (s.frame f).lookup? name = some b.value := by rw [Frame.lookup?, h]; rfl
  exact lt_size_of_lookup? hv

/-- One binding is put into one frame: in place of the one of its name, or behind the others if there is none. -/
structure Puts (s : Store) (f : FrameId) (b : Binding) (s' : Store) : Prop where
  find? : ∀ g name, (s'.frame g).find? name = if g = f ∧ name = b.name then some b else (s.frame g).find? name
  names : ∀ g, (s'.frame g).names =
    if g = f ∧ b.name ∉ (s.frame g).names then (s.frame g).names ++ [b.name] else (s.frame g).names
  parent : ∀ g, (s'.frame g).parent = (s.frame g).parent
  size : s'.frames.size = s.frames.size
  objects : { s' with frames := s.frames } = s

theorem puts_add (hf : f < s.frames.size) (hfree : b.name ∉ (s.frame f).names) : s.Puts f b (s.add f b) where
  find? g name := by
    rw [Store.add, frame_change]
    by_cases hg : g = f
    · subst hg
      simp [hf, Frame.find?_add_new hfree]
    · simp [hg, Ne.symm hg]
  names g := by
    rw [Store.add, frame_change]
    by_cases hg : g = f
    · subst hg
      simp [hf, hfree, Frame.names_add]
    · simp [hg, Ne.symm hg]
  parent g := by
    rw [Store.add, frame_change]
    split_ifs <;> rfl
  size := by simp [Store.add]
  objects := rfl

theorem puts_put (hb : (s.frame f).find? name = some b) (v : Value) :
    s.Puts f { b with value := v } (s.put f name v) where
  find? g other := by
    obtain rfl := Frame.name_of_find? hb
    have hf := lt_size_of_find? hb
    rw [Store.put, frame_change]
    by_cases hg : g = f
    · subst hg
      simp [hf, Frame.find?_put_bound hb]
    · simp [hg, Ne.symm hg]
  names g := by
    obtain rfl := Frame.name_of_find? hb
    rw [if_neg fun h => h.2 (h.1 ▸ mem_names_of_find? hb), Store.put, frame_change]
    split_ifs
    · exact Frame.names_put _ _ _
    · rfl
  parent g := by
    rw [Store.put, frame_change]
    split_ifs <;> rfl
  size := by simp [Store.put]
  objects := rfl

/-! ## Chains -/

/-- Parents are older than their children. -/
def Aged (s : Store) : Prop := ∀ f up, (s.frame f).parent = some up → up < f

/-- The nearest frame up the chain that binds a name: no frame before it does. -/
def Nearest (s : Store) (f : FrameId) (name : Bytes) (g : FrameId) : Prop :=
  ∃ n, s.ancestor? f n = some g ∧ name ∈ (s.frame g).names ∧
    ∀ m < n, ∀ h, s.ancestor? f m = some h → name ∉ (s.frame h).names

theorem nearest_here (h : name ∈ (s.frame f).names) : s.Nearest f name g ↔ f = g := by
  constructor
  · rintro ⟨n, hg, -, hbefore⟩
    cases n with
    | zero => exact Option.some.inj hg
    | succ n => exact absurd h (hbefore 0 n.succ_pos f rfl)
  · rintro rfl
    exact ⟨0, rfl, h, fun m hm => absurd hm m.not_lt_zero⟩

theorem nearest_up (h : name ∉ (s.frame f).names) :
    s.Nearest f name g ↔ ∃ up, (s.frame f).parent = some up ∧ s.Nearest up name g := by
  constructor
  · rintro ⟨n, hg, hbound, hbefore⟩
    cases n with
    | zero =>
      obtain rfl : f = g := Option.some.inj hg
      exact absurd hbound h
    | succ n =>
      obtain ⟨up, hup, hg⟩ := Option.bind_eq_some_iff.1 hg
      refine ⟨up, hup, n, hg, hbound, fun m hm k hk => hbefore (m + 1) (Nat.succ_lt_succ hm) k ?_⟩
      exact Option.bind_eq_some_iff.2 ⟨up, hup, hk⟩
  · rintro ⟨up, hup, n, hg, hbound, hbefore⟩
    refine ⟨n + 1, Option.bind_eq_some_iff.2 ⟨up, hup, hg⟩, hbound, fun m hm k hk => ?_⟩
    cases m with
    | zero =>
      obtain rfl : f = k := Option.some.inj hk
      exact h
    | succ m =>
      obtain ⟨up', hup', hk⟩ := Option.bind_eq_some_iff.1 hk
      obtain rfl : up = up' := Option.some.inj (hup.symm.trans hup')
      exact hbefore m (Nat.lt_of_succ_lt_succ hm) k hk

/-- What the search finds is the nearest frame. -/
theorem nearest_of_owner? {fuel : Nat} : ∀ {f : FrameId}, s.owner? name fuel f = some g → s.Nearest f name g := by
  induction fuel with
  | zero =>
    intro f h
    rw [owner?] at h
    split_ifs at h with hbinds
    exact (nearest_here (binds_iff.1 hbinds)).2 (Option.some.inj h)
  | succ fuel ih =>
    intro f h
    rw [owner?] at h
    split_ifs at h with hbinds
    · exact (nearest_here (binds_iff.1 hbinds)).2 (Option.some.inj h)
    · obtain ⟨up, hup, h⟩ := Option.bind_eq_some_iff.1 h
      exact (nearest_up (mt binds_iff.2 hbinds)).2 ⟨up, hup, ih h⟩

/-- The search finds the nearest frame if there is one: no chain is longer than the name of its first frame. -/
theorem Aged.owner?_of_nearest (hs : s.Aged) {fuel : Nat} :
    ∀ {f : FrameId}, f ≤ fuel → s.Nearest f name g → s.owner? name fuel f = some g := by
  induction fuel with
  | zero =>
    intro f hf h
    rw [owner?]
    split_ifs with hbinds
    · rw [(nearest_here (binds_iff.1 hbinds)).1 h]
    · obtain ⟨up, hup, -⟩ := (nearest_up (mt binds_iff.2 hbinds)).1 h
      exact absurd (Nat.lt_of_lt_of_le (hs f up hup) hf) (Nat.not_lt_zero up)
  | succ fuel ih =>
    intro f hf h
    rw [owner?]
    split_ifs with hbinds
    · rw [(nearest_here (binds_iff.1 hbinds)).1 h]
    · obtain ⟨up, hup, h⟩ := (nearest_up (mt binds_iff.2 hbinds)).1 h
      have hle : up ≤ fuel := Nat.le_of_lt_succ (Nat.lt_of_lt_of_le (hs f up hup) hf)
      exact Option.bind_eq_some_iff.2 ⟨up, hup, ih hle h⟩

theorem owner?_eq_none (h : ∀ g, ¬ s.Nearest f name g) : s.owner? name f f = none :=
  Option.eq_none_iff_forall_ne_some.2 fun g hg => h g (nearest_of_owner? hg)

theorem Nearest.find? (h : s.Nearest f name g) : ∃ b, (s.frame g).find? name = some b := by
  obtain ⟨-, -, hbound, -⟩ := h
  exact Option.isSome_iff_exists.1 (Frame.mem_names_iff.1 hbound)

/-- A look-up gives the value in the nearest frame. -/
theorem Aged.get_nearest (hs : s.Aged) (h : s.Nearest f name g) (hb : (s.frame g).find? name = some b) :
    s.get f name = .ok b.value := by
  have howner := hs.owner?_of_nearest (Nat.le_refl f) h
  simp [get, howner, Frame.lookup?, hb]

theorem get_unknown (h : ∀ g, ¬ s.Nearest f name g) : s.get f name = .error (.undefined name) := by
  simp [get, owner?_eq_none h]

end Store

/-! ## Calls -/

/-- A call that may change frames. -/
inductive FrameCall where
  /-- Makes a frame. -/
  | create (parent : Option FrameId)
  | define (f : FrameId) (name : Bytes) (v : Value)
  /-- A definition for the host, of a function or of another value. -/
  | register (f : FrameId) (name : Bytes) (v : Value) (isProtected : Bool)
  /-- An assignment to a name along the chain. -/
  | mutate (f : FrameId) (name : Bytes) (v : Value)
  /-- An assignment to a name at a distance. -/
  | putAt (f : FrameId) (distance : Int) (name : Bytes) (v : Value)

namespace FrameCall

/-- What a call comes to: a refusal comes without a store. -/
def perform (s : Store) : FrameCall → Except (BindError ⊕ Fault) Store
  | create parent => .ok (s.newFrame parent).2
  | define f name v => (s.define f name v false).mapError .inl
  | register f name v isProtected => (s.register f name v isProtected).mapError .inl
  | mutate f name v => (s.mutate f name v).mapError .inl
  | putAt f distance name v => (s.putAt f distance name v).mapError .inr

/-- The store that a call leaves. -/
def after (s : Store) (c : FrameCall) : Store := (c.perform s).toOption.getD s

/-- The frame that a call is made on, or under, exists. -/
def On (s : Store) : FrameCall → Prop
  | create parent => ∀ f ∈ parent, f < s.frames.size
  | define f _ _ | register f _ _ _ | mutate f _ _ | putAt f _ _ _ => f < s.frames.size

/-- What a call does to the frames. -/
inductive Effect (s : Store) : FrameCall → Except (BindError ⊕ Fault) Store → Prop
  | created {parent} : Effect s (create parent) (.ok { s with frames := s.frames.push { parent } })
  | defined {f name v s'} (hfree : name ∉ (s.frame f).names) (hputs : s.Puts f { name, value := v } s') :
    Effect s (define f name v) (.ok s')
  | definedTwice {f name v} (hbound : name ∈ (s.frame f).names) :
    Effect s (define f name v) (.error (.inl (.alreadyDefined name)))
  | registered {f name v isProtected s'} (hfree : name ∉ (s.frame f).names)
    (hputs : s.Puts f { name, value := v, isProtected } s') :
    Effect s (register f name v isProtected) (.ok s')
  | registeredTwice {f name v isProtected} (hbound : name ∈ (s.frame f).names) :
    Effect s (register f name v isProtected) (.error (.inl (.registering name (.alreadyDefined name))))
  | mutated {f name v g b s'} (hnearest : s.Nearest f name g) (hfind : (s.frame g).find? name = some b)
    (hopen : b.isProtected = false) (hputs : s.Puts g { b with value := v } s') :
    Effect s (mutate f name v) (.ok s')
  /-- A protected binding stops the search: no frame behind it is asked. -/
  | shielded {f name v g b} (hnearest : s.Nearest f name g) (hfind : (s.frame g).find? name = some b)
    (hprotected : b.isProtected = true) : Effect s (mutate f name v) (.error (.inl (.isProtected name)))
  | unknown {f name v} (hnone : ∀ g, ¬ s.Nearest f name g) :
    Effect s (mutate f name v) (.error (.inl (.undefined name)))
  | written {f distance name v g b s'} (hancestor : s.ancestor? f distance.toNat = some g)
    (hfind : (s.frame g).find? name = some b) (hputs : s.Puts g { b with value := v } s') :
    Effect s (putAt f distance name v) (.ok s')
  | tooFar {f distance name v} (hnone : s.ancestor? f distance.toNat = none) :
    Effect s (putAt f distance name v) (.error (.inr (.shortChain distance)))
  | missed {f distance name v g} (hancestor : s.ancestor? f distance.toNat = some g)
    (hfree : name ∉ (s.frame g).names) :
    Effect s (putAt f distance name v) (.error (.inr (.unbound name distance)))

end FrameCall

namespace Store

variable {s s' : Store} {f g : FrameId} {name : Bytes} {b : Binding}

theorem define_free (h : name ∉ (s.frame f).names) (v : Value) (isProtected : Bool) :
    s.define f name v isProtected = .ok (s.add f { name, value := v, isProtected }) :=
  if_neg (mt binds_iff.1 h)

theorem define_bound (h : name ∈ (s.frame f).names) (v : Value) (isProtected : Bool) :
    s.define f name v isProtected = .error (.alreadyDefined name) := if_pos (binds_iff.2 h)

theorem Aged.assignee_nearest (hs : s.Aged) (h : s.Nearest f name g) (hb : (s.frame g).find? name = some b) :
    s.assignee f name = if b.isProtected then .error (.isProtected name) else .ok g := by
  have howner := hs.owner?_of_nearest (Nat.le_refl f) h
  simp [assignee, howner, hb]

theorem assignee_unknown (h : ∀ g, ¬ s.Nearest f name g) : s.assignee f name = .error (.undefined name) := by
  simp [assignee, owner?_eq_none h]

end Store

namespace FrameCall

variable {s s' : Store} {c : FrameCall}

theorem effect_mutate (hs : s.Aged) (f : FrameId) (name : Bytes) (v : Value) :
    (mutate f name v).Effect s ((mutate f name v).perform s) := by
  simp only [perform, Store.mutate]
  by_cases hknown : ∃ g, s.Nearest f name g
  · obtain ⟨g, hg⟩ := hknown
    obtain ⟨b, hb⟩ := hg.find?
    rw [hs.assignee_nearest hg hb]
    cases hprotected : b.isProtected with
    | true => exact .shielded hg hb hprotected
    | false => exact .mutated hg hb hprotected (Store.puts_put hb v)
  · have hnone := not_exists.1 hknown
    rw [Store.assignee_unknown hnone]
    exact .unknown hnone

theorem effect_putAt (f : FrameId) (distance : Int) (name : Bytes) (v : Value) :
    (putAt f distance name v).Effect s ((putAt f distance name v).perform s) := by
  simp only [perform, Store.putAt, Store.target]
  cases hancestor : s.ancestor? f distance.toNat with
  | none => exact .tooFar hancestor
  | some g =>
    cases hfind : (s.frame g).find? name with
    | none =>
      simp only [Frame.lookup?, hfind]
      exact .missed hancestor (Frame.find?_eq_none_iff.1 hfind)
    | some b =>
      simp only [Frame.lookup?, hfind]
      exact .written hancestor hfind (Store.puts_put hfind v)

/-- Every call has its effect. -/
theorem effect (hs : s.Aged) (hc : c.On s) : c.Effect s (c.perform s) := by
  cases c with
  | create parent => exact .created
  | define f name v =>
    rw [perform]
    by_cases hbound : name ∈ (s.frame f).names
    · rw [Store.define_bound hbound]
      exact .definedTwice hbound
    · rw [Store.define_free hbound]
      exact .defined hbound (Store.puts_add hc hbound)
  | register f name v isProtected =>
    rw [perform, Store.register]
    by_cases hbound : name ∈ (s.frame f).names
    · rw [Store.define_bound hbound]
      exact .registeredTwice hbound
    · rw [Store.define_free hbound]
      exact .registered hbound (Store.puts_add hc hbound)
  | mutate f name v => exact effect_mutate hs f name v
  | putAt f distance name v => exact effect_putAt f distance name v

end FrameCall

end Treewalk
