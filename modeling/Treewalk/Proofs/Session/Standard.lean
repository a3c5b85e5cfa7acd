import Treewalk.Proofs.Machine.Realm
import Treewalk.Proofs.Session.Protection

/-!
# What the standard interpreter holds

The sources of the library declare one function each. Running such a source makes the function in the frame of
the globals and binds its name, and does nothing else (`Interpreter.evaluate_declaration`). So the standard
interpreter holds what the host gave it, which refers to no part of a program (`Store.IsOriginal`), and the
functions of the library (`Interpreter.standard_eq`).
-/

namespace Treewalk

/-- The function that a declaration in the outermost frame makes. -/
def Function.closure (d : Function) : Closure :=
  { name := d.name.lexeme, params := d.params, body := d.body, env := Store.globals }

/-- A heap after the declaration of a function in the outermost frame. -/
def Store.declare (s : Store) (d : Function) : Store :=
  (s.newFunction d.closure).2.add Store.globals { name := d.name.lexeme, value := .function s.functions.size }

theorem Store.find?_declare {s : Store} (hsize : Store.globals < s.frames.size) (d : Function) (name : Bytes) :
    ((s.declare d).frame globals).find? name = ((s.frame globals).find? name).or
      (if d.name.lexeme == name then some { name := d.name.lexeme, value := .function s.functions.size }
        else none) :=
  find?_add (s := (s.newFunction d.closure).2) hsize _ name

/-- A declaration of a new function in the outermost frame makes it and binds its name. -/
theorem Machine.exec_declaration {m : Machine} {d : Function} (henv : m.env = Store.globals)
    (hfresh : m.store.binds Store.globals d.name.lexeme = false) :
    m.exec (.function d) = { m with store := m.store.declare d, control := .complete .normal } := by
  unfold exec
  dsimp only
  unfold define
  rw [if_neg]
  · simp only [henv]
    rfl
  · rw [henv]
    exact Bool.eq_false_iff.1 hfresh

namespace Interpreter

variable {i : Interpreter}

/-! ## Sources that declare functions -/

/-- A source that declares a new function and nothing else makes it and binds its name. -/
theorem evaluate_declaration {source : Bytes} {d : Function} (haccepts : accepts i.nextId source = true)
    (hstmts : (Parsed.ofSource i.nextId source).stmts = [.function d])
    (hfresh : i.store.binds Store.globals d.name.lexeme = false) :
    (i.evaluate source).2.2 = { (i.compile source).2 with store := i.store.declare d } := by
  have hcompiled := compile_of_accepts haccepts
  have hstore : (i.compile source).2.store = i.store := by
    rw [(compile_eq_ok hcompiled).2.2.2]
  rw [hstmts] at hcompiled
  generalize hj : (i.compile source).2 = j at hstore
  have hexec := Machine.exec_declaration
    (m := { j.machine (.exec (.function d)) [.program []] with store := i.store }) rfl hfresh
  have hsteps : (j.machine (.complete .normal) [.program [.function d]]).steps 3 =
      { j.machine (.complete .normal) [] with store := i.store.declare d } := by
    show ({ j.machine (.exec (.function d)) [.program []] with store := j.store }.exec (.function d)).steps 1 = _
    rw [hstore, hexec]
    rfl
  have hrun := Machine.run_of_steps (n := 3) (m := j.machine (.complete .normal) [.program [.function d]])
    (by rw [hsteps]; rfl)
  unfold evaluate
  dsimp only
  rw [hcompiled, hj]
  dsimp only
  unfold execute
  dsimp only
  rw [hrun, hsteps]
  rfl

/-- The function that a program of one declaration declares. -/
def declaration? : List Stmt → Option Function
  | [.function d] => some d
  | _ => none

/-- The functions that sources declare, if each declares one. -/
def declarations? : NodeId → List Bytes → Option (List Function)
  | _, [] => some []
  | n, source :: rest => do
    let d ← declaration? (Parsed.ofSource n source).stmts
    let ds ← declarations? (Parsed.ofSource n source).nextId rest
    return d :: ds

theorem declaration?_eq_some {stmts : List Stmt} {d : Function} (h : declaration? stmts = some d) :
    stmts = [.function d] := by
  unfold declaration? at h
  split at h <;> cases h
  rfl

/-- Compiling does not look at the heap. -/
theorem compile_withStore (i : Interpreter) (store : Store) (source : Bytes) :
    ({ i with store }.compile source).2 = { (i.compile source).2 with store } := by
  unfold compile
  dsimp only
  split
  · rfl
  · split <;> rfl

theorem compileAll_withStore (sources : List Bytes) (store : Store) : ∀ i : Interpreter,
    sources.foldl (fun i s => (i.compile s).2) { i with store } =
      { sources.foldl (fun i s => (i.compile s).2) i with store } := by
  induction sources with
  | nil => exact fun _ => rfl
  | cons source rest ih =>
    intro i
    rw [List.foldl_cons, compile_withStore, ih]
    rfl

/-- Sources that declare one new function each are compiled and add these functions in order. -/
theorem evaluateAll_declarations {sources : List Bytes} : ∀ {i : Interpreter} {ds : List Function},
    acceptsAll i.nextId sources = true → declarations? i.nextId sources = some ds →
    Store.globals < i.store.frames.size →
    (∀ d ∈ ds, i.store.binds Store.globals d.name.lexeme = false) → (ds.map (·.name.lexeme)).Nodup →
    sources.foldl (fun i s => (i.evaluate s).2.2) i =
      { sources.foldl (fun i s => (i.compile s).2) i with store := ds.foldl Store.declare i.store } := by
  induction sources with
  | nil =>
    intro i ds _ hds _ _ _
    cases hds
    rfl
  | cons source rest ih =>
    intro i ds haccepts hds hsize hfresh hnodup
    simp only [acceptsAll, Bool.and_eq_true] at haccepts
    simp only [declarations?, Option.bind_eq_bind, Option.bind_eq_some_iff, Option.pure_def,
      Option.some.injEq] at hds
    obtain ⟨d, hd, ds, hds, rfl⟩ := hds
    rw [List.map_cons, List.nodup_cons] at hnodup
    have hfirst := evaluate_declaration haccepts.1 (declaration?_eq_some hd) (hfresh d List.mem_cons_self)
    have hnext := evaluate_nextId haccepts.1
    rw [List.foldl_cons, List.foldl_cons, List.foldl_cons]
    rw [hfirst] at hnext ⊢
    rw [ih (by rw [hnext]; exact haccepts.2) (by rw [hnext]; exact hds) ?_ (fun e he => ?_) hnodup.2,
      compileAll_withStore]
    · simpa [Store.declare, Store.newFunction, Store.add] using hsize
    · have hne : d.name.lexeme ≠ e.name.lexeme := fun heq =>
        hnodup.1 (heq ▸ List.mem_map.2 ⟨e, he, rfl⟩)
      have hkept := hfresh e (List.mem_cons_of_mem _ he)
      rw [Store.binds, Store.find?_declare hsize]
      simpa [Store.binds, hne] using hkept

/-- What such a source is. -/
theorem mem_declarations? {sources : List Bytes} {d : Function} : ∀ {n : NodeId} {ds : List Function},
    acceptsAll n sources = true → declarations? n sources = some ds → d ∈ ds →
      ∃ k, ∃ source ∈ sources, accepts k source = true ∧ (Parsed.ofSource k source).stmts = [.function d] := by
  induction sources with
  | nil =>
    intro n ds _ hds hd
    cases hds
    cases hd
  | cons source rest ih =>
    intro n ds haccepts hds hd
    simp only [acceptsAll, Bool.and_eq_true] at haccepts
    simp only [declarations?, Option.bind_eq_bind, Option.bind_eq_some_iff, Option.pure_def,
      Option.some.injEq] at hds
    obtain ⟨first, hfirst, ds, hds, rfl⟩ := hds
    rcases List.mem_cons.1 hd with rfl | hd
    · exact ⟨n, source, List.mem_cons_self, haccepts.1, declaration?_eq_some hfirst⟩
    · obtain ⟨k, other, hother, hparts⟩ := ih haccepts.2 hds hd
      exact ⟨k, other, List.mem_cons_of_mem _ hother, hparts⟩

/-! ## The library -/

/-- The functions of the library. -/
def library : List Function := (declarations? 0 (prelude.map text)).getD []

theorem library_names : library.map (·.name.lexeme) = [text "map", text "filter", text "reduce"] := by
  decide +kernel

theorem declarations_prelude : declarations? 0 (prelude.map text) = some library := by
  have hsome : (declarations? 0 (prelude.map text)).isSome = true := by decide +kernel
  obtain ⟨ds, hds⟩ := Option.isSome_iff_exists.1 hsome
  rw [library, hds]
  rfl

/-- The interpreter that has compiled the library and holds its functions beside what the host gave it. -/
def assembled : Interpreter :=
  { prelude.foldl (fun i source => (i.compile (text source)).2) furnished.registerMath with
    store := library.foldl Store.declare furnished.registerMath.store }

theorem standard_eq : standard = assembled := by
  have hnatives : bare.HostChange furnished.registerMath :=
    (HostChange.registerNatives natives bare).trans (.registerMath _)
  have hnext : furnished.registerMath.nextId = 0 := hnatives.nextId
  have hfresh : ∀ name ∈ library.map (·.name.lexeme),
      furnished.registerMath.store.binds Store.globals name = false := by
    rw [library_names]
    decide +kernel
  have hall := evaluateAll_declarations (i := furnished.registerMath) (by rw [hnext]; exact prelude_accepted)
    (by rw [hnext]; exact declarations_prelude) (by decide +kernel)
    (fun d hd => hfresh _ (List.mem_map.2 ⟨d, hd, rfl⟩)) (by rw [library_names]; decide +kernel)
  rw [List.foldl_map, List.foldl_map] at hall
  exact hall

theorem standard_store : standard.store = library.foldl Store.declare furnished.registerMath.store := by
  rw [standard_eq, assembled]

theorem functions_declareAll {ds : List Function} : ∀ s : Store,
    (ds.foldl Store.declare s).functions.size = s.functions.size + ds.length := by
  induction ds with
  | nil => exact fun _ => rfl
  | cons d ds ih =>
    intro s
    rw [List.foldl_cons, ih, List.length_cons]
    simp only [Store.declare, Store.add, Store.newFunction, Array.size_push]
    omega

/-! ## What the host gives -/

/-! ## Natives -/

/-- The native that is first bound to a name. -/
theorem mem_protections {k : Nat} {n : String × Nat × NativeOp} (h : natives[k]? = some n) :
    (text n.1, .native k) ∈ protections :=
  List.mem_append_left _ (List.mem_map.2 ⟨(n, k), List.mk_mem_zipIdx_iff_getElem?.2 h, rfl⟩)

/-- Registering a name makes no native. -/
theorem register_natives (i : Interpreter) (name : Bytes) (v : Value) (isProtected : Bool) :
    (i.register name v isProtected).store.natives = i.store.natives := by
  unfold register Store.register Store.define
  split <;> rename_i hstore <;> split at hstore <;> cases hstore <;> rfl

theorem registerNatives_natives (list : List (String × Nat × NativeOp)) : ∀ i : Interpreter,
    (list.foldl (fun i n => i.registerNative n.1 n.2.1 n.2.2 true) i).store.natives.toList =
      i.store.natives.toList ++ list.map fun n => { name := text n.1, arity := n.2.1, op := n.2.2 } := by
  induction list with
  | nil => exact fun i => (List.append_nil _).symm
  | cons n list ih =>
    intro i
    have hone : (i.registerNative n.1 n.2.1 n.2.2 true).store.natives =
        i.store.natives.push { name := text n.1, arity := n.2.1, op := n.2.2 } :=
      register_natives { i with store := (i.store.newNative _).2 } _ _ _
    rw [List.foldl_cons, ih, hone]
    simp

theorem registerMath_natives (i : Interpreter) :
    i.store.natives.toList <+: i.registerMath.store.natives.toList := by
  have hmath : i.registerMath.store.natives = ((i.store.natives.push { name := text "sqrt", arity := 1, op := .sqrt }).push
      { name := text "floor", arity := 1, op := .floor }).push { name := text "abs", arity := 1, op := .abs } :=
    register_natives { i with store := _ } _ _ _
  rw [hmath]
  simp only [Array.toList_push, List.append_assoc]
  exact List.prefix_append _ _

theorem natives_declareAll {ds : List Function} : ∀ s : Store,
    (ds.foldl Store.declare s).natives = s.natives := by
  induction ds with
  | nil => exact fun _ => rfl
  | cons d ds ih => exact fun s => ih (s.declare d)

/-- The standard interpreter holds its natives in order. -/
theorem standard_native {k : Nat} {n : String × Nat × NativeOp} (h : natives[k]? = some n) :
    standard.store.natives[k]? = some { name := text n.1, arity := n.2.1, op := n.2.2 } := by
  have hfurnished : furnished.store.natives.toList[k]? = some { name := text n.1, arity := n.2.1, op := n.2.2 } := by
    rw [furnished, registerNatives_natives]
    simp [bare, Store.newFrame, h]
  rw [standard_store, natives_declareAll, ← Array.getElem?_toList]
  obtain ⟨more, hmore⟩ := registerMath_natives furnished
  rw [← hmore, List.getElem?_append_left (List.getElem?_eq_some_iff.1 hfurnished).1, hfurnished]

end Interpreter

/-- A value that refers to no array and no function of a program. -/
def Value.isOriginal : Value → Bool
  | .array _ | .function _ => false
  | _ => true

/-- A native of the language. -/
def NativeOp.isOriginal : NativeOp → Bool
  | .script _ | .fails _ => false
  | _ => true

/-- A heap in which no program has run: one frame, natives and objects of the host. -/
structure Store.IsOriginal (s : Store) : Prop where
  frames : s.frames.size = 1
  parent : (s.frame globals).parent = none
  bindings : ∀ b ∈ (s.frame globals).bindings, b.value.isOriginal = true
  arrays : s.arrays.size = 0
  instances : s.instances.size = 0
  functions : s.functions.size = 0
  classes : s.classes.size = 0
  natives : ∀ n ∈ s.natives, n.op.isOriginal = true
  properties : ∀ h ∈ s.hosts, ∀ p ∈ h.properties, p.2.isOriginal = true

theorem Interpreter.furnished_isOriginal : furnished.registerMath.store.IsOriginal := by
  constructor <;> decide +kernel

/-! ## Its heap is closed -/

section

variable {R : Realm} {s : Store}

theorem Value.within_of_isOriginal {v : Value} (h : v.isOriginal = true) : v.In R := by
  cases v with
  | array | function => cases h
  | _ => trivial

/-- A heap in which no program has run is closed under every realm. -/
theorem Store.IsOriginal.within (h : s.IsOriginal) : s.In R := by
  have hframe : ∀ f, f ≠ globals → s.frame f = { parent := none } := by
    intro f hf
    have hsize : s.frames.size ≤ f := by
      rw [h.frames]
      exact Nat.pos_of_ne_zero hf
    rw [frame, Array.getElem?_eq_none hsize]
    rfl
  constructor
  · intro f _ g hg
    by_cases hf : f = globals
    · rw [hf, h.parent] at hg
      cases hg
    · rw [hframe f hf] at hg
      cases hg
  · intro f _ b hb _
    by_cases hf : f = globals
    · rw [hf] at hb
      exact Value.within_of_isOriginal (h.bindings b hb)
    · rw [hframe f hf] at hb
      cases hb
  · intro a _ v hv
    rw [elements, Array.getElem?_eq_none (by rw [h.arrays]; exact Nat.zero_le a)] at hv
    exact absurd hv (Array.not_mem_empty v)
  · intro i hi
    rw [Array.eq_empty_of_size_eq_zero h.instances] at hi
    exact absurd hi (Array.not_mem_empty i)
  · intro f _ c hc
    rw [Array.getElem?_eq_none (by rw [h.functions]; exact Nat.zero_le f)] at hc
    cases hc
  · intro c hc
    rw [Array.eq_empty_of_size_eq_zero h.classes] at hc
    exact absurd hc (Array.not_mem_empty c)
  · intro n hn
    have hop := h.natives n hn
    cases hn' : n.op with
    | script | fails =>
      rw [hn'] at hop
      cases hop
    | _ => trivial
  · intro o ho p hp
    exact Value.within_of_isOriginal (h.properties o ho p hp)

/-- A function declared in the outermost frame, that the realm may lack with its name. -/
theorem Store.In.declare (h : s.In R) {d : Function} (hclosure : s.functions.size ∈ R.functions → d.closure.In R)
    (hvalue : d.name.lexeme ∈ R.names → s.functions.size ∈ R.functions) : (s.declare d).In R :=
  ((h.newFunction hclosure).closed.add R.globals_mem hvalue).closed

/-- Functions declared one after the other: the realm has them all, or it lacks them all. -/
theorem Store.In.declareAll {ds : List Function} : ∀ {s : Store}, s.In R →
    ((∀ d ∈ ds, d.closure.In R) ∧ R.functions = Set.univ ∨
      (∀ d ∈ ds, d.name.lexeme ∉ R.names) ∧ ∀ f < s.functions.size + ds.length, f ∉ R.functions) →
    (ds.foldl Store.declare s).In R := by
  induction ds with
  | nil => exact fun h _ => h
  | cons d ds ih =>
    intro s h hds
    rcases hds with ⟨hall, huniv⟩ | ⟨hnames, hfunctions⟩
    · refine ih (h.declare (fun _ => hall d List.mem_cons_self) fun _ => huniv ▸ trivial) (.inl ⟨?_, huniv⟩)
      exact fun e he => hall e (List.mem_cons_of_mem _ he)
    · have hsize : (s.declare d).functions.size = s.functions.size + 1 := by
        simp [Store.declare, Store.newFunction, Store.add]
      refine ih (h.declare (fun hmem => ?_) fun hname => ?_) (.inr ⟨?_, fun f hf => ?_⟩)
      · exact absurd hmem (hfunctions _ (by simp))
      · exact absurd hname (hnames d List.mem_cons_self)
      · exact fun e he => hnames e (List.mem_cons_of_mem _ he)
      · refine hfunctions f ?_
        rw [hsize] at hf
        rw [List.length_cons]
        omega

end

end Treewalk
