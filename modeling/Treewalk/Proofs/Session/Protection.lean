import Treewalk.Proofs.Machine.Protection
import Treewalk.Proofs.Scope.Uses

/-!
# Programs never rebind what the host protects

A session goes from phase to phase (`Course`): the host changes what is its own and registers names,
sources are compiled, accepted ones run, values are called. A source that is refused changes the table of
distances and the next identity, so it has its place in a course, too.

**Main theorem** (`Course.protected_kept`). A global name that was registered as protected is bound to the
same value and still protected in every later phase, also in the middle of a run. In particular this holds
of the natives of the standard interpreter and of its object `math`.

The invariant is that of reached sessions (`Phase.Fits`), which a refused source keeps as well
(`Interpreter.compile_fits_anyway`); the rest is what one step keeps (`Machine.Fits.step_keeps`).
-/

namespace Treewalk

/-- The store of the interpreter, or of the machine that runs on it. -/
def Phase.store : Phase → Store
  | .idle i => i.store
  | .running _ _ m => m.store

/-- What a session goes through from a phase on, with the programs accepted by then. Sources are compiled
whether they are accepted or not; accepted ones run. -/
inductive Course (known : List (List Stmt)) (start : Phase) : List (List Stmt) → Phase → Prop
  | start : Course known start known start
  | host {programs i j} (h : Course known start programs (.idle i)) (hchange : i.HostChange j)
    (hframes : j.store.frames = i.store.frames) : Course known start programs (.idle j)
  | register {programs i} (h : Course known start programs (.idle i)) (name : Bytes) (v : Value)
    (isProtected : Bool) : Course known start programs (.idle (i.register name v isProtected))
  | compile {programs i} (h : Course known start programs (.idle i)) (source : Bytes) :
    Course known start (programs ++ (i.compile source).1.stmts.toOption.toList)
      (.idle (i.compile source).2)
  | execute {programs i stmts} (h : Course known start programs (.idle i)) (hstmts : stmts ∈ programs) :
    Course known start programs (.running false i (i.machine (.complete .normal) [.program stmts]))
  | call {programs i} (h : Course known start programs (.idle i)) (callee : Value) (args : List Value) :
    Course known start programs (.running true i (i.machine (.call callee args) []))
  | step {programs hosted i m} (h : Course known start programs (.running hosted i m)) :
    Course known start programs (.running hosted i m.step)
  | finish {programs hosted i m} (h : Course known start programs (.running hosted i m))
    (hfinal : m.isFinal = true) : Course known start programs (.idle (i.after m))

/-! ## What a course keeps -/

section

variable {programs : List (List Stmt)} {labels : List Region} {i : Interpreter}

/-- A source, accepted or refused, leaves accepted programs known and the store as it is. -/
theorem Interpreter.compile_fits_anyway (source : Bytes) (h : Phase.Fits programs labels (.idle i)) :
    Phase.Fits (programs ++ (i.compile source).1.stmts.toOption.toList) labels
      (.idle (i.compile source).2) := by
  cases hcompiled : (i.compile source).1.stmts with
  | ok stmts => exact Interpreter.compile_fits hcompiled h
  | error f =>
    simp only [Except.toOption, Option.toList, List.append_nil]
    exact Interpreter.refuse_fits source h

theorem Interpreter.register_keeps (i : Interpreter) (name : Bytes) (v : Value) (isProtected : Bool) :
    i.store.Keeps (i.register name v isProtected).store := by
  unfold Interpreter.register Store.register Store.define
  split
  · rename_i store hstore
    split at hstore
    · cases hstore
    · cases hstore
      exact .add _ _ _
  · exact .refl _

/-- Along a course everything stays a piece of an accepted program, and protected names keep their
values. -/
theorem Course.keeps {known : List (List Stmt)} {start phase : Phase}
    (h : Course known start programs phase) (hstart : start.Fits known labels) :
    (∃ labels', phase.Fits programs labels') ∧ start.store.Keeps phase.store := by
  induction h with
  | start => exact ⟨⟨labels, hstart⟩, .refl _⟩
  | host _ hchange hframes ih =>
    obtain ⟨⟨labels', hfits⟩, hkeeps⟩ := ih
    exact ⟨⟨labels', hchange.fits hfits⟩, hkeeps.trans (.of_frames hframes)⟩
  | @register _ i _ name v isProtected ih =>
    obtain ⟨⟨labels', hfits⟩, hkeeps⟩ := ih
    have hchange : i.HostChange (i.register name v isProtected) := .register i name v isProtected
    exact ⟨⟨labels', hchange.fits hfits⟩, hkeeps.trans (i.register_keeps name v isProtected)⟩
  | @compile _ i _ source ih =>
    obtain ⟨⟨labels', hfits⟩, hkeeps⟩ := ih
    refine ⟨⟨labels', Interpreter.compile_fits_anyway source hfits⟩, hkeeps.trans ?_⟩
    show i.store.Keeps (i.compile source).2.store
    rw [Interpreter.compile_store]
    exact .refl _
  | @execute _ i stmts _ hstmts ih =>
    obtain ⟨⟨labels', htrusts, hstore⟩, hkeeps⟩ := ih
    refine ⟨⟨labels', htrusts, ⟨htrusts.known, hstore⟩, ?_⟩, hkeeps⟩
    exact .complete (c := .normal) (Γ := {}) hstore.globals (.program rfl ⟨stmts, hstmts, .here⟩)
  | call _ callee args ih =>
    obtain ⟨⟨labels', htrusts, hstore⟩, hkeeps⟩ := ih
    exact ⟨⟨labels', htrusts, ⟨htrusts.known, hstore⟩, .call (.inl rfl) (.returned rfl)⟩, hkeeps⟩
  | step _ ih =>
    obtain ⟨⟨labels', htrusts, hm⟩, hkeeps⟩ := ih
    exact ⟨⟨_, htrusts, hm.step⟩, hkeeps.trans hm.step_keeps⟩
  | finish _ _ ih =>
    obtain ⟨⟨labels', ⟨htable, hknows⟩, hm⟩, hkeeps⟩ := ih
    exact ⟨⟨labels', ⟨htable, hknows⟩, hm.store⟩, hkeeps⟩

end

/-! ## Whole runs -/

namespace Course

variable {known programs : List (List Stmt)} {start : Phase} {i : Interpreter}

/-- One course behind another. -/
theorem trans {programs' : List (List Stmt)} {phase phase' : Phase} (h : Course known start programs phase)
    (h' : Course programs phase programs' phase') : Course known start programs' phase' := by
  induction h' with
  | start => exact h
  | host _ hchange hframes ih => exact ih.host hchange hframes
  | register _ name v isProtected ih => exact ih.register name v isProtected
  | compile _ source ih => exact ih.compile source
  | execute _ hstmts ih => exact ih.execute hstmts
  | call _ callee args ih => exact ih.call callee args
  | step _ ih => exact ih.step
  | finish _ hfinal ih => exact ih.finish hfinal

theorem steps {hosted : Bool} (n : Nat) : ∀ {m : Machine},
    Course known start programs (.running hosted i m) →
      Course known start programs (.running hosted i (m.steps n)) := by
  induction n with
  | zero => exact fun h => h
  | succ n ih => exact fun h => ih h.step

theorem after_execute {stmts : List Stmt} (h : Course known start programs (.idle i))
    (hstmts : stmts ∈ programs) : Course known start programs (.idle (i.execute stmts).2) := by
  unfold Interpreter.execute
  dsimp only
  cases hrun : (i.machine (.complete .normal) [.program stmts]).run with
  | none => exact h
  | some m =>
    obtain ⟨hfinal, n, rfl⟩ := Machine.steps_of_run hrun
    dsimp only
    split <;> exact ((h.execute hstmts).steps n).finish hfinal

/-- A source is evaluated, whether it is accepted or not. -/
theorem after_evaluate (h : Course known start programs (.idle i)) (source : Bytes) :
    ∃ programs', Course known start programs' (.idle (i.evaluate source).2.2) := by
  have hcompiled := h.compile source
  unfold Interpreter.evaluate
  dsimp only
  cases hstmts : (i.compile source).1.stmts with
  | error f => exact ⟨_, hcompiled⟩
  | ok stmts =>
    rw [hstmts] at hcompiled
    exact ⟨_, hcompiled.after_execute (List.mem_append_right _ List.mem_cons_self)⟩

theorem after_evaluateAll (h : Course known start programs (.idle i)) (sources : List Bytes) :
    ∃ programs', Course known start programs'
      (.idle (sources.foldl (fun i s => (i.evaluate s).2.2) i)) := by
  induction sources generalizing programs i with
  | nil => exact ⟨_, h⟩
  | cons source rest ih =>
    obtain ⟨programs', hafter⟩ := h.after_evaluate source
    exact ih hafter

/-- The host makes something and binds it. -/
theorem registerNew (h : Course known start programs (.idle i)) {s : Store}
    (hframes : s.frames = i.store.frames) (hfunctions : s.functions = i.store.functions)
    (hclasses : s.classes = i.store.classes) (name : Bytes) (v : Value) (isProtected : Bool) :
    Course known start programs (.idle ({ i with store := s }.register name v isProtected)) := by
  have hmade : i.HostChange { i with store := s } :=
    ⟨rfl, rfl, hfunctions, hclasses, by rw [hframes], .of_frames hframes⟩
  exact (h.host hmade hframes).register name v isProtected

theorem registerNative (h : Course known start programs (.idle i)) (name : String) (arity : Nat)
    (op : NativeOp) (isProtected : Bool) :
    Course known start programs (.idle (i.registerNative name arity op isProtected)) :=
  h.registerNew (s := (i.store.newNative { name := text name, arity, op }).2) rfl rfl rfl _ _ _

theorem registerNatives (natives : List (String × Nat × NativeOp)) : ∀ {i : Interpreter},
    Course known start programs (.idle i) → Course known start programs
      (.idle (natives.foldl (fun i n => i.registerNative n.1 n.2.1 n.2.2 true) i)) := by
  induction natives with
  | nil => exact fun h => h
  | cons n natives ih => exact fun h => ih (h.registerNative _ _ _ _)

theorem registerMath (h : Course known start programs (.idle i)) :
    Course known start programs (.idle i.registerMath) := by
  show Course known start programs (.idle ({ i with store := _ }.register (text "math") _ true))
  exact h.registerNew (by rfl) (by rfl) (by rfl) _ _ _

end Course

/-! ## Registered names -/

theorem Store.find?_add {s : Store} (hsize : Store.globals < s.frames.size) (b : Binding) (name : Bytes) :
    ((s.add Store.globals b).frame Store.globals).find? name =
      ((s.frame Store.globals).find? name).or (if b.name == name then some b else none) := by
  rw [Store.add, Store.frame_modify s _ _ _ hsize, if_pos rfl, Frame.find?_add_or]

namespace Interpreter

variable {i : Interpreter}

theorem register_fresh {name : Bytes} (hfresh : i.store.binds Store.globals name = false) (v : Value)
    (isProtected : Bool) : i.register name v isProtected =
      { i with store := i.store.add Store.globals { name, value := v, isProtected } } := by
  simp [register, Store.register, Store.define, hfresh, Except.mapError]

/-- A name that was free is bound once it is registered. -/
theorem register_find? {name : Bytes} (hsize : Store.globals < i.store.frames.size)
    (hfresh : i.store.binds Store.globals name = false) (v : Value) (isProtected : Bool) :
    ((i.register name v isProtected).store.frame Store.globals).find? name =
      some { name, value := v, isProtected } := by
  have hnone : (i.store.frame Store.globals).find? name = none := by
    simpa [Store.binds] using hfresh
  rw [register_fresh hfresh, Store.find?_add hsize, hnone]
  simp

/-- What registering a native under a free name comes to. -/
theorem registerNative_spec (hsize : Store.globals < i.store.frames.size) {name : String}
    (hfresh : i.store.binds Store.globals (text name) = false) (arity : Nat) (op : NativeOp)
    (isProtected : Bool) {j : Interpreter} (hj : i.registerNative name arity op isProtected = j) :
    Store.globals < j.store.frames.size ∧ j.store.natives.size = i.store.natives.size + 1 ∧
      ∀ other, (j.store.frame Store.globals).find? other =
        ((i.store.frame Store.globals).find? other).or
          (if text name == other then
            some { name := text name, value := .native i.store.natives.size, isProtected }
          else none) := by
  have heq : i.registerNative name arity op isProtected =
      { i with
        store := (i.store.newNative { name := text name, arity, op }).2.add Store.globals
          { name := text name, value := .native i.store.natives.size, isProtected } } :=
    register_fresh (i := { i with store := (i.store.newNative { name := text name, arity, op }).2 })
      hfresh _ _
  rw [← hj, heq]
  refine ⟨by simpa [Store.add, Store.newNative] using hsize, by simp [Store.add, Store.newNative], ?_⟩
  intro other
  exact Store.find?_add (s := (i.store.newNative { name := text name, arity, op }).2) hsize _ other

theorem registerNatives_keeps (natives : List (String × Nat × NativeOp)) : ∀ i : Interpreter,
    i.store.Keeps
      (natives.foldl (fun i n => i.registerNative n.1 n.2.1 n.2.2 true) i).store := by
  induction natives with
  | nil => exact fun i => .refl _
  | cons n natives ih =>
    intro i
    have hmade : i.store.Keeps (i.store.newNative { name := text n.1, arity := n.2.1, op := n.2.2 }).2 :=
      .of_frames rfl
    exact (hmade.trans (register_keeps { i with store := _ } _ _ _)).trans (ih _)

/-- Natives that are registered one after the other under different names are all bound. -/
theorem registerNatives_find? (natives : List (String × Nat × NativeOp)) : ∀ {i : Interpreter},
    Store.globals < i.store.frames.size → (natives.map fun n => text n.1).Nodup →
    (∀ n ∈ natives, i.store.binds Store.globals (text n.1) = false) →
    ∀ k n, natives[k]? = some n →
      ((natives.foldl (fun i n => i.registerNative n.1 n.2.1 n.2.2 true) i).store.frame
        Store.globals).find? (text n.1) =
          some { name := text n.1, value := .native (i.store.natives.size + k), isProtected := true } := by
  induction natives with
  | nil => exact fun _ _ _ k n hn => by simp at hn
  | cons first rest ih =>
    intro i hsize hnodup hfresh k n hn
    rw [List.map_cons, List.nodup_cons] at hnodup
    have hfirst := hfresh first List.mem_cons_self
    rw [List.foldl_cons]
    generalize hj : i.registerNative first.1 first.2.1 first.2.2 true = j
    obtain ⟨hsize', hnatives, hfind⟩ := registerNative_spec hsize hfirst _ _ _ hj
    cases k with
    | zero =>
      obtain rfl : first = n := by simpa using hn
      have hnone : (i.store.frame Store.globals).find? (text first.1) = none := by
        simpa [Store.binds] using hfirst
      refine registerNatives_keeps rest j _ _ ?_ rfl
      rw [hfind, hnone]
      simp
    | succ k =>
      have hfree : ∀ other ∈ rest, j.store.binds Store.globals (text other.1) = false := by
        intro other hother
        have hne : text first.1 ≠ text other.1 := fun heq =>
          hnodup.1 (List.mem_map.2 ⟨other, hother, heq.symm⟩)
        rw [Store.binds, hfind]
        simpa [Store.binds, hne] using hfresh other (List.mem_cons_of_mem _ hother)
      rw [ih hsize' hnodup.2 hfree k n (by simpa using hn), hnatives, Nat.add_assoc, Nat.add_comm 1 k]

/-- The interpreter with the natives and nothing else. -/
def furnished : Interpreter := natives.foldl (fun i n => i.registerNative n.1 n.2.1 n.2.2 true) bare

/-- The names that the standard interpreter protects, with their values: the natives in order, and
`math`. -/
def protections : List (Bytes × Value) :=
  (natives.zipIdx.map fun n => (text n.1.1, .native n.2)) ++ [(text "math", .host 0)]

theorem registerMath_eq (i : Interpreter) : ∃ s : Store,
    i.registerMath = { i with store := s }.register (text "math") (.host i.store.hosts.size) true ∧
      s.frames = i.store.frames :=
  ⟨_, by rfl, by rfl⟩

/-- All of them are bound before the library is read. -/
theorem protections_bound {name : Bytes} {v : Value} (h : (name, v) ∈ protections) :
    (furnished.registerMath.store.frame Store.globals).find? name =
      some { name, value := v, isProtected := true } := by
  obtain ⟨s, hmath, hframes⟩ := registerMath_eq furnished
  rw [hmath]
  rcases List.mem_append.1 h with h | h
  · obtain ⟨⟨n, k⟩, hmem, heq⟩ := List.mem_map.1 h
    obtain ⟨rfl, rfl⟩ := Prod.mk.inj heq
    have hkeeps : furnished.store.Keeps s := .of_frames hframes
    refine (hkeeps.trans (register_keeps { furnished with store := s } _ _ _)) _ _ ?_ rfl
    have hfind := registerNatives_find? (i := bare) natives (by decide) (by decide +kernel)
      (fun n _ => rfl) k n (List.mk_mem_zipIdx_iff_getElem?.1 hmem)
    rw [furnished, hfind]
    simp [bare, Store.newFrame]
  · obtain ⟨rfl, rfl⟩ := Prod.mk.inj (List.mem_singleton.1 h)
    have hhosts : furnished.store.hosts.size = 0 := by decide +kernel
    have hfree : furnished.store.binds Store.globals (text "math") = false := by decide +kernel
    have hsize : Store.globals < furnished.store.frames.size := by decide +kernel
    rw [hhosts]
    refine register_find? (i := { furnished with store := s }) ?_ ?_ _ _
    · simpa only [hframes] using hsize
    · simpa only [Store.binds, Store.frame, hframes] using hfree

end Interpreter

/-! ## The theorem -/

/-- The standard interpreter is made by what a session can do. -/
theorem Course.standard :
    ∃ programs, Course [] (.idle .bare) [] (.idle Interpreter.furnished.registerMath) ∧
      Course [] (.idle Interpreter.furnished.registerMath) programs (.idle .standard) := by
  have hstart : Course [] (.idle Interpreter.furnished.registerMath) []
      (.idle Interpreter.furnished.registerMath) := .start
  obtain ⟨programs, h⟩ := hstart.after_evaluateAll (Interpreter.prelude.map text)
  rw [List.foldl_map] at h
  exact ⟨programs, (Course.start.registerNatives Interpreter.natives).registerMath, h⟩

/-- Programs never rebind a name that the host protects: it stays bound to its value, and protected, in every
later phase of every session. -/
theorem Course.protected_kept :
    (∀ programs phase programs' phase' name b, Course [] (.idle .bare) programs phase →
      Course programs phase programs' phase' →
      (phase.store.frame Store.globals).find? name = some b → b.isProtected = true →
      (phase'.store.frame Store.globals).find? name = some b) ∧
    (∀ programs i name v programs' phase', Course [] (.idle .bare) programs (.idle i) →
      i.store.binds Store.globals name = false →
      Course programs (.idle (i.register name v true)) programs' phase' →
      (phase'.store.frame Store.globals).find? name =
        some { name, value := v, isProtected := true }) ∧
    ∃ programs, Course [] (.idle .bare) programs (.idle .standard) ∧
      ∀ name v, (name, v) ∈ Interpreter.protections → ∀ programs' phase',
        Course programs (.idle .standard) programs' phase' →
        (phase'.store.frame Store.globals).find? name =
          some { name, value := v, isProtected := true } := by
  -- what a course from the start leads to keeps what is protected there
  have hlater : ∀ {programs phase programs' phase'}, Course [] (.idle .bare) programs phase →
      Course programs phase programs' phase' → phase.store.Keeps phase'.store := by
    intro programs phase programs' phase' h h'
    obtain ⟨labels, hfits⟩ := (h.keeps Interpreter.bare_fits).1
    exact (h'.keeps hfits).2
  refine ⟨fun programs phase programs' phase' name b h h' => hlater h h' name b, ?_, ?_⟩
  · intro programs i name v programs' phase' h hfresh h'
    obtain ⟨_, hfits⟩ := (h.keeps Interpreter.bare_fits).1
    have hsize : Store.globals < i.store.frames.size := hfits.2.globals.env_lt
    exact hlater (h.register name v true) h' name _ (Interpreter.register_find? hsize hfresh v true) rfl
  · obtain ⟨programs, hmade, hstandard⟩ := Course.standard
    refine ⟨programs, hmade.trans hstandard, fun name v hprotected programs' phase' h' => ?_⟩
    exact hlater hmade (hstandard.trans h') name _ (Interpreter.protections_bound hprotected) rfl

/-- A program assigns to a protected name of the host, and another one to a native. -/
theorem Course.protected_kept_assigned :
    (∃ programs i m, Course [] (.idle (Interpreter.bare.register (text "f") (.bool true) true)) programs
        (.running false i m) ∧ m.touches.isSome = true ∧
      (m.step.store.frame Store.globals).find? (text "f") =
        some { name := text "f", value := .bool true, isProtected := true }) ∧
    ∃ programs programs' phase, Course programs (.idle .standard) programs' phase ∧
      (phase.store.frame Store.globals).find? (text "clock") =
        some { name := text "clock", value := .native 0, isProtected := true } := by
  obtain ⟨-, hhost, programs, -, hstandard⟩ := Course.protected_kept
  constructor
  · have haccepted := Interpreter.compile_of_accepts
      (i := Interpreter.bare.register (text "f") (.bool true) true)
      (show Interpreter.accepts 0 (text "f = 1;") = true by decide +kernel)
    have hstart : Course [] (.idle (Interpreter.bare.register (text "f") (.bool true) true)) []
        (.idle (Interpreter.bare.register (text "f") (.bool true) true)) := .start
    have hcompiled := hstart.compile (text "f = 1;")
    rw [haccepted] at hcompiled
    have hrun := (hcompiled.execute (List.mem_append_right _ List.mem_cons_self)).steps 4
    generalize hm : Machine.steps _ 4 = m at hrun
    refine ⟨_, _, m, hrun, ?_, hhost [] .bare _ _ _ _ .start rfl hrun.step⟩
    rw [← hm]
    decide +kernel
  · have hclock : (text "clock", .native 0) ∈ Interpreter.protections :=
      List.mem_append_left _ (List.mem_map.2 ⟨(("clock", 0, .clock), 0), List.mem_cons_self, rfl⟩)
    exact ⟨programs, _, _, .compile .start (text "clock = 1;"), hstandard _ _ hclock _ _ (.compile .start _)⟩

end Treewalk
