import Treewalk.Proofs.Machine.Tidy
import Treewalk.Proofs.Session.Protection

/-!
# The mark of an unassigned variable never gets out

**Sessions** (`Orderly`). The host changes what is its own, registers names and calls values, and never hands
in the mark of an unassigned variable; sources are compiled and statements run. Each phase comes with the
names that were declared without a value and not assigned since.

**Main theorem** (`Orderly.unset_confined`). In every phase just these names are bound to the mark. No element
of an array and no field is the mark, and neither is any value that a run hands on: what an expression comes
to, the arguments and the result of a call, what is assigned to a variable. So nothing that can be printed or
asked for its type shows the mark, not even inside arrays.

The invariant is kept by each step (`Machine.Tidy.step`); whole runs and the standard interpreter are made of
steps (`Orderly.standard`).
-/

namespace Treewalk

/-! ## Sessions -/

/-- What the host may do to its own objects between runs: it puts the mark nowhere. -/
structure Interpreter.TidyChange (i j : Interpreter) : Prop where
  frames : j.store.frames = i.store.frames
  functions : j.store.functions = i.store.functions
  elements : ∀ a, ∀ v ∈ j.store.elements a, v ≠ .unset
  fields : ∀ o ∈ j.store.instances, ∀ p ∈ o.fields, p.2 ≠ .unset
  properties : ∀ h ∈ j.store.hosts, ∀ p ∈ h.properties, p.2 ≠ .unset
  natives : ∀ n ∈ j.store.natives, n.op.Tidy

/-- The phases of sessions whose host hands in no mark, with the names that were declared without a value and
not assigned since. -/
inductive Orderly : Set (FrameId × Bytes) → Phase → Prop
  | start : Orderly ∅ (.idle .bare)
  | host {U i j} (h : Orderly U (.idle i)) (hchange : i.TidyChange j) : Orderly U (.idle j)
  | register {U i} (h : Orderly U (.idle i)) (name : Bytes) {v : Value} (hv : v ≠ .unset)
    (isProtected : Bool) : Orderly U (.idle (i.register name v isProtected))
  | compile {U i} (h : Orderly U (.idle i)) (source : Bytes) : Orderly U (.idle (i.compile source).2)
  | execute {U i} (h : Orderly U (.idle i)) (stmts : List Stmt) :
    Orderly U (.running false i (i.machine (.complete .normal) [.program stmts]))
  | call {U i} (h : Orderly U (.idle i)) {callee : Value} {args : List Value} (hcallee : callee ≠ .unset)
    (hargs : ∀ v ∈ args, v ≠ .unset) : Orderly U (.running true i (i.machine (.call callee args) []))
  | step {U hosted i m} (h : Orderly U (.running hosted i m)) :
    Orderly (m.unassigned U) (.running hosted i m.step)
  | finish {U hosted i m} (h : Orderly U (.running hosted i m)) (hfinal : m.isFinal = true) :
    Orderly U (.idle (i.after m))

section

variable {U : Set (FrameId × Bytes)} {i j : Interpreter}

/-! ## The invariant -/

/-- The store, or the machine that runs, is tidy, and just the names in `U` are unassigned. -/
def Phase.Tidy (U : Set (FrameId × Bytes)) : Phase → Prop
  | .idle i => Unmarked U i.store []
  | .running _ _ m => m.Tidy U

theorem Interpreter.bare_tidy : Unmarked ∅ Interpreter.bare.store [] := by
  refine ⟨⟨?_, ?_, ?_, ?_, ?_⟩, by simp, ?_⟩
  · intro a v hv
    simp [Interpreter.bare, Store.newFrame, Store.elements] at hv
  · intro o ho
    simp [Interpreter.bare, Store.newFrame] at ho
  · intro o ho
    simp [Interpreter.bare, Store.newFrame] at ho
  · intro n hn
    simp [Interpreter.bare, Store.newFrame] at hn
  · intro f hf
    simp [Interpreter.bare, Store.newFrame] at hf
  · have hempty : ({} : Store).unassigned = ∅ := by
      ext p
      simp [Store.unassigned, Store.frame]
    exact (Store.unassigned_push none (by simp)).trans hempty

namespace Interpreter.TidyChange

theorem refl (h : i.store.Tidy) : i.TidyChange i :=
  ⟨rfl, rfl, h.elements, h.fields, h.properties, h.natives⟩

theorem newNative (h : i.TidyChange j) (n : Native) (hop : n.op.Tidy) :
    i.TidyChange { j with store := (j.store.newNative n).2 } := by
  refine ⟨h.frames, h.functions, h.elements, h.fields, h.properties, fun m hm => ?_⟩
  rcases Array.mem_push.1 hm with hm | rfl
  · exact h.natives m hm
  · exact hop

theorem newHost (h : i.TidyChange j) (o : Host) (hset : ∀ p ∈ o.properties, p.2 ≠ .unset) :
    i.TidyChange { j with store := (j.store.newHost o).2 } := by
  refine ⟨h.frames, h.functions, h.elements, h.fields, fun o' ho => ?_, h.natives⟩
  rcases Array.mem_push.1 ho with ho | rfl
  · exact h.properties o' ho
  · exact hset

end Interpreter.TidyChange

theorem Interpreter.TidyChange.unmarked (hchange : i.TidyChange j) (h : Unmarked U i.store []) :
    Unmarked U j.store [] := by
  have hretains : i.store.Retains j.store := .of_frames hchange.frames
  have htidy : j.store.Tidy := by
    refine ⟨hchange.elements, hchange.fields, hchange.properties, hchange.natives, fun f hf hinit => ?_⟩
    rw [hchange.functions] at hf
    exact (h.store.receivers f hf hinit).mono hretains
  exact h.steady (.of_frames hchange.frames htidy)

theorem Interpreter.register_unmarked (h : Unmarked U i.store []) (name : Bytes) {v : Value} (hv : v ≠ .unset)
    (isProtected : Bool) : Unmarked U (i.register name v isProtected).store [] := by
  by_cases hbound : i.store.binds Store.globals name = true
  · simpa [Interpreter.register, Store.register, Store.define, hbound, Except.mapError] using h
  · rw [Interpreter.register_fresh (by simpa using hbound)]
    exact h.steady (h.store.add Store.globals hv)

/-- In every phase the mark is in frames only, and just the known names are unassigned. -/
theorem Orderly.tidy {phase : Phase} (h : Orderly U phase) : phase.Tidy U := by
  induction h with
  | start => exact Interpreter.bare_tidy
  | host _ hchange ih => exact hchange.unmarked ih
  | register _ name hv isProtected ih => exact Interpreter.register_unmarked ih name hv isProtected
  | @compile U i _ source ih =>
    show Unmarked U (i.compile source).2.store []
    rw [i.compile_store source]
    exact ih
  | execute _ stmts ih => exact ⟨ih.cons trivial, trivial⟩
  | call _ hcallee hargs ih => exact ⟨ih, hcallee, hargs⟩
  | step _ ih => exact Machine.Tidy.step ih
  | finish _ _ ih =>
    obtain ⟨⟨hstore, -, hunassigned⟩, -⟩ := ih
    exact ⟨hstore, by simp, hunassigned⟩

/-! ## Whole runs -/

namespace Orderly

theorem steps {hosted : Bool} (n : Nat) : ∀ {U : Set (FrameId × Bytes)} {m : Machine},
    Orderly U (.running hosted i m) → ∃ U', Orderly U' (.running hosted i (m.steps n)) := by
  induction n with
  | zero => exact fun h => ⟨_, h⟩
  | succ n ih => exact fun h => ih h.step

theorem after_execute (h : Orderly U (.idle i)) (stmts : List Stmt) :
    ∃ U', Orderly U' (.idle (i.execute stmts).2) := by
  unfold Interpreter.execute
  dsimp only
  cases hrun : (i.machine (.complete .normal) [.program stmts]).run with
  | none => exact ⟨U, h⟩
  | some m =>
    obtain ⟨hfinal, n, rfl⟩ := Machine.steps_of_run hrun
    obtain ⟨U', hsteps⟩ := (h.execute stmts).steps n
    refine ⟨U', ?_⟩
    dsimp only
    split <;> exact hsteps.finish hfinal

/-- A source is evaluated, whether it is accepted or not. -/
theorem after_evaluate (h : Orderly U (.idle i)) (source : Bytes) :
    ∃ U', Orderly U' (.idle (i.evaluate source).2.2) := by
  have hcompiled := h.compile source
  unfold Interpreter.evaluate
  dsimp only
  cases (i.compile source).1.stmts with
  | error f => exact ⟨U, hcompiled⟩
  | ok stmts => exact hcompiled.after_execute stmts

theorem after_evaluateAll (h : Orderly U (.idle i)) (sources : List Bytes) :
    ∃ U', Orderly U' (.idle (sources.foldl (fun i s => (i.evaluate s).2.2) i)) := by
  induction sources generalizing U i with
  | nil => exact ⟨U, h⟩
  | cons source rest ih =>
    obtain ⟨U', hafter⟩ := h.after_evaluate source
    exact ih hafter

/-! ## The standard interpreter -/

theorem idle_tidy (h : Orderly U (.idle i)) : i.store.Tidy := h.tidy.store

/-- The host makes something and binds it. -/
theorem registerNew (h : Orderly U (.idle i)) {s : Store} (hmade : i.TidyChange { i with store := s })
    (name : Bytes) {v : Value} (hv : v ≠ .unset) (isProtected : Bool) :
    Orderly U (.idle ({ i with store := s }.register name v isProtected)) :=
  (h.host hmade).register name hv isProtected

theorem registerNative (h : Orderly U (.idle i)) (name : String) (arity : Nat) {op : NativeOp}
    (hop : op.Tidy) (isProtected : Bool) :
    Orderly U (.idle (i.registerNative name arity op isProtected)) := by
  have hmade := (Interpreter.TidyChange.refl h.idle_tidy).newNative { name := text name, arity, op } hop
  exact h.registerNew hmade (text name) (v := .native i.store.natives.size) nofun isProtected

theorem registerNatives (natives : List (String × Nat × NativeOp)) : ∀ {i : Interpreter},
    Orderly U (.idle i) → (∀ n ∈ natives, n.2.2.Tidy) →
      Orderly U (.idle (natives.foldl (fun i n => i.registerNative n.1 n.2.1 n.2.2 true) i)) := by
  induction natives with
  | nil => exact fun h _ => h
  | cons n natives ih =>
    intro i h htidy
    obtain ⟨hfirst, hrest⟩ := List.forall_mem_cons.1 htidy
    exact ih (h.registerNative n.1 n.2.1 hfirst true) hrest

theorem registerMath (h : Orderly U (.idle i)) : Orderly U (.idle i.registerMath) := by
  let native (name : String) (op : NativeOp) : Native := { name := text name, arity := 1, op }
  let one := (i.store.newNative (native "sqrt" .sqrt)).2
  let two := (one.newNative (native "floor" .floor)).2
  let math : Host :=
    { typeName := text "math"
      properties := [(text "pi", .number Interpreter.pi), (text "sqrt", .native i.store.natives.size),
        (text "floor", .native one.natives.size), (text "abs", .native two.natives.size)] }
  have hnatives := (((Interpreter.TidyChange.refl h.idle_tidy).newNative (native "sqrt" .sqrt)
    trivial).newNative (native "floor" .floor) trivial).newNative (native "abs" .abs) trivial
  have hmade := hnatives.newHost math (by simp [math])
  exact h.registerNew hmade (text "math") (v := .host i.store.hosts.size) nofun true

/-- The standard interpreter is made in an orderly way. -/
theorem standard : ∃ U, Orderly U (.idle .standard) := by
  have hnatives : ∀ n ∈ Interpreter.natives, n.2.2.Tidy := by
    simp [Interpreter.natives, NativeOp.Tidy]
  obtain ⟨U, hafter⟩ := (registerMath (registerNatives Interpreter.natives start hnatives)).after_evaluateAll
    (Interpreter.prelude.map text)
  rw [List.foldl_map] at hafter
  exact ⟨U, hafter⟩

end Orderly

end

/-! ## What a run hands on -/

/-- The next step deals with a value: an expression came to it, a function returns it, it is called or an
argument of a call, or it is assigned to a variable. -/
inductive Machine.Hands (m : Machine) : Value → Prop
  | give {v} (h : m.control = .give v) : Hands m v
  | result {v} (h : m.control = .complete (.result v)) : Hands m v
  | callee {v args} (h : m.control = .call v args) : Hands m v
  | argument {callee args v} (h : m.control = .call callee args) (hv : v ∈ args) : Hands m v
  | assigned {id name v} (h : m.assigns? = some (id, name, v)) : Hands m v

/-- A value is another one, or inside it through arrays. -/
inductive Store.Inside (s : Store) : Value → Value → Prop
  | self (v : Value) : Inside s v v
  | element {a : ArrayId} {v w : Value} (hv : v ∈ s.elements a) (h : Inside s v w) : Inside s (.array a) w

theorem Store.Tidy.inside {s : Store} (h : s.Tidy) {v w : Value} (hinside : s.Inside v w)
    (hv : v ≠ .unset) : w ≠ .unset := by
  induction hinside with
  | self => exact hv
  | element helement _ ih => exact ih (h.elements _ _ helement)

theorem Operator.toOption_ne_unset {r : Operator.Result} {v : Value} (hr : ∀ v, r = .ok v → v ≠ .unset)
    (h : r.toOption = some v) : v ≠ .unset := by
  cases r with
  | error e => cases h
  | ok w =>
    cases h
    exact hr v rfl

theorem Machine.Tidy.assigns {U : Set (FrameId × Bytes)} {m : Machine} (h : m.Tidy U) {id : NodeId}
    {name : Token} {v : Value} (hassigns : m.assigns? = some (id, name, v)) : v ≠ .unset := by
  have hcontrol := h.control
  unfold Machine.assigns? at hassigns
  split at hassigns
  · obtain ⟨next, hnext, heq⟩ := Option.map_eq_some_iff.1 hassigns
    cases heq
    refine Operator.toOption_ne_unset (fun w hw => ?_) hnext
    cases hread : m.read id name with
    | error e => simp [hread, Except.bind] at hw
    | ok current =>
      rw [hread] at hw
      exact (Operator.step_plain hw).ne_unset
  · rename_i given hc
    rw [hc] at hcontrol
    split at hassigns
    · cases hassigns
      exact hcontrol
    · obtain ⟨result, hresult, heq⟩ := Option.map_eq_some_iff.1 hassigns
      cases heq
      exact Operator.toOption_ne_unset (fun _ hr => (Operator.compound_plain hr).ne_unset) hresult
    · cases hassigns
  · cases hassigns

theorem Machine.Tidy.hands {U : Set (FrameId × Bytes)} {m : Machine} (h : m.Tidy U) {v : Value}
    (hv : m.Hands v) : v ≠ .unset := by
  have hcontrol := h.control
  cases hv with
  | give hc =>
    rw [hc] at hcontrol
    exact hcontrol
  | result hc =>
    rw [hc] at hcontrol
    exact hcontrol
  | callee hc =>
    rw [hc] at hcontrol
    exact hcontrol.1
  | argument hc hmem =>
    rw [hc] at hcontrol
    exact hcontrol.2 v hmem
  | assigned hassigns => exact h.assigns hassigns

theorem Phase.Tidy.store {U : Set (FrameId × Bytes)} {phase : Phase} (h : phase.Tidy U) :
    phase.store.Tidy ∧ phase.store.unassigned = U := by
  cases phase with
  | idle i => exact ⟨Unmarked.store h, Unmarked.unassigned h⟩
  | running hosted i m => exact ⟨h.unmarked.store, h.unmarked.unassigned⟩

/-- In every phase of an orderly session just the names that were declared without a value and not assigned
since are bound to the mark. No array and no instance holds the mark, and no value that a run hands on is the
mark or an array with the mark inside. -/
theorem Orderly.unset_confined {U : Set (FrameId × Bytes)} {phase : Phase} (h : Orderly U phase) :
    phase.store.unassigned = U ∧
    (∀ a, ∀ v ∈ phase.store.elements a, v ≠ .unset) ∧
    (∀ o ∈ phase.store.instances, ∀ p ∈ o.fields, p.2 ≠ .unset) ∧
    ∀ hosted i m, phase = .running hosted i m →
      ∀ v, m.Hands v → ∀ w, m.store.Inside v w → w ≠ .unset := by
  have htidy := h.tidy
  obtain ⟨hstore, hunassigned⟩ := htidy.store
  refine ⟨hunassigned, hstore.elements, hstore.fields, ?_⟩
  rintro hosted i m rfl v hv w hinside
  exact hstore.inside hinside (Machine.Tidy.hands htidy hv)

/-- The first state of a run of `let x; x = [none];`. -/
def Interpreter.lateAssignment : Machine :=
  let name : Token := { kind := .identifier, lexeme := text "x" }
  bare.machine (.complete .normal)
    [.program
      [.declare {} name none,
        .expression {} (.assign 0 name
          (.array 1 { kind := .leftBracket } [.literal 2 { kind := .noneWord }]))]]

/-- After eight steps the array is about to be assigned to the only unassigned variable; after nine there is no
unassigned variable. -/
theorem Orderly.unset_confined_late : ∃ U U',
    Orderly U (.running false .bare (Interpreter.lateAssignment.steps 8)) ∧
    Orderly U' (.running false .bare (Interpreter.lateAssignment.steps 9)) ∧
    U = {(Store.globals, text "x")} ∧ U' = ∅ ∧
    (Interpreter.lateAssignment.steps 8).Hands (.array 0) ∧
    ∀ w, (Interpreter.lateAssignment.steps 8).store.Inside (.array 0) w → w ≠ .unset := by
  obtain ⟨U, h⟩ := (Orderly.start.execute _).steps (m := Interpreter.lateAssignment) 8
  have h' := h.step
  obtain ⟨hunassigned, -, -, hhands⟩ := h.unset_confined
  have hafter := h'.unset_confined.1
  have hgives : (Interpreter.lateAssignment.steps 8).Hands (.array 0) := .give rfl
  have hframes : (Interpreter.lateAssignment.steps 8).store.frames =
      #[{ parent := none, bindings := [{ name := text "x", value := .unset }] }] := by rfl
  have hframes' : (Interpreter.lateAssignment.steps 9).store.frames =
      #[{ parent := none, bindings := [{ name := text "x", value := .array 0 }] }] := by rfl
  refine ⟨U, _, h, h', ?_, ?_, hgives, hhands false .bare _ rfl _ hgives⟩
  · rw [← hunassigned]
    ext ⟨f, name⟩
    simp only [Store.unassigned, Store.frame, Phase.store, hframes]
    cases f <;> simp [Store.globals, eq_comm]
  · rw [← hafter]
    ext ⟨f, name⟩
    have hstore : (Phase.running false .bare (Interpreter.lateAssignment.steps 8).step).store.frames = _ :=
      hframes'
    simp only [Store.unassigned, Store.frame, hstore]
    cases f <;> simp

end Treewalk
