import Treewalk.Interpreter
import Treewalk.Proofs.Machine.Preservation
import Treewalk.Proofs.Machine.Run
import Treewalk.Proofs.Scope.Uses

/-!
# What a session can reach

A session starts with a frame for globals and nothing else. Between runs the host may change what is its
own, have sources compiled, start a program that was accepted, or call any value; during a run the machine
takes steps. `Reached` has one case for each of these, so it covers runs of any length, runs that fail,
and functions that outlive the run they were made in. A source that is refused adds no program, but it
uses up identities and may leave distances behind, so it has a case of its own.

**The invariant** (`Reached.fits`). At every point the table of distances resolves all accepted programs,
and the store and the machine, if one is running, hold pieces of these programs only.

**Whole runs** (`Reached.run`). What `Machine.run` ends with is reached, so executing a program and evaluating a
source lead from one reached interpreter to another. The standard interpreter is one of them (`Interpreter.standard_reached`).
-/

namespace Treewalk

/-! ## Sessions -/

/-- What the host may do between runs: change consoles, arrays, instances, natives and host objects, and
bind more global names. -/
structure Interpreter.HostChange (i j : Interpreter) : Prop where
  distances : j.distances = i.distances
  nextId : j.nextId = i.nextId
  functions : j.store.functions = i.store.functions
  classes : j.store.classes = i.store.classes
  size : j.store.frames.size = i.store.frames.size
  grows : i.store.Grows j.store

/-- A session is between runs, or in a run that a program or the host started. -/
inductive Phase where
  | idle (i : Interpreter)
  | running (hosted : Bool) (i : Interpreter) (m : Machine)

/-- The phases of sessions, with the programs that were accepted and a label for every frame. -/
inductive Reached : List (List Stmt) → List Region → Phase → Prop
  | start : Reached [] [.globals] (.idle .bare)
  | host {programs labels i j} (h : Reached programs labels (.idle i)) (hchange : i.HostChange j) :
    Reached programs labels (.idle j)
  | compile {programs labels i source stmts} (h : Reached programs labels (.idle i))
    (haccepted : (i.compile source).1.stmts = .ok stmts) :
    Reached (programs ++ [stmts]) labels (.idle (i.compile source).2)
  | refuse {programs labels i source failure} (h : Reached programs labels (.idle i))
    (hrefused : (i.compile source).1.stmts = .error failure) :
    Reached programs labels (.idle (i.compile source).2)
  | execute {programs labels i stmts} (h : Reached programs labels (.idle i))
    (hstmts : stmts ∈ programs) :
    Reached programs labels (.running false i (i.machine (.complete .normal) [.program stmts]))
  | call {programs labels i} (h : Reached programs labels (.idle i)) (callee : Value)
    (args : List Value) :
    Reached programs labels (.running true i (i.machine (.call callee args) []))
  | step {programs labels hosted i m} (h : Reached programs labels (.running hosted i m)) :
    Reached programs (labels ++ m.opens) (.running hosted i m.step)
  | finish {programs labels hosted i m} (h : Reached programs labels (.running hosted i m))
    (hfinal : m.isFinal = true) : Reached programs labels (.idle (i.after m))

section

variable {programs : List (List Stmt)} {labels : List Region} {i : Interpreter}

/-! ## The invariant -/

/-- What an interpreter knows about the programs it accepted, whatever runs. -/
structure Interpreter.Trusts (i : Interpreter) (programs : List (List Stmt)) : Prop where
  table : i.TableBelow
  knows : ∀ program ∈ programs, i.Knows program

/-- The store, or the machine that runs, holds accepted programs only. -/
def Phase.Fits (programs : List (List Stmt)) (labels : List Region) : Phase → Prop
  | .idle i => i.Trusts programs ∧ i.store.Fits programs labels
  | .running hosted i m => i.Trusts programs ∧ m.Fits programs labels hosted

theorem Interpreter.Trusts.known (h : i.Trusts programs) : Known programs i.distances :=
  ⟨i.nextId, h.knows⟩

/-- Code in the store is code of more programs, too. -/
theorem Store.Fits.more {s : Store} {more : List (List Stmt)} (h : s.Fits programs labels)
    (hmore : ∀ program ∈ programs, program ∈ more) : s.Fits more labels := by
  have hhere : ∀ {Γ p}, Here programs Γ p → Here more Γ p := fun ⟨program, hmem, hocc⟩ =>
    ⟨program, hmore program hmem, hocc⟩
  refine ⟨h.length, h.globals, fun f hf => ?_, fun c hc => ?_⟩
  · obtain ⟨hparams, Γ, kind, hchain, hbody⟩ := h.functions f hf
    exact ⟨hparams, Γ, kind, hchain, hhere hbody⟩
  · obtain ⟨Γ, hchain, hfields, hmethods⟩ := h.classes c hc
    refine ⟨Γ, hchain, fun f hf => hhere (hfields f hf), fun m hm => ?_⟩
    obtain ⟨henv, hparams, kind, hbody⟩ := hmethods m hm
    exact ⟨henv, hparams, kind, hhere hbody⟩

theorem Interpreter.bare_fits : Phase.Fits [] [.globals] (.idle .bare) := by
  refine ⟨⟨fun id _ => rfl, nofun⟩, rfl, .globals (by decide) rfl, ?_, ?_⟩
  · intro f hf
    simp [Interpreter.bare, Store.newFrame] at hf
  · intro c hc
    simp [Interpreter.bare, Store.newFrame] at hc

theorem Interpreter.HostChange.fits {j : Interpreter} (hchange : i.HostChange j)
    (h : Phase.Fits programs labels (.idle i)) : Phase.Fits programs labels (.idle j) := by
  obtain ⟨⟨htable, hknows⟩, hstore⟩ := h
  refine ⟨⟨?_, ?_⟩, hstore.same hchange.grows hchange.size hchange.functions hchange.classes⟩
  · intro id hid
    rw [hchange.distances]
    rw [hchange.nextId] at hid
    exact htable id hid
  · intro program hprogram
    rw [Interpreter.Knows, hchange.distances, hchange.nextId]
    exact hknows program hprogram

theorem Interpreter.compile_fits {source : Bytes} {stmts : List Stmt}
    (haccepted : (i.compile source).1.stmts = .ok stmts) (h : Phase.Fits programs labels (.idle i)) :
    Phase.Fits (programs ++ [stmts]) labels (.idle (i.compile source).2) := by
  obtain ⟨⟨htable, hknows⟩, hstore⟩ := h
  obtain ⟨hnew, htable', hnext, hold⟩ := Interpreter.compile_knows haccepted htable
  have hsame : (i.compile source).2.store = i.store := by
    rw [(Interpreter.compile_eq_ok haccepted).2.2.2]
  refine ⟨⟨htable', ?_⟩, ?_⟩
  · intro program hprogram
    rcases List.mem_append.1 hprogram with hprogram | hprogram
    · exact (hknows program hprogram).mono hold hnext
    · rw [List.mem_singleton.1 hprogram]
      exact hnew
  · rw [hsame]
    exact hstore.more fun program hprogram => List.mem_append_left _ hprogram

/-- A source that is refused gives uses to none of the identities that accepted programs have. -/
theorem Interpreter.refuse_fits (source : Bytes) (h : Phase.Fits programs labels (.idle i)) :
    Phase.Fits programs labels (.idle (i.compile source).2) := by
  obtain ⟨⟨htable, hknows⟩, hstore⟩ := h
  obtain ⟨hnext, hsame⟩ := i.compile_table source
  refine ⟨⟨fun id hid => ?_, fun program hprogram => ?_⟩, ?_⟩
  · rw [hsame id (.inr hid)]
    exact htable id (Nat.le_trans hnext hid)
  · exact (hknows program hprogram).mono (fun id hid => hsame id (.inl hid)) hnext
  · rw [Interpreter.compile_store]
    exact hstore

/-- In every phase of a session everything is a piece of an accepted program, where it belongs. -/
theorem Reached.fits {phase : Phase} (h : Reached programs labels phase) :
    phase.Fits programs labels := by
  induction h with
  | start => exact Interpreter.bare_fits
  | host _ hchange ih => exact hchange.fits ih
  | compile _ haccepted ih => exact Interpreter.compile_fits haccepted ih
  | refuse _ _ ih => exact Interpreter.refuse_fits _ ih
  | @execute programs labels i stmts _ hstmts ih =>
    obtain ⟨htrusts, hstore⟩ := ih
    refine ⟨htrusts, ⟨htrusts.known, hstore⟩, ?_⟩
    exact .complete (c := .normal) (Γ := {}) hstore.globals (.program rfl ⟨stmts, hstmts, .here⟩)
  | call _ callee args ih =>
    obtain ⟨htrusts, hstore⟩ := ih
    exact ⟨htrusts, ⟨htrusts.known, hstore⟩, .call (.inl rfl) (.returned rfl)⟩
  | step _ ih =>
    obtain ⟨htrusts, hm⟩ := ih
    exact ⟨htrusts, hm.step⟩
  | finish _ _ ih =>
    obtain ⟨⟨htable, hknows⟩, hm⟩ := ih
    exact ⟨⟨htable, hknows⟩, hm.store⟩

/-! ## Whole runs -/

theorem Reached.steps {hosted : Bool} (n : Nat) : ∀ {labels : List Region} {m : Machine},
    Reached programs labels (.running hosted i m) →
      ∃ labels', Reached programs labels' (.running hosted i (m.steps n)) := by
  induction n with
  | zero => exact fun h => ⟨_, h⟩
  | succ n ih => exact fun h => ih h.step

/-- What a run ends with is reached. -/
theorem Reached.run {hosted : Bool} {m final : Machine}
    (h : Reached programs labels (.running hosted i m)) (hrun : m.run = some final) :
    final.isFinal = true ∧ ∃ labels', Reached programs labels' (.running hosted i final) := by
  obtain ⟨hfinal, n, rfl⟩ := Machine.steps_of_run hrun
  exact ⟨hfinal, h.steps n⟩

theorem Reached.after_execute {stmts : List Stmt} (h : Reached programs labels (.idle i))
    (hstmts : stmts ∈ programs) :
    ∃ labels', Reached programs labels' (.idle (i.execute stmts).2) := by
  unfold Interpreter.execute
  dsimp only
  cases hrun : (i.machine (.complete .normal) [.program stmts]).run with
  | none => exact ⟨labels, h⟩
  | some m =>
    obtain ⟨hfinal, labels', hm⟩ := (h.execute hstmts).run hrun
    refine ⟨labels', ?_⟩
    dsimp only
    split <;> exact hm.finish hfinal

/-- A source is evaluated, whether it is accepted or not. -/
theorem Reached.after_evaluate (h : Reached programs labels (.idle i)) (source : Bytes) :
    ∃ programs' labels', Reached programs' labels' (.idle (i.evaluate source).2.2) := by
  unfold Interpreter.evaluate
  dsimp only
  cases hcompiled : (i.compile source).1.stmts with
  | error failure => exact ⟨_, _, h.refuse hcompiled⟩
  | ok stmts =>
    obtain ⟨labels', hafter⟩ := (h.compile hcompiled).after_execute
      (List.mem_append_right _ List.mem_cons_self)
    exact ⟨_, labels', hafter⟩

theorem Reached.after_evaluateAll (h : Reached programs labels (.idle i)) (sources : List Bytes) :
    ∃ programs' labels',
      Reached programs' labels' (.idle (sources.foldl (fun i s => (i.evaluate s).2.2) i)) := by
  induction sources generalizing programs labels i with
  | nil => exact ⟨_, _, h⟩
  | cons source rest ih =>
    obtain ⟨programs', labels', hafter⟩ := h.after_evaluate source
    exact ih hafter

end

/-! ## The standard interpreter -/

namespace Interpreter

/-- A source is accepted by an interpreter with this next identity. -/
def accepts (next : NodeId) (source : Bytes) : Bool :=
  let parsed := Parsed.ofSource next source
  parsed.faults.isEmpty && (Resolution.ofProgram parsed.stmts).faults.isEmpty

/-- Sources are accepted one after the other. -/
def acceptsAll : NodeId → List Bytes → Bool
  | _, [] => true
  | next, source :: rest =>
    accepts next source && acceptsAll (Parsed.ofSource next source).nextId rest

variable {i j : Interpreter}

theorem compile_of_accepts {source : Bytes} (h : accepts i.nextId source = true) :
    (i.compile source).1.stmts = .ok (Parsed.ofSource i.nextId source).stmts := by
  simp only [accepts, Bool.and_eq_true, List.isEmpty_iff] at h
  simp [compile, h.1, h.2, Failure.ofFaults?]

theorem execute_nextId (i : Interpreter) (stmts : List Stmt) :
    (i.execute stmts).2.nextId = i.nextId := by
  unfold execute
  dsimp only
  split
  · rfl
  · split <;> rfl

theorem evaluate_nextId {source : Bytes} (h : accepts i.nextId source = true) :
    (i.evaluate source).2.2.nextId = (Parsed.ofSource i.nextId source).nextId := by
  have haccepted := compile_of_accepts h
  unfold evaluate
  dsimp only
  rw [haccepted]
  dsimp only
  rw [execute_nextId, (compile_eq_ok haccepted).2.2.2]

namespace HostChange

theorem refl (i : Interpreter) : i.HostChange i := ⟨rfl, rfl, rfl, rfl, rfl, .refl _⟩

theorem trans {k : Interpreter} (h : i.HostChange j) (h' : j.HostChange k) : i.HostChange k :=
  ⟨h'.distances.trans h.distances, h'.nextId.trans h.nextId, h'.functions.trans h.functions,
    h'.classes.trans h.classes, h'.size.trans h.size, h.grows.trans h'.grows⟩

theorem register (i : Interpreter) (name : Bytes) (v : Value) (isProtected : Bool) :
    i.HostChange (i.register name v isProtected) := by
  unfold Interpreter.register Store.register Store.define
  by_cases hbound : i.store.binds Store.globals name
  · simp only [hbound, if_true, Except.mapError]
    exact .refl i
  · simp only [hbound, Except.mapError]
    exact ⟨rfl, rfl, rfl, rfl, by simp [Store.add], .add i.store _ _⟩

/-- The host makes something and binds it. -/
theorem registerNew {s : Store} (hframes : s.frames = i.store.frames)
    (hfunctions : s.functions = i.store.functions) (hclasses : s.classes = i.store.classes)
    (name : Bytes) (v : Value) (isProtected : Bool) :
    i.HostChange ({ i with store := s }.register name v isProtected) := by
  have hmade : i.HostChange { i with store := s } :=
    ⟨rfl, rfl, hfunctions, hclasses, by rw [hframes], .of_frames hframes⟩
  exact hmade.trans (register _ name v isProtected)

theorem registerNative (i : Interpreter) (name : String) (arity : Nat) (op : NativeOp)
    (isProtected : Bool) : i.HostChange (i.registerNative name arity op isProtected) :=
  registerNew (s := (i.store.newNative { name := text name, arity, op }).2) rfl rfl rfl _ _ _

theorem registerMath (i : Interpreter) : i.HostChange i.registerMath := by
  show i.HostChange ({ i with store := _ }.register (text "math") _ true)
  exact registerNew (by rfl) (by rfl) (by rfl) _ _ _

theorem registerNatives (natives : List (String × Nat × NativeOp)) : ∀ i : Interpreter,
    i.HostChange (natives.foldl (fun i n => i.registerNative n.1 n.2.1 n.2.2 true) i) := by
  induction natives with
  | nil => exact .refl
  | cons n natives ih => exact fun i => (registerNative i _ _ _ _).trans (ih _)

end HostChange

end Interpreter

/-- The first state of the run of a source. -/
def Interpreter.launch (i : Interpreter) (source : Bytes) : Machine :=
  (i.compile source).2.machine (.complete .normal)
    [.program (Parsed.ofSource i.nextId source).stmts]

theorem Reached.launch {programs : List (List Stmt)} {labels : List Region} {i : Interpreter}
    {source : Bytes} (h : Reached programs labels (.idle i))
    (haccepts : Interpreter.accepts i.nextId source = true) (n : Nat) : ∃ programs' labels',
      Reached programs' labels' (.running false (i.compile source).2 ((i.launch source).steps n)) := by
  have hcompiled := h.compile (Interpreter.compile_of_accepts haccepts)
  exact ⟨_, (hcompiled.execute (List.mem_append_right _ List.mem_cons_self)).steps n⟩

namespace Interpreter

theorem prelude_accepted : acceptsAll 0 (prelude.map text) = true := by decide +kernel

/-- The standard interpreter is made by what a session can do. -/
theorem standard_reached : ∃ programs labels, Reached programs labels (.idle .standard) := by
  have hnatives : bare.HostChange
      (natives.foldl (fun i n => i.registerNative n.1 n.2.1 n.2.2 true) bare).registerMath :=
    (HostChange.registerNatives natives bare).trans (.registerMath _)
  obtain ⟨programs, labels, hafter⟩ := (Reached.start.host hnatives).after_evaluateAll (prelude.map text)
  rw [List.foldl_map] at hafter
  exact ⟨programs, labels, hafter⟩

end Interpreter

end Treewalk
