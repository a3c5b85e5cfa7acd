import Treewalk.Proofs.Session.Alike

/-!
# A source in a session

Before the program of a source runs, the source is compiled and reported on (`Session.prepare`). A report is
written to the diagnostics stream and makes no other difference (`Session.Reported`), so what is prepared is the
session with the compiled source (`Session.prepare_reported`).

What a program shows is said for each number of its steps (`Session.sightAt`), so that it is said of programs
that never end as well. A program that ends leaves behind what it showed last (`Session.sightAt_last`).
-/

namespace Treewalk

/-! ## Reports -/

/-- The same interpreter, but for what was written to its diagnostics stream. -/
def Interpreter.Reported (i j : Interpreter) : Prop := ∃ err, j = { i with console := { i.console with err } }

namespace Interpreter.Reported

variable {i j : Interpreter}

theorem store (h : i.Reported j) : j.store = i.store := by
  obtain ⟨err, rfl⟩ := h
  rfl

theorem distances (h : i.Reported j) : j.distances = i.distances := by
  obtain ⟨err, rfl⟩ := h
  rfl

theorem nextId (h : i.Reported j) : j.nextId = i.nextId := by
  obtain ⟨err, rfl⟩ := h
  rfl

theorem fits {programs : List (List Stmt)} {labels : List Region} (h : i.Reported j)
    (hfits : Phase.Fits programs labels (.idle i)) : Phase.Fits programs labels (.idle j) := by
  obtain ⟨err, rfl⟩ := h
  obtain ⟨⟨htable, hknows⟩, hstore⟩ := hfits
  exact ⟨⟨htable, hknows⟩, hstore⟩

theorem console (h : i.Reported j) : ∃ err, j.console = { i.console with err } := by
  obtain ⟨err, rfl⟩ := h
  exact ⟨err, rfl⟩

theorem compiled_store {source : Bytes} (h : (i.compile source).2.Reported j) : j.store = i.store :=
  h.store.trans (i.compile_store source)

theorem compiled_console {source : Bytes} (h : (i.compile source).2.Reported j) :
    ∃ err, j.console = { i.console with err } := by
  obtain ⟨err, herr⟩ := h.console
  exact ⟨err, by rw [herr, Interpreter.compile_console]⟩

end Interpreter.Reported

/-- Compiling and reporting make no difference to what is alike. -/
theorem Interpreter.Like.reported {L : Likeness} {i i' j j' : Interpreter} (h : i.Like L i')
    (hstreams : ∀ err err', L.streams err err') (hstore : j.store = i.store) (hstore' : j'.store = i'.store)
    (hconsole : ∃ err, j.console = { i.console with err })
    (hconsole' : ∃ err, j'.console = { i'.console with err }) : j.Like L j' := by
  obtain ⟨err, hsame, -⟩ := h.console
  obtain ⟨errj, hj⟩ := hconsole
  obtain ⟨errj', hj'⟩ := hconsole'
  refine ⟨?_, errj', ?_, hstreams _ _⟩
  · rw [hstore, hstore']
    exact h.store
  · rw [hj, hj', hsame]

namespace Session

/-- The same session, but for what was written to its diagnostics stream. -/
def Reported (s t : Session) : Prop := ∃ err, t = s.onConsole fun c => { c with err }

namespace Reported

variable {s t u : Session}

theorem refl (s : Session) : s.Reported s := ⟨s.interpreter.console.err, rfl⟩

theorem trans (h : s.Reported t) (h' : t.Reported u) : s.Reported u := by
  obtain ⟨err, rfl⟩ := h
  obtain ⟨err', rfl⟩ := h'
  exact ⟨err', rfl⟩

theorem interpreter (h : s.Reported t) : s.interpreter.Reported t.interpreter := by
  obtain ⟨err, rfl⟩ := h
  exact ⟨err, rfl⟩

theorem dumpsTree (h : s.Reported t) : t.dumpsTree = s.dumpsTree := by
  obtain ⟨err, rfl⟩ := h
  rfl

theorem widths (h : s.Reported t) : t.widths = s.widths := by
  obtain ⟨err, rfl⟩ := h
  rfl

end Reported

theorem report_reported (s : Session) (lines : List Bytes) : s.Reported (s.report lines) := ⟨_, rfl⟩

theorem warn_reported (s : Session) (lines : List Bytes) : s.Reported (s.warn lines) := by
  unfold warn
  split
  · exact s.report_reported lines
  · exact .refl s

theorem log_reported (s : Session) (message : String) (fields : List (String × Bytes)) :
    s.Reported (s.onConsole (·.log message fields)) := by
  unfold onConsole Console.log
  dsimp only
  split
  · exact ⟨_, rfl⟩
  · exact .refl s

theorem showTree_reported (s : Session) (stmts : List Stmt) : s.Reported (s.showTree stmts).1 := by
  unfold showTree
  split
  · exact ⟨_, rfl⟩
  · exact .refl s

theorem showTree_eq {s : Session} (h : s.dumpsTree = false) (stmts : List Stmt) :
    s.showTree stmts = (s, true) := by
  unfold showTree
  rw [h]
  rfl

/-- What is reported is not seen. -/
theorem sight_of_reported {s t : Session} (h : s.interpreter.Reported t.interpreter) : t.sight = s.sight := by
  obtain ⟨err, heq⟩ := h
  unfold sight
  rw [heq]
  rfl

/-! ## Before the program runs -/

section

variable {s : Session} {name source : Bytes} {stmts : List Stmt}

/-- Preparing a source compiles it; all else is reports. -/
theorem prepare_reported (s : Session) (name source : Bytes) :
    Reported { s with interpreter := (s.interpreter.compile source).2 } (s.prepare name source).2 := by
  unfold prepare
  dsimp only
  have hwarned := warn_reported { s with interpreter := (s.interpreter.compile source).2 }
    ((Listing.ofSource name source s.widths).excerpts (s.interpreter.compile source).1.warnings)
  generalize warn _ _ = t at hwarned ⊢
  cases (s.interpreter.compile source).1.stmts with
  | error f => exact hwarned.trans (t.report_reported _)
  | ok stmts =>
    dsimp only
    have hlogged := hwarned.trans (t.log_reported "run"
      [("name", name), ("statements", Bytes.ofNat stmts.length),
        ("warnings", Bytes.ofNat (s.interpreter.compile source).1.warnings.length)])
    generalize t.onConsole _ = u at hlogged ⊢
    have hshown := hlogged.trans (u.showTree_reported stmts)
    generalize u.showTree stmts = shown at hshown ⊢
    obtain ⟨v, ok⟩ := shown
    cases ok <;> exact hshown

theorem prepare_of_refused {f : Failure} (h : (s.interpreter.compile source).1.stmts = .error f) (name : Bytes) :
    ∃ lines, s.prepare name source =
      (.error f, { s with interpreter := (s.interpreter.compile source).2 }.report lines) := by
  unfold prepare
  dsimp only
  rw [h]
  dsimp only
  unfold warn
  split
  · refine ⟨(Listing.ofSource name source s.widths).excerpts (s.interpreter.compile source).1.warnings ++
      (Listing.ofSource name source s.widths).excerpts f.diagnostics, ?_⟩
    simp only [report, onConsole, Sink.writeAll, List.foldl_append]
  · exact ⟨_, rfl⟩

/-- Where no tree is shown, an accepted source has its program run. -/
theorem prepare_of_accepted (h : (s.interpreter.compile source).1.stmts = .ok stmts)
    (hdumps : s.dumpsTree = false) (name : Bytes) : (s.prepare name source).1 = .ok stmts := by
  unfold prepare
  dsimp only
  have hwarned := warn_reported { s with interpreter := (s.interpreter.compile source).2 }
    ((Listing.ofSource name source s.widths).excerpts (s.interpreter.compile source).1.warnings)
  generalize warn _ _ = t at hwarned ⊢
  rw [h]
  dsimp only
  rw [showTree_eq ((t.log_reported _ _).dumpsTree.trans (hwarned.dumpsTree.trans hdumps))]

/-- Only the program of an accepted source is run. -/
theorem compile_of_prepare (h : (s.prepare name source).1 = .ok stmts) :
    (s.interpreter.compile source).1.stmts = .ok stmts := by
  unfold prepare at h
  dsimp only at h
  generalize warn _ _ = t at h
  cases hstmts : (s.interpreter.compile source).1.stmts with
  | error f =>
    rw [hstmts] at h
    cases h
  | ok program =>
    rw [hstmts] at h
    dsimp only at h
    generalize showTree _ _ = shown at h
    obtain ⟨v, ok⟩ := shown
    cases ok with
    | false => cases h
    | true => exact congrArg Except.ok (Except.ok.inj h)

theorem run_of_prepare (h : (s.prepare name source).1 = .ok stmts) :
    s.run name source = (s.prepare name source).2.execute (Listing.ofSource name source s.widths) stmts := by
  have hwidths := (s.prepare_reported name source).widths
  unfold run
  generalize s.prepare name source = p at h hwidths ⊢
  obtain ⟨result, t⟩ := p
  obtain rfl : result = .ok stmts := h
  exact congrArg (fun widths => t.execute (Listing.ofSource name source widths) stmts) hwidths

theorem run_of_not_prepare {f : Failure} (h : (s.prepare name source).1 = .error f) :
    s.run name source = (.failed f, (s.prepare name source).2) := by
  unfold run
  generalize s.prepare name source = p at h ⊢
  obtain ⟨result, t⟩ := p
  obtain rfl : result = .error f := h
  rfl

/-- A refused source is compiled and reported. -/
theorem run_of_refused {f : Failure} (h : (s.interpreter.compile source).1.stmts = .error f) (name : Bytes) :
    ∃ lines, s.run name source =
      (.failed f, { s with interpreter := (s.interpreter.compile source).2 }.report lines) := by
  obtain ⟨lines, hprepared⟩ := prepare_of_refused h name
  exact ⟨lines, by rw [run_of_not_prepare (by rw [hprepared]), hprepared]⟩

/-- Only a source that is accepted is done. -/
theorem accepts_of_done (h : (s.run name source).1 = .done ()) :
    Interpreter.accepts s.interpreter.nextId source = true := by
  cases hstmts : (s.interpreter.compile source).1.stmts with
  | ok stmts =>
    obtain ⟨hparsed, rfl, hchecked, -⟩ := Interpreter.compile_eq_ok hstmts
    simp [Interpreter.accepts, hparsed, hchecked]
  | error f =>
    obtain ⟨_, hrun⟩ := run_of_refused hstmts name
    rw [hrun] at h
    cases h

/-! ## While the program runs -/

/-- What can be seen of a session that has prepared a source and made a number of steps of its program. -/
def sightAt (s : Session) (name source : Bytes) (k : Nat) : Sight :=
  match s.prepare name source with
  | (.error _, s) => s.sight
  | (.ok stmts, s) =>
    let start := s.interpreter.machine (.complete .normal) [.program stmts]
    { s with interpreter := s.interpreter.after (start.steps k) }.sight

/-- Executing a program runs it; all else is reports. -/
theorem execute_reported (s : Session) (listing : Listing) (stmts : List Stmt) :
    (s.execute listing stmts).1 = (s.interpreter.execute stmts).1 ∧
      Reported { s with interpreter := (s.interpreter.execute stmts).2 } (s.execute listing stmts).2 := by
  unfold execute
  dsimp only
  cases (s.interpreter.execute stmts).1 with
  | failed f => exact ⟨rfl, report_reported _ _⟩
  | _ => exact ⟨rfl, .refl _⟩

theorem run_done {n : Nat} (h : (s.prepare name source).1 = .ok stmts)
    (hends : (((s.prepare name source).2.interpreter.machine (.complete .normal) [.program stmts]).steps
      n).hasEnded = true) : (s.run name source).1 = .done () := by
  rw [run_of_prepare h, (execute_reported _ _ _).1]
  exact Interpreter.execute_of_hasEnded hends

/-- A source that is accepted is executed; all else is reports. -/
theorem run_of_accepted (h : (s.interpreter.compile source).1.stmts = .ok stmts) (hdumps : s.dumpsTree = false)
    (name : Bytes) :
    ∃ i, (s.interpreter.compile source).2.Reported i ∧ (s.run name source).1 = (i.execute stmts).1 ∧
      (i.execute stmts).2.Reported (s.run name source).2.interpreter ∧
      (s.run name source).2.dumpsTree = false ∧
      ∀ k, s.sightAt name source k =
        { s with interpreter := i.after ((i.machine (.complete .normal) [.program stmts]).steps k) }.sight := by
  have hprepared := prepare_of_accepted h hdumps name
  have hreported := s.prepare_reported name source
  rw [run_of_prepare hprepared]
  unfold sightAt
  generalize s.prepare name source = p at hprepared hreported ⊢
  obtain ⟨result, t⟩ := p
  obtain rfl : result = .ok stmts := hprepared
  obtain ⟨houtcome, hafter⟩ := t.execute_reported (Listing.ofSource name source s.widths) stmts
  exact ⟨t.interpreter, hreported.interpreter, houtcome, hafter.interpreter,
    hafter.dumpsTree.trans (hreported.dumpsTree.trans hdumps), fun _ => rfl⟩

/-- A program that ends leaves behind what it showed last. -/
theorem sightAt_last (hends : (s.run name source).1 ≠ .unfinished) :
    ∃ n, ∀ k, s.sightAt name source (n + k) = (s.run name source).2.sight := by
  cases hprepared : (s.prepare name source).1 with
  | error f =>
    rw [run_of_not_prepare hprepared]
    unfold sightAt
    generalize s.prepare name source = p at hprepared ⊢
    obtain ⟨result, t⟩ := p
    obtain rfl : result = .error f := hprepared
    exact ⟨0, fun _ => rfl⟩
  | ok stmts =>
    rw [run_of_prepare hprepared] at hends ⊢
    unfold sightAt
    generalize s.prepare name source = p at hprepared hends ⊢
    obtain ⟨result, t⟩ := p
    obtain rfl : result = .ok stmts := hprepared
    obtain ⟨houtcome, hafter⟩ := t.execute_reported (Listing.ofSource name source s.widths) stmts
    dsimp only at hends ⊢
    rw [houtcome, Interpreter.execute_eq] at hends
    rw [Interpreter.execute_eq] at hafter
    cases hrun : (t.interpreter.machine (.complete .normal) [.program stmts]).run with
    | none =>
      rw [hrun] at hends
      exact absurd rfl hends
    | some last =>
      rw [hrun, Interpreter.finish_some] at hafter
      obtain ⟨hfinal, n, rfl⟩ := Machine.run_eq_some_iff.1 hrun
      refine ⟨n, fun k => ?_⟩
      rw [sight_of_reported hafter.interpreter, Machine.steps_add, Machine.steps_of_isFinal hfinal]

end

end Session

end Treewalk
