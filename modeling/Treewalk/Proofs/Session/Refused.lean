import Treewalk.Proofs.Parser.Shift
import Treewalk.Proofs.Scope.Relabel
import Treewalk.Proofs.Session.Prepared

/-!
# A refused source leaves no trace

A source that is refused changes two things that outlive it: the next free identity, and distances in the
table, if it was the check that refused it. All of these distances are kept under identities that were given
out to the refused source. No program asks for them: later sources get later identities.

**Twins.** Two interpreters are twins if the one is ahead by `k` identities from `n` on and all else
corresponds (`Interpreter.Twins`). Compiling and running a source takes twins to twins, with the same result.

**Main theorem** (`Session.refused_traceless`). After a refused source a session behaves as if it had never
been there: outcomes, output, objects and global names are the same for all later sources, at every step of them.

There is one exception. Showing trees writes to the diagnostics stream, and a run fails if it cannot write
there; what the refused source reported may have taken the room (`Session.refused_takes_room`).
-/

namespace Treewalk

/-! ## What a session shows -/

/-- How a source ends, what can be seen at each step of its program, and what can be seen after it. -/
structure Observation where
  outcome : Outcome Unit
  steps : Nat → Sight
  after : Sight

/-- Runs sources in order under their names, and observes each of them. -/
def Session.observe (s : Session) : List (Bytes × Bytes) → List Observation
  | [] => []
  | (name, source) :: rest =>
    let (outcome, t) := s.run name source
    ⟨outcome, s.sightAt name source, t.sight⟩ :: t.observe rest

/-! ## Streams -/

namespace Sink

theorem write?_limit {s t : Sink} {bytes : ByteArray} (h : s.write? bytes = some t) : t.limit = s.limit := by
  unfold write? at h
  split at h
  · split at h
    · cases h
    · cases h
      rfl
  · cases h
    rfl

theorem write_limit (s : Sink) (bytes : Bytes) : (s.write bytes).limit = s.limit := by
  unfold write
  cases h : s.write? bytes.pack with
  | none => rfl
  | some t => exact write?_limit h

theorem writeAll_limit (parts : List Bytes) : ∀ s : Sink, (s.writeAll parts).limit = s.limit := by
  induction parts with
  | nil => exact fun _ => rfl
  | cons part rest ih => exact fun s => (ih (s.write part)).trans (write_limit s part)

/-- Without a limit every write goes through. -/
theorem write?_of_limit {s : Sink} (h : s.limit = none) (bytes : ByteArray) : ∃ t, s.write? bytes = some t := by
  unfold write?
  rw [h]
  exact ⟨_, rfl⟩

end Sink

/-! ## Twins -/

section

variable {n k : NodeId} {wanted : Prop}

/-- From `n` on identities are raised by `k`. If trees are `wanted`, then the streams take all of them. -/
def Likeness.ahead (n k : NodeId) (wanted : Prop) : Likeness where
  ids id id' := id < n ∧ id' = id ∨ n ≤ id ∧ id' = id + k
  places p p' := p' = p
  given _ := True
  streams s s' := wanted → s.limit = none ∧ s'.limit = none
  line := by
    rintro p p' rfl
    rfl
  logged := by
    intro s s' h bytes hwanted
    rw [Sink.write_limit, Sink.write_limit]
    exact h hwanted

theorem Likeness.ahead_of_le {id : NodeId} (h : n ≤ id) : (Likeness.ahead n k wanted).ids id (id + k) :=
  .inr ⟨h, rfl⟩

/-- The raised identity of a use is the one that corresponds to it. -/
theorem Likeness.ahead_eq_iff {id id' use : NodeId} (h : (Likeness.ahead n k wanted).ids id id')
    (huse : n ≤ use) : id' = use + k ↔ id = use := by
  rcases h with ⟨hlt, rfl⟩ | ⟨hle, rfl⟩
  · constructor
    · intro heq
      have hge : n ≤ id' := heq ▸ Nat.le_trans huse (Nat.le_add_right use k)
      exact absurd hge (Nat.not_le.2 hlt)
    · intro heq
      exact absurd (heq ▸ huse) (Nat.not_le.2 hlt)
  · exact ⟨Nat.add_right_cancel, fun heq => by rw [heq]⟩

/-- The second interpreter is ahead by `k` identities from `n` on. -/
structure Interpreter.Twins (n k : NodeId) (wanted : Prop) (programs : List (List Stmt)) (i i' : Interpreter) :
    Prop extends i.Like (.ahead n k wanted) i' where
  fits : ∃ labels, Phase.Fits programs labels (.idle i)
  start : n ≤ i.nextId
  nextId : i'.nextId = i.nextId + k
  table : ∀ id id', (Likeness.ahead n k wanted).ids id id' → i'.distances.find? id' = i.distances.find? id

/-- The tables go on to agree when the uses of a new program are kept. -/
theorem Distances.insertAll_ahead (uses : List LocalUse) : ∀ {d d' : Distances},
    (∀ use use', (Likeness.ahead n k wanted).ids use use' → d'.find? use' = d.find? use) →
    (∀ u ∈ uses, n ≤ u.id) → ∀ use use', (Likeness.ahead n k wanted).ids use use' →
      (d'.insertAll (uses.map (LocalUse.map (· + k) id))).find? use' = (d.insertAll uses).find? use := by
  induction uses with
  | nil => exact fun h _ => h
  | cons u rest ih =>
    intro d d' h hids
    have hinsert : ∀ use use', (Likeness.ahead n k wanted).ids use use' →
        (d'.insert (u.id + k) u.distance).find? use' = (d.insert u.id u.distance).find? use := by
      intro use use' huse
      rw [Distances.find?_insert, Distances.find?_insert, h use use' huse]
      simp only [Likeness.ahead_eq_iff huse (hids u List.mem_cons_self)]
    exact ih hinsert fun v hv => hids v (List.mem_cons_of_mem _ hv)

/-- What a source that is accepted is made of. -/
theorem Parsed.ofSource_uses {first : NodeId} {source : Bytes} (h : (Parsed.ofSource first source).faults = [])
    (hcheck : (Resolution.ofProgram (Parsed.ofSource first source).stmts).faults = []) :
    Everywhere (fun _ q => q.Built Token.Proper ∧
      ∀ e use name, q = .expr e → e.use? = some (use, name) → first ≤ use) {}
      (.list (Parsed.ofSource first source).stmts) := by
  obtain ⟨hnumbered, hbuilt⟩ := Parsed.ofSource_drawn h
  obtain ⟨_, _, _, _, hw, _⟩ := Parsed.ofSource_reads h
  obtain ⟨marks, -, hsub, hall⟩ := ofProgram_finds hw hcheck
  intro Γ q hq
  refine ⟨hbuilt {} Γ q hq, fun e use name he huse => ?_⟩
  have hmark := (hall Γ q hq).2 e use name he huse
  exact (hnumbered.within use (hsub.subset (List.mem_map.2 ⟨_, hmark, rfl⟩))).1

/-- Outcomes alike are the same if places stay. -/
theorem Outcome.Like.eq_of_ahead {α : Type} {o o' : Outcome α} (h : o.Like (.ahead n k wanted) o') : o' = o := by
  cases h with
  | error he =>
    cases he with
    | located hp => rw [show _ = _ from hp]
    | unlocated | given => rfl
  | done | plain | broken | unfinished => rfl

namespace Interpreter.Twins

variable {programs : List (List Stmt)} {i i' : Interpreter}

/-- Compiling a source takes twins to twins, and gives the same faults and warnings or trees alike. -/
theorem compile (h : Twins n k wanted programs i i') (source : Bytes) :
    Twins n k wanted (programs ++ (i.compile source).1.stmts.toOption.toList) (i.compile source).2
        (i'.compile source).2 ∧
      (i'.compile source).1.warnings = (i.compile source).1.warnings ∧
      ((∃ f, (i.compile source).1.stmts = .error f ∧ (i'.compile source).1.stmts = .error f) ∨
        ∃ stmts stmts', (i.compile source).1.stmts = .ok stmts ∧ (i'.compile source).1.stmts = .ok stmts' ∧
          List.Forall₂ (Stmt.Like (.ahead n k wanted)) stmts stmts') := by
  obtain ⟨labels, hfits⟩ := h.fits
  have hafter := Interpreter.compile_fits_anyway source hfits
  have hnext := Parsed.nextId_le_ofSource i.nextId source
  have hshift := Parsed.ofSource_shift k i.nextId source
  rw [← h.nextId] at hshift
  have hnextId : (Parsed.ofSource i'.nextId source).nextId = (Parsed.ofSource i.nextId source).nextId + k := by
    rw [hshift]
  cases hparsed : (Parsed.ofSource i.nextId source).faults with
  | cons d ds =>
    have hparsed' : (Parsed.ofSource i'.nextId source).faults = d :: ds := by
      rw [hshift]
      exact hparsed
    rw [compile_of_faults hparsed] at hafter ⊢
    rw [compile_of_faults hparsed']
    refine ⟨⟨⟨h.store, h.console⟩, ⟨labels, hafter⟩, ?_, hnextId, h.table⟩, rfl, .inl ⟨_, rfl, rfl⟩⟩
    exact Nat.le_trans h.start hnext
  | nil =>
    have hparsed' : (Parsed.ofSource i'.nextId source).faults = [] := by
      rw [hshift]
      exact hparsed
    have hstmts' : (Parsed.ofSource i'.nextId source).stmts =
        Stmt.mapAll (· + k) id (Parsed.ofSource i.nextId source).stmts := by
      rw [hshift]
    have huses : ∀ u ∈ (Resolution.ofProgram (Parsed.ofSource i.nextId source).stmts).uses, n ≤ u.id := by
      intro u hu
      have hmem := Resolution.uses_subset _ u hu
      exact Nat.le_trans h.start ((Parsed.ofSource_drawn hparsed).1.within u.id hmem).1
    rw [compile_of_parsed hparsed rfl rfl] at hafter ⊢
    rw [compile_of_parsed hparsed' hstmts' (Resolution.ofProgram_map _ _)]
    refine ⟨⟨⟨h.store, h.console⟩, ⟨labels, hafter⟩, Nat.le_trans h.start hnext, hnextId, ?_⟩, rfl, ?_⟩
    · exact Distances.insertAll_ahead _ h.table huses
    · cases hcheck : (Resolution.ofProgram (Parsed.ofSource i.nextId source).stmts).faults with
      | cons d ds => exact .inl ⟨.faults (d :: ds), by simp, by simp⟩
      | nil =>
        refine .inr ⟨(Parsed.ofSource i.nextId source).stmts, _, by simp, by simp; rfl, ?_⟩
        refine Stmt.likeAll_map _ ⟨{}, fun Γ q hq => ?_⟩
        obtain ⟨hbuilt, hids⟩ := Parsed.ofSource_uses hparsed hcheck Γ q hq
        refine ⟨hbuilt.mono fun _ _ => rfl, fun e use name he huse => ?_⟩
        exact Likeness.ahead_of_le (Nat.le_trans h.start (hids e use name he huse))

/-- Running a program takes twins to twins, with the same outcome. -/
theorem execute (h : Twins n k wanted programs i i') {stmts stmts' : List Stmt} (hstmts : stmts ∈ programs)
    (hlike : List.Forall₂ (Stmt.Like (.ahead n k wanted)) stmts stmts') :
    (i'.execute stmts').1 = (i.execute stmts).1 ∧
      Twins n k wanted programs (i.execute stmts).2 (i'.execute stmts').2 := by
  obtain ⟨labels, hfits⟩ := h.fits
  have hagree : i.distances.AgreeOn programs (.ahead n k wanted) i'.distances :=
    fun _ _ use _ _ _ use' huse => h.table use use' huse
  obtain ⟨houtcome, hafter⟩ := Interpreter.execute_like h.toLike hagree hfits hstmts hlike
  obtain ⟨hfits', -⟩ := (Course.start.after_execute hstmts).keeps hfits
  refine ⟨houtcome.eq_of_ahead, hafter, hfits', ?_, ?_, ?_⟩
  · rw [execute_nextId]
    exact h.start
  · rw [execute_nextId, execute_nextId]
    exact h.nextId
  · rw [execute_distances, execute_distances]
    exact h.table

/-- At each step of programs alike twins look alike. -/
theorem steps (h : Twins n k wanted programs i i') {stmts stmts' : List Stmt} (hstmts : stmts ∈ programs)
    (hlike : List.Forall₂ (Stmt.Like (.ahead n k wanted)) stmts stmts') (count : Nat) :
    (i.after ((i.machine (.complete .normal) [.program stmts]).steps count)).Like (.ahead n k wanted)
      (i'.after ((i'.machine (.complete .normal) [.program stmts']).steps count)) := by
  obtain ⟨labels, hfits⟩ := h.fits
  have hagree : i.distances.AgreeOn programs (.ahead n k wanted) i'.distances :=
    fun _ _ use _ _ _ use' huse => h.table use use' huse
  exact Interpreter.steps_like h.toLike hagree hfits hstmts hlike count

theorem withConsoles (h : Twins n k wanted programs i i') {c c' : Console} (hc : c.Like (.ahead n k wanted) c') :
    Twins n k wanted programs { i with console := c } { i' with console := c' } := by
  obtain ⟨labels, ⟨htable, hknows⟩, hstore⟩ := h.fits
  exact ⟨⟨h.store, hc⟩, ⟨labels, ⟨htable, hknows⟩, hstore⟩, h.start, h.nextId, h.table⟩

end Interpreter.Twins

/-! ## Sessions -/

/-- Sessions on twins, with the same wishes. -/
structure Session.Twins (n k : NodeId) (wanted : Prop) (programs : List (List Stmt)) (s s' : Session) : Prop where
  interpreter : s.interpreter.Twins n k wanted programs s'.interpreter
  showsWarnings : s'.showsWarnings = s.showsWarnings
  dumpsTree : s'.dumpsTree = s.dumpsTree
  widths : s'.widths = s.widths
  wants : s.dumpsTree = true → wanted

namespace Session.Twins

variable {programs : List (List Stmt)} {s s' : Session}

theorem withInterpreters {programs' : List (List Stmt)} (h : Twins n k wanted programs s s')
    {i i' : Interpreter} (hi : i.Twins n k wanted programs' i') :
    Twins n k wanted programs' { s with interpreter := i } { s' with interpreter := i' } :=
  ⟨hi, h.showsWarnings, h.dumpsTree, h.widths, h.wants⟩

theorem report (h : Twins n k wanted programs s s') (lines : List Bytes) :
    Twins n k wanted programs (s.report lines) (s'.report lines) := by
  obtain ⟨err, hconsole, hstreams⟩ := h.interpreter.console
  refine h.withInterpreters (h.interpreter.withConsoles ⟨err.writeAll lines, ?_, fun hwanted => ?_⟩)
  · rw [hconsole]
  · rw [Sink.writeAll_limit, Sink.writeAll_limit]
    exact hstreams hwanted

theorem warn (h : Twins n k wanted programs s s') (lines : List Bytes) :
    Twins n k wanted programs (s.warn lines) (s'.warn lines) := by
  unfold Session.warn
  rw [h.showsWarnings]
  split
  · exact h.report lines
  · exact h

theorem log (h : Twins n k wanted programs s s') (message : String) (fields : List (String × Bytes)) :
    Twins n k wanted programs (s.onConsole (·.log message fields)) (s'.onConsole (·.log message fields)) := by
  obtain ⟨err, hconsole, hstreams⟩ := h.interpreter.console
  refine h.withInterpreters (h.interpreter.withConsoles ?_)
  rw [hconsole]
  unfold Console.log
  dsimp only
  split
  · exact ⟨_, rfl, (Likeness.ahead n k wanted).logged _ _ hstreams _⟩
  · exact ⟨err, rfl, hstreams⟩

/-- Without a limit all trees are shown. -/
theorem dump_of_limit (stmts : List Stmt) : ∀ {err : Sink}, err.limit = none →
    ∃ t, dump err stmts = (t, true) ∧ t.limit = none := by
  induction stmts with
  | nil => exact fun h => ⟨_, rfl, h⟩
  | cons stmt rest ih =>
    intro err h
    obtain ⟨t, ht⟩ := Sink.write?_of_limit h (stmt.dump ++ text "\n").pack
    simp only [dump, ht]
    exact ih ((Sink.write?_limit ht).trans h)

theorem showTree (h : Twins n k wanted programs s s') (stmts stmts' : List Stmt) :
    ∃ t t', s.showTree stmts = (t, true) ∧ s'.showTree stmts' = (t', true) ∧
      Twins n k wanted programs t t' := by
  obtain ⟨err, hconsole, hstreams⟩ := h.interpreter.console
  unfold Session.showTree
  rw [h.dumpsTree]
  cases hdumps : s.dumpsTree with
  | false => exact ⟨s, s', rfl, rfl, h⟩
  | true =>
    obtain ⟨hlimit, hlimit'⟩ := hstreams (h.wants hdumps)
    have herr : s'.interpreter.console.err = err := by rw [hconsole]
    rw [← herr] at hlimit'
    obtain ⟨t, hshown, hafter⟩ := dump_of_limit stmts hlimit
    obtain ⟨t', hshown', hafter'⟩ := dump_of_limit stmts' hlimit'
    rw [hshown, hshown']
    have hconsoles : Console.Like (.ahead n k wanted) { s.interpreter.console with err := t }
        { s'.interpreter.console with err := t' } :=
      ⟨t', by rw [hconsole], fun _ => ⟨hafter, hafter'⟩⟩
    exact ⟨_, _, rfl, rfl, h.withInterpreters (h.interpreter.withConsoles hconsoles)⟩

theorem execute (h : Twins n k wanted programs s s') (listing : Listing) {stmts stmts' : List Stmt}
    (hstmts : stmts ∈ programs) (hlike : List.Forall₂ (Stmt.Like (.ahead n k wanted)) stmts stmts') :
    (s'.execute listing stmts').1 = (s.execute listing stmts).1 ∧
      Twins n k wanted programs (s.execute listing stmts).2 (s'.execute listing stmts').2 := by
  obtain ⟨houtcome, hafter⟩ := h.interpreter.execute hstmts hlike
  have hs := h.withInterpreters hafter
  unfold Session.execute
  dsimp only
  rw [houtcome]
  cases (s.interpreter.execute stmts).1 with
  | failed f => exact ⟨rfl, hs.report _⟩
  | _ => exact ⟨rfl, hs⟩

/-- Preparing a source takes twins to twins, with the same failure or with programs alike. -/
theorem prepare (h : Twins n k wanted programs s s') (name source : Bytes) :
    Twins n k wanted (programs ++ (s.interpreter.compile source).1.stmts.toOption.toList)
        (s.prepare name source).2 (s'.prepare name source).2 ∧
      ((∃ f, (s.prepare name source).1 = .error f ∧ (s'.prepare name source).1 = .error f) ∨
        ∃ stmts stmts', (s.prepare name source).1 = .ok stmts ∧ (s'.prepare name source).1 = .ok stmts' ∧
          List.Forall₂ (Stmt.Like (.ahead n k wanted)) stmts stmts') := by
  obtain ⟨hi, hwarnings, hcompiled⟩ := h.interpreter.compile source
  have hs := (h.withInterpreters hi).warn
    ((Listing.ofSource name source s.widths).excerpts (s.interpreter.compile source).1.warnings)
  unfold Session.prepare
  dsimp only
  rw [h.widths] at hs
  rw [hwarnings, h.widths]
  obtain ⟨f, hf, hf'⟩ | ⟨stmts, stmts', hok, hok', hlike⟩ := hcompiled
  · rw [hf] at hs ⊢
    rw [hf']
    exact ⟨hs.report _, .inl ⟨f, rfl, rfl⟩⟩
  · rw [hok] at hs ⊢
    rw [hok']
    have hlength : stmts'.length = stmts.length := hlike.length_eq.symm
    dsimp only
    rw [hlength]
    have hlogged := hs.log "run"
      [("name", name), ("statements", Bytes.ofNat stmts.length),
        ("warnings", Bytes.ofNat (s.interpreter.compile source).1.warnings.length)]
    obtain ⟨t, t', hshown, hshown', htrees⟩ := hlogged.showTree stmts stmts'
    rw [hshown, hshown']
    exact ⟨htrees, .inr ⟨stmts, stmts', rfl, rfl, hlike⟩⟩

/-- Running a source takes twins to twins, with the same outcome, and they look the same at each step. -/
theorem run (h : Twins n k wanted programs s s') (name source : Bytes) :
    (s'.run name source).1 = (s.run name source).1 ∧
      (∀ count, s'.sightAt name source count = s.sightAt name source count) ∧
      ∃ programs', Twins n k wanted programs' (s.run name source).2 (s'.run name source).2 := by
  obtain ⟨hprepared, hsame⟩ := h.prepare name source
  unfold Session.run Session.sightAt
  obtain ⟨f, hf, hf'⟩ | ⟨stmts, stmts', hok, hok', hlike⟩ := hsame
  · generalize s.prepare name source = p at hf hprepared ⊢
    generalize s'.prepare name source = p' at hf' hprepared ⊢
    obtain ⟨_, t⟩ := p
    obtain ⟨_, t'⟩ := p'
    cases hf
    cases hf'
    exact ⟨rfl, fun _ => Session.sight_eq hprepared.interpreter.toLike, _, hprepared⟩
  · have hmem : stmts ∈ programs ++ (s.interpreter.compile source).1.stmts.toOption.toList := by
      rw [compile_of_prepare hok]
      exact List.mem_append_right _ List.mem_cons_self
    generalize s.prepare name source = p at hok hprepared ⊢
    generalize s'.prepare name source = p' at hok' hprepared ⊢
    obtain ⟨_, t⟩ := p
    obtain ⟨_, t'⟩ := p'
    cases hok
    cases hok'
    dsimp only at hprepared ⊢
    rw [hprepared.widths]
    obtain ⟨houtcome, hafter⟩ := hprepared.execute (Listing.ofSource name source t.widths) hmem hlike
    exact ⟨houtcome, fun count => Session.sight_eq (hprepared.interpreter.steps hmem hlike count), _, hafter⟩

/-- Twins show the same for all sources to come. -/
theorem observe (inputs : List (Bytes × Bytes)) : ∀ {programs : List (List Stmt)} {s s' : Session},
    Twins n k wanted programs s s' → s'.observe inputs = s.observe inputs := by
  induction inputs with
  | nil => exact fun _ => rfl
  | cons input rest ih =>
    intro programs s s' h
    obtain ⟨name, source⟩ := input
    obtain ⟨houtcome, hsteps, programs', hafter⟩ := h.run name source
    simp only [Session.observe]
    rw [houtcome, funext hsteps, Session.sight_eq hafter.interpreter.toLike, ih hafter]

/-- What the second session alone reports makes no difference. -/
theorem reportAfter (h : Twins n k wanted programs s s') (lines : List Bytes) :
    Twins n k wanted programs s (s'.report lines) := by
  obtain ⟨err, hconsole, hstreams⟩ := h.interpreter.console
  refine h.withInterpreters (h.interpreter.withConsoles ⟨err.writeAll lines, ?_, fun hwanted => ?_⟩)
  · rw [hconsole]
  · rw [Sink.writeAll_limit]
    exact hstreams hwanted

end Session.Twins

/-! ## The refused source -/

/-- A source that was only compiled leaves an interpreter that is ahead. -/
theorem Interpreter.compile_twins {programs : List (List Stmt)} {labels : List Region} {i : Interpreter}
    (h : Phase.Fits programs labels (.idle i)) (hroom : wanted → i.console.err.limit = none) (source : Bytes) :
    i.Twins i.nextId ((i.compile source).2.nextId - i.nextId) wanted programs (i.compile source).2 := by
  obtain ⟨⟨htable, hknows⟩, hstore⟩ := h
  obtain ⟨hnext, hsame⟩ := i.compile_table source
  have hfixes : (Likeness.ahead i.nextId ((i.compile source).2.nextId - i.nextId) wanted).Fixes programs := by
    rintro Γ q ⟨program, hprogram, hq⟩
    obtain ⟨hresolved, hbuilt⟩ := hknows program hprogram Γ q hq
    exact ⟨hbuilt.mono fun _ _ => rfl, fun e use name he huse => .inl ⟨(hresolved.2 e use name he huse).1, rfl⟩⟩
  refine ⟨⟨?_, ?_⟩, ⟨labels, ⟨htable, hknows⟩, hstore⟩, Nat.le_refl _, ?_, ?_⟩
  · rw [i.compile_store]
    exact hstore.like_self hfixes fun _ _ _ _ => trivial
  · rw [i.compile_console]
    exact ⟨i.console.err, rfl, fun hwanted => ⟨hroom hwanted, hroom hwanted⟩⟩
  · exact (Nat.add_sub_of_le hnext).symm
  · rintro use use' (⟨hlt, rfl⟩ | ⟨hle, rfl⟩)
    · exact hsame use' (.inl hlt)
    · have hge : (i.compile source).2.nextId ≤ use + ((i.compile source).2.nextId - i.nextId) :=
        Nat.le_trans (Nat.le_of_eq (Nat.add_sub_of_le hnext).symm) (Nat.add_le_add_right hle _)
      rw [hsame _ (.inr hge), htable use hle]
      exact htable _ (Nat.le_trans hnext hge)

end

namespace Session

/-- A source that is refused leaves no trace: objects and output stay as they are, and all sources to come
end as if it had not been there, with the same output, the same objects and the same global names, also at each
step on the way. -/
theorem refused_traceless {s : Session} {programs : List (List Stmt)}
    (hreached : Course [] (.idle .bare) programs (.idle s.interpreter)) {source : Bytes} {failure : Failure}
    (hrefused : (s.interpreter.compile source).1.stmts = .error failure)
    (hroom : s.dumpsTree = false ∨ s.interpreter.console.err.limit = none) (name : Bytes) :
    (s.run name source).1 = .failed failure ∧
      (s.run name source).2.interpreter.store = s.interpreter.store ∧
      (s.run name source).2.sight = s.sight ∧
      ∀ inputs, (s.run name source).2.observe inputs = s.observe inputs := by
  obtain ⟨⟨labels, hfits⟩, -⟩ := hreached.keeps Interpreter.bare_fits
  have hwanted : s.dumpsTree = true → s.interpreter.console.err.limit = none := by
    rcases hroom with hroom | hroom
    · rw [hroom]
      exact nofun
    · exact fun _ => hroom
  have hstart := Interpreter.compile_twins hfits hwanted source
  have htwins : Twins _ _ _ programs s { s with interpreter := (s.interpreter.compile source).2 } :=
    ⟨hstart, rfl, rfl, rfl, id⟩
  obtain ⟨lines, hrun⟩ := run_of_refused hrefused name
  have hafter := htwins.reportAfter lines
  rw [hrun]
  refine ⟨rfl, ?_, Session.sight_eq hafter.interpreter.toLike, fun inputs => hafter.observe inputs⟩
  exact s.interpreter.compile_store source

/-- The check refuses a block after it has kept a distance; still no trace is left. -/
theorem refused_traceless_checked : ∃ failure,
    (Interpreter.bare.compile (text "\x7b let a = true; a; return; \x7d")).1.stmts = .error failure ∧
      (Interpreter.bare.compile (text "\x7b let a = true; a; return; \x7d")).2.distances.find? 1 = some 0 ∧
      ∀ inputs, (run { interpreter := .bare } [] (text "\x7b let a = true; a; return; \x7d")).2.observe inputs =
        observe { interpreter := .bare } inputs := by
  have herror : (Interpreter.bare.compile
      (text "\x7b let a = true; a; return; \x7d")).1.stmts.toOption.isNone = true := by decide +kernel
  have hkept : (Interpreter.bare.compile
      (text "\x7b let a = true; a; return; \x7d")).2.distances.find? 1 = some 0 := by decide +kernel
  cases hstmts : (Interpreter.bare.compile (text "\x7b let a = true; a; return; \x7d")).1.stmts with
  | ok stmts =>
    rw [hstmts] at herror
    cases herror
  | error failure =>
    -- said for any source first, so that this one is not evaluated
    have htrace : ∀ source, (Interpreter.bare.compile source).1.stmts = .error failure → ∀ inputs,
        (run { interpreter := .bare } [] source).2.observe inputs = observe { interpreter := .bare } inputs :=
      fun source h => (refused_traceless (s := { interpreter := .bare }) .start h (.inl rfl) []).2.2.2
    exact ⟨failure, rfl, hkept, htrace _ hstmts⟩

/-- A session that shows trees on a stream with little room. -/
def cramped : Session :=
  { interpreter := { Interpreter.bare with console := { err := { limit := some 60 } } }, dumpsTree := true }

theorem cramped_run : (cramped.run [] (text "print true;")).1 = .done () := by
  have haccepted := Interpreter.compile_of_accepts (i := cramped.interpreter)
    (show Interpreter.accepts 0 (text "print true;") = true by decide +kernel)
  have hprepares : (cramped.prepare [] (text "print true;")).1.toOption.isSome = true := by decide +kernel
  cases hprepared : (cramped.prepare [] (text "print true;")).1 with
  | error f =>
    rw [hprepared] at hprepares
    cases hprepares
  | ok stmts =>
    have hstmts := compile_of_prepare hprepared
    rw [haccepted] at hstmts
    obtain rfl := Except.ok.inj hstmts
    exact run_done (n := 6) hprepared (by decide +kernel)

/-- Where trees are shown on a stream with a limit, what a refused source reports may take the room that a
later source needs. -/
theorem refused_takes_room :
    ¬ ∀ (s : Session) (programs : List (List Stmt)) (source : Bytes) (failure : Failure),
      Course [] (.idle .bare) programs (.idle s.interpreter) →
      (s.interpreter.compile source).1.stmts = .error failure →
      ∀ inputs, (s.run [] source).2.observe inputs = s.observe inputs := by
  intro h
  have hreached : Course [] (.idle .bare) [] (.idle cramped.interpreter) :=
    Course.start.host ⟨rfl, rfl, rfl, rfl, rfl, .refl _⟩ rfl
  have herror : (cramped.interpreter.compile (text "let = ;")).1.stmts.toOption.isNone = true := by
    decide +kernel
  cases hstmts : (cramped.interpreter.compile (text "let = ;")).1.stmts with
  | ok stmts =>
    rw [hstmts] at herror
    cases herror
  | error failure =>
    have hsame := h cramped [] _ failure hreached hstmts [([], text "print true;")]
    have houtcome : ((cramped.run [] (text "let = ;")).2.run [] (text "print true;")).1 = .done () := by
      rw [observe, observe] at hsame
      exact (congrArg Observation.outcome (List.cons.inj hsame).1).trans cramped_run
    have hfails : ((cramped.run [] (text "let = ;")).2.run [] (text "print true;")).1.ctorIdx = 1 := by
      decide +kernel
    rw [houtcome] at hfails
    cases hfails

end Session

end Treewalk
