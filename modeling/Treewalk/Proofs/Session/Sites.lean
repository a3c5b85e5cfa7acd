import Treewalk.Proofs.Diagnostic.Excerpt
import Treewalk.Proofs.Machine.Part
import Treewalk.Proofs.Scope.Mentions
import Treewalk.Proofs.Session.Outcome
import Treewalk.Proofs.Session.Prepared
import Treewalk.Proofs.Session.Standard

/-!
# Where faults of a program are reported

**Main theorem** (`Session.faults_sited`). Let the first source that a session runs end with a fault. The fault is
reported at a token of the source or of the library. If the source has no name of the library in it, the token is
one of the source, and the excerpt that is written shows the line of this token and carets below it.

The realm of a program (`Realm.ofTokens`) has the names and the sites of its tokens. The heap of the standard
interpreter is closed under it, with the functions of the library in the realm or without them
(`Interpreter.standard_within`), and no run of the program gets out of it.
-/

namespace Treewalk

/-! ## The realm of tokens -/

/-- A token that is part of a source; the end of input is none. -/
def Token.PartOf (t : Token) (source : Bytes) : Prop := t ∈ (Token.scan source).tokens ∧ t.kind ≠ .eof

theorem Token.PartOf.genuine {source : Bytes} {t : Token} (h : t.PartOf source) : t.Genuine :=
  Token.genuine_of_mem_scan h.1 h.2

/-- What is made of tokens of a kind has parts that are made of them. -/
theorem Fragment.Made.part {P : Token → Prop} {Γ Δ : Environs} {p q : Fragment} (h : p.Made P)
    (hpart : (Δ, q) ∈ p.parts Γ) : q.Made P := Everywhere.part_anywhere h hpart

/-- What programs made of some tokens get at, if of the functions that there are already they get at these. -/
def Realm.ofTokens (P : Token → Prop) (hP : ∀ t, P t → t.Genuine) (functions : Set FunctionId) : Realm where
  arrays := Set.univ
  frames := Set.univ
  functions := functions
  names := {name | name = Store.receiverName ∨ ∃ t, P t ∧ t.lexeme = name}
  code p := p.Made P
  sites := {site | ∃ t, P t ∧ t.site = site}
  globals_mem := trivial
  receiver_mem := .inl rfl
  code_part h hpart := h.part hpart
  code_token {p} h t ht := by
    have hbuilt : p.Built P := (h {}).here.1
    have hmem : P t := by
      cases p with
      | expr e => exact hbuilt t ht
      | stmt s => exact hbuilt.1 t ht
      | list ss => cases ht
    exact ⟨.inr ⟨t, hmem, rfl⟩, t, hmem, rfl⟩
  code_print {pos e} h := by
    obtain ⟨t, ht, hkind, hpos⟩ := (h {}).here.2
    have hlexeme : t.lexeme = text "print" := by
      have hmark := congrArg Token.lexeme ((hP t ht).move_eq_mark hkind rfl)
      exact hmark
    exact ⟨t, ht, by rw [Token.site, hlexeme, hpos]⟩

/-! ## The heap of the standard interpreter -/

namespace Interpreter

section

variable {P : Token → Prop} {hP : ∀ t, P t → t.Genuine}

/-- The functions of the library are made of the tokens of its sources. -/
theorem library_within (hprelude : ∀ source ∈ prelude, ∀ t, t.PartOf (text source) → P t)
    (functions : Set FunctionId) : ∀ d ∈ library, d.closure.In (.ofTokens P hP functions) := by
  intro d hd
  obtain ⟨k, source, hsource, haccepts, hstmts⟩ := mem_declarations? prelude_accepted declarations_prelude hd
  obtain ⟨literal, hliteral, rfl⟩ := List.mem_map.1 hsource
  simp only [accepts, Bool.and_eq_true, List.isEmpty_iff] at haccepts
  have hmade := Parsed.made_of_tokens haccepts.1 fun t ht hkind => hprelude literal hliteral t ⟨ht, hkind⟩
  rw [hstmts] at hmade
  have hstmt : (Fragment.stmt (.function d)).Made P := hmade.part (Γ := {}) List.mem_cons_self
  refine ⟨trivial, fun t ht => ?_, hstmt.part (Γ := {}) List.mem_cons_self⟩
  have htoken : P t := (hstmt {}).here.1.1 t (List.mem_cons_of_mem _ ht)
  exact ⟨.inr ⟨t, htoken, rfl⟩, t, htoken, rfl⟩

/-- The heap of the standard interpreter is closed under a realm that has the tokens of the library, and under one
in which no token is spelled like a function of the library and none of these functions is. -/
theorem standard_within {functions : Set FunctionId}
    (h : (∀ source ∈ prelude, ∀ t, t.PartOf (text source) → P t) ∧ functions = Set.univ ∨
      (∀ t, P t → t.lexeme ∉ library.map (·.name.lexeme)) ∧ functions = {f | library.length ≤ f}) :
    Interpreter.standard.store.In (.ofTokens P hP functions) := by
  rw [standard_store]
  refine furnished_isOriginal.within.declareAll ?_
  rcases h with ⟨hprelude, rfl⟩ | ⟨hnames, rfl⟩
  · exact .inl ⟨library_within hprelude Set.univ, rfl⟩
  · refine .inr ⟨fun d hd => ?_, fun f hf => ?_⟩
    · have hmem : d.name.lexeme ∈ library.map (·.name.lexeme) := List.mem_map.2 ⟨d, hd, rfl⟩
      rintro (hreceiver | ⟨t, ht, hlexeme⟩)
      · rw [hreceiver, library_names] at hmem
        revert hmem
        decide +kernel
      · exact hnames t ht (hlexeme ▸ hmem)
    · rw [furnished_isOriginal.functions, Nat.zero_add] at hf
      exact Nat.not_le.2 hf

end

end Interpreter

/-! ## Runs of sources -/

/-- What keeps a source from being compiled is no fault of a run. -/
theorem Interpreter.compile_ne_runtime {i : Interpreter} {source : Bytes} {f : Failure}
    (h : (i.compile source).1.stmts = .error f) (e : RuntimeError) : f ≠ .runtime e := by
  unfold compile at h
  dsimp only at h
  split at h
  · rename_i g hfaults
    obtain rfl : g = f := Except.error.inj h
    cases hlist : (Parsed.ofSource i.nextId source).faults with
    | nil =>
      rw [hlist] at hfaults
      cases hfaults
    | cons d ds =>
      rw [hlist] at hfaults
      cases hfaults
      exact nofun
  · split at h
    · cases h
    · cases h
      exact nofun

/-- Neither is it what keeps a program from running. -/
theorem Session.prepare_ne_runtime {s : Session} {name source : Bytes} {f : Failure}
    (h : (s.prepare name source).1 = .error f) (e : RuntimeError) : f ≠ .runtime e := by
  unfold prepare at h
  dsimp only at h
  generalize warn _ _ = t at h
  cases hstmts : (s.interpreter.compile source).1.stmts with
  | error g =>
    rw [hstmts] at h
    cases h
    exact Interpreter.compile_ne_runtime hstmts e
  | ok stmts =>
    rw [hstmts] at h
    dsimp only at h
    generalize showTree _ _ = shown at h
    obtain ⟨v, ok⟩ := shown
    cases ok with
    | false =>
      cases h
      exact nofun
    | true => cases h

/-- A run that ends with a fault has compiled its source and executed it. -/
theorem Session.prepare_of_fault {s : Session} {name source : Bytes} {e : RuntimeError}
    (h : (s.run name source).1 = .failed (.runtime e)) : ∃ stmts, (s.prepare name source).1 = .ok stmts := by
  cases hprepared : (s.prepare name source).1 with
  | ok stmts => exact ⟨stmts, rfl⟩
  | error f =>
    rw [run_of_not_prepare hprepared] at h
    exact absurd (Outcome.failed.inj h) (prepare_ne_runtime hprepared e)

/-- The fault of a run is reported at a site of every realm of its program and its heap. -/
theorem Interpreter.fault_site {i : Interpreter} {stmts : List Stmt} {e : RuntimeError} {R : Realm}
    (hfailed : (i.execute stmts).1 = .failed (.runtime e)) (hcode : R.code (.list stmts)) (hstore : i.store.In R)
    (harrays : R.arrays = Set.univ) (hframes : R.frames = Set.univ)
    (hfunctions : ∀ f, i.store.functions.size ≤ f → f ∈ R.functions) : e.In R := by
  obtain ⟨m, halt, hrun, hcontrol, houtcome⟩ := halted_of_execute_failed hfailed
  obtain ⟨-, n, rfl⟩ := Machine.run_eq_some_iff.1 hrun
  have hmakes : ∀ s s' : Store, i.store.functions.size ≤ s.functions.size → R.Makes s s' := by
    intro s s' hsize
    refine ⟨fun f _ _ => ?_, fun a _ _ => ?_, fun f hf _ => hfunctions f (Nat.le_trans hsize hf)⟩
    · rw [hframes]
      trivial
    · rw [harrays]
      trivial
  have hwithin : ∀ n, ((i.machine (.complete .normal) [.program stmts]).steps n).Within R
      ⟨.completion, [], Store.globals, 0⟩ i.store := by
    intro n
    induction n with
    | zero => exact ⟨⟨hstore.leads, Nat.zero_le _⟩, trivial, .code rfl hcode R.globals_mem .anchor⟩
    | succ n ih =>
      have hlast : ∀ m : Machine, m.steps (n + 1) = (m.steps n).step := fun m => by rw [Machine.steps_add]; rfl
      have hgrows := ((i.machine (.complete .normal) [.program stmts]).steps_extends n).size_functions
      rw [hlast]
      exact ih.advance rfl (hmakes _ _ hgrows)
  have hhalt := (hwithin n).control
  rw [hcontrol] at hhalt
  cases halt with
  | error e' =>
    cases houtcome
    exact hhalt.1
  | plain message => cases houtcome
  | fault f => cases houtcome

/-- The host may put another console in place. -/
theorem Interpreter.HostChange.withConsole (i : Interpreter) (console : Console) :
    i.HostChange { i with console } := ⟨rfl, rfl, rfl, rfl, rfl, .refl _⟩

/-- The faults of accepted programs have their places. -/
theorem Reached.fault_located {programs : List (List Stmt)} {labels : List Region} {i : Interpreter}
    {stmts : List Stmt} {e : RuntimeError} (h : Reached programs labels (.idle i)) (hstmts : stmts ∈ programs)
    (hfailed : (i.execute stmts).1 = .failed (.runtime e)) : e.isLocated = true := by
  obtain ⟨e', heq, hlocated⟩ := h.located_of_failed hstmts hfailed
  cases heq
  exact hlocated

/-! ## The theorem -/

/-- The names of the functions of the library. -/
def Interpreter.libraryNames : List Bytes := [text "map", text "filter", text "reduce"]

/-- An interpreter that nothing has run on yet: the standard one, with any console. -/
def Interpreter.IsFresh (i : Interpreter) : Prop := ∃ console, i = { Interpreter.standard with console }

theorem Interpreter.standard_isFresh : Interpreter.standard.IsFresh := by
  unfold Interpreter.IsFresh
  generalize Interpreter.standard = i
  exact ⟨i.console, rfl⟩

/-- A fault that ends the first source of a session is reported at a token of the source or of the library. If the
source does not name the library, it is reported at a token of the source, and shown where this stands. -/
theorem Session.faults_sited {s : Session} (hfresh : s.interpreter.IsFresh) {name source : Bytes} {e : RuntimeError}
    (hfailed : (s.run name source).1 = .failed (.runtime e)) :
    (∃ t : Token, (t.PartOf source ∨ ∃ library ∈ Interpreter.prelude, t.PartOf (text library)) ∧
      e.site = some t.site) ∧
    ((∀ t : Token, t.PartOf source → t.lexeme ∉ Interpreter.libraryNames) →
      ∃ t : Token, t.PartOf source ∧ e.site = some t.site ∧
        ∃ (u : Session) (lines : List Bytes), (s.run name source).2 = u.report lines ∧
          Listing.Marks s.widths source t ((Listing.ofSource name source s.widths).header e.diagnostic) lines) := by
  obtain ⟨console, hfresh⟩ := hfresh
  obtain ⟨stmts, hprepared⟩ := prepare_of_fault hfailed
  have hstmts := compile_of_prepare hprepared
  have hreported := (s.prepare_reported name source).interpreter
  have hrun := run_of_prepare hprepared
  generalize (s.prepare name source).2 = u at hreported hrun
  obtain ⟨hparsed, hprogram, -, hcompiled⟩ := Interpreter.compile_eq_ok hstmts
  -- what was executed, and the report on it
  have hexecuted : (u.interpreter.execute stmts).1 = .failed (.runtime e) ∧
      ∃ v : Session, (s.run name source).2 = v.report ((Listing.ofSource name source s.widths).excerpt e.diagnostic) := by
    rw [hrun] at hfailed ⊢
    unfold execute at hfailed ⊢
    dsimp only at hfailed ⊢
    cases hexecute : (u.interpreter.execute stmts).1 with
    | failed f =>
      rw [hexecute] at hfailed
      cases hfailed
      exact ⟨rfl, _, rfl⟩
    | _ =>
      rw [hexecute] at hfailed
      cases hfailed
  obtain ⟨hexecuted, v, hreport⟩ := hexecuted
  have hstore : u.interpreter.store = Interpreter.standard.store := by
    rw [hreported.store, hcompiled, hfresh]
  have hlocated : e.isLocated = true := by
    obtain ⟨programs, labels, hstandard⟩ := Interpreter.standard_reached
    have hstart := hstandard.host (.withConsole _ console)
    rw [← hfresh] at hstart
    have hu : (s.interpreter.compile source).2.HostChange u.interpreter := by
      obtain ⟨err, heq⟩ := hreported
      rw [heq]
      exact .withConsole _ _
    exact ((hstart.compile hstmts).host hu).fault_located (List.mem_append_right _ List.mem_cons_self) hexecuted
  obtain ⟨site, hsite, hline⟩ := RuntimeError.exists_of_isLocated hlocated
  have hsited : ∀ {P : Token → Prop} (hP : ∀ t, P t → t.Genuine) (functions : Set FunctionId),
      (∀ t : Token, t.PartOf source → P t) → Interpreter.standard.store.In (.ofTokens P hP functions) →
      (∀ f, Interpreter.standard.store.functions.size ≤ f → f ∈ functions) →
      ∃ t, P t ∧ e.site = some t.site := by
    intro P hP functions hsource hheap hfunctions
    have hmade := Parsed.made_of_tokens hparsed fun t ht hkind => hsource t ⟨ht, hkind⟩
    rw [hprogram] at hmade
    rw [← hstore] at hheap hfunctions
    obtain ⟨t, ht, heq⟩ := Interpreter.fault_site (R := .ofTokens P hP functions) hexecuted hmade hheap rfl rfl
      hfunctions site hsite hline
    exact ⟨t, ht, by rw [hsite, heq]⟩
  constructor
  · refine hsited ?_ Set.univ (fun t ht => .inl ht)
      (Interpreter.standard_within (.inl ⟨fun library hlibrary t ht => .inr ⟨library, hlibrary, ht⟩, rfl⟩))
      fun _ _ => trivial
    rintro t (ht | ⟨library, -, ht⟩)
    · exact ht.genuine
    · exact ht.genuine
  · intro hnames
    obtain ⟨t, ht, htsite⟩ := hsited (fun t (ht : t.PartOf source) => ht.genuine)
      {f | Interpreter.library.length ≤ f} (fun t ht => ht)
      (Interpreter.standard_within (.inr ⟨by rw [Interpreter.library_names]; exact hnames, rfl⟩)) (by
        intro f hf
        rw [Interpreter.standard_store, Interpreter.functions_declareAll] at hf
        exact Nat.le_trans (Nat.le_add_left _ _) hf)
    have hplace : e.diagnostic.place = t.pos.place := by
      rw [RuntimeError.diagnostic, htsite]
      rfl
    have hlexeme : e.diagnostic.lexeme = t.lexeme := by
      rw [RuntimeError.diagnostic, htsite]
      rfl
    exact ⟨t, ht, htsite, v, _, hreport, Listing.excerpt_token ht.1 ht.2 hplace hlexeme⟩

/-- A source without warnings that a new session runs up to a fault. -/
theorem Session.run_fault {source : Bytes} {n : Nat} {e : RuntimeError}
    (haccepts : Interpreter.accepts Interpreter.assembled.nextId source = true)
    (hwarnings : (Interpreter.assembled.compile source).1.warnings.isEmpty = true)
    (hfault : ((Interpreter.assembled.launch source).steps n).fault? = some e) :
    (Session.run {} [] source).1 = .failed (.runtime e) := by
  have hlog : Interpreter.assembled.console.debug = false := by decide +kernel
  have haccepted := Interpreter.compile_of_accepts (i := .assembled) haccepts
  have hexecuted := Interpreter.execute_of_fault hfault
  have hconsole := Interpreter.assembled.compile_console source
  unfold run prepare warn
  dsimp only
  rw [Interpreter.standard_eq, haccepted, List.isEmpty_iff.1 hwarnings]
  dsimp only
  generalize (Interpreter.assembled.compile source).2 = i at hconsole hexecuted ⊢
  have hreport : ∀ listing : Listing, Session.report { interpreter := i } (listing.excerpts []) =
      { interpreter := i } := fun _ => rfl
  have hquiet : ∀ fields, Session.onConsole { interpreter := i } (·.log "run" fields) = { interpreter := i } := by
    intro fields
    have hsame : i.console.log "run" fields = i.console := by
      rw [Console.log, hconsole, hlog]
      rfl
    rw [Session.onConsole, hsame]
  rw [if_pos rfl, hreport, hquiet, showTree_eq rfl]
  exact (execute_reported _ _ _).1.trans hexecuted

/-- A value that cannot be called, in a source that does not name the library. -/
theorem Session.faults_sited_call : ∃ (e : RuntimeError) (t : Token),
    (Session.run {} [] (text "let f = none;\n\tf();\n")).1 = .failed (.runtime e) ∧
      t.PartOf (text "let f = none;\n\tf();\n") ∧ e.site = some t.site := by
  let e : RuntimeError :=
    ⟨.runtime, some ⟨text ")", ⟨17, 2, 4⟩⟩, text "can only call functions and classes, got none"⟩
  have hfailed : (Session.run {} [] (text "let f = none;\n\tf();\n")).1 = .failed (.runtime e) :=
    Session.run_fault (n := 12) (by decide +kernel) (by decide +kernel) (by decide +kernel)
  have hunnamed : ∀ t : Token, t.PartOf (text "let f = none;\n\tf();\n") →
      t.lexeme ∉ Interpreter.libraryNames := by
    have hall : ∀ lexeme ∈ (Token.scan (text "let f = none;\n\tf();\n")).tokens.map (·.lexeme),
        lexeme ∉ Interpreter.libraryNames := by decide +kernel
    exact fun t ht => hall _ (List.mem_map.2 ⟨t, ht.1, rfl⟩)
  have hfresh : ({} : Session).interpreter.IsFresh := by
    dsimp only
    exact Interpreter.standard_isFresh
  obtain ⟨-, hsited⟩ := Session.faults_sited (s := {}) hfresh hfailed
  obtain ⟨t, ht, hsite, -⟩ := hsited hunnamed
  exact ⟨e, t, hfailed, ht, hsite⟩

/-- A call of a library function that fails in the library: no token of the source stands where the fault is
reported, and the line that is shown has nothing to do with it. -/
theorem Session.fault_in_library : ∃ e : RuntimeError,
    (Session.run {} [] (text "map(none, none);\n\n\nprint \"unreached\";\n")).1 = .failed (.runtime e) ∧
      ∀ t ∈ (Token.scan (text "map(none, none);\n\n\nprint \"unreached\";\n")).tokens,
        ¬ (e.diagnostic.place = t.pos.place ∧ e.diagnostic.lexeme = t.lexeme) := by
  let e : RuntimeError := ⟨.type, some ⟨text ")", ⟨63, 4, 29⟩⟩, text "len expects an array or string, got none"⟩
  refine ⟨e, Session.run_fault (n := 40) (by decide +kernel) (by decide +kernel) (by decide +kernel), ?_⟩
  decide +kernel

end Treewalk
