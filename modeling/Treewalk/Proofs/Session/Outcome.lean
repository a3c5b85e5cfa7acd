import Treewalk.Proofs.Session.Reached

/-!
# How accepted programs fail

**Main theorem** (`Reached.failures_located`). Whatever natives are registered, in every run of every
session the words that leave loops and functions are taken by what they leave, and a program that fails
does so with an error that has a place in a source.

Both follow from what waits on the stack: a completion reaches only parts whose environs admit it, and an
error without a place is above a call in the program that will give it one.
-/

namespace Treewalk

/-- Does a part wait for a value? The others wait for completions. -/
def Pending.takesValue : Pending → Bool
  | .body _ _ | .loopBody _ _ | .forStart _ _ _ | .forBody _ _ _ | .sequence _ | .restore _
  | .program _ => false
  | _ => true

/-- The machine handles pieces of accepted programs, and hands on what is waited for. -/
structure Directed (programs : List (List Stmt)) (m : Machine) : Prop where
  /-- Nothing leaves the top level. -/
  top : ∀ c, m.control = .complete c →
    (m.pending = [] ∨ ∃ rest more, m.pending = .program rest :: more) → c = .normal
  /-- The words of loops leave no function. -/
  body : ∀ c f env more, m.control = .complete c → m.pending = .body f env :: more →
    c ≠ .leave ∧ c ≠ .skip
  /-- What is evaluated stands in a program. -/
  eval : ∀ e, m.control = .eval e → ∃ program ∈ programs, ∃ Γ, Occurs program Γ (.expr e)
  /-- What is executed stands in a program. -/
  exec : ∀ stmt, m.control = .exec stmt → ∃ program ∈ programs, ∃ Γ, Occurs program Γ (.stmt stmt)
  /-- A value reaches a part that waits for one. -/
  give : ∀ v p rest, m.control = .give v → m.pending = p :: rest → p.takesValue = true
  /-- A completion reaches a part that waits for one. -/
  complete : ∀ c p rest, m.control = .complete c → m.pending = p :: rest → p.takesValue = false

section

variable {programs : List (List Stmt)} {labels : List Region} {s : Store} {hosted : Bool}
  {m : Machine} {env : FrameId} {pending : List Pending}

theorem Stack.takesValue_of_value {p : Pending}
    (h : Stack programs labels s hosted .value env (p :: pending)) : p.takesValue = true := by
  cases h with
  | operand hp => cases hp <;> rfl
  | statement hp => cases hp <;> rfl
  | _ => rfl

theorem Stack.takesValue_of_completion {Γ : Environs} {p : Pending}
    (h : Stack programs labels s hosted (.completion Γ) env (p :: pending)) :
    p.takesValue = false := by
  cases h <;> rfl

/-- At the top level there is no loop to leave and no function to return from. -/
theorem Stack.admits_top {Γ : Environs} (h : Stack programs labels s hosted (.completion Γ) env pending)
    (htop : pending = [] ∨ ∃ rest more, pending = .program rest :: more) : Γ = {} := by
  cases h with
  | finished => rfl
  | program => rfl
  | _ => simp at htop

theorem Stack.inLoop_of_body {Γ : Environs} {f : Closure} {back : FrameId}
    (h : Stack programs labels s hosted (.completion Γ) env (.body f back :: pending)) :
    Γ.inLoop = false := by
  cases h with
  | body hloop _ => exact hloop

theorem Machine.Fits.directed (h : m.Fits programs labels hosted) : Directed programs m := by
  have hfits := h.control
  -- what the stack waits for, if a completion is handed on
  have hcompletes : ∀ c, m.control = .complete c → ∃ Γ, c.Fits labels m.store m.env Γ ∧
      Stack programs labels m.store hosted (.completion Γ) m.env m.pending := by
    intro c hc
    rw [hc] at hfits
    cases hfits with
    | complete hfits hstack => exact ⟨_, hfits, hstack⟩
  constructor
  · intro c hc htop
    obtain ⟨Γ, hfits, hstack⟩ := hcompletes c hc
    obtain rfl := hstack.admits_top htop
    exact hfits.normal rfl rfl
  · intro c f env more hc hpending
    obtain ⟨Γ, hfits, hstack⟩ := hcompletes c hc
    rw [hpending] at hstack
    have hloop := hstack.inLoop_of_body
    constructor
    · rintro rfl
      exact Bool.false_ne_true (hloop.symm.trans hfits)
    · rintro rfl
      exact Bool.false_ne_true (hloop.symm.trans hfits)
  · intro e he
    rw [he] at hfits
    cases hfits with
    | eval hhere _ _ =>
      obtain ⟨program, hprogram, hocc⟩ := hhere
      exact ⟨program, hprogram, _, hocc⟩
  · intro stmt hstmt
    rw [hstmt] at hfits
    cases hfits with
    | exec hhere _ _ _ =>
      obtain ⟨program, hprogram, hocc⟩ := hhere
      exact ⟨program, hprogram, _, hocc⟩
  · intro v p rest hv hpending
    rw [hv, hpending] at hfits
    cases hfits with
    | give hstack => exact hstack.takesValue_of_value
  · intro c p rest hc hpending
    obtain ⟨Γ, -, hstack⟩ := hcompletes c hc
    rw [hpending] at hstack
    exact hstack.takesValue_of_completion

/-- A halt that nothing waits for any more has its place, unless a promise of the check was broken. -/
theorem Machine.Fits.halted_located (h : m.Fits programs labels false) {halt : Halt}
    (hcontrol : m.control = .halt halt) (hpending : m.pending = []) :
    (∃ e, halt = .error e ∧ e.isLocated = true) ∨ ∃ f, halt = .fault f := by
  have hfits := h.control
  rw [hcontrol, hpending] at hfits
  have hguard : ¬ Guarded false [] := by
    rintro (hhosted | hshielded)
    · cases hhosted
    · exact hshielded
  cases hfits with
  | halt hhalt _ =>
    cases halt with
    | error e => exact .inl ⟨e, rfl, hhalt.resolve_right hguard⟩
    | plain message => exact absurd hhalt hguard
    | fault f => exact .inr ⟨f, rfl⟩

end

theorem RuntimeError.exists_of_isLocated {e : RuntimeError} (h : e.isLocated = true) :
    ∃ site, e.site = some site ∧ 1 ≤ site.pos.line := by
  unfold RuntimeError.isLocated at h
  cases hsite : e.site with
  | none => simp [hsite] at h
  | some site =>
    refine ⟨site, rfl, ?_⟩
    simpa [hsite, Nat.one_le_iff_ne_zero, Nat.pos_iff_ne_zero] using h

/-- A run that fails has halted. -/
theorem Interpreter.halted_of_execute_failed {i : Interpreter} {stmts : List Stmt} {failure : Failure}
    (h : (i.execute stmts).1 = .failed failure) : ∃ m halt,
      (i.machine (.complete .normal) [.program stmts]).run = some m ∧ m.control = .halt halt ∧
        haltOutcome halt = (.failed failure : Outcome Unit) := by
  unfold Interpreter.execute at h
  dsimp only at h
  cases hrun : (i.machine (.complete .normal) [.program stmts]).run with
  | none => simp [hrun] at h
  | some m =>
    rw [hrun] at h
    dsimp only at h
    split at h
    · rename_i halt hcontrol
      exact ⟨m, halt, rfl, hcontrol, h⟩
    · cases h

/-- What an accepted program fails with is an error that has its place. -/
theorem Reached.located_of_failed {programs : List (List Stmt)} {labels : List Region} {i : Interpreter}
    {stmts : List Stmt} {failure : Failure} (h : Reached programs labels (.idle i)) (hstmts : stmts ∈ programs)
    (hfailed : (i.execute stmts).1 = .failed failure) : ∃ e, failure = .runtime e ∧ e.isLocated = true := by
  obtain ⟨m, halt, hrun, hcontrol, houtcome⟩ := Interpreter.halted_of_execute_failed hfailed
  obtain ⟨hfinal, labels', hm⟩ := (h.execute hstmts).run hrun
  have hpending : m.pending = [] := by
    cases hp : m.pending with
    | nil => rfl
    | cons p rest => simp [Machine.isFinal, hp] at hfinal
  rcases hm.fits.2.halted_located hcontrol hpending with ⟨e, rfl, hlocated⟩ | ⟨f, rfl⟩
  · cases houtcome
    exact ⟨e, rfl, hlocated⟩
  · cases houtcome

/-- Accepted programs are left only where they may be, and they fail only with located errors. -/
theorem Reached.failures_located {programs : List (List Stmt)} {labels : List Region} :
    (∀ hosted i m, Reached programs labels (.running hosted i m) → Directed programs m) ∧
    ∀ i stmts failure, Reached programs labels (.idle i) → stmts ∈ programs →
      (i.execute stmts).1 = .failed failure →
      ∃ e site, failure = .runtime e ∧ e.site = some site ∧ 1 ≤ site.pos.line := by
  constructor
  · intro hosted i m h
    exact h.fits.2.directed
  · intro i stmts failure h hstmts hfailed
    obtain ⟨e, rfl, hlocated⟩ := h.located_of_failed hstmts hfailed
    obtain ⟨site, hsite, hline⟩ := RuntimeError.exists_of_isLocated hlocated
    exact ⟨e, site, rfl, hsite, hline⟩

/-- The fault that a run has ended with. -/
def Machine.fault? (m : Machine) : Option RuntimeError :=
  match m.pending, m.control with
  | [], .halt (.error e) => some e
  | _, _ => none

theorem Interpreter.execute_of_fault {i : Interpreter} {stmts : List Stmt} {n : Nat} {e : RuntimeError}
    (h : ((i.machine (.complete .normal) [.program stmts]).steps n).fault? = some e) :
    (i.execute stmts).1 = .failed (.runtime e) := by
  generalize hm : (i.machine (.complete .normal) [.program stmts]).steps n = m at h
  unfold Machine.fault? at h
  split at h
  · rename_i e' hpending hcontrol
    cases h
    have hfinal : m.isFinal = true := by simp [Machine.isFinal, hpending, hcontrol]
    unfold Interpreter.execute
    dsimp only
    rw [Machine.run_eq_some_iff.2 ⟨hfinal, n, hm.symm⟩]
    dsimp only
    rw [hcontrol]
    rfl
  · cases h

/-- A native that fails without a place, called in a program. -/
theorem Reached.failures_located_native : ∃ programs labels i stmts e site,
    Reached programs labels (.idle i) ∧ stmts ∈ programs ∧
      (i.execute stmts).1 = .failed (.runtime e) ∧ e.site = some site ∧ 1 ≤ site.pos.line := by
  have hhost := Reached.start.host
    (.registerNative .bare "f" 0 (.script fun _ => .failPlain (text "no")) true)
  have hcompiled := hhost.compile (Interpreter.compile_of_accepts
    (show Interpreter.accepts 0 (text "f();") = true by decide +kernel))
  generalize hi : (Interpreter.compile _ _).2 = i at hcompiled
  generalize hstmts : Parsed.stmts _ = stmts at hcompiled
  obtain ⟨e, hfault⟩ := Option.isSome_iff_exists.1
    (show ((i.machine (.complete .normal) [.program stmts]).steps 10).fault?.isSome = true by
      rw [← hi, ← hstmts]
      decide +kernel)
  have hfailure := Interpreter.execute_of_fault hfault
  obtain ⟨e', site, heq, hsite, hline⟩ := Reached.failures_located.2 i stmts _ hcompiled
    (List.mem_append_right _ List.mem_cons_self) hfailure
  cases heq
  exact ⟨_, _, i, stmts, e, site, hcompiled, List.mem_append_right _ List.mem_cons_self, hfailure,
    hsite, hline⟩

end Treewalk
