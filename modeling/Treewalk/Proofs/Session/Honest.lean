import Treewalk.Proofs.Machine.Hidden
import Treewalk.Proofs.Machine.Table
import Treewalk.Proofs.Session.Standard
import Treewalk.Proofs.Session.Tidy

/-!
# Sessions with an honest host

A host can put into a heap what no program could: references to things that are not made yet, marks of unassigned
variables, other natives in the place of those of the language. An honest host does not (`Honest`). The sessions
begin with the standard interpreter.

**Main results.** What the standard interpreter protects stays bound (`Honest.bound`), its functions, natives and
distances stay (`Honest.keeps`), and nothing in the heap leads to what is not made yet (`Honest.hides`).
-/

namespace Treewalk

/-! ## Hosts -/

/-- A value that a host may hand in: it is no mark, and it is made already. -/
def Value.Sound (s : Store) (v : Value) : Prop := v ≠ .unset ∧ s.Shows ∅ v

/-- A native that hands on what it is handed, or what was there when it was made. -/
structure NativeOp.Sound (s : Store) (op : NativeOp) : Prop where
  tidy : op.Tidy
  within : ∀ Z C (h : Store.globals ∉ Z), s.Masks ∅ ∅ Z C → op.In (.besides Z C h)

/-- What an honest host may do to its own objects between runs. What it puts anywhere is sound, and its natives stay
what they are. -/
structure Interpreter.SoundChange (i j : Interpreter) : Prop extends i.HostChange j where
  frames : j.store.frames = i.store.frames
  arrays : i.store.arrays.size ≤ j.store.arrays.size
  elements : ∀ a, ∀ v ∈ j.store.elements a, v.Sound j.store
  fields : ∀ o ∈ j.store.instances, ∀ p ∈ o.fields, p.2.Sound j.store
  properties : ∀ h ∈ j.store.hosts, ∀ p ∈ h.properties, p.2.Sound j.store
  kept : ∀ (k : NativeId) n, i.store.natives[k]? = some n → j.store.natives[k]? = some n
  natives : ∀ n ∈ j.store.natives, n ∈ i.store.natives ∨ n.op.Sound j.store

/-- The phases of sessions that begin with the standard interpreter and have an honest host, with the programs that
were accepted. -/
inductive Honest : List (List Stmt) → Phase → Prop
  | standard {programs} (h : Course [] (.idle .bare) programs (.idle .standard)) :
    Honest programs (.idle .standard)
  | host {programs i j} (h : Honest programs (.idle i)) (hchange : i.SoundChange j) : Honest programs (.idle j)
  | register {programs i} (h : Honest programs (.idle i)) (name : Bytes) {v : Value} (hv : v.Sound i.store)
    (isProtected : Bool) : Honest programs (.idle (i.register name v isProtected))
  | compile {programs i} (h : Honest programs (.idle i)) (source : Bytes) :
    Honest (programs ++ (i.compile source).1.stmts.toOption.toList) (.idle (i.compile source).2)
  | execute {programs i stmts} (h : Honest programs (.idle i)) (hstmts : stmts ∈ programs) :
    Honest programs (.running false i (i.machine (.complete .normal) [.program stmts]))
  | call {programs i} (h : Honest programs (.idle i)) {callee : Value} {args : List Value}
    (hcallee : callee.Sound i.store) (hargs : ∀ v ∈ args, v.Sound i.store) :
    Honest programs (.running true i (i.machine (.call callee args) []))
  | step {programs hosted i m} (h : Honest programs (.running hosted i m)) :
    Honest programs (.running hosted i m.step)
  | finish {programs hosted i m} (h : Honest programs (.running hosted i m)) (hfinal : m.isFinal = true) :
    Honest programs (.idle (i.after m))

section

variable {programs : List (List Stmt)} {hosted : Bool} {i j : Interpreter} {m : Machine} {phase : Phase}

namespace Honest

/-! ## Honest sessions are sessions -/

theorem steps (n : Nat) : ∀ {m : Machine}, Honest programs (.running hosted i m) →
    Honest programs (.running hosted i (m.steps n)) := by
  induction n with
  | zero => exact fun h => h
  | succ n ih => exact fun h => ih h.step

theorem course (h : Honest programs phase) : ∃ known, Course [] (.idle .bare) known (.idle .standard) ∧
    Course known (.idle .standard) programs phase := by
  induction h with
  | standard h => exact ⟨_, h, .start⟩
  | host _ hchange ih =>
    obtain ⟨known, hknown, h⟩ := ih
    exact ⟨known, hknown, h.host hchange.toHostChange hchange.frames⟩
  | register _ name hv isProtected ih =>
    obtain ⟨known, hknown, h⟩ := ih
    exact ⟨known, hknown, h.register name _ isProtected⟩
  | compile _ source ih =>
    obtain ⟨known, hknown, h⟩ := ih
    exact ⟨known, hknown, h.compile source⟩
  | execute _ hstmts ih =>
    obtain ⟨known, hknown, h⟩ := ih
    exact ⟨known, hknown, h.execute hstmts⟩
  | call _ hcallee hargs ih =>
    obtain ⟨known, hknown, h⟩ := ih
    exact ⟨known, hknown, h.call _ _⟩
  | step _ ih =>
    obtain ⟨known, hknown, h⟩ := ih
    exact ⟨known, hknown, h.step⟩
  | finish _ hfinal ih =>
    obtain ⟨known, hknown, h⟩ := ih
    exact ⟨known, hknown, h.finish hfinal⟩

theorem orderly (h : Honest programs phase) : ∃ U, Orderly U phase := by
  induction h with
  | standard => exact Orderly.standard
  | host _ hchange ih =>
    obtain ⟨U, h⟩ := ih
    refine ⟨U, h.host ⟨hchange.frames, hchange.functions, fun a v hv => (hchange.elements a v hv).1,
      fun o ho p hp => (hchange.fields o ho p hp).1, fun o ho p hp => (hchange.properties o ho p hp).1,
      fun n hn => ?_⟩⟩
    exact (hchange.natives n hn).elim (h.idle_tidy.natives n) NativeOp.Sound.tidy
  | register _ name hv isProtected ih =>
    obtain ⟨U, h⟩ := ih
    exact ⟨U, h.register name hv.1 isProtected⟩
  | compile _ source ih =>
    obtain ⟨U, h⟩ := ih
    exact ⟨U, h.compile source⟩
  | execute _ _ ih =>
    obtain ⟨U, h⟩ := ih
    exact ⟨U, h.execute _⟩
  | call _ hcallee hargs ih =>
    obtain ⟨U, h⟩ := ih
    exact ⟨U, h.call hcallee.1 fun v hv => (hargs v hv).1⟩
  | step _ ih =>
    obtain ⟨U, h⟩ := ih
    exact ⟨_, h.step⟩
  | finish _ hfinal ih =>
    obtain ⟨U, h⟩ := ih
    exact ⟨U, h.finish hfinal⟩

/-- A call or an outcome of a run hands on no mark. -/
theorem hands (h : Honest programs (.running hosted i m)) {v : Value} (hv : m.Hands v) : v ≠ .unset := by
  obtain ⟨U, h⟩ := h.orderly
  exact Machine.Tidy.hands h.tidy hv

/-! ## What the standard interpreter holds stays there -/

/-- The names that the standard interpreter protects keep their values. -/
theorem bound (h : Honest programs phase) {name : Bytes} {v : Value} (hv : (name, v) ∈ Interpreter.protections) :
    (phase.store.frame Store.globals).find? name = some { name, value := v, isProtected := true } := by
  obtain ⟨known, hknown, hphase⟩ := h.course
  obtain ⟨programs', hmade, hstandard⟩ := Course.standard
  obtain ⟨labels, hfits⟩ := (hknown.keeps Interpreter.bare_fits).1
  obtain ⟨labels', hfits'⟩ := (hmade.keeps Interpreter.bare_fits).1
  exact (hphase.keeps hfits).2 _ _ ((hstandard.keeps hfits').2 _ _ (Interpreter.protections_bound hv) rfl) rfl

end Honest

/-- A heap keeps the functions and natives of an interpreter, and a later interpreter keeps its distances. -/
structure Interpreter.Keeps (i j : Interpreter) (s : Store) : Prop where
  functions : ∀ (f : FunctionId) c, i.store.functions[f]? = some c → s.functions[f]? = some c
  natives : ∀ (k : NativeId) n, i.store.natives[k]? = some n → s.natives[k]? = some n
  nextId : i.nextId ≤ j.nextId
  distances : ∀ id < i.nextId, j.distances.find? id = i.distances.find? id

/-- An interpreter, or the run on one, keeps what an earlier interpreter held. -/
def Phase.Keeps (i : Interpreter) : Phase → Prop
  | .idle j => i.Keeps j j.store
  | .running _ j m => i.Keeps j m.store ∧ m.distances = j.distances

theorem Honest.keeps (h : Honest programs phase) : phase.Keeps .standard := by
  generalize hstandard : Interpreter.standard = first
  induction h with
  | standard =>
    rw [hstandard]
    exact ⟨fun _ _ h => h, fun _ _ h => h, Nat.le_refl _, fun _ _ => rfl⟩
  | host _ hchange ih =>
    refine ⟨fun f c hc => ?_, fun k n hn => hchange.kept k n (ih.natives k n hn), ?_, fun id hid => ?_⟩
    · rw [hchange.functions]
      exact ih.functions f c hc
    · rw [hchange.nextId]
      exact ih.nextId
    · rw [hchange.distances]
      exact ih.distances id hid
  | @register _ i _ name v _ isProtected ih =>
    have hsame : (i.register name v isProtected).store.functions = i.store.functions ∧
        (i.register name v isProtected).store.natives = i.store.natives ∧
        (i.register name v isProtected).nextId = i.nextId ∧
        (i.register name v isProtected).distances = i.distances := by
      unfold Interpreter.register Store.register Store.define
      split <;> rename_i hstore <;> split at hstore <;> cases hstore <;> exact ⟨rfl, rfl, rfl, rfl⟩
    obtain ⟨hfunctions, hnatives, hnext, hdistances⟩ := hsame
    refine ⟨?_, ?_, ?_, ?_⟩
    · rw [hfunctions]
      exact ih.functions
    · rw [hnatives]
      exact ih.natives
    · rw [hnext]
      exact ih.nextId
    · rw [hdistances]
      exact ih.distances
  | @compile _ i _ source ih =>
    obtain ⟨hnext, hsame⟩ := i.compile_table source
    have hstore := i.compile_store source
    refine ⟨?_, ?_, ih.nextId.trans hnext, fun id hid => ?_⟩
    · rw [hstore]
      exact ih.functions
    · rw [hstore]
      exact ih.natives
    · rw [hsame id (.inl (hid.trans_le ih.nextId))]
      exact ih.distances id hid
  | execute _ _ ih | call _ _ _ ih => exact ⟨ih, rfl⟩
  | @step _ _ _ m _ ih =>
    have hgrown := m.step_extends
    refine ⟨⟨fun f c hc => hgrown.functions f c (ih.1.functions f c hc), fun k n hn => ?_, ih.1.nextId,
      ih.1.distances⟩, m.step_distances.trans ih.2⟩
    rw [hgrown.natives]
    exact ih.1.natives k n hn
  | finish _ _ ih => exact ⟨ih.1.functions, ih.1.natives, ih.1.nextId, ih.1.distances⟩

/-! ## Nothing leads to what is not made yet -/

/-- The heap is closed under a realm, or the run stays in it. -/
def Phase.Within (R : Realm) : Phase → Prop
  | .idle i => i.store.In R
  | .running _ i m => ∃ handed, m.Within R ⟨handed, [], Store.globals, 0⟩ i.store

theorem Interpreter.standard_in {Z : Set FrameId} {C : Set ArrayId} (h : Store.globals ∉ Z) :
    Interpreter.standard.store.In (.besides Z C h) := by
  rw [standard_store]
  refine furnished_isOriginal.within.declareAll (.inl ⟨fun d _ => ?_, rfl⟩)
  exact ⟨h, fun _ _ => ⟨trivial, trivial⟩, trivial⟩

/-- A realm that lacks only what is not made yet has all that a session holds. -/
theorem Honest.within {Z : Set FrameId} {C : Set ArrayId} (hZ : Store.globals ∉ Z) (h : Honest programs phase)
    (hmasks : phase.store.Masks ∅ ∅ Z C) : phase.Within (.besides Z C hZ) := by
  have hmakes : ∀ {s s' : Store}, s'.Masks ∅ ∅ Z C → (Realm.besides Z C hZ).Makes s s' := by
    intro s s' hmasks
    refine ⟨fun f _ hlt hf => ?_, fun a _ hlt ha => ?_, fun _ _ _ => trivial⟩
    · exact (hmasks.later f hf).elim id (Nat.not_le.2 hlt)
    · exact (hmasks.laterArrays a ha).elim id (Nat.not_le.2 hlt)
  induction h with
  | standard => exact Interpreter.standard_in hZ
  | @host _ i j _ hchange ih =>
    have hin := ih (hmasks.earlier (Nat.le_of_eq (by rw [Phase.store, Phase.store, hchange.frames])) hchange.arrays)
    have hsound : ∀ {v : Value}, v.Sound j.store → v.In (.besides Z C hZ) := fun hv => hv.2.in hmasks
    have hframe : ∀ f, j.store.frame f = i.store.frame f := fun f => by rw [Store.frame, hchange.frames, Store.frame]
    refine ⟨fun f hf => hframe f ▸ hin.parents f hf, fun f hf => hframe f ▸ hin.bindings f hf,
      fun a _ v hv => hsound (hchange.elements a v hv), fun o ho p hp => hsound (hchange.fields o ho p hp),
      fun f hf c hc => hin.functions f hf c (hchange.functions ▸ hc), fun c hc => hin.classes c (hchange.classes ▸ hc),
      fun n hn => ?_, fun o ho p hp => hsound (hchange.properties o ho p hp)⟩
    exact (hchange.natives n hn).elim (hin.natives n) fun hop => hop.within Z C hZ hmasks
  | @register _ i _ name v hv isProtected ih =>
    by_cases hbound : i.store.binds Store.globals name = true
    · have hsame : i.register name v isProtected = i := by
        simp [Interpreter.register, Store.register, Store.define, hbound, Except.mapError]
      rw [hsame] at hmasks ⊢
      exact ih hmasks
    · have hnew := Interpreter.register_fresh (by simpa using hbound) v isProtected
      have hsize : i.store.frames.size = (i.register name v isProtected).store.frames.size := by
        rw [hnew]
        simp [Store.add]
      have hsizeArrays : i.store.arrays.size = (i.register name v isProtected).store.arrays.size := by
        rw [hnew]
        rfl
      have hmasks' := hmasks.earlier (s := i.store) hsize.le hsizeArrays.le
      show (i.register name v isProtected).store.In _
      rw [hnew]
      exact ((ih hmasks').add hZ fun _ => hv.2.in hmasks').closed
  | @compile _ i _ source ih =>
    have hstore := i.compile_store source
    show (i.compile source).2.store.In _
    rw [hstore]
    exact ih (by rw [Phase.store, hstore] at hmasks; exact hmasks)
  | execute _ _ ih =>
    exact ⟨.completion, ⟨(ih hmasks).leads, Nat.zero_le _⟩, trivial, .code rfl trivial hZ .anchor⟩
  | call _ hcallee hargs ih =>
    exact ⟨.value, ⟨(ih hmasks).leads, Nat.zero_le _⟩, hcallee.2.in hmasks, fun v hv => (hargs v hv).2.in hmasks,
      .anchor⟩
  | @step _ _ _ m _ ih =>
    have hgrown := m.step_extends
    obtain ⟨handed, hwithin⟩ := ih (hmasks.earlier hgrown.frames hgrown.arrays)
    exact ⟨handed, hwithin.advance rfl (hmakes hmasks)⟩
  | finish _ _ ih =>
    obtain ⟨_, hwithin⟩ := ih hmasks
    exact hwithin.leads.closed

/-- In an honest session nothing leads to what is not made yet. -/
theorem Honest.hides (h : Honest programs (.running hosted i m)) : m.store.Hides ∅ ∅ where
  globals := id
  frames _ := False.elim
  arrays _ := False.elim
  closed Z C hZ hmasks := by
    obtain ⟨_, hwithin⟩ := h.within hZ hmasks
    exact hwithin.leads.closed

/-- What is called next, and its arguments, are made already. -/
theorem Honest.shows (h : Honest programs (.running hosted i m)) {callee : Value} {args : List Value}
    (hcall : m.control = .call callee args) : m.store.Shows ∅ callee ∧ ∀ v ∈ args, m.store.Shows ∅ v := by
  have hmasks : m.store.Masks ∅ ∅ ∅ {a | m.store.arrays.size ≤ a} :=
    ⟨Set.Subset.rfl, fun _ => .inl, Set.empty_subset _, fun _ ha => .inr ha⟩
  obtain ⟨_, hwithin⟩ := h.within id hmasks
  have hcontrol := hwithin.control
  rw [hcall] at hcontrol
  have hshows : ∀ v : Value, v.In (.besides ∅ {a | m.store.arrays.size ≤ a} id) → m.store.Shows ∅ v := by
    intro v hv
    cases v with
    | array a => exact ⟨id, Nat.not_le.1 hv⟩
    | _ => trivial
  exact ⟨hshows _ hcontrol.1, fun v hv => hshows v (hcontrol.2.1 v hv)⟩

end

end Treewalk
