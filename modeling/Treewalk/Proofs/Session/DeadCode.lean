import Treewalk.Proofs.Machine.Prune
import Treewalk.Proofs.Scope.Flagged
import Treewalk.Proofs.Scope.Pruned
import Treewalk.Proofs.Session.Alike
import Treewalk.Proofs.Session.Reached
import Treewalk.Proofs.Tree.Equality

/-!
# Dead code is never seen

**Theorem (`Reached.dead_code_unseen`).** Let two sources be accepted by the same interpreter, and let their
programs be the same tree, up to identities and positions, once both are pruned. Then whatever the first
source does, the second one does: the runs print the same at every step and end with the same outcome, and
they leave the same global names and the same objects, but for identities, positions and the dead code of
functions. What pruning takes away is what the check flags.

The two machines are not compared with each other but each with its pruned version (`Machine.Prunes`), and
the pruned machines with each other (`Machine.Like`). All three comparisons are kept by steps, as long as
values and completions go where they are awaited, which the types of the two machines say.

The two tables have nothing to do with each other: one source may have fewer names than the other, so that
what comes behind has other identities. But a piece of live code stands among the same names in both
programs, so both tables hold the same distance for it (`Stmt.likeAll_prune`).
-/

namespace Treewalk

variable {d d' : Distances}

/-! ## Machines with the same live code -/

/-- Machines that are alike once both are pruned. -/
def Machine.SameLive (d d' : Distances) (m m' : Machine) : Prop :=
  ∃ n n', m.Prunes n ∧ m'.Prunes n' ∧ n.Like (.tables d d') none d d' n'

/-- Interpreters with the same console, and with objects that are alike once all code is pruned. -/
structure Interpreter.SameLive (L : Likeness) (i i' : Interpreter) : Prop where
  store : i.store.prune.Like L i'.store.prune
  console : i'.console = i.console

namespace Machine

variable {m m' n : Machine}

/-- A pruned machine ends with the same outcome. -/
theorem Prunes.finish (h : m.Prunes n) (i : Interpreter) : (i.finish (some n)).1 = (i.finish (some m)).1 := by
  obtain ⟨ps, -, rfl⟩ := h
  simp only [Interpreter.finish, Machine.pruned]
  cases m.control <;> rfl

namespace SameLive

theorem step (h : m.SameLive d d' m') (hrouted : m.Routed) (hrouted' : m'.Routed) :
    m.step.SameLive d d' m'.step := by
  obtain ⟨n, n', hn, hn', hlike⟩ := h
  refine ⟨n.step, n'.step, hn.step hrouted, hn'.step hrouted', ?_⟩
  exact hlike.step (fun _ _ _ _ hid => hid) (hn.routed hrouted) fun _ => rfl

theorem steps (h : m.SameLive d d' m') (hrouted : ∀ k, (m.steps k).Routed)
    (hrouted' : ∀ k, (m'.steps k).Routed) (k : Nat) : (m.steps k).SameLive d d' (m'.steps k) := by
  induction k generalizing m m' with
  | zero => exact h
  | succ k ih =>
    exact ih (h.step (hrouted 0) (hrouted' 0)) (fun k => hrouted (k + 1)) fun k => hrouted' (k + 1)

theorem isFinal_eq (h : m.SameLive d d' m') : m'.isFinal = m.isFinal := by
  obtain ⟨n, n', hn, hn', hlike⟩ := h
  rw [← hn.isFinal_eq, ← hn'.isFinal_eq, hlike.isFinal_eq]

theorem console_eq (h : m.SameLive d d' m') : m'.console = m.console := by
  obtain ⟨n, n', ⟨_, -, rfl⟩, ⟨_, -, rfl⟩, hlike⟩ := h
  obtain ⟨err, hconsole, herr⟩ := hlike.console
  obtain rfl : m.console.err = err := herr
  exact hconsole

theorem store_like (h : m.SameLive d d' m') : m.store.prune.Like (.tables d d') m'.store.prune := by
  obtain ⟨n, n', ⟨_, -, rfl⟩, ⟨_, -, rfl⟩, hlike⟩ := h
  exact hlike.store

/-- Runs of machines with the same live code end together. -/
theorem run (h : m.SameLive d d' m') (hrouted : ∀ k, (m.steps k).Routed)
    (hrouted' : ∀ k, (m'.steps k).Routed) : Option.Rel (SameLive d d') m.run m'.run :=
  run_rel (h.steps hrouted hrouted') fun _ _ => isFinal_eq

theorem finish (h : m.SameLive d d' m') (i i' : Interpreter) :
    (i.finish (some m)).1.Like (.tables d d') (i'.finish (some m')).1 ∧
      (i.finish (some m)).2.SameLive (.tables d d') (i'.finish (some m')).2 := by
  refine ⟨?_, ?_⟩
  · obtain ⟨n, n', hn, hn', hlike⟩ := h
    rw [← hn.finish i, ← hn'.finish i']
    exact (hlike.finish i i').1
  · rw [Interpreter.finish_some, Interpreter.finish_some]
    exact ⟨h.store_like, h.console_eq⟩

end SameLive

end Machine

theorem Interpreter.SameLive.finish {i i' : Interpreter} (h : i.SameLive (.tables d d') i')
    {r r' : Option Machine} (hr : Option.Rel (Machine.SameLive d d') r r') :
    (i.finish r).1.Like (.tables d d') (i'.finish r').1 ∧
      (i.finish r).2.SameLive (.tables d d') (i'.finish r').2 := by
  cases hr with
  | none => exact ⟨.unfinished, h⟩
  | some hm => exact hm.finish i i'

theorem Interpreter.SameLive.globals_eq {L : Likeness} {i i' : Interpreter} (h : i.SameLive L i') :
    i'.globals = i.globals := by
  have hframe : i'.store.frame = i.store.frame := h.store.resembles.frame_eq
  rw [globals, globals, hframe]

/-! ## Code of accepted programs -/

section

variable {programs : List (List Stmt)} {labels : List Region} {i : Interpreter}

/-- An interpreter has the distances of all programs that it accepted. -/
theorem Interpreter.Trusts.settled (h : i.Trusts programs) {Γ : Environs} {q : Fragment}
    (hq : Here programs Γ q) : q.Settled i.distances Γ := by
  obtain ⟨program, hmem, hocc⟩ := hq
  intro Δ r hbelow
  obtain ⟨hresolved, hbuilt⟩ := h.knows program hmem Δ r (hocc.trans hbelow)
  exact ⟨hbuilt.mono fun _ ht => ht.line, fun e id name he huse => (hresolved.2 e id name he huse).2⟩

/-- Two tables settle the same pieces. -/
def BothSettle (d d' : Distances) (programs : List (List Stmt)) : Prop :=
  ∀ Γ q, Here programs Γ q → q.Settled d Γ ∧ q.Settled d' Γ

theorem BothSettle.abreast (h : BothSettle d d' programs) {Γ : Environs} {q q' : Fragment}
    (hq : Here programs Γ q) (hq' : Here programs Γ q') : q.Abreast d d' q' :=
  ⟨Γ, Γ, .refl Γ, (h Γ q hq).1, (h Γ q' hq').2⟩

/-- A pruned function is like itself between two tables that settle its body. -/
theorem Closure.prune_like {f : Closure} (hparams : ∀ p ∈ f.params, p.Proper)
    (hbody : (Fragment.list f.body).Abreast d d' (.list f.body)) : f.prune.Like (.tables d d') f.prune := by
  have hlines : ∀ p ∈ f.params, 1 ≤ p.pos.line := fun p hp => (hparams p hp).line
  exact ⟨rfl, Token.likeAll_tables hlines hlines rfl, Stmt.likeAll_prune f.body f.body hbody rfl, rfl, rfl⟩

/-- A store of settled code is like itself once it is pruned. -/
theorem Store.Fits.prune_like {s : Store} (h : s.Fits programs labels) (hsettle : BothSettle d d' programs) :
    s.prune.Like (.tables d d') s.prune := by
  refine ⟨rfl, .same fun f hf => ?_, .same fun c hc => ?_, fun _ _ _ _ => trivial⟩
  · obtain ⟨f, hmem, rfl⟩ := Array.mem_map.1 hf
    obtain ⟨hparams, Γ, kind, -, hbody⟩ := h.functions f hmem
    exact Closure.prune_like hparams (hsettle.abreast hbody hbody)
  · obtain ⟨c, hmem, rfl⟩ := Array.mem_map.1 hc
    obtain ⟨Γ, -, hfields, hmethods⟩ := h.classes c hmem
    refine ⟨rfl, List.forall₂_same.2 fun f hf => ?_, ?_, rfl⟩
    · obtain ⟨f, hmethod, rfl⟩ := List.mem_map.1 hf
      obtain ⟨-, hparams, kind, hbody⟩ := hmethods f hmethod
      exact Closure.prune_like hparams (hsettle.abreast hbody hbody)
    · exact Field.likeAll_prune c.fields c.fields
        (fun f hf f' hf' => hsettle.abreast (hfields f hf) (hfields f' hf')) rfl

/-! ## Two sources -/

theorem Interpreter.evaluate_eq_finish {source : Bytes} {stmts : List Stmt}
    (h : (i.compile source).1.stmts = .ok stmts) :
    (i.evaluate source).2 = (i.compile source).2.finish (i.launch source).run := by
  obtain ⟨-, rfl, -⟩ := compile_eq_ok h
  unfold evaluate
  dsimp only
  rw [h]
  rfl

theorem Reached.launch_routed {source : Bytes} {stmts : List Stmt} (h : Reached programs labels (.idle i))
    (haccepted : (i.compile source).1.stmts = .ok stmts) (k : Nat) : ((i.launch source).steps k).Routed := by
  obtain ⟨-, rfl, -⟩ := Interpreter.compile_eq_ok haccepted
  obtain ⟨labels', hrunning⟩ := ((h.compile haccepted).execute
    (List.mem_append_right _ List.mem_cons_self)).steps k
  exact hrunning.fits.2.routed

/-- Programs with the same live code start with the same live code. -/
theorem Interpreter.SameLive.start {i' : Interpreter} (h : i.SameLive (.tables i.distances i'.distances) i')
    {stmts stmts' : List Stmt}
    (hstmts : List.Forall₂ (Stmt.Like (.tables i.distances i'.distances)) (Stmt.pruneAll stmts)
      (Stmt.pruneAll stmts')) :
    (i.machine (.complete .normal) [.program stmts]).SameLive i.distances i'.distances
      (i'.machine (.complete .normal) [.program stmts']) := by
  have hwaits : Waits (.tables i.distances i'.distances) none 0 [.program (Stmt.pruneAll stmts)]
      [.program (Stmt.pruneAll stmts' ++ [])] := .program hstmts
  rw [List.append_nil] at hwaits
  have hconsole : i.console.Like (.tables i.distances i'.distances) i'.console := by
    rw [h.console]
    exact ⟨_, rfl, rfl⟩
  exact ⟨_, _, ⟨[.program (Stmt.pruneAll stmts)], .part .nothing, rfl⟩,
    ⟨[.program (Stmt.pruneAll stmts')], .part .nothing, rfl⟩,
    ⟨hwaits, rfl, rfl, h.store, hconsole, rfl, rfl⟩, .complete⟩

/-- The runs of two sources with the same live code start with the same live code. -/
theorem Reached.launch_sameLive {source source' : Bytes} {stmts stmts' : List Stmt}
    (h : Reached programs labels (.idle i)) (haccepted : (i.compile source).1.stmts = .ok stmts)
    (haccepted' : (i.compile source').1.stmts = .ok stmts')
    (htree : SameTree (Stmt.pruneAll stmts) (Stmt.pruneAll stmts')) :
    (i.compile source).2.SameLive (.tables (i.compile source).2.distances (i.compile source').2.distances)
        (i.compile source').2 ∧
      (i.launch source).SameLive (i.compile source).2.distances (i.compile source').2.distances
        (i.launch source') := by
  obtain ⟨htrusts, -⟩ := Interpreter.compile_fits haccepted h.fits
  obtain ⟨htrusts', -⟩ := Interpreter.compile_fits haccepted' h.fits
  obtain ⟨-, rfl, -⟩ := Interpreter.compile_eq_ok haccepted
  obtain ⟨-, rfl, -⟩ := Interpreter.compile_eq_ok haccepted'
  have hmore : ∀ {more Γ q}, Here programs Γ q → Here (programs ++ more) Γ q :=
    fun ⟨program, hmem, hocc⟩ => ⟨program, List.mem_append_left _ hmem, hocc⟩
  have hsettle : BothSettle (i.compile source).2.distances (i.compile source').2.distances programs :=
    fun Γ q hq => ⟨htrusts.settled (hmore hq), htrusts'.settled (hmore hq)⟩
  have hlast : ∀ {stmts : List Stmt}, Here (programs ++ [stmts]) {} (.list stmts) :=
    ⟨_, List.mem_append_right _ List.mem_cons_self, .here⟩
  have hlive : (i.compile source).2.SameLive
      (.tables (i.compile source).2.distances (i.compile source').2.distances) (i.compile source').2 := by
    refine ⟨?_, by rw [Interpreter.compile_console, Interpreter.compile_console]⟩
    rw [Interpreter.compile_store, Interpreter.compile_store]
    exact h.fits.2.prune_like hsettle
  exact ⟨hlive, hlive.start (Stmt.likeAll_prune _ _
    ⟨{}, {}, .refl {}, htrusts.settled hlast, htrusts'.settled hlast⟩ htree)⟩

/-- The warnings of an accepted source are those of the check. -/
theorem Interpreter.compile_warnings {source : Bytes} {stmts : List Stmt}
    (h : (i.compile source).1.stmts = .ok stmts) :
    (i.compile source).1.warnings = (Resolution.ofProgram stmts).warnings := by
  obtain ⟨hparsed, hstmts, -⟩ := compile_eq_ok h
  rw [compile_of_parsed hparsed hstmts rfl]

/-- Two sources are accepted, and their programs are the same once both are pruned. Then they end with the
same outcome and the same output, they leave the same global names and, but for identities, positions and
dead code, the same objects, and at every step on the way they have written the same. The first one takes the
steps of its program without dead code, and what pruning takes away there is what the check flags; for the
second one let them change places. -/
theorem Reached.dead_code_unseen {source source' : Bytes} {stmts stmts' : List Stmt}
    (h : Reached programs labels (.idle i)) (haccepted : (i.compile source).1.stmts = .ok stmts)
    (haccepted' : (i.compile source').1.stmts = .ok stmts')
    (htree : SameTree (Stmt.pruneAll stmts) (Stmt.pruneAll stmts')) :
    let L := Likeness.tables (i.compile source).2.distances (i.compile source').2.distances
    (i.evaluate source).2.1.Like L (i.evaluate source').2.1 ∧
    (i.evaluate source').2.2.console = (i.evaluate source).2.2.console ∧
    (i.evaluate source').2.2.globals = (i.evaluate source).2.2.globals ∧
    (i.evaluate source).2.2.store.prune.Like L (i.evaluate source').2.2.store.prune ∧
    (∀ k, ((i.launch source').steps k).console = ((i.launch source).steps k).console) ∧
    (∀ k, ((i.launch source).steps k).Prunes ((i.launch source).prune.steps k)) ∧
    FlagsPruned stmts (i.compile source).1.warnings := by
  obtain ⟨hbefore, hstart⟩ := h.launch_sameLive haccepted haccepted' htree
  have hrouted := h.launch_routed haccepted
  have hrouted' := h.launch_routed haccepted'
  obtain ⟨houtcome, hafter⟩ := hbefore.finish (hstart.run hrouted hrouted')
  rw [← Interpreter.evaluate_eq_finish haccepted, ← Interpreter.evaluate_eq_finish haccepted'] at houtcome hafter
  have hprunes : (i.launch source).Prunes (i.launch source).prune := ⟨_, .part .nothing, rfl⟩
  refine ⟨houtcome, hafter.console, hafter.globals_eq, hafter.store,
    fun k => (hstart.steps hrouted hrouted' k).console_eq, hprunes.steps hrouted, ?_⟩
  rw [Interpreter.compile_warnings haccepted]
  exact Resolution.flags_pruned (Interpreter.compile_eq_ok haccepted).2.2.1

end

/-- A function with two dead statements, one of which declares a name. -/
def sampleDead : Bytes := text "fun f(a)\x7breturn a;let b=a;print b;\x7dprint f(f);"

/-- The same without them. -/
def sampleLive : Bytes := text "fun f(a)\x7breturn a;\x7dprint f(f);"

theorem sample_sameTree : SameTree (Stmt.pruneAll (Parsed.ofSource 0 sampleDead).stmts)
    (Stmt.pruneAll (Parsed.ofSource 0 sampleLive).stmts) := by
  unfold SameTree
  decide +kernel

/-- The two samples on an interpreter without globals. The dead statements are flagged, and nothing is seen of
them. -/
theorem Reached.dead_code_unseen_sample :
    (Interpreter.bare.compile sampleDead).1.warnings.length = 1 ∧
    (Interpreter.bare.compile sampleLive).1.warnings.length = 0 ∧
    ∃ L, (Interpreter.bare.evaluate sampleDead).2.1.Like L (Interpreter.bare.evaluate sampleLive).2.1 ∧
      (Interpreter.bare.evaluate sampleLive).2.2.console = (Interpreter.bare.evaluate sampleDead).2.2.console ∧
      (Interpreter.bare.evaluate sampleLive).2.2.globals = (Interpreter.bare.evaluate sampleDead).2.2.globals := by
  have hdead := @Interpreter.compile_of_accepts .bare sampleDead (by decide +kernel)
  have hlive := @Interpreter.compile_of_accepts .bare sampleLive (by decide +kernel)
  obtain ⟨houtcome, hconsole, hglobals, -⟩ := Reached.start.dead_code_unseen hdead hlive sample_sameTree
  exact ⟨by decide +kernel, by decide +kernel, _, houtcome, hconsole, hglobals⟩

end Treewalk
