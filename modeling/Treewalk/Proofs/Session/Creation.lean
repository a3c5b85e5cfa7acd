import Treewalk.Proofs.Machine.Building
import Treewalk.Proofs.Scope.Rename
import Treewalk.Proofs.Session.Agreement

/-!
# Heaps grow, and class calls build whole instances

**Main theorem** (`Reached.parts_grow_and_build`). The evaluation of an expression, the execution of a statement
and a call make the heap grow, whatever their outcome and whatever the state that they begin in. They leave the
current frame and the depth of calls as they found them, and the depth never gets beyond its bound. So a call of a
class that succeeds gives an instance that is new and whole, and a call of a bound `init` gives its receiver.

The last part is about reached sessions. It rests on the text of accepted programs: no name in them is spelled
like the receiver, so no run assigns to it (`Reached.assigned_ne_receiver`).
-/

namespace Treewalk

section

variable {programs : List (List Stmt)} {labels : List Region} {hosted : Bool} {i : Interpreter} {m : Machine}

/-! ## Depths -/

/-- A run that is going on is a part of itself, which began at depth zero. -/
theorem Reached.within (h : Reached programs labels (.running hosted i m)) :
    ∃ a s₀, a.depth = 0 ∧ a.pending = [] ∧ m.Within .all a s₀ := by
  generalize hphase : Phase.running hosted i m = phase at h
  induction h generalizing hosted i m with
  | start | host | compile | refuse | finish => cases hphase
  | @execute _ _ i stmts =>
    cases hphase
    refine ⟨⟨.completion, [], Store.globals, 0⟩, i.store, rfl, rfl, .all (Nat.zero_le _), trivial, ?_⟩
    exact .code rfl trivial trivial .anchor
  | @call _ _ i _ callee args =>
    cases hphase
    exact ⟨⟨.value, [], Store.globals, 0⟩, i.store, rfl, rfl, .all (Nat.zero_le _), callee.in_all,
      fun v _ => v.in_all, .anchor⟩
  | @step _ _ _ _ m _ ih =>
    cases hphase
    obtain ⟨a, s₀, hdepth, hpending, hwithin⟩ := ih rfl
    exact ⟨a, s₀, hdepth, hpending, hwithin.advance hpending (Realm.all_makes _ _)⟩

/-- In every run of every session calls are at most `maxDepth` deep. -/
theorem Reached.depth_le (h : Reached programs labels (.running hosted i m)) : m.depth ≤ Machine.maxDepth := by
  obtain ⟨a, s₀, hdepth, -, hwithin⟩ := h.within
  have := hwithin.depth
  rwa [Anchor.limit, hdepth, Nat.zero_max] at this

/-! ## The receiver's name -/

/-- Accepted programs are those of sources without faults. -/
theorem Reached.sources {phase : Phase} (h : Reached programs labels phase) :
    ∀ program ∈ programs, ∃ n source, (Parsed.ofSource n source).faults = [] ∧
      (Parsed.ofSource n source).stmts = program := by
  induction h with
  | start => exact nofun
  | compile _ haccepted ih =>
    intro program hprogram
    rcases List.mem_append.1 hprogram with hprogram | hprogram
    · exact ih program hprogram
    · obtain ⟨hfaults, hstmts, -⟩ := Interpreter.compile_eq_ok haccepted
      rw [List.mem_singleton.1 hprogram]
      exact ⟨_, _, hfaults, hstmts⟩
  | host _ _ ih | refuse _ _ ih | execute _ _ ih | call _ _ _ ih | step _ ih | finish _ _ ih => exact ih

/-- The name of a variable that an expression assigns to. -/
def Expr.target? : Expr → Option Token
  | .assign _ name _ | .compound _ name _ _ _ | .update _ name _ _ _ => some name
  | _ => none

/-- What a run assigns to is a variable that a piece of a program assigns to. -/
theorem Machine.Fits.assigns_expr (h : m.Fits programs labels hosted) {id : NodeId} {name : Token} {v : Value}
    (hassigns : m.assigns? = some (id, name, v)) :
    ∃ Γ e, Here programs Γ (.expr e) ∧ e.target? = some name := by
  have hcontrol := h.control
  unfold Machine.assigns? at hassigns
  split at hassigns
  · rename_i hc
    obtain ⟨next, -, heq⟩ := Option.map_eq_some_iff.1 hassigns
    cases heq
    rw [hc] at hcontrol
    cases hcontrol with
    | eval he _ _ => exact ⟨_, _, he, rfl⟩
  · rename_i hc
    rw [hc] at hcontrol
    cases hcontrol with
    | give hstack =>
      generalize m.env = env at hstack
      split at hassigns
      · rename_i hp
        cases hassigns
        rw [hp] at hstack
        cases hstack with
        | operand hsuspends he _ _ =>
          cases hsuspends
          exact ⟨_, _, he, rfl⟩
        | statement hsuspends => cases hsuspends
      · rename_i hp
        obtain ⟨result, -, heq⟩ := Option.map_eq_some_iff.1 hassigns
        cases heq
        rw [hp] at hstack
        cases hstack with
        | operand hsuspends he _ _ =>
          cases hsuspends
          exact ⟨_, _, he, rfl⟩
        | statement hsuspends => cases hsuspends
      · cases hassigns
  · cases hassigns

/-- A variable that a source without faults assigns to is not spelled like the receiver. -/
theorem Parsed.target_ne_receiver {n : NodeId} {source : Bytes} (h : (ofSource n source).faults = [])
    {Γ : Environs} {e : Expr} (hocc : Occurs (ofSource n source).stmts Γ (.expr e)) {name : Token}
    (htarget : e.target? = some name) : name.lexeme ≠ Store.receiverName := by
  obtain ⟨-, -, -, -, hw, -⟩ := ofSource_reads h
  have hwell : e.WellFormed := Occurs.wellFormed hw hocc
  have hgenuine := (made_of_tokens h fun t ht hkind => Token.genuine_of_mem_scan ht hkind).throughout _ _ _ hocc
  cases e with
  | assign | compound | update =>
    cases htarget
    exact (hgenuine name List.mem_cons_self).ne_this hwell.1
  | _ => cases htarget

/-- No run assigns to the receiver's name. -/
theorem Reached.assigned_ne_receiver (h : Reached programs labels (.running hosted i m)) {f : FrameId} :
    (f, Store.receiverName) ∉ m.assigned := by
  rintro ⟨id, name, v, hassigns, -, hname⟩
  obtain ⟨Γ, e, ⟨program, hprogram, hocc⟩, htarget⟩ := h.fits.2.assigns_expr hassigns
  obtain ⟨n, source, hfaults, rfl⟩ := h.sources program hprogram
  exact Parsed.target_ne_receiver hfaults hocc htarget hname.symm

end

/-! ## The theorem -/

/-- Parts of runs make the heap grow and put back the frame and the depth; class calls build whole instances, and
calls of a bound `init` give its receiver. -/
theorem Reached.parts_grow_and_build :
    (∀ m : Machine, ¬ m.control.IsOutcome →
      (∀ n, m.store.Extends {p | ∃ k < n, p ∈ (m.steps k).assigned} (m.steps n).store) ∧
      (∀ n, (∀ k < n, ¬ (m.steps k).Meets m.pending) → (m.steps n).depth ≤ max m.depth Machine.maxDepth) ∧
      (∀ n, m.Ends m.pending n → (m.steps n).env = m.env ∧ (m.steps n).depth = m.depth)) ∧
    (∀ programs labels hosted i m, Reached programs labels (.running hosted i m) →
      m.depth ≤ Machine.maxDepth) ∧
    (∀ (m : Machine) n c args v, m.control = .call (.classRef c) args → m.Ends m.pending n →
      (m.steps n).control = .give v →
      ∃ cls object o, m.store.classes[c]? = some cls ∧ v = .object object ∧ m.store.instances.size ≤ object ∧
        (m.steps n).store.instances[object]? = some o ∧ o.cls = c ∧ ∀ f ∈ cls.fields, f.name.lexeme ∈ o.names) ∧
    ∀ programs labels hosted i (m : Machine) n f closure args b v,
      Reached programs labels (.running hosted i m) → m.control = .call (.function f) args →
      m.store.functions[f]? = some closure → closure.isInit = true →
      (m.store.frame closure.env).find? Store.receiverName = some b → m.Ends m.pending n →
      (m.steps n).control = .give v → v = b.value := by
  refine ⟨fun m hbegins => ⟨m.steps_extends, fun n => m.depth_steps hbegins, fun n hends => hends.restores hbegins⟩,
    fun _ _ _ _ _ h => h.depth_le, fun m n c args v hcall hends hgive => hends.builds hcall hgive, ?_⟩
  intro programs labels hosted i m n f closure args b v h hcall hf hinit hb hends hgive
  refine hends.returns_receiver hcall hf hinit hb (fun k _ => ?_) hgive
  obtain ⟨labels', hk⟩ := h.steps k
  exact hk.assigned_ne_receiver

/-- The class or the function of a call without arguments. -/
def Control.callee? : Control → Option (Nat × Bool)
  | .call (.classRef c) [] => some (c, true)
  | .call (.function f) [] => some (f, false)
  | _ => none

/-- The instance that is handed on. -/
def Control.object? : Control → Option InstanceId
  | .give (.object o) => some o
  | _ => none

theorem Control.eq_of_callee? {c : Control} {n : Nat} {isClass : Bool} (h : c.callee? = some (n, isClass)) :
    c = .call (if isClass then .classRef n else .function n) [] := by
  unfold Control.callee? at h
  split at h <;> cases h <;> rfl

theorem Control.eq_of_object? {c : Control} {o : InstanceId} (h : c.object? = some o) :
    c = .give (.object o) := by
  unfold Control.object? at h
  split at h <;> cases h
  rfl

/-- A class with a field and an `init` is called, and then `init` is called on the instance. -/
theorem Reached.parts_grow_and_build_once : ∃ programs labels programs' labels' i m m' o b,
    Reached programs labels (.running false i m) ∧ Reached programs' labels' (.running false i m') ∧
      m.control = .call (.classRef 0) [] ∧ m.Ends m.pending 6 ∧ (m.steps 6).env = m.env ∧
      (m.steps 6).store.instances[0]? = some o ∧ text "x" ∈ o.names ∧
      m'.control = .call (.function 0) [] ∧ m'.Ends m'.pending 3 ∧
      (m'.steps 3).control = .give (Binding.value b) ∧ m'.depth ≤ Machine.maxDepth := by
  obtain ⟨hparts, hdepth, hclass, hinit⟩ := Reached.parts_grow_and_build
  have haccepts : Interpreter.accepts 0
      (text "class A \x7b x = none; init() \x7b\x7d \x7d A().init();") = true := by decide +kernel
  obtain ⟨programs, labels, h⟩ := Reached.start.launch haccepts 9
  obtain ⟨programs', labels', h'⟩ := Reached.start.launch haccepts 18
  generalize hm : Machine.steps _ 9 = m at h
  generalize hm' : Machine.steps _ 18 = m' at h'
  -- the call of the class
  have hcallee : m.control.callee? = some (0, true) := by
    rw [← hm]
    decide +kernel
  have hcall : m.control = .call (.classRef 0) [] := Control.eq_of_callee? hcallee
  have hbegins : ¬ m.control.IsOutcome := by
    rw [hcall]
    exact id
  have hends : m.Ends m.pending 6 := by
    refine Machine.ends_of_lengths hbegins ?_ ?_ ?_ <;> rw [← hm] <;> decide +kernel
  have hgive : (m.steps 6).control = .give (.object 0) :=
    Control.eq_of_object? (by rw [← hm]; decide +kernel)
  obtain ⟨cls, object, o, hcls, hobject, -, ho, -, hfields⟩ := hclass m 6 0 [] _ hcall hends hgive
  cases hobject
  have hx : text "x" ∈ cls.fields.map fun f => f.name.lexeme := by
    have hnames : (m.store.classes[0]?).map (fun c => c.fields.map fun f => f.name.lexeme) =
        some [text "x"] := by
      rw [← hm]
      decide +kernel
    rw [hcls, Option.map_some, Option.some.injEq] at hnames
    rw [hnames]
    exact List.mem_cons_self
  obtain ⟨f, hf, hname⟩ := List.mem_map.1 hx
  -- the call of its `init`
  have hcallee' : m'.control.callee? = some (0, false) := by
    rw [← hm']
    decide +kernel
  have hcall' : m'.control = .call (.function 0) [] := Control.eq_of_callee? hcallee'
  have hends' : m'.Ends m'.pending 3 := by
    refine Machine.ends_of_lengths (by rw [hcall']; exact id) ?_ ?_ ?_ <;> rw [← hm'] <;> decide +kernel
  have hgive' : (m'.steps 3).control = .give (.object 0) :=
    Control.eq_of_object? (by rw [← hm']; decide +kernel)
  have hbound : ((m'.store.functions[0]?).any fun c =>
      c.isInit && ((m'.store.frame c.env).find? Store.receiverName).isSome) = true := by
    rw [← hm']
    decide +kernel
  obtain ⟨closure, hclosure, hset⟩ := (Option.any_eq_true _ _).1 hbound
  rw [Bool.and_eq_true] at hset
  obtain ⟨b, hb⟩ := Option.isSome_iff_exists.1 hset.2
  have hreceiver := hinit _ _ _ _ m' 3 0 closure [] b _ h' hcall' hclosure hset.1 hb hends' hgive'
  refine ⟨programs, labels, programs', labels', _, m, m', o, b, h, h', hcall, hends,
    ((hparts m hbegins).2.2 6 hends).1, ho, ?_, hcall', hends', ?_, hdepth _ _ _ _ m' h'⟩
  · rw [← hname]
    exact hfields f hf
  · rw [hgive', hreceiver]

end Treewalk
