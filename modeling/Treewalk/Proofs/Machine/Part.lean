import Mathlib.Data.Nat.Find
import Treewalk.Proofs.Machine.Confined

/-!
# Parts of runs

The evaluation of an expression, the execution of a statement and a call are parts of a run. A part begins with a
state whose control is no outcome, and it ends with the first outcome that meets what waited then
(`Machine.Ends`).

Main results: a part leaves the frame and the depth of calls as they were, whatever its outcome
(`Machine.Ends.restores`), and a part that waits for another one comes after the end of that one
(`Machine.Ends.inner`).
-/

namespace Treewalk

/-! ## The realm of everything -/

/-- The realm that lacks nothing. -/
def Realm.all : Realm where
  arrays := Set.univ
  frames := Set.univ
  functions := Set.univ
  names := Set.univ
  code _ := True
  sites := Set.univ
  globals_mem := trivial
  receiver_mem := trivial
  code_part _ _ := trivial
  code_token _ _ _ := ⟨trivial, trivial⟩
  code_print _ := trivial

theorem Realm.all_makes (s s' : Store) : Realm.all.Makes s s' :=
  ⟨fun _ _ _ => trivial, fun _ _ _ => trivial, fun _ _ _ => trivial⟩

theorem Value.in_all (v : Value) : v.In .all := by
  cases v <;> trivial

theorem RuntimeError.in_all (e : RuntimeError) : e.In .all := fun _ _ _ => trivial

theorem Script.in_all (script : Script) : script.In .all := by
  induction script with
  | give v => exact v.in_all
  | fail e => exact e.in_all
  | failPlain => trivial
  | look array next ih => exact ⟨array.in_all, fun elements _ => ih elements⟩
  | call callee args rescues next ih => exact ⟨callee.in_all, fun v _ => v.in_all, fun r _ => ih r⟩

theorem NativeOp.in_all (op : NativeOp) : op.In .all := by
  cases op with
  | script run => exact fun args _ => (run args).in_all
  | fails e => exact e.in_all
  | _ => trivial

theorem Closure.in_all (f : Closure) : f.In .all := ⟨trivial, fun _ _ => ⟨trivial, trivial⟩, trivial⟩

theorem Class.in_all (c : Class) : c.In .all := ⟨trivial, fun _ _ => trivial, fun m _ => m.in_all⟩

theorem Store.in_all (s : Store) : s.In .all where
  parents _ _ _ _ := trivial
  bindings _ _ b _ _ := b.value.in_all
  arrays _ _ v _ := v.in_all
  fields _ _ p _ := p.2.in_all
  functions _ _ c _ := c.in_all
  classes c _ := c.in_all
  natives n _ := n.op.in_all
  properties _ _ p _ := p.2.in_all

theorem Bounded.all {a : Anchor} {s : Store} {depth : Nat} (h : depth ≤ a.limit) :
    Bounded .all a s s depth := ⟨s.in_all.leads, h⟩

namespace Machine

/-! ## Beginnings and ends -/

/-- The first outcome that meets `base` comes after `n` steps. -/
structure Ends (m : Machine) (base : List Pending) (n : Nat) : Prop where
  meets : (m.steps n).Meets base
  first : ∀ k < n, ¬ (m.steps k).Meets base

variable {R : Realm} {a : Anchor} {s₀ : Store} {m : Machine} {base : List Pending} {n k : Nat}

namespace Ends

theorem unique (h : m.Ends base n) (h' : m.Ends base k) : n = k := by
  rcases Nat.lt_trichotomy n k with hlt | heq | hlt
  · exact absurd h.meets (h'.first n hlt)
  · exact heq
  · exact absurd h'.meets (h.first k hlt)

theorem after (h : m.Ends base n) (hk : k ≤ n) : (m.steps k).Ends base (n - k) := by
  constructor
  · rw [← steps_add, Nat.add_sub_cancel' hk]
    exact h.meets
  · intro j hj
    rw [← steps_add]
    exact h.first (k + j) (by omega)

/-- What meets the base at once takes no step. -/
theorem now (h : m.Ends base n) (hmeets : m.Meets base) : n = 0 := by
  by_contra hne
  exact h.first 0 (Nat.pos_of_ne_zero hne) hmeets

/-- What does not meet the base yet takes a step. -/
theorem next (h : m.Ends base n) (hlasts : ¬ m.Meets base) : ∃ k, n = k + 1 ∧ m.step.Ends base k := by
  cases n with
  | zero => exact absurd h.meets hlasts
  | succ k => exact ⟨k, rfl, h.after (k := 1) (by omega)⟩

end Ends

/-- What waits cannot meet something shorter. -/
theorem not_meets_of_cons {p : Pending} (h : m.pending = p :: base) : ¬ m.Meets base := by
  rintro ⟨hpending, -⟩
  have := congrArg List.length (h.symm.trans hpending)
  simp at this

/-! ## What lasts, step after step -/

/-- A part of a run lasts until its outcome meets the anchor. -/
theorem Within.steps (h : m.Within R a s₀) :
    ∀ n, (∀ k < n, ¬ (m.steps k).Meets a.pending) → R.Makes m.store (m.steps n).store →
      (m.steps n).Within R a s₀ := by
  intro n
  induction n with
  | zero => exact fun _ _ => h
  | succ n ih =>
    intro hlasts hmakes
    have hlast : m.steps (n + 1) = (m.steps n).step := by rw [steps_add]; rfl
    rw [hlast] at hmakes ⊢
    exact (ih (fun k hk => hlasts k (Nat.lt_succ_of_lt hk)) (hmakes.first (m.steps n).step_extends)).step
      (hlasts n (Nat.lt_succ_self n)) (hmakes.second (m.steps_extends n))

/-- A part behind which nothing waits lasts for good: its outcome stays as it is. -/
theorem Within.advance (h : m.Within R a s₀) (hbase : a.pending = []) (hmakes : R.Makes m.store m.step.store) :
    m.step.Within R a s₀ := by
  by_cases hmeets : m.Meets a.pending
  · have hfinal : m.isFinal = true := by
      obtain ⟨hnone, houtcome⟩ := hmeets
      rw [hbase] at hnone
      unfold Machine.isFinal
      cases hc : m.control <;> rw [hc] at houtcome <;> first | exact houtcome.elim | simp [hnone]
    rw [Machine.step_of_isFinal hfinal]
    exact h
  · exact h.step hmeets hmakes

/-- While a part lasts, its anchor is behind what waits. -/
theorem Within.suffix (h : m.Within R a s₀) : a.pending <:+ m.pending := by
  obtain ⟨-, hcontrol⟩ := h
  cases hc : m.control <;> rw [hc] at hcontrol
  case eval | exec | call => exact hcontrol.2.2.suffix
  case give | complete => exact hcontrol.2.suffix
  case halt =>
    obtain ⟨-, _, hstack⟩ := hcontrol
    exact hstack.suffix

/-- At the anchor the frame and the depth are as they were, and the outcome is what was waited for. -/
theorem Within.outcome (h : m.Within R a s₀) (hmeets : m.Meets a.pending) :
    m.env = a.env ∧ m.depth = a.depth ∧
      ((∃ v, m.control = .give v ∧ a.handed = .value) ∨
        (∃ c, m.control = .complete c ∧ a.handed = .completion) ∨ ∃ halt, m.control = .halt halt) := by
  obtain ⟨-, hcontrol⟩ := h
  obtain ⟨hpending, houtcome⟩ := hmeets
  cases hc : m.control with
  | eval | exec | call =>
    rw [hc] at houtcome
    exact houtcome.elim
  | give v =>
    rw [hc] at hcontrol
    obtain ⟨hk, henv, hdepth⟩ := hcontrol.2.eq_anchor hpending
    exact ⟨henv, hdepth, .inl ⟨v, rfl, hk.symm⟩⟩
  | complete c =>
    rw [hc] at hcontrol
    obtain ⟨hk, henv, hdepth⟩ := hcontrol.2.eq_anchor hpending
    exact ⟨henv, hdepth, .inr (.inl ⟨c, rfl, hk.symm⟩)⟩
  | halt halt =>
    rw [hc] at hcontrol
    obtain ⟨-, k, hstack⟩ := hcontrol
    obtain ⟨-, henv, hdepth⟩ := hstack.eq_anchor hpending
    exact ⟨henv, hdepth, .inr (.inr ⟨halt, rfl⟩)⟩

/-- A part ends before what waits for it: while it lasts, its anchor is still there. -/
theorem Ends.inner (h : m.Ends base n) (hwithin : m.Within .all a s₀) (hlonger : base.length < a.pending.length) :
    ∃ k < n, m.Ends a.pending k ∧ (m.steps k).Within .all a s₀ := by
  classical
  have hends : ∃ k < n, (m.steps k).Meets a.pending := by
    by_contra hnone
    have hlasts : ∀ k < n, ¬ (m.steps k).Meets a.pending := fun k hk hmeets => hnone ⟨k, hk, hmeets⟩
    have := (hwithin.steps n hlasts (Realm.all_makes _ _)).suffix.length_le
    rw [h.meets.1] at this
    omega
  have hfirst : ∀ k < Nat.find hends, ¬ (m.steps k).Meets a.pending := fun k hk hmeets =>
    Nat.find_min hends hk ⟨Nat.lt_trans hk (Nat.find_spec hends).1, hmeets⟩
  exact ⟨Nat.find hends, (Nat.find_spec hends).1, ⟨(Nat.find_spec hends).2, hfirst⟩,
    hwithin.steps _ hfirst (Realm.all_makes _ _)⟩

/-! ## Whole parts -/

/-- The anchor of the part that begins in a state. -/
def anchor (m : Machine) : Anchor where
  handed :=
    match m.control with
    | .exec _ => .completion
    | _ => .value
  pending := m.pending
  env := m.env
  depth := m.depth

theorem begins (hbegins : ¬ m.control.IsOutcome) : m.Within .all m.anchor m.store := by
  refine ⟨.all (Nat.le_max_left _ _), ?_⟩
  have hanchor : Lasting .all m.anchor m.anchor.handed m.env m.depth m.pending := .anchor
  unfold anchor at hanchor ⊢
  cases hc : m.control with
  | eval e =>
    rw [hc] at hanchor
    exact ⟨trivial, trivial, by simpa only [hc] using hanchor⟩
  | exec s =>
    rw [hc] at hanchor
    exact ⟨trivial, trivial, by simpa only [hc] using hanchor⟩
  | call callee args =>
    rw [hc] at hanchor
    exact ⟨callee.in_all, fun v _ => v.in_all, by simpa only [hc] using hanchor⟩
  | give | complete | halt => exact absurd (by rw [hc]; trivial) hbegins

/-- While a part of a run lasts, the depth of calls is at most what it was or `maxDepth`. -/
theorem depth_steps (hbegins : ¬ m.control.IsOutcome) (hlasts : ∀ k < n, ¬ (m.steps k).Meets m.pending) :
    (m.steps n).depth ≤ max m.depth maxDepth :=
  ((begins hbegins).steps n hlasts (Realm.all_makes _ _)).depth

/-- Whatever the outcome of a part of a run, the frame and the depth of calls are what they were. -/
theorem Ends.restores (h : m.Ends m.pending n) (hbegins : ¬ m.control.IsOutcome) :
    (m.steps n).env = m.env ∧ (m.steps n).depth = m.depth := by
  obtain ⟨henv, hdepth, -⟩ := ((begins hbegins).steps n h.first (Realm.all_makes _ _)).outcome h.meets
  exact ⟨henv, hdepth⟩

/-- A part ends when as much waits as in the beginning, and not before. -/
theorem ends_of_lengths (hbegins : ¬ m.control.IsOutcome)
    (hlasts : ∀ k < n, 0 < k → m.pending.length < (m.steps k).pending.length)
    (hends : (m.steps n).pending.length = m.pending.length) (houtcome : (m.steps n).control.IsOutcome) :
    m.Ends m.pending n := by
  have hfirst : ∀ k < n, ¬ (m.steps k).Meets m.pending := by
    rintro k hk ⟨hpending, houtcome⟩
    cases k with
    | zero => exact hbegins houtcome
    | succ k =>
      have := hlasts (k + 1) hk (Nat.succ_pos k)
      rw [hpending] at this
      exact Nat.lt_irrefl _ this
  refine ⟨⟨?_, houtcome⟩, hfirst⟩
  have hsuffix := ((begins hbegins).steps n hfirst (Realm.all_makes _ _)).suffix
  exact (hsuffix.eq_of_length hends.symm).symm

end Machine

end Treewalk
