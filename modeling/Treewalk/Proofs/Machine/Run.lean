import Treewalk.Machine.Step

/-!
# Runs as numbers of steps

A run ends with a state exactly if that state is final and some number of steps leads to it
(`Machine.run_eq_some_iff`). Final states stay as they are, so the number need not be the least one.
-/

namespace Treewalk.Machine

/-- The state after a number of steps. -/
def steps (m : Machine) : Nat → Machine
  | 0 => m
  | n + 1 => m.step.steps n

/-- A final state stays as it is. -/
theorem step_of_isFinal {m : Machine} (h : m.isFinal = true) : m.step = m := by
  unfold isFinal at h
  unfold step
  split at h
  · rename_i hpending hcontrol
    rw [hcontrol, hpending]
  · rename_i hpending hcontrol
    rw [hcontrol, hpending]
  · rename_i hpending hcontrol
    rw [hcontrol, hpending]
  · cases h

theorem steps_of_isFinal {m : Machine} (h : m.isFinal = true) : ∀ n, m.steps n = m
  | 0 => rfl
  | n + 1 => by rw [steps, step_of_isFinal h, steps_of_isFinal h n]

theorem steps_add (n k : Nat) : ∀ m : Machine, m.steps (n + k) = (m.steps n).steps k := by
  induction n with
  | zero =>
    intro m
    rw [Nat.zero_add, steps]
  | succ n ih =>
    intro m
    rw [Nat.succ_add, steps, steps, ih]

theorem steps_of_run {m final : Machine} (h : m.run = some final) :
    final.isFinal = true ∧ ∃ n, final = m.steps n := by
  refine run.partial_correctness (fun m final => final.isFinal = true ∧ ∃ n, final = m.steps n) ?_ m
    final h
  intro run ih m final hrun
  split at hrun
  · rename_i hfinal
    cases hrun
    exact ⟨hfinal, 0, rfl⟩
  · obtain ⟨hfinal, n, hn⟩ := ih m.step final hrun
    exact ⟨hfinal, n + 1, hn⟩

theorem run_of_steps {n : Nat} : ∀ {m : Machine}, (m.steps n).isFinal = true →
    m.run = some (m.steps n) := by
  induction n with
  | zero =>
    intro m h
    rw [steps] at h
    rw [run, if_pos h, steps]
  | succ n ih =>
    intro m h
    by_cases hfinal : m.isFinal = true
    · rw [run, if_pos hfinal, steps_of_isFinal hfinal]
    · rw [run, if_neg hfinal, steps]
      exact ih h

/-- A run ends with a final state that some number of steps leads to. -/
theorem run_eq_some_iff {m final : Machine} :
    m.run = some final ↔ final.isFinal = true ∧ ∃ n, final = m.steps n := by
  constructor
  · exact steps_of_run
  · rintro ⟨hfinal, n, rfl⟩
    exact run_of_steps hfinal

/-- A run goes on as it does from any state that it comes to. -/
theorem run_steps (m : Machine) (n : Nat) : (m.steps n).run = m.run := by
  cases hrun : (m.steps n).run with
  | some final =>
    obtain ⟨hfinal, k, rfl⟩ := steps_of_run hrun
    rw [← steps_add] at hfinal ⊢
    rw [run_of_steps hfinal]
  | none =>
    cases hrun' : m.run with
    | none => rfl
    | some final =>
      obtain ⟨hfinal, k, rfl⟩ := steps_of_run hrun'
      -- the state `n` steps on comes to the same final state, at the latest after `k` more steps
      have hlater : (m.steps n).steps k = m.steps k := by
        rw [← steps_add, Nat.add_comm, steps_add, steps_of_isFinal hfinal]
      rw [run_of_steps (by rw [hlater]; exact hfinal)] at hrun
      cases hrun

/-- Machines that stay related, and are final together, end their runs together. -/
theorem run_rel {R : Machine → Machine → Prop} {m m' : Machine} (hsteps : ∀ n, R (m.steps n) (m'.steps n))
    (hfinal : ∀ k k', R k k' → k'.isFinal = k.isFinal) : Option.Rel R m.run m'.run := by
  cases hrun : m.run with
  | some final =>
    obtain ⟨hend, n, rfl⟩ := run_eq_some_iff.1 hrun
    rw [run_of_steps ((hfinal _ _ (hsteps n)).trans hend)]
    exact .some (hsteps n)
  | none =>
    cases hrun' : m'.run with
    | none => exact .none
    | some final' =>
      obtain ⟨hend', n, rfl⟩ := run_eq_some_iff.1 hrun'
      rw [hfinal _ _ (hsteps n)] at hend'
      rw [run_of_steps hend'] at hrun
      cases hrun

end Treewalk.Machine
