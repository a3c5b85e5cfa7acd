import Treewalk.Proofs.Machine.Typing

/-!
# How operators and natives halt

An operator that fails does so at its token, or because a value of the host lacks its object
(`Halt.At`); natives never leave a chain of frames and make no frames, functions or classes. So all of
their halts fit a run of checked programs, whatever their arguments are.
-/

namespace Treewalk

/-- A halt at a token, or one that only a value of the host can cause. -/
def Halt.At (t : Token) (h : Halt) : Prop :=
  (∃ kind message, h = .error (.at t kind message)) ∨ h = .fault .absent

theorem RuntimeError.isLocated_at {t : Token} (ht : t.Proper) (kind : Diagnostic.Kind)
    (message : Bytes) : (RuntimeError.at t kind message).isLocated = true := by
  have hline : 0 < t.pos.line := ht.line
  simp [RuntimeError.isLocated, RuntimeError.at, Token.site, hline]

theorem Halt.At.fits {t : Token} {h : Halt} (hat : h.At t) (ht : t.Proper) (hosted : Bool)
    (pending : List Pending) : h.Fits hosted pending := by
  rcases hat with ⟨kind, message, rfl⟩ | rfl
  · exact .inl (RuntimeError.isLocated_at ht kind message)
  · exact fun _ => nofun

theorem Store.display?_error {s : Store} {v : Value} {f : Fault} (h : s.display? v = .error f) :
    f = .absent := by
  unfold Store.display? at h
  split at h
  · cases h
  · cases h
    rfl

theorem Store.repr?_error {s : Store} {v : Value} {f : Fault} (h : s.repr? v = .error f) :
    f = .absent := by
  unfold Store.repr? at h
  split at h
  · cases h
  · cases h
    rfl

/-! ## Operators -/

namespace Operator

variable {s : Store} {t : Token} {v w : Value} {h : Halt}

theorem refuse_at {α : Type} {kind : Diagnostic.Kind} {message : Bytes}
    (hrun : (refuse (.at t kind message) : Except Halt α) = .error h) : h.At t := by
  cases hrun
  exact .inl ⟨kind, message, rfl⟩

theorem unary_at {op : UnaryOp} (hrun : unary s op t v = .error h) : h.At t := by
  unfold unary at hrun
  split at hrun
  · cases hrun
  · exact refuse_at hrun
  · cases hrun
  · exact refuse_at hrun

theorem concat_at (hrun : concat s v w = .error h) : h.At t := by
  right
  unfold concat at hrun
  split at hrun
  · cases hrun
  · rename_i hf
    cases hrun
    rw [Store.display?_error hf]
  · rename_i hf _
    cases hrun
    rw [Store.display?_error hf]

theorem arith_at {op : ArithOp} (hrun : arith s op t v w = .error h) : h.At t := by
  unfold arith at hrun
  split at hrun
  · cases hrun
  · split at hrun
    · exact concat_at hrun
    · exact refuse_at hrun
  · cases hrun
  · cases hrun
  · split at hrun
    · exact refuse_at hrun
    · cases hrun
  · exact refuse_at hrun

theorem compare_at {op : CompareOp} (hrun : compare s op t v w = .error h) : h.At t := by
  unfold compare at hrun
  split at hrun
  · cases hrun
  · exact refuse_at hrun

theorem binary_at {op : BinaryOp} (hrun : binary s op t v w = .error h) : h.At t := by
  cases op with
  | arith op => exact arith_at hrun
  | compare op => exact compare_at hrun
  | equal => cases hrun
  | notEqual => cases hrun

theorem repetition_at {u : ByteArray} {n : Float} (hrun : repetition s t u n = .error h) :
    h.At t := by
  unfold repetition at hrun
  split at hrun
  · exact refuse_at hrun
  · split at hrun
    · exact refuse_at hrun
    · split at hrun
      · cases hrun
      · cases hrun

theorem compound_at {op : ArithOp} (hrun : compound s op t v w = .error h) : h.At t := by
  unfold compound at hrun
  split at hrun
  · exact repetition_at hrun
  · exact arith_at hrun

theorem step_at {op : StepOp} (hrun : step s op t v = .error h) : h.At t := by
  unfold step at hrun
  split at hrun
  · split at hrun <;> cases hrun
  · exact refuse_at hrun

theorem element_at (hrun : element s t v w = .error h) : h.At t := by
  have hother : element.notInteger s t w = .error h → h.At t := by
    intro hrun
    unfold element.notInteger at hrun
    split at hrun
    · exact refuse_at hrun
    · rename_i f hf
      cases hrun
      rw [Store.repr?_error hf]
      exact .inr rfl
  unfold element at hrun
  split at hrun
  · split at hrun
    · split at hrun
      · split at hrun
        · cases hrun
        · exact refuse_at hrun
      · exact hother hrun
    · exact hother hrun
  · exact refuse_at hrun

end Operator

/-! ## Natives -/

/-- Another store with the same frames, functions and classes. -/
structure Store.SameCode (s s' : Store) : Prop where
  frames : s'.frames = s.frames
  functions : s'.functions = s.functions
  classes : s'.classes = s.classes

namespace NativeOp

theorem drawRandom_store (w : World) : (drawRandom w).2.store = w.store := by
  unfold drawRandom
  split
  rfl

theorem drawRandom_result (w : World) : ∃ x, (drawRandom w).1 = .ok (.number x) := by
  unfold drawRandom
  split
  exact ⟨_, rfl⟩

/-- A native makes no frames, functions or classes. -/
theorem run_store (op : NativeOp) (args : List Value) (w : World) :
    w.store.SameCode (op.run args w).2.store := by
  have hsame : w.store.SameCode w.store := ⟨rfl, rfl, rfl⟩
  cases op with
  | input =>
    simp only [NativeOp.run, readInput]
    split <;> exact hsame
  | push =>
    simp only [NativeOp.run, pushElement]
    split
    · exact ⟨rfl, rfl, rfl⟩
    · exact hsame
  | pop =>
    simp only [NativeOp.run, popElement]
    split
    · split
      · exact ⟨rfl, rfl, rfl⟩
      · exact hsame
    · exact hsame
  | copy =>
    simp only [NativeOp.run]
    split
    · rename_i v store hclone
      unfold Store.clone? at hclone
      split at hclone
      · cases hclone
      · have hstore : store = (w.store.clone (args.headD .none)).2 := by
          rw [Except.ok.inj hclone]
        rw [hstore]
        unfold Store.clone
        split
        · exact ⟨rfl, rfl, rfl⟩
        · exact hsame
    · exact hsame
  | randomSeed =>
    simp only [NativeOp.run, seedRandom]
    split <;> exact hsame
  | random =>
    rw [NativeOp.run, drawRandom_store]
    exact hsame
  | _ =>
    simp only [NativeOp.run, readClock]
    exact hsame

/-- The only promise that a native can find broken is that of the host. -/
theorem run_fault {op : NativeOp} {args : List Value} {w : World} {f : Fault}
    (h : (op.run args w).1 = .error (.fault f)) : f = .absent := by
  have hpromised : ∀ (v : Value) (g : ByteArray → Result), (∀ t, g t ≠ .error (.fault f)) →
      promised (w.store.display? v) g = .error (.fault f) → f = .absent := by
    intro v g hg h
    unfold promised at h
    split at h
    · exact absurd h (hg _)
    · rename_i hf
      cases h
      exact Store.display?_error hf
  cases op with
  | clock => cases h
  | input =>
    simp only [NativeOp.run, readInput] at h
    split at h <;> cases h
  | len =>
    simp only [NativeOp.run, length] at h
    split at h <;> first | cases h; rfl | cases h
  | str => exact hpromised (args.headD .none) (fun t => .ok (.string t)) (fun _ => nofun) h
  | num =>
    simp only [NativeOp.run, toNumber] at h
    split at h <;> (try split at h) <;> cases h
  | type => cases h
  | push =>
    simp only [NativeOp.run, pushElement] at h
    split at h <;> cases h
  | pop =>
    simp only [NativeOp.run, popElement] at h
    split at h <;> (try split at h) <;> cases h
  | copy =>
    simp only [NativeOp.run] at h
    split at h
    · cases h
    · rename_i hclone
      cases h
      unfold Store.clone? at hclone
      split at hclone <;> cases hclone
      rfl
  | error =>
    exact hpromised (args.headD .none)
      (fun t => .error (.error (.unlocated .runtime (unpack t)))) (fun _ => nofun) h
  | random =>
    obtain ⟨x, hx⟩ := drawRandom_result w
    rw [NativeOp.run, hx] at h
    cases h
  | randomSeed =>
    simp only [NativeOp.run, seedRandom] at h
    split at h <;> cases h
  | sqrt =>
    simp only [NativeOp.run, ofNumber, squareRoot] at h
    split at h <;> (try split at h) <;> cases h
  | floor =>
    simp only [NativeOp.run, ofNumber] at h
    split at h <;> cases h
  | abs =>
    simp only [NativeOp.run, ofNumber] at h
    split at h <;> cases h
  | fails => cases h
  | failsPlain => cases h
  | script => cases h
  | missing =>
    cases h
    rfl

end NativeOp

end Treewalk
