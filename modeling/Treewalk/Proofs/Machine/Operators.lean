import Treewalk.Proofs.Machine.Lockstep
import Treewalk.Proofs.Numeral.Whole

/-!
# Operators and their compound forms

A compound assignment computes what its plain operator computes, and fails as it fails
(`Operator.compound_agrees`), but for one case: a string times a number is the string repeated. What the repetition
gives, and when it is refused, is told by whole numbers (`Operator.repetition_ok`, `Operator.repetition_refused`).
-/

namespace Treewalk

variable {L : Likeness}

/-! ## The kind of a halt -/

/-- The same kind of halt. The kind of an error is what tells it from others; its message may name an operator. -/
inductive Halt.SameKind : Halt → Halt → Prop
  | error {e e'} (h : e'.kind = e.kind) : Halt.SameKind (.error e) (.error e')
  | plain {message} : Halt.SameKind (.plain message) (.plain message)
  | fault {f} : Halt.SameKind (.fault f) (.fault f)

theorem Halt.Like.sameKind {h h' : Halt} (hh : h.Like L h') : h.SameKind h' := by
  cases hh with
  | error he => cases he <;> exact .error rfl
  | plain => exact .plain
  | fault => exact .fault

/-- The same result, or halts of the same kind. -/
inductive Operator.Agrees : Result → Result → Prop
  | ok {v} : Agrees (.ok v) (.ok v)
  | error {h h'} (hh : h.SameKind h') : Agrees (.error h) (.error h')

/-! ## Plain operators -/

namespace Operator

theorem Agrees.refuse {e e' : RuntimeError} (h : e'.kind = e.kind) :
    Agrees (Operator.refuse e) (Operator.refuse e') := .error (.error h)

/-- What an operator computes does not depend on its token, and neither does the kind of its errors. -/
theorem arith_agrees {s s' : Store} (hs : s.Like L s') (op : ArithOp) (t t' : Token) (v w : Value) :
    Agrees (arith s op t v w) (arith s' op t' v w) := by
  unfold arith
  split
  · exact .ok
  · split
    · unfold concat
      rw [hs.display?_eq, hs.display?_eq]
      split
      · exact .ok
      · exact .error .fault
      · exact .error .fault
    · exact .refuse rfl
  · exact .ok
  · exact .ok
  · split
    · exact .refuse rfl
    · exact .ok
  · exact .refuse rfl

/-! ## Compound forms -/

/-- The compound form of an operator repeats a string. -/
def Repeats (op : ArithOp) (v w : Value) : Prop := op = .mul ∧ ∃ t n, v = .string t ∧ w = .number n

theorem compound_eq_arith {s : Store} {op : ArithOp} {t : Token} {v w : Value} (h : ¬ Repeats op v w) :
    compound s op t v w = arith s op t v w := by
  unfold compound
  split
  · exact absurd ⟨rfl, _, _, rfl, rfl⟩ h
  · rfl

/-- But for repetitions the compound form of an operator agrees with the operator. -/
theorem compound_agrees {s s' : Store} (hs : s.Like L s') {op : ArithOp} (t t' : Token) {v w : Value}
    (h : ¬ Repeats op v w) : Agrees (compound s op t v w) (binary s' (.arith op) t' v w) := by
  rw [compound_eq_arith h]
  exact arith_agrees hs op t t' v w

/-! ## Repetition -/

/-- Doubling repeats a string. -/
theorem unpack_repeatPacked (t : ByteArray) (k : Nat) :
    unpack (repeatPacked t k) = (List.replicate k (unpack t)).flatten := by
  have hunpack : ∀ x y : ByteArray, unpack (x ++ y) = unpack x ++ unpack y := fun x y => by simp [unpack]
  fun_induction repeatPacked t k with
  | case1 => rfl
  | case2 k hk half heven ih =>
    have hsplit : k = k / 2 + k / 2 := by omega
    rw [hunpack, ih, ← List.flatten_append, List.replicate_append_replicate, ← hsplit]
  | case3 k hk half hodd ih =>
    have hsplit : k = k / 2 + k / 2 + 1 := by omega
    have hlast : (List.replicate 1 (unpack t)).flatten = unpack t := by simp
    conv_rhs => rw [hsplit, List.replicate_add, List.replicate_add, List.flatten_append, List.flatten_append, hlast]
    rw [hunpack, hunpack, ih]

section

variable {s : Store} {token : Token} {t : ByteArray} {n : Float}

/-- With a number that counts, up to `maxCount`, only the size of the result matters. -/
theorem repetition_counted {k : Nat} (hk : k ≤ 2 ^ 31 - 1) (hn : (n == Float.ofNat k) = true) :
    repetition s token t n =
      if 2 ^ 28 < k * t.size then
        refuse (.at token .runtime (text "string repeat result exceeds " ++ Bytes.ofNat maxRepeated ++ text " bytes"))
      else if t.isEmpty then .ok (.string t)
      else .ok (.string (repeatPacked t k)) := by
  have hcount : maxCount = 2 ^ 31 - 1 := rfl
  have hbytes : maxRepeated = 2 ^ 28 := rfl
  have hsmall : k < 2 ^ 53 := by omega
  have hintegral := Whole.isIntegral_of_beq hsmall hn
  have hleast : ¬ n < 0 := by
    show ¬ n < Float.ofNat 0
    rw [Whole.lt_iff, Whole.compare_of_beq hsmall hn (by decide)]
    simp [Nat.compare_eq_lt]
  have hmost : ¬ n > Float.ofNat maxCount := by
    show ¬ Float.ofNat maxCount < n
    rw [Whole.ofNat_lt_of_beq hsmall hn (by decide), hcount]
    omega
  have hsize : n * Float.ofNat t.size > Float.ofNat maxRepeated ↔ 2 ^ 28 < k * t.size := by
    show Float.ofNat maxRepeated < _ ↔ _
    rw [Whole.lt_mul_of_beq hsmall hn t.size (by decide), hbytes]
  unfold repetition
  simp only [hintegral, hleast, hmost, hsize, Whole.toUInt64_of_beq hsmall hn, Bool.not_true, decide_false,
    Bool.or_self, Bool.false_eq_true, if_false]

/-- A string is repeated as often as the number says, if the result has at most `maxRepeated` bytes. -/
theorem repetition_ok {k : Nat} (hk : k ≤ 2 ^ 31 - 1) (hn : (n == Float.ofNat k) = true) (hsize : k * t.size ≤ 2 ^ 28) :
    ∃ u, unpack u = (List.replicate k (unpack t)).flatten ∧ repetition s token t n = .ok (.string u) := by
  rw [repetition_counted hk hn, if_neg (Nat.not_lt.2 hsize)]
  by_cases hempty : t.isEmpty = true
  · have hnone : unpack t = [] := by
      have ht : t = ByteArray.empty := by simpa [ByteArray.isEmpty] using hempty
      rw [ht]
      rfl
    exact ⟨t, by simp [hnone], if_pos hempty⟩
  · exact ⟨repeatPacked t k, unpack_repeatPacked t k, if_neg hempty⟩

/-- A repetition is refused if the number counts nothing, or too much. -/
theorem repetition_refused (h : ∀ k ≤ 2 ^ 31 - 1, (n == Float.ofNat k) = true → 2 ^ 28 < k * t.size) :
    ∃ e, repetition s token t n = .error (.error e) := by
  by_cases hwhole : ∃ k ≤ 2 ^ 31 - 1, (n == Float.ofNat k) = true
  · obtain ⟨k, hk, hn⟩ := hwhole
    rw [repetition_counted hk hn, if_pos (h k hk hn)]
    exact ⟨_, rfl⟩
  · have hrefused : !(Value.number n).isIntegral || n < 0 || n > Float.ofNat maxCount := by
      by_contra hfine
      simp only [Bool.or_eq_true, Bool.not_eq_true', decide_eq_true_eq, not_or, Bool.not_eq_false] at hfine
      exact hwhole (Whole.exists_beq (by decide) hfine.1.1 hfine.1.2 hfine.2)
    unfold repetition
    rw [if_pos hrefused]
    exact ⟨_, rfl⟩

end

end Operator

end Treewalk
