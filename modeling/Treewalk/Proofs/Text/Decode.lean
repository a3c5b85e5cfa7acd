import Treewalk.Text.Rune
import Mathlib.Data.List.Basic
import Mathlib.Tactic.SplitIfs

/-!
# Decoding cuts a text

The runes of a text, each with its bytes, are the text (`bytes_decode`). Decoding looks at most three
bytes ahead, and only to see whether they continue the rune at hand. So a text may be cut where a rune
ends, and each part decodes to its own runes (`decode_of_append`), whatever is left of the second part
(`decode_append_of_prefix`); and an ASCII byte, which continues no rune, is a place where any text may be
cut (`decode_append_ascii`).
-/

namespace Treewalk.Rune

/-! ## The first rune -/

/-- A rune takes its bytes off the front of the text. -/
theorem raw_first (a : UInt8) (rest : Bytes) :
    (first a rest).raw = a :: rest.take ((first a rest).raw.length - 1) := by
  unfold first
  split
  · rfl
  · rcases rest with _ | ⟨b, _ | ⟨c, _ | ⟨d, rest⟩⟩⟩ <;> simp only [invalid] <;> (repeat' split) <;> rfl

/-- How many bytes of the text behind its first byte a rune takes. -/
def extra (a : UInt8) (rest : Bytes) : Nat := (first a rest).raw.length - 1

theorem extra_le (a : UInt8) (rest : Bytes) : extra a rest ≤ rest.length := by
  have h := congrArg List.length (raw_first a rest)
  rw [List.length_cons, List.length_take] at h
  unfold extra
  omega

/-- The bytes behind a rune have no say in it. -/
theorem first_take {a : UInt8} {rest : Bytes} {n : Nat} (h : (first a rest).raw.length ≤ n + 1) :
    first a (rest.take n) = first a rest := by
  by_cases ha : a < 0x80
  · simp only [first, ha, if_true]
  · rcases rest with _ | ⟨b, _ | ⟨c, _ | ⟨d, rest⟩⟩⟩ <;> rcases n with _ | _ | _ | n <;>
      simp only [first, ha, if_false, invalid, List.take_nil, List.take_zero,
        List.take_succ_cons] at h ⊢ <;>
      split_ifs at h ⊢ <;> simp at h ⊢

/-- With less behind it, a rune is the same or its first byte is left alone. -/
theorem first_take_cases (a : UInt8) (rest : Bytes) (n : Nat) :
    first a (rest.take n) = first a rest ∨ first a (rest.take n) = invalid a := by
  by_cases ha : a < 0x80
  · simp only [first, ha, if_true, true_or]
  · rcases rest with _ | ⟨b, _ | ⟨c, _ | ⟨d, rest⟩⟩⟩ <;> rcases n with _ | _ | _ | n <;>
      simp only [first, ha, if_false, List.take_nil, List.take_zero, List.take_succ_cons, true_or] <;>
      split_ifs <;> simp

/-! ## ASCII bytes -/

/-- An ASCII byte is a rune whatever follows it. -/
theorem first_ascii {a : UInt8} (ha : a < 0x80) (rest : Bytes) : first a rest = ⟨a.toNat, [a]⟩ := by
  unfold first
  rw [if_pos ha]

theorem le_of_tail {b : UInt8} (h : tail b = true) : 0x80 ≤ b := by
  simp only [tail, within, Bool.and_eq_true, decide_eq_true_eq] at h
  exact h.1

theorem opensThree_wide {a b : UInt8} (c : UInt8) (h : opensThree a b = true) :
    0x80 ≤ b ∧ 0x80 ≤ a.toNat % 16 * 4096 + bits b * 64 + bits c := by
  simp only [opensThree, tail, within, bits] at h ⊢
  split_ifs at h with h₁ h₂
  all_goals
    simp only [Bool.and_eq_true, decide_eq_true_eq, UInt8.le_iff_toNat_le, UInt8.toNat_ofNat] at h ⊢
  · omega
  · subst h₂
    simp only [UInt8.toNat_ofNat]
    omega
  · omega

theorem opensFour_wide {a b : UInt8} (c d : UInt8) (h : opensFour a b = true) :
    0x80 ≤ b ∧ 0x80 ≤ a.toNat % 8 * 262144 + bits b * 4096 + bits c * 64 + bits d := by
  simp only [opensFour, tail, within, bits] at h ⊢
  split_ifs at h with h₁ h₂
  all_goals
    simp only [Bool.and_eq_true, decide_eq_true_eq, UInt8.le_iff_toNat_le, UInt8.toNat_ofNat] at h ⊢
  · omega
  · subst h₂
    simp only [UInt8.toNat_ofNat]
    omega
  · omega

/-- A rune that does not start with an ASCII byte has neither an ASCII code nor an ASCII byte. -/
theorem first_wide {a : UInt8} (ha : ¬ a < 0x80) (rest : Bytes) :
    0x80 ≤ (first a rest).code ∧ ∀ b ∈ (first a rest).raw, 0x80 ≤ b := by
  have ha' : 0x80 ≤ a := UInt8.not_lt.1 ha
  have hinvalid : 0x80 ≤ (invalid a).code ∧ ∀ b ∈ (invalid a).raw, 0x80 ≤ b := by
    refine ⟨by simp [invalid, replacement], ?_⟩
    simpa [invalid] using ha'
  unfold first
  rw [if_neg ha]
  split
  · exact hinvalid
  · rename_i b rest
    split
    · rename_i h
      simp only [within, tail, Bool.and_eq_true, decide_eq_true_eq, UInt8.le_iff_toNat_le,
        UInt8.toNat_ofNat] at h
      simp [bits, UInt8.le_iff_toNat_le]
      omega
    · split
      · exact hinvalid
      · rename_i c rest
        split
        · rename_i h
          simp only [Bool.and_eq_true] at h
          obtain ⟨hb, hcode⟩ := opensThree_wide c h.1
          exact ⟨hcode, by simp [ha', hb, le_of_tail h.2]⟩
        · split
          · exact hinvalid
          · rename_i d rest
            split
            · rename_i h
              simp only [Bool.and_eq_true] at h
              obtain ⟨hb, hcode⟩ := opensFour_wide c d h.1.1
              exact ⟨hcode, by simp [ha', hb, le_of_tail h.1.2, le_of_tail h.2]⟩
            · exact hinvalid

theorem tail_ascii {b : UInt8} (hb : b < 0x80) : tail b = false := by
  rw [Bool.eq_false_iff]
  intro h
  exact UInt8.not_lt.2 (le_of_tail h) hb

theorem opensThree_ascii (a : UInt8) {b : UInt8} (hb : b < 0x80) : opensThree a b = false := by
  rw [Bool.eq_false_iff]
  intro h
  exact UInt8.not_lt.2 (opensThree_wide 0 h).1 hb

theorem opensFour_ascii (a : UInt8) {b : UInt8} (hb : b < 0x80) : opensFour a b = false := by
  rw [Bool.eq_false_iff]
  intro h
  exact UInt8.not_lt.2 (opensFour_wide 0 0 h).1 hb

/-- An ASCII byte continues no rune. -/
theorem first_append_ascii (a : UInt8) (rest t : Bytes) {b : UInt8} (hb : b < 0x80) :
    first a (rest ++ b :: t) = first a rest := by
  by_cases ha : a < 0x80
  · simp only [first, ha, if_true]
  · rcases rest with _ | ⟨x, _ | ⟨y, _ | ⟨z, rest⟩⟩⟩ <;> rcases t with _ | ⟨u, _ | ⟨v, t⟩⟩ <;>
      simp [first, ha, tail_ascii hb, opensThree_ascii, opensFour_ascii, hb]

/-- A rune is a newline or has none among its bytes. -/
theorem first_newline (a : UInt8) (rest : Bytes) :
    ((first a rest).code = 0x0A ∧ (first a rest).raw = [Bytes.newline]) ∨
      ((first a rest).code ≠ 0x0A ∧ Bytes.newline ∉ (first a rest).raw) := by
  by_cases ha : a < 0x80
  · have hfirst : first a rest = ⟨a.toNat, [a]⟩ := by simp only [first, ha, if_true]
    rw [hfirst]
    by_cases hnl : a = Bytes.newline
    · subst hnl
      exact .inl ⟨rfl, rfl⟩
    · refine .inr ⟨fun h => hnl (UInt8.toNat_inj.1 h), ?_⟩
      simpa using Ne.symm hnl
  · obtain ⟨hcode, hraw⟩ := first_wide ha rest
    refine .inr ⟨by omega, fun h => ?_⟩
    exact absurd (hraw _ h) (by decide)

/-! ## All runes -/

theorem decodeInto_eq (s : Bytes) : ∀ (done : List Rune) (skip : Nat),
    decodeInto done skip s = done.reverse ++ decode (s.drop skip) := by
  induction s with
  | nil =>
    intro done skip
    simp [decodeInto, decode]
  | cons a rest ih =>
    intro done skip
    cases skip with
    | zero => simp [decode, decodeInto, ih]
    | succ skip => rw [decodeInto, ih, List.drop_succ_cons]

@[simp] theorem decode_nil : decode [] = [] := rfl

theorem decode_cons (a : UInt8) (rest : Bytes) :
    decode (a :: rest) = first a rest :: decode (rest.drop (extra a rest)) := by
  rw [decode, decodeInto, decodeInto_eq]
  rfl

/-- An ASCII byte is decoded by itself. -/
theorem decode_cons_ascii {a : UInt8} (ha : a < 0x80) (rest : Bytes) :
    decode (a :: rest) = ⟨a.toNat, [a]⟩ :: decode rest := by
  rw [decode_cons, extra, first_ascii ha]
  rfl

/-- Along a text from rune to rune. -/
theorem decode_induction {motive : Bytes → Prop} (nil : motive [])
    (cons : ∀ a rest, motive (rest.drop (extra a rest)) → motive (a :: rest)) (s : Bytes) :
    motive s := by
  induction hn : s.length using Nat.strongRecOn generalizing s with
  | _ n ih =>
    cases s with
    | nil => exact nil
    | cons a rest =>
      refine cons a rest (ih _ ?_ _ rfl)
      rw [← hn, List.length_drop, List.length_cons]
      omega

theorem mem_decode {r : Rune} {s : Bytes} (h : r ∈ decode s) : ∃ a rest, r = first a rest := by
  induction s using decode_induction with
  | nil => simp at h
  | cons a rest ih =>
    rw [decode_cons] at h
    rcases List.mem_cons.1 h with rfl | h
    · exact ⟨a, rest, rfl⟩
    · exact ih h

@[simp] theorem bytes_nil : bytes [] = [] := rfl

@[simp] theorem bytes_cons (r : Rune) (rs : List Rune) : bytes (r :: rs) = r.raw ++ bytes rs := rfl

@[simp] theorem bytes_append (rs ts : List Rune) : bytes (rs ++ ts) = bytes rs ++ bytes ts :=
  List.flatMap_append

/-- The runes of a text are the text. -/
theorem bytes_decode (s : Bytes) : bytes (decode s) = s := by
  induction s using decode_induction with
  | nil => rfl
  | cons a rest ih =>
    rw [decode_cons, bytes_cons, ih, raw_first, List.cons_append]
    exact congrArg (a :: ·) (List.take_append_drop _ _)

theorem raw_ne_nil_of_mem_decode {r : Rune} {s : Bytes} (h : r ∈ decode s) : r.raw ≠ [] := by
  obtain ⟨a, rest, rfl⟩ := mem_decode h
  rw [raw_first]
  exact List.cons_ne_nil _ _

/-- The first rune of a text stays what it is if something of the text behind it is left off. -/
theorem decode_raw_append {r : Rune} {ts : List Rune} {q u : Bytes}
    (h : decode (r.raw ++ (q ++ u)) = r :: ts) : decode (q ++ u) = ts ∧ decode (r.raw ++ q) = r :: decode q := by
  obtain ⟨a, more, hraw⟩ := List.exists_cons_of_ne_nil
    (raw_ne_nil_of_mem_decode (h ▸ List.mem_cons_self : r ∈ decode (r.raw ++ (q ++ u))))
  rw [hraw, List.cons_append, decode_cons] at h
  obtain ⟨hfirst, hrest⟩ := List.cons.inj h
  have hlength : (first a (more ++ (q ++ u))).raw.length = more.length + 1 := by
    rw [hfirst, hraw, List.length_cons]
  have hshort : first a (more ++ q) = r := by
    have htake : more ++ q = (more ++ (q ++ u)).take (more.length + q.length) := by
      rw [← List.append_assoc, ← List.length_append, List.take_left]
    rw [htake, ← hfirst]
    refine first_take ?_
    omega
  rw [extra, hlength, Nat.add_sub_cancel, List.drop_left] at hrest
  refine ⟨hrest, ?_⟩
  rw [hraw, List.cons_append, decode_cons, extra, hshort, hraw, List.length_cons, Nat.add_sub_cancel,
    List.drop_left]

/-- A text that is cut where a rune ends is decoded part by part. -/
theorem decode_of_append {rs ts : List Rune} {s : Bytes} (h : decode s = rs ++ ts) :
    decode (bytes rs) = rs ∧ decode (bytes ts) = ts := by
  have hs : s = bytes rs ++ bytes ts := by rw [← bytes_append, ← h, bytes_decode]
  subst hs
  induction rs with
  | nil => exact ⟨rfl, h⟩
  | cons r rs ih =>
    rw [bytes_cons, List.append_assoc] at h
    obtain ⟨hrest, hfirst⟩ := decode_raw_append h
    obtain ⟨hrs, hts⟩ := ih hrest
    exact ⟨by rw [bytes_cons, hfirst, hrs], hts⟩

/-- The runes before a cut stay what they are if something of the second part is left off. -/
theorem decode_append_of_prefix {rs : List Rune} {t q : Bytes} (hq : q <+: t)
    (h : decode (bytes rs ++ t) = rs ++ decode t) : decode (bytes rs ++ q) = rs ++ decode q := by
  obtain ⟨u, rfl⟩ := hq
  induction rs with
  | nil => rfl
  | cons r rs ih =>
    rw [bytes_cons, List.append_assoc, ← List.append_assoc (bytes rs)] at h
    obtain ⟨hrest, hfirst⟩ := decode_raw_append h
    rw [List.append_assoc] at hrest
    rw [bytes_cons, List.append_assoc, hfirst, ih hrest, List.cons_append]

/-- An ASCII byte ends every rune before it. -/
theorem decode_append_ascii (s t : Bytes) {b : UInt8} (hb : b < 0x80) :
    decode (s ++ b :: t) = decode s ++ decode (b :: t) := by
  induction s using decode_induction with
  | nil => rfl
  | cons a rest ih =>
    have hextra : extra a (rest ++ b :: t) = extra a rest := by
      rw [extra, first_append_ascii a rest t hb, extra]
    rw [List.cons_append, decode_cons, decode_cons, first_append_ascii a rest t hb, hextra,
      List.drop_append_of_le_length (extra_le a rest), ih, List.cons_append]

end Treewalk.Rune
