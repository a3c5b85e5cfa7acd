import Mathlib.Algebra.Group.Nat.Defs
import Treewalk.Proofs.Text.Decode
import Treewalk.Text.Quoted

/-!
# Quoted texts can be read back

A quoted text tells the text it was made from and where it ends. A character is shown in one of five forms
(`Shown`), each form can be read back in front of any text (`Shown.readRune`) and none starts like the
closing quote. So two quoted texts that start the same text are quotations of one text, and what is behind
them is the same (`string_append_inj`). No quoted text holds a newline (`newline_notMem_string`).

A byte that is no UTF-8 is told from a control character by its value; all other characters are given by
their code point, from which their bytes follow (`Encodes.eq`).
-/

namespace Treewalk

namespace Rune

/-! ## Well-formed sequences -/

/-- The rune of a code point. -/
def ofCode (code : Nat) : Rune := ⟨code, encode code⟩

/-- The well-formed sequences: their bytes and the code point they stand for. -/
inductive Encodes : Bytes → Nat → Prop
  | one {a} (ha : a < 0x80) : Encodes [a] a.toNat
  | two {a b} (ha : within 0xC2 0xDF a = true) (hb : tail b = true) :
    Encodes [a, b] (a.toNat % 32 * 64 + bits b)
  | three {a b c} (h : opensThree a b = true) (hc : tail c = true) :
    Encodes [a, b, c] (a.toNat % 16 * 4096 + bits b * 64 + bits c)
  | four {a b c d} (h : opensFour a b = true) (hc : tail c = true) (hd : tail d = true) :
    Encodes [a, b, c, d] (a.toNat % 8 * 262144 + bits b * 4096 + bits c * 64 + bits d)

/-- A rune is a byte that is no UTF-8, or a well-formed sequence. -/
theorem first_cases (a : UInt8) (rest : Bytes) :
    (¬ a < 0x80 ∧ first a rest = invalid a) ∨
      Encodes (first a rest).raw (first a rest).code := by
  unfold first
  split
  · rename_i ha
    exact .inr (.one ha)
  · rename_i ha
    repeat' split
    · exact .inl ⟨ha, rfl⟩
    · rename_i h
      obtain ⟨ha, hb⟩ := Bool.and_eq_true_iff.1 h
      exact .inr (.two ha hb)
    · exact .inl ⟨ha, rfl⟩
    · rename_i h
      obtain ⟨hab, hc⟩ := Bool.and_eq_true_iff.1 h
      exact .inr (.three hab hc)
    · exact .inl ⟨ha, rfl⟩
    · rename_i h
      obtain ⟨habc, hd⟩ := Bool.and_eq_true_iff.1 h
      obtain ⟨hab, hc⟩ := Bool.and_eq_true_iff.1 habc
      exact .inr (.four hab hc hd)
    · exact .inl ⟨ha, rfl⟩

/-! ## Their bytes -/

theorem toUInt8_eq {n : Nat} {a : UInt8} (h : n = a.toNat) : n.toUInt8 = a := by
  subst h
  simp

theorem within_bounds {lo hi b : UInt8} (h : within lo hi b = true) :
    lo.toNat ≤ b.toNat ∧ b.toNat ≤ hi.toNat := by
  simpa [within, UInt8.le_iff_toNat_le] using h

theorem opensThree_bounds {a b : UInt8} (h : opensThree a b = true) :
    (0xE0 ≤ a.toNat ∧ a.toNat ≤ 0xEF) ∧ (0x80 ≤ b.toNat ∧ b.toNat ≤ 0xBF) ∧
      (a.toNat = 0xE0 → 0xA0 ≤ b.toNat) ∧ (a.toNat = 0xED → b.toNat ≤ 0x9F) := by
  unfold opensThree at h
  split_ifs at h with h₁ h₂
  · have hb := within_bounds h
    subst h₁
    simp at hb ⊢
    omega
  · have hb := within_bounds h
    subst h₂
    simp at hb ⊢
    omega
  · obtain ⟨ha, hb⟩ := Bool.and_eq_true_iff.1 h
    have ha := within_bounds ha
    have hb := within_bounds hb
    have hne : a.toNat ≠ 0xED := fun heq => h₂ (UInt8.toNat_inj.1 heq)
    simp at ha hb
    omega

theorem opensFour_bounds {a b : UInt8} (h : opensFour a b = true) :
    (0xF0 ≤ a.toNat ∧ a.toNat ≤ 0xF4) ∧ (0x80 ≤ b.toNat ∧ b.toNat ≤ 0xBF) ∧
      (a.toNat = 0xF0 → 0x90 ≤ b.toNat) ∧ (a.toNat = 0xF4 → b.toNat ≤ 0x8F) := by
  unfold opensFour at h
  split_ifs at h with h₁ h₂
  · have hb := within_bounds h
    subst h₁
    simp at hb ⊢
    omega
  · have hb := within_bounds h
    subst h₂
    simp at hb ⊢
    omega
  · obtain ⟨ha, hb⟩ := Bool.and_eq_true_iff.1 h
    have ha := within_bounds ha
    have hb := within_bounds hb
    simp at ha hb
    omega

theorem tail_bounds {b : UInt8} (h : tail b = true) : 0x80 ≤ b.toNat ∧ b.toNat ≤ 0xBF := by
  simpa using within_bounds h

theorem bits_eq {b : UInt8} (h : 0x80 ≤ b.toNat ∧ b.toNat ≤ 0xBF) : bits b = b.toNat - 0x80 := by
  unfold bits
  omega

theorem not_ascii {a : UInt8} (h : 0x80 ≤ a.toNat) : ¬ a < 0x80 := by
  rw [UInt8.lt_iff_toNat_lt]
  exact Nat.not_lt.2 h

theorem not_opensTwo {a : UInt8} (h : 0xE0 ≤ a.toNat) : within 0xC2 0xDF a = false := by
  rw [Bool.eq_false_iff]
  intro htwo
  have hhigh : a.toNat ≤ 0xDF := (within_bounds htwo).2
  omega

theorem encode_of_lt {n : Nat} (h : n < 0x80) : encode n = [n.toUInt8] := by
  simp [encode, h]

theorem first_toUInt8 {n : Nat} (h : n < 0x80) (rest : Bytes) : first n.toUInt8 rest = ofCode n := by
  have hn : n.toUInt8.toNat = n := Nat.mod_eq_of_lt (by omega)
  rw [first_ascii (UInt8.lt_iff_toNat_lt.2 (hn.symm ▸ h)), ofCode, encode_of_lt h, hn]

/-- A sequence is the one that its code point is encoded as. -/
theorem Encodes.eq {raw : Bytes} {code : Nat} (h : Encodes raw code) : encode code = raw := by
  cases h with
  | one ha => simp [encode, show _ < 128 from UInt8.lt_iff_toNat_lt.1 ha]
  | @two a b ha hb =>
    have ha := within_bounds ha
    have hb := tail_bounds hb
    have hbits := bits_eq hb
    generalize hcode : a.toNat % 32 * 64 + bits b = code
    simp at ha
    have h₁ : ¬ code < 0x80 := by omega
    have h₂ : code < 0x800 := by omega
    simp only [encode, h₁, h₂, if_true, if_false]
    rw [toUInt8_eq (a := a) (by omega), toUInt8_eq (a := b) (by omega)]
  | @three a b c h hc =>
    obtain ⟨ha, hb, hab⟩ := opensThree_bounds h
    have hc := tail_bounds hc
    have hbits := bits_eq hb
    have hbits' := bits_eq hc
    generalize hcode : a.toNat % 16 * 4096 + bits b * 64 + bits c = code
    have h₁ : ¬ code < 0x80 := by omega
    have h₂ : ¬ code < 0x800 := by omega
    have h₃ : code < 0x10000 := by omega
    simp only [encode, h₁, h₂, h₃, if_true, if_false]
    rw [toUInt8_eq (a := a) (by omega), toUInt8_eq (a := b) (by omega), toUInt8_eq (a := c) (by omega)]
  | @four a b c d h hc hd =>
    obtain ⟨ha, hb, hab⟩ := opensFour_bounds h
    have hc := tail_bounds hc
    have hd := tail_bounds hd
    have hbits := bits_eq hb
    have hbits' := bits_eq hc
    have hbits'' := bits_eq hd
    generalize hcode : a.toNat % 8 * 262144 + bits b * 4096 + bits c * 64 + bits d = code
    have h₁ : ¬ code < 0x80 := by omega
    have h₂ : ¬ code < 0x800 := by omega
    have h₃ : ¬ code < 0x10000 := by omega
    simp only [encode, h₁, h₂, h₃, if_false]
    rw [toUInt8_eq (a := a) (by omega), toUInt8_eq (a := b) (by omega), toUInt8_eq (a := c) (by omega),
      toUInt8_eq (a := d) (by omega)]

/-- A sequence is read as its code point, whatever follows. -/
theorem Encodes.first {a : UInt8} {more : Bytes} {code : Nat} (h : Encodes (a :: more) code) (u : Bytes) :
    Rune.first a (more ++ u) = ⟨code, a :: more⟩ := by
  cases h with
  | one ha => simp [Rune.first, ha]
  | two ha hb =>
    have hlow : 0xC2 ≤ a.toNat := (within_bounds ha).1
    simp [Rune.first, not_ascii (show 0x80 ≤ a.toNat by omega), ha, hb]
  | three h hc =>
    have ha := (opensThree_bounds h).1
    simp [Rune.first, not_ascii (show 0x80 ≤ a.toNat by omega), not_opensTwo ha.1, h, hc]
  | four h hc hd =>
    have ha := (opensFour_bounds h).1
    have hthree : ∀ b, opensThree a b = false := by
      intro b
      rw [Bool.eq_false_iff]
      intro hthree
      have := (opensThree_bounds hthree).1
      omega
    simp [Rune.first, not_ascii (show 0x80 ≤ a.toNat by omega),
      not_opensTwo (show 0xE0 ≤ a.toNat by omega), hthree, h, hc, hd]

theorem Encodes.ne_nil {raw : Bytes} {code : Nat} (h : Encodes raw code) : raw ≠ [] := by
  cases h <;> exact List.cons_ne_nil _ _

theorem Encodes.code_lt {raw : Bytes} {code : Nat} (h : Encodes raw code) : code < 0x200000 := by
  have hbits : ∀ b, bits b < 64 := fun b => Nat.mod_lt _ (by decide)
  cases h with
  | @one a ha =>
    have := a.toNat_lt
    omega
  | @two a b _ _ =>
    have := hbits b
    omega
  | @three a b c _ _ =>
    have := hbits b
    have := hbits c
    omega
  | @four a b c d _ _ _ =>
    have := hbits b
    have := hbits c
    have := hbits d
    omega

/-- Only a byte that is no UTF-8 counts as one. -/
theorem Encodes.isInvalid {r : Rune} (h : Encodes r.raw r.code) : r.isInvalid = false := by
  obtain ⟨code, raw⟩ := r
  cases h with
  | @one a ha =>
    have := a.toNat_lt
    have hne : a.toNat ≠ replacement := by
      unfold replacement
      omega
    simp [Rune.isInvalid, hne]
  | two => simp [Rune.isInvalid]
  | three => simp [Rune.isInvalid]
  | four => simp [Rune.isInvalid]

/-- A rune as decoding gives it. -/
def Genuine (r : Rune) : Prop := ∃ a rest, r = first a rest

theorem genuine_of_mem_decode {r : Rune} {s : Bytes} (h : r ∈ decode s) : r.Genuine := mem_decode h

end Rune

namespace Quoted

open Rune

/-! ## Hexadecimal digits -/

/-- The value of a hexadecimal digit. -/
def digitValue (b : UInt8) : Nat := if b < 0x3A then b.toNat - 0x30 else b.toNat - 0x57

/-- The number that hexadecimal digits spell. -/
def unhex (digits : Bytes) : Nat := digits.foldl (fun n b => 16 * n + digitValue b) 0

theorem digitValue_hexDigit : ∀ d < 16, digitValue (hexDigit d) = d := by decide

theorem hexDigit_ne_newline : ∀ d < 16, hexDigit d ≠ Bytes.newline := by decide

theorem length_hex (width n : Nat) : (hex width n).length = width := by
  induction width generalizing n with
  | zero => rfl
  | succ width ih => rw [hex, List.length_append, ih, List.length_singleton]

theorem unhex_hex {width n : Nat} (h : n < 16 ^ width) : unhex (hex width n) = n := by
  induction width generalizing n with
  | zero =>
    have : n = 0 := by simpa using h
    simp [hex, unhex, this]
  | succ width ih =>
    have hdiv : n / 16 < 16 ^ width := by
      rw [Nat.div_lt_iff_lt_mul (by decide), ← Nat.pow_succ]
      exact h
    have hrest : (hex width (n / 16)).foldl (fun n b => 16 * n + digitValue b) 0 = n / 16 := ih hdiv
    have hdigit := digitValue_hexDigit (n % 16) (Nat.mod_lt n (by decide))
    rw [hex, unhex, List.foldl_append, hrest]
    show 16 * (n / 16) + digitValue (hexDigit (n % 16)) = n
    rw [hdigit]
    omega

theorem newline_notMem_hex (width n : Nat) : Bytes.newline ∉ hex width n := by
  induction width generalizing n with
  | zero => exact List.not_mem_nil
  | succ width ih =>
    rw [hex, List.mem_append, List.mem_singleton, not_or]
    exact ⟨ih _, (hexDigit_ne_newline _ (Nat.mod_lt n (by decide))).symm⟩

/-! ## One character -/

/-- The code point that a letter or mark behind a backslash stands for. -/
def letterCode (c : UInt8) : Nat :=
  if c = 0x61 then 0x07
  else if c = 0x62 then 0x08
  else if c = 0x66 then 0x0C
  else if c = 0x6E then 0x0A
  else if c = 0x72 then 0x0D
  else if c = 0x74 then 0x09
  else if c = 0x76 then 0x0B
  else c.toNat

/-- The forms in which a character is shown between double quotes. -/
inductive Shown : Rune → Bytes → Prop
  | plain {r} (h : Encodes r.raw r.code) (hquote : r.code ≠ 0x22) (hslash : r.code ≠ 0x5C)
    (hline : r.code ≠ 0x0A) : Shown r r.raw
  | letter {c} (h : c ≠ 0x78 ∧ c ≠ 0x75 ∧ c ≠ 0x55) (hline : c ≠ Bytes.newline) :
    Shown (ofCode (letterCode c)) [0x5C, c]
  | byte {n} (h : n < 16 ^ 2) : Shown (first n.toUInt8 []) (text "\\x" ++ hex 2 n)
  | short {n} (h : n < 16 ^ 4) : Shown (ofCode n) (text "\\u" ++ hex 4 n)
  | long {n} (h : n < 16 ^ 8) : Shown (ofCode n) (text "\\U" ++ hex 8 n)

theorem letterCode_of_controlLetter? {code : Nat} {c : UInt8} (h : controlLetter? code = some c) :
    letterCode c = code ∧ (c ≠ 0x78 ∧ c ≠ 0x75 ∧ c ≠ 0x55) ∧ c ≠ Bytes.newline := by
  unfold controlLetter? at h
  split at h <;> cases h <;> decide

theorem letterCode_of_mark {code : Nat} (h : code = 0x22 ∨ code = 0x5C) :
    letterCode code.toUInt8 = code ∧
      (code.toUInt8 ≠ 0x78 ∧ code.toUInt8 ≠ 0x75 ∧ code.toUInt8 ≠ 0x55) ∧
      code.toUInt8 ≠ Bytes.newline := by
  rcases h with rfl | rfl <;> decide

theorem isPrintable_newline : isPrintable 0x0A = false := by decide +kernel

/-- Every character is shown in one of the forms. -/
theorem shown_rune {r : Rune} (h : r.Genuine) : Shown r (rune 0x22 r) := by
  obtain ⟨a, rest, rfl⟩ := h
  rcases first_cases a rest with ⟨ha, heq⟩ | h
  · have hrune : rune 0x22 (invalid a) = text "\\x" ++ hex 2 a.toNat := by
      simp [rune, invalid, Rune.isInvalid]
    have hfirst : first a.toNat.toUInt8 [] = invalid a := by
      rw [toUInt8_eq rfl]
      simp [first, ha]
    rw [heq, hrune, ← hfirst]
    exact .byte a.toNat_lt
  · generalize first a rest = r at h ⊢
    have hcode : ofCode r.code = r := by rw [ofCode, h.eq]
    unfold rune
    rw [h.isInvalid, if_neg Bool.false_ne_true]
    split
    · rename_i hmark
      have hmark : r.code = 0x22 ∨ r.code = 0x5C := by simpa using hmark
      obtain ⟨hletter, hescape, hline⟩ := letterCode_of_mark hmark
      have hraw : r.raw = [r.code.toUInt8] := by
        rw [← h.eq, encode_of_lt (by omega)]
      have hr : r = ofCode (letterCode r.code.toUInt8) := by rw [hletter, hcode]
      rw [hraw]
      nth_rewrite 1 [hr]
      exact .letter hescape hline
    · rename_i hmark
      have hmark : r.code ≠ 0x22 ∧ r.code ≠ 0x5C := by simpa using hmark
      split
      · rename_i hprint
        refine .plain h hmark.1 hmark.2 fun hline => ?_
        rw [hline, isPrintable_newline] at hprint
        exact Bool.false_ne_true hprint
      · split
        · rename_i c hletter
          obtain ⟨hletter, hescape, hline⟩ := letterCode_of_controlLetter? hletter
          rw [← hcode, ← hletter]
          exact .letter hescape hline
        · split
          · rename_i hcontrol
            have hlow : r.code < 0x80 := by
              simp only [Bool.or_eq_true, decide_eq_true_eq] at hcontrol
              omega
            have hr : r = first r.code.toUInt8 [] := by rw [first_toUInt8 hlow, hcode]
            nth_rewrite 1 [hr]
            exact .byte (by omega)
          · split
            · rename_i hshort
              nth_rewrite 1 [← hcode]
              exact .short hshort
            · nth_rewrite 1 [← hcode]
              exact .long (Nat.lt_trans h.code_lt (by decide))

/-- The first character inside a quoted text, and the text behind it. -/
def readRune : Bytes → Rune × Bytes
  | [] => (ofCode 0, [])
  | a :: rest =>
    if a = 0x5C then
      match rest with
      | [] => (ofCode 0, [])
      | tag :: rest =>
        if tag = 0x78 then (first (unhex (rest.take 2)).toUInt8 [], rest.drop 2)
        else if tag = 0x75 then (ofCode (unhex (rest.take 4)), rest.drop 4)
        else if tag = 0x55 then (ofCode (unhex (rest.take 8)), rest.drop 8)
        else (ofCode (letterCode tag), rest)
    else (first a rest, rest.drop (extra a rest))

/-- Every character is read back from what it is shown as. -/
theorem Shown.readRune {r : Rune} {shown : Bytes} (h : Shown r shown) (u : Bytes) :
    Quoted.readRune (shown ++ u) = (r, u) := by
  cases h with
  | plain h _ hslash _ =>
    obtain ⟨code, raw⟩ := r
    obtain ⟨a, more, rfl⟩ : ∃ a more, raw = a :: more := List.exists_cons_of_ne_nil h.ne_nil
    have hfirst := h.first u
    have ha : a ≠ 0x5C := by
      rintro rfl
      rw [first_ascii (by decide)] at hfirst
      exact hslash (congrArg Rune.code hfirst).symm
    have hextra : extra a (more ++ u) = more.length := by
      rw [extra, hfirst]
      rfl
    show (if a = 0x5C then _ else (first a (more ++ u), (more ++ u).drop (extra a (more ++ u)))) = _
    rw [if_neg ha, hextra, hfirst, List.drop_left]
  | letter h _ =>
    obtain ⟨hx, hu, hU⟩ := h
    simp [Quoted.readRune, hx, hu, hU]
  | @byte n h =>
    show (first (unhex ((hex 2 n ++ u).take 2)).toUInt8 [], (hex 2 n ++ u).drop 2) = _
    rw [List.take_left' (length_hex 2 n), List.drop_left' (length_hex 2 n), unhex_hex h]
  | @short n h =>
    show (ofCode (unhex ((hex 4 n ++ u).take 4)), (hex 4 n ++ u).drop 4) = _
    rw [List.take_left' (length_hex 4 n), List.drop_left' (length_hex 4 n), unhex_hex h]
  | @long n h =>
    show (ofCode (unhex ((hex 8 n ++ u).take 8)), (hex 8 n ++ u).drop 8) = _
    rw [List.take_left' (length_hex 8 n), List.drop_left' (length_hex 8 n), unhex_hex h]

/-- No character is shown as what starts like the closing quote. -/
theorem Shown.append_ne_quote {r : Rune} {shown : Bytes} (h : Shown r shown) (u v : Bytes) :
    shown ++ u ≠ 0x22 :: v := by
  cases h with
  | plain h hquote _ _ =>
    obtain ⟨code, raw⟩ := r
    obtain ⟨a, more, rfl⟩ : ∃ a more, raw = a :: more := List.exists_cons_of_ne_nil h.ne_nil
    intro heq
    obtain ⟨rfl, -⟩ := List.cons.inj heq
    have hfirst := h.first u
    rw [first_ascii (by decide)] at hfirst
    exact hquote (congrArg Rune.code hfirst).symm
  | letter => simp
  | byte => exact fun heq => absurd (List.cons.inj heq).1 (by decide)
  | short => exact fun heq => absurd (List.cons.inj heq).1 (by decide)
  | long => exact fun heq => absurd (List.cons.inj heq).1 (by decide)

theorem Shown.newline_notMem {r : Rune} {shown : Bytes} (h : Shown r shown) : Bytes.newline ∉ shown := by
  have hdigits : ∀ {tag : String} {width n : Nat}, Bytes.newline ∉ text tag →
      Bytes.newline ∉ text tag ++ hex width n := by
    intro tag width n htag
    rw [List.mem_append, not_or]
    exact ⟨htag, newline_notMem_hex width n⟩
  cases h with
  | plain h _ _ hline =>
    obtain ⟨code, raw⟩ := r
    obtain ⟨a, more, rfl⟩ : ∃ a more, raw = a :: more := List.exists_cons_of_ne_nil h.ne_nil
    have hnewline := first_newline a (more ++ [])
    rw [h.first []] at hnewline
    rcases hnewline with ⟨heq, -⟩ | ⟨-, hmem⟩
    · exact absurd heq hline
    · exact hmem
  | letter _ hline =>
    rw [List.mem_cons, List.mem_singleton, not_or]
    exact ⟨by decide, hline.symm⟩
  | byte => exact hdigits (by decide)
  | short => exact hdigits (by decide)
  | long => exact hdigits (by decide)

/-! ## Texts -/

/-- What is between the quotes and where it ends follows from the text. -/
theorem flatMap_rune_inj {rs ts : List Rune} (hrs : ∀ r ∈ rs, r.Genuine) (hts : ∀ r ∈ ts, r.Genuine)
    {u v : Bytes} (h : rs.flatMap (rune 0x22) ++ 0x22 :: u = ts.flatMap (rune 0x22) ++ 0x22 :: v) :
    rs = ts ∧ u = v := by
  induction rs generalizing ts with
  | nil =>
    cases ts with
    | nil => exact ⟨rfl, (List.cons.inj h).2⟩
    | cons t ts =>
      rw [List.flatMap_cons, List.append_assoc] at h
      exact absurd h.symm ((shown_rune (hts t List.mem_cons_self)).append_ne_quote _ _)
  | cons r rs ih =>
    cases ts with
    | nil =>
      rw [List.flatMap_cons, List.append_assoc] at h
      exact absurd h ((shown_rune (hrs r List.mem_cons_self)).append_ne_quote _ _)
    | cons t ts =>
      rw [List.forall_mem_cons] at hrs hts
      rw [List.flatMap_cons, List.flatMap_cons, List.append_assoc, List.append_assoc] at h
      have hread := congrArg readRune h
      rw [(shown_rune hrs.1).readRune, (shown_rune hts.1).readRune] at hread
      obtain ⟨rfl, hrest⟩ := Prod.mk.inj hread
      obtain ⟨rfl, huv⟩ := ih hrs.2 hts.2 hrest
      exact ⟨rfl, huv⟩

/-- A quoted text tells the text and where it ends. -/
theorem string_append_inj {s t u v : Bytes} (h : string s ++ u = string t ++ v) : s = t ∧ u = v := by
  have hcut : ∀ w x : Bytes, string w ++ x = 0x22 :: ((decode w).flatMap (rune 0x22) ++ 0x22 :: x) := by
    intro w x
    simp [string]
  rw [hcut, hcut] at h
  obtain ⟨hrunes, huv⟩ := flatMap_rune_inj (fun _ => genuine_of_mem_decode)
    (fun _ => genuine_of_mem_decode) (List.cons.inj h).2
  refine ⟨?_, huv⟩
  rw [← bytes_decode s, hrunes, bytes_decode]

/-- A quoted text stays on its line. -/
theorem newline_notMem_string (s : Bytes) : Bytes.newline ∉ string s := by
  have hquote : Bytes.newline ≠ 0x22 := by decide
  simp only [string, List.mem_append, List.mem_singleton, List.mem_flatMap, hquote, or_false, false_or]
  rintro ⟨r, hr, hmem⟩
  exact (shown_rune (genuine_of_mem_decode hr)).newline_notMem hmem

end Quoted

end Treewalk
