import Treewalk.Proofs.Parser.Yield
import Treewalk.Proofs.Text.Quoted
import Treewalk.Proofs.Token.Pieces
import Mathlib.Tactic.SplitIfs

/-!
# How tokens are spelled

What a scanned token is follows from its spelling, the value of a text apart: marks and keywords have one
spelling each, a number starts with a digit, and a name does not and is no keyword (`Token.Genuine`). All
but texts are spelled by words, which hold neither blanks and newlines nor quotes and parentheses
(`Bytes.IsWord`).

Main result: `Token.scan_genuine`.
-/

namespace Treewalk

/-! ## Words -/

/-- The bytes that no word holds: blank, newline, quote and parentheses. -/
def Bytes.breaks : List UInt8 := [0x20, Bytes.newline, 0x22, 0x28, 0x29]

/-- A text that stands for itself among others: not empty, and without a byte that would end it. -/
structure Bytes.IsWord (w : Bytes) : Prop where
  ne_nil : w ≠ []
  unbroken : ∀ b ∈ w, b ∉ Bytes.breaks

instance (w : Bytes) : Decidable w.IsWord :=
  decidable_of_iff (w ≠ [] ∧ w.all (fun b => !Bytes.breaks.contains b) = true)
    ⟨fun h => ⟨h.1, by simpa using h.2⟩, fun h => ⟨h.1, by simpa using h.unbroken⟩⟩

/-- Does a word start with a digit? -/
def Bytes.startsDigit (w : Bytes) : Bool := Segment.isDigit ((w.headD 0).toNat)

namespace Rune

/-- A rune is an ASCII byte, or all its bytes are outside ASCII. -/
theorem Genuine.raw_cases {r : Rune} (h : r.Genuine) :
    (r.code < 0x80 ∧ r.raw = [r.code.toUInt8]) ∨
      (0x80 ≤ r.code ∧ r.raw ≠ [] ∧ ∀ b ∈ r.raw, 0x80 ≤ b) := by
  obtain ⟨a, rest, rfl⟩ := h
  by_cases ha : a < 0x80
  · rw [first_ascii ha]
    exact .inl ⟨UInt8.lt_iff_toNat_lt.1 ha, by simp⟩
  · obtain ⟨hcode, hraw⟩ := first_wide ha rest
    refine .inr ⟨hcode, ?_, hraw⟩
    rw [raw_first]
    exact List.cons_ne_nil _ _

theorem Genuine.raw_eq {r : Rune} (h : r.Genuine) (hcode : r.code < 0x80) :
    r.raw = [r.code.toUInt8] := by
  rcases h.raw_cases with ⟨-, hraw⟩ | ⟨hwide, -⟩
  · exact hraw
  · omega

/-- Runes whose ASCII codes break no word make up words. -/
theorem unbroken_bytes {p : Nat → Bool} (hp : ∀ c < 0x80, p c = true → c.toUInt8 ∉ Bytes.breaks)
    {rs : List Rune} (hrs : ∀ r ∈ rs, r.Genuine ∧ p r.code = true) :
    ∀ b ∈ bytes rs, b ∉ Bytes.breaks := by
  have hwide : ∀ b : UInt8, 0x80 ≤ b → b ∉ Bytes.breaks := by
    intro b hb hmem
    have hlow : Bytes.breaks.all (· < 0x80) = true := by decide
    exact absurd (of_decide_eq_true (List.all_eq_true.1 hlow b hmem)) (UInt8.not_lt.2 hb)
  intro b hb
  obtain ⟨r, hr, hb⟩ := List.mem_flatMap.1 hb
  obtain ⟨hgenuine, hcode⟩ := hrs r hr
  rcases hgenuine.raw_cases with ⟨hlow, hraw⟩ | ⟨-, -, hraw⟩
  · rw [hraw, List.mem_singleton] at hb
    rw [hb]
    exact hp _ hlow hcode
  · exact hwide b (hraw b hb)

theorem bytes_ne_nil {r : Rune} (h : r.Genuine) (rs : List Rune) : bytes (r :: rs) ≠ [] := by
  rw [bytes_cons]
  rcases h.raw_cases with ⟨-, hraw⟩ | ⟨-, hne, -⟩
  · simp [hraw]
  · simp [hne]

/-- A text starts with a digit if its first rune is one. -/
theorem startsDigit_bytes {r : Rune} (h : r.Genuine) (rs : List Rune) :
    (bytes (r :: rs)).startsDigit = Segment.isDigit r.code := by
  have hwide : ∀ {n : Nat}, 0x80 ≤ n → Segment.isDigit n = false := by
    intro n hn
    simp [Segment.isDigit]
    omega
  rw [Bytes.startsDigit, bytes_cons]
  rcases h.raw_cases with ⟨hlow, hraw⟩ | ⟨hcode, hne, hraw⟩
  · rw [hraw]
    exact congrArg Segment.isDigit (Nat.mod_eq_of_lt (by omega))
  · obtain ⟨b, more, hmore⟩ := List.exists_cons_of_ne_nil hne
    rw [hmore] at hraw ⊢
    have hb : 0x80 ≤ b.toNat := UInt8.le_iff_toNat_le.1 (hraw b List.mem_cons_self)
    rw [hwide hcode]
    exact hwide hb

end Rune

/-- The kinds of operators and marks. -/
def Token.Kind.isMark : Token.Kind → Bool
  | .eof | .identifier | .number | .string => false
  | kind => !keywords.contains kind

namespace Segment

/-! ## Names -/

theorem unbroken_of_continuesName :
    ∀ c < 0x80, continuesName c = true → c.toUInt8 ∉ Bytes.breaks := by decide +kernel

theorem continuesName_of_startsName {c : Nat} (h : startsName c = true) : continuesName c = true := by
  simp only [startsName, continuesName, Bool.or_eq_true] at h ⊢
  tauto

theorem forall_mem_take_runLength (p : Nat → Bool) (rs : List Rune) :
    ∀ r ∈ rs.take (runLength p rs), p r.code = true := by
  induction rs with
  | nil => simp
  | cons r rest ih =>
    unfold runLength
    split
    · rename_i hr
      exact List.forall_mem_cons.2 ⟨hr, ih⟩
    · simp

/-- A run of runes that may form a name is a word that starts with no digit. -/
theorem name_spelling {r : Rune} {rest : List Rune} (hrs : ∀ x ∈ r :: rest, x.Genuine)
    (hr : startsName r.code = true) (hrest : ∀ x ∈ rest, continuesName x.code = true) :
    (Rune.bytes (r :: rest)).IsWord ∧ (Rune.bytes (r :: rest)).startsDigit = false := by
  have hall : ∀ x ∈ r :: rest, x.Genuine ∧ continuesName x.code = true := by
    intro x hx
    refine ⟨hrs x hx, ?_⟩
    rcases List.mem_cons.1 hx with rfl | hx
    · exact continuesName_of_startsName hr
    · exact hrest x hx
  refine ⟨⟨Rune.bytes_ne_nil (hrs r List.mem_cons_self) rest,
    Rune.unbroken_bytes unbroken_of_continuesName hall⟩, ?_⟩
  rw [Rune.startsDigit_bytes (hrs r List.mem_cons_self), Bool.eq_false_iff]
  intro hdigit
  rw [startsName_of_isDigit hdigit] at hr
  exact Bool.false_ne_true hr

/-! ## Numbers -/

theorem unbroken_of_numeral :
    ∀ c < 0x80, (isDigit c || c == 0x2E) = true → c.toUInt8 ∉ Bytes.breaks := by decide +kernel

/-- A number has nothing but digits and a point in it. -/
theorem forall_mem_take_numberLength (rs : List Rune) :
    ∀ r ∈ rs.take (numberLength rs), (isDigit r.code || r.code == 0x2E) = true := by
  have hdigits : ∀ (ts : List Rune), ∀ r ∈ ts.take (runLength isDigit ts),
      (isDigit r.code || r.code == 0x2E) = true := by
    intro ts r hr
    rw [forall_mem_take_runLength isDigit ts r hr]
    rfl
  simp only [numberLength]
  cases hdrop : rs.drop (runLength isDigit rs) with
  | nil => exact hdigits rs
  | cons point rest =>
    by_cases hpoint : (point.code = 0x2E && 0 < runLength isDigit rest) = true
    · simp only [hpoint, if_true]
      intro r hr
      rw [Nat.add_assoc, List.take_add, hdrop, Nat.add_comm 1, List.take_succ_cons] at hr
      rcases List.mem_append.1 hr with hr | hr
      · exact hdigits rs r hr
      · rcases List.mem_cons.1 hr with rfl | hr
        · simp at hpoint
          simp [hpoint.1]
        · exact hdigits rest r hr
    · simp only [hpoint]
      exact hdigits rs

theorem numberLength_pos {r : Rune} (h : isDigit r.code = true) (rest : List Rune) :
    0 < numberLength (r :: rest) := by
  have hwhole : 0 < runLength isDigit (r :: rest) := by simp [runLength, h]
  simp only [numberLength]
  split
  · split
    · omega
    · exact hwhole
  · exact hwhole

/-! ## Marks -/

/-- An operator or mark is spelled by the one or two ASCII characters that it was found by. -/
theorem mark?_spells {c : Nat} {next : Option Nat} {kind : Token.Kind} {n : Nat}
    (h : mark? c next = some (kind, n)) : c < 0x80 ∧ kind.isMark = true ∧
      ((n = 1 ∧ kind.name = [c.toUInt8]) ∨
        (n = 2 ∧ ∃ d, next = some d ∧ d < 0x80 ∧ kind.name = [c.toUInt8, d.toUInt8])) := by
  simp only [mark?] at h
  split at h
  all_goals repeat' split at h
  all_goals cases h
  all_goals refine ⟨by decide, by decide, ?_⟩
  all_goals simp +decide [*]

end Segment

/-! ## Tokens -/

/-- A token as scanning gives it, the end of input apart. -/
inductive Token.Genuine : Token → Prop
  /-- A name or a keyword. -/
  | word {w : Bytes} {pos : Position} (hword : w.IsWord) (hdigit : w.startsDigit = false) :
    Genuine ⟨.ofWord w, w, Segment.wordLiteral (.ofWord w), pos⟩
  | number {w : Bytes} {pos : Position} (hword : w.IsWord) (hdigit : w.startsDigit = true) :
    Genuine ⟨.number, w, .number (Segment.numberValue w), pos⟩
  /-- A text, which may be spelled in many ways. -/
  | string {w s : Bytes} {pos : Position} : Genuine ⟨.string, w, .string s, pos⟩
  | mark {kind : Token.Kind} {pos : Position} (hmark : kind.isMark = true) :
    Genuine ⟨kind, kind.name, .none, pos⟩

namespace Segment

/-- The operator or mark that a source starts with is spelled by the runes taken. -/
theorem genuine_mark {r : Rune} {rest : List Rune} {kind : Token.Kind} {n : Nat}
    (hrs : ∀ x ∈ r :: rest, x.Genuine) (h : mark? r.code (rest.head?.map Rune.code) = some (kind, n))
    (pos : Position) : Token.Genuine ⟨kind, Rune.bytes (r :: rest.take (n - 1)), .none, pos⟩ := by
  obtain ⟨hlow, hmark, ⟨rfl, hname⟩ | ⟨rfl, d, hnext, hd, hname⟩⟩ := mark?_spells h
  · have hbytes : Rune.bytes (r :: rest.take 0) = kind.name := by
      rw [hname, Rune.bytes_cons, (hrs r List.mem_cons_self).raw_eq hlow]
      rfl
    rw [hbytes]
    exact .mark hmark
  · cases rest with
    | nil => cases hnext
    | cons x rest =>
      have hcode : x.code = d := Option.some.inj hnext
      have hraw := (hrs x (List.mem_cons_of_mem _ List.mem_cons_self)).raw_eq (hcode ▸ hd)
      have hbytes : Rune.bytes (r :: (x :: rest).take 1) = kind.name := by
        rw [hname, Rune.bytes_cons, (hrs r List.mem_cons_self).raw_eq hlow, List.take_succ_cons,
          Rune.bytes_cons, hraw, hcode]
        rfl
      rw [hbytes]
      exact .mark hmark

theorem genuine_number {r : Rune} {rest : List Rune} (hrs : ∀ x ∈ r :: rest, x.Genuine)
    (hr : isDigit r.code = true) (pos : Position) :
    Token.Genuine ⟨.number, Rune.bytes (r :: rest.take (numberLength (r :: rest) - 1)),
      .number (numberValue (Rune.bytes ((r :: rest).take (numberLength (r :: rest))))), pos⟩ := by
  have hgenuine := hrs r List.mem_cons_self
  have hdigits := forall_mem_take_numberLength (r :: rest)
  obtain ⟨m, hm⟩ : ∃ m, numberLength (r :: rest) = m + 1 :=
    Nat.exists_eq_succ_of_ne_zero (Nat.ne_of_gt (numberLength_pos hr rest))
  rw [hm, List.take_succ_cons] at hdigits
  rw [hm, List.take_succ_cons, Nat.add_sub_cancel]
  refine .number ⟨Rune.bytes_ne_nil hgenuine _, Rune.unbroken_bytes unbroken_of_numeral fun x hx => ?_⟩ ?_
  · exact ⟨hrs x (List.cons_subset_cons r (List.take_subset m rest) hx), hdigits x hx⟩
  · rw [Rune.startsDigit_bytes hgenuine, hr]

/-- What a source starts with is spelled by the runes taken. -/
theorem genuine_front {r : Rune} {rest : List Rune} (hrs : ∀ x ∈ r :: rest, x.Genuine)
    {kind : Token.Kind} {literal : Literal} {n : Nat} (h : front r rest = (.token kind literal, n))
    (pos : Position) : Token.Genuine ⟨kind, Rune.bytes (r :: rest.take n), literal, pos⟩ := by
  simp only [front] at h
  split_ifs at h with _ _ _ hname hdigit _
  · cases h
  · cases h
  · split at h <;> cases h
  · cases h
    obtain ⟨hword, hstart⟩ := name_spelling
      (fun x hx => hrs x (List.cons_subset_cons r (List.take_subset _ rest) hx)) hname
      (forall_mem_take_runLength continuesName rest)
    exact .word hword hstart
  · cases h
    exact genuine_number hrs hdigit pos
  · split at h <;> cases h
    exact .string
  all_goals
    split at h
    · rename_i hmark
      cases h
      exact genuine_mark hrs hmark pos
    · cases h

/-- Every token of a source of genuine runes is genuine. -/
theorem genuine_gather (rs : List Rune) : ∀ pos, (∀ r ∈ rs, r.Genuine) →
    ∀ t ∈ gather token? pos (cut rs), t.Genuine := by
  induction rs using cut_induction with
  | nil => simp [gather]
  | cons r rest ih =>
    intro pos hrs t ht
    rw [cut_cons, gather] at ht
    rcases List.mem_append.1 ht with ht | ht
    · cases hfront : (front r rest).1 with
      | token kind literal =>
        have heq : t = ⟨kind, Rune.bytes (r :: rest.take (front r rest).2), literal, pos⟩ := by
          simpa [token?, hfront] using ht
        rw [heq]
        exact genuine_front hrs (Prod.ext hfront rfl) pos
      | blank => simp [token?, hfront] at ht
      | comment => simp [token?, hfront] at ht
      | fault f => simp [token?, hfront] at ht
    · exact ih _ (fun x hx => hrs x (List.mem_cons_of_mem _ (List.mem_of_mem_drop hx))) t ht

end Segment

namespace Token

/-- The tokens of a source are genuine ones and the end of input behind them. -/
theorem scan_genuine (source : Bytes) :
    ∃ ts e, (scan source).tokens = ts ++ [e] ∧ e.kind = .eof ∧ ∀ t ∈ ts, t.Genuine := by
  rw [scan_eq]
  exact ⟨_, _, rfl, rfl, Segment.genuine_gather _ _ fun _ => Rune.genuine_of_mem_decode⟩

theorem genuine_of_mem_scan {source : Bytes} {t : Token} (ht : t ∈ (scan source).tokens)
    (hkind : t.kind ≠ .eof) : t.Genuine := by
  obtain ⟨ts, e, htokens, he, hgenuine⟩ := scan_genuine source
  rw [htokens] at ht
  rcases List.mem_append.1 ht with ht | ht
  · exact hgenuine t ht
  · rw [List.mem_singleton.1 ht] at hkind
    exact absurd he hkind

/-! ## What is known of a token by its kind -/

/-- The kinds whose tokens differ in their positions only. -/
def Kind.isFixed (kind : Kind) : Bool :=
  kind.isMark || (kind != .trueWord && kind != .falseWord && Kind.keywords.contains kind)

theorem Kind.wordLiteral_of_isFixed {kind : Kind} (h : kind.isFixed = true) :
    Segment.wordLiteral kind = .none := by
  unfold Segment.wordLiteral
  split
  · cases h
  · cases h
  · rfl

theorem Kind.ofWord_eq {w : Bytes} {kind : Kind} (h : ofWord w = kind) (hkind : kind ≠ .identifier) :
    kind ∈ keywords ∧ w = kind.name := by
  rw [ofWord] at h
  cases hfind : keywords.find? (·.name == w) with
  | none =>
    rw [hfind] at h
    exact absurd h.symm hkind
  | some k =>
    rw [hfind] at h
    obtain rfl : k = kind := h
    have hname : k.name = w := by simpa using List.find?_some hfind
    exact ⟨List.mem_of_find?_eq_some hfind, hname.symm⟩

namespace Genuine

variable {t : Token}

/-- A token of a fixed kind is the usual one. -/
theorem move_eq_mark (h : t.Genuine) {kind : Kind} (hkind : t.kind = kind) (hfixed : kind.isFixed = true) :
    t.move nowhere = Treewalk.mark kind := by
  subst hkind
  cases h with
  | @word w pos hword hdigit =>
    have hne : Kind.ofWord w ≠ .identifier := by
      intro heq
      rw [heq] at hfixed
      cases hfixed
    obtain ⟨-, hname⟩ := Kind.ofWord_eq rfl hne
    show (⟨_, w, Segment.wordLiteral (Kind.ofWord w), {}⟩ : Token) = ⟨_, (Kind.ofWord w).name, .none, {}⟩
    rw [Kind.wordLiteral_of_isFixed hfixed, ← hname]
  | number => cases hfixed
  | string => cases hfixed
  | mark => rfl

/-- A name. -/
theorem ident (h : t.Genuine) (hkind : t.kind = .identifier) :
    t.move nowhere = ⟨.identifier, t.lexeme, .none, {}⟩ ∧ t.lexeme.IsWord ∧
      t.lexeme.startsDigit = false ∧ Kind.ofWord t.lexeme = .identifier := by
  cases h with
  | @word w pos hword hdigit =>
    have hkind : Kind.ofWord w = .identifier := hkind
    refine ⟨?_, hword, hdigit, hkind⟩
    show (⟨Kind.ofWord w, w, Segment.wordLiteral (Kind.ofWord w), {}⟩ : Token) = _
    rw [hkind]
    rfl
  | number => cases hkind
  | string => cases hkind
  | mark hmark =>
    cases hkind
    cases hmark

end Genuine

end Token

end Treewalk
