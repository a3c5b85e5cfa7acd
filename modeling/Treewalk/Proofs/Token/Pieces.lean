import Treewalk.Proofs.Token.Scan
import Treewalk.Proofs.Token.Segments

/-!
# What a source starts with

What a piece of a source is, said without the scanner: a blank, a comment, a token, or something that is
reported (`Filler`, `Fault.Covers`). Comments inside each other are closed by reading from left to right
and counting marks (`Closing`), and a string is closed by the first quote that no backslash takes with it
(`Quoted`).

Main result: the scanner finds such pieces (`front_covers`).
-/

namespace Treewalk.Segment

/-! ## Pieces -/

/-- The two runes open a block comment. -/
def Opens (a b : Rune) : Prop := a.code = 0x2F ∧ b.code = 0x2A

/-- The two runes close a block comment. -/
def Closes (a b : Rune) : Prop := a.code = 0x2A ∧ b.code = 0x2F

/-- Behind an opening mark and with `depth` comments more around it: marks are read from left to right,
and the last comment is closed at the end. -/
inductive Closing : Nat → List Rune → Prop
  | last {a b} (h : Closes a b) : Closing 0 [a, b]
  | close {a b depth rs} (h : Closes a b) (hrs : Closing depth rs) : Closing (depth + 1) (a :: b :: rs)
  | opening {a b depth rs} (h : Opens a b) (hrs : Closing (depth + 1) rs) : Closing depth (a :: b :: rs)
  | other {a b depth rs} (ho : ¬ Opens a b) (hc : ¬ Closes a b) (hrs : Closing depth (b :: rs)) :
    Closing depth (a :: b :: rs)

/-- Behind an opening quote: a backslash takes the next rune with it, and the first quote left closes the
string. -/
inductive Quoted : List Rune → Prop
  | quote {q} (hq : q.code = 0x22) : Quoted [q]
  | escape {b r rs} (hb : b.code = 0x5C) (hrs : Quoted rs) : Quoted (b :: r :: rs)
  | other {r rs} (hq : r.code ≠ 0x22) (hb : r.code ≠ 0x5C) (hrs : Quoted rs) : Quoted (r :: rs)

/-- A line comment in front of `rest`: two slashes, and no newline before the one that ends it or before the
end of the source. -/
def LineComment (rs rest : List Rune) : Prop :=
  ∃ a b body, a.code = 0x2F ∧ b.code = 0x2F ∧ (∀ r ∈ body, r.code ≠ 0x0A) ∧
    ((∃ nl, nl.code = 0x0A ∧ rs = a :: b :: (body ++ [nl])) ∨ (rs = a :: b :: body ∧ rest = []))

/-- A block comment with all the comments in it. -/
def BlockComment (rs : List Rune) : Prop := ∃ a b body, Opens a b ∧ Closing 0 body ∧ rs = a :: b :: body

/-- A piece in front of `rest` that means nothing: a blank or a complete comment. -/
inductive Filler : List Rune → List Rune → Prop
  | blank {r rest} (h : isBlank r.code = true) : Filler [r] rest
  | line {rs rest} (h : LineComment rs rest) : Filler rs rest
  | block {rs rest} (h : BlockComment rs) : Filler rs rest

/-- No token, blank or comment starts with this rune. -/
structure Stray (r : Rune) : Prop where
  blank : isBlank r.code = false
  name : startsName r.code = false
  digit : isDigit r.code = false
  quote : r.code ≠ 0x22
  mark : ∀ next, mark? r.code next = none

/-- A piece in front of `rest` that is reported as a fault: a rune that nothing starts with, or all that
follows the start of a comment or of a string that is never closed. -/
inductive Fault.Covers : Fault → List Rune → List Rune → Prop
  | comment {a b body} (h : Opens a b) (hbody : ∀ n, ¬ Closing 0 (body.take n)) :
    Fault.Covers .unterminatedComment (a :: b :: body) []
  | string {q body} (h : q.code = 0x22) (hbody : ∀ n, ¬ Quoted (body.take n)) :
    Fault.Covers .unterminatedString (q :: body) []
  | invalid {r rest} (h : r.code = Rune.replacement) (hstray : Stray r) :
    Fault.Covers .invalidByte [r] rest
  | unexpected {r rest} (h : r.code ≠ Rune.replacement) (hstray : Stray r) :
    Fault.Covers (.unexpected r) [r] rest

/-- What a segment in front of `rest` is. -/
def Covers (s : Segment) (rest : List Rune) : Prop :=
  match s.form with
  | .blank | .comment => Filler s.runes rest
  | .token kind _ => kind ≠ .eof
  | .fault f => f.Covers s.runes rest

/-! ## Comments and strings -/

theorem blockCommentLength?_of_closing {depth : Nat} {c : List Rune} (h : Closing depth c) :
    ∀ (taken : Nat) (rest : List Rune),
      blockCommentLength? depth taken (c ++ rest) = some (taken + c.length) := by
  induction h with
  | last h =>
    intro taken rest
    simp [blockCommentLength?, h.1, h.2]
  | close h _ ih =>
    intro taken rest
    simp [blockCommentLength?, h.1, h.2, ih]
    omega
  | opening h _ ih =>
    intro taken rest
    simp [blockCommentLength?, h.1, h.2, ih]
    omega
  | @other a b depth rs ho hc _ ih =>
    intro taken rest
    rw [List.cons_append, List.cons_append, blockCommentLength?.eq_def]
    have ho' : ¬ (a.code = 0x2F ∧ b.code = 0x2A) := ho
    have hc' : ¬ (a.code = 0x2A ∧ b.code = 0x2F) := hc
    have hih := ih (taken + 1) rest
    rw [List.cons_append] at hih
    simp only [Bool.and_eq_true, decide_eq_true_eq, ho', hc', if_false, hih, List.length_cons]
    congr 1
    omega

theorem closing_of_blockCommentLength? (rs : List Rune) (depth taken : Nat) :
    ∀ {k : Nat}, blockCommentLength? depth taken rs = some k →
      ∃ n, k = taken + n ∧ n ≤ rs.length ∧ Closing depth (rs.take n) := by
  fun_induction blockCommentLength? depth taken rs with
  | case1 => simp
  | case2 => simp
  | case3 taken a b rest h =>
    intro k hk
    simp only [Bool.and_eq_true, decide_eq_true_eq] at h
    exact ⟨2, (Option.some.inj hk).symm, by simp, .last h⟩
  | case4 taken a b rest h depth ih =>
    intro k hk
    simp only [Bool.and_eq_true, decide_eq_true_eq] at h
    obtain ⟨n, rfl, hn, hclosing⟩ := ih hk
    exact ⟨n + 2, by omega, by simpa using hn, .close h hclosing⟩
  | case5 depth taken a b rest _ h ih =>
    intro k hk
    simp only [Bool.and_eq_true, decide_eq_true_eq] at h
    obtain ⟨n, rfl, hn, hclosing⟩ := ih hk
    exact ⟨n + 2, by omega, by simpa using hn, .opening h hclosing⟩
  | case6 depth taken a b rest hc ho ih =>
    intro k hk
    simp only [Bool.and_eq_true, decide_eq_true_eq] at hc ho
    obtain ⟨n, rfl, hn, hclosing⟩ := ih hk
    cases n with
    | zero => cases hclosing
    | succ n => exact ⟨n + 2, by omega, by simpa using hn, .other ho hc hclosing⟩

/-- A body of a string rune by rune: what `plain` makes of the runes, and `escaped` of those behind a
backslash. -/
def bodyValue (plain escaped : Rune → Bytes) : List Rune → Bytes
  | [] => []
  | [r] => plain r
  | a :: b :: rs =>
    if a.code = 0x5C then escaped b ++ bodyValue plain escaped rs
    else plain a ++ bodyValue plain escaped (b :: rs)

theorem bodyValue_plain (plain escaped : Rune → Bytes) {r : Rune} (h : r.code ≠ 0x5C) (rs : List Rune) :
    bodyValue plain escaped (r :: rs) = plain r ++ bodyValue plain escaped rs := by
  cases rs with
  | nil => simp [bodyValue]
  | cons b rs => rw [bodyValue, if_neg h]

theorem Quoted.ne_nil {c : List Rune} (h : Quoted c) : c ≠ [] := by
  cases h <;> exact List.cons_ne_nil _ _

/-- A quoted string is read up to its closing quote. -/
theorem stringBody?_of_quoted {c : List Rune} (h : Quoted c) (rest : List Rune) :
    ∀ (value : List Bytes) (taken : Nat), stringBody? value taken (c ++ rest) =
      some (value.reverse.flatten ++
        bodyValue (fun r => Rune.encode r.code) (fun r => unescape r.code) c.dropLast, taken + c.length) := by
  induction h with
  | quote hq =>
    intro value taken
    rw [List.singleton_append, stringBody?.eq_def]
    simp [hq, bodyValue]
  | @escape b r rs hb hrs ih =>
    intro value taken
    rw [List.cons_append, List.cons_append, stringBody?.eq_def]
    simp [hb, ih, List.dropLast_cons_of_ne_nil, hrs.ne_nil, bodyValue]
    omega
  | @other r rs hq hb hrs ih =>
    intro value taken
    rw [List.cons_append, stringBody?.eq_def]
    simp [hq, hb, ih, List.dropLast_cons_of_ne_nil, hrs.ne_nil, bodyValue_plain]
    omega

theorem quoted_of_stringBody? (rs : List Rune) (value : List Bytes) (taken : Nat) :
    ∀ {v : Bytes} {k : Nat}, stringBody? value taken rs = some (v, k) →
      ∃ n, k = taken + n ∧ n ≤ rs.length ∧ Quoted (rs.take n) := by
  fun_induction stringBody? value taken rs with
  | case1 => simp
  | case2 value taken r rest hq =>
    intro v k h
    simp only [Option.some.injEq, Prod.mk.injEq] at h
    exact ⟨1, h.2.symm, by simp, .quote hq⟩
  | case3 => simp
  | case4 value taken b hq hb r rest ih =>
    intro v k h
    obtain ⟨n, rfl, hn, hquoted⟩ := ih h
    exact ⟨n + 2, by omega, by simpa using hn, .escape hb hquoted⟩
  | case5 value taken r rest hq hb ih =>
    intro v k h
    obtain ⟨n, rfl, hn, hquoted⟩ := ih h
    exact ⟨n + 1, by omega, by simpa using hn, .other hq hb hquoted⟩

/-- An opened comment that is not closed has no closed part. -/
theorem not_closing_of_blockCommentLength? {rs : List Rune} (h : blockCommentLength? 0 0 rs = none)
    (n : Nat) : ¬ Closing 0 (rs.take n) := by
  intro hclosing
  have hsome := blockCommentLength?_of_closing hclosing 0 (rs.drop n)
  rw [List.take_append_drop, h] at hsome
  cases hsome

theorem not_quoted_of_stringBody? {rs : List Rune} (h : stringBody? [] 0 rs = none) (n : Nat) :
    ¬ Quoted (rs.take n) := by
  intro hquoted
  have hsome := stringBody?_of_quoted hquoted (rs.drop n) [] 0
  rw [List.take_append_drop, h] at hsome
  cases hsome

theorem Closing.last_code {depth : Nat} {rs : List Rune} (h : Closing depth rs) :
    rs.getLast?.map Rune.code = some 0x2F := by
  induction h with
  | last h => simp [h.2]
  | close _ hrs ih | opening _ hrs ih =>
    cases hrs <;> simpa using ih
  | other _ _ _ ih => simpa using ih

theorem Quoted.last_code {rs : List Rune} (h : Quoted rs) : rs.getLast?.map Rune.code = some 0x22 := by
  induction h with
  | quote hq => simp [hq]
  | escape _ hrs ih | other _ _ hrs ih =>
    cases hrs <;> simpa using ih

/-! ## How far a piece goes -/

theorem lineCommentLength_cases (rs : List Rune) :
    (∃ body nl, rs.take (lineCommentLength rs) = body ++ [nl] ∧ nl.code = 0x0A ∧
      ∀ r ∈ body, r.code ≠ 0x0A) ∨
    (lineCommentLength rs = rs.length ∧ ∀ r ∈ rs, r.code ≠ 0x0A) := by
  induction rs with
  | nil => exact .inr ⟨rfl, nofun⟩
  | cons r rest ih =>
    rw [lineCommentLength]
    by_cases hr : r.code = 0x0A
    · rw [if_pos hr]
      exact .inl ⟨[], r, rfl, hr, nofun⟩
    · rw [if_neg hr]
      rcases ih with ⟨body, nl, htake, hnl, hbody⟩ | ⟨hlength, hrest⟩
      · exact .inl ⟨r :: body, nl, by rw [List.take_succ_cons, htake, List.cons_append], hnl,
          List.forall_mem_cons.2 ⟨hr, hbody⟩⟩
      · exact .inr ⟨by rw [hlength, List.length_cons], List.forall_mem_cons.2 ⟨hr, hrest⟩⟩

theorem runLength_le (p : Nat → Bool) (rs : List Rune) : runLength p rs ≤ rs.length := by
  induction rs with
  | nil => exact Nat.le_refl 0
  | cons r rest ih =>
    rw [runLength]
    split
    · exact Nat.succ_le_succ ih
    · exact Nat.zero_le _

theorem lineCommentLength_le (rs : List Rune) : lineCommentLength rs ≤ rs.length := by
  induction rs with
  | nil => exact Nat.le_refl 0
  | cons r rest ih =>
    rw [lineCommentLength, List.length_cons]
    split <;> omega

theorem numberLength_le (rs : List Rune) : numberLength rs ≤ rs.length := by
  have hwhole := runLength_le isDigit rs
  unfold numberLength
  dsimp only
  split
  · rename_i point rest hdrop
    have hfraction := runLength_le isDigit rest
    have hlength := congrArg List.length hdrop
    rw [List.length_drop, List.length_cons] at hlength
    split <;> omega
  · exact hwhole

/-- The second rune of a mark of two is the next one. -/
theorem mark?_le {c : Nat} {rest : List Rune} {kind : Token.Kind} {n : Nat}
    (h : mark? c (rest.head?.map Rune.code) = some (kind, n)) : n - 1 ≤ rest.length := by
  cases rest with
  | cons r rest =>
    unfold mark? at h
    rw [List.length_cons]
    split at h <;> grind
  | nil =>
    unfold mark? at h
    split at h <;> simp_all

/-- Nothing is taken that is not there. -/
theorem front_le (r : Rune) (rest : List Rune) : (front r rest).2 ≤ rest.length := by
  simp only [front]
  split_ifs
  · exact Nat.zero_le _
  · exact lineCommentLength_le rest
  · split
    · rename_i n hn
      obtain ⟨k, rfl, hk, -⟩ := closing_of_blockCommentLength? _ _ _ hn
      have hrest : rest ≠ [] := by
        rintro rfl
        simp at *
      have := List.length_pos_iff.2 hrest
      rw [List.length_drop] at hk
      show 0 + k + 1 ≤ rest.length
      omega
    · exact Nat.le_refl _
  · exact runLength_le continuesName rest
  · have := numberLength_le (r :: rest)
    rw [List.length_cons] at this
    show numberLength (r :: rest) - 1 ≤ rest.length
    omega
  · split
    · rename_i n hn
      obtain ⟨k, rfl, hk, -⟩ := quoted_of_stringBody? _ _ _ hn
      show 0 + k ≤ rest.length
      omega
    · exact Nat.le_refl _
  all_goals
    split
    · rename_i hmark
      exact mark?_le hmark
    · exact Nat.zero_le _

/-! ## Fronts -/

theorem startsName_of_isDigit {c : Nat} (h : isDigit c = true) : startsName c = false := by
  have hdigits : ∀ d < 0x3A, isDigit d = true → startsName d = false := by decide +kernel
  refine hdigits c ?_ h
  simp only [isDigit, Bool.and_eq_true, decide_eq_true_eq] at h
  omega

theorem front_blank {r : Rune} (hr : isBlank r.code = true) (rest : List Rune) :
    front r rest = (.blank, 0) := by
  simp only [front, hr, if_true]

theorem front_line {r : Rune} {rest : List Rune} (hr : r.code = 0x2F)
    (hnext : rest.head?.map Rune.code = some 0x2F) : front r rest = (.comment, lineCommentLength rest) := by
  have hblank : isBlank 0x2F = false := by decide +kernel
  simp [front, hr, hnext, hblank]

theorem front_block {r : Rune} {rest : List Rune} (hr : r.code = 0x2F)
    (hnext : rest.head?.map Rune.code = some 0x2A) : front r rest =
      match blockCommentLength? 0 0 (rest.drop 1) with
      | some n => (.comment, n + 1)
      | none => (.fault .unterminatedComment, rest.length) := by
  have hblank : isBlank 0x2F = false := by decide +kernel
  simp only [front, hr, hnext, hblank]
  rfl

theorem front_word {r : Rune} (hblank : isBlank r.code = false) (hr : startsName r.code = true)
    (rest : List Rune) : front r rest =
      (.token (.ofWord (Rune.bytes (r :: rest.take (runLength continuesName rest))))
        (wordLiteral (.ofWord (Rune.bytes (r :: rest.take (runLength continuesName rest))))),
        runLength continuesName rest) := by
  have hslash : r.code ≠ 0x2F := by
    intro hslash
    rw [hslash] at hr
    revert hr
    decide +kernel
  simp [front, hblank, hslash, hr]

theorem front_digit {r : Rune} (hr : isDigit r.code = true) (rest : List Rune) : front r rest =
    (.token .number (.number (numberValue (Rune.bytes ((r :: rest).take (numberLength (r :: rest)))))),
      numberLength (r :: rest) - 1) := by
  have hrange : 0x30 ≤ r.code ∧ r.code ≤ 0x39 := by simpa [isDigit] using hr
  have hblank : isBlank r.code = false := by
    have hall : ∀ c < 0x3A, 0x30 ≤ c → isBlank c = false := by decide +kernel
    exact hall _ (by omega) hrange.1
  have hslash : r.code ≠ 0x2F := by omega
  simp [front, hblank, hslash, startsName_of_isDigit hr, hr]

theorem front_quote {r : Rune} (hr : r.code = 0x22) (rest : List Rune) : front r rest =
    match stringBody? [] 0 rest with
    | some (value, n) => (.token .string (.string value), n)
    | none => (.fault .unterminatedString, rest.length) := by
  have hblank : isBlank 0x22 = false := by decide +kernel
  have hname : startsName 0x22 = false := by decide +kernel
  have hdigit : isDigit 0x22 = false := rfl
  simp only [front, hr, hblank, hname, hdigit]
  rfl

/-- A rune with which nothing else starts is a mark, or stray. -/
theorem front_mark {r : Rune} {rest : List Rune} (hblank : isBlank r.code = false)
    (hname : startsName r.code = false) (hdigit : isDigit r.code = false) (hquote : r.code ≠ 0x22)
    (hline : ¬ (r.code = 0x2F ∧ rest.head?.map Rune.code = some 0x2F))
    (hblock : ¬ (r.code = 0x2F ∧ rest.head?.map Rune.code = some 0x2A)) : front r rest =
      match mark? r.code (rest.head?.map Rune.code) with
      | some (kind, n) => (.token kind .none, n - 1)
      | none => (.fault (if r.code = Rune.replacement then .invalidByte else .unexpected r), 0) := by
  cases hmark : mark? r.code (rest.head?.map Rune.code) with
  | none =>
    simp only [front, hblank, hname, hdigit, hquote, Bool.and_eq_true, decide_eq_true_eq, hline, hblock, hmark,
      Bool.false_eq_true, if_false]
  | some found =>
    simp only [front, hblank, hname, hdigit, hquote, Bool.and_eq_true, decide_eq_true_eq, hline, hblock, hmark,
      Bool.false_eq_true, if_false]

/-! ## What is found -/

theorem mark?_eq_none_of_none {c : Nat} {next : Option Nat} (h : mark? c next = none)
    (other : Option Nat) : mark? c other = none := by
  unfold mark? at h ⊢
  split at h <;> grind

theorem lineComment_front {r : Rune} {rest : List Rune} (hr : r.code = 0x2F)
    (hnext : rest.head?.map Rune.code = some 0x2F) :
    LineComment (r :: rest.take (lineCommentLength rest)) (rest.drop (lineCommentLength rest)) := by
  cases rest with
  | nil => simp at hnext
  | cons b more =>
    have hb : b.code = 0x2F := by simpa using hnext
    have hlength : lineCommentLength (b :: more) = lineCommentLength more + 1 := by
      rw [lineCommentLength, if_neg (by rw [hb]; decide)]
    rw [hlength, List.take_succ_cons, List.drop_succ_cons]
    rcases lineCommentLength_cases more with ⟨body, nl, htake, hnl, hbody⟩ | ⟨hall, hbody⟩
    · exact ⟨r, b, body, hr, hb, hbody, .inl ⟨nl, hnl, by rw [htake]⟩⟩
    · refine ⟨r, b, more, hr, hb, hbody, .inr ⟨?_, ?_⟩⟩
      · rw [hall, List.take_length]
      · rw [hall, List.drop_length]

theorem blockComment_front {r : Rune} {rest : List Rune} {n : Nat} (hr : r.code = 0x2F)
    (hnext : rest.head?.map Rune.code = some 0x2A)
    (h : blockCommentLength? 0 0 (rest.drop 1) = some n) : BlockComment (r :: rest.take (n + 1)) := by
  cases rest with
  | nil => simp at hnext
  | cons b more =>
    have hb : b.code = 0x2A := by simpa using hnext
    obtain ⟨k, rfl, -, hclosing⟩ := closing_of_blockCommentLength? _ _ _ h
    rw [Nat.zero_add]
    exact ⟨r, b, more.take k, ⟨hr, hb⟩, hclosing, rfl⟩

theorem unterminatedComment_front {r : Rune} {rest : List Rune} (hr : r.code = 0x2F)
    (hnext : rest.head?.map Rune.code = some 0x2A) (h : blockCommentLength? 0 0 (rest.drop 1) = none) :
    Fault.Covers .unterminatedComment (r :: rest) [] := by
  cases rest with
  | nil => simp at hnext
  | cons b more =>
    have hb : b.code = 0x2A := by simpa using hnext
    exact .comment ⟨hr, hb⟩ (not_closing_of_blockCommentLength? h)

/-- A source starts with a piece of the kind that is found. -/
theorem front_covers (r : Rune) (rest : List Rune) :
    Covers ⟨(front r rest).1, r :: rest.take (front r rest).2⟩ (rest.drop (front r rest).2) := by
  have hkind : ∀ kind literal, (front r rest).1 = .token kind literal → kind ≠ .eof :=
    fun kind literal h => (spelled_front (Prod.ext h rfl)).1
  -- a word, a numeral, a string and a mark are tokens
  have htoken : ∀ kind literal, (front r rest).1 = .token kind literal →
      Covers ⟨(front r rest).1, r :: rest.take (front r rest).2⟩ (rest.drop (front r rest).2) := by
    intro kind literal h
    unfold Covers
    rw [h]
    exact hkind kind literal h
  generalize hfront : front r rest = found at htoken ⊢
  simp only [front, Bool.and_eq_true, decide_eq_true_eq] at hfront
  split_ifs at hfront with hblank hline hblock hname hdigit hquote hmark
  · subst hfront
    exact .blank hblank
  · subst hfront
    exact .line (lineComment_front hline.1 hline.2)
  · split at hfront
    · rename_i n hn
      subst hfront
      exact .block (blockComment_front hblock.1 hblock.2 hn)
    · rename_i hnone
      subst hfront
      show Fault.Covers .unterminatedComment (r :: rest.take rest.length) (rest.drop rest.length)
      rw [List.take_length, List.drop_length]
      exact unterminatedComment_front hblock.1 hblock.2 hnone
  · subst hfront
    exact htoken _ _ rfl
  · subst hfront
    exact htoken _ _ rfl
  · split at hfront
    · subst hfront
      exact htoken _ _ rfl
    · rename_i hnone
      subst hfront
      show Fault.Covers .unterminatedString (r :: rest.take rest.length) (rest.drop rest.length)
      rw [List.take_length, List.drop_length]
      exact .string hquote (not_quoted_of_stringBody? hnone)
  all_goals
    split at hfront
    · subst hfront
      exact htoken _ _ rfl
    · rename_i hnone
      subst hfront
      have hstray : Stray r := ⟨by simpa using hblank, by simpa using hname, by simpa using hdigit, hquote,
        mark?_eq_none_of_none hnone⟩
      first
        | exact .invalid hmark hstray
        | exact .unexpected hmark hstray

end Treewalk.Segment
