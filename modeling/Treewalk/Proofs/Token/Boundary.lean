import Treewalk.Proofs.Token.Pieces

/-!
# Where segments end

**Separators.** Some runes are taken in by nothing that stands before them, a comment or a string that is
still open apart: they continue no name and no number, and are no second half of a mark (`separates`).

**Main result** (`front_curtails`). What a source starts with depends on the rest of the source only as far as
it takes the rest in. If the rest is replaced by one that goes on like it and then ends or comes to a
separator (`Curtails`), the piece in front stays what it is, unless it is one that more text prolongs:
a line comment without its newline, or a comment or a string that is still open (`Unclosed`).

So the segments in front of a place where one of them ends stay what they are whatever of this kind is put
behind it (`cut_before`), and the segments behind it never knew of them (`cut_behind`).
-/

namespace Treewalk.Segment

/-! ## Separators -/

/-- What may be the second half of a mark, and the point of a fraction. -/
def joints : List Nat := [0x2A, 0x2B, 0x2D, 0x2E, 0x2F, 0x3D]

/-- Does this code point end every name, number and mark before it? -/
def separates (c : Nat) : Bool := !continuesName c && !joints.contains c

theorem isLetter_replacement : isLetter Rune.replacement = false := by
  -- as a list the table of letters is searched fast enough
  rw [isLetter, if_neg (by decide), Ranges.contains, ← Array.any_toList]
  decide +kernel

/-- A byte that is no UTF-8 is a separator. -/
theorem separates_replacement : separates Rune.replacement = true := by
  simp only [separates, continuesName, isLetter_replacement]
  decide

/-- The second text goes on like the first one until it ends or comes to a separator. -/
inductive Curtails : List Rune → List Rune → Prop
  | ends {rs} : Curtails rs []
  | parts {rs r ts} (h : separates r.code = true) : Curtails rs (r :: ts)
  | goesOn {r rs ts} (h : Curtails rs ts) : Curtails (r :: rs) (r :: ts)

theorem Curtails.append {old new : List Rune} (h : Curtails old new) (rs : List Rune) :
    Curtails (rs ++ old) (rs ++ new) := by
  induction rs with
  | nil => exact h
  | cons r rs ih => exact .goesOn ih

theorem continuesName_of_separates {c : Nat} (h : separates c = true) : continuesName c = false := by
  simp only [separates, Bool.and_eq_true, Bool.not_eq_true'] at h
  exact h.1

theorem isDigit_of_separates {c : Nat} (h : separates c = true) : isDigit c = false := by
  have hname := continuesName_of_separates h
  simp only [continuesName, Bool.or_eq_false_iff] at hname
  exact hname.1.2

theorem notMem_joints_of_separates {c : Nat} (h : separates c = true) : c ∉ joints := by
  simp only [separates, Bool.and_eq_true, Bool.not_eq_true', List.contains_eq_mem,
    decide_eq_false_iff_not] at h
  exact h.2

/-- A second half of a mark that stands in the curtailed text stands in the full one. -/
theorem Curtails.head_joint {old new : List Rune} (h : Curtails old new) (body : List Rune) :
    ∀ c ∈ joints, (body ++ new).head?.map Rune.code = some c → (body ++ old).head?.map Rune.code = some c := by
  intro c hc hnew
  cases body with
  | cons b body => exact hnew
  | nil =>
    cases h with
    | ends => cases hnew
    | parts hr =>
      obtain rfl := Option.some.inj hnew
      exact absurd hc (notMem_joints_of_separates hr)
    | goesOn => exact hnew

/-! ## Names and numbers -/

/-- A run that ends within the piece in front is the same in front of the curtailed text. -/
theorem runLength_curtails {p : Nat → Bool} (hp : ∀ c, separates c = true → p c = false) {old new : List Rune}
    (h : Curtails old new) {body : List Rune} (hbody : runLength p (body ++ old) ≤ body.length) :
    runLength p (body ++ new) = runLength p (body ++ old) := by
  induction body with
  | nil =>
    rw [List.length_nil, Nat.le_zero] at hbody
    rw [hbody]
    cases h with
    | ends => rfl
    | parts hr => simp [runLength, hp _ hr]
    | goesOn =>
      simp only [List.nil_append, runLength] at hbody ⊢
      split at hbody
      · cases hbody
      · rename_i hr
        rw [if_neg hr]
  | cons b body ih =>
    simp only [List.cons_append, runLength, List.length_cons] at hbody ⊢
    split at hbody
    · rename_i hb
      rw [if_pos hb, if_pos hb, ih (by omega)]
    · rename_i hb
      rw [if_neg hb, if_neg hb]

/-- How much of a text behind the digits of a number is its fraction. -/
def fractionLength : List Rune → Nat
  | [] => 0
  | point :: rest =>
    if point.code = 0x2E && 0 < runLength isDigit rest then 1 + runLength isDigit rest else 0

theorem numberLength_eq (rs : List Rune) :
    numberLength rs = runLength isDigit rs + fractionLength (rs.drop (runLength isDigit rs)) := by
  simp only [numberLength]
  cases rs.drop (runLength isDigit rs) with
  | nil => rfl
  | cons point rest =>
    simp only [fractionLength]
    split
    · rw [Nat.add_assoc]
    · rfl

theorem fractionLength_curtails {old new : List Rune} (h : Curtails old new) {body : List Rune}
    (hbody : fractionLength (body ++ old) ≤ body.length) :
    fractionLength (body ++ new) = fractionLength (body ++ old) := by
  have hsep : ∀ c, separates c = true → isDigit c = false := fun _ => isDigit_of_separates
  cases body with
  | cons point body =>
    simp only [List.cons_append, fractionLength, List.length_cons, Bool.and_eq_true, decide_eq_true_eq]
      at hbody ⊢
    by_cases hpoint : point.code = 0x2E
    · have hle : runLength isDigit (body ++ old) ≤ body.length := by
        split at hbody
        · omega
        · rename_i hnone
          have hzero : ¬ 0 < runLength isDigit (body ++ old) := fun hpos => hnone ⟨hpoint, hpos⟩
          omega
      rw [runLength_curtails hsep h hle]
    · simp only [hpoint, false_and, if_false]
  | nil =>
    rw [List.length_nil, Nat.le_zero, List.nil_append] at hbody
    rw [List.nil_append, List.nil_append, hbody]
    cases h with
    | ends => rfl
    | @parts _ r _ hr =>
      have hpoint : r.code ≠ 0x2E := fun heq => notMem_joints_of_separates hr (heq ▸ by decide)
      simp [fractionLength, hpoint]
    | @goesOn r rs ts h =>
      have hnone : ¬ (r.code = 0x2E ∧ 0 < runLength isDigit rs) := by
        intro hsome
        simp [fractionLength, hsome] at hbody
      have hdigits : runLength isDigit rs = 0 → runLength isDigit ts = 0 := fun hzero => by
        have hle : runLength isDigit ([] ++ rs) ≤ ([] : List Rune).length := Nat.le_of_eq hzero
        exact (runLength_curtails hsep h hle).trans hzero
      simp only [fractionLength, Bool.and_eq_true, decide_eq_true_eq, ite_eq_right_iff]
      rintro ⟨hpoint, hpos⟩
      exact absurd ⟨hpoint, by omega⟩ hnone

/-- A number that ends within the piece in front is the same in front of the curtailed text. -/
theorem numberLength_curtails {old new : List Rune} (h : Curtails old new) {body : List Rune}
    (hbody : numberLength (body ++ old) ≤ body.length) :
    numberLength (body ++ new) = numberLength (body ++ old) := by
  rw [numberLength_eq] at hbody
  have hwhole : runLength isDigit (body ++ old) ≤ body.length := by omega
  have hdigits := runLength_curtails (fun _ => isDigit_of_separates) h hwhole
  rw [List.drop_append_of_le_length hwhole] at hbody
  have hfraction := fractionLength_curtails h
    (show _ ≤ (body.drop (runLength isDigit (body ++ old))).length by rw [List.length_drop]; omega)
  rw [numberLength_eq, numberLength_eq, hdigits, List.drop_append_of_le_length hwhole,
    List.drop_append_of_le_length hwhole, hfraction]

/-! ## Marks -/

/-- A mark does not depend on what stands behind it, unless this makes it a mark of two. -/
theorem mark?_curtails {c : Nat} {next next' : Option Nat} {kind : Token.Kind} {n : Nat}
    (h : mark? c next = some (kind, n)) (hnext : n = 2 → next' = next)
    (hjoints : ∀ d ∈ joints, next' = some d → next = some d) : mark? c next' = some (kind, n) := by
  have hplus := hjoints 0x2B (by decide)
  have hminus := hjoints 0x2D (by decide)
  have hequal := hjoints 0x3D (by decide)
  unfold mark? at h ⊢
  split at h <;> grind

/-! ## Comments and strings -/

/-- A line comment goes on only if its newline is missing. -/
theorem lineCommentLength_append {body old : List Rune} (h : lineCommentLength (body ++ old) = body.length) :
    (∀ new, lineCommentLength (body ++ new) = body.length) ∨ (old = [] ∧ ∀ x ∈ body, x.code ≠ 0x0A) := by
  induction body with
  | nil =>
    cases old with
    | nil => exact .inr ⟨rfl, nofun⟩
    | cons x old =>
      rw [List.nil_append, lineCommentLength] at h
      split at h <;> cases h
  | cons b body ih =>
    simp only [List.cons_append, lineCommentLength, List.length_cons] at h ⊢
    split at h
    · rename_i hb
      exact .inl fun new => (if_pos hb).trans h
    · rename_i hb
      rcases ih (Nat.succ.inj h) with hclosed | ⟨hold, hopen⟩
      · exact .inl fun new => by rw [if_neg hb, hclosed]
      · exact .inr ⟨hold, List.forall_mem_cons.2 ⟨hb, hopen⟩⟩

/-- A comment that is closed within the piece in front is closed there. -/
theorem blockCommentLength?_append {body old : List Rune}
    (h : blockCommentLength? 0 0 (body ++ old) = some body.length) (new : List Rune) :
    blockCommentLength? 0 0 (body ++ new) = some body.length := by
  obtain ⟨n, hn, -, hclosing⟩ := closing_of_blockCommentLength? _ _ _ h
  obtain rfl : n = body.length := by omega
  rw [List.take_left] at hclosing
  rw [blockCommentLength?_of_closing hclosing, Nat.zero_add]

/-- A string that is closed within the piece in front is closed there. -/
theorem stringBody?_append {body old : List Rune} {v : Bytes}
    (h : stringBody? [] 0 (body ++ old) = some (v, body.length)) (new : List Rune) :
    stringBody? [] 0 (body ++ new) = some (v, body.length) := by
  obtain ⟨n, hn, -, hquoted⟩ := quoted_of_stringBody? _ _ _ h
  obtain rfl : n = body.length := by omega
  rw [List.take_left] at hquoted
  have hold := stringBody?_of_quoted hquoted old [] 0
  rw [h] at hold
  rw [stringBody?_of_quoted hquoted new, ← hold]

/-! ## Fronts -/

/-- More text prolongs the piece `r :: body`: it is a line comment without its newline, or a comment or a
string that is still open. -/
inductive Unclosed (r : Rune) (body : List Rune) : Form → Prop
  | line (hr : r.code = 0x2F) (hnext : body.head?.map Rune.code = some 0x2F)
    (hbody : ∀ x ∈ body, x.code ≠ 0x0A) : Unclosed r body .comment
  | fault {f} (hf : f.incomplete = true) : Unclosed r body (.fault f)

section

variable {r : Rune} {body old new : List Rune} {form : Form}

/-- A piece that takes the whole source in leaves nothing. -/
theorem eq_nil_of_length_append (h : (body ++ old).length = body.length) : old = [] := by
  rw [List.length_append] at h
  exact List.length_eq_zero_iff.1 (by omega)

theorem line_curtails (hr : r.code = 0x2F) (hnext : (body ++ old).head?.map Rune.code = some 0x2F)
    (h : front r (body ++ old) = (form, body.length)) :
    front r (body ++ new) = (form, body.length) ∨ (old = [] ∧ Unclosed r body form) := by
  rw [front_line hr hnext, Prod.mk.injEq] at h
  obtain ⟨rfl, hlength⟩ := h
  cases body with
  | nil =>
    cases old with
    | nil => cases hnext
    | cons x old =>
      rw [List.nil_append, lineCommentLength] at hlength
      split at hlength <;> cases hlength
  | cons b body =>
    rcases lineCommentLength_append hlength with hclosed | ⟨hold, hopen⟩
    · left
      rw [← hclosed new]
      exact front_line hr hnext
    · exact .inr ⟨hold, .line hr hnext hopen⟩

theorem block_curtails (hr : r.code = 0x2F) (hnext : (body ++ old).head?.map Rune.code = some 0x2A)
    (h : front r (body ++ old) = (form, body.length)) :
    front r (body ++ new) = (form, body.length) ∨ (old = [] ∧ Unclosed r body form) := by
  rw [front_block hr hnext] at h
  split at h
  · rename_i n hn
    obtain ⟨rfl, hlength⟩ := Prod.mk.inj h
    cases body with
    | nil => cases hlength
    | cons b body =>
      obtain rfl := Nat.succ.inj hlength
      have hclosed := blockCommentLength?_append hn new
      left
      rw [front_block hr (show (b :: body ++ new).head?.map Rune.code = some 0x2A from hnext)]
      simp only [List.cons_append, List.drop_succ_cons, List.drop_zero, hclosed, List.length_cons]
  · obtain ⟨rfl, hlength⟩ := Prod.mk.inj h
    exact .inr ⟨eq_nil_of_length_append hlength, .fault rfl⟩

theorem quote_curtails (hr : r.code = 0x22) (h : front r (body ++ old) = (form, body.length)) :
    front r (body ++ new) = (form, body.length) ∨ (old = [] ∧ Unclosed r body form) := by
  rw [front_quote hr] at h
  split at h
  · rename_i value n hn
    obtain ⟨rfl, rfl⟩ := Prod.mk.inj h
    left
    rw [front_quote hr, stringBody?_append hn new]
  · obtain ⟨rfl, hlength⟩ := Prod.mk.inj h
    exact .inr ⟨eq_nil_of_length_append hlength, .fault rfl⟩

/-- What a source starts with stays what it is when the rest of the source is curtailed, unless it ends with
the source and more text prolongs it. -/
theorem front_curtails (h : front r (body ++ old) = (form, body.length)) (hnew : Curtails old new) :
    front r (body ++ new) = (form, body.length) ∨ (old = [] ∧ Unclosed r body form) := by
  have hjoints := hnew.head_joint body
  by_cases hblank : isBlank r.code = true
  · left
    rw [front_blank hblank] at h ⊢
    exact h
  by_cases hline : r.code = 0x2F ∧ (body ++ old).head?.map Rune.code = some 0x2F
  · exact line_curtails hline.1 hline.2 h
  by_cases hblock : r.code = 0x2F ∧ (body ++ old).head?.map Rune.code = some 0x2A
  · exact block_curtails hblock.1 hblock.2 h
  by_cases hquote : r.code = 0x22
  · exact quote_curtails hquote h
  rw [Bool.not_eq_true] at hblank
  left
  by_cases hname : startsName r.code = true
  · rw [front_word hblank hname, Prod.mk.injEq] at h
    have hrun := runLength_curtails (fun _ => continuesName_of_separates) hnew (Nat.le_of_eq h.2)
    rw [front_word hblank hname, hrun, h.2, List.take_left, ← h.1, h.2, List.take_left]
  by_cases hdigit : isDigit r.code = true
  · rw [front_digit hdigit, Prod.mk.injEq] at h
    have hle : numberLength (r :: body ++ old) ≤ (r :: body).length := by
      rw [List.length_cons, List.cons_append]
      omega
    have htake : ∀ more, (r :: body ++ more).take (numberLength (r :: body ++ old)) =
        (r :: body).take (numberLength (r :: body ++ old)) := fun _ => List.take_append_of_le_length hle
    have hnumber := numberLength_curtails hnew hle
    simp only [List.cons_append] at htake hnumber
    rw [front_digit hdigit, hnumber, htake, ← h.1, htake, h.2]
  rw [Bool.not_eq_true] at hname hdigit
  rw [front_mark hblank hname hdigit hquote hline hblock] at h
  rw [front_mark hblank hname hdigit hquote (fun hnow => hline ⟨hnow.1, hjoints _ (by decide) hnow.2⟩)
    (fun hnow => hblock ⟨hnow.1, hjoints _ (by decide) hnow.2⟩)]
  split at h
  · rename_i kind n hmark
    obtain ⟨rfl, hlength⟩ := Prod.mk.inj h
    have hsecond : n = 2 → (body ++ new).head?.map Rune.code = (body ++ old).head?.map Rune.code := by
      rintro rfl
      obtain ⟨b, rfl⟩ := List.length_eq_one_iff.1 hlength.symm
      rfl
    rw [mark?_curtails hmark hsecond hjoints]
    exact h
  · rename_i hnone
    rw [mark?_eq_none_of_none hnone]
    exact h

end

/-! ## Segments -/

/-- The segment is what its runes and the rest behind them start with. -/
def Leads (s : Segment) (rest : List Rune) : Prop :=
  ∃ r body, s.runes = r :: body ∧ front r (body ++ rest) = (s.form, body.length)

/-- A segment that more text prolongs. -/
def Open (s : Segment) : Prop := ∃ r body, s.runes = r :: body ∧ Unclosed r body s.form

theorem leads_front (r : Rune) (rest : List Rune) :
    Leads ⟨(front r rest).1, r :: rest.take (front r rest).2⟩ (rest.drop (front r rest).2) := by
  refine ⟨r, rest.take (front r rest).2, rfl, ?_⟩
  rw [List.take_append_drop, List.length_take, Nat.min_eq_left (front_le r rest)]

theorem Leads.cut_append {s : Segment} {rest : List Rune} (h : s.Leads rest) :
    cut (s.runes ++ rest) = s :: cut rest := by
  obtain ⟨form, runes⟩ := s
  obtain ⟨r, body, rfl, hfront⟩ := h
  rw [List.cons_append, cut_cons, hfront, List.take_left, List.drop_left]

theorem leads_of_cut {rs : List Rune} {s : Segment} {later : List Segment} (h : cut rs = s :: later) :
    ∃ rest, rs = s.runes ++ rest ∧ later = cut rest ∧ s.Leads rest := by
  cases rs with
  | nil => cases h
  | cons r rest =>
    rw [cut_cons] at h
    obtain ⟨rfl, rfl⟩ := List.cons.inj h
    refine ⟨rest.drop (front r rest).2, ?_, rfl, leads_front r rest⟩
    rw [List.cons_append, List.take_append_drop]

/-- Along a source and its segments. -/
theorem segment_induction {motive : List Rune → List Segment → Prop} (nil : motive [] [])
    (cons : ∀ s rest, s.Leads rest → motive rest (cut rest) → motive (s.runes ++ rest) (s :: cut rest))
    (rs : List Rune) : motive rs (cut rs) := by
  induction rs using cut_induction with
  | nil => exact nil
  | cons r rest ih =>
    have hcons := cons _ _ (leads_front r rest) ih
    rwa [List.cons_append, List.take_append_drop, ← cut_cons] at hcons

theorem Leads.curtails {s : Segment} {old new : List Rune} (h : s.Leads old) (hnew : Curtails old new) :
    s.Leads new ∨ (old = [] ∧ s.Open) := by
  obtain ⟨r, body, hrunes, hfront⟩ := h
  rcases front_curtails hfront hnew with hsame | ⟨hold, hopen⟩
  · exact .inl ⟨r, body, hrunes, hsame⟩
  · exact .inr ⟨hold, r, body, hrunes, hopen⟩

/-- A token is closed, whatever follows it. -/
theorem Leads.curtails_token {s : Segment} {old new : List Rune} (h : s.Leads old) (hnew : Curtails old new)
    {kind : Token.Kind} {literal : Literal} (hform : s.form = .token kind literal) : s.Leads new := by
  rcases h.curtails hnew with hsame | ⟨-, r, body, -, hopen⟩
  · exact hsame
  · rw [hform] at hopen
    cases hopen

/-- What stands behind some segments of a source is cut as if they were not there. -/
theorem cut_behind {done later : List Segment} {rs : List Rune} (h : cut rs = done ++ later) :
    rs = runesAll done ++ runesAll later ∧ cut (runesAll later) = later := by
  refine ⟨by rw [← runesAll_cut rs, h, runesAll_append], ?_⟩
  induction done generalizing rs with
  | nil => rw [← List.nil_append later, ← h, runesAll_cut]
  | cons s done ih =>
    obtain ⟨rest, -, hrest, -⟩ := leads_of_cut h
    exact ih hrest.symm

/-- The segments in front of a place stay what they are if what stands behind it is curtailed. -/
theorem cut_before {done : List Segment} {old new : List Rune}
    (h : cut (runesAll done ++ old) = done ++ cut old) (hold : old ≠ []) (hnew : Curtails old new) :
    cut (runesAll done ++ new) = done ++ cut new := by
  induction done with
  | nil => rfl
  | cons s done ih =>
    obtain ⟨rest, hrest, hcut, hleads⟩ := leads_of_cut h
    rw [runesAll_cons, List.append_assoc] at hrest
    obtain rfl := List.append_cancel_left hrest
    have hsame : s.Leads (runesAll done ++ new) := by
      rcases hleads.curtails (hnew.append (runesAll done)) with hsame | ⟨hnil, -⟩
      · exact hsame
      · exact absurd (List.append_eq_nil_iff.1 hnil).2 hold
    rw [runesAll_cons, List.append_assoc, hsame.cut_append, ih hcut.symm, List.cons_append]

end Treewalk.Segment
