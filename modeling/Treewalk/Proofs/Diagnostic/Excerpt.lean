import Treewalk.Diagnostic.Excerpt
import Treewalk.Proofs.Text.Lines
import Treewalk.Proofs.Token.Spelling
import Treewalk.Proofs.Token.Places
import Mathlib.Data.List.TakeWhile

/-!
# Excerpts show tokens where they stand

A diagnostic at a token of a source is shown with the line that the token starts in, and the carets begin below the
token: the blanks before them are as wide as what stands before the token in its line (`Listing.excerpt_token`).
How wide that is depends on the terminal, so all of this holds for any `Widths`.

The line of a number is found by counting newlines, as positions do (`Bytes.lines_lastLine`). What is shown of it is
cut at its end, so it still decodes like the source up to the token (`Bytes.Opens.take_column`). Both hold wherever
a source is cut between runes in front of a byte that ends no line (`Bytes.Opens`).
-/

namespace Treewalk

/-! ## The line of a place -/

namespace Bytes

/-- A text is its last line, behind a newline or at the beginning. -/
theorem lastLine_cases (s : Bytes) : newline ∉ s.lastLine ∧
    (s = s.lastLine ∨ ∃ earlier, s = earlier ++ newline :: s.lastLine) := by
  refine ⟨fun hmem => ?_, ?_⟩
  · simpa using List.mem_takeWhile_imp (List.mem_reverse.1 hmem)
  · have hsplit : s = (s.reverse.dropWhile (· ≠ newline)).reverse ++ s.lastLine := by
      rw [lastLine, ← List.reverse_append, List.takeWhile_append_dropWhile, List.reverse_reverse]
    cases hdrop : s.reverse.dropWhile (· ≠ newline) with
    | nil =>
      rw [hdrop] at hsplit
      exact .inl hsplit
    | cons b earlier =>
      have hb : b = newline := by
        have hhead := List.head?_dropWhile_not (· ≠ newline) s.reverse
        rw [hdrop] at hhead
        simpa using hhead
      rw [hdrop, hb, List.reverse_cons, List.append_assoc] at hsplit
      exact .inr ⟨earlier.reverse, hsplit⟩

/-- The line that a place lies in: what stands there before the place, and what stands there behind it. -/
theorem lines_lastLine (front behind : Bytes) :
    (front ++ behind).lines[front.count newline]? = some (front.lastLine ++ behind.firstLine) := by
  obtain ⟨hlast, hfront⟩ := lastLine_cases front
  have hfirst : (front.lastLine ++ behind).lines[0]? =
      some (front.lastLine ++ behind.firstLine) := by
    have hhead := headD_lines (front.lastLine ++ behind)
    rw [firstLine, List.takeWhile_append_of_pos] at hhead
    · rw [firstLine, ← hhead]
      rfl
    · intro b hb
      have hne : b ≠ newline := fun heq => hlast (heq ▸ hb)
      simpa using hne
  rcases hfront with heq | ⟨earlier, heq⟩
  · have hcount : front.count newline = 0 := by
      rw [heq]
      exact List.count_eq_zero.2 hlast
    rw [hcount, ← hfirst, ← heq]
  · have hcount : front.count newline = earlier.lines.length := by
      conv_lhs => rw [heq]
      rw [List.count_append, List.count_cons_self, List.count_eq_zero.2 hlast, length_lines]
    have hlines : (front ++ behind).lines = earlier.lines ++ (front.lastLine ++ behind).lines := by
      conv_lhs => rw [heq]
      rw [List.append_assoc, List.cons_append, lines_append_newline]
    rw [hlines, hcount, List.getElem?_append_right (Nat.le_refl _), Nat.sub_self, hfirst]

theorem dropTrailingReturns_prefix (s : Bytes) : s.dropTrailingReturns <+: s := by
  rw [dropTrailingReturns, ← List.reverse_suffix, List.reverse_reverse]
  exact List.dropWhile_suffix _

/-- Nothing is dropped in front of another byte. -/
theorem dropTrailingReturns_append (front : Bytes) {b : UInt8} (hb : b ≠ carriageReturn) (rest : Bytes) :
    dropTrailingReturns (front ++ b :: rest) = front ++ dropTrailingReturns (b :: rest) := by
  have hkept : ((b :: rest).reverse.dropWhile (· = carriageReturn)).isEmpty = false := by
    rw [List.reverse_cons, List.dropWhile_append]
    split_ifs with hempty
    · rw [List.dropWhile_cons_of_neg (by simpa using hb)]
      rfl
    · simp
  rw [dropTrailingReturns, List.reverse_append, List.dropWhile_append, hkept, if_neg nofun,
    List.reverse_append, List.reverse_reverse]
  rfl

end Bytes

/-! ## Places that are shown -/

/-- A text may be cut here: between two runes, in front of a byte that ends no line. -/
structure Bytes.Opens (front behind : Bytes) : Prop where
  decode : Rune.decode (front ++ behind) = Rune.decode front ++ Rune.decode behind
  first : ∃ b more, behind = b :: more ∧ b ≠ newline ∧ b ≠ carriageReturn

namespace Bytes.Opens

variable {name front behind : Bytes} {widths : Widths}

/-- What is shown of the line of the place: what stands there before the place, and what stands there behind it
but for trailing carriage returns. -/
theorem line? (h : Opens front behind) :
    (Listing.ofSource name (front ++ behind) widths).line? (Position.behind front).place.line =
      some (front.lastLine ++ behind.firstLine.dropTrailingReturns) := by
  obtain ⟨b, more, rfl, hnewline, hreturn⟩ := h.first
  have hshown : Bytes.firstLine (b :: more) = b :: Bytes.firstLine more := by
    rw [Bytes.firstLine, List.takeWhile_cons_of_pos (by simpa using hnewline)]
    rfl
  have hindex : ((Position.behind front).place.line - 1).toNat = front.count Bytes.newline := by
    simp only [Position.place, Position.behind]
    omega
  have hknown : ¬ (Position.behind front).place.line ≤ 0 := by
    simp only [Position.place, Position.behind]
    omega
  rw [Listing.line?, if_neg hknown, hindex, Listing.ofSource]
  dsimp only
  rw [Bytes.lines_lastLine, Option.map_some, hshown, Bytes.dropTrailingReturns_append _ hreturn]

/-- The line decodes like the source up to the place, whatever is left of it behind the place. -/
theorem decode_lastLine (h : Opens front behind) {q : Bytes} (hq : q <+: behind) :
    Rune.decode (front.lastLine ++ q) = Rune.decode front.lastLine ++ Rune.decode q := by
  obtain ⟨earlier, hearlier⟩ := Rune.lastLine_suffix (Rune.decode front)
  have hfront : Rune.bytes (Rune.lastLine (Rune.decode front)) = front.lastLine := by
    rw [Rune.bytes_lastLine (Rune.plain_decode front), Rune.bytes_decode]
  have hsplit := h.decode
  rw [hearlier, List.append_assoc] at hsplit
  obtain ⟨-, hline⟩ := Rune.decode_of_append hsplit
  have hlast : Rune.decode front.lastLine = Rune.lastLine (Rune.decode front) := by
    rw [← hfront]
    exact (Rune.decode_of_append hline).1
  rw [Rune.bytes_append, Rune.bytes_decode] at hline
  rw [hlast, ← hfront]
  exact Rune.decode_append_of_prefix hq hline

/-- In the line that is shown the runes before the place are those before it in the source. -/
theorem take_column (h : Opens front behind) :
    (Rune.decode (front.lastLine ++ behind.firstLine.dropTrailingReturns)).take
      ((Position.behind front).place.column.toNat - 1) = Rune.decode front.lastLine := by
  have hshort : behind.firstLine.dropTrailingReturns <+: behind :=
    (Bytes.dropTrailingReturns_prefix _).trans (List.takeWhile_prefix _)
  have hcolumn : (Position.behind front).place.column.toNat - 1 = (Rune.decode front.lastLine).length := by
    simp only [Position.place, Position.behind]
    omega
  rw [h.decode_lastLine hshort, hcolumn, List.take_left]

end Bytes.Opens

/-- A rune that is not blank starts with a byte that ends no line. -/
theorem Rune.first_byte {source : Bytes} {r : Rune} (hr : r ∈ decode source) (hblank : isBlank r.code = false) :
    ∃ b more, r.raw = b :: more ∧ b ≠ Bytes.newline ∧ b ≠ Bytes.carriageReturn := by
  rcases (genuine_of_mem_decode hr).raw_cases with ⟨hlow, hraw⟩ | ⟨-, hne, hwide⟩
  · have hcode : ∀ b : UInt8, isBlank b.toNat = true → r.code.toUInt8 ≠ b := by
      rintro b hb rfl
      rw [show r.code.toUInt8.toNat = r.code from Nat.mod_eq_of_lt (by omega), hblank] at hb
      cases hb
    exact ⟨r.code.toUInt8, [], hraw, hcode _ (by decide), hcode _ (by decide)⟩
  · obtain ⟨b, more, hmore⟩ := List.exists_cons_of_ne_nil hne
    have hb : 0x80 ≤ b := hwide b (hmore ▸ List.mem_cons_self)
    refine ⟨b, more, hmore, ?_, ?_⟩
    · rintro rfl
      exact absurd hb (by decide)
    · rintro rfl
      exact absurd hb (by decide)

/-- A segment that is not blank starts at a place that is shown. -/
theorem Segment.Leads.opens {source : Bytes} {done : List Segment} {s : Segment} {rest : List Rune}
    (h : s.Leads rest) (hblank : s.form ≠ .blank)
    (hdecode : Rune.decode source = runesAll done ++ (s.runes ++ rest)) :
    Bytes.Opens (Rune.bytes (runesAll done)) (Rune.bytes (s.runes ++ rest)) := by
  obtain ⟨hbefore, hbehind⟩ := Rune.decode_of_append hdecode
  refine ⟨?_, ?_⟩
  · rw [hbefore, hbehind, ← hdecode, ← Rune.bytes_append, ← hdecode, Rune.bytes_decode]
  · obtain ⟨r, body, hrunes, hfront⟩ := h
    have hr : r ∈ Rune.decode source := by
      rw [hdecode, hrunes]
      simp
    have hplain : isBlank r.code = false := by
      by_contra hr
      rw [front_blank (by simpa using hr)] at hfront
      exact hblank (Prod.mk.inj hfront).1.symm
    obtain ⟨b, more, hraw, hne⟩ := Rune.first_byte hr hplain
    refine ⟨b, more ++ Rune.bytes (body ++ rest), ?_, hne⟩
    rw [hrunes, List.cons_append, Rune.bytes_cons, hraw, List.cons_append]

/-! ## The excerpt of a token -/

/-- The three lines of a diagnostic whose line and column are known. -/
theorem Listing.excerpt_eq {l : Listing} {d : Diagnostic} {line : Bytes} (hline : l.line? d.place.line = some line)
    (hcolumn : 0 < d.place.column) :
    l.excerpt d =
      [l.header d, gutter d.place.line ++ line ++ text "\n",
        List.replicate (l.widths.text (gutter d.place.line)) 0x20 ++ l.caretPad line d.place.column.toNat ++
          List.replicate (if d.lexeme = [] then 1 else max 1 (l.widths.text d.lexeme)) 0x5E ++ text "\n"] := by
  rw [excerpt, hline]
  dsimp only
  rw [if_pos hcolumn, carets, caretCount]
  simp only [List.isEmpty_iff]
  rfl

/-- Lines that show a token where it stands in a source: a header, the line in which it starts, up to the end of the
line, and carets that begin below the token. Before them stand the blanks of the gutter, then for every character of
the line up to the token a tab, if it is one, and otherwise as many blanks as it is wide. -/
def Listing.Marks (widths : Widths) (source : Bytes) (t : Token) (header : Bytes) (lines : List Bytes) : Prop :=
  ∃ front behind : Bytes, source = front ++ (t.lexeme ++ behind) ∧ t.pos = .behind front ∧
    lines =
      [header,
        gutter t.pos.line ++
          (front.lastLine ++ (Bytes.firstLine (t.lexeme ++ behind)).dropTrailingReturns) ++ text "\n",
        List.replicate (widths.text (gutter t.pos.line)) 0x20 ++
          (Rune.decode front.lastLine).flatMap
            (fun r => if r.code = 0x09 then [0x09] else List.replicate (widths.code r.code) 0x20) ++
          List.replicate (if t.lexeme = [] then 1 else max 1 (widths.text t.lexeme)) 0x5E ++ text "\n"]

/-- A diagnostic at a token of a source is shown where the token stands. -/
theorem Listing.excerpt_token {name source : Bytes} {widths : Widths} {t : Token}
    (ht : t ∈ (Token.scan source).tokens) (hkind : t.kind ≠ .eof) {d : Diagnostic}
    (hplace : d.place = t.pos.place) (hlexeme : d.lexeme = t.lexeme) :
    Listing.Marks widths source t ((Listing.ofSource name source widths).header d)
      ((Listing.ofSource name source widths).excerpt d) := by
  obtain ⟨done, runes, rest, h⟩ := Token.place_of_mem_scan ht hkind
  have hopens := h.leads.opens nofun h.decode
  rw [Rune.bytes_append, ← h.lexeme] at hopens
  have hpos := h.pos
  have hsource := h.source_eq
  generalize Rune.bytes (Segment.runesAll done) = front at hpos hopens hsource
  generalize Rune.bytes rest = behind at hopens hsource
  refine ⟨front, behind, hsource, hpos, ?_⟩
  have hline : (Listing.ofSource name source widths).line? d.place.line =
      some (front.lastLine ++ (Bytes.firstLine (t.lexeme ++ behind)).dropTrailingReturns) := by
    rw [hplace, hpos, hsource]
    exact hopens.line?
  have hcolumn : 0 < d.place.column := by
    rw [hplace, hpos]
    simp only [Position.place, Position.behind]
    omega
  rw [excerpt_eq hline hcolumn, caretPad, hlexeme, hplace]
  rw [hpos, hopens.take_column]
  rfl

end Treewalk
