import Treewalk.Proofs.Diagnostic.Excerpt
import Treewalk.Proofs.Scope.Sited

/-!
# Every diagnostic of a source is shown in it

Positions are counted rune by rune while a source is cut into segments, and excerpts look for the place on
their own: they split the source at newlines, drop carriage returns and count the runes of the line. Both agree on
every text (`Listing.shows_diagnostic`).

A diagnostic of the scanner, the parser or the check stands where a segment starts that is no white space and no
comment, or at the end of the source (`Segment.Starts`, `Parsed.diagnostic_place`). The first is a place that is
shown (`Bytes.Opens`). At the end nothing stands behind the place, but trailing carriage returns before it may not
be shown, and the carets come behind what is.
-/

namespace Treewalk

/-- Behind the text `front` the source has a token, not the end of input, or a piece that is reported as none. -/
def Segment.Starts (source front : Bytes) : Prop :=
  ∃ done s later, cut (Rune.decode source) = done ++ s :: later ∧ s.form ≠ .blank ∧ s.form ≠ .comment ∧
    front = Rune.bytes (runesAll done)

/-- Where such a piece starts is a place that is shown. -/
theorem Segment.Starts.opens {source front : Bytes} (h : Starts source front) :
    ∃ behind, source = front ++ behind ∧ Bytes.Opens front behind := by
  obtain ⟨done, s, later, hcut, hblank, -, rfl⟩ := h
  obtain ⟨hsource, hlater⟩ := cut_behind hcut
  obtain ⟨rest, hrest, -, hleads⟩ := leads_of_cut hlater
  rw [hrest] at hsource
  refine ⟨Rune.bytes (s.runes ++ rest), ?_, hleads.opens hblank hsource⟩
  rw [← Rune.bytes_append, ← hsource, Rune.bytes_decode]

/-- The position of segments is behind the text before them. -/
theorem Segment.after_done {source : Bytes} {done later : List Segment}
    (h : cut (Rune.decode source) = done ++ later) :
    Position.start.after (runesAll done) = .behind (Rune.bytes (runesAll done)) :=
  Position.after_start_eq_behind (Rune.decode_of_append (cut_behind h).1).1

namespace Token

open Segment

/-- A token of a source starts a piece, or it is the end of input behind everything. -/
theorem starts_of_mem_scan {source : Bytes} {t : Token} (ht : t ∈ (scan source).tokens) :
    (t.kind ≠ .eof ∧ ∃ front, Starts source front ∧ t.pos = .behind front) ∨
      (t.kind = .eof ∧ t.pos = .behind source) := by
  rw [scan_eq, List.mem_append, List.mem_singleton] at ht
  rcases ht with ht | rfl
  · obtain ⟨done, runes, later, hcut, -, hpos⟩ := mem_gather_token? ht
    rw [after_done hcut] at hpos
    refine .inl ⟨?_, _, ⟨done, _, later, hcut, nofun, nofun, rfl⟩, hpos⟩
    obtain ⟨-, ⟨ts, e, htokens, -, -, hts⟩, -⟩ := scan_tiles source
    rw [scan_eq] at htokens
    obtain ⟨rfl, -⟩ := List.append_inj' htokens rfl
    exact (hts t ht).1
  · exact .inr ⟨rfl, Position.after_decode source⟩

/-- A fault of the scanner stands where the piece starts that it is about. -/
theorem starts_of_mem_faults {source : Bytes} {d : Diagnostic} (hd : d ∈ (scan source).faults) :
    ∃ front, Starts source front ∧ d.place = (Position.behind front).place := by
  rw [scan_eq] at hd
  obtain ⟨done, ⟨form, runes⟩, later, hcut, hpick⟩ := mem_gather hd
  rw [after_done hcut] at hpick
  cases form with
  | fault f =>
    obtain rfl := Option.some.inj hpick
    exact ⟨_, ⟨done, _, later, hcut, nofun, nofun, rfl⟩, rfl⟩
  | blank => cases hpick
  | comment => cases hpick
  | token => cases hpick

end Token

/-- A diagnostic comes from reading a source or from the check of what was read. -/
def Parsed.Reports (n : NodeId) (source : Bytes) (d : Diagnostic) : Prop :=
  d ∈ (ofSource n source).faults ∨ d ∈ (Resolution.ofProgram (ofSource n source).stmts).faults ∨
    d ∈ (Resolution.ofProgram (ofSource n source).stmts).warnings

/-- Every diagnostic stands where a piece of the source starts, or at its end. -/
theorem Parsed.diagnostic_place {n : NodeId} {source : Bytes} {d : Diagnostic} (hd : Reports n source d) :
    (∃ front, Segment.Starts source front ∧ d.place = (Position.behind front).place) ∨
      d.place = (Position.behind source).place := by
  obtain ⟨-, hbuilt, hfaults⟩ := ofSource_draws n source
  obtain ⟨hchecked, hwarned⟩ := Resolution.at_tokens hbuilt
  have htoken : d.At (· ∈ (Token.scan source).tokens) → (∃ front, Segment.Starts source front ∧
      d.place = (Position.behind front).place) ∨ d.place = (Position.behind source).place := by
    rintro ⟨t, ht, hplace⟩
    rcases Token.starts_of_mem_scan ht with ⟨-, front, hfront, hpos⟩ | ⟨-, hpos⟩
    · exact .inl ⟨front, hfront, by rw [hplace, hpos]⟩
    · exact .inr (by rw [hplace, hpos])
  rcases hd with hd | hd | hd
  · rcases hfaults d hd with hd | hd
    · exact .inl (Token.starts_of_mem_faults hd)
    · exact htoken hd
  · exact htoken (hchecked d hd)
  · exact htoken (hwarned d hd)

/-- Without its trailing carriage returns a text has no more runes. -/
theorem Bytes.length_decode_dropTrailingReturns (s : Bytes) :
    (Rune.decode s.dropTrailingReturns).length ≤ (Rune.decode s).length := by
  have hsplit : s = s.dropTrailingReturns ++ (s.reverse.takeWhile (· = carriageReturn)).reverse := by
    rw [dropTrailingReturns, ← List.reverse_append, List.takeWhile_append_dropWhile, List.reverse_reverse]
  cases htail : (s.reverse.takeWhile (· = carriageReturn)).reverse with
  | nil =>
    rw [htail, List.append_nil] at hsplit
    rw [← hsplit]
  | cons b more =>
    have hb : b = carriageReturn := by
      have hmem : b ∈ s.reverse.takeWhile (· = carriageReturn) :=
        List.mem_reverse.1 (htail ▸ List.mem_cons_self)
      simpa using List.mem_takeWhile_imp hmem
    rw [htail] at hsplit
    have hdecode := Rune.decode_append_ascii s.dropTrailingReturns more (b := b) (by rw [hb]; decide)
    rw [← hsplit] at hdecode
    rw [hdecode, List.length_append]
    omega

namespace Listing

/-- The line `line` is shown for a diagnostic of a source, and carets stand below it where the diagnostic is. -/
structure Shows (l : Listing) (source : Bytes) (d : Diagnostic) (line : Bytes) : Prop where
  first : 1 ≤ d.place.line
  last : d.place.line ≤ l.lines.length
  found : l.line? d.place.line = some line
  /-- Three lines are printed: a header, the line behind a gutter, and carets behind as many blanks. -/
  printed : l.excerpt d =
    [l.header d, gutter d.place.line ++ line ++ text "\n",
      List.replicate (l.widths.text (gutter d.place.line)) 0x20 ++ l.caretPad line d.place.column.toNat ++
        List.replicate (if d.lexeme = [] then 1 else max 1 (l.widths.text d.lexeme)) 0x5E ++ text "\n"]
  /-- Where a piece starts, the runes before the column are those of the source before the piece. Under each of them
  stands a tab, if it is one, and otherwise as many blanks as it is wide. -/
  piece : ∀ front, Segment.Starts source front → d.place = (Position.behind front).place →
    Rune.bytes ((Rune.decode line).take (d.place.column.toNat - 1)) = front.lastLine ∧
      l.caretPad line d.place.column.toNat = (Rune.decode front.lastLine).flatMap
        fun r => if r.code = 0x09 then [0x09] else List.replicate (l.widths.code r.code) 0x20
  /-- At the end the carets come behind the whole line, which is shown without carriage returns at its end. -/
  ending : d.place = (Position.behind source).place → line = source.lastLine.dropTrailingReturns ∧
    l.caretPad line d.place.column.toNat = (Rune.decode line).flatMap
      fun r => if r.code = 0x09 then [0x09] else List.replicate (l.widths.code r.code) 0x20

variable {name source : Bytes} {widths : Widths} {d : Diagnostic}

theorem line?_range {l : Listing} {n : Int} {line : Bytes} (h : l.line? n = some line) :
    1 ≤ n ∧ n ≤ l.lines.length := by
  unfold line? at h
  split at h
  · cases h
  next hn =>
    obtain ⟨_, hget, -⟩ := Option.map_eq_some_iff.1 h
    have hlt := (List.getElem?_eq_some_iff.1 hget).1
    omega

/-- The line of the end of a source. -/
theorem line?_end : (ofSource name source widths).line? (Position.behind source).place.line =
    some source.lastLine.dropTrailingReturns := by
  have hlines := Bytes.lines_lastLine source []
  rw [List.append_nil] at hlines
  have hindex : ((Position.behind source).place.line - 1).toNat = source.count Bytes.newline := by
    simp only [Position.place, Position.behind]
    omega
  have hknown : ¬ (Position.behind source).place.line ≤ 0 := by
    simp only [Position.place, Position.behind]
    omega
  rw [line?, if_neg hknown, hindex, ofSource, hlines, Option.map_some]
  simp [Bytes.firstLine]

/-- The column of the end of a source is not before the end of what is shown of the line. -/
theorem length_decode_end : (Rune.decode source.lastLine.dropTrailingReturns).length ≤
    (Position.behind source).place.column.toNat - 1 := by
  have hcolumn : (Position.behind source).place.column.toNat - 1 = (Rune.decode source.lastLine).length := by
    simp only [Position.place, Position.behind]
    omega
  rw [hcolumn]
  exact Bytes.length_decode_dropTrailingReturns _

/-- **Every diagnostic of a source is shown in it.** Its line is a line of the source, with carets below: where a
piece of the source starts, behind what stands before the piece in its line, and at the end of the source
behind all that is shown. -/
theorem shows_diagnostic {n : NodeId} (hd : Parsed.Reports n source d) :
    ∃ line, Shows (ofSource name source widths) source d line := by
  have hpiece : ∀ front, Segment.Starts source front → d.place = (Position.behind front).place →
      ∃ line, (ofSource name source widths).line? d.place.line = some line ∧
        (Rune.decode line).take (d.place.column.toNat - 1) = Rune.decode front.lastLine := by
    intro front hfront hplace
    obtain ⟨behind, rfl, hopens⟩ := hfront.opens
    rw [hplace]
    exact ⟨_, hopens.line?, hopens.take_column⟩
  have hline : ∃ line, (ofSource name source widths).line? d.place.line = some line := by
    rcases Parsed.diagnostic_place hd with ⟨front, hfront, hplace⟩ | hplace
    · obtain ⟨line, hline, -⟩ := hpiece front hfront hplace
      exact ⟨line, hline⟩
    · exact ⟨_, hplace ▸ line?_end⟩
  have hcolumn : 0 < d.place.column := by
    rcases Parsed.diagnostic_place hd with ⟨front, -, hplace⟩ | hplace <;> rw [hplace] <;>
      simp only [Position.place, Position.behind] <;> omega
  obtain ⟨line, hline⟩ := hline
  refine ⟨line, (line?_range hline).1, (line?_range hline).2, hline, excerpt_eq hline hcolumn,
    fun front hfront hplace => ?_, fun hplace => ?_⟩
  · obtain ⟨line', hline', htake⟩ := hpiece front hfront hplace
    obtain rfl : line = line' := Option.some.inj (hline.symm.trans hline')
    exact ⟨by rw [htake, Rune.bytes_decode], by rw [caretPad, htake]; rfl⟩
  · rw [hplace, line?_end] at hline
    obtain rfl := Option.some.inj hline
    refine ⟨rfl, ?_⟩
    rw [hplace, caretPad, List.take_of_length_le length_decode_end]
    rfl

/-- Behind `let` and a tab a name is due; the caret stands below the semicolon, behind a tab. -/
theorem shows_diagnostic_missing_name : ∃ d, Parsed.Reports 0 (text "let\t;") d ∧
    ∃ line, Shows (ofSource [] (text "let\t;")) (text "let\t;") d line := by
  have hfault : ∃ d, d ∈ (Parsed.ofSource 0 (text "let\t;")).faults :=
    List.exists_mem_of_length_pos (by decide +kernel)
  obtain ⟨d, hd⟩ := hfault
  exact ⟨d, .inl hd, shows_diagnostic (.inl hd)⟩

end Listing

end Treewalk
