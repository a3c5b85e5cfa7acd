import Treewalk.Proofs.Token.Pieces
import Mathlib.Data.List.Induction

/-!
# Scanning tiles the source

**Main theorem** (`Token.scan_tiles`). Whatever the bytes of a source, its tokens and faults lie in it one
behind the other and nothing of it is lost (`Token.Tiled`). Between tokens there are blanks, complete
comments, and pieces that are reported, one fault for each; every token and every fault stands where its
position says, counted afresh from the bytes before it (`Position.behind`).

The induction goes from segment to segment and carries the runes passed so far, so that the position the
scanner counts incrementally can be compared with the one counted afresh (`Token.tiled_cut`). The other
facts are read off a tiling.
-/

namespace Treewalk

/-! ## Positions counted afresh -/

/-- The part of a text behind its last newline. -/
def Bytes.lastLine (s : Bytes) : Bytes := (s.reverse.takeWhile (· ≠ newline)).reverse

/-- The position behind a text: bytes from zero, newlines from one, and the runes since the last newline
from one. -/
def Position.behind (s : Bytes) : Position :=
  { offset := s.length
    line := 1 + s.count Bytes.newline
    column := 1 + (Rune.decode s.lastLine).length }

/-! ## Tiled texts -/

/-- Tokens and faults lie one behind the other in a text that stands behind `before`. -/
inductive Token.Tiled : Bytes → List Rune → List Token → List Diagnostic → Prop
  | done {before} : Tiled before [] [⟨.eof, [], .none, .behind before⟩] []
  | filler {before rs rest ts fs} (h : Segment.Filler rs rest)
    (hrest : Tiled (before ++ Rune.bytes rs) rest ts fs) : Tiled before (rs ++ rest) ts fs
  | token {before rs rest ts fs kind literal} (hkind : kind ≠ .eof) (hrs : Rune.bytes rs ≠ [])
    (hrest : Tiled (before ++ Rune.bytes rs) rest ts fs) :
    Tiled before (rs ++ rest) (⟨kind, Rune.bytes rs, literal, .behind before⟩ :: ts) fs
  | fault {before rs rest ts fs f} (h : Segment.Fault.Covers f rs rest)
    (hrest : Tiled (before ++ Rune.bytes rs) rest ts fs) :
    Tiled before (rs ++ rest) ts (f.diagnostic (.behind before) (Rune.bytes rs) :: fs)

/-! ## Positions of runes -/

namespace Rune

/-- The runes behind the last newline. -/
def lastLine (rs : List Rune) : List Rune := (rs.reverse.takeWhile (·.code ≠ 0x0A)).reverse

theorem lastLine_suffix (rs : List Rune) : ∃ front, rs = front ++ lastLine rs := by
  refine ⟨(rs.reverse.dropWhile (·.code ≠ 0x0A)).reverse, ?_⟩
  rw [lastLine, ← List.reverse_append, List.takeWhile_append_dropWhile, List.reverse_reverse]

/-- Each rune is a newline or has none among its bytes. -/
def Plain (rs : List Rune) : Prop := ∀ r ∈ rs, (r.code = 0x0A ∧ r.raw = [Bytes.newline]) ∨
  (r.code ≠ 0x0A ∧ Bytes.newline ∉ r.raw)

theorem plain_decode (s : Bytes) : Plain (decode s) := by
  intro r hr
  obtain ⟨a, rest, rfl⟩ := mem_decode hr
  exact first_newline a rest

end Rune

/-- A text that ends with a line ends with all of it. -/
theorem Bytes.lastLine_append {s t : Bytes} (h : Bytes.newline ∉ t) :
    (s ++ t).lastLine = s.lastLine ++ t := by
  unfold Bytes.lastLine
  rw [List.reverse_append, List.takeWhile_append_of_pos]
  · rw [List.reverse_append, List.reverse_reverse]
  · intro b hb
    have hne : b ≠ Bytes.newline := by
      rintro rfl
      exact h (List.mem_reverse.1 hb)
    simpa using hne

theorem Bytes.lastLine_newline (s : Bytes) : (s ++ [Bytes.newline]).lastLine = [] := by
  simp [Bytes.lastLine]

namespace Rune

theorem lastLine_append_newline {rs : List Rune} {r : Rune} (h : r.code = 0x0A) :
    lastLine (rs ++ [r]) = [] := by
  simp [lastLine, h]

theorem lastLine_append_other {rs : List Rune} {r : Rune} (h : r.code ≠ 0x0A) :
    lastLine (rs ++ [r]) = lastLine rs ++ [r] := by
  simp [lastLine, h]

/-- The last line of a text and the last line of its runes are the same. -/
theorem bytes_lastLine {rs : List Rune} (h : Plain rs) : bytes (lastLine rs) = (bytes rs).lastLine := by
  induction rs using List.reverseRecOn with
  | nil => rfl
  | append_singleton rs r ih =>
    have hrs : Plain rs := fun r' hr' => h r' (List.mem_append_left _ hr')
    rw [bytes_append, bytes_cons, bytes_nil, List.append_nil]
    rcases h r (by simp) with ⟨hcode, hraw⟩ | ⟨hcode, hraw⟩
    · rw [lastLine_append_newline hcode, hraw, Bytes.lastLine_newline]
      rfl
    · rw [lastLine_append_other hcode, bytes_append, ih hrs, Bytes.lastLine_append hraw]
      simp

end Rune

/-- What the scanner counts from rune to rune is what is counted afresh, with the runes of the last line in
place of its bytes. -/
theorem Position.after_start {rs : List Rune} (h : Rune.Plain rs) : Position.start.after rs =
    { offset := (Rune.bytes rs).length
      line := 1 + (Rune.bytes rs).count Bytes.newline
      column := 1 + (Rune.lastLine rs).length } := by
  induction rs using List.reverseRecOn with
  | nil => rfl
  | append_singleton rs r ih =>
    have hrs : Rune.Plain rs := fun r' hr' => h r' (List.mem_append_left _ hr')
    rw [Position.after_append, ih hrs]
    simp only [Position.after, List.foldl_cons, List.foldl_nil, Position.next, Rune.bytes_append,
      Rune.bytes_cons, Rune.bytes_nil, List.append_nil, List.length_append, List.count_append]
    rcases h r (by simp) with ⟨hcode, hraw⟩ | ⟨hcode, hraw⟩
    · rw [if_pos hcode, hraw, Rune.lastLine_append_newline hcode]
      simp
      omega
    · rw [if_neg hcode, Rune.lastLine_append_other hcode, List.count_eq_zero.2 hraw]
      simp
      omega

/-- The scanner's positions are those counted afresh. -/
theorem Position.after_start_eq_behind {rs : List Rune} (h : Rune.decode (Rune.bytes rs) = rs) :
    Position.start.after rs = .behind (Rune.bytes rs) := by
  have hplain : Rune.Plain rs := by
    rw [← h]
    exact Rune.plain_decode _
  obtain ⟨front, hfront⟩ := Rune.lastLine_suffix rs
  have hline : Rune.decode (Rune.bytes rs).lastLine = Rune.lastLine rs := by
    rw [← Rune.bytes_lastLine hplain]
    exact (Rune.decode_of_append (h.trans hfront)).2
  rw [Position.after_start hplain, Position.behind, hline]

theorem Position.after_decode (s : Bytes) : Position.start.after (Rune.decode s) = .behind s := by
  rw [Position.after_start_eq_behind (by rw [Rune.bytes_decode]), Rune.bytes_decode]

namespace Token

open Segment

/-- The segments of a text that stands behind another one tile it. -/
theorem tiled_cut (rs : List Rune) : ∀ {before : List Rune},
    Rune.decode (Rune.bytes (before ++ rs)) = before ++ rs →
    Tiled (Rune.bytes before) rs
      (gather token? (Position.start.after before) (cut rs) ++
        [⟨.eof, [], .none, Position.start.after (before ++ rs)⟩])
      (gather fault? (Position.start.after before) (cut rs)) := by
  induction rs using cut_induction with
  | nil =>
    intro before h
    rw [List.append_nil] at h ⊢
    rw [Position.after_start_eq_behind h]
    exact .done
  | cons r rest ih =>
    intro before h
    have hcovers := front_covers r rest
    have hsplit : r :: rest = (r :: rest.take (front r rest).2) ++ rest.drop (front r rest).2 := by
      rw [List.cons_append, List.take_append_drop]
    rw [cut_cons]
    have hne : Rune.bytes (r :: rest.take (front r rest).2) ≠ [] := by
      have hr : r ∈ Rune.decode (Rune.bytes (before ++ r :: rest)) := by
        rw [h]
        simp
      simp [Rune.raw_ne_nil_of_mem_decode hr]
    generalize r :: rest.take (front r rest).2 = piece at hcovers hsplit hne ⊢
    generalize rest.drop (front r rest).2 = more at ih hcovers hsplit ⊢
    rw [hsplit] at h ⊢
    have hbefore : Position.start.after before = .behind (Rune.bytes before) :=
      Position.after_start_eq_behind (Rune.decode_of_append h).1
    rw [← List.append_assoc] at h ⊢
    have hmore := ih h
    rw [Rune.bytes_append] at hmore
    simp only [gather, ← Position.after_append]
    cases hform : (front r rest).1 with
    | blank =>
      rw [hform] at hcovers
      exact .filler hcovers hmore
    | comment =>
      rw [hform] at hcovers
      exact .filler hcovers hmore
    | token kind literal =>
      rw [hform] at hcovers
      simp only [token?, fault?, hbefore, Option.toList, List.nil_append, List.cons_append]
      exact .token hcovers hne hmore
    | fault f =>
      rw [hform] at hcovers
      simp only [token?, fault?, hbefore, Option.toList, List.nil_append, List.cons_append]
      exact .fault hcovers hmore

/-! ## Reading a tiling -/

namespace Tiled

variable {before : Bytes} {rs : List Rune} {tokens : List Token} {faults : List Diagnostic}

/-- The end of input is the last token, it stands behind everything, and no other token is like it. -/
theorem ends (h : Tiled before rs tokens faults) : ∃ ts e, tokens = ts ++ [e] ∧ e.kind = .eof ∧
    e.pos.offset = (before ++ Rune.bytes rs).length ∧ ∀ t ∈ ts, t.kind ≠ .eof ∧ t.lexeme ≠ [] := by
  induction h with
  | done => exact ⟨[], _, rfl, rfl, by simp [Position.behind], by simp⟩
  | filler _ _ ih =>
    rw [Rune.bytes_append, ← List.append_assoc]
    exact ih
  | fault _ _ ih =>
    rw [Rune.bytes_append, ← List.append_assoc]
    exact ih
  | token hkind hrs _ ih =>
    obtain ⟨ts, e, rfl, he, hoffset, hts⟩ := ih
    rw [Rune.bytes_append, ← List.append_assoc]
    exact ⟨_ :: ts, e, rfl, he, hoffset, List.forall_mem_cons.2 ⟨⟨hkind, hrs⟩, hts⟩⟩

/-- Every token stands in the text where its position says. -/
theorem stands (h : Tiled before rs tokens faults) : ∀ t ∈ tokens, ∃ front behind,
    before ++ Rune.bytes rs = front ++ t.lexeme ++ behind ∧ t.pos = .behind front := by
  induction h with
  | @done before => exact List.forall_mem_singleton.2 ⟨before, [], by simp, rfl⟩
  | filler _ _ ih =>
    rw [Rune.bytes_append, ← List.append_assoc]
    exact ih
  | fault _ _ ih =>
    rw [Rune.bytes_append, ← List.append_assoc]
    exact ih
  | @token before _ rest _ _ _ _ _ _ _ ih =>
    rw [Rune.bytes_append, ← List.append_assoc]
    exact List.forall_mem_cons.2 ⟨⟨before, Rune.bytes rest, rfl, rfl⟩, ih⟩

/-- Every fault is one of a piece of the text, reported where the piece starts. -/
theorem reports (h : Tiled before rs tokens faults) : ∀ d ∈ faults, ∃ front piece behind f,
    before ++ Rune.bytes rs = front ++ Rune.bytes piece ++ Rune.bytes behind ∧
      Fault.Covers f piece behind ∧ d = f.diagnostic (.behind front) (Rune.bytes piece) := by
  induction h with
  | done => exact List.forall_mem_nil _
  | filler _ _ ih =>
    rw [Rune.bytes_append, ← List.append_assoc]
    exact ih
  | token _ _ _ ih =>
    rw [Rune.bytes_append, ← List.append_assoc]
    exact ih
  | @fault before piece rest _ _ f hf _ ih =>
    rw [Rune.bytes_append, ← List.append_assoc]
    exact List.forall_mem_cons.2 ⟨⟨before, piece, rest, f, rfl, hf, rfl⟩, ih⟩

/-- No token starts before the text does. -/
theorem offset_le (h : Tiled before rs tokens faults) : ∀ t ∈ tokens, before.length ≤ t.pos.offset := by
  have hgrow : ∀ (front piece : Bytes) (n : Nat), (front ++ piece).length ≤ n → front.length ≤ n := by
    intro front piece n hn
    rw [List.length_append] at hn
    omega
  induction h with
  | done => exact List.forall_mem_singleton.2 (Nat.le_refl _)
  | filler _ _ ih => exact fun t ht => hgrow _ _ _ (ih t ht)
  | fault _ _ ih => exact fun t ht => hgrow _ _ _ (ih t ht)
  | token _ _ _ ih =>
    exact List.forall_mem_cons.2 ⟨Nat.le_refl _, fun t ht => hgrow _ _ _ (ih t ht)⟩

/-- Tokens follow each other without overlap. -/
theorem ordered (h : Tiled before rs tokens faults) : tokens.Pairwise fun t u =>
    t.pos.offset < u.pos.offset ∧ t.pos.offset + t.lexeme.length ≤ u.pos.offset := by
  induction h with
  | done => exact List.pairwise_singleton _ _
  | filler _ _ ih => exact ih
  | fault _ _ ih => exact ih
  | @token before piece _ _ _ _ _ _ hne hrest ih =>
    refine List.pairwise_cons.2 ⟨fun u hu => ?_, ih⟩
    have hle := hrest.offset_le u hu
    have hpos : 0 < (Rune.bytes piece).length := List.length_pos_iff.2 hne
    rw [List.length_append] at hle
    simp only [Position.behind]
    omega

end Tiled

/-- Scanning tiles the source: tokens, blanks, comments and reported pieces lie in it one behind the other
without gap or overlap, each where its position says. -/
theorem scan_tiles (source : Bytes) :
    Tiled [] (Rune.decode source) (scan source).tokens (scan source).faults ∧
    (∃ ts e, (scan source).tokens = ts ++ [e] ∧ e.kind = .eof ∧ e.pos.offset = source.length ∧
      ∀ t ∈ ts, t.kind ≠ .eof ∧ t.lexeme ≠ []) ∧
    (∀ t ∈ (scan source).tokens, ∃ front behind,
      source = front ++ t.lexeme ++ behind ∧ t.pos = .behind front) ∧
    (∀ d ∈ (scan source).faults, ∃ front piece behind f,
      source = front ++ Rune.bytes piece ++ Rune.bytes behind ∧ Fault.Covers f piece behind ∧
        d = f.diagnostic (.behind front) (Rune.bytes piece)) ∧
    (scan source).tokens.Pairwise fun t u =>
      t.pos.offset < u.pos.offset ∧ t.pos.offset + t.lexeme.length ≤ u.pos.offset := by
  have htiled : Tiled [] (Rune.decode source) (scan source).tokens (scan source).faults := by
    rw [scan_eq]
    exact @tiled_cut (Rune.decode source) [] (by rw [List.nil_append, Rune.bytes_decode])
  have hbytes : [] ++ Rune.bytes (Rune.decode source) = source := by
    rw [List.nil_append, Rune.bytes_decode]
  refine ⟨htiled, ?_, ?_, ?_, htiled.ordered⟩
  · simpa only [hbytes] using htiled.ends
  · simpa only [hbytes] using htiled.stands
  · simpa only [hbytes] using htiled.reports

end Token

end Treewalk
