import Treewalk.Proofs.Token.Boundary
import Treewalk.Proofs.Token.Tiling
import Treewalk.Proofs.Tree.Map

/-!
# Scanning line by line

A newline is a separator, so no segment goes on behind one unless more text prolongs it: a line comment, which
takes the newline in, or a comment of several lines or a string, which stays open (`open_newline`). So the
segments of a text that ends with a newline stay as they are when more text follows, unless the last of
them is a comment or a string that is still open (`cut_line`).

For whole sources: a source without faults and another one on the lines behind it have the tokens of both and
the faults of the second one, which stand further down (`scan_lines`); and a source that more lines make
right has no fault but an open comment or string at its end (`scan_continued`).
-/

namespace Treewalk.Segment

/-! ## Open segments -/

section

variable {nl : Rune} (hnl : nl.code = 0x0A)

include hnl

/-- A newline closes no comment. -/
theorem blockCommentLength?_newline {rs : List Rune} (h : ∀ n, ¬ Closing 0 (rs.take n)) :
    blockCommentLength? 0 0 (rs ++ [nl]) = none := by
  refine Option.eq_none_iff_forall_ne_some.2 fun k hk => ?_
  obtain ⟨n, -, -, hclosing⟩ := closing_of_blockCommentLength? _ _ _ hk
  by_cases hn : n ≤ rs.length
  · rw [List.take_append_of_le_length hn] at hclosing
    exact h n hclosing
  · rw [List.take_of_length_le (by simp; omega)] at hclosing
    simpa [hnl] using hclosing.last_code

/-- A newline closes no string. -/
theorem stringBody?_newline {rs : List Rune} (h : ∀ n, ¬ Quoted (rs.take n)) :
    stringBody? [] 0 (rs ++ [nl]) = none := by
  refine Option.eq_none_iff_forall_ne_some.2 fun k hk => ?_
  obtain ⟨n, -, -, hquoted⟩ := quoted_of_stringBody? _ _ _ hk
  by_cases hn : n ≤ rs.length
  · rw [List.take_append_of_le_length hn] at hquoted
    exact h n hquoted
  · rw [List.take_of_length_le (by simp; omega)] at hquoted
    simpa [hnl] using hquoted.last_code

theorem lineCommentLength_newline {body : List Rune} (h : ∀ x ∈ body, x.code ≠ 0x0A) (more : List Rune) :
    lineCommentLength (body ++ nl :: more) = body.length + 1 := by
  induction body with
  | nil => rw [List.nil_append, lineCommentLength, if_pos hnl, List.length_nil]
  | cons b body ih =>
    obtain ⟨hb, hbody⟩ := List.forall_mem_cons.1 h
    rw [List.cons_append, lineCommentLength, if_neg hb, ih hbody, List.length_cons]

/-- A line comment takes the newline behind it in; and what is still open stays open behind a newline. -/
theorem open_newline {s : Segment} (h : s.Leads []) (hopen : s.Open) :
    (s.form = .comment ∧ ∀ more, Leads ⟨.comment, s.runes ++ [nl]⟩ more) ∨
      ∃ f, f.incomplete = true ∧ s.form = .fault f ∧ Leads ⟨.fault f, s.runes ++ [nl]⟩ [] := by
  obtain ⟨form, runes⟩ := s
  obtain ⟨r, body, rfl, hfront⟩ := h
  obtain ⟨r', body', hrunes, hunclosed⟩ := hopen
  obtain ⟨rfl, rfl⟩ := List.cons.inj hrunes
  rw [List.append_nil] at hfront
  have hcovers := front_covers r body
  rw [hfront, List.take_length, List.drop_length] at hcovers
  cases hunclosed with
  | line hr hnext hbody =>
    refine .inl ⟨rfl, fun more => ⟨r, body ++ [nl], rfl, ?_⟩⟩
    cases body with
    | nil => cases hnext
    | cons b body =>
      rw [List.append_assoc, List.singleton_append,
        front_line hr (show (b :: body ++ nl :: more).head?.map Rune.code = some 0x2F from hnext),
        lineCommentLength_newline hnl hbody, List.length_append, List.length_singleton]
  | @fault f hf =>
    refine .inr ⟨f, hf, rfl, r, body ++ [nl], rfl, ?_⟩
    rw [List.append_nil]
    cases hcovers with
    | @comment a b body hopens hbody =>
      rw [front_block hopens.1
        (show (b :: body ++ [nl]).head?.map Rune.code = some 0x2A from congrArg some hopens.2)]
      simp only [List.cons_append, List.drop_succ_cons, List.drop_zero, blockCommentLength?_newline hnl hbody]
    | string hquote hbody =>
      rw [front_quote hquote, stringBody?_newline hnl hbody]
    | invalid => cases hf
    | unexpected => cases hf

/-! ## Lines -/

/-- The segments of a text that ends with a newline stay as they are when more text follows, and are tokens
and faults like those before the newline; or the last one is a comment or a string that is still open. -/
theorem cut_line (rs : List Rune) :
    (∃ line, (∀ more, cut (rs ++ nl :: more) = line ++ cut more) ∧
      (∀ pos, gather token? pos line = gather token? pos (cut rs)) ∧
      ∀ pos, gather fault? pos line = gather fault? pos (cut rs)) ∨
    ∃ done f c, f.incomplete = true ∧ cut (rs ++ [nl]) = done ++ [⟨.fault f, c⟩] ∧
      (∃ c', cut rs = done ++ [⟨.fault f, c'⟩]) ∧ ∀ more, ∃ tail, cut (rs ++ nl :: more) = done ++ tail := by
  have hblank : isBlank nl.code = true := by
    rw [hnl]
    decide +kernel
  have hseparates : separates nl.code = true := by
    rw [hnl]
    decide +kernel
  induction rs using segment_induction with
  | nil =>
    refine .inl ⟨[⟨.blank, [nl]⟩], fun more => ?_, fun _ => rfl, fun _ => rfl⟩
    rw [List.nil_append, cut_cons, front_blank hblank]
    rfl
  | cons s rest hleads ih =>
    by_cases hopen : rest = [] ∧ s.Open
    · obtain ⟨rfl, hopen⟩ := hopen
      rcases open_newline hnl hleads hopen with ⟨hform, hline⟩ | ⟨f, hf, hform, hfault⟩
      · refine .inl ⟨[⟨.comment, s.runes ++ [nl]⟩], fun more => ?_, fun pos => ?_, fun pos => ?_⟩
        · simpa using (hline more).cut_append
        · simp [gather, token?, hform]
        · simp [gather, fault?, hform]
      · refine .inr ⟨[], f, s.runes ++ [nl], hf, ?_, ⟨s.runes, ?_⟩, fun more => ⟨_, rfl⟩⟩
        · simpa using hfault.cut_append
        · rw [← hform]
          rfl
    · -- the first segment ends before the newline
      have hfirst : ∀ more, cut (s.runes ++ rest ++ nl :: more) = s :: cut (rest ++ nl :: more) := by
        intro more
        have hcurtails : Curtails (rest ++ []) (rest ++ nl :: more) := (Curtails.parts hseparates).append rest
        rw [List.append_nil] at hcurtails
        rw [List.append_assoc, ((hleads.curtails hcurtails).resolve_right hopen).cut_append]
      rcases ih with ⟨line, hline, htokens, hfaults⟩ | ⟨done, f, c, hf, hopen, ⟨c', hrest⟩, htail⟩
      · refine .inl ⟨s :: line, fun more => ?_, fun pos => ?_, fun pos => ?_⟩
        · rw [hfirst, hline, List.cons_append]
        · rw [gather, gather, htokens]
        · rw [gather, gather, hfaults]
      · refine .inr ⟨s :: done, f, c, hf, ?_, ⟨c', ?_⟩, fun more => ?_⟩
        · rw [hfirst, hopen, List.cons_append]
        · rw [hrest, List.cons_append]
        · obtain ⟨tail, htail⟩ := htail more
          exact ⟨tail, by rw [hfirst, htail, List.cons_append]⟩

end

end Treewalk.Segment

namespace Treewalk

/-! ## Moving down -/

/-- A position moved down by some bytes and lines. -/
def Position.down (offset lines : Nat) (p : Position) : Position :=
  ⟨offset + p.offset, lines + p.line, p.column⟩

/-- A diagnostic moved down by some lines. -/
def Diagnostic.down (lines : Nat) (d : Diagnostic) : Diagnostic :=
  { d with place := ⟨d.place.line + lines, d.place.column⟩ }

theorem Position.place_down (offset lines : Nat) (p : Position) :
    (p.down offset lines).place = ⟨p.place.line + lines, p.place.column⟩ := by
  simp [Position.place, Position.down, Int.add_comm]

theorem Position.down_zero : Position.down 0 0 = id := by
  funext p
  simp [Position.down]

theorem Diagnostic.down_zero : Diagnostic.down 0 = id := by
  funext d
  simp [Diagnostic.down]

theorem Position.after_down (offset lines : Nat) (rs : List Rune) : ∀ p : Position,
    (p.down offset lines).after rs = (p.after rs).down offset lines := by
  induction rs with
  | nil => exact fun _ => rfl
  | cons r rest ih =>
    intro p
    have hnext : (p.down offset lines).next r = (p.next r).down offset lines := by
      unfold Position.next Position.down
      split <;> simp [Nat.add_assoc]
    show ((p.down offset lines).next r).after rest = ((p.next r).after rest).down offset lines
    rw [hnext, ih]

namespace Segment

theorem gather_token?_down (offset lines : Nat) (ss : List Segment) : ∀ p : Position,
    gather token? (p.down offset lines) ss =
      (gather token? p ss).map (Token.move (Position.down offset lines)) := by
  induction ss with
  | nil => exact fun _ => rfl
  | cons s ss ih =>
    intro p
    have hhead : (token? (p.down offset lines) s).toList =
        (token? p s).toList.map (Token.move (Position.down offset lines)) := by
      unfold token?
      cases s.form <;> rfl
    rw [gather, gather, Position.after_down, ih, hhead, List.map_append]

theorem gather_fault?_down (offset lines : Nat) (ss : List Segment) : ∀ p : Position,
    gather fault? (p.down offset lines) ss = (gather fault? p ss).map (Diagnostic.down lines) := by
  induction ss with
  | nil => exact fun _ => rfl
  | cons s ss ih =>
    intro p
    have hhead : (fault? (p.down offset lines) s).toList =
        (fault? p s).toList.map (Diagnostic.down lines) := by
      unfold fault?
      cases s.form with
      | fault f =>
        simp only [Option.toList_some, List.map_cons, List.map_nil, Fault.diagnostic, Diagnostic.down,
          Position.place_down]
      | _ => rfl
    rw [gather, gather, Position.after_down, ih, hhead, List.map_append]

end Segment

/-! ## Sources -/

namespace Token

open Segment

/-- The newline as a rune. -/
def newlineRune : Rune := ⟨0x0A, [Bytes.newline]⟩

theorem decode_lines (s t : Bytes) :
    Rune.decode (s ++ Bytes.newline :: t) = Rune.decode s ++ newlineRune :: Rune.decode t := by
  rw [Rune.decode_append_ascii s t (by decide), Rune.decode_cons_ascii (by decide)]
  rfl

/-- Behind a source and a newline everything is moved down by the source. -/
theorem after_newline (source : Bytes) :
    Position.start.after (Rune.decode source ++ [newlineRune]) =
      Position.start.down (source.length + 1) (source.count Bytes.newline + 1) := by
  have hdecode : Rune.decode source ++ [newlineRune] = Rune.decode (source ++ [Bytes.newline]) := by
    rw [decode_lines, Rune.decode_nil]
  rw [hdecode, Position.after_decode, Position.behind,
    Bytes.lastLine_newline]
  simp [Position.down, Position.start, Nat.add_comm]

/-- A source without faults and another one on the lines behind it: the tokens of both and the faults of the
second one, all of the second one moved down. -/
theorem scan_lines {source : Bytes} (h : (scan source).faults = []) (more : Bytes) :
    ∃ ts e, (scan source).tokens = ts ++ [e] ∧
      (scan (source ++ Bytes.newline :: more)).tokens = ts ++ (scan more).tokens.map
        (Token.move (Position.down (source.length + 1) (source.count Bytes.newline + 1))) ∧
      (scan (source ++ Bytes.newline :: more)).faults =
        (scan more).faults.map (Diagnostic.down (source.count Bytes.newline + 1)) := by
  simp only [scan_eq, decode_lines] at h ⊢
  have hnl : newlineRune.code = 0x0A := rfl
  rcases cut_line hnl (Rune.decode source) with
    ⟨line, hline, htokens, hfaults⟩ | ⟨done, f, c, -, -, ⟨c', hopen⟩, -⟩
  · have hrunes : runesAll line = Rune.decode source ++ [newlineRune] := by
      rw [← runesAll_cut (Rune.decode source ++ [newlineRune]), hline, cut_nil, List.append_nil]
    have hend : Position.start.after (Rune.decode source ++ newlineRune :: Rune.decode more) =
        (Position.start.after (Rune.decode more)).down (source.length + 1)
          (source.count Bytes.newline + 1) := by
      rw [List.append_cons, Position.after_append, after_newline, Position.after_down]
    refine ⟨gather token? .start (cut (Rune.decode source)), _, rfl, ?_, ?_⟩
    · rw [hline, gather_append, htokens, hrunes, after_newline, gather_token?_down, hend, List.map_append,
        List.append_assoc]
      rfl
    · rw [hline, gather_append, hfaults, h, List.nil_append, hrunes, after_newline, gather_fault?_down]
  · rw [hopen, gather_append, List.append_eq_nil_iff] at h
    cases h.2

/-- A source that ends with a line and that more text makes right: its only fault is a comment or a string
that is still open at its end, and its tokens are the first ones of the whole. -/
theorem scan_continued {source more : Bytes}
    (h : (scan (source ++ Bytes.newline :: more)).faults = []) :
    (∀ d ∈ (scan (source ++ [Bytes.newline])).faults, d.incomplete = true) ∧
      ∃ ts e later, (scan (source ++ [Bytes.newline])).tokens = ts ++ [e] ∧
        (scan (source ++ Bytes.newline :: more)).tokens = ts ++ later := by
  simp only [scan_eq, decode_lines, Rune.decode_nil] at h ⊢
  have hnl : newlineRune.code = 0x0A := rfl
  rcases cut_line hnl (Rune.decode source) with
    ⟨line, hline, -, -⟩ | ⟨done, f, c, hf, hopen, -, htail⟩
  · rw [hline, gather_append, List.append_eq_nil_iff] at h
    simp only [hline, cut_nil, List.append_nil, h.1, gather_append, List.append_assoc]
    exact ⟨nofun, _, _, _, rfl, rfl⟩
  · obtain ⟨tail, htail⟩ := htail (Rune.decode more)
    rw [htail, gather_append, List.append_eq_nil_iff] at h
    have hopened : ∀ pos, gather token? pos [(⟨.fault f, c⟩ : Segment)] = [] := fun _ => rfl
    simp only [hopen, htail, gather_append, hopened, h.1, List.append_assoc, List.nil_append]
    refine ⟨fun d hd => ?_, _, _, _, rfl, rfl⟩
    obtain rfl := List.mem_singleton.1 hd
    exact hf

end Token

end Treewalk
