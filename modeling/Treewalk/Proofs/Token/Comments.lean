import Treewalk.Proofs.Token.Places
import Treewalk.Proofs.Token.Spelling

/-!
# Comments are transparent

**Comments as texts** (`Bytes.IsComment`). A comment starts with an opening mark. Its marks are read from left to
right, byte by byte: an opening mark adds one to the count of open comments and a closing mark takes one away, and
the count first comes back to zero at the end of the text.

**Main theorem** (`Token.scan_comments`). A comment with blanks around it may be put in front of any token of a
source: the tokens are the same, and so are the messages. And a source that starts with an opening mark starts
with a comment, the shortest of its prefixes that are comments; or no prefix is one, and then all of it is
one open comment, which is the only thing reported.

The skipper of the scanner calls itself for a comment inside a comment (`Segment.skipComment`). The count of the open
comments stands for the calls that have not returned (`Segment.blockCommentLength?_eq_resume?`).

The scanner reads runes and not bytes. No byte of a mark is part of a longer rune, so both find the same marks
(`afterComments?_opens`, `afterComments?_closes`, `afterComments?_other`). What the scanner takes for a
comment is one as a text (`afterComments?_closing`), and where it finds none there is none
(`afterComments?_eq_none`).
-/

namespace Treewalk

namespace Bytes

/-- Reads the marks of a text from left to right while comments are open, `n` of them to begin with, and gives
what is left when none is open any more. -/
def afterComments? : Nat → Bytes → Option Bytes
  | 0, s => some s
  | _ + 1, [] => none
  | _ + 1, [_] => none
  | n + 1, a :: b :: s =>
    if a = 0x2F ∧ b = 0x2A then afterComments? (n + 2) s
    else if a = 0x2A ∧ b = 0x2F then afterComments? n s
    else afterComments? (n + 1) (b :: s)

/-- A comment with all the comments in it, and nothing behind it. -/
def IsComment (c : Bytes) : Prop := ∃ body, c = 0x2F :: 0x2A :: body ∧ afterComments? 1 body = some []

/-- What stands behind the comments is left as it is. -/
theorem afterComments?_append {n : Nat} {s left : Bytes} (h : afterComments? n s = some left) (t : Bytes) :
    afterComments? n (s ++ t) = some (left ++ t) := by
  fun_induction afterComments? n s with
  | case1 s =>
    obtain rfl := Option.some.inj h
    rw [afterComments?]
  | case2 => cases h
  | case3 => cases h
  | case4 n a b s hopens ih =>
    rw [List.cons_append, List.cons_append, afterComments?, if_pos hopens]
    exact ih h
  | case5 n a b s hopens hcloses ih =>
    rw [List.cons_append, List.cons_append, afterComments?, if_neg hopens, if_pos hcloses]
    exact ih h
  | case6 n a b s hopens hcloses ih =>
    rw [List.cons_append, List.cons_append, afterComments?, if_neg hopens, if_neg hcloses]
    exact ih h

/-- A byte that starts no mark is passed. -/
theorem afterComments?_pass (n : Nat) {a : UInt8} {s : Bytes}
    (hopens : ∀ t, a :: s ≠ 0x2F :: 0x2A :: t) (hcloses : ∀ t, a :: s ≠ 0x2A :: 0x2F :: t) :
    afterComments? (n + 1) (a :: s) = afterComments? (n + 1) s := by
  cases s with
  | nil => rfl
  | cons b s =>
    rw [afterComments?, if_neg, if_neg]
    · rintro ⟨rfl, rfl⟩
      exact hcloses s rfl
    · rintro ⟨rfl, rfl⟩
      exact hopens s rfl

/-- A comment is the only prefix of a text that is one. -/
theorem IsComment.eq_of_prefix {c p s : Bytes} (hc : c.IsComment) (hp : p.IsComment) (hcs : c <+: s)
    (hps : p <+: s) : p = c := by
  obtain ⟨body, rfl, hbody⟩ := hc
  obtain ⟨body', rfl, hbody'⟩ := hp
  obtain ⟨t, rfl⟩ := hcs
  obtain ⟨u, hu⟩ := hps
  have hsame : body' ++ u = body ++ t := by simpa using hu
  have hrest := afterComments?_append hbody' u
  rw [hsame, afterComments?_append hbody t] at hrest
  obtain rfl : t = u := by simpa using hrest
  rw [List.append_cancel_right hsame]

end Bytes

/-! ## Runes -/

namespace Segment

open Bytes

/-- The byte that an ASCII text starts with is its first rune. -/
theorem code_of_bytes {r : Rune} (hr : r.Genuine) {rs : List Rune} {b : UInt8} {s : Bytes} (hb : b < 0x80)
    (h : Rune.bytes (r :: rs) = b :: s) : r.code = b.toNat := by
  rw [Rune.bytes_cons] at h
  rcases hr.raw_cases with ⟨hlow, hraw⟩ | ⟨-, hne, hraw⟩
  · rw [hraw, List.singleton_append] at h
    rw [← (List.cons.inj h).1]
    exact (Nat.mod_eq_of_lt (by omega)).symm
  · obtain ⟨a, more, hmore⟩ := List.exists_cons_of_ne_nil hne
    rw [hmore, List.cons_append] at h
    exact absurd (hraw b (by rw [hmore, (List.cons.inj h).1]; exact List.mem_cons_self)) (UInt8.not_le.2 hb)

/-- Bytes outside ASCII are passed. -/
theorem afterComments?_wide (n : Nat) {w : Bytes} (hw : ∀ b ∈ w, 0x80 ≤ b) (s : Bytes) :
    afterComments? (n + 1) (w ++ s) = afterComments? (n + 1) s := by
  induction w with
  | nil => rfl
  | cons b w ih =>
    obtain ⟨hb, hw⟩ := List.forall_mem_cons.1 hw
    rw [List.cons_append, afterComments?_pass, ih hw]
    · intro t h
      rw [(List.cons.inj h).1] at hb
      exact absurd hb (by decide)
    · intro t h
      rw [(List.cons.inj h).1] at hb
      exact absurd hb (by decide)

section

variable {a b : Rune} (ha : a.Genuine) (hb : b.Genuine)

include ha hb

theorem afterComments?_opens (n : Nat) (h : Opens a b) (rs : List Rune) :
    afterComments? (n + 1) (Rune.bytes (a :: b :: rs)) = afterComments? (n + 2) (Rune.bytes rs) := by
  have hraw := ha.raw_eq (by rw [h.1]; decide)
  have hraw' := hb.raw_eq (by rw [h.2]; decide)
  rw [Rune.bytes_cons, Rune.bytes_cons, hraw, hraw', h.1, h.2]
  rfl

theorem afterComments?_closes (n : Nat) (h : Closes a b) (rs : List Rune) :
    afterComments? (n + 1) (Rune.bytes (a :: b :: rs)) = afterComments? n (Rune.bytes rs) := by
  have hraw := ha.raw_eq (by rw [h.1]; decide)
  have hraw' := hb.raw_eq (by rw [h.2]; decide)
  rw [Rune.bytes_cons, Rune.bytes_cons, hraw, hraw', h.1, h.2]
  rfl

/-- A rune that starts no mark is passed, however long it is. -/
theorem afterComments?_other (n : Nat) (ho : ¬ Opens a b) (hc : ¬ Closes a b) (rs : List Rune) :
    afterComments? (n + 1) (Rune.bytes (a :: b :: rs)) = afterComments? (n + 1) (Rune.bytes (b :: rs)) := by
  rw [Rune.bytes_cons a]
  rcases ha.raw_cases with ⟨hlow, hraw⟩ | ⟨-, -, hraw⟩
  · have hcode : a.code.toUInt8.toNat = a.code := Nat.mod_eq_of_lt (by omega)
    have hmarks : ∀ (x y : UInt8) (t : Bytes), y < 0x80 → a.code.toUInt8 :: Rune.bytes (b :: rs) = x :: y :: t →
        a.code = x.toNat ∧ b.code = y.toNat := by
      intro x y t hy h
      obtain ⟨hx, ht⟩ := List.cons.inj h
      exact ⟨by rw [← hx, hcode], code_of_bytes hb hy ht⟩
    rw [hraw, List.singleton_append]
    exact afterComments?_pass n (fun t h => ho (hmarks _ _ t (by decide) h))
      fun t h => hc (hmarks _ _ t (by decide) h)
  · exact afterComments?_wide n hraw _

end

/-- A single rune closes nothing. -/
theorem afterComments?_one (n : Nat) {a : Rune} (ha : a.Genuine) :
    afterComments? (n + 1) (Rune.bytes [a]) = none := by
  rw [Rune.bytes_cons, Rune.bytes_nil]
  rcases ha.raw_cases with ⟨-, hraw⟩ | ⟨-, -, hraw⟩
  · rw [hraw]
    rfl
  · rw [afterComments?_wide n hraw]
    rfl

/-- Comments that the runes close are closed by their bytes. -/
theorem afterComments?_closing {n : Nat} {c : List Rune} (h : Closing n c) (hc : ∀ r ∈ c, r.Genuine)
    (rest : List Rune) : afterComments? (n + 1) (Rune.bytes (c ++ rest)) = some (Rune.bytes rest) := by
  induction h with
  | @last a b h =>
    have hzero : ∀ s : Bytes, afterComments? 0 s = some s := fun s => by rw [afterComments?]
    rw [← hzero]
    exact afterComments?_closes (hc a (by simp)) (hc b (by simp)) 0 h rest
  | @close a b depth rs h _ ih =>
    rw [← ih fun r hr => hc r (by simp [hr])]
    exact afterComments?_closes (hc a (by simp)) (hc b (by simp)) _ h (rs ++ rest)
  | @opening a b depth rs h _ ih =>
    rw [← ih fun r hr => hc r (by simp [hr])]
    exact afterComments?_opens (hc a (by simp)) (hc b (by simp)) _ h (rs ++ rest)
  | @other a b depth rs ho hcl _ ih =>
    rw [← ih fun r hr => hc r (List.mem_cons_of_mem _ hr)]
    exact afterComments?_other (hc a (by simp)) (hc b (by simp)) _ ho hcl (rs ++ rest)

/-- Comments that the runes leave open are left open by their bytes. -/
theorem afterComments?_eq_none {n taken : Nat} {rs : List Rune} (h : blockCommentLength? n taken rs = none)
    (hrs : ∀ r ∈ rs, r.Genuine) : afterComments? (n + 1) (Rune.bytes rs) = none := by
  fun_induction blockCommentLength? n taken rs with
  | case1 => rfl
  | case2 depth taken r => exact afterComments?_one depth (hrs r List.mem_cons_self)
  | case3 => cases h
  | case4 taken a b rest hcloses depth ih =>
    rw [← ih h fun r hr => hrs r (by simp [hr])]
    exact afterComments?_closes (hrs a (by simp)) (hrs b (by simp)) _ (by simpa [Closes] using hcloses) rest
  | case5 depth taken a b rest _ hopens ih =>
    rw [← ih h fun r hr => hrs r (by simp [hr])]
    exact afterComments?_opens (hrs a (by simp)) (hrs b (by simp)) _ (by simpa [Opens] using hopens) rest
  | case6 depth taken a b rest hcloses hopens ih =>
    rw [← ih h fun r hr => hrs r (List.mem_cons_of_mem _ hr)]
    exact afterComments?_other (hrs a (by simp)) (hrs b (by simp)) _ (by simpa [Opens] using hopens)
      (by simpa [Closes] using hcloses) rest

/-! ## The skipper -/

/-- Consumes a comment behind its opening mark, a comment inside it by a call of its own: whether the closing mark
has been found, and what is left. -/
def skipComment (rs : List Rune) : Bool × { left : List Rune // left <:+ rs } :=
  match rs with
  | [] => (false, ⟨[], List.suffix_refl _⟩)
  | [_] => (false, ⟨[], List.nil_suffix⟩)
  | a :: b :: rest =>
    if a.code = 0x2A ∧ b.code = 0x2F then (true, ⟨rest, List.suffix_append [a, b] rest⟩)
    else if a.code = 0x2F ∧ b.code = 0x2A then
      match skipComment rest with
      | (false, ⟨left, hleft⟩) => (false, ⟨left, hleft.trans (List.suffix_append [a, b] rest)⟩)
      | (true, ⟨left, hleft⟩) =>
        match skipComment left with
        | (found, ⟨later, hlater⟩) =>
          (found, ⟨later, hlater.trans (hleft.trans (List.suffix_append [a, b] rest))⟩)
    else
      match skipComment (b :: rest) with
      | (found, ⟨later, hlater⟩) => (found, ⟨later, hlater.trans (List.suffix_cons a _)⟩)
termination_by rs.length
decreasing_by
  · exact Nat.lt_add_of_pos_right (Nat.zero_lt_two)
  · exact Nat.lt_of_le_of_lt hleft.length_le (Nat.lt_add_of_pos_right (Nat.zero_lt_two))
  · exact Nat.lt_succ_self _

/-- What a skipper that was called with `depth` comments open around it comes to, once the comment it was called for
is skipped: the runes passed until no comment is open. -/
def resume? (depth taken : Nat) (rs : List Rune) : Bool × { left : List Rune // left <:+ rs } → Option Nat
  | (false, _) => none
  | (true, left) =>
    match depth with
    | 0 => some (taken + (rs.length - left.1.length))
    | depth + 1 => blockCommentLength? depth (taken + (rs.length - left.1.length)) left

/-- The count of the open comments stands for the calls that have not returned. -/
theorem blockCommentLength?_eq_resume? (rs : List Rune) : ∀ depth taken : Nat,
    blockCommentLength? depth taken rs = resume? depth taken rs (skipComment rs) := by
  fun_induction skipComment rs with
  | case1 => exact fun _ _ => rfl
  | case2 => exact fun _ _ => rfl
  | case3 a b rest hcloses =>
    intro depth taken
    have htwo : (a :: b :: rest).length - rest.length = 2 := Nat.add_sub_cancel_left rest.length 2
    simp only [resume?, htwo]
    cases depth <;> simp [blockCommentLength?, hcloses]
  | case4 a b rest hcloses hopens left hleft hskip ih =>
    intro depth taken
    simp [blockCommentLength?, resume?, hopens, ih, hskip]
  | case5 a b rest hcloses hopens left hleft hskip found later hlater hskip' ih ih' =>
    intro depth taken
    have hpassed : taken + 2 + (rest.length - left.length) + (left.length - later.length) =
        taken + ((a :: b :: rest).length - later.length) := by
      have := hleft.length_le
      have := hlater.length_le
      simp only [List.length_cons]
      omega
    have hbehind : blockCommentLength? depth taken (a :: b :: rest) =
        blockCommentLength? depth (taken + 2 + (rest.length - left.length)) left := by
      simp [blockCommentLength?, hopens, ih, hskip, resume?]
    rw [hbehind, ih', hskip']
    cases found with
    | false => rfl
    | true => simp only [resume?, hpassed]
  | case6 a b rest hcloses hopens found later hlater hskip ih =>
    intro depth taken
    have hpassed : taken + 1 + ((b :: rest).length - later.length) =
        taken + ((a :: b :: rest).length - later.length) := by
      have := hlater.length_le
      simp only [List.length_cons] at this ⊢
      omega
    have hbehind : blockCommentLength? depth taken (a :: b :: rest) =
        blockCommentLength? depth (taken + 1) (b :: rest) := by
      rw [blockCommentLength?.eq_def]
      simp [hcloses, hopens]
    rw [hbehind, ih, hskip]
    cases found with
    | false => rfl
    | true => simp only [resume?, hpassed]

/-- A skipper that finds no closing mark consumes everything. -/
theorem skipComment_left (rs : List Rune) (h : (skipComment rs).1 = false) : (skipComment rs).2.1 = [] := by
  fun_induction skipComment rs with
  | case1 => rfl
  | case2 => rfl
  | case3 => cases h
  | case4 a b rest hcloses hopens left hleft hskip ih =>
    rw [hskip] at ih
    exact ih rfl
  | case5 a b rest hcloses hopens left hleft hskip found later hlater hskip' ih ih' =>
    rw [hskip'] at ih'
    exact ih' h
  | case6 a b rest hcloses hopens found later hlater hskip ih =>
    rw [hskip] at ih
    exact ih h

/-- The skipper consumes as many runes as are counted, or all of them. -/
theorem skipComment_eq (rs : List Rune) : (skipComment rs).map id Subtype.val =
    match blockCommentLength? 0 0 rs with
    | some n => (true, rs.drop n)
    | none => (false, []) := by
  have hleft := skipComment_left rs
  rw [blockCommentLength?_eq_resume?]
  generalize skipComment rs = result at hleft
  obtain ⟨found, left, hsuffix⟩ := result
  cases found with
  | false => exact Prod.ext rfl (hleft rfl)
  | true =>
    obtain ⟨passed, rfl⟩ := hsuffix
    simp [resume?]

/-! ## Block comments -/

/-- The opening mark as runes. -/
def opening : List Rune := [⟨0x2F, [0x2F]⟩, ⟨0x2A, [0x2A]⟩]

theorem decode_opening (s : Bytes) : Rune.decode (0x2F :: 0x2A :: s) = opening ++ Rune.decode s := by
  rw [Rune.decode_cons_ascii (by decide), Rune.decode_cons_ascii (by decide)]
  rfl

theorem front_opening (body : List Rune) : front ⟨0x2F, [0x2F]⟩ (⟨0x2A, [0x2A]⟩ :: body) =
    match blockCommentLength? 0 0 body with
    | some n => (.comment, n + 1)
    | none => (.fault .unterminatedComment, body.length + 1) := front_block rfl rfl

/-- A source that starts with an opening mark starts with a comment, which the skipper consumes; or no prefix of it
is one, and it is all taken in. -/
theorem cut_opening (s : Bytes) :
    (∃ c rest, 0x2F :: 0x2A :: s = c ++ rest ∧ IsComment c ∧
      (skipComment (Rune.decode s)).map id Subtype.val = (true, Rune.decode rest) ∧
      cut (Rune.decode (0x2F :: 0x2A :: s)) = ⟨.comment, Rune.decode c⟩ :: cut (Rune.decode rest)) ∨
    (∀ p, p <+: 0x2F :: 0x2A :: s → ¬ IsComment p) ∧
      (skipComment (Rune.decode s)).map id Subtype.val = (false, []) ∧
      cut (Rune.decode (0x2F :: 0x2A :: s)) =
        [⟨.fault .unterminatedComment, Rune.decode (0x2F :: 0x2A :: s)⟩] := by
  have hgenuine : ∀ r ∈ Rune.decode s, r.Genuine := fun _ => Rune.genuine_of_mem_decode
  have hfront := front_opening (Rune.decode s)
  have hskip := skipComment_eq (Rune.decode s)
  cases hbody : blockCommentLength? 0 0 (Rune.decode s) with
  | some n =>
    rw [hbody] at hfront hskip
    obtain ⟨k, hk, -, hclosing⟩ := closing_of_blockCommentLength? _ _ _ hbody
    rw [Nat.zero_add] at hk
    subst hk
    have hparts := (List.take_append_drop n (Rune.decode s)).symm
    obtain ⟨htake, hdrop⟩ := Rune.decode_of_append hparts
    have hs : s = Rune.bytes ((Rune.decode s).take n) ++ Rune.bytes ((Rune.decode s).drop n) := by
      rw [← Rune.bytes_append, List.take_append_drop, Rune.bytes_decode]
    refine .inl ⟨0x2F :: 0x2A :: Rune.bytes ((Rune.decode s).take n), Rune.bytes ((Rune.decode s).drop n),
      by rw [List.cons_append, List.cons_append, ← hs], ⟨_, rfl, ?_⟩, ?_, ?_⟩
    · have hcloses := afterComments?_closing hclosing (fun r hr => hgenuine r (List.mem_of_mem_take hr)) []
      rwa [List.append_nil] at hcloses
    · rw [hskip, hdrop]
    · rw [decode_opening, decode_opening, htake, hdrop]
      show cut (_ :: _ :: Rune.decode s) = _
      rw [cut_cons, hfront]
      rfl
  | none =>
    rw [hbody] at hfront hskip
    refine .inr ⟨?_, hskip, ?_⟩
    · rintro p ⟨t, ht⟩ ⟨body, rfl, hp⟩
      have hs : s = body ++ t := by simpa using ht.symm
      have hopen := afterComments?_eq_none hbody hgenuine
      rw [Rune.bytes_decode, hs, afterComments?_append hp t] at hopen
      cases hopen
    · rw [decode_opening]
      show cut (_ :: _ :: Rune.decode s) = _
      rw [cut_cons, hfront]
      simp [opening]

/-- A comment in front of a blank is a segment of its own. -/
theorem cut_comment {c : Bytes} (hc : IsComment c) (rest : List Rune) :
    cut (Rune.decode c ++ blankRune :: rest) = ⟨.comment, Rune.decode c⟩ :: single :: cut rest := by
  have hwhole := hc
  obtain ⟨body, rfl, -⟩ := hc
  have halone : cut (Rune.decode (0x2F :: 0x2A :: body)) = [⟨.comment, Rune.decode (0x2F :: 0x2A :: body)⟩] := by
    rcases cut_opening body with ⟨p, left, hleft, hp, -, hcut⟩ | ⟨hnone, -⟩
    · obtain rfl := hwhole.eq_of_prefix hp (List.prefix_refl _) ⟨left, hleft.symm⟩
      rw [List.self_eq_append_right.1 hleft] at hcut
      exact hcut
    · exact absurd hwhole (hnone _ (List.prefix_refl _))
  obtain ⟨old, -, hold, hleads⟩ := leads_of_cut halone
  have hblank : Leads ⟨.comment, Rune.decode (0x2F :: 0x2A :: body)⟩ (blankRune :: rest) := by
    rcases hleads.curtails (curtails_blank old rest) with hsame | ⟨-, r, more, hrunes, hopen⟩
    · exact hsame
    · -- only a line comment is prolonged, and this one starts with the other mark
      rw [decode_opening] at hrunes
      obtain ⟨-, rfl⟩ := List.cons.inj hrunes
      cases hopen with
      | line _ hnext => cases hnext
  rw [hblank.cut_append, cut_blank]

end Segment

namespace Token

open Segment

/-- A comment with blanks around it, put in front of a token of a source, changes neither the tokens nor the
messages. A source that starts with an opening mark starts with the shortest of its prefixes that are comments,
the skipper ends behind it, and there the source is cut; or no prefix is a comment, the skipper consumes
everything, and the only thing found is that the comment is still open. -/
theorem scan_comments :
    (∀ source : Bytes, ∀ t ∈ (scan source).tokens, t.kind ≠ .eof → ∀ c : Bytes, c.IsComment →
      (scan (source.take t.pos.offset ++ 0x20 :: (c ++ 0x20 :: source.drop t.pos.offset))).tokens.map
          (move nowhere) = (scan source).tokens.map (move nowhere) ∧
        (scan (source.take t.pos.offset ++ 0x20 :: (c ++ 0x20 :: source.drop t.pos.offset))).faults.map
          Diagnostic.message = (scan source).faults.map Diagnostic.message) ∧
    ∀ source : Bytes, [0x2F, 0x2A] <+: source →
      (∃ c rest, source = c ++ rest ∧ c.IsComment ∧
        (∀ p : Bytes, p <+: source → p.IsComment → c.length ≤ p.length) ∧
        (skipComment ((Rune.decode source).drop 2)).map id Subtype.val = (true, Rune.decode rest) ∧
        cut (Rune.decode source) = ⟨.comment, Rune.decode c⟩ :: cut (Rune.decode rest)) ∨
      (∀ p : Bytes, p <+: source → ¬ p.IsComment) ∧
        (skipComment ((Rune.decode source).drop 2)).map id Subtype.val = (false, []) ∧
        scan source =
          { tokens := [⟨.eof, [], .none, .behind source⟩]
            faults := [{ kind := .lexical, place := ⟨1, 1⟩, lexeme := text "/*",
                         message := text "unterminated block comment", incomplete := true }] } := by
  refine ⟨fun source t ht hkind c hc => ?_, fun source hopens => ?_⟩
  · obtain ⟨done, runes, rest, h⟩ := place_of_mem_scan ht hkind
    have hne : runes ++ rest ≠ [] := by
      obtain ⟨r, body, rfl, -⟩ := h.leads
      exact List.cons_ne_nil _ _
    have hcut : cut (Rune.decode (source.take t.pos.offset ++
        0x20 :: (c ++ 0x20 :: source.drop t.pos.offset))) =
          done ++ single :: ⟨.comment, Rune.decode c⟩ :: single :: cut (runes ++ rest) := by
      rw [Rune.decode_append_blank, Rune.decode_append_blank, h.take_offset, h.drop_offset, h.decode_before,
        h.decode_behind, cut_before h.cut hne (curtails_blank _ _), cut_blank, cut_comment hc]
    rw [scan_nowhere, scan_messages, scan_nowhere, scan_messages, hcut, h.decode, h.cut, tokens_append,
      tokens_append, messages_append, messages_append]
    exact ⟨rfl, rfl⟩
  · obtain ⟨body, rfl⟩ := hopens
    have hbehind : (Rune.decode ([0x2F, 0x2A] ++ body)).drop 2 = Rune.decode body :=
      congrArg (List.drop 2) (decode_opening body)
    rw [hbehind]
    rcases cut_opening body with ⟨c, rest, hsource, hc, hskip, hcut⟩ | ⟨hnone, hskip, hcut⟩
    · refine .inl ⟨c, rest, hsource, hc, fun p hp hcomment => ?_, hskip, hcut⟩
      exact Nat.le_of_eq (congrArg List.length (hc.eq_of_prefix hcomment ⟨rest, hsource.symm⟩ hp)).symm
    · refine .inr ⟨hnone, hskip, ?_⟩
      show scan (0x2F :: 0x2A :: body) = _
      rw [scan_eq, hcut, Position.after_decode]
      rfl

/-- A comment with a quote and a comment in it may stand between a name and a slash; and of a source that starts
with such a comment the comment is cut off. -/
theorem scan_comments_nested :
    (∃ t ∈ (scan (text "a/b")).tokens, t.kind ≠ .eof ∧ (text "/*/*\"*/*/").IsComment ∧
      (scan (text "a /*/*\"*/*/ /b")).tokens.map (move nowhere) = (scan (text "a/b")).tokens.map (move nowhere)) ∧
    [0x2F, 0x2A] <+: text "/*/**/*//b" ∧
      ∃ c rest, text "/*/**/*//b" = c ++ rest ∧ c.IsComment ∧
        cut (Rune.decode (text "/*/**/*//b")) = ⟨.comment, Rune.decode c⟩ :: cut (Rune.decode rest) := by
  have hquote : (text "/*/*\"*/*/").IsComment := ⟨_, rfl, by decide +kernel⟩
  have hnested : (text "/*/**/*/").IsComment := ⟨_, rfl, by decide +kernel⟩
  have hopens : [0x2F, 0x2A] <+: text "/*/**/*//b" := by decide +kernel
  have hmem : (Kind.slash, 1) ∈ (scan (text "a/b")).tokens.map fun t => (t.kind, t.pos.offset) := by
    decide +kernel
  obtain ⟨t, ht, hsees⟩ := List.mem_map.1 hmem
  obtain ⟨hkind, hoffset⟩ := Prod.mk.inj hsees
  have heof : t.kind ≠ .eof := by simp [hkind]
  refine ⟨⟨t, ht, heof, hquote, ?_⟩, hopens, ?_⟩
  · have hinserted := (scan_comments.1 _ t ht heof _ hquote).1
    rw [hoffset] at hinserted
    exact hinserted
  · rcases scan_comments.2 _ hopens with ⟨c, rest, hsource, hc, -, -, hcut⟩ | ⟨hnone, -⟩
    · exact ⟨c, rest, hsource, hc, hcut⟩
    · exact absurd hnested (hnone _ (by decide +kernel))

end Token

end Treewalk
