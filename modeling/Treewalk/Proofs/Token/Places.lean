import Treewalk.Proofs.Token.Boundary
import Treewalk.Proofs.Token.Tiling
import Treewalk.Proofs.Tree.Map

/-!
# Tokens in their places

What scanning says of a source apart from positions is what its segments say one by one
(`Token.scan_nowhere`, `Token.scan_messages`). Each token has its place between segments
(`Token.place_of_mem_scan`), and it would be the same token in any other place where nothing behind it goes on
with it: alone (`Token.scan_lexeme`), and before a blank.
-/

namespace Treewalk

/-! ## Blanks -/

/-- The blank as a rune. -/
def blankRune : Rune := ⟨0x20, [0x20]⟩

theorem Rune.decode_append_blank (s t : Bytes) :
    decode (s ++ 0x20 :: t) = decode s ++ blankRune :: decode t := by
  rw [decode_append_ascii s t (by decide), decode_cons_ascii (by decide)]
  rfl

/-- What is decoded on both sides of a blank is decoded as a whole. -/
theorem Rune.decode_bytes_blank {rs ts : List Rune} (hrs : decode (bytes rs) = rs)
    (hts : decode (bytes ts) = ts) :
    decode (bytes (rs ++ blankRune :: ts)) = rs ++ blankRune :: ts := by
  rw [bytes_append, bytes_cons]
  show decode (bytes rs ++ 0x20 :: bytes ts) = _
  rw [decode_append_blank, hrs, hts]

namespace Segment

/-- A single blank. -/
def single : Segment := ⟨.blank, [blankRune]⟩

theorem cut_blank (rest : List Rune) : cut (blankRune :: rest) = single :: cut rest := by
  rw [cut_cons, front_blank (by decide +kernel)]
  rfl

theorem curtails_blank (rs rest : List Rune) : Curtails rs (blankRune :: rest) := .parts (by decide +kernel)

/-! ## Segments apart from positions -/

/-- The tokens among segments, wherever they stand. -/
def tokens (ss : List Segment) : List Token := ss.filterMap (token? {})

/-- The messages about segments. -/
def messages (ss : List Segment) : List Bytes := ss.filterMap fun s => (fault? {} s).map Diagnostic.message

theorem tokens_append (ss ts : List Segment) : tokens (ss ++ ts) = tokens ss ++ tokens ts :=
  List.filterMap_append

theorem messages_append (ss ts : List Segment) : messages (ss ++ ts) = messages ss ++ messages ts :=
  List.filterMap_append

/-- What is found in segments, but for what depends on where they stand. -/
theorem map_gather {α β : Type} {pick : Position → Segment → Option α} {f : α → β}
    (h : ∀ pos s, (pick pos s).map f = (pick {} s).map f) (ss : List Segment) :
    ∀ pos, (gather pick pos ss).map f = ss.filterMap fun s => (pick {} s).map f := by
  induction ss with
  | nil => exact fun _ => rfl
  | cons s ss ih =>
    intro pos
    have hhead : (pick pos s).toList.map f = ((pick {} s).map f).toList := by
      rw [← h pos s]
      cases pick pos s <;> rfl
    rw [gather, List.map_append, ih, hhead, List.filterMap_cons]
    cases (pick {} s).map f <;> rfl

theorem gather_token?_nowhere (pos : Position) (ss : List Segment) :
    (gather token? pos ss).map (Token.move nowhere) = tokens ss := by
  rw [map_gather]
  · refine List.filterMap_congr fun s _ => ?_
    unfold token?
    cases s.form <;> rfl
  · intro pos s
    unfold token?
    cases s.form <;> rfl

theorem gather_fault?_message (pos : Position) (ss : List Segment) :
    (gather fault? pos ss).map Diagnostic.message = messages ss := by
  refine map_gather (fun pos s => ?_) ss pos
  unfold fault?
  cases s.form <;> rfl

/-- A token among segments has segments before it and segments behind it. -/
theorem mem_gather_token? {ss : List Segment} {t : Token} {pos : Position} (ht : t ∈ gather token? pos ss) :
    ∃ done runes later, ss = done ++ ⟨.token t.kind t.literal, runes⟩ :: later ∧
      t.lexeme = Rune.bytes runes ∧ t.pos = pos.after (runesAll done) := by
  obtain ⟨done, ⟨form, runes⟩, later, rfl, hpick⟩ := mem_gather ht
  cases form with
  | token kind literal =>
    obtain rfl : ⟨kind, Rune.bytes runes, literal, pos.after (runesAll done)⟩ = t := Option.some.inj hpick
    exact ⟨done, runes, later, rfl, rfl, rfl⟩
  | blank => cases hpick
  | comment => cases hpick
  | fault => cases hpick

end Segment

namespace Token

open Segment

theorem scan_nowhere (source : Bytes) : (scan source).tokens.map (move nowhere) =
    tokens (cut (Rune.decode source)) ++ [⟨.eof, [], .none, {}⟩] := by
  rw [scan_eq, List.map_append, gather_token?_nowhere]
  rfl

theorem scan_messages (source : Bytes) :
    (scan source).faults.map Diagnostic.message = messages (cut (Rune.decode source)) := by
  rw [scan_eq, gather_fault?_message]

theorem faults_eq_nil_of_messages {source : Bytes} (h : messages (cut (Rune.decode source)) = []) :
    (scan source).faults = [] := by
  rw [← scan_messages, List.map_eq_nil_iff] at h
  exact h

/-! ## Places -/

/-- Where a token stands in a source: behind the segments `done`, spelled by `runes` and in front of `rest`. -/
structure Place (source : Bytes) (t : Token) (done : List Segment) (runes rest : List Rune) : Prop where
  lexeme : t.lexeme = Rune.bytes runes
  pos : t.pos = .behind (Rune.bytes (runesAll done))
  decode : Rune.decode source = runesAll done ++ (runes ++ rest)
  cut : Segment.cut (runesAll done ++ (runes ++ rest)) = done ++ Segment.cut (runes ++ rest)
  leads : Leads ⟨.token t.kind t.literal, runes⟩ rest

/-- Every token but the end of input has its place. -/
theorem place_of_mem_scan {source : Bytes} {t : Token} (ht : t ∈ (scan source).tokens)
    (hkind : t.kind ≠ .eof) : ∃ done runes rest, Place source t done runes rest := by
  rw [scan_eq, List.mem_append, List.mem_singleton] at ht
  rcases ht with ht | rfl
  · obtain ⟨done, runes, later, hcut, hlexeme, hpos⟩ := mem_gather_token? ht
    obtain ⟨hsource, hlater⟩ := cut_behind hcut
    obtain ⟨rest, hrest, -, hleads⟩ := leads_of_cut hlater
    rw [hrest] at hsource
    have hbefore : Rune.decode (Rune.bytes (runesAll done)) = runesAll done := (Rune.decode_of_append hsource).1
    refine ⟨done, runes, rest, hlexeme, ?_, hsource, ?_, hleads⟩
    · rw [hpos, Position.after_start_eq_behind hbefore]
    · rw [← hsource, hcut, ← hrest, hlater]
  · exact absurd rfl hkind

namespace Place

variable {source : Bytes} {t : Token} {done : List Segment} {runes rest : List Rune}

theorem offset (h : Place source t done runes rest) :
    t.pos.offset = (Rune.bytes (runesAll done)).length := by
  rw [h.pos]
  rfl

theorem source_eq (h : Place source t done runes rest) :
    source = Rune.bytes (runesAll done) ++ (t.lexeme ++ Rune.bytes rest) := by
  rw [h.lexeme, ← Rune.bytes_append, ← Rune.bytes_append, ← h.decode, Rune.bytes_decode]

theorem take_offset (h : Place source t done runes rest) :
    source.take t.pos.offset = Rune.bytes (runesAll done) := by
  rw [h.source_eq, h.offset, List.take_left]

theorem drop_offset (h : Place source t done runes rest) :
    source.drop t.pos.offset = t.lexeme ++ Rune.bytes rest := by
  rw [h.source_eq, h.offset, List.drop_left]

theorem decode_before (h : Place source t done runes rest) :
    Rune.decode (Rune.bytes (runesAll done)) = runesAll done :=
  (Rune.decode_of_append h.decode).1

theorem decode_behind (h : Place source t done runes rest) :
    Rune.decode (t.lexeme ++ Rune.bytes rest) = runes ++ rest := by
  rw [h.lexeme, ← Rune.bytes_append]
  exact (Rune.decode_of_append h.decode).2

theorem decode_lexeme (h : Place source t done runes rest) : Rune.decode t.lexeme = runes := by
  have hbehind := h.decode_behind
  rw [h.lexeme] at hbehind ⊢
  exact (Rune.decode_of_append hbehind).1

theorem lexeme_ne_nil (h : Place source t done runes rest) : t.lexeme ≠ [] := by
  intro hnil
  have hrunes := h.decode_lexeme
  obtain ⟨r, body, rfl, -⟩ := h.leads
  rw [hnil] at hrunes
  cases hrunes

end Place

/-- A text that is one token by itself. -/
def Alone (s : Bytes) : Prop :=
  ∃ t e, scan s = ⟨[t, e], []⟩ ∧ t.lexeme = s ∧ t.kind ≠ .eof ∧ e.kind = .eof

/-- What a token spells is this token again when nothing else is there. -/
theorem scan_lexeme {source : Bytes} {t : Token} (ht : t ∈ (scan source).tokens) (hkind : t.kind ≠ .eof) :
    scan t.lexeme =
      ⟨[⟨t.kind, t.lexeme, t.literal, .start⟩, ⟨.eof, [], .none, .behind t.lexeme⟩], []⟩ := by
  obtain ⟨done, runes, rest, h⟩ := place_of_mem_scan ht hkind
  have hcut : Segment.cut (Rune.decode t.lexeme) = [⟨.token t.kind t.literal, runes⟩] := by
    rw [h.decode_lexeme]
    have halone := (h.leads.curtails_token .ends rfl).cut_append
    rwa [List.append_nil] at halone
  rw [scan_eq, hcut, Position.after_decode]
  simp [gather, token?, fault?, h.lexeme]

theorem alone_of_mem_scan {source : Bytes} {t : Token} (ht : t ∈ (scan source).tokens)
    (hkind : t.kind ≠ .eof) : Alone t.lexeme := ⟨_, _, scan_lexeme ht hkind, rfl, hkind, rfl⟩

end Token

end Treewalk
