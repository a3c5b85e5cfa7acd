import Treewalk.Proofs.Token.Places

/-!
# Tokens are the longest ones

**Main theorem** (`Token.scan_longest`). Where a token stands, its lexeme is the longest prefix of what is left of
the source that is one token by itself.

A prefix of a text, cut where it may be, decodes to the runes of the text and at most one byte more that is
no UTF-8 any longer, and this is a separator: a prefix curtails its text (`curtails_decode`). So the token leads
every prefix that is longer than its lexeme, as it led the source, and such a prefix is this token and
something else.
-/

namespace Treewalk

/-- The runes of a prefix go on like those of the text until they end or come to a rune cut in two. -/
theorem Segment.curtails_decode {s p : Bytes} (h : p <+: s) : Curtails (Rune.decode s) (Rune.decode p) := by
  induction s using Rune.decode_induction generalizing p with
  | nil =>
    rw [List.prefix_nil.1 h]
    exact .ends
  | cons a rest ih =>
    cases p with
    | nil => exact .ends
    | cons b short =>
      obtain ⟨rfl, hshort⟩ := List.cons_prefix_cons.1 h
      rw [Rune.decode_cons, Rune.decode_cons, List.prefix_iff_eq_take.1 hshort]
      rcases Rune.first_take_cases b rest short.length with hsame | hcut
      · have hextra : Rune.extra b (rest.take short.length) = Rune.extra b rest := by
          rw [Rune.extra, hsame, Rune.extra]
        rw [hextra, hsame]
        refine .goesOn (ih ?_)
        rw [List.drop_take]
        exact List.take_prefix _ _
      · rw [hcut]
        exact .parts separates_replacement

namespace Token

open Segment

/-- A token leads every longer prefix of what stands where it does. -/
theorem Place.cut_longer {source : Bytes} {t : Token} {done : List Segment} {runes rest : List Rune}
    (h : Place source t done runes rest) {q : Bytes} (hq : q <+: Rune.bytes rest) :
    Segment.cut (Rune.decode (t.lexeme ++ q)) =
      ⟨.token t.kind t.literal, runes⟩ :: Segment.cut (Rune.decode q) := by
  have hrest : Rune.decode (Rune.bytes rest) = rest := by
    have hbehind := h.decode_behind
    rw [h.lexeme, ← Rune.bytes_append] at hbehind
    exact (Rune.decode_of_append hbehind).2
  have hdecode : Rune.decode (Rune.bytes runes ++ q) = runes ++ Rune.decode q := by
    refine Rune.decode_append_of_prefix hq ?_
    rw [← h.lexeme, h.decode_behind, hrest]
  have hcurtails : Curtails rest (Rune.decode q) := by
    have hdecoded := curtails_decode hq
    rwa [hrest] at hdecoded
  rw [h.lexeme, hdecode]
  exact (h.leads.curtails_token hcurtails rfl).cut_append

/-- A lexeme is one token by itself, and no longer prefix of what is left of the source is. -/
theorem scan_longest {source : Bytes} {t : Token} (ht : t ∈ (scan source).tokens) (hkind : t.kind ≠ .eof) :
    t.lexeme <+: source.drop t.pos.offset ∧ Alone t.lexeme ∧
      ∀ p, p <+: source.drop t.pos.offset → t.lexeme.length < p.length → ¬ Alone p := by
  obtain ⟨done, runes, rest, h⟩ := place_of_mem_scan ht hkind
  rw [h.drop_offset]
  refine ⟨List.prefix_append _ _, alone_of_mem_scan ht hkind, fun p hp hlonger => ?_⟩
  rintro ⟨u, e, hscan, hlexeme, -, -⟩
  -- the prefix is the lexeme and something behind it
  obtain ⟨q, rfl⟩ := List.prefix_of_prefix_length_le (List.prefix_append _ _) hp (Nat.le_of_lt hlonger)
  have hq : q <+: Rune.bytes rest := (List.prefix_append_right_inj _).1 hp
  -- so its first token has the shorter lexeme
  have hfirst := congrArg Scanned.tokens hscan
  rw [scan_eq, h.cut_longer hq] at hfirst
  have hu : (⟨t.kind, Rune.bytes runes, t.literal, .start⟩ : Token) = u := (List.cons.inj hfirst).1
  rw [← hu, ← h.lexeme] at hlexeme
  rw [← hlexeme] at hlonger
  exact Nat.lt_irrefl _ hlonger

/-- Two minus signs and an equality sign: the two signs are the token, and the three are none. -/
theorem scan_longest_marks : ∃ t ∈ (scan (text "a--=b")).tokens, t.kind ≠ .eof ∧
    t.lexeme = text "--" ∧ text "--=" <+: (text "a--=b").drop t.pos.offset ∧ ¬ Alone (text "--=") := by
  have hmem : (Kind.minusMinus, text "--", 1) ∈
      (scan (text "a--=b")).tokens.map fun t => (t.kind, t.lexeme, t.pos.offset) := by decide +kernel
  obtain ⟨t, ht, hsees⟩ := List.mem_map.1 hmem
  simp only [Prod.mk.injEq] at hsees
  obtain ⟨hkind, hlexeme, hoffset⟩ := hsees
  have hlonger : text "--=" <+: (text "a--=b").drop t.pos.offset := by
    rw [hoffset]
    decide +kernel
  have heof : t.kind ≠ .eof := by simp [hkind]
  have hlength : t.lexeme.length < (text "--=").length := by
    rw [hlexeme]
    decide +kernel
  exact ⟨t, ht, heof, hlexeme, hlonger, (scan_longest ht heof).2.2 _ hlonger hlength⟩

end Token

end Treewalk
