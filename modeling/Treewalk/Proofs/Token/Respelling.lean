import Treewalk.Proofs.Token.Places

/-!
# Tokens survive being spelled again

**Main theorem** (`Token.scan_spaced`). If the tokens of a source are written down again, with single blanks
between them, and scanned, the same tokens come back and no faults. So what a token is depends on its lexeme
alone, and an unknown character does nothing but part what stands around it: with blanks in the place of all
unknown characters a source has the tokens that it had.

A blank is a separator, so each token leads the text from its own first rune on as it did in the source
(`Leads.curtails_token`); the tokens are put together one by one. Unknown characters are overwritten from the
end of the source on: what is already overwritten curtails what was there (`curtails_overwritten`), so the
segment before it stays what it is.
-/

namespace Treewalk

namespace Segment

/-! ## Unknown characters -/

/-- A segment as it is when unknown characters are overwritten by blanks. -/
def overwritten (s : Segment) : Segment :=
  match s.form with
  | .fault .invalidByte | .fault (.unexpected _) => single
  | _ => s

theorem overwritten_cases (s : Segment) : s.overwritten = single ∨ s.overwritten = s := by
  unfold overwritten
  split <;> simp

theorem token?_overwritten (s : Segment) : token? {} s.overwritten = token? {} s := by
  obtain ⟨form, runes⟩ := s
  unfold overwritten
  split <;> simp_all [token?, single]

theorem tokens_overwritten (ss : List Segment) : tokens (ss.map overwritten) = tokens ss := by
  unfold tokens
  rw [List.filterMap_map]
  exact List.filterMap_congr fun s _ => token?_overwritten s

/-- What is overwritten goes on like the source until it ends or comes to a separator, and is cut where the
source is. -/
theorem curtails_overwritten (rs : List Rune) : Curtails rs (runesAll ((cut rs).map overwritten)) ∧
    cut (runesAll ((cut rs).map overwritten)) = (cut rs).map overwritten := by
  induction rs using segment_induction with
  | nil => exact ⟨.ends, rfl⟩
  | cons s rest hleads ih =>
    obtain ⟨hcurtails, hcut⟩ := ih
    rw [List.map_cons, runesAll_cons]
    rcases s.overwritten_cases with hblank | hsame
    · rw [hblank]
      exact ⟨curtails_blank _ _, (cut_blank _).trans (congrArg (single :: ·) hcut)⟩
    · rw [hsame]
      have hstays : s.Leads (runesAll ((cut rest).map overwritten)) := by
        rcases hleads.curtails hcurtails with hstays | ⟨rfl, -⟩
        · exact hstays
        · exact hleads
      exact ⟨hcurtails.append _, hstays.cut_append.trans (congrArg (s :: ·) hcut)⟩

/-- Overwriting characters by blanks splits no rune and joins none. -/
theorem decode_overwritten (ss : List Segment) : ∀ before : List Rune,
    Rune.decode (Rune.bytes (before ++ runesAll ss)) = before ++ runesAll ss →
    Rune.decode (Rune.bytes (before ++ runesAll (ss.map overwritten))) =
      before ++ runesAll (ss.map overwritten) := by
  induction ss with
  | nil => exact fun _ h => h
  | cons s ss ih =>
    intro before h
    rw [runesAll_cons, ← List.append_assoc] at h
    rw [List.map_cons, runesAll_cons]
    rcases s.overwritten_cases with hs | hs
    · rw [hs]
      exact Rune.decode_bytes_blank (Rune.decode_of_append (Rune.decode_of_append h).1).1
        (ih [] (Rune.decode_of_append h).2)
    · rw [hs, ← List.append_assoc]
      exact ih _ h

/-- No unknown character is left. -/
theorem incomplete_of_overwritten (ss : List Segment) : ∀ pos : Position,
    ∀ d ∈ gather fault? pos (ss.map overwritten), d.incomplete = true := by
  induction ss with
  | nil => exact fun _ => nofun
  | cons s ss ih =>
    intro pos d hd
    rw [List.map_cons, gather] at hd
    rcases List.mem_append.1 hd with hd | hd
    · obtain ⟨form, runes⟩ := s
      rcases form with _ | _ | _ | (_ | _ | _ | _) <;> simp [overwritten, fault?, single] at hd <;>
        subst hd <;> rfl
    · exact ih _ d hd

theorem cut_overwritten (source : Bytes) :
    cut (Rune.decode (Rune.bytes (runesAll ((cut (Rune.decode source)).map overwritten)))) =
      (cut (Rune.decode source)).map overwritten := by
  have hdecode := decode_overwritten (cut (Rune.decode source)) [] (by
    rw [List.nil_append, runesAll_cut, Rune.bytes_decode])
  rw [List.nil_append] at hdecode
  rw [hdecode]
  exact (curtails_overwritten _).2

end Segment

namespace Token

open Segment

/-- The lexemes of tokens with single blanks between them. -/
def spaced (ts : List Token) : Bytes := Bytes.join [0x20] (ts.map lexeme)

/-- The source with a blank in the place of every unknown character. -/
def overwritten (source : Bytes) : Bytes :=
  Rune.bytes (runesAll ((cut (Rune.decode source)).map Segment.overwritten))

/-- A token that its lexeme makes up where nothing else is there. -/
def Lone (t : Token) : Prop := Leads ⟨.token t.kind t.literal, Rune.decode t.lexeme⟩ []

theorem lone_of_mem_scan {source : Bytes} {t : Token} (ht : t ∈ (scan source).tokens)
    (hkind : t.kind ≠ .eof) : t.Lone := by
  obtain ⟨done, runes, rest, h⟩ := place_of_mem_scan ht hkind
  rw [Lone, h.decode_lexeme]
  exact h.leads.curtails_token .ends rfl

namespace Lone

variable {t : Token}

/-- In front of a blank, too, a lone token is a segment of its own. -/
theorem cut_blank (h : t.Lone) (rest : List Rune) :
    cut (Rune.decode t.lexeme ++ blankRune :: rest) =
      ⟨.token t.kind t.literal, Rune.decode t.lexeme⟩ :: single :: cut rest := by
  rw [← Segment.cut_blank]
  exact (Leads.curtails_token h (curtails_blank _ _) rfl).cut_append

end Lone

theorem tokens_cons (t : Token) (ss : List Segment) :
    tokens (⟨.token t.kind t.literal, Rune.decode t.lexeme⟩ :: ss) = t.move nowhere :: tokens ss := by
  simp [tokens, token?, Rune.bytes_decode, move, nowhere]

/-- Lone tokens with blanks between them are found again, and nothing else. -/
theorem cut_spaced : ∀ ts : List Token, (∀ t ∈ ts, t.Lone) →
    tokens (cut (Rune.decode (spaced ts))) = ts.map (move nowhere) ∧
      messages (cut (Rune.decode (spaced ts))) = []
  | [], _ => ⟨rfl, rfl⟩
  | [t], h => by
    have ht := h t List.mem_cons_self
    have hcut := ht.cut_append
    rw [List.append_nil] at hcut
    have hspaced : spaced [t] = t.lexeme := by simp [spaced, Bytes.join]
    rw [hspaced, hcut, tokens_cons]
    exact ⟨rfl, rfl⟩
  | t :: u :: ts, h => by
    have ht := h t List.mem_cons_self
    obtain ⟨htokens, hmessages⟩ := cut_spaced (u :: ts) fun v hv => h v (List.mem_cons_of_mem _ hv)
    have hspaced : spaced (t :: u :: ts) = t.lexeme ++ 0x20 :: spaced (u :: ts) := by
      simp [spaced, Bytes.join]
    rw [hspaced, Rune.decode_append_blank, ht.cut_blank, tokens_cons]
    exact ⟨congrArg (t.move nowhere :: ·) htokens, hmessages⟩

/-! ## Sources -/

/-- The tokens of a source but the end of input are those of its segments. -/
theorem filter_scan (source : Bytes) : (scan source).tokens.filter (·.kind ≠ .eof) =
    gather token? .start (cut (Rune.decode source)) := by
  obtain ⟨ts, e, htokens, he, hproper⟩ := scan_tokens source
  have hall : ∀ t ∈ gather token? .start (cut (Rune.decode source)), t.kind ≠ .eof := by
    rw [scan_eq] at htokens
    obtain ⟨hts, -⟩ := List.append_inj' htokens rfl
    rw [hts]
    exact fun t ht => (hproper t ht).kind
  rw [scan_eq, List.filter_append, List.filter_eq_self.2 fun t ht => decide_eq_true (hall t ht)]
  exact List.append_nil _

/-- The end of input is spelled by nothing. -/
theorem lexeme_of_eof {source : Bytes} {t : Token} (ht : t ∈ (scan source).tokens) (hkind : t.kind = .eof) :
    t.lexeme = [] ∧ t.literal = .none := by
  have hnot : t ∉ gather token? .start (cut (Rune.decode source)) := by
    rw [← filter_scan]
    intro hmem
    exact of_decide_eq_true (List.mem_filter.1 hmem).2 hkind
  rw [scan_eq, List.mem_append, List.mem_singleton] at ht
  obtain rfl := ht.resolve_left hnot
  exact ⟨rfl, rfl⟩

theorem lexeme_eq_nil_iff {source : Bytes} {t : Token} (ht : t ∈ (scan source).tokens) :
    t.lexeme = [] ↔ t.kind = .eof := by
  refine ⟨fun hnil => ?_, fun hkind => (lexeme_of_eof ht hkind).1⟩
  by_contra hkind
  obtain ⟨done, runes, rest, h⟩ := place_of_mem_scan ht hkind
  exact h.lexeme_ne_nil hnil

/-- What a token is depends on its lexeme alone. -/
theorem kind_literal_of_lexeme {source other : Bytes} {t u : Token} (ht : t ∈ (scan source).tokens)
    (hu : u ∈ (scan other).tokens) (h : t.lexeme = u.lexeme) : t.kind = u.kind ∧ t.literal = u.literal := by
  have hends : t.kind = .eof ↔ u.kind = .eof := by rw [← lexeme_eq_nil_iff ht, ← lexeme_eq_nil_iff hu, h]
  by_cases htkind : t.kind = .eof
  · have hukind := hends.1 htkind
    exact ⟨htkind.trans hukind.symm, (lexeme_of_eof ht htkind).2.trans (lexeme_of_eof hu hukind).2.symm⟩
  · have hukind : u.kind ≠ .eof := fun hukind => htkind (hends.2 hukind)
    have hsame := (scan_lexeme ht htkind).symm.trans (h ▸ scan_lexeme hu hukind)
    simp only [Scanned.mk.injEq, List.cons.injEq, Token.mk.injEq] at hsame
    exact ⟨hsame.1.1.1, hsame.1.1.2.2.1⟩

/-- The tokens of a source, written down again with single blanks between them, are scanned as the same tokens
without faults. Overwriting the unknown characters of a source by blanks leaves its tokens and no unknown
character. And tokens of one lexeme are of one kind and stand for one value, wherever they come from. -/
theorem scan_spaced (source : Bytes) :
    ((scan (spaced ((scan source).tokens.filter (·.kind ≠ .eof)))).tokens.map (move nowhere) =
        (scan source).tokens.map (move nowhere) ∧
      (scan (spaced ((scan source).tokens.filter (·.kind ≠ .eof)))).faults = []) ∧
    ((scan (overwritten source)).tokens.map (move nowhere) = (scan source).tokens.map (move nowhere) ∧
      ∀ d ∈ (scan (overwritten source)).faults, d.incomplete = true) ∧
    ∀ other : Bytes, ∀ t ∈ (scan source).tokens, ∀ u ∈ (scan other).tokens, t.lexeme = u.lexeme →
      t.kind = u.kind ∧ t.literal = u.literal := by
  refine ⟨?_, ?_, fun other t ht u hu h => ?_⟩
  · have hlone : ∀ t ∈ (scan source).tokens.filter (·.kind ≠ .eof), t.Lone := by
      intro t ht
      obtain ⟨ht, hkind⟩ := List.mem_filter.1 ht
      exact lone_of_mem_scan ht (of_decide_eq_true hkind)
    obtain ⟨htokens, hmessages⟩ := cut_spaced _ hlone
    refine ⟨?_, faults_eq_nil_of_messages hmessages⟩
    rw [scan_nowhere, scan_nowhere, htokens, filter_scan, gather_token?_nowhere]
  · have hcut := cut_overwritten source
    refine ⟨?_, ?_⟩
    · rw [scan_nowhere, scan_nowhere, overwritten, hcut, tokens_overwritten]
    · rw [scan_eq, overwritten, hcut]
      exact incomplete_of_overwritten _ _
  · exact kind_literal_of_lexeme ht hu h

/-- A keyword and a number on both sides of an unknown character, and the same keyword behind the number and
in front of a comment. -/
theorem scan_spaced_stray :
    spaced ((scan (text "if#1.5")).tokens.filter (·.kind ≠ .eof)) = text "if 1.5" ∧
      (scan (text "if 1.5")).tokens.map (move nowhere) = (scan (text "if#1.5")).tokens.map (move nowhere) ∧
      ∃ t ∈ (scan (text "if#1.5")).tokens, ∃ u ∈ (scan (text "1.5/if//")).tokens,
        t.lexeme = u.lexeme ∧ t.kind = u.kind ∧ t.literal = u.literal := by
  have hspaced : spaced ((scan (text "if#1.5")).tokens.filter (·.kind ≠ .eof)) = text "if 1.5" := by
    decide +kernel
  have hfirst : text "if" ∈ (scan (text "if#1.5")).tokens.map lexeme := by decide +kernel
  have hsecond : text "if" ∈ (scan (text "1.5/if//")).tokens.map lexeme := by decide +kernel
  obtain ⟨t, ht, htlexeme⟩ := List.mem_map.1 hfirst
  obtain ⟨u, hu, hulexeme⟩ := List.mem_map.1 hsecond
  obtain ⟨⟨htokens, -⟩, -, hlexeme⟩ := scan_spaced (text "if#1.5")
  rw [hspaced] at htokens
  have hsame := htlexeme.trans hulexeme.symm
  exact ⟨hspaced, htokens, t, ht, u, hu, hsame, hlexeme _ t ht u hu hsame⟩

end Token

end Treewalk
