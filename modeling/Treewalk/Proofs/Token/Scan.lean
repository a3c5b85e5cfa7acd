import Treewalk.Token.Segment
import Mathlib.Tactic.SplitIfs

/-!
# Tokens of a source

What holds of every token that scanning gives, whatever the source: it stands on a line that counts from
one, only the last one ends the input, and the word for the receiver is spelled like one.

Main result: `Token.scan_tokens`.
-/

namespace Treewalk

/-- A token as scanning gives it, the end of input apart. -/
structure Token.Proper (t : Token) : Prop where
  line : 1 ≤ t.pos.line
  kind : t.kind ≠ .eof
  this : t.kind = .thisWord → t.lexeme = text "this"

namespace Segment

/-- The kind of a token and the bytes that spell it go together. -/
def Spelled (kind : Token.Kind) (lexeme : Bytes) : Prop :=
  kind ≠ .eof ∧ (kind = .thisWord → lexeme = text "this")

theorem spelled_ofWord (word : Bytes) : Spelled (Token.Kind.ofWord word) word := by
  unfold Token.Kind.ofWord
  cases h : Token.Kind.keywords.find? (·.name == word) with
  | none => exact ⟨nofun, nofun⟩
  | some k =>
    have hname : k.name = word := by simpa using List.find?_some h
    have hmem : k ∈ Token.Kind.keywords := List.mem_of_find?_eq_some h
    constructor
    · rintro ⟨⟩
      simp [Token.Kind.keywords] at hmem
    · rintro ⟨⟩
      exact hname.symm

/-- Operators and marks are neither the end of input nor words. -/
theorem spelled_mark {c : Nat} {next : Option Nat} {kind : Token.Kind} {n : Nat} (lexeme : Bytes)
    (h : mark? c next = some (kind, n)) : Spelled kind lexeme := by
  unfold mark? at h
  split at h <;> simp only [Option.some.injEq, Prod.mk.injEq, reduceCtorEq] at h <;>
    (try split at h) <;> (try split at h) <;> simp_all [Spelled] <;> grind

/-- What a source starts with is spelled by the runes taken. -/
theorem spelled_front {r : Rune} {rest : List Rune} {kind : Token.Kind} {literal : Literal} {n : Nat}
    (h : front r rest = (.token kind literal, n)) : Spelled kind (Rune.bytes (r :: rest.take n)) := by
  simp only [front] at h
  split_ifs at h
  · cases h
  · cases h
  · split at h <;> cases h
  · cases h
    exact spelled_ofWord _
  · cases h
    exact ⟨nofun, nofun⟩
  · split at h <;> cases h
    exact ⟨nofun, nofun⟩
  all_goals
    split at h
    · rename_i hmark
      cases h
      exact spelled_mark _ hmark
    · cases h

/-- Every segment that is a token is spelled by its runes. -/
theorem spelled_cutInto {kind : Token.Kind} {literal : Literal} {runes : List Rune} :
    ∀ (rs : List Rune) (done : List Segment) (skip : Nat),
      ⟨.token kind literal, runes⟩ ∈ cutInto done skip rs →
        ⟨.token kind literal, runes⟩ ∈ done ∨ Spelled kind (Rune.bytes runes)
  | [], done, _, h => by
    rw [cutInto, List.mem_reverse] at h
    exact .inl h
  | r :: rest, done, 0, h => by
    rw [cutInto] at h
    rcases spelled_cutInto rest _ _ h with hdone | hspelled
    · rcases List.mem_cons.1 hdone with heq | hdone
      · right
        obtain ⟨hform, hrunes⟩ := Segment.mk.inj heq
        rw [hrunes]
        exact spelled_front (Prod.ext hform.symm rfl)
      · exact .inl hdone
    · exact .inr hspelled
  | _ :: rest, done, skip + 1, h => by
    rw [cutInto] at h
    exact spelled_cutInto rest done skip h

end Segment

/-! ## Positions -/

theorem Position.line_next (p : Position) (r : Rune) : p.line ≤ (p.next r).line := by
  unfold Position.next
  split
  · exact Nat.le_succ _
  · exact Nat.le_refl _

theorem Position.line_after (p : Position) (rs : List Rune) : p.line ≤ (p.after rs).line := by
  induction rs generalizing p with
  | nil => exact Nat.le_refl _
  | cons r rs ih => exact Nat.le_trans (p.line_next r) (ih (p.next r))

/-! ## Tokens -/

namespace Token

/-- Collecting segments keeps to lines that count from one and to proper tokens. -/
theorem Progress.add_proper {p : Progress} {s : Segment} (hpos : 1 ≤ p.pos.line)
    (htokens : ∀ t ∈ p.tokens, t.Proper)
    (hs : ∀ kind literal, s.form = .token kind literal → Segment.Spelled kind (Rune.bytes s.runes)) :
    1 ≤ (p.add s).pos.line ∧ ∀ t ∈ (p.add s).tokens, t.Proper := by
  have hline : 1 ≤ (p.pos.after s.runes).line := Nat.le_trans hpos (p.pos.line_after s.runes)
  unfold Progress.add
  cases hform : s.form with
  | blank => exact ⟨hline, htokens⟩
  | comment => exact ⟨hline, htokens⟩
  | fault f => exact ⟨hline, htokens⟩
  | token kind literal =>
    obtain ⟨hkind, hthis⟩ := hs kind literal hform
    exact ⟨hline, List.forall_mem_cons.2 ⟨⟨hpos, hkind, hthis⟩, htokens⟩⟩

theorem Progress.foldl_add_proper : ∀ (segments : List Segment) (p : Progress), 1 ≤ p.pos.line →
    (∀ t ∈ p.tokens, t.Proper) →
    (∀ s ∈ segments, ∀ kind literal, s.form = .token kind literal →
      Segment.Spelled kind (Rune.bytes s.runes)) →
    1 ≤ (segments.foldl Progress.add p).pos.line ∧
      ∀ t ∈ (segments.foldl Progress.add p).tokens, t.Proper
  | [], _, hpos, htokens, _ => ⟨hpos, htokens⟩
  | s :: rest, p, hpos, htokens, hs => by
    obtain ⟨hpos', htokens'⟩ := Progress.add_proper hpos htokens (hs s List.mem_cons_self)
    exact Progress.foldl_add_proper rest (p.add s) hpos' htokens' fun s' hs' =>
      hs s' (List.mem_cons_of_mem _ hs')

/-- The tokens of a source are proper ones and the end of input behind them. -/
theorem scan_tokens (source : Bytes) :
    ∃ ts e, (scan source).tokens = ts ++ [e] ∧ e.kind = .eof ∧ ∀ t ∈ ts, t.Proper := by
  obtain ⟨-, htokens⟩ := Progress.foldl_add_proper (Segment.cut (Rune.decode source)) {}
    (Nat.le_refl 1) nofun (by
      rintro ⟨_, runes⟩ hs kind literal rfl
      rcases Segment.spelled_cutInto _ _ _ hs with hnil | hspelled
      · cases hnil
      · exact hspelled)
  refine ⟨_, _, List.reverse_cons, rfl, fun t ht => htokens t (List.mem_reverse.1 ht)⟩

end Token

end Treewalk
