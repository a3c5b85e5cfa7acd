import Treewalk.Proofs.Text.Utf8
import Treewalk.Proofs.Token.Places
import Treewalk.Proofs.Token.Spelling

/-!
# Strings decode what escaping encodes

**Escaping** (`Bytes.escapeFrom`). A backslash goes before every backslash and every quote; newlines and tabs may be
named by a letter behind a backslash instead, each of them as one likes.

**Reading** (`Segment.denoted`). A backslash and the character behind it stand for what the pair names, or for
themselves; any other character stands for itself, and a byte that is no UTF-8 for the replacement
character.

**Main theorem** (`Token.scan_strings`). An escaped text in quotes is one string, with the text as its value. And
the value of any string that is scanned is what the text between its quotes denotes, and is UTF-8.

A text denotes its value between quotes (`Denotes`) if its runes reach to the closing quote and no further. Such
texts are put together character by character (`Denotes.plain`, `Denotes.escaped`), and the scanner reads
each of them as it is read here (`scan_denotes`, `denoted_of_mem_scan`).
-/

namespace Treewalk

/-! ## Escaping -/

namespace Bytes

/-- A byte of a string as it is written between quotes; a newline or a tab may be named by its letter. -/
def escapeByte (named : Bool) (b : UInt8) : Bytes :=
  if b = 0x5C ∨ b = 0x22 then [0x5C, b]
  else if named ∧ b = 0x0A then [0x5C, 0x6E]
  else if named ∧ b = 0x09 then [0x5C, 0x74]
  else [b]

/-- A text as it is written between quotes. The newlines and tabs at the places that `named` tells are named by
their letters; `i` is the place of the first byte. -/
def escapeFrom (named : Nat → Bool) : Nat → Bytes → Bytes
  | _, [] => []
  | i, b :: s => escapeByte (named i) b ++ escapeFrom named (i + 1) s

/-- A text between quotes. -/
def inQuotes (e : Bytes) : Bytes := 0x22 :: (e ++ [0x22])

end Bytes

/-! ## Reading -/

/-- The UTF-8 that a rune stands for: its own bytes, or the replacement character for a byte that is none. -/
def Rune.shown (r : Rune) : Bytes := if r.isInvalid then [0xEF, 0xBF, 0xBD] else r.raw

/-- What a rune behind a backslash stands for. -/
def Rune.unescaped (r : Rune) : Bytes :=
  if r.code = 0x6E then [0x0A]
  else if r.code = 0x74 then [0x09]
  else if r.code = 0x5C then [0x5C]
  else if r.code = 0x22 then [0x22]
  else 0x5C :: r.shown

namespace Segment

open Bytes

/-- What the text between the quotes of a string denotes. -/
def denoted (rs : List Rune) : Bytes := bodyValue Rune.shown Rune.unescaped rs

example : denoted (Rune.decode [0x5C, 0x6E, 0x5C, 0x71, 0xFF]) = text "\n\\q\uFFFD" := by decide

end Segment

namespace Rune

theorem Genuine.encode_eq {r : Rune} (h : r.Genuine) : encode r.code = r.shown := by
  unfold shown
  split
  · rename_i hinvalid
    have hcode : r.code = replacement := by
      simp only [isInvalid, Bool.and_eq_true, decide_eq_true_eq] at hinvalid
      exact hinvalid.1
    rw [hcode]
    decide
  · rename_i hvalid
    exact (h.encodes (by simpa using hvalid)).eq

theorem Genuine.unescape_eq {r : Rune} (h : r.Genuine) : Segment.unescape r.code = r.unescaped := by
  rw [Segment.unescape, unescaped, h.encode_eq]

theorem Genuine.isUtf8_shown {r : Rune} (h : r.Genuine) : r.shown.IsUtf8 := by
  unfold shown
  split
  · exact ⟨"\uFFFD", by decide⟩
  · rename_i hvalid
    have hencodes := h.encodes (by simpa using hvalid)
    rw [← hencodes.eq]
    exact Bytes.isUtf8_encode hencodes.isValidChar

end Rune

namespace Segment

open Bytes

theorem bodyValue_congr {plain escaped plain' escaped' : Rune → Bytes} {rs : List Rune}
    (h : ∀ r ∈ rs, plain r = plain' r ∧ escaped r = escaped' r) :
    bodyValue plain escaped rs = bodyValue plain' escaped' rs := by
  fun_induction bodyValue plain escaped rs with
  | case1 => rfl
  | case2 r => exact (h r List.mem_cons_self).1
  | case3 a b rs ha ih =>
    rw [bodyValue, if_pos ha, (h b (by simp)).2, ih fun r hr => h r (by simp [hr])]
  | case4 a b rs ha ih =>
    rw [bodyValue, if_neg ha, (h a (by simp)).1, ih fun r hr => h r (List.mem_cons_of_mem _ hr)]

/-- The scanner reads a quoted string as it is read here. -/
theorem stringBody?_denoted {c : List Rune} (h : Quoted c) (hc : ∀ r ∈ c, r.Genuine) (rest : List Rune) :
    stringBody? [] 0 (c ++ rest) = some (denoted c.dropLast, c.length) := by
  have hvalue : bodyValue (fun r => Rune.encode r.code) (fun r => unescape r.code) c.dropLast =
      denoted c.dropLast := bodyValue_congr fun r hr =>
    ⟨(hc r (List.dropLast_subset c hr)).encode_eq, (hc r (List.dropLast_subset c hr)).unescape_eq⟩
  rw [stringBody?_of_quoted h, hvalue]
  simp

theorem isUtf8_denoted {rs : List Rune} (h : ∀ r ∈ rs, r.Genuine) : (denoted rs).IsUtf8 := by
  have hescaped : ∀ {r : Rune}, r.Genuine → r.unescaped.IsUtf8 := by
    intro r hr
    unfold Rune.unescaped
    split_ifs
    · exact ⟨"\n", by decide⟩
    · exact ⟨"\t", by decide⟩
    · exact ⟨"\\", by decide⟩
    · exact ⟨"\"", by decide⟩
    · exact IsUtf8.append (s := [0x5C]) ⟨"\\", by decide⟩ hr.isUtf8_shown
  unfold denoted
  fun_induction bodyValue Rune.shown Rune.unescaped rs with
  | case1 => exact isUtf8_nil
  | case2 r => exact (h r List.mem_cons_self).isUtf8_shown
  | case3 a b rs ha ih => exact (hescaped (h b (by simp))).append (ih fun r hr => h r (by simp [hr]))
  | case4 a b rs ha ih =>
    exact (h a (by simp)).isUtf8_shown.append (ih fun r hr => h r (List.mem_cons_of_mem _ hr))

/-- The quote as a rune. -/
def quoteRune : Rune := ⟨0x22, [0x22]⟩

theorem decode_quote (s : Bytes) : Rune.decode (0x22 :: s) = quoteRune :: Rune.decode s := by
  rw [Rune.decode_cons_ascii (by decide)]
  rfl

theorem decode_inQuotes (e : Bytes) :
    Rune.decode (inQuotes e) = quoteRune :: (Rune.decode e ++ [quoteRune]) := by
  rw [inQuotes, decode_quote, Rune.decode_append_ascii e [] (by decide)]
  rfl

/-! ## Bodies -/

/-- Between quotes the text `e` is a whole string, and its value is `s`. -/
structure Denotes (e s : Bytes) : Prop where
  quoted : Quoted (Rune.decode e ++ [quoteRune])
  value : denoted (Rune.decode e) = s

namespace Denotes

theorem nil : Denotes [] [] := ⟨.quote rfl, rfl⟩

/-- A character that needs no escaping. -/
theorem plain {raw e s : Bytes} {code : Nat} (h : Rune.Encodes raw code) (hquote : code ≠ 0x22)
    (hslash : code ≠ 0x5C) (hes : Denotes e s) : Denotes (raw ++ e) (raw ++ s) := by
  have hshown : Rune.shown ⟨code, raw⟩ = raw := by
    have hvalid : Rune.isInvalid ⟨code, raw⟩ = false := Rune.Encodes.isInvalid h
    rw [Rune.shown, hvalid]
    rfl
  constructor
  · rw [h.decode_append]
    exact .other hquote hslash hes.quoted
  · rw [h.decode_append, denoted, bodyValue_plain _ _ hslash, hshown]
    exact congrArg (raw ++ ·) hes.value

/-- A backslash and what names a byte. -/
theorem escaped {x b : UInt8} {e s : Bytes} (hx : x < 0x80) (hb : Rune.unescaped ⟨x.toNat, [x]⟩ = [b])
    (hes : Denotes e s) : Denotes (0x5C :: x :: e) (b :: s) := by
  have hdecode : Rune.decode (0x5C :: x :: e) = ⟨0x5C, [0x5C]⟩ :: ⟨x.toNat, [x]⟩ :: Rune.decode e := by
    rw [Rune.decode_cons_ascii (by decide), Rune.decode_cons_ascii hx]
    rfl
  constructor
  · rw [hdecode]
    exact .escape rfl hes.quoted
  · rw [hdecode, denoted, bodyValue, if_pos rfl, hb]
    exact congrArg (b :: ·) hes.value

/-- A byte of ASCII, however it is written. -/
theorem escapeByte {b : UInt8} (hb : b < 0x80) (named : Bool) {e s : Bytes} (hes : Denotes e s) :
    Denotes (Bytes.escapeByte named b ++ e) (b :: s) := by
  unfold Bytes.escapeByte
  split_ifs with hmark hline htab
  · rcases hmark with rfl | rfl
    · exact .escaped (by decide) rfl hes
    · exact .escaped (by decide) rfl hes
  · obtain ⟨-, rfl⟩ := hline
    exact .escaped (by decide) rfl hes
  · obtain ⟨-, rfl⟩ := htab
    exact .escaped (by decide) rfl hes
  · have hne : ∀ x : UInt8, x = 0x5C ∨ x = 0x22 → b.toNat ≠ x.toNat := fun x hx heq =>
      hmark (UInt8.toNat_inj.1 heq ▸ hx)
    exact hes.plain (.one hb) (hne 0x22 (.inr rfl)) (hne 0x5C (.inl rfl))

end Denotes

/-! ## Escaped texts -/

/-- Bytes outside ASCII are left as they are. -/
theorem escapeFrom_wide (named : Nat → Bool) {w : Bytes} (hw : ∀ b ∈ w, 0x80 ≤ b) (s : Bytes) :
    ∀ i, escapeFrom named i (w ++ s) = w ++ escapeFrom named (i + w.length) s := by
  induction w with
  | nil => exact fun _ => rfl
  | cons b w ih =>
    intro i
    obtain ⟨hb, hw⟩ := List.forall_mem_cons.1 hw
    have hbyte : Bytes.escapeByte (named i) b = [b] := by
      have hne : ∀ x : UInt8, x < 0x80 → b ≠ x := by
        rintro x hx rfl
        exact absurd hb (UInt8.not_le.2 hx)
      simp [Bytes.escapeByte, hne]
    rw [List.cons_append, escapeFrom, hbyte, ih hw, List.length_cons, Nat.add_right_comm, Nat.add_assoc]
    rfl

/-- An escaped text denotes the text that it was made from. -/
theorem denotes_escapeFrom (named : Nat → Bool) {rs : List Rune}
    (hrs : ∀ r ∈ rs, r.Genuine ∧ r.isInvalid = false) :
    ∀ i, Denotes (escapeFrom named i (Rune.bytes rs)) (Rune.bytes rs) := by
  induction rs with
  | nil => exact fun _ => .nil
  | cons r rs ih =>
    intro i
    obtain ⟨⟨hr, hvalid⟩, hrest⟩ := List.forall_mem_cons.1 hrs
    rw [Rune.bytes_cons]
    rcases hr.raw_cases with ⟨hlow, hraw⟩ | ⟨hwide, -, hraw⟩
    · have hbyte : r.code.toUInt8 < 0x80 := by
        rw [UInt8.lt_iff_toNat_lt, Rune.toNat_toUInt8 (by omega)]
        exact hlow
      rw [hraw, List.singleton_append, escapeFrom]
      exact .escapeByte hbyte _ (ih hrest _)
    · rw [escapeFrom_wide named hraw]
      exact .plain (hr.encodes hvalid) (by omega) (by omega) (ih hrest _)

/-! ## Strings that are scanned -/

/-- A string is found only behind a quote. -/
theorem quote_of_front {r : Rune} {rest : List Rune} {literal : Literal} {n : Nat}
    (h : front r rest = (.token .string literal, n)) :
    r.code = 0x22 ∧ ∃ v, literal = .string v ∧ stringBody? [] 0 rest = some (v, n) := by
  have hword : ∀ w : Bytes, Token.Kind.ofWord w ≠ .string := by
    intro w hw
    have hkeyword := (Token.Kind.ofWord_eq hw nofun).1
    revert hkeyword
    decide
  simp only [front] at h
  split_ifs at h with _ _ _ hname hdigit hquote
  · cases h
  · cases h
  · split at h <;> cases h
  · simp only [Prod.mk.injEq, Form.token.injEq] at h
    exact absurd h.1.1 (hword _)
  · cases h
  · split at h
    · rename_i v k hbody
      obtain ⟨hform, rfl⟩ := Prod.mk.inj h
      cases hform
      exact ⟨hquote, v, rfl, hbody⟩
    · cases h
  all_goals
    split at h
    · rename_i hmark
      cases h
      cases (mark?_spells hmark).2.1
    · cases h

end Segment

namespace Token

open Bytes Segment

/-- A text that denotes a value between quotes is scanned as a string of this value. -/
theorem scan_denotes {e s : Bytes} (h : Denotes e s) : scan e.inQuotes =
    ⟨[⟨.string, e.inQuotes, .string s, .start⟩, ⟨.eof, [], .none, .behind e.inQuotes⟩], []⟩ := by
  have hgenuine : ∀ r ∈ Rune.decode e ++ [quoteRune], r.Genuine := by
    intro r hr
    have hmem : r ∈ Rune.decode e.inQuotes := by
      rw [decode_inQuotes]
      exact List.mem_cons_of_mem _ hr
    exact Rune.genuine_of_mem_decode hmem
  have hbody := stringBody?_denoted h.quoted hgenuine []
  rw [List.append_nil, List.dropLast_concat, h.value] at hbody
  have hcut : cut (Rune.decode e.inQuotes) = [⟨.token .string (.string s), Rune.decode e.inQuotes⟩] := by
    rw [decode_inQuotes, cut_cons, front_quote rfl, hbody, List.take_length, List.drop_length]
    rfl
  rw [scan_eq, hcut, Position.after_decode]
  simp [gather, token?, fault?, Rune.bytes_decode]

/-- The text between the quotes of a string denotes its value. -/
theorem denoted_of_mem_scan {source : Bytes} {t : Token} (ht : t ∈ (scan source).tokens)
    (hkind : t.kind = .string) :
    ∃ e, t.lexeme = e.inQuotes ∧ t.literal = .string (denoted (Rune.decode e)) := by
  obtain ⟨done, runes, rest, h⟩ := place_of_mem_scan ht (by simp [hkind])
  have hgenuine : ∀ x ∈ runes, x.Genuine := fun x hx =>
    Rune.genuine_of_mem_decode (h.decode_lexeme ▸ hx)
  obtain ⟨q, body, hrunes, hfront⟩ := h.leads
  obtain rfl : runes = q :: body := hrunes
  rw [hkind] at hfront
  obtain ⟨hq, v, hliteral, hbody⟩ := quote_of_front hfront
  obtain ⟨n, hn, -, hquoted⟩ := quoted_of_stringBody? _ _ _ hbody
  obtain rfl : n = body.length := by omega
  rw [List.take_left] at hquoted
  rw [stringBody?_denoted hquoted fun x hx => hgenuine x (List.mem_cons_of_mem _ hx)] at hbody
  obtain rfl : denoted body.dropLast = v := by simpa using hbody
  -- the closing quote is the last rune
  obtain ⟨inner, q', rfl⟩ : ∃ inner q', body = inner ++ [q'] :=
    ⟨_, _, (List.dropLast_append_getLast hquoted.ne_nil).symm⟩
  have hq' : q'.code = 0x22 := by simpa using hquoted.last_code
  have hraw := (hgenuine q List.mem_cons_self).raw_eq (by omega)
  have hraw' := (hgenuine q' (by simp)).raw_eq (by omega)
  have hdecode : Rune.decode (Rune.bytes inner) = inner :=
    (Rune.decode_of_append (Rune.decode_of_append
      (show Rune.decode t.lexeme = [q] ++ (inner ++ [q']) from h.decode_lexeme)).2).1
  refine ⟨Rune.bytes inner, ?_, ?_⟩
  · rw [h.lexeme, Rune.bytes_cons, Rune.bytes_append, Rune.bytes_cons, hraw, hraw', hq, hq']
    rfl
  · rw [hliteral, hdecode, List.dropLast_concat]

/-- A text with its backslashes and quotes escaped, and such newlines and tabs as one likes, is one string when it
is put in quotes, and its value is the text. And the value of a string, wherever it was scanned, is UTF-8 and
what the text between its quotes denotes. -/
theorem scan_strings :
    (∀ (s : String) (named : Nat → Bool),
      scan (escapeFrom named 0 (text s)).inQuotes =
        { tokens := [⟨.string, (escapeFrom named 0 (text s)).inQuotes, .string (text s), .start⟩,
            ⟨.eof, [], .none, .behind (escapeFrom named 0 (text s)).inQuotes⟩]
          faults := [] }) ∧
    ∀ source : Bytes, ∀ t ∈ (scan source).tokens, t.kind = .string →
      ∃ e : Bytes, t.lexeme = e.inQuotes ∧ t.literal = .string (denoted (Rune.decode e)) ∧
        (denoted (Rune.decode e)).IsUtf8 := by
  refine ⟨fun s named => ?_, fun source t ht hkind => ?_⟩
  · have hrunes : ∀ r ∈ Rune.decode (text s), r.Genuine ∧ r.isInvalid = false := fun r hr =>
      ⟨Rune.genuine_of_mem_decode hr, (Bytes.isUtf8_iff _).1 ⟨s, rfl⟩ r hr⟩
    have hbody := denotes_escapeFrom named hrunes 0
    rw [Rune.bytes_decode] at hbody
    exact scan_denotes hbody
  · obtain ⟨e, hlexeme, hliteral⟩ := denoted_of_mem_scan ht hkind
    exact ⟨e, hlexeme, hliteral, isUtf8_denoted fun _ => Rune.genuine_of_mem_decode⟩

/-- A backslash, a quote, a newline that is named and one that is not; and a string with a letter that names
nothing and a byte that is no UTF-8. -/
theorem scan_strings_escapes :
    scan (text "\"\\\\\\\"\\n\n\"") =
        { tokens := [⟨.string, text "\"\\\\\\\"\\n\n\"", .string (text "\\\"\n\n"), .start⟩,
            ⟨.eof, [], .none, .behind (text "\"\\\\\\\"\\n\n\"")⟩]
          faults := [] } ∧
      ∃ t ∈ (scan [0x22, 0x5C, 0x71, 0xFF, 0x22]).tokens, t.kind = .string ∧
        t.literal = .string (text "\\q\uFFFD") := by
  have hmem : (Kind.string, [0x22, 0x5C, 0x71, 0xFF, 0x22]) ∈
      (scan [0x22, 0x5C, 0x71, 0xFF, 0x22]).tokens.map fun t => (t.kind, t.lexeme) := by decide +kernel
  obtain ⟨t, ht, hsees⟩ := List.mem_map.1 hmem
  obtain ⟨hkind, hlexeme⟩ := Prod.mk.inj hsees
  refine ⟨scan_strings.1 "\\\"\n\n" (· = 2), t, ht, hkind, ?_⟩
  obtain ⟨e, hquotes, hliteral, -⟩ := scan_strings.2 _ t ht hkind
  have hbody : e = [0x5C, 0x71, 0xFF] := by
    have hsame : [0x5C, 0x71, 0xFF] ++ [0x22] = e ++ [0x22] :=
      (List.cons.inj (hlexeme.symm.trans hquotes)).2
    exact (List.append_cancel_right hsame).symm
  rw [hliteral, hbody]
  have hvalue : denoted (Rune.decode [0x5C, 0x71, 0xFF]) = text "\\q\uFFFD" := by decide
  rw [hvalue]

end Token

end Treewalk
