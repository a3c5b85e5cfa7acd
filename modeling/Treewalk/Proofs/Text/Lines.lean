import Treewalk.Text.Bytes

/-!
# Lines of texts

A newline ends a line, and any other byte in front of a text belongs to its first line. So what holds of the lines
of a text goes by induction on its bytes, both without the newlines (`Bytes.lines`) and with them (`Bytes.pieces`).
-/

namespace Treewalk.Bytes

/-! ## Lines without their newlines -/

theorem lines_newline (s : Bytes) : lines (newline :: s) = [] :: s.lines := rfl

theorem lines_other {b : UInt8} (hb : b ≠ newline) (s : Bytes) :
    lines (b :: s) = (b :: s.lines.headD []) :: s.lines.tail := by
  unfold lines
  rw [List.foldr_cons, if_neg hb]
  rfl

/-- The part of a text up to its first newline. -/
def firstLine (s : Bytes) : Bytes := s.takeWhile (· ≠ newline)

theorem headD_lines (s : Bytes) : s.lines.headD [] = s.firstLine := by
  induction s with
  | nil => rfl
  | cons b s ih =>
    by_cases hb : b = newline
    · simp [hb, lines_newline, firstLine]
    · rw [lines_other hb, List.headD_cons, ih, firstLine, firstLine,
        List.takeWhile_cons_of_pos (by simpa using hb)]

/-- A newline stands between the lines before it and those behind it. -/
theorem lines_append_newline (s t : Bytes) : (s ++ newline :: t).lines = s.lines ++ t.lines := by
  induction s with
  | nil => rfl
  | cons b s ih =>
    by_cases hb : b = newline
    · rw [hb, List.cons_append, lines_newline, lines_newline, ih, List.cons_append]
    · rw [List.cons_append, lines_other hb, lines_other hb, ih, List.cons_append]
      cases hlines : lines s with
      | nil => cases hlines
      | cons l ls => rfl

/-- A text has one line more than newlines. -/
theorem length_lines (s : Bytes) : s.lines.length = s.count newline + 1 := by
  induction s with
  | nil => rfl
  | cons b s ih =>
    by_cases hb : b = newline
    · rw [hb, lines_newline, List.length_cons, ih, List.count_cons_self]
    · rw [lines_other hb, List.length_cons, List.length_tail, ih, List.count_cons_of_ne hb]
      rfl

/-! ## Lines with their newlines -/

/-- The lines of a text with their newlines; what follows the last newline is a line if it is not empty. -/
def pieces (s : Bytes) : List Bytes :=
  s.terminatedLines.1 ++ if s.terminatedLines.2.isEmpty then [] else [s.terminatedLines.2]

end Treewalk.Bytes
