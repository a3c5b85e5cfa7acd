import Treewalk.Proofs.Parser.Exact
import Treewalk.Proofs.Token.Scan
import Treewalk.Proofs.Tree.Reading
import Treewalk.Session
import Treewalk.Proofs.Scope.Resolved

/-!
# The dump is unambiguous

**Main theorem** (`Parsed.dump_unambiguous`). Take two sources without faults. No statement of them and
no member of a class is shown with a newline in it. One of the first source and one of the second are shown
alike if and only if they have the same essence: if they are the same tree up to identities, positions, the
spelling of texts with the same value, and clauses of loop headers that are absent or the literal `none`.
So the lines that a dump writes determine the list of statements up to essence.

Both directions go through symbolic expressions. A statement has the symbolic expression of its essence,
and its essence is read back from its symbolic expression; symbolic expressions themselves are determined
by their texts, also where one follows the other, each on a line of its own (`Sexp.lines_inj`).
-/

namespace Treewalk

/-! ## Statements of a source -/

/-- The statements of a source without faults are well formed and made of tokens of the source. -/
theorem Parsed.ofSource_made {n : NodeId} {source : Bytes} (h : (ofSource n source).faults = []) :
    Stmt.WellFormedAll (ofSource n source).stmts ∧
      (Fragment.list (ofSource n source).stmts).Made Token.Genuine := by
  obtain ⟨-, -, -, -, hw, -⟩ := Parsed.ofSource_reads h
  exact ⟨hw, Parsed.made_of_tokens h fun t ht hkind => Token.genuine_of_mem_scan ht hkind⟩

/-! ## Pieces of a program -/

/-- What occurs in a program made of tokens of a source has no others. -/
theorem Occurs.scanned {program : List Stmt} (hmade : (Fragment.list program).Made Token.Genuine)
    {Γ : Environs} {q : Fragment} (h : Occurs program Γ q) : q.Scanned :=
  ⟨Γ, fun _ _ hbelow => hmade {} _ _ (h.trans hbelow)⟩

/-! ## What is shown on its own -/

/-- What can be shown on its own: a statement, or a field of a class. -/
inductive Showable where
  | stmt (s : Stmt)
  | field (d : Field)

namespace Showable

/-- The text of a statement or a field. -/
def dump : Showable → Bytes
  | .stmt s => s.dump
  | .field d => d.piece []

/-- The essence of a statement or a field. -/
def essence : Showable → Showable
  | .stmt s => .stmt s.essence
  | .field d => .field d.essence

/-- The symbolic expression of a statement or a field. -/
def sexp : Showable → Sexp
  | .stmt s => s.sexp
  | .field d => d.sexp

/-- Statements are in a program where they occur, and members where their class does; a method is a
function. -/
inductive In (program : List Stmt) : Showable → Prop
  | stmt {Γ : Environs} {s : Stmt} (h : Occurs program Γ (.stmt s)) : In program (.stmt s)
  | method {Γ : Environs} {pos : Position} {t : Token} {fs : List Field} {ms : List Function}
      (h : Occurs program Γ (.stmt (.classDecl pos t fs ms))) {d : Function} (hd : d ∈ ms) :
      In program (.stmt (.function d))
  | field {Γ : Environs} {pos : Position} {t : Token} {fs : List Field} {ms : List Function}
      (h : Occurs program Γ (.stmt (.classDecl pos t fs ms))) {d : Field} (hd : d ∈ fs) :
      In program (.field d)

/-- Its symbolic expression is read as its essence. -/
def Stands : Showable → Prop
  | .stmt s => s.sexp.Stands s.essence
  | .field d => d.sexp.Stands (Sexp.asDeclaration d.essence)

theorem dump_eq (x : Showable) : x.dump = x.sexp.text := by
  cases x with
  | stmt s => exact s.dump_eq
  | field d =>
    rw [dump, Field.piece_eq]
    exact List.append_nil _

theorem sexp_essence (x : Showable) : x.essence.sexp = x.sexp := by
  cases x with
  | stmt s => exact s.sexp_essence
  | field d => exact d.sexp_essence

theorem Stands.plain {x : Showable} (h : x.Stands) : x.sexp.Plain := by
  cases x with
  | stmt => exact Sexp.Stands.plain h
  | field => exact Sexp.Stands.plain h

/-- A field is read as a declaration but has another head, so that no statement has its symbolic
expression. -/
theorem sexp_stmt_ne_field {s : Stmt} {d : Field} (hs : (stmt s).Stands) (hd : (field d).Stands) :
    s.sexp ≠ d.sexp := by
  intro heq
  have hread : s.essence = Sexp.asDeclaration d.essence := by
    rw [← Sexp.Stands.read hs, ← Sexp.Stands.read hd, heq]
  have hhead : (Sexp.asDeclaration d.essence).sexp = d.sexp := by rw [← hread, s.sexp_essence, heq]
  obtain ⟨t, e⟩ := d
  have hword : Sexp.word (text "let") = .word (text "field") := (List.cons.inj (Sexp.list.inj hhead)).1
  exact absurd (Sexp.word.inj hword) (by decide)

theorem essence_eq {x y : Showable} (hx : x.Stands) (hy : y.Stands) (h : x.sexp = y.sexp) :
    x.essence = y.essence := by
  cases x with
  | stmt s =>
    cases y with
    | stmt t =>
      have hread : s.essence = t.essence := by
        rw [← Sexp.Stands.read hx, ← Sexp.Stands.read hy]
        exact congrArg Sexp.read h
      exact congrArg stmt hread
    | field d => exact absurd h (sexp_stmt_ne_field hx hy)
  | field d =>
    cases y with
    | stmt t => exact absurd h.symm (sexp_stmt_ne_field hy hx)
    | field d' =>
      have hread : Sexp.asDeclaration d.essence = Sexp.asDeclaration d'.essence := by
        rw [← Sexp.Stands.read hx, ← Sexp.Stands.read hy]
        exact congrArg Sexp.read h
      obtain ⟨t, e⟩ := d
      obtain ⟨t', e'⟩ := d'
      obtain ⟨-, ht, he⟩ := Stmt.declare.inj hread
      show field (.mk (t.move nowhere) e.essence) = field (.mk (t'.move nowhere) e'.essence)
      rw [ht, Option.some.inj he]

/-- Whatever stands for its essence is shown alike if and only if it has the same essence. -/
theorem dump_eq_iff {x y : Showable} (hx : x.Stands) (hy : y.Stands) :
    x.dump = y.dump ↔ x.essence = y.essence := by
  rw [dump_eq, dump_eq]
  constructor
  · intro htext
    have hend : Sexp.Ended [] := nofun
    obtain ⟨heq, -⟩ := Sexp.text_append_inj x.sexp y.sexp hx.plain hy.plain hend hend
      (congrArg (· ++ []) htext)
    exact essence_eq hx hy heq
  · intro hessence
    rw [← x.sexp_essence, ← y.sexp_essence, hessence]

end Showable

/-- What is in a source without faults stands for its essence. -/
theorem Parsed.stands_of_in {n : NodeId} {source : Bytes} (h : (ofSource n source).faults = [])
    {x : Showable} (hx : x.In (ofSource n source).stmts) : x.Stands := by
  obtain ⟨hw, hmade⟩ := ofSource_made h
  cases hx with
  | @stmt Γ s hs => exact s.stands (Occurs.wellFormed hw hs) (Occurs.scanned hmade hs)
  | @method Γ pos t fs ms hclass d hd =>
    have hscanned := Occurs.scanned hmade hclass
    have hwd := Function.wellFormed_of_mem (Occurs.wellFormed hw hclass).2.2 d hd
    refine Function.stands d hwd (fun u hu => ?_) (hscanned.part fun _ => ?_)
    · exact hscanned.word (List.mem_cons_of_mem _ (List.mem_flatMap.2 ⟨d, hd, hu⟩))
    · exact ⟨_, List.mem_append_right _ (List.mem_map_of_mem hd)⟩
  | @field Γ pos t fs ms hclass d hd =>
    have hscanned := Occurs.scanned hmade hclass
    have hwd := Field.wellFormed_of_mem (Occurs.wellFormed hw hclass).2.1 d hd
    refine Field.stands d hwd (hscanned.field d hd) (hscanned.part fun _ => ?_)
    exact ⟨_, List.mem_append_left _ (List.mem_map_of_mem hd)⟩

/-- The symbolic expressions of the statements of a source are read as their essences. -/
theorem Parsed.standsAll {n : NodeId} {source : Bytes} (h : (ofSource n source).faults = []) :
    Sexp.PlainAll (Stmt.sexps (ofSource n source).stmts) ∧
      Sexp.readAll (Stmt.sexps (ofSource n source).stmts) = (ofSource n source).stmts.map Stmt.essence := by
  obtain ⟨hw, hmade⟩ := ofSource_made h
  rw [← Stmt.essenceAll_eq_map]
  exact Sexp.standsAll (Stmt.standsAll _ hw ⟨{}, hmade {}⟩)

/-! ## Lines -/

/-- Symbolic expressions, each on a line of its own. -/
def Sexp.lines (xs : List Sexp) : Bytes := xs.flatMap fun x => x.text ++ [Bytes.newline]

/-- Lines determine the symbolic expressions on them. -/
theorem Sexp.lines_inj : ∀ {xs ys : List Sexp}, PlainAll xs → PlainAll ys → lines xs = lines ys → xs = ys
  | [], [], _, _, _ => rfl
  | [], y :: ys, _, _, h => by simp [lines] at h
  | x :: xs, [], _, _, h => by simp [lines] at h
  | x :: xs, y :: ys, hx, hy, h => by
    have hend : ∀ zs, Ended (Bytes.newline :: lines zs) := fun zs => ended_cons (by decide) _
    have happend : x.text ++ Bytes.newline :: lines xs = y.text ++ Bytes.newline :: lines ys := by
      simpa [lines] using h
    obtain ⟨rfl, hrest⟩ := text_append_inj x y hx.1 hy.1 (hend xs) (hend ys) happend
    rw [lines_inj hx.2 hy.2 (List.cons.inj hrest).2]

theorem unpack_append (s t : ByteArray) : unpack (s ++ t) = unpack s ++ unpack t := by
  simp [unpack]

theorem Sink.write?_written {s t : Sink} {bytes : ByteArray} (h : s.write? bytes = some t) :
    t.written = s.written ++ bytes := by
  unfold write? at h
  split at h
  · split at h
    · cases h
    · cases h
      rfl
  · cases h
    rfl

/-- A dump that goes through writes the statements as lines behind what has been written before. -/
theorem Session.dump_written (ss : List Stmt) : ∀ {err : Sink}, (dump err ss).2 = true →
    unpack (dump err ss).1.written = unpack err.written ++ Sexp.lines (Stmt.sexps ss) := by
  induction ss with
  | nil => exact fun _ => (List.append_nil _).symm
  | cons s ss ih =>
    intro err hok
    unfold dump at hok ⊢
    cases hwrite : err.write? (s.dump ++ text "\n").pack with
    | none =>
      rw [hwrite] at hok
      cases hok
    | some t =>
      rw [hwrite] at hok
      have hline : unpack t.written = unpack err.written ++ (s.sexp.text ++ [Bytes.newline]) := by
        rw [Sink.write?_written hwrite, unpack_append, unpack_pack, Stmt.dump_eq]
        rfl
      calc unpack (dump t ss).1.written
          = unpack t.written ++ Sexp.lines (Stmt.sexps ss) := ih hok
        _ = unpack err.written ++ (s.sexp.text ++ [Bytes.newline] ++ Sexp.lines (Stmt.sexps ss)) := by
          rw [hline, List.append_assoc]

/-! ## Unambiguity -/

theorem Stmt.sexps_eq_of_essence {ss ts : List Stmt} (h : ss.map Stmt.essence = ts.map Stmt.essence) :
    Stmt.sexps ss = Stmt.sexps ts := by
  rw [← Stmt.sexps_essence ss, ← Stmt.sexps_essence ts, Stmt.essenceAll_eq_map ss,
    Stmt.essenceAll_eq_map ts, h]

namespace Parsed

variable {n m : NodeId} {source source' : Bytes}

theorem lines_eq_iff (h : (ofSource n source).faults = []) (h' : (ofSource m source').faults = []) :
    Sexp.lines (Stmt.sexps (ofSource n source).stmts) = Sexp.lines (Stmt.sexps (ofSource m source').stmts) ↔
      (ofSource n source).stmts.map Stmt.essence = (ofSource m source').stmts.map Stmt.essence := by
  obtain ⟨hplain, hread⟩ := standsAll h
  obtain ⟨hplain', hread'⟩ := standsAll h'
  constructor
  · intro hlines
    rw [← hread, ← hread', Sexp.lines_inj hplain hplain' hlines]
  · intro hessence
    rw [Stmt.sexps_eq_of_essence hessence]

/-- In two sources without faults, no statement or member is shown with a newline, and two of them are
shown alike exactly if they have the same essence. What a dump of all statements writes is the same exactly
if the essences are, one by one. -/
theorem dump_unambiguous (h : (ofSource n source).faults = []) (h' : (ofSource m source').faults = []) :
    (∀ x : Showable, x.In (ofSource n source).stmts → Bytes.newline ∉ x.dump ∧
      ∀ y : Showable, y.In (ofSource m source').stmts → (x.dump = y.dump ↔ x.essence = y.essence)) ∧
    ∀ err, (Session.dump err (ofSource n source).stmts).2 = true →
      (Session.dump err (ofSource m source').stmts).2 = true →
      ((Session.dump err (ofSource n source).stmts).1.written =
          (Session.dump err (ofSource m source').stmts).1.written ↔
        (ofSource n source).stmts.map Stmt.essence = (ofSource m source').stmts.map Stmt.essence) := by
  refine ⟨fun x hx => ⟨?_, fun y hy => ?_⟩, fun err hok hok' => ?_⟩
  · rw [x.dump_eq]
    exact x.sexp.newline_notMem (stands_of_in h hx).plain
  · exact Showable.dump_eq_iff (stands_of_in h hx) (stands_of_in h' hy)
  · -- packing loses nothing, and what was there before is the same on both sides
    have hpack : ∀ x y : ByteArray, x = y ↔ unpack x = unpack y := fun x y =>
      ⟨congrArg unpack, fun heq => by rw [← pack_unpack x, heq, pack_unpack]⟩
    rw [hpack, Session.dump_written _ hok, Session.dump_written _ hok', List.append_cancel_left_eq]
    exact lines_eq_iff h h'

/-- Two loops: one starts with `none` and writes a tab as an escape, the other has `none` for a condition
and a tab in the text. They are shown alike. -/
theorem dump_unambiguous_spellings :
    ∃ s t, (ofSource 0 (text "for (none;;) print \"a\\tb\";")).stmts = [s] ∧
      (ofSource 7 (text "for (;none;)\n  print \"a\tb\";")).stmts = [t] ∧
      Bytes.newline ∉ s.dump ∧ s.dump = t.dump ∧ s.essence = t.essence ∧
      (Session.dump {} [s]).1.written = (Session.dump {} [t]).1.written := by
  obtain ⟨s, hs⟩ := List.length_eq_one_iff.1
    (by decide +kernel : (ofSource 0 (text "for (none;;) print \"a\\tb\";")).stmts.length = 1)
  obtain ⟨t, ht⟩ := List.length_eq_one_iff.1
    (by decide +kernel : (ofSource 7 (text "for (;none;)\n  print \"a\tb\";")).stmts.length = 1)
  have hdumps : (ofSource 0 (text "for (none;;) print \"a\\tb\";")).stmts.map Stmt.dump =
      (ofSource 7 (text "for (;none;)\n  print \"a\tb\";")).stmts.map Stmt.dump := by decide +kernel
  rw [hs, ht] at hdumps
  have hshown : s.dump = t.dump := List.singleton_inj.1 hdumps
  have hunambiguous := dump_unambiguous
    (by decide +kernel : (ofSource 0 (text "for (none;;) print \"a\\tb\";")).faults = [])
    (by decide +kernel : (ofSource 7 (text "for (;none;)\n  print \"a\tb\";")).faults = [])
  rw [hs, ht] at hunambiguous
  obtain ⟨hstmts, hwritten⟩ := hunambiguous
  have hin : ∀ u, (Showable.stmt u).In [u] := fun u => .stmt (Below.here.part List.mem_cons_self)
  obtain ⟨hline, hiff⟩ := hstmts (.stmt s) (hin s)
  have hessence : s.essence = t.essence := Showable.stmt.inj ((hiff (.stmt t) (hin t)).1 hshown)
  exact ⟨s, t, hs, ht, hline, hshown, hessence, (hwritten {} rfl rfl).2 (congrArg ([·]) hessence)⟩

end Parsed

end Treewalk
