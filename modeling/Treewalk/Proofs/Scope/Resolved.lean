import Treewalk.Interpreter
import Treewalk.Proofs.Parser.Exact
import Treewalk.Proofs.Scope.Check
import Treewalk.Proofs.Scope.Numbering
import Treewalk.Proofs.Token.Scan
import Mathlib.Data.List.Nodup

/-!
# Compiled programs

A source that is accepted leaves the distances of its local names in the table of the interpreter, under
identities that no other source has. Sources compiled later do not touch them, so that what is known of a
program when it was compiled (`Fragment.Resolved`) stays true for the whole session.

Main results: `Interpreter.compile_eq_ok` and `Interpreter.compile_knows`.
-/

namespace Treewalk

/-! ## The table of distances -/

namespace Distances

theorem find?_insert (d : Distances) (id : NodeId) (distance : Nat) (i : NodeId) :
    (d.insert id distance).find? i = if i = id then some distance else d.find? i := by
  unfold insert find?
  split
  · rename_i h
    by_cases hi : i = id
    · subst hi
      simp [h]
    · simp [hi, Ne.symm hi]
  · rename_i h
    have hsize : (d.table ++ Array.replicate (id - d.table.size) none).size = id := by
      rw [Array.size_append, Array.size_replicate]
      exact Nat.add_sub_of_le (Nat.le_of_not_lt h)
    rw [Array.getElem?_push, hsize]
    by_cases hi : i = id
    · simp [hi]
    · rw [if_neg hi, if_neg hi, Array.getElem?_append]
      split
      · rfl
      · -- the places in between hold nothing, like the places beyond the end
        rename_i hsmall
        rw [Array.getElem?_replicate, Array.getElem?_eq_none (Nat.le_of_not_lt hsmall)]
        split <;> rfl

theorem find?_insertAll_of_forall_ne (uses : List LocalUse) (d : Distances) {i : NodeId}
    (h : ∀ u ∈ uses, u.id ≠ i) : (d.insertAll uses).find? i = d.find? i := by
  induction uses generalizing d with
  | nil => rfl
  | cons u rest ih =>
    have hu : u.id ≠ i := h u List.mem_cons_self
    have hrest : ∀ u ∈ rest, u.id ≠ i := fun u' hu' => h u' (List.mem_cons_of_mem _ hu')
    have hhead : (d.insert u.id u.distance).find? i = d.find? i := by
      rw [find?_insert, if_neg (Ne.symm hu)]
    exact (ih (d.insert u.id u.distance) hrest).trans hhead

/-- Under different identities every distance is found. -/
theorem find?_insertAll_of_mem (uses : List LocalUse) (d : Distances)
    (hnodup : (uses.map (·.id)).Nodup) {u : LocalUse} (hu : u ∈ uses) :
    (d.insertAll uses).find? u.id = some u.distance := by
  induction uses generalizing d with
  | nil => cases hu
  | cons v rest ih =>
    rw [List.map_cons, List.nodup_cons] at hnodup
    rcases List.mem_cons.1 hu with rfl | hu
    · have hrest : ∀ w ∈ rest, w.id ≠ u.id := by
        intro w hw heq
        exact hnodup.1 (List.mem_map.2 ⟨w, hw, heq⟩)
      have hhead : (d.insert u.id u.distance).find? u.id = some u.distance := by
        rw [find?_insert, if_pos rfl]
      exact (find?_insertAll_of_forall_ne rest _ hrest).trans hhead
    · exact ih (d.insert v.id v.distance) hnodup.2 hu

end Distances

/-! ## Resolved pieces -/

/-- A piece stands where it may, and the distance of the name it uses, whose identity is below `n`, is the
one in its environs. -/
def Fragment.Resolved (d : Distances) (n : NodeId) (Γ : Environs) (p : Fragment) : Prop :=
  p.Placed Γ ∧ ∀ e id name, p = .expr e → e.use? = some (id, name) →
    id < n ∧ d.find? id = Γ.distance? name

theorem Fragment.Resolved.mono {d d' : Distances} {n n' : NodeId} {Γ : Environs} {p : Fragment}
    (h : p.Resolved d n Γ) (hd : ∀ i < n, d'.find? i = d.find? i) (hn : n ≤ n') :
    p.Resolved d' n' Γ := by
  refine ⟨h.1, fun e id name he huse => ?_⟩
  obtain ⟨hid, hfind⟩ := h.2 e id name he huse
  exact ⟨Nat.lt_of_lt_of_le hid hn, (hd id hid).trans hfind⟩

/-- The check of a list of statements comes to its end, whatever it finds. -/
theorem Stmt.checkAll_ends (ctx : Scope.Context) (stmts : List Stmt) :
    ∀ (exited : Bool) (s : Scope.State), ∃ s', Stmt.checkAll ctx exited stmts s = .ok () s' := by
  induction stmts with
  | nil => exact fun _ s => ⟨s, by rw [Stmt.checkAll]; rfl⟩
  | cons stmt rest ih =>
    intro exited s
    have hrecording : ∀ s, ∃ s', Scope.recording (stmt.check ctx) s = .ok () s' := by
      intro s
      unfold Scope.recording
      split <;> exact ⟨_, rfl⟩
    have hboth : ∀ s, ∃ s', (do
        Scope.recording (stmt.check ctx)
        Stmt.checkAll ctx stmt.exits rest : Check Unit) s = .ok () s' := by
      intro s
      obtain ⟨s₁, h₁⟩ := hrecording s
      obtain ⟨s₂, h₂⟩ := ih stmt.exits s₁
      exact ⟨s₂, by simp only [bind, EStateM.bind, h₁, h₂]⟩
    rw [Stmt.checkAll]
    cases exited with
    | false => exact hboth s
    | true => exact hboth _

/-- The uses that a check without faults found, and what they say about the program. -/
theorem ofProgram_finds {stmts : List Stmt} (hw : Stmt.WellFormedAll stmts)
    (hfaults : (Resolution.ofProgram stmts).faults = []) :
    ∃ marks : List Mark,
      (Resolution.ofProgram stmts).uses.map (fun u => (u.id, u.distance)) = (settled marks).reverse ∧
      (marks.map Prod.fst).Subperm (Stmt.nodesAll stmts) ∧
      Everywhere (Fragment.Lawful marks) {} (.list stmts) := by
  obtain ⟨s', hrun⟩ := Stmt.checkAll_ends {} stmts false {}
  have hresolution : Resolution.ofProgram stmts =
      { uses := s'.uses.reverse, faults := s'.faults.reverse, warnings := s'.warnings.reverse } := by
    unfold Resolution.ofProgram
    rw [hrun]
  rw [hresolution] at hfaults ⊢
  obtain ⟨-, marks, hnoted, hsub, hall⟩ :=
    (Stmt.checkAll_finds stmts {} false hw).finds {} s' rfl hrun (List.reverse_eq_nil_iff.1 hfaults)
  refine ⟨marks, ?_, hsub, hall marks (List.Subset.refl _)⟩
  have huses : s'.uses.map (fun u => (u.id, u.distance)) = settled marks :=
    hnoted.trans (List.append_nil _)
  rw [List.map_reverse, huses]

theorem mem_settled {marks : List Mark} {id : NodeId} {distance : Nat} :
    (id, distance) ∈ settled marks ↔ (id, some distance) ∈ marks := by
  simp only [settled, List.mem_filterMap, Option.map_eq_some_iff, Prod.mk.injEq]
  constructor
  · rintro ⟨⟨i, o⟩, hmem, d, rfl, rfl, rfl⟩
    exact hmem
  · intro h
    exact ⟨_, h, distance, rfl, rfl, rfl⟩

theorem settled_sublist (marks : List Mark) :
    ((settled marks).map Prod.fst).Sublist (marks.map Prod.fst) := by
  induction marks with
  | nil => exact .slnil
  | cons m rest ih =>
    obtain ⟨id, distance⟩ := m
    cases distance with
    | none => exact ih.cons id
    | some d => exact ih.cons_cons id

/-- Marks under different identities that the table did not hold before are all found in it. -/
theorem find?_insertAll_of_mark {d : Distances} {uses : List LocalUse} {marks : List Mark}
    (huses : uses.map (fun u => (u.id, u.distance)) = (settled marks).reverse)
    (hnodup : (marks.map Prod.fst).Nodup) {id : NodeId} {distance : Option Nat}
    (hmark : (id, distance) ∈ marks) (hfresh : d.find? id = none) :
    (d.insertAll uses).find? id = distance := by
  have hmem : ∀ pair : NodeId × Nat,
      pair ∈ settled marks ↔ ∃ u ∈ uses, (u.id, u.distance) = pair := by
    intro pair
    rw [← List.mem_reverse, ← huses, List.mem_map]
  cases distance with
  | some n =>
    obtain ⟨u, hu, heq⟩ := (hmem (id, n)).1 (mem_settled.2 hmark)
    obtain ⟨rfl, rfl⟩ := Prod.mk.inj heq
    refine Distances.find?_insertAll_of_mem uses d ?_ hu
    have hids : uses.map (·.id) = ((settled marks).map Prod.fst).reverse := by
      rw [← List.map_reverse, ← huses, List.map_map]
      rfl
    rw [hids, List.nodup_reverse]
    exact (settled_sublist marks).nodup hnodup
  | none =>
    rw [← hfresh]
    refine Distances.find?_insertAll_of_forall_ne uses d fun u hu heq => ?_
    have hother : (id, some u.distance) ∈ marks := by
      rw [← heq]
      exact mem_settled.1 ((hmem (u.id, u.distance)).2 ⟨u, hu, rfl⟩)
    have hsame := List.inj_on_of_nodup_map hnodup hmark hother rfl
    cases hsame

/-! ## Compiling -/

/-- The statements of a source whose text is right are well formed and written out by its tokens. -/
theorem Parsed.ofSource_reads {n : NodeId} {source : Bytes}
    (h : (Parsed.ofSource n source).faults = []) :
    ∃ ts e, (∀ t ∈ ts, t.Proper) ∧ e.kind = .eof ∧
      Stmt.WellFormedAll (Parsed.ofSource n source).stmts ∧
      Stmt.ReadsAll (Parsed.ofSource n source).stmts (ts ++ [e], n)
        ([e], (Parsed.ofSource n source).nextId) := by
  obtain ⟨ts, e, htokens, he, hproper⟩ := Token.scan_tokens source
  have hparsed : (Parsed.ofTokens n (ts ++ [e])).faults = [] := by
    rw [← htokens]
    exact (List.append_eq_nil_iff.1 h).2
  obtain ⟨hw, hreads⟩ := reads_of_ofTokens (fun t ht => (hproper t ht).kind) he hparsed
  refine ⟨ts, e, hproper, he, ?_⟩
  simp only [Parsed.ofSource, htokens]
  exact ⟨hw, hreads⟩

/-- What holds of all tokens of a source but the last holds of those in its statements. -/
theorem Parsed.made_of_tokens {P : Token → Prop} {n : NodeId} {source : Bytes}
    (h : (Parsed.ofSource n source).faults = [])
    (hP : ∀ t ∈ (Token.scan source).tokens, t.kind ≠ .eof → P t) :
    (Fragment.list (Parsed.ofSource n source).stmts).Made P := by
  obtain ⟨ts, e, htokens, he, hproper⟩ := Token.scan_tokens source
  obtain ⟨-, hparsed⟩ := List.append_eq_nil_iff.1 h
  simp only [Parsed.ofSource, htokens] at hparsed ⊢
  obtain ⟨-, hreads⟩ := reads_of_ofTokens (fun t ht => (hproper t ht).kind) he hparsed
  have hcut := readsAll_append hreads []
  rw [List.append_nil] at hcut
  refine (Stmt.readsAll_drawn _ hcut).built fun t ht => hP t ?_ (hproper t ht).kind
  rw [htokens]
  exact List.mem_append_left _ ht

/-- The tokens of a source whose text is right are all proper in its statements, and the identities are
new. -/
theorem Parsed.ofSource_drawn {n : NodeId} {source : Bytes}
    (h : (Parsed.ofSource n source).faults = []) :
    Treewalk.Numbered (Stmt.nodesAll (Parsed.ofSource n source).stmts) n
        (Parsed.ofSource n source).nextId ∧
      (Fragment.list (Parsed.ofSource n source).stmts).Throughout Token.Proper := by
  obtain ⟨ts, e, hproper, -, -, hreads⟩ := Parsed.ofSource_reads h
  have hcut := readsAll_append hreads []
  rw [List.append_nil] at hcut
  have hdrawn := Stmt.readsAll_drawn (P := Token.Proper) _ hcut
  exact ⟨hdrawn.numbered, (hdrawn.built hproper).throughout⟩

namespace Interpreter

/-- The table holds distances of identities given out before only. -/
def TableBelow (i : Interpreter) : Prop := ∀ id, i.nextId ≤ id → i.distances.find? id = none

/-- The interpreter has compiled a program: its pieces are resolved, and its tokens come from a source. -/
def Knows (i : Interpreter) (stmts : List Stmt) : Prop :=
  Everywhere (fun Γ p => p.Resolved i.distances i.nextId Γ ∧ p.Built Token.Proper) {} (.list stmts)

/-- What an interpreter knows of one program it knows for good. -/
theorem Knows.mono {i i' : Interpreter} {stmts : List Stmt} (h : i.Knows stmts)
    (hd : ∀ id < i.nextId, i'.distances.find? id = i.distances.find? id)
    (hn : i.nextId ≤ i'.nextId) : i'.Knows stmts :=
  Everywhere.mono h fun _ _ hp => ⟨hp.1.mono hd hn, hp.2⟩

/-- Accepting a source: what it takes, and what comes of it. -/
theorem compile_eq_ok {i : Interpreter} {source : Bytes} {stmts : List Stmt}
    (h : (i.compile source).1.stmts = .ok stmts) :
    (Parsed.ofSource i.nextId source).faults = [] ∧
      (Parsed.ofSource i.nextId source).stmts = stmts ∧
      (Resolution.ofProgram stmts).faults = [] ∧
      (i.compile source).2 =
        { i with
          nextId := (Parsed.ofSource i.nextId source).nextId
          distances := i.distances.insertAll (Resolution.ofProgram stmts).uses } := by
  unfold compile at h ⊢
  cases hparsed : (Parsed.ofSource i.nextId source).faults with
  | cons d ds => simp [hparsed, Failure.ofFaults?] at h
  | nil =>
    simp only [hparsed, Failure.ofFaults?] at h ⊢
    cases hfaults : (Resolution.ofProgram (Parsed.ofSource i.nextId source).stmts).faults with
    | cons d ds => simp [hfaults] at h
    | nil =>
      simp only [hfaults, Except.ok.injEq] at h ⊢
      subst h
      exact ⟨trivial, rfl, hfaults, rfl⟩

/-- An accepted source is known from then on, and nothing that was known is lost. -/
theorem compile_knows {i : Interpreter} {source : Bytes} {stmts : List Stmt}
    (h : (i.compile source).1.stmts = .ok stmts) (htable : i.TableBelow) :
    (i.compile source).2.Knows stmts ∧ (i.compile source).2.TableBelow ∧
      i.nextId ≤ (i.compile source).2.nextId ∧
      ∀ id < i.nextId, (i.compile source).2.distances.find? id = i.distances.find? id := by
  obtain ⟨hparsed, hstmts, hfaults, heq⟩ := compile_eq_ok h
  obtain ⟨_, _, _, _, hw, _⟩ := Parsed.ofSource_reads hparsed
  obtain ⟨hnumbered, hbuilt⟩ := Parsed.ofSource_drawn hparsed
  rw [hstmts] at hw hnumbered hbuilt
  obtain ⟨marks, huses, hsub, hall⟩ := ofProgram_finds hw hfaults
  have hmarks : ∀ id distance, (id, distance) ∈ marks →
      i.nextId ≤ id ∧ id < (Parsed.ofSource i.nextId source).nextId := by
    intro id distance hmem
    exact hnumbered.within id (hsub.subset (List.mem_map.2 ⟨_, hmem, rfl⟩))
  have hnodup : (marks.map Prod.fst).Nodup := by
    obtain ⟨ids, hperm, hsublist⟩ := hsub
    exact hperm.nodup_iff.1 (hsublist.nodup hnumbered.nodup)
  have hids : ∀ u ∈ (Resolution.ofProgram stmts).uses,
      i.nextId ≤ u.id ∧ u.id < (Parsed.ofSource i.nextId source).nextId := by
    intro u hu
    have hmem : (u.id, u.distance) ∈ (settled marks).reverse := by
      rw [← huses]
      exact List.mem_map.2 ⟨u, hu, rfl⟩
    exact hmarks u.id _ (mem_settled.1 (List.mem_reverse.1 hmem))
  rw [heq]
  refine ⟨fun Γ p hbelow => ⟨?_, hbuilt {} Γ p hbelow⟩, ?_, hnumbered.le, ?_⟩
  · obtain ⟨hplaced, hlawful⟩ := hall Γ p hbelow
    refine ⟨hplaced, fun e id name he huse => ?_⟩
    have hmark := hlawful e id name he huse
    refine ⟨(hmarks id _ hmark).2, ?_⟩
    exact find?_insertAll_of_mark huses hnodup hmark (htable id (hmarks id _ hmark).1)
  · intro id hid
    have hne : ∀ u ∈ (Resolution.ofProgram stmts).uses, u.id ≠ id := fun u hu heq =>
      Nat.not_lt.2 hid (heq ▸ (hids u hu).2)
    exact (Distances.find?_insertAll_of_forall_ne _ _ hne).trans
      (htable id (Nat.le_trans hnumbered.le hid))
  · intro id hid
    have hne : ∀ u ∈ (Resolution.ofProgram stmts).uses, u.id ≠ id := fun u hu heq =>
      Nat.not_lt.2 (hids u hu).1 (heq ▸ hid)
    exact Distances.find?_insertAll_of_forall_ne _ _ hne

end Interpreter

end Treewalk
