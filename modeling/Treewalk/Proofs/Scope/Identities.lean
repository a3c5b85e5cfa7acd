import Treewalk.Proofs.Parser.Drawing
import Treewalk.Proofs.Scope.Uses

/-!
# Identities of sources read one after another

The table of distances outlives the source it was made for, and it has one entry for an identity. So no two
expressions of any sources may have the same identity, be they in one source or in two, and no check may note
two uses under one identity.

A source takes its identities from where the source before it ended (`Parsed.series`), whether that source
had faults or not. The identities of a whole series are therefore numbered from its start
(`Parsed.series_numbered`); what a check notes is no more than the program has (`Resolution.uses_subperm`).
-/

namespace Treewalk.Parsed

/-- What parsing sources one after another gives: each takes its identities from where the one before it
ended. -/
def series (n : NodeId) : List Bytes → List Parsed
  | [] => []
  | source :: sources => ofSource n source :: series (ofSource n source).nextId sources

/-- What a series gives was parsed somewhere in it. -/
theorem eq_ofSource_of_mem_series {sources : List Bytes} {n : NodeId} {p : Parsed}
    (h : p ∈ series n sources) : ∃ m source, p = ofSource m source := by
  induction sources generalizing n with
  | nil => cases h
  | cons source sources ih =>
    rcases List.mem_cons.1 h with rfl | h
    · exact ⟨n, source, rfl⟩
    · exact ih h

/-- The identities of a series are numbered from its start. -/
theorem series_numbered (sources : List Bytes) (n : NodeId) :
    ∃ m, Treewalk.Numbered ((series n sources).flatMap fun p => Stmt.nodesAll p.stmts) n m := by
  induction sources generalizing n with
  | nil => exact ⟨n, .nil n⟩
  | cons source sources ih =>
    obtain ⟨m, hrest⟩ := ih (ofSource n source).nextId
    exact ⟨m, (ofSource_draws n source).1.append hrest⟩

/-- Whatever sources are read one after another, with faults or without: all expressions in all that survives
have different identities, and the check of what survives of a source notes at most one use under each. -/
theorem series_identities_nodup (sources : List Bytes) (n : NodeId) :
    ((series n sources).flatMap fun p => Stmt.nodesAll p.stmts).Nodup ∧
      ∀ p ∈ series n sources, ((Resolution.ofProgram p.stmts).uses.map (·.id)).Nodup := by
  obtain ⟨m, hseries⟩ := series_numbered sources n
  refine ⟨hseries.nodup, fun p hp => ?_⟩
  obtain ⟨k, source, rfl⟩ := eq_ofSource_of_mem_series hp
  obtain ⟨hnumbered, -⟩ := ofSource_draws k source
  exact (hnumbered.subperm (Resolution.uses_subperm _)).nodup

end Treewalk.Parsed
