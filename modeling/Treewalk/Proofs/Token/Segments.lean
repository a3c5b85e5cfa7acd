import Treewalk.Proofs.Text.Decode
import Treewalk.Token.Segment

/-!
# Segments in order

Cutting goes from segment to segment (`cut_cons`), and the tokens and faults of a source are those of its
segments, each at the position that the runes before it lead to (`scan_eq`).
-/

namespace Treewalk

/-! ## Cutting -/

namespace Segment

theorem cutInto_eq (rs : List Rune) : ∀ (done : List Segment) (skip : Nat),
    cutInto done skip rs = done.reverse ++ cut (rs.drop skip) := by
  induction rs with
  | nil =>
    intro done skip
    simp [cutInto, cut]
  | cons r rest ih =>
    intro done skip
    cases skip with
    | zero => simp [cut, cutInto, ih]
    | succ skip => rw [cutInto, ih, List.drop_succ_cons]

@[simp] theorem cut_nil : cut [] = [] := rfl

theorem cut_cons (r : Rune) (rest : List Rune) :
    cut (r :: rest) = ⟨(front r rest).1, r :: rest.take (front r rest).2⟩ ::
      cut (rest.drop (front r rest).2) := by
  show cutInto [⟨(front r rest).1, r :: rest.take (front r rest).2⟩] (front r rest).2 rest = _
  rw [cutInto_eq]
  rfl

/-- Along a source from segment to segment. -/
theorem cut_induction {motive : List Rune → Prop} (nil : motive [])
    (cons : ∀ r rest, motive (rest.drop (front r rest).2) → motive (r :: rest)) (rs : List Rune) :
    motive rs := by
  induction hn : rs.length using Nat.strongRecOn generalizing rs with
  | _ n ih =>
    cases rs with
    | nil => exact nil
    | cons r rest =>
      refine cons r rest (ih _ ?_ _ rfl)
      rw [← hn, List.length_drop, List.length_cons]
      omega

end Segment

/-! ## Positions -/

theorem Position.after_append (p : Position) (rs ts : List Rune) :
    p.after (rs ++ ts) = (p.after rs).after ts := List.foldl_append

/-! ## Tokens and faults of segments -/

namespace Segment

/-- The token that a segment at a position is, if it is one. -/
def token? (pos : Position) (s : Segment) : Option Token :=
  match s.form with
  | .token kind literal => some ⟨kind, Rune.bytes s.runes, literal, pos⟩
  | _ => none

/-- The fault that a segment at a position is, if it is one. -/
def fault? (pos : Position) (s : Segment) : Option Diagnostic :=
  match s.form with
  | .fault f => some (f.diagnostic pos (Rune.bytes s.runes))
  | _ => none

/-- What `pick` finds in segments that stand one behind the other, from a position on. -/
def gather {α : Type} (pick : Position → Segment → Option α) : Position → List Segment → List α
  | _, [] => []
  | pos, s :: ss => (pick pos s).toList ++ gather pick (pos.after s.runes) ss

/-- The runes of segments in order. -/
def runesAll (ss : List Segment) : List Rune := ss.flatMap runes

@[simp] theorem runesAll_cons (s : Segment) (ss : List Segment) :
    runesAll (s :: ss) = s.runes ++ runesAll ss := rfl

@[simp] theorem runesAll_append (ss ts : List Segment) : runesAll (ss ++ ts) = runesAll ss ++ runesAll ts :=
  List.flatMap_append

theorem gather_append {α : Type} (pick : Position → Segment → Option α) (ss ts : List Segment) :
    ∀ pos, gather pick pos (ss ++ ts) = gather pick pos ss ++ gather pick (pos.after (runesAll ss)) ts := by
  induction ss with
  | nil => exact fun _ => rfl
  | cons s ss ih =>
    intro pos
    simp only [List.cons_append, gather, ih, runesAll_cons, Position.after_append, List.append_assoc]

/-- What is found in a segment has segments before it and segments behind it. -/
theorem mem_gather {α : Type} {pick : Position → Segment → Option α} {a : α} {ss : List Segment} :
    ∀ {pos : Position}, a ∈ gather pick pos ss → ∃ done s later, ss = done ++ s :: later ∧
      pick (pos.after (runesAll done)) s = some a := by
  induction ss with
  | nil => nofun
  | cons s ss ih =>
    intro pos ha
    rcases List.mem_append.1 ha with ha | ha
    · exact ⟨[], s, ss, rfl, Option.mem_toList.1 ha⟩
    · obtain ⟨done, s', later, rfl, hpick⟩ := ih ha
      refine ⟨s :: done, s', later, rfl, ?_⟩
      rw [runesAll_cons, Position.after_append]
      exact hpick

/-- The segments of a source are the source. -/
theorem runesAll_cut (rs : List Rune) : runesAll (cut rs) = rs := by
  induction rs using cut_induction with
  | nil => rfl
  | cons r rest ih =>
    rw [cut_cons, runesAll_cons, ih, List.cons_append, List.take_append_drop]

end Segment

namespace Token

open Segment

theorem Progress.foldl_add (ss : List Segment) : ∀ p : Progress, ss.foldl Progress.add p =
    { pos := p.pos.after (runesAll ss)
      tokens := (gather token? p.pos ss).reverse ++ p.tokens
      faults := (gather fault? p.pos ss).reverse ++ p.faults } := by
  induction ss with
  | nil => exact fun _ => rfl
  | cons s ss ih =>
    intro p
    have hadd : p.add s =
        { pos := p.pos.after s.runes
          tokens := (token? p.pos s).toList ++ p.tokens
          faults := (fault? p.pos s).toList ++ p.faults } := by
      unfold Progress.add token? fault?
      cases s.form <;> rfl
    have hreverse : ∀ {α : Type} (o : Option α), o.toList.reverse = o.toList := fun o => by
      cases o <;> rfl
    simp [ih, hadd, gather, hreverse, runesAll, Position.after_append]

/-- Tokens and faults are those of the segments; the end of input comes behind them all. -/
theorem scan_eq (source : Bytes) : scan source =
    { tokens := gather token? .start (cut (Rune.decode source)) ++
        [⟨.eof, [], .none, Position.start.after (Rune.decode source)⟩]
      faults := gather fault? .start (cut (Rune.decode source)) } := by
  simp [scan, Progress.foldl_add, runesAll_cut]

end Token

end Treewalk
