import Mathlib.Logic.Function.Basic
import Treewalk.Proofs.Store.Calls

/-!
# Frames kept in two parts

A frame may be kept in two parts, a table of entries and, apart from it, the order of its names. Both are written in
place, one write after another: a definition enters the name in the table and then lists it, and a registration sets
the protection after that. `Ledger` is such a frame and `Clerk` such a program. The refusals of a program lie on top
of its state, so a refusal takes no write back.

Main result: a call on frames comes to the same as the program that is run for it in place
(`FrameCall.inPlace_mirrors`). So the program keeps table and order in step, and it has written nothing when it is
refused.
-/

namespace Treewalk

/-- A frame in two parts: a table of values with their protection, and the order of the names. -/
structure Ledger where
  parent : Option FrameId
  table : Bytes → Option (Value × Bool) := fun _ => none
  order : List Bytes := []

/-- The two parts of a frame. -/
def Frame.ledger (f : Frame) : Ledger where
  parent := f.parent
  table name := (f.find? name).map fun b => (b.value, b.isProtected)
  order := f.names

theorem Frame.parent_ledger (f : Frame) : f.ledger.parent = f.parent := rfl

theorem Frame.table_ledger (f : Frame) (name : Bytes) :
    f.ledger.table name = (f.find? name).map fun b => (b.value, b.isProtected) := rfl

/-- The two parts of every frame. -/
def Store.ledgers (s : Store) : Array Ledger := s.frames.map Frame.ledger

/-! ## Programs -/

/-- A program that writes to ledgers in place. What it wrote before a refusal stays. -/
abbrev Clerk (ε : Type) := ExceptT ε (StateM (Array Ledger))

namespace Clerk

variable {ε : Type}

/-- What a program comes to, and the ledgers that it leaves. -/
def on {α : Type} (p : Clerk ε α) (ledgers : Array Ledger) : Except ε α × Array Ledger := p.run.run ledgers

/-- The same program with other refusals. -/
def wrap {ε' α : Type} (p : Clerk ε α) (g : ε → ε') : Clerk ε' α := ExceptT.adapt g p

def read (f : FrameId) : Clerk ε Ledger := do return (← get)[f]?.getD { parent := none }

/-- Writes to the table. -/
def enter (f : FrameId) (name : Bytes) (entry : Value × Bool) : Clerk ε Unit :=
  modify (·.modify f fun l => { l with table := Function.update l.table name (some entry) })

/-- Sets the protection of an entry of the table. -/
def protect (f : FrameId) (name : Bytes) (isProtected : Bool) : Clerk ε Unit :=
  modify (·.modify f fun l =>
    { l with table := Function.update l.table name ((l.table name).map fun e => (e.1, isProtected)) })

/-- Writes to the order of the names. -/
def list (f : FrameId) (name : Bytes) : Clerk ε Unit :=
  modify (·.modify f fun l => { l with order := l.order ++ [name] })

def create (parent : Option FrameId) : Clerk ε Unit := modify (·.push { parent })

def define (f : FrameId) (name : Bytes) (v : Value) : Clerk BindError Unit := do
  if ((← read f).table name).isSome then throw (.alreadyDefined name)
  enter f name (v, false)
  list f name

def register (f : FrameId) (name : Bytes) (v : Value) (isProtected : Bool) : Clerk BindError Unit := do
  (define f name v).wrap (.registering name)
  protect f name isProtected

/-- The first frame up the chain that has an entry; `fuel` as for the search of a store. -/
def seek (name : Bytes) : (fuel : Nat) → FrameId → Clerk BindError FrameId
  | 0, f => do
    if ((← read f).table name).isSome then pure f else throw (.undefined name)
  | fuel + 1, f => do
    let ledger ← read f
    if (ledger.table name).isSome then pure f
    else
      let some up := ledger.parent | throw (.undefined name)
      seek name fuel up

def mutate (f : FrameId) (name : Bytes) (v : Value) : Clerk BindError Unit := do
  let g ← seek name f f
  let some (_, isProtected) := (← read g).table name | throw (.undefined name)
  if isProtected then throw (.isProtected name)
  enter g name (v, false)

/-- The frame a number of links up the chain. -/
def climb (distance : Int) : Nat → FrameId → Clerk Fault FrameId
  | 0, f => pure f
  | n + 1, f => do
    let some up := (← read f).parent | throw (.shortChain distance)
    climb distance n up

def putAt (f : FrameId) (distance : Int) (name : Bytes) (v : Value) : Clerk Fault Unit := do
  let g ← climb distance distance.toNat f
  let some (_, isProtected) := (← read g).table name | throw (.unbound name distance)
  enter g name (v, isProtected)

end Clerk

/-- The program of a call. -/
def FrameCall.inPlace : FrameCall → Clerk (BindError ⊕ Fault) Unit
  | create parent => Clerk.create parent
  | define f name v => (Clerk.define f name v).wrap .inl
  | register f name v isProtected => (Clerk.register f name v isProtected).wrap .inl
  | mutate f name v => (Clerk.mutate f name v).wrap .inl
  | putAt f distance name v => (Clerk.putAt f distance name v).wrap .inr

/-- The ledgers that the programs of some calls leave, one after the other, refused ones included. -/
def FrameCall.inPlaceAll (calls : List FrameCall) : Array Ledger :=
  calls.foldl (fun ledgers c => (c.inPlace.on ledgers).2) #[]

/-! ## Ledgers of a store -/

theorem Ledger.modify_modify (ledgers : Array Ledger) (f : FrameId) (write write' : Ledger → Ledger) :
    (ledgers.modify f write).modify f write' = ledgers.modify f fun l => write' (write l) := by
  refine Array.ext_getElem? fun i => ?_
  simp only [Array.getElem?_modify]
  split_ifs
  · rw [Option.map_map]
    rfl
  · rfl

namespace Store

variable {s : Store} {f : FrameId} {name : Bytes} {b : Binding}

theorem ledger_frame (s : Store) (f : FrameId) : s.ledgers[f]?.getD { parent := none } = (s.frame f).ledger := by
  rw [ledgers, frame, Array.getElem?_map]
  cases s.frames[f]? <;> rfl

/-- What changes a frame is written to its ledger. -/
theorem ledgers_modify {change : Frame → Frame} {write : Ledger → Ledger}
    (h : (change (s.frame f)).ledger = write (s.frame f).ledger) :
    ledgers { s with frames := s.frames.modify f change } = s.ledgers.modify f write := by
  refine Array.ext_getElem? fun i => ?_
  simp only [ledgers, Array.getElem?_map, Array.getElem?_modify]
  split_ifs with hi
  · subst hi
    cases hfound : s.frames[f]? with
    | none => rfl
    | some fr =>
      rw [frame, hfound] at h
      exact congrArg some h
  · rfl

theorem ledgers_add (h : b.name ∉ (s.frame f).names) :
    (s.add f b).ledgers = s.ledgers.modify f fun l =>
      { l with
        table := Function.update l.table b.name (some (b.value, b.isProtected))
        order := l.order ++ [b.name] } := by
  refine ledgers_modify ?_
  simp only [Frame.ledger, Frame.names_add, Frame.find?_add_new h]
  congr 1
  funext other
  by_cases hname : other = b.name <;> simp [hname]

theorem ledgers_put (hb : (s.frame f).find? name = some b) (v : Value) :
    (s.put f name v).ledgers = s.ledgers.modify f fun l =>
      { l with table := Function.update l.table name (some (v, b.isProtected)) } := by
  refine ledgers_modify ?_
  simp only [Frame.ledger, Frame.names_put, Frame.find?_put_bound hb]
  congr 1
  funext other
  by_cases hname : other = name <;> simp [hname]

end Store

/-! ## Calls and their programs -/

namespace Clerk

variable {ε ε' α β : Type} {s : Store} {f : FrameId} {name : Bytes} {ledgers : Array Ledger}

@[simp] theorem on_throw (e : ε) : (throw e : Clerk ε α).on ledgers = (.error e, ledgers) := rfl

@[simp] theorem on_bind (p : Clerk ε α) (q : α → Clerk ε β) : (p >>= q).on ledgers =
    match p.on ledgers with
    | (.ok a, ledgers') => (q a).on ledgers'
    | (.error e, ledgers') => (.error e, ledgers') := by
  show (match p.run.run ledgers with | (r, ledgers') => StateT.run (ExceptT.bindCont q r) ledgers') = _
  rw [on]
  rcases p.run.run ledgers with ⟨e | a, ledgers'⟩ <;> rfl

@[simp] theorem on_wrap (p : Clerk ε α) (g : ε → ε') :
    (p.wrap g).on ledgers = ((p.on ledgers).1.mapError g, (p.on ledgers).2) := rfl

@[simp] theorem on_read : (read f : Clerk ε Ledger).on ledgers =
    (.ok (ledgers[f]?.getD { parent := none }), ledgers) := rfl

@[simp] theorem on_enter (entry : Value × Bool) : (enter f name entry : Clerk ε Unit).on ledgers =
    (.ok (), ledgers.modify f fun l => { l with table := Function.update l.table name (some entry) }) := rfl

@[simp] theorem on_protect (isProtected : Bool) : (protect f name isProtected : Clerk ε Unit).on ledgers =
    (.ok (), ledgers.modify f fun l =>
      { l with table := Function.update l.table name ((l.table name).map fun e => (e.1, isProtected)) }) := rfl

@[simp] theorem on_list : (list f name : Clerk ε Unit).on ledgers =
    (.ok (), ledgers.modify f fun l => { l with order := l.order ++ [name] }) := rfl

/-- A program comes to the same as what is done at once, and leaves the ledgers of the store that this leaves. -/
def Mirrors (p : Clerk ε Unit) (s : Store) (r : Except ε Store) : Prop :=
  p.on s.ledgers = (r.map fun _ => (), (r.toOption.getD s).ledgers)

theorem mirrors_ok {p : Clerk ε Unit} {s' : Store} :
    p.Mirrors s (.ok s') ↔ p.on s.ledgers = (.ok (), s'.ledgers) := Iff.rfl

theorem mirrors_error {p : Clerk ε Unit} {e : ε} :
    p.Mirrors s (.error e) ↔ p.on s.ledgers = (.error e, s.ledgers) := Iff.rfl

theorem Mirrors.wrap {p : Clerk ε Unit} {r : Except ε Store} (h : p.Mirrors s r) (g : ε → ε') :
    (p.wrap g).Mirrors s (r.mapError g) := by
  rw [Mirrors, on_wrap, h]
  cases r <;> rfl

theorem create_mirrors (parent : Option FrameId) :
    (create parent : Clerk ε Unit).Mirrors s (.ok (s.newFrame parent).2) := by
  have hpush : ((s.newFrame parent).2).ledgers = s.ledgers.push { parent } := by
    rw [Store.newFrame, Store.ledgers, Store.ledgers, Array.map_push]
    rfl
  rw [mirrors_ok, hpush]
  rfl

theorem isSome_table : ((s.frame f).ledger.table name).isSome = s.binds f name := by
  rw [Frame.table_ledger, Option.isSome_map, Store.binds]

theorem define_mirrors (v : Value) : (define f name v).Mirrors s (s.define f name v false) := by
  by_cases hbound : name ∈ (s.frame f).names
  · rw [Store.define_bound hbound, mirrors_error, define]
    simp only [on_bind, on_read, Store.ledger_frame, isSome_table, Store.binds_iff.2 hbound, if_true, on_throw]
  · rw [Store.define_free hbound, mirrors_ok, Store.ledgers_add hbound, define]
    simp only [on_bind, on_read, Store.ledger_frame, isSome_table, mt Store.binds_iff.1 hbound,
      Bool.false_eq_true, if_false, on_enter, on_list, Ledger.modify_modify]

theorem register_mirrors (v : Value) (isProtected : Bool) :
    (register f name v isProtected).Mirrors s (s.register f name v isProtected) := by
  have hdefine : (define f name v).Mirrors s (s.define f name v false) := define_mirrors v
  rw [Store.register]
  by_cases hbound : name ∈ (s.frame f).names
  · rw [Store.define_bound hbound, mirrors_error] at hdefine
    rw [Store.define_bound hbound, Except.mapError, mirrors_error, register]
    simp only [on_bind, on_wrap, hdefine, Except.mapError]
  · -- the definition leaves an unprotected entry; only then the protection is set
    rw [Store.define_free hbound, mirrors_ok, Store.ledgers_add hbound] at hdefine
    rw [Store.define_free hbound, Except.mapError, mirrors_ok, Store.ledgers_add hbound, register]
    simp only [on_bind, on_wrap, hdefine, Except.mapError, on_protect, Ledger.modify_modify, Function.update_self,
      Option.map_some, Function.update_idem]

theorem on_seek (fuel : Nat) : ∀ f : FrameId, (seek name fuel f).on s.ledgers =
    ((s.owner? name fuel f).elim (.error (.undefined name)) .ok, s.ledgers) := by
  induction fuel with
  | zero =>
    intro f
    rw [seek, Store.owner?]
    simp only [on_bind, on_read, Store.ledger_frame, isSome_table]
    split_ifs <;> rfl
  | succ fuel ih =>
    intro f
    rw [seek, Store.owner?]
    simp only [on_bind, on_read, Store.ledger_frame, isSome_table, Frame.parent_ledger]
    split_ifs
    · rfl
    · cases (s.frame f).parent with
      | none => rfl
      | some up => exact ih up

theorem mutate_mirrors (v : Value) : (mutate f name v).Mirrors s (s.mutate f name v) := by
  rw [Store.mutate, Store.assignee]
  cases howner : s.owner? name f f with
  | none =>
    show (mutate f name v).Mirrors s (.error (.undefined name))
    rw [mirrors_error, mutate]
    simp only [on_bind, on_seek, howner, Option.elim_none]
  | some g =>
    obtain ⟨b, hb⟩ := (Store.nearest_of_owner? howner).find?
    simp only [hb, Option.any_some]
    cases hprotected : b.isProtected with
    | true =>
      show (mutate f name v).Mirrors s (.error (.isProtected name))
      rw [mirrors_error, mutate]
      simp only [on_bind, on_seek, howner, Option.elim_some, on_read, Store.ledger_frame, Frame.table_ledger, hb,
        Option.map_some, hprotected, if_true, on_throw]
    | false =>
      show (mutate f name v).Mirrors s (.ok (s.put g name v))
      rw [mirrors_ok, Store.ledgers_put hb, mutate]
      simp only [on_bind, on_seek, howner, Option.elim_some, on_read, Store.ledger_frame, Frame.table_ledger, hb,
        Option.map_some, hprotected, Bool.false_eq_true, if_false, on_enter]

theorem on_climb (distance : Int) (n : Nat) : ∀ f : FrameId, (climb distance n f).on s.ledgers =
    ((s.ancestor? f n).elim (.error (.shortChain distance)) .ok, s.ledgers) := by
  induction n with
  | zero => exact fun _ => rfl
  | succ n ih =>
    intro f
    rw [climb, Store.ancestor?]
    simp only [on_bind, on_read, Store.ledger_frame, Frame.parent_ledger]
    cases (s.frame f).parent with
    | none => rfl
    | some up => exact ih up

theorem putAt_mirrors (distance : Int) (v : Value) :
    (putAt f distance name v).Mirrors s (s.putAt f distance name v) := by
  rw [Store.putAt, Store.target]
  cases hancestor : s.ancestor? f distance.toNat with
  | none =>
    show (putAt f distance name v).Mirrors s (.error (.shortChain distance))
    rw [mirrors_error, putAt]
    simp only [on_bind, on_climb, hancestor, Option.elim_none]
  | some g =>
    cases hfind : (s.frame g).find? name with
    | none =>
      simp only [Frame.lookup?, hfind]
      show (putAt f distance name v).Mirrors s (.error (.unbound name distance))
      rw [mirrors_error, putAt]
      simp only [on_bind, on_climb, hancestor, Option.elim_some, on_read, Store.ledger_frame, Frame.table_ledger, hfind,
        Option.map_none, on_throw]
    | some b =>
      simp only [Frame.lookup?, hfind]
      show (putAt f distance name v).Mirrors s (.ok (s.put g name v))
      rw [mirrors_ok, Store.ledgers_put hfind, putAt]
      simp only [on_bind, on_climb, hancestor, Option.elim_some, on_read, Store.ledger_frame, Frame.table_ledger, hfind,
        Option.map_some, on_enter]

end Clerk

/-- Every call comes to the same as the program that is run for it in place. -/
theorem FrameCall.inPlace_mirrors (s : Store) (c : FrameCall) : c.inPlace.Mirrors s (c.perform s) := by
  cases c with
  | create parent => exact Clerk.create_mirrors parent
  | define f name v => exact (Clerk.define_mirrors v).wrap _
  | register f name v isProtected => exact (Clerk.register_mirrors v isProtected).wrap _
  | mutate f name v => exact (Clerk.mutate_mirrors v).wrap _
  | putAt f distance name v => exact (Clerk.putAt_mirrors distance v).wrap _

end Treewalk
