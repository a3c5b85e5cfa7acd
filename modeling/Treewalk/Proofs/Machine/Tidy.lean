import Treewalk.Proofs.Machine.Preservation
import Treewalk.Proofs.Store.Tidy

/-!
# Unassigned variables stay in their frames

The mark of an unassigned variable is no value for programs: reading the variable fails. There is only one
guard (`Machine.read`), but values go many ways: through operands, arguments, elements, fields, receivers,
results and host functions.

**The invariant** (`Machine.Tidy`). Nothing that a run holds outside its frames is the mark: the store is tidy,
and so is every value that waits or is handed on. The names bound to the mark are a given set `U`.

**One step** (`Machine.Tidy.step`). A step keeps the invariant. It takes a name out of `U` if it assigns to
it, and adds one if it declares it without a value (`Machine.unassigned`); nothing else changes `U`.
-/

namespace Treewalk

/-! ## Operators and natives -/

/-- A value without identity. -/
def Value.IsPlain : Value → Prop
  | .number _ | .string _ | .bool _ => True
  | _ => False

theorem Value.IsPlain.ne_unset {v : Value} (h : v.IsPlain) : v ≠ .unset := by
  rintro rfl
  exact h

theorem Value.ofLiteral_ne_unset (l : Literal) : Value.ofLiteral l ≠ .unset := by
  cases l <;> simp [Value.ofLiteral, Value.ofBytes]

/-! Operators give plain values only. -/

namespace Operator

variable {s : Store} {token : Token} {v w result : Value}

theorem unary_plain {op : UnaryOp} (h : unary s op token v = .ok result) : result.IsPlain := by
  unfold unary at h
  split at h <;> cases h <;> trivial

theorem concat_plain (h : concat s v w = .ok result) : result.IsPlain := by
  unfold concat at h
  split at h <;> cases h
  trivial

theorem arith_plain {op : ArithOp} (h : arith s op token v w = .ok result) : result.IsPlain := by
  unfold arith at h
  split at h
  · cases h
    trivial
  · split_ifs at h
    · exact concat_plain h
    · cases h
  · cases h
    trivial
  · cases h
    trivial
  · split_ifs at h <;> cases h
    trivial
  · cases h

theorem compare_plain {op : CompareOp} (h : compare s op token v w = .ok result) : result.IsPlain := by
  unfold compare at h
  split at h <;> cases h
  trivial

theorem binary_plain {op : BinaryOp} (h : binary s op token v w = .ok result) : result.IsPlain := by
  cases op with
  | arith op => exact arith_plain h
  | compare op => exact compare_plain h
  | equal | notEqual =>
    cases h
    trivial

theorem compound_plain {op : ArithOp} (h : compound s op token v w = .ok result) : result.IsPlain := by
  unfold compound at h
  split at h
  · unfold repetition at h
    split_ifs at h <;> cases h <;> trivial
  · exact arith_plain h

theorem step_plain {op : StepOp} (h : step s op token v = .ok result) : result.IsPlain := by
  unfold step at h
  split at h
  · split at h <;> cases h <;> trivial
  · cases h

end Operator

namespace NativeOp

theorem ofNumber_ne_unset {s : Store} {name : String} {f : Float → Result} {a v : Value}
    (hf : ∀ x v, f x = .ok v → v ≠ .unset) (h : ofNumber s name f a = .ok v) : v ≠ .unset := by
  unfold ofNumber at h
  split at h
  · exact hf _ v h
  · cases h

/-- A native of the language gives no mark and leaves none in an array. -/
theorem run_tidy {op : NativeOp} {args : List Value} {w : World} (h : w.store.Tidy)
    (hargs : ∀ v ∈ args, v ≠ .unset) :
    w.store.Steady (op.run args w).2.store ∧ ∀ v, (op.run args w).1 = .ok v → v ≠ .unset := by
  have harg : ∀ k, (args.drop k).headD .none ≠ .unset := by
    intro k
    cases hdrop : args.drop k with
    | nil => simp
    | cons v rest => exact hargs v (List.mem_of_mem_drop (hdrop ▸ List.mem_cons_self))
  cases op with
  | input =>
    simp only [run, readInput]
    split <;> exact ⟨h.steady, by simp [Value.ofBytes]⟩
  | len =>
    refine ⟨h.steady, fun v hv => ?_⟩
    simp only [run, length, wrongArgument] at hv
    split at hv <;> cases hv <;> simp [Value.ofNat]
  | str | error =>
    refine ⟨h.steady, fun v hv => ?_⟩
    simp only [run, promised] at hv
    split at hv <;> cases hv
    try simp
  | num =>
    refine ⟨h.steady, fun v hv => ?_⟩
    simp only [run, toNumber, wrongArgument] at hv
    split at hv
    · cases hv
      simp
    · cases hv
      simp
    · split at hv <;> cases hv
      simp
    · cases hv
  | push =>
    simp only [run, pushElement]
    split
    · rename_i a _
      refine ⟨h.modifyArray a fun v hv => ?_, by simp [Value.ofNat]⟩
      rcases Array.mem_push.1 hv with hv | rfl
      · exact h.elements a v hv
      · exact harg 1
    · exact ⟨h.steady, by simp [wrongArgument]⟩
  | pop =>
    simp only [run, popElement]
    split
    · rename_i a _
      split
      · rename_i last hlast
        refine ⟨h.modifyArray a fun v hv => h.elements a v ?_, ?_⟩
        · rw [← Array.mem_toList_iff, Array.toList_pop] at hv
          exact Array.mem_toList_iff.1 ((List.dropLast_sublist _).mem hv)
        · rintro v ⟨⟩
          exact h.elements a last (Array.mem_of_getElem? hlast)
      · exact ⟨h.steady, by simp⟩
    · exact ⟨h.steady, by simp [wrongArgument]⟩
  | copy =>
    simp only [run]
    split
    · rename_i v store hclone
      obtain ⟨rfl, rfl⟩ := Prod.mk.inj (Store.clone?_ok hclone)
      obtain ⟨hsteady, hset⟩ := h.clone (harg 0)
      exact ⟨hsteady, fun v hv => by rw [← Except.ok.inj hv]; exact hset⟩
    · exact ⟨h.steady, by simp⟩
  | random =>
    obtain ⟨x, hx⟩ := drawRandom_result w
    simp only [run, drawRandom_store, hx]
    exact ⟨h.steady, by simp⟩
  | randomSeed =>
    simp only [run, seedRandom]
    split <;> exact ⟨h.steady, by simp [wrongArgument]⟩
  | sqrt =>
    refine ⟨h.steady, fun v => ofNumber_ne_unset fun x v hv => ?_⟩
    unfold squareRoot at hv
    split_ifs at hv
    cases hv
    simp
  | floor | abs =>
    refine ⟨h.steady, fun v => ofNumber_ne_unset fun x v hv => ?_⟩
    cases hv
    simp
  | _ =>
    refine ⟨h.steady, ?_⟩
    simp [run, readClock, Value.ofBytes]

end NativeOp

/-! ## What waits and what is handed on -/

/-- No value that a pending part holds is the mark, and the body of a set-up finds its receiver. -/
def Pending.Tidy (s : Store) : Pending → Prop
  | .right _ _ v | .compound _ _ _ _ v | .index _ v _ => v ≠ .unset
  | .argument _ f done _ => f ≠ .unset ∧ ∀ v ∈ done, v ≠ .unset
  | .element done _ => ∀ v ∈ done, v ≠ .unset
  | .callback _ next => ∀ r : Option Value, (∀ v ∈ r, v ≠ .unset) → (next r).Tidy
  | .body f _ => f.isInit = true → s.Receives f.env
  | .field _ _ _ _ args _ => ∀ v ∈ args, v ≠ .unset
  | _ => True

theorem Pending.Tidy.mono {s s' : Store} {p : Pending} (h : p.Tidy s) (hr : s.Retains s') :
    p.Tidy s' := by
  cases p with
  | body f env => exact fun hinit => (h hinit).mono hr
  | _ => exact h

/-- No value that is handed on is the mark. -/
def Control.Tidy : Control → Prop
  | .call callee args => callee ≠ .unset ∧ ∀ v ∈ args, v ≠ .unset
  | .give v | .complete (.result v) => v ≠ .unset
  | _ => True

/-- A tidy store and tidy pending parts; just the names in `U` are unassigned. -/
structure Unmarked (U : Set (FrameId × Bytes)) (s : Store) (pending : List Pending) : Prop where
  store : s.Tidy
  pending : ∀ p ∈ pending, p.Tidy s
  unassigned : s.unassigned = U

/-- The mark is nowhere but in frames, and there just the names in `U` are unassigned. -/
structure Machine.Tidy (U : Set (FrameId × Bytes)) (m : Machine) : Prop where
  unmarked : Unmarked U m.store m.pending
  control : m.control.Tidy

namespace Unmarked

variable {U : Set (FrameId × Bytes)} {s s' : Store} {pending : List Pending}

theorem cons (h : Unmarked U s pending) {p : Pending} (hp : p.Tidy s) : Unmarked U s (p :: pending) :=
  ⟨h.store, List.forall_mem_cons.2 ⟨hp, h.pending⟩, h.unassigned⟩

theorem tail {p : Pending} (h : Unmarked U s (p :: pending)) : Unmarked U s pending :=
  ⟨h.store, fun q hq => h.pending q (List.mem_cons_of_mem _ hq), h.unassigned⟩

theorem steady (h : Unmarked U s pending) (hs : s.Steady s') : Unmarked U s' pending :=
  ⟨hs.tidy, fun p hp => (h.pending p hp).mono hs.retains, hs.unassigned.trans h.unassigned⟩

end Unmarked

/-! ## Steps -/

namespace Machine

variable {U : Set (FrameId × Bytes)} {m : Machine}

/-- Reading a variable never gives the mark. -/
theorem read_ne_unset {id : NodeId} {name : Token} {v : Value} (h : m.read id name = .ok v) :
    v ≠ .unset := by
  rintro rfl
  unfold read at h
  cases hdistance : m.distances.find? id <;> simp only [hdistance] at h <;> split at h <;>
    rename_i hfound <;> first | cases h | exact hfound h

/-- The names that an assignment writes to: one, unless it fails. -/
def written (m : Machine) (id : NodeId) (name : Token) : Set (FrameId × Bytes) :=
  {p | m.destination id name = .ok p.1 ∧ p.2 = name.lexeme}

section

variable (h : Unmarked U m.store m.pending)

include h

theorem give_tidy {v : Value} (hv : v ≠ .unset) : (m.give v).Tidy U := ⟨h, hv⟩

theorem proceed_tidy {c : Control} (hc : c.Tidy) : (m.proceed c).Tidy U := ⟨h, hc⟩

theorem complete_tidy {c : Completion} (hc : (Control.complete c).Tidy) : (m.complete c).Tidy U := ⟨h, hc⟩

theorem halt_tidy (halt : Halt) : (m.halt halt).Tidy U := ⟨h, trivial⟩

theorem fail_tidy (e : RuntimeError) : (m.fail e).Tidy U := ⟨h, trivial⟩

theorem push_tidy {p : Pending} {c : Control} (hp : p.Tidy m.store) (hc : c.Tidy) :
    (m.push p c).Tidy U := ⟨h.cons hp, hc⟩

theorem assign_tidy (id : NodeId) (name : Token) {v result : Value} (hv : v ≠ .unset)
    (hresult : result ≠ .unset) :
    (m.assign id name v result).Tidy (U \ m.written id name) := by
  unfold assign written
  cases hdest : m.destination id name with
  | ok f =>
    have hretains : m.store.Retains (m.store.put f name.lexeme v) := .put _ _ _ hv
    refine ⟨⟨h.store.withFrames hretains, fun p hp => (h.pending p hp).mono hretains, ?_⟩, hresult⟩
    ext p
    rw [Store.mem_unassigned_put hv, h.unassigned]
    simp [Prod.ext_iff, eq_comm]
  | error e =>
    have hnone : {p : FrameId × Bytes | Except.error e = Except.ok p.1 ∧ p.2 = name.lexeme} = ∅ := by
      simp
    rw [hnone, Set.sdiff_empty]
    exact halt_tidy h e

theorem define_tidy (name : Token) {v : Value} (hv : v ≠ .unset) : (m.define name v).Tidy U := by
  unfold define
  split
  · exact fail_tidy h _
  · exact ⟨h.steady (h.store.add m.env hv), trivial⟩

theorem sequence_tidy (stmts : List Stmt) : (m.sequence stmts).Tidy U := by
  cases stmts with
  | nil => exact complete_tidy h trivial
  | cons s rest => exact push_tidy h trivial trivial

theorem enterScope_unmarked : Unmarked U m.enterScope.store m.enterScope.pending :=
  (h.steady (h.store.pushFrame (some m.env) (by simp))).cons trivial

theorem forTest_tidy (cond step : Option Expr) (body : Stmt) : (m.forTest cond step body).Tidy U := by
  cases cond <;> exact push_tidy h trivial trivial

theorem forStep_tidy (cond step : Option Expr) (body : Stmt) : (m.forStep cond step body).Tidy U := by
  cases step with
  | none => exact forTest_tidy h cond _ body
  | some e => exact push_tidy h trivial trivial

/-- Statements other than a declaration without a value. -/
theorem exec_tidy {stmt : Stmt} (hstmt : ∀ pos name, stmt ≠ .declare pos name none) :
    (m.exec stmt).Tidy U := by
  cases stmt with
  | declare pos name value =>
    cases value with
    | none => exact absurd rfl (hstmt pos name)
    | some e => exact push_tidy h trivial trivial
  | block _ body => exact sequence_tidy (enterScope_unmarked h) body
  | forLoop _ start cond step body =>
    cases start with
    | none => exact forTest_tidy (enterScope_unmarked h) cond step body
    | some s => exact push_tidy (enterScope_unmarked h) trivial trivial
  | result _ value =>
    cases value with
    | none => exact complete_tidy h nofun
    | some e => exact push_tidy h trivial trivial
  | function f =>
    let closure : Closure := { name := f.name.lexeme, params := f.params, body := f.body, env := m.env }
    exact define_tidy (m := { m with store := (m.store.newFunction closure).2 })
      (h.steady (h.store.newFunction nofun)) f.name nofun
  | classDecl _ name fields methods =>
    let cls : Class :=
      { name := name.lexeme, fields, env := m.env
        methods := methods.map fun f =>
          { name := f.name.lexeme, params := f.params, body := f.body, env := m.env
            isInit := f.name.lexeme == Class.initName } }
    exact define_tidy (m := { m with store := (m.store.newClass cls).2 })
      (h.steady (h.store.newClass cls)) name nofun
  | leave | skip => exact complete_tidy h trivial
  | _ => exact push_tidy h trivial trivial

theorem callClosure_tidy {f : Closure} (hf : f.isInit = true → m.store.Receives f.env)
    {args : List Value} (hargs : ∀ v ∈ args, v ≠ .unset) : (m.callClosure f args).Tidy U := by
  unfold callClosure
  cases hbind : bindParams [] f.params args with
  | error e => exact fail_tidy h e
  | ok bindings =>
    have hpushed := h.store.pushFrame (some f.env) (bindParams_values (P := (· ≠ .unset)) hargs (by simp) hbind)
    have hbody : (Pending.body f m.env).Tidy _ := fun hinit => (hf hinit).mono hpushed.retains
    exact sequence_tidy (m := { m with store := _, env := _, pending := _ })
      ((h.steady hpushed).cons hbody) f.body

theorem setUp_tidy (object : InstanceId) (cls : Class) {args : List Value}
    (hargs : ∀ v ∈ args, v ≠ .unset) : (m.setUp object cls args).Tidy U := by
  unfold setUp
  split
  · exact give_tidy h nofun
  · rename_i init _
    obtain ⟨hbound, hreceives⟩ := h.store.bind init object
    exact callClosure_tidy (m := { m with store := _, pending := .construct object :: m.pending })
      ((h.steady hbound).cons trivial) (fun _ => hreceives) hargs

theorem initFields_tidy (object : InstanceId) (cls : Class) {args : List Value}
    (hargs : ∀ v ∈ args, v ≠ .unset) (fields : List Field) :
    (m.initFields object cls args fields).Tidy U := by
  cases fields with
  | nil => exact setUp_tidy h object cls hargs
  | cons f rest => exact ⟨h.cons hargs, trivial⟩

theorem runScript_tidy {script : Script} (hscript : script.Tidy) : (m.runScript script).Tidy U := by
  induction script with
  | give v => exact give_tidy h hscript
  | fail e => exact fail_tidy h e
  | failPlain message => exact halt_tidy h _
  | look array next ih =>
    refine ih _ (hscript _ fun v hv => ?_)
    unfold spread at hv
    split at hv
    · exact h.store.elements _ v (Array.mem_toList_iff.1 hv)
    · cases hv
  | call callee args rescues next _ =>
    obtain ⟨hcallee, hargs, hnext⟩ := hscript
    exact push_tidy h hnext ⟨hcallee, hargs⟩

theorem callNative_tidy {op : NativeOp} (hop : op.Tidy) {args : List Value}
    (hargs : ∀ v ∈ args, v ≠ .unset) : (m.callNative op args).Tidy U := by
  unfold callNative
  split
  · exact runScript_tidy h (hop args hargs)
  · obtain ⟨hsteady, hresult⟩ := @NativeOp.run_tidy op args ⟨m.store, m.console⟩ h.store hargs
    refine ⟨h.steady hsteady, ?_⟩
    dsimp only
    split
    · rename_i v hv
      exact hresult v hv
    · trivial

theorem invoke_tidy (callee : Value) {args : List Value} (hargs : ∀ v ∈ args, v ≠ .unset) :
    (m.invoke callee args).Tidy U := by
  unfold invoke
  split
  · exact fail_tidy h _
  · dsimp only
    split
    · exact fail_tidy h _
    · rename_i m' henter
      obtain ⟨hstore, -, -, hpending⟩ := enterCall_ok henter
      have h' : Unmarked U m'.store m'.pending := by
        rw [hstore, hpending]
        exact h.cons trivial
      split
      · split
        · rename_i f hf
          exact callClosure_tidy h' (h'.store.receivers f (Array.mem_of_getElem? hf)) hargs
        · exact give_tidy h' nofun
      · split
        · rename_i c _ _ cls _
          exact initFields_tidy (m := { m' with store := (m'.store.newInstance c).2 }) (h'.steady (h'.store.newInstance c)) _ cls hargs _
        · exact give_tidy h' nofun
      · split
        · rename_i native hnative
          exact callNative_tidy h' (h'.store.natives native (Array.mem_of_getElem? hnative)) hargs
        · exact give_tidy h' nofun
      · exact give_tidy h' nofun

theorem callAt_tidy (paren : Token) {callee : Value} {args : List Value} (hcallee : callee ≠ .unset)
    (hargs : ∀ v ∈ args, v ≠ .unset) : (m.callAt paren callee args).Tidy U := by
  unfold callAt
  split
  · exact fail_tidy h _
  · exact push_tidy h trivial ⟨hcallee, hargs⟩

/-- Expressions other than a step of a variable. -/
theorem eval_tidy {e : Expr} (he : ∀ id name op token before, e ≠ .update id name op token before) :
    (m.eval e).Tidy U := by
  cases e with
  | literal _ token => exact give_tidy h (Value.ofLiteral_ne_unset token.literal)
  | group => exact proceed_tidy h trivial
  | ident | this =>
    simp only [eval]
    split
    · rename_i v hread
      exact give_tidy h (read_ne_unset hread)
    · exact halt_tidy h _
  | compound =>
    simp only [eval]
    split
    · rename_i current hread
      exact push_tidy h (read_ne_unset hread) trivial
    · exact halt_tidy h _
  | update id name op token before => exact absurd rfl (he id name op token before)
  | lambda _ _ params body => exact ⟨h.steady (h.store.newFunction (by simp)), fun heq => by cases heq⟩
  | array _ _ elements =>
    cases elements with
    | nil => exact ⟨h.steady (h.store.newArray (by simp)), fun heq => by cases heq⟩
    | cons e rest => exact push_tidy h (by simp [Pending.Tidy]) trivial
  | _ => exact push_tidy h trivial trivial

theorem giveResult_tidy {r : Operator.Result} (hr : ∀ v, r = .ok v → v ≠ .unset) :
    (m.giveResult r).Tidy U := by
  cases r with
  | ok v => exact give_tidy h (hr v rfl)
  | error e => exact halt_tidy h e

omit h in
theorem stepResult_ne_unset (before : Bool) {current next : Value} (hcurrent : current ≠ .unset)
    (hnext : next ≠ .unset) : stepResult before current next ≠ .unset := by
  cases before
  · exact hcurrent
  · exact hnext

theorem useElement_tidy (bracket : Token) (object index : Value) (use : ElementUse) :
    (m.useElement bracket object index use).Tidy U := by
  unfold useElement
  split
  · exact halt_tidy h _
  · rename_i a i _
    have hcurrent : ((m.store.elements a)[i]?).getD .none ≠ .unset := by
      cases hfound : (m.store.elements a)[i]? with
      | none => simp
      | some v => exact h.store.elements a v (Array.mem_of_getElem? hfound)
    dsimp only
    split
    · exact give_tidy h hcurrent
    · split
      · exact halt_tidy h _
      · rename_i next hnext
        have hset := (Operator.step_plain hnext).ne_unset
        refine ⟨h.steady (h.store.modifyArray a fun v hv => ?_), stepResult_ne_unset _ hcurrent hset⟩
        rcases Array.mem_or_eq_of_mem_setIfInBounds hv with hv | rfl
        · exact h.store.elements a v hv
        · exact hset

theorem readProperty_tidy (name : Token) (v : Value) : (m.readProperty name v).Tidy U := by
  cases v with
  | object i =>
    obtain ⟨hsteady, hset⟩ := h.store.property i name.lexeme
    simp only [readProperty]
    split <;> rename_i store heq <;> rw [heq] at hsteady hset
    · exact ⟨h.steady hsteady, hset _ rfl⟩
    · exact fail_tidy (m := { m with store }) (h.steady hsteady) _
  | host i =>
    simp only [readProperty]
    split
    · rename_i v hfound
      obtain ⟨o, ho, hv⟩ := Option.bind_eq_some_iff.1 hfound
      obtain ⟨before, behind, heq, -⟩ := List.lookup_eq_some_iff.1 hv
      have hmem : (name.lexeme, v) ∈ o.properties := by simp [heq]
      exact give_tidy h (h.store.properties o (Array.mem_of_getElem? ho) _ hmem)
    · exact fail_tidy h _
  | hollow o => cases o <;> first | exact fail_tidy h _ | exact halt_tidy h _
  | _ => exact fail_tidy h _

theorem stepProperty_tidy (name : Token) (op : StepOp) (token : Token) (before : Bool) (v : Value) :
    (m.stepProperty name op token before v).Tidy U := by
  cases v with
  | object i =>
    obtain ⟨hsteady, hset⟩ := h.store.property i name.lexeme
    simp only [stepProperty]
    split <;> rename_i store heq <;> rw [heq] at hsteady hset
    · exact fail_tidy (m := { m with store }) (h.steady hsteady) _
    · split
      · exact halt_tidy (m := { m with store }) (h.steady hsteady) _
      · rename_i next hnext
        have hnext := (Operator.step_plain hnext).ne_unset
        exact ⟨h.steady (hsteady.trans (hsteady.tidy.putField i _ hnext)),
          stepResult_ne_unset before (hset _ rfl) hnext⟩
  | _ => exact fail_tidy h _

theorem print_tidy (pos : Position) (shown : ByteArray) : (m.print pos shown).Tidy U := by
  unfold print
  split
  · exact ⟨h, trivial⟩
  · exact fail_tidy h _

/-- Values for pending parts other than assignments to variables. -/
theorem resumeValue_tidy {p : Pending} (hp : p.Tidy m.store) {v : Value} (hv : v ≠ .unset)
    (hassign : ∀ id name, p ≠ .assign id name)
    (hcompound : ∀ id name op token current, p ≠ .compound id name op token current) :
    (m.resumeValue p v).Tidy U := by
  have hmore : ∀ {done : List Value}, (∀ w ∈ done, w ≠ .unset) → ∀ w ∈ v :: done, w ≠ .unset :=
    fun hdone => List.forall_mem_cons.2 ⟨hv, hdone⟩
  cases p with
  | unary op token => exact giveResult_tidy h fun _ hr => (Operator.unary_plain hr).ne_unset
  | left => exact push_tidy h hv trivial
  | right op token left => exact giveResult_tidy h fun _ hr => (Operator.binary_plain hr).ne_unset
  | logical op right =>
    simp only [resumeValue]
    split
    · exact give_tidy h hv
    · exact give_tidy h hv
    · exact proceed_tidy h trivial
  | ternary question yes no =>
    simp only [resumeValue]
    split
    · exact proceed_tidy h trivial
    · exact fail_tidy h _
  | assign id name => exact absurd rfl (hassign id name)
  | compound id name op token current => exact absurd rfl (hcompound id name op token current)
  | indexed => exact push_tidy h hv trivial
  | index bracket object use => exact useElement_tidy h bracket object v use
  | property name use =>
    cases use with
    | read => exact readProperty_tidy h name v
    | step op token before => exact stepProperty_tidy h name op token before v
    | write value =>
      simp only [resumeValue]
      split
      · exact push_tidy h trivial trivial
      · exact fail_tidy h _
  | write name i => exact ⟨h.steady (h.store.putField i name.lexeme hv), hv⟩
  | callee paren args =>
    cases args with
    | nil => exact callAt_tidy h paren hv (by simp)
    | cons a rest => exact push_tidy h ⟨hv, by simp⟩ trivial
  | argument paren callee done rest =>
    cases rest with
    | nil => exact callAt_tidy h paren hp.1 fun w hw => hmore hp.2 w (List.mem_reverse.1 hw)
    | cons a rest => exact push_tidy h ⟨hp.1, hmore hp.2⟩ trivial
  | element done rest =>
    have hdone : ∀ w ∈ done.push v, w ≠ .unset := by
      intro w hw
      rcases Array.mem_push.1 hw with hw | rfl
      · exact hp w hw
      · exact hv
    cases rest with
    | nil => exact ⟨h.steady (h.store.newArray hdone), fun heq => by cases heq⟩
    | cons e rest => exact push_tidy h hdone trivial
  | depart depth => exact ⟨h, hv⟩
  | callback rescues next =>
    refine runScript_tidy h (hp (some v) ?_)
    rintro w ⟨⟩
    exact hv
  | field object name rest cls args env =>
    exact initFields_tidy (m := { m with store := m.store.putField object name v, env })
      (h.steady (h.store.putField object name hv)) object cls hp rest
  | construct object => exact give_tidy h (by simp)
  | print pos =>
    simp only [resumeValue]
    split
    · exact halt_tidy h _
    · exact print_tidy h pos _
  | declare name => exact define_tidy h name hv
  | branch yes no =>
    simp only [resumeValue]
    split
    · exact proceed_tidy h trivial
    · split
      · exact proceed_tidy h trivial
      · exact complete_tidy h trivial
  | loopTest | forTest =>
    simp only [resumeValue]
    split
    · exact push_tidy h trivial trivial
    · exact complete_tidy h trivial
  | forStep cond step body => exact forTest_tidy h cond step body
  | result => exact complete_tidy h hv
  | discard => exact complete_tidy h trivial
  | _ => exact give_tidy h hv

theorem finishBody_tidy {f : Closure} (hf : f.isInit = true → m.store.Receives f.env) {c : Completion}
    (hc : (Control.complete c).Tidy) : (m.finishBody f c).Tidy U := by
  have hinit : f.isInit = true → ∃ receiver,
      m.store.getAt f.env 0 Store.receiverName = .ok receiver ∧ receiver ≠ .unset := by
    intro hinit
    obtain ⟨receiver, hreceiver, hset⟩ := hf hinit
    exact ⟨receiver, by simp [Store.getAt, Store.target, Store.ancestor?, hreceiver, Except.map], hset⟩
  unfold finishBody
  cases c with
  | leave | skip => exact halt_tidy h _
  | normal | result v =>
    dsimp only
    split_ifs with hbody
    · obtain ⟨receiver, hget, hset⟩ := hinit hbody
      rw [hget]
      exact give_tidy h hset
    · first | exact give_tidy h hc | exact give_tidy h (by simp)

theorem resumeCompletion_tidy {p : Pending} (hp : p.Tidy m.store) {c : Completion}
    (hc : (Control.complete c).Tidy) : (m.resumeCompletion p c).Tidy U := by
  cases p with
  | sequence rest =>
    cases c with
    | normal => exact sequence_tidy h rest
    | _ => exact complete_tidy h hc
  | restore env => exact ⟨h, hc⟩
  | body f env => exact finishBody_tidy (m := { m with env }) h hp hc
  | loopBody cond body =>
    cases c with
    | normal | skip => exact push_tidy h trivial trivial
    | leave => exact complete_tidy h trivial
    | result v => exact complete_tidy h hc
  | forStart cond step body => exact forTest_tidy h cond step body
  | forBody cond step body =>
    cases c with
    | normal | skip => exact forStep_tidy h cond step body
    | leave => exact complete_tidy h trivial
    | result v => exact complete_tidy h hc
  | program rest =>
    cases c with
    | normal =>
      cases rest with
      | nil => exact complete_tidy h trivial
      | cons s rest => exact push_tidy h trivial trivial
    | _ => exact halt_tidy h _
  | _ => exact complete_tidy h hc

theorem unwind_tidy {p : Pending} (hp : p.Tidy m.store) (halt : Halt) : (m.unwind p halt).Tidy U := by
  cases p with
  | callback rescues next =>
    unfold unwind
    dsimp only
    split
    · exact runScript_tidy h (hp none nofun)
    · exact runScript_tidy h (hp none nofun)
    · exact halt_tidy h _
  | site | depart | restore | body | field => exact ⟨h, trivial⟩
  | _ => exact halt_tidy h _

end

/-! ## Assignments and declarations -/

/-- The variable that the next step assigns to, and the value. -/
def assigns? (m : Machine) : Option (NodeId × Token × Value) :=
  match m.control with
  | .eval (.update id name op token _) =>
    ((m.read id name).bind (Operator.step m.store op token)).toOption.map fun v => (id, name, v)
  | .give v =>
    match m.pending with
    | .assign id name :: _ => some (id, name, v)
    | .compound id name op token current :: _ =>
      (Operator.compound m.store op token current v).toOption.map fun v => (id, name, v)
    | _ => none
  | _ => none

/-- The names that the next step assigns to. -/
def assigned (m : Machine) : Set (FrameId × Bytes) :=
  {p | ∃ id name v, m.assigns? = some (id, name, v) ∧ p ∈ m.written id name}

/-- The names that the next step binds because they are declared without a value. -/
def declared (m : Machine) : Set (FrameId × Bytes) :=
  {p | ∃ pos name, m.control = .exec (.declare pos name none) ∧ p = (m.env, name.lexeme) ∧
    m.store.binds p.1 p.2 = false ∧ m.step.store.binds p.1 p.2 = true}

/-- The unassigned names after the next step, from those before it. -/
def unassigned (m : Machine) (U : Set (FrameId × Bytes)) : Set (FrameId × Bytes) :=
  U \ m.assigned ∪ m.declared

/-- A step that neither assigns to a variable nor declares one without a value. -/
theorem unassigned_eq (hassigns : m.assigns? = none)
    (hdeclares : ∀ pos name, m.control ≠ .exec (.declare pos name none)) : m.unassigned U = U := by
  have hassigned : m.assigned = ∅ := by
    ext p
    simp [assigned, hassigns]
  have hdeclared : m.declared = ∅ := by
    ext p
    simp [declared, hdeclares]
  rw [unassigned, hassigned, hdeclared, Set.sdiff_empty, Set.union_empty]

/-- A step that assigns to a variable. -/
theorem unassigned_of_assigns {id : NodeId} {name : Token} {v : Value}
    (hassigns : m.assigns? = some (id, name, v))
    (hdeclares : ∀ pos name, m.control ≠ .exec (.declare pos name none)) :
    m.unassigned U = U \ m.written id name := by
  have hassigned : m.assigned = m.written id name := by
    ext p
    simp [assigned, hassigns]
  have hdeclared : m.declared = ∅ := by
    ext p
    simp [declared, hdeclares]
  rw [unassigned, hassigned, hdeclared, Set.union_empty]

/-- A variable is stepped: it is read, and assigned to if it is a number. -/
theorem update_tidy {id : NodeId} {name : Token} {op : StepOp} {token : Token} {before : Bool}
    (h : Unmarked U m.store m.pending) (hcontrol : m.control = .eval (.update id name op token before)) :
    m.step.Tidy (m.unassigned U) := by
  have hdeclares : ∀ pos name, m.control ≠ .exec (.declare pos name none) := by simp [hcontrol]
  have hstep : m.step = m.eval (.update id name op token before) := by rw [step, hcontrol]
  rw [hstep, eval]
  cases hread : m.read id name with
  | error e =>
    have hassigns : m.assigns? = none := by
      simp [assigns?, hcontrol, hread, Except.bind, Except.toOption]
    rw [unassigned_eq hassigns hdeclares]
    exact halt_tidy h e
  | ok current =>
    cases hnext : Operator.step m.store op token current with
    | error e =>
      have hassigns : m.assigns? = none := by
        simp [assigns?, hcontrol, hread, Except.bind, hnext, Except.toOption]
      simp only [unassigned_eq hassigns hdeclares, hnext]
      exact halt_tidy h e
    | ok next =>
      have hassigns : m.assigns? = some (id, name, next) := by
        simp [assigns?, hcontrol, hread, Except.bind, hnext, Except.toOption]
      have hset := (Operator.step_plain hnext).ne_unset
      simp only [unassigned_of_assigns hassigns hdeclares, hnext]
      exact assign_tidy h id name hset (stepResult_ne_unset before (read_ne_unset hread) hset)

/-- A variable is declared without a value: unless the name is bound already, it is unassigned now. -/
theorem declare_tidy {pos : Position} {name : Token} (h : Unmarked U m.store m.pending)
    (hcontrol : m.control = .exec (.declare pos name none)) : m.step.Tidy (m.unassigned U) := by
  have hstep : m.step = m.define name .unset := by simp only [step, hcontrol, exec]
  have hassigned : m.assigned = ∅ := by
    ext p
    simp [assigned, assigns?, hcontrol]
  have hdeclared : ∀ p, p ∈ m.declared ↔ p = (m.env, name.lexeme) ∧
      m.store.binds p.1 p.2 = false ∧ (m.define name .unset).store.binds p.1 p.2 = true := by
    intro p
    constructor
    · rintro ⟨pos', name', hcontrol', hp⟩
      obtain ⟨rfl, rfl⟩ : pos = pos' ∧ name = name' := by simpa [hcontrol] using hcontrol'
      rw [← hstep]
      exact hp
    · intro hp
      rw [← hstep] at hp
      exact ⟨pos, name, hcontrol, hp⟩
  rw [unassigned, hassigned, Set.sdiff_empty, hstep]
  by_cases hbound : m.store.binds m.env name.lexeme = true
  · have hnone : m.declared = ∅ := by
      ext p
      rw [hdeclared]
      simp only [Set.mem_empty_iff_false, iff_false]
      rintro ⟨rfl, hfree, -⟩
      simp [hbound] at hfree
    rw [hnone, Set.union_empty, define, if_pos hbound]
    exact fail_tidy h _
  · let b : Binding := { name := name.lexeme, value := .unset }
    have hretains : m.store.Retains (m.store.add m.env b) := .add _ _ _
    have hdefine : m.define name .unset =
        { m with store := m.store.add m.env b, control := .complete .normal } := by
      rw [define, if_neg hbound]
    rw [hdefine]
    refine ⟨⟨h.store.withFrames hretains, fun p hp => (h.pending p hp).mono hretains, ?_⟩, trivial⟩
    ext p
    rw [Store.mem_unassigned_add, h.unassigned, Set.mem_union, hdeclared, hdefine]
    refine or_congr Iff.rfl ⟨?_, ?_⟩
    · rintro ⟨-, rfl, hsize⟩
      exact ⟨rfl, by simpa using hbound, m.store.binds_add hsize b⟩
    · rintro ⟨rfl, -, hbinds⟩
      refine ⟨rfl, rfl, ?_⟩
      by_contra hsize
      apply hbound
      simpa [Store.binds, Store.add, Store.frame_change, hsize] using hbinds

/-- A value is handed to an assignment. -/
theorem assignment_tidy {p : Pending} {rest : List Pending} {v : Value}
    (h : Unmarked U m.store (p :: rest)) (hv : v ≠ .unset) (hcontrol : m.control = .give v)
    (hpending : m.pending = p :: rest) : m.step.Tidy (m.unassigned U) := by
  have hdeclares : ∀ pos name, m.control ≠ .exec (.declare pos name none) := by simp [hcontrol]
  have hstep : m.step = { m with pending := rest }.resumeValue p v := by rw [step, hcontrol, hpending]
  have hrest := h.tail
  have hp := h.pending p List.mem_cons_self
  rw [hstep]
  cases p with
  | assign id name =>
    have hassigns : m.assigns? = some (id, name, v) := by simp [assigns?, hcontrol, hpending]
    rw [unassigned_of_assigns hassigns hdeclares]
    exact assign_tidy (m := { m with pending := rest }) hrest id name hv hv
  | compound id name op token current =>
    rw [resumeValue]
    cases hresult : Operator.compound m.store op token current v with
    | error e =>
      have hassigns : m.assigns? = none := by
        simp [assigns?, hcontrol, hpending, hresult, Except.toOption]
      rw [unassigned_eq hassigns hdeclares]
      exact halt_tidy (m := { m with pending := rest }) hrest e
    | ok result =>
      have hassigns : m.assigns? = some (id, name, result) := by
        simp [assigns?, hcontrol, hpending, hresult, Except.toOption]
      rw [unassigned_of_assigns hassigns hdeclares]
      have hset := (Operator.compound_plain hresult).ne_unset
      exact assign_tidy (m := { m with pending := rest }) hrest id name hset hset
  | _ =>
    have hassigns : m.assigns? = none := by simp [assigns?, hcontrol, hpending]
    rw [unassigned_eq hassigns hdeclares]
    exact resumeValue_tidy (m := { m with pending := rest }) hrest hp hv (by simp) (by simp)

/-- A step keeps the mark where it is, and tells which names are unassigned afterwards. -/
theorem Tidy.step (h : m.Tidy U) : m.step.Tidy (m.unassigned U) := by
  obtain ⟨hunmarked, hcontrol⟩ := h
  cases hc : m.control with
  | eval e =>
    by_cases hupdate : ∃ id name op token before, e = .update id name op token before
    · obtain ⟨id, name, op, token, before, rfl⟩ := hupdate
      exact update_tidy hunmarked hc
    · push Not at hupdate
      have hassigns : m.assigns? = none := by
        cases e with
        | update id name op token before => exact absurd rfl (hupdate id name op token before)
        | _ => simp [assigns?, hc]
      rw [unassigned_eq hassigns (by simp [hc]), Machine.step, hc]
      exact eval_tidy hunmarked hupdate
  | exec s =>
    by_cases hdeclare : ∃ pos name, s = .declare pos name none
    · obtain ⟨pos, name, rfl⟩ := hdeclare
      exact declare_tidy hunmarked hc
    · push Not at hdeclare
      rw [unassigned_eq (by simp [assigns?, hc]) (by simpa [hc] using hdeclare), Machine.step, hc]
      exact exec_tidy hunmarked hdeclare
  | call callee args =>
    rw [hc] at hcontrol
    rw [unassigned_eq (by simp [assigns?, hc]) (by simp [hc]), Machine.step, hc]
    exact invoke_tidy hunmarked callee hcontrol.2
  | give v =>
    rw [hc] at hcontrol
    cases hp : m.pending with
    | nil =>
      rw [unassigned_eq (by simp [assigns?, hc, hp]) (by simp [hc]), Machine.step, hc, hp]
      exact ⟨hunmarked, by rw [hc]; exact hcontrol⟩
    | cons p rest => exact assignment_tidy (hp ▸ hunmarked) hcontrol hc hp
  | complete c =>
    rw [hc] at hcontrol
    rw [unassigned_eq (by simp [assigns?, hc]) (by simp [hc]), Machine.step, hc]
    cases hp : m.pending with
    | nil => exact ⟨hunmarked, by rw [hc]; exact hcontrol⟩
    | cons p rest =>
      rw [hp] at hunmarked
      exact resumeCompletion_tidy (m := { m with control := .complete c, pending := rest }) hunmarked.tail
        (hunmarked.pending p List.mem_cons_self) hcontrol
  | halt halt =>
    rw [unassigned_eq (by simp [assigns?, hc]) (by simp [hc]), Machine.step, hc]
    cases hp : m.pending with
    | nil => exact ⟨hunmarked, hcontrol⟩
    | cons p rest =>
      rw [hp] at hunmarked
      exact unwind_tidy (m := { m with control := .halt halt, pending := rest }) hunmarked.tail
        (hunmarked.pending p List.mem_cons_self) halt

end Machine

end Treewalk
