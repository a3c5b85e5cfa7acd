import Treewalk.Proofs.Machine.Run
import Treewalk.Proofs.Machine.Tidy
import Treewalk.Proofs.Store.Growth

/-!
# Runs only make heaps grow

**Main results** (`Machine.step_extends`, `Machine.steps_extends`). Whatever the state, the heap after a step, and
so after any number of steps, has grown out of the heap before. The only names whose values change are those that
the steps assign to (`Machine.assigned`).

Nothing is asked of the state: that heaps grow is a fact about each thing that a step may do.
-/

namespace Treewalk

theorem NativeOp.run_extends (op : NativeOp) (args : List Value) (world : World)
    (w : Set (FrameId × Bytes)) : world.store.Extends w (op.run args world).2.store := by
  cases op with
  | input =>
    simp only [run, readInput]
    split <;> exact .refl _
  | push =>
    simp only [run, pushElement]
    split
    · exact .modifyArray _ _ _
    · exact .refl _
  | pop =>
    simp only [run, popElement]
    split
    · split
      · exact .modifyArray _ _ _
      · exact .refl _
    · exact .refl _
  | copy =>
    simp only [run]
    split
    · rename_i hclone
      have hstore := congrArg Prod.snd (Store.clone?_ok hclone)
      dsimp only at hstore
      rw [← hstore]
      exact .clone _ _
    · exact .refl _
  | random =>
    simp only [run, drawRandom_store]
    exact .refl _
  | randomSeed =>
    simp only [run, seedRandom]
    split <;> exact .refl _
  | _ => exact .refl _

namespace Machine

variable {w : Set (FrameId × Bytes)}

theorem define_extends (m : Machine) (name : Token) (v : Value) :
    m.store.Extends w (m.define name v).store := by
  unfold define
  split
  · exact .refl _
  · exact .add _ _ _

theorem assign_extends (m : Machine) {id : NodeId} {name : Token} (hw : m.written id name ⊆ w)
    (v result : Value) : m.store.Extends w (m.assign id name v result).store := by
  unfold assign
  split
  · rename_i f hf
    exact .put (hw ⟨hf, rfl⟩) v
  · exact .refl _

theorem sequence_store (m : Machine) (stmts : List Stmt) : (m.sequence stmts).store = m.store := by
  cases stmts <;> rfl

theorem forTest_store (m : Machine) (cond step : Option Expr) (body : Stmt) :
    (m.forTest cond step body).store = m.store := by
  cases cond <;> rfl

theorem forStep_store (m : Machine) (cond step : Option Expr) (body : Stmt) :
    (m.forStep cond step body).store = m.store := by
  cases step
  · exact m.forTest_store ..
  · rfl

theorem enterScope_extends (m : Machine) : m.store.Extends w m.enterScope.store := .push _ _

theorem exec_extends (m : Machine) (stmt : Stmt) : m.store.Extends w (m.exec stmt).store := by
  cases stmt with
  | declare _ name value =>
    cases value with
    | none => exact m.define_extends name .unset
    | some e => exact .refl _
  | block _ body =>
    rw [exec, sequence_store]
    exact m.enterScope_extends
  | forLoop _ start cond step body =>
    cases start with
    | none =>
      simp only [exec, forTest_store]
      exact m.enterScope_extends
    | some s => exact m.enterScope_extends
  | result _ value => cases value <;> exact .refl _
  | function f =>
    let closure : Closure := { name := f.name.lexeme, params := f.params, body := f.body, env := m.env }
    exact (Store.Extends.newFunction m.store closure).trans
      (define_extends { m with store := (m.store.newFunction closure).2 } f.name _)
  | classDecl _ name fields methods =>
    let cls : Class :=
      { name := name.lexeme, fields, env := m.env
        methods := methods.map fun f =>
          { name := f.name.lexeme, params := f.params, body := f.body, env := m.env
            isInit := f.name.lexeme == Class.initName } }
    exact (Store.Extends.newClass m.store cls).trans
      (define_extends { m with store := (m.store.newClass cls).2 } name _)
  | _ => exact .refl _

theorem callClosure_extends (m : Machine) (f : Closure) (args : List Value) :
    m.store.Extends w (m.callClosure f args).store := by
  unfold callClosure
  split
  · exact .refl _
  · rw [sequence_store]
    exact .push _ _

theorem setUp_extends (m : Machine) (object : InstanceId) (cls : Class) (args : List Value) :
    m.store.Extends w (m.setUp object cls args).store := by
  unfold setUp
  split
  · exact .refl _
  · rename_i init _
    exact (Store.Extends.bind m.store init object).trans (callClosure_extends
      { m with store := (m.store.bind init object).2, pending := .construct object :: m.pending } _ args)

theorem initFields_extends (m : Machine) (object : InstanceId) (cls : Class) (args : List Value)
    (fields : List Field) : m.store.Extends w (m.initFields object cls args fields).store := by
  cases fields with
  | nil => exact m.setUp_extends object cls args
  | cons f rest => exact .refl _

theorem runScript_store (m : Machine) (script : Script) : (m.runScript script).store = m.store := by
  induction script with
  | look array next ih => exact ih _
  | _ => rfl

theorem callNative_extends (m : Machine) (op : NativeOp) (args : List Value) :
    m.store.Extends w (m.callNative op args).store := by
  unfold callNative
  split
  · rw [runScript_store]
    exact .refl _
  · exact NativeOp.run_extends op args ⟨m.store, m.console⟩ w

theorem invoke_extends (m : Machine) (callee : Value) (args : List Value) :
    m.store.Extends w (m.invoke callee args).store := by
  unfold invoke
  split
  · exact .refl _
  · dsimp only
    split
    · exact .refl _
    · rename_i m' henter
      rw [← (enterCall_ok henter).1]
      split
      · split
        · exact m'.callClosure_extends _ args
        · exact .refl _
      · split
        · rename_i c _ _ cls _
          exact (Store.Extends.newInstance m'.store c).trans
            (initFields_extends { m' with store := (m'.store.newInstance c).2 } _ cls args _)
        · exact .refl _
      · split
        · exact m'.callNative_extends _ args
        · exact .refl _
      · exact .refl _

theorem callAt_store (m : Machine) (paren : Token) (callee : Value) (args : List Value) :
    (m.callAt paren callee args).store = m.store := by
  unfold callAt
  split <;> rfl

/-- Expressions other than a step of a variable assign to nothing. -/
theorem eval_extends (m : Machine) (e : Expr)
    (hw : ∀ id name op token before, e = .update id name op token before →
      ∀ current next, m.read id name = .ok current → Operator.step m.store op token current = .ok next →
        m.written id name ⊆ w) : m.store.Extends w (m.eval e).store := by
  cases e with
  | ident | this | compound =>
    simp only [eval]
    split <;> exact .refl _
  | update id name op token before =>
    simp only [eval]
    split
    · exact .refl _
    · rename_i current hread
      split
      · exact .refl _
      · rename_i next hnext
        exact m.assign_extends (hw id name op token before rfl current next hread hnext) _ _
  | array id token elements =>
    cases elements with
    | nil => exact .newArray _ _
    | cons e rest => exact .refl _
  | lambda => exact .newFunction _ _
  | _ => exact .refl _

theorem giveResult_store (m : Machine) (r : Operator.Result) : (m.giveResult r).store = m.store := by
  cases r <;> rfl

theorem useElement_extends (m : Machine) (bracket : Token) (object index : Value) (use : ElementUse) :
    m.store.Extends w (m.useElement bracket object index use).store := by
  unfold useElement
  split
  · exact .refl _
  · dsimp only
    split
    · exact .refl _
    · split
      · exact .refl _
      · exact .modifyArray _ _ _

theorem readProperty_extends (m : Machine) (name : Token) (v : Value) :
    m.store.Extends w (m.readProperty name v).store := by
  cases v with
  | object i =>
    have hgrown := Store.Extends.property (w := w) m.store i name.lexeme
    unfold readProperty
    dsimp only
    split <;> rename_i heq <;> rw [heq] at hgrown <;> exact hgrown
  | host h =>
    unfold readProperty
    dsimp only
    split <;> exact .refl _
  | hollow h => cases h <;> exact .refl _
  | _ => exact .refl _

theorem stepProperty_extends (m : Machine) (name : Token) (op : StepOp) (token : Token) (before : Bool)
    (v : Value) : m.store.Extends w (m.stepProperty name op token before v).store := by
  cases v with
  | object i =>
    have hgrown := Store.Extends.property (w := w) m.store i name.lexeme
    unfold stepProperty
    dsimp only
    split <;> rename_i heq <;> rw [heq] at hgrown
    · exact hgrown
    · split
      · exact hgrown
      · exact hgrown.trans (.putField _ _ _ _)
  | _ => exact .refl _

theorem print_store (m : Machine) (pos : Position) (shown : ByteArray) :
    (m.print pos shown).store = m.store := by
  unfold print
  split <;> rfl

theorem resumeValue_extends (m : Machine) (p : Pending) (v : Value)
    (hassign : ∀ id name, p = .assign id name → m.written id name ⊆ w)
    (hcompound : ∀ id name op token current, p = .compound id name op token current →
      ∀ result, Operator.compound m.store op token current v = .ok result → m.written id name ⊆ w) :
    m.store.Extends w (m.resumeValue p v).store := by
  cases p with
  | unary | right =>
    rw [resumeValue, giveResult_store]
    exact .refl _
  | logical op right =>
    simp only [resumeValue]
    split <;> exact .refl _
  | ternary question yes no =>
    simp only [resumeValue]
    split <;> exact .refl _
  | assign id name => exact m.assign_extends (hassign id name rfl) v v
  | compound id name op token current =>
    simp only [resumeValue]
    split
    · rename_i result hresult
      exact m.assign_extends (hcompound id name op token current rfl result hresult) _ _
    · exact .refl _
  | index bracket object use => exact m.useElement_extends bracket object v use
  | property name use =>
    cases use with
    | read => exact m.readProperty_extends name v
    | step op token before => exact m.stepProperty_extends name op token before v
    | write value =>
      simp only [resumeValue]
      split <;> exact .refl _
  | write => exact .putField _ _ _ _
  | callee paren args =>
    cases args with
    | nil =>
      rw [resumeValue, callAt_store]
      exact .refl _
    | cons a rest => exact .refl _
  | argument paren callee done rest =>
    cases rest with
    | nil =>
      rw [resumeValue, callAt_store]
      exact .refl _
    | cons a rest => exact .refl _
  | element done rest =>
    cases rest with
    | nil => exact .newArray _ _
    | cons e rest => exact .refl _
  | callback rescues next =>
    rw [resumeValue, runScript_store]
    exact .refl _
  | field object name rest cls args env =>
    exact (Store.Extends.putField m.store object name v).trans
      (initFields_extends { m with store := m.store.putField object name v, env } object cls args rest)
  | print pos =>
    simp only [resumeValue]
    split
    · exact .refl _
    · rw [print_store]
      exact .refl _
  | declare name => exact m.define_extends name v
  | branch yes no =>
    simp only [resumeValue]
    split
    · exact .refl _
    · split <;> exact .refl _
  | loopTest | forTest =>
    simp only [resumeValue]
    split <;> exact .refl _
  | forStep cond step body =>
    rw [resumeValue, forTest_store]
    exact .refl _
  | _ => exact .refl _

theorem finishBody_store (m : Machine) (f : Closure) (c : Completion) :
    (m.finishBody f c).store = m.store := by
  unfold finishBody
  cases c with
  | leave | skip => rfl
  | normal | result v =>
    dsimp only
    split
    · split <;> rfl
    · rfl

theorem resumeCompletion_store (m : Machine) (p : Pending) (c : Completion) :
    (m.resumeCompletion p c).store = m.store := by
  cases p with
  | sequence rest =>
    cases c with
    | normal => exact m.sequence_store rest
    | _ => rfl
  | body f env => exact finishBody_store { m with env } f c
  | loopBody => cases c <;> rfl
  | forStart cond step body => exact m.forTest_store cond step body
  | forBody cond step body =>
    cases c with
    | normal | skip => exact m.forStep_store cond step body
    | _ => rfl
  | program rest =>
    cases c with
    | normal => cases rest <;> rfl
    | _ => rfl
  | _ => rfl

theorem unwind_store (m : Machine) (p : Pending) (h : Halt) : (m.unwind p h).store = m.store := by
  cases p with
  | callback rescues next =>
    unfold unwind
    dsimp only
    split
    · exact m.runScript_store _
    · exact m.runScript_store _
    · rfl
  | _ => rfl

/-- What the next step assigns to is what it writes to. -/
theorem written_subset_assigned {m : Machine} {id : NodeId} {name : Token} {v : Value}
    (h : m.assigns? = some (id, name, v)) : m.written id name ⊆ m.assigned :=
  fun _ hp => ⟨id, name, v, h, hp⟩

/-- A step makes the heap grow and writes to the names it assigns to. -/
theorem step_extends (m : Machine) : m.store.Extends m.assigned m.step.store := by
  cases hc : m.control with
  | eval e =>
    rw [step, hc]
    refine m.eval_extends e fun id name op token before he current next hread hnext => ?_
    subst he
    refine written_subset_assigned (v := next) ?_
    simp [assigns?, hc, hread, hnext, Except.bind, Except.toOption]
  | exec s =>
    rw [step, hc]
    exact m.exec_extends s
  | call callee args =>
    rw [step, hc]
    exact m.invoke_extends callee args
  | give v =>
    rw [step, hc]
    cases hp : m.pending with
    | nil => exact .refl _
    | cons p rest =>
      refine resumeValue_extends { m with control := .give v, pending := rest } p v ?_ ?_
      · rintro id name rfl
        exact written_subset_assigned (m := m) (v := v) (by simp [assigns?, hc, hp])
      · rintro id name op token current rfl result hresult
        refine written_subset_assigned (m := m) (v := result) ?_
        dsimp only at hresult
        simp [assigns?, hc, hp, hresult, Except.toOption]
  | complete c =>
    rw [step, hc]
    cases hp : m.pending with
    | nil => exact .refl _
    | cons p rest =>
      dsimp only
      rw [resumeCompletion_store]
      exact .refl _
  | halt halt =>
    rw [step, hc]
    cases hp : m.pending with
    | nil => exact .refl _
    | cons p rest =>
      dsimp only
      rw [unwind_store]
      exact .refl _

/-- So does any number of steps. -/
theorem steps_extends (m : Machine) (n : Nat) :
    m.store.Extends {p | ∃ k < n, p ∈ (m.steps k).assigned} (m.steps n).store := by
  induction n with
  | zero => exact .refl _
  | succ n ih =>
    have hlast : m.steps (n + 1) = (m.steps n).step := by rw [steps_add]; rfl
    rw [hlast]
    refine (ih.mono ?_).trans ((m.steps n).step_extends.mono fun p hp => ⟨n, Nat.lt_succ_self n, hp⟩)
    rintro p ⟨k, hk, hp⟩
    exact ⟨k, Nat.lt_succ_of_lt hk, hp⟩

end Machine

end Treewalk
