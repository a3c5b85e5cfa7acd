import Treewalk.Proofs.Machine.Preservation
import Treewalk.Proofs.Machine.Run

/-!
# Runs leave the distances alone

The table of distances is made when sources are compiled. No step of a run changes it (`Machine.step_distances`).
-/

namespace Treewalk.Machine

variable {m : Machine}

theorem assign_distances (m : Machine) (id : NodeId) (name : Token) (v result : Value) :
    (m.assign id name v result).distances = m.distances := by
  unfold assign
  split <;> rfl

theorem define_distances (m : Machine) (name : Token) (v : Value) :
    (m.define name v).distances = m.distances := by
  unfold define
  split <;> rfl

theorem sequence_distances (m : Machine) (stmts : List Stmt) : (m.sequence stmts).distances = m.distances := by
  cases stmts <;> rfl

theorem forTest_distances (m : Machine) (cond step : Option Expr) (body : Stmt) :
    (m.forTest cond step body).distances = m.distances := by
  cases cond <;> rfl

theorem callClosure_distances (m : Machine) (f : Closure) (args : List Value) :
    (m.callClosure f args).distances = m.distances := by
  unfold callClosure
  split
  · rfl
  · exact sequence_distances _ _

theorem initFields_distances (m : Machine) (object : InstanceId) (cls : Class) (args : List Value)
    (fields : List Field) : (m.initFields object cls args fields).distances = m.distances := by
  cases fields with
  | nil =>
    show (m.setUp object cls args).distances = m.distances
    unfold setUp
    split
    · rfl
    · exact callClosure_distances _ _ _
  | cons f rest => rfl

theorem runScript_distances (script : Script) (m : Machine) : (m.runScript script).distances = m.distances := by
  induction script with
  | look array next ih => exact ih _
  | _ => rfl

theorem callNative_distances (m : Machine) (op : NativeOp) (args : List Value) :
    (m.callNative op args).distances = m.distances := by
  cases op with
  | script run => exact runScript_distances _ m
  | _ => rfl

theorem invoke_distances (m : Machine) (callee : Value) (args : List Value) :
    (m.invoke callee args).distances = m.distances := by
  unfold invoke
  split
  · rfl
  · dsimp only
    split
    · rfl
    · rename_i m' henter
      obtain ⟨-, -, hdistances, -⟩ := enterCall_ok henter
      rw [← hdistances]
      split
      · split
        · exact callClosure_distances _ _ _
        · rfl
      · split
        · exact initFields_distances _ _ _ _ _
        · rfl
      · split
        · exact callNative_distances _ _ _
        · rfl
      · rfl

theorem exec_distances (m : Machine) (s : Stmt) : (m.exec s).distances = m.distances := by
  cases s with
  | declare pos name value =>
    cases value with
    | none => exact define_distances _ _ _
    | some e => rfl
  | block pos body => exact sequence_distances _ _
  | forLoop pos start cond step body =>
    cases start with
    | none => exact forTest_distances _ _ _ _
    | some s => rfl
  | result pos value => cases value <;> rfl
  | function f => exact define_distances _ _ _
  | classDecl => exact define_distances _ _ _
  | _ => rfl

theorem eval_distances (m : Machine) (e : Expr) : (m.eval e).distances = m.distances := by
  cases e with
  | update id name op token before =>
    simp only [eval]
    split
    · rfl
    · split
      · rfl
      · exact assign_distances _ _ _ _ _
  | ident | compound | this =>
    simp only [eval]
    split <;> rfl
  | array id bracket elements => cases elements <;> rfl
  | _ => rfl

theorem callAt_distances (m : Machine) (paren : Token) (callee : Value) (args : List Value) :
    (m.callAt paren callee args).distances = m.distances := by
  unfold callAt
  split <;> rfl

theorem giveResult_distances (m : Machine) (r : Operator.Result) : (m.giveResult r).distances = m.distances := by
  cases r <;> rfl

theorem resumeValue_distances (m : Machine) (p : Pending) (v : Value) :
    (m.resumeValue p v).distances = m.distances := by
  cases p with
  | unary | right => exact giveResult_distances _ _
  | logical =>
    simp only [resumeValue]
    split <;> rfl
  | ternary =>
    simp only [resumeValue]
    split <;> rfl
  | assign => exact assign_distances _ _ _ _ _
  | compound =>
    simp only [resumeValue]
    split
    · exact assign_distances _ _ _ _ _
    · rfl
  | index bracket object use =>
    show (m.useElement bracket object v use).distances = _
    unfold useElement
    split
    · rfl
    · dsimp only
      split
      · rfl
      · split <;> rfl
  | property name use =>
    simp only [resumeValue]
    split
    · unfold readProperty
      split
      · split <;> rfl
      · split <;> rfl
      · rfl
      · rfl
      · rfl
    · unfold stepProperty
      split
      · split
        · rfl
        · split <;> rfl
      · rfl
    · split <;> rfl
  | callee paren args =>
    cases args with
    | nil => exact callAt_distances _ _ _ _
    | cons => rfl
  | argument paren callee done rest =>
    cases rest with
    | nil => exact callAt_distances _ _ _ _
    | cons => rfl
  | element done rest => cases rest <;> rfl
  | callback rescues next => exact runScript_distances _ m
  | field => exact initFields_distances _ _ _ _ _
  | print pos =>
    simp only [resumeValue]
    split
    · rfl
    · unfold print
      split <;> rfl
  | declare name => exact define_distances _ _ _
  | branch yes no =>
    simp only [resumeValue]
    split
    · rfl
    · split <;> rfl
  | loopTest | forTest =>
    simp only [resumeValue]
    split <;> rfl
  | forStep => exact forTest_distances _ _ _ _
  | _ => rfl

theorem finishBody_distances (m : Machine) (f : Closure) (c : Completion) :
    (m.finishBody f c).distances = m.distances := by
  cases c with
  | leave | skip => rfl
  | normal | result =>
    simp only [finishBody]
    split
    · split <;> rfl
    · rfl

theorem resumeCompletion_distances (m : Machine) (p : Pending) (c : Completion) :
    (m.resumeCompletion p c).distances = m.distances := by
  cases p with
  | sequence rest =>
    cases c with
    | normal => exact sequence_distances _ _
    | _ => rfl
  | body f env => exact finishBody_distances _ _ _
  | loopBody => cases c <;> rfl
  | forStart => exact forTest_distances _ _ _ _
  | forBody cond step body =>
    cases c with
    | normal | skip =>
      cases step with
      | none => exact forTest_distances _ _ _ _
      | some e => rfl
    | _ => rfl
  | program rest => cases c <;> cases rest <;> rfl
  | _ => rfl

theorem unwind_distances (m : Machine) (p : Pending) (h : Halt) : (m.unwind p h).distances = m.distances := by
  cases p with
  | callback rescues next =>
    simp only [unwind]
    split
    · exact runScript_distances _ m
    · exact runScript_distances _ m
    · rfl
  | _ => rfl

/-- No step changes the table of distances. -/
theorem step_distances (m : Machine) : m.step.distances = m.distances := by
  unfold step
  split
  · exact eval_distances _ _
  · exact exec_distances _ _
  · exact invoke_distances _ _ _
  · split
    · rfl
    · exact resumeValue_distances _ _ _
  · split
    · rfl
    · exact resumeCompletion_distances _ _ _
  · split
    · rfl
    · exact unwind_distances _ _ _

theorem steps_distances (n : Nat) : ∀ m : Machine, (m.steps n).distances = m.distances := by
  induction n with
  | zero => exact fun _ => rfl
  | succ n ih => exact fun m => (ih m.step).trans m.step_distances

end Treewalk.Machine
