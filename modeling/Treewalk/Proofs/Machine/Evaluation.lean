import Treewalk.Proofs.Machine.Part
import Treewalk.Proofs.Machine.Table

/-!
# Evaluations

What waits behind a part of a run does not matter to it: with more behind, every step is the same
(`Machine.step_onto`), as long as there is no outcome for what waits there. So the evaluation of an expression
comes to the same end whatever waits for it, and an end is all that what waits gets to see.

That gives the machine rules of its own for whole evaluations (`Machine.Brings`): one for each form of expression,
which tells the end of the evaluation from the ends of the evaluations of its parts.
-/

namespace Treewalk.Machine

variable {m mid last : Machine} {base : List Pending} {e : Expr} {n : Nat}

/-! ## More that waits -/

/-- The same machine, with more behind all that waits. -/
def onto (m : Machine) (base : List Pending) : Machine := { m with pending := m.pending ++ base }

section

variable (m : Machine) (base : List Pending)

theorem assign_onto (id : NodeId) (name : Token) (v result : Value) :
    (m.onto base).assign id name v result = (m.assign id name v result).onto base := by
  unfold assign
  rw [show (m.onto base).destination id name = m.destination id name from rfl]
  cases m.destination id name <;> rfl

theorem define_onto (name : Token) (v : Value) : (m.onto base).define name v = (m.define name v).onto base := by
  unfold define
  rw [show (m.onto base).store.binds (m.onto base).env name.lexeme = m.store.binds m.env name.lexeme from rfl]
  split <;> rfl

theorem sequence_onto (stmts : List Stmt) : (m.onto base).sequence stmts = (m.sequence stmts).onto base := by
  cases stmts <;> rfl

theorem forTest_onto (cond step : Option Expr) (body : Stmt) :
    (m.onto base).forTest cond step body = (m.forTest cond step body).onto base := by
  cases cond <;> rfl

theorem forStep_onto (cond step : Option Expr) (body : Stmt) :
    (m.onto base).forStep cond step body = (m.forStep cond step body).onto base := by
  cases step with
  | none => exact forTest_onto m base cond none body
  | some e => rfl

theorem exec_onto (s : Stmt) : (m.onto base).exec s = (m.exec s).onto base := by
  cases s with
  | declare pos name value =>
    cases value with
    | none => exact define_onto m base name .unset
    | some e => rfl
  | block pos body => exact sequence_onto m.enterScope base body
  | forLoop pos start cond step body =>
    cases start with
    | none => exact forTest_onto m.enterScope base cond step body
    | some s => rfl
  | result pos value => cases value <;> rfl
  | function f => exact define_onto { m with store := _ } base f.name _
  | classDecl pos name fields methods => exact define_onto { m with store := _ } base name _
  | _ => rfl

theorem callClosure_onto (f : Closure) (args : List Value) :
    (m.onto base).callClosure f args = (m.callClosure f args).onto base := by
  unfold callClosure
  cases bindParams [] f.params args with
  | error e => rfl
  | ok bindings =>
    let frame : Frame := { parent := some f.env, bindings }
    exact sequence_onto
      { m with
        store := { m.store with frames := m.store.frames.push frame }
        env := m.store.frames.size
        pending := .body f m.env :: m.pending } base f.body

theorem initFields_onto (object : InstanceId) (cls : Class) (args : List Value) (fields : List Field) :
    (m.onto base).initFields object cls args fields = (m.initFields object cls args fields).onto base := by
  cases fields with
  | nil =>
    show (m.onto base).setUp object cls args = (m.setUp object cls args).onto base
    unfold setUp
    cases cls.method? Class.initName with
    | none => rfl
    | some init =>
      exact callClosure_onto
        { m with store := (m.store.bind init object).2, pending := .construct object :: m.pending } base
        (m.store.bind init object).1 args
  | cons f rest => rfl

theorem runScript_onto (script : Script) : (m.onto base).runScript script = (m.runScript script).onto base := by
  induction script with
  | look array next ih => exact ih _
  | _ => rfl

theorem callNative_onto (op : NativeOp) (args : List Value) :
    (m.onto base).callNative op args = (m.callNative op args).onto base := by
  cases op with
  | script run => exact runScript_onto m base (run args)
  | _ => rfl

theorem enterCall_onto (name : Bytes) (count : Nat) :
    (m.onto base).enterCall name count = (m.enterCall name count).map (·.onto base) := by
  unfold enterCall
  rw [show (m.onto base).depth = m.depth from rfl]
  split <;> rfl

theorem invoke_onto (callee : Value) (args : List Value) :
    (m.onto base).invoke callee args = (m.invoke callee args).onto base := by
  unfold invoke
  rw [show (m.onto base).store = m.store from rfl]
  cases refusal? m.store callee args.length with
  | some message => rfl
  | none =>
    dsimp only
    rw [enterCall_onto]
    cases m.enterCall (((signature? m.store callee).map Prod.fst).getD []) args.length with
    | error e => rfl
    | ok m =>
      simp only [Except.map]
      rw [show (m.onto base).store = m.store from rfl]
      cases callee with
      | function f =>
        dsimp only
        cases m.store.functions[f]? with
        | none => rfl
        | some f => exact callClosure_onto m base f args
      | classRef c =>
        dsimp only
        cases m.store.classes[c]? with
        | none => rfl
        | some cls =>
          exact initFields_onto { m with store := (m.store.newInstance c).2 } base (m.store.newInstance c).1 cls args
            cls.fields
      | native k =>
        dsimp only
        cases m.store.natives[k]? with
        | none => rfl
        | some native => exact callNative_onto m base native.op args
      | _ => rfl

theorem callAt_onto (paren : Token) (callee : Value) (args : List Value) :
    (m.onto base).callAt paren callee args = (m.callAt paren callee args).onto base := by
  unfold callAt
  rw [show (m.onto base).store = m.store from rfl]
  cases refusal? m.store callee args.length <;> rfl

theorem eval_onto (e : Expr) : (m.onto base).eval e = (m.eval e).onto base := by
  cases e with
  | ident id name | this id name | compound id name =>
    simp only [eval]
    rw [show (m.onto base).read id name = m.read id name from rfl]
    cases m.read id name <;> rfl
  | update id name op token before =>
    simp only [eval]
    rw [show (m.onto base).read id name = m.read id name from rfl,
      show (m.onto base).store = m.store from rfl]
    cases m.read id name with
    | error h => rfl
    | ok current =>
      dsimp only
      cases Operator.step m.store op token current with
      | error h => rfl
      | ok next => exact assign_onto m base id name next _
  | array id bracket elements => cases elements <;> rfl
  | _ => rfl

theorem giveResult_onto (r : Operator.Result) : (m.onto base).giveResult r = (m.giveResult r).onto base := by
  cases r <;> rfl

theorem useElement_onto (bracket : Token) (object index : Value) (use : ElementUse) :
    (m.onto base).useElement bracket object index use = (m.useElement bracket object index use).onto base := by
  unfold useElement
  rw [show (m.onto base).store = m.store from rfl]
  cases Operator.element m.store bracket object index with
  | error h => rfl
  | ok found =>
    cases use with
    | read => rfl
    | step op token before =>
      dsimp only
      cases Operator.step m.store op token (((m.store.elements found.1)[found.2]?).getD .none) <;> rfl

theorem readProperty_onto (name : Token) (v : Value) :
    (m.onto base).readProperty name v = (m.readProperty name v).onto base := by
  cases v with
  | object i =>
    simp only [readProperty]
    rw [show (m.onto base).store = m.store from rfl]
    obtain ⟨found, store⟩ := m.store.property i name.lexeme
    cases found <;> rfl
  | host h =>
    simp only [readProperty]
    rw [show (m.onto base).store = m.store from rfl]
    cases (m.store.hosts[h]?).bind fun o => o.properties.lookup name.lexeme <;> rfl
  | hollow hollow => cases hollow <;> rfl
  | _ => rfl

theorem stepProperty_onto (name : Token) (op : StepOp) (token : Token) (before : Bool) (v : Value) :
    (m.onto base).stepProperty name op token before v = (m.stepProperty name op token before v).onto base := by
  cases v with
  | object i =>
    simp only [stepProperty]
    rw [show (m.onto base).store = m.store from rfl]
    obtain ⟨found, store⟩ := m.store.property i name.lexeme
    cases found with
    | none => rfl
    | some current =>
      dsimp only
      cases Operator.step store op token current <;> rfl
  | _ => rfl

theorem print_onto (pos : Position) (shown : ByteArray) :
    (m.onto base).print pos shown = (m.print pos shown).onto base := by
  unfold print
  rw [show (m.onto base).console = m.console from rfl]
  cases m.console.out.write? (shown ++ (text "\n").pack) <;> rfl

theorem resumeValue_onto (p : Pending) (v : Value) :
    (m.onto base).resumeValue p v = (m.resumeValue p v).onto base := by
  cases p with
  | unary op token => exact giveResult_onto m base _
  | right op token left => exact giveResult_onto m base _
  | logical op right =>
    simp only [resumeValue]
    split <;> rfl
  | ternary question yes no =>
    cases v <;> rfl
  | assign id name => exact assign_onto m base id name v v
  | compound id name op token current =>
    simp only [resumeValue]
    rw [show (m.onto base).store = m.store from rfl]
    cases Operator.compound m.store op token current v with
    | error h => rfl
    | ok result => exact assign_onto m base id name result result
  | index bracket object use => exact useElement_onto m base bracket object v use
  | property name use =>
    cases use with
    | read => exact readProperty_onto m base name v
    | step op token before => exact stepProperty_onto m base name op token before v
    | write value => cases v <;> rfl
  | callee paren args =>
    cases args with
    | nil => exact callAt_onto m base paren v []
    | cons a rest => rfl
  | argument paren callee done rest =>
    cases rest with
    | nil => exact callAt_onto m base paren callee _
    | cons a rest => rfl
  | element done rest => cases rest <;> rfl
  | callback rescues next => exact runScript_onto m base (next (some v))
  | field object name rest cls args env => exact initFields_onto { m with store := _, env } base object cls args rest
  | print pos =>
    simp only [resumeValue]
    rw [show (m.onto base).store = m.store from rfl]
    cases m.store.display? v with
    | error f => rfl
    | ok shown => exact print_onto m base pos shown
  | declare name => exact define_onto m base name v
  | branch yes no =>
    simp only [resumeValue]
    split
    · rfl
    · cases no <;> rfl
  | loopTest cond body | forTest cond step body =>
    simp only [resumeValue]
    split <;> rfl
  | forStep cond step body => exact forTest_onto m base cond step body
  | _ => rfl

theorem finishBody_onto (f : Closure) (c : Completion) :
    (m.onto base).finishBody f c = (m.finishBody f c).onto base := by
  cases c with
  | leave | skip => rfl
  | normal | result =>
    simp only [finishBody]
    rw [show (m.onto base).store = m.store from rfl]
    split
    · cases m.store.getAt f.env 0 Store.receiverName <;> rfl
    · rfl

theorem resumeCompletion_onto (p : Pending) (c : Completion) :
    (m.onto base).resumeCompletion p c = (m.resumeCompletion p c).onto base := by
  cases p with
  | sequence rest =>
    cases c with
    | normal => exact sequence_onto m base rest
    | _ => rfl
  | body f env => exact finishBody_onto { m with env } base f c
  | loopBody cond body => cases c <;> rfl
  | forStart cond step body => exact forTest_onto m base cond step body
  | forBody cond step body =>
    cases c with
    | normal | skip => exact forStep_onto m base cond step body
    | _ => rfl
  | program rest =>
    cases c with
    | normal => cases rest <;> rfl
    | _ => rfl
  | _ => rfl

theorem unwind_onto (p : Pending) (h : Halt) : (m.onto base).unwind p h = (m.unwind p h).onto base := by
  cases p with
  | callback rescues next =>
    cases h with
    | error e =>
      cases rescues with
      | true => exact runScript_onto m base (next none)
      | false => rfl
    | plain message =>
      cases rescues with
      | true => exact runScript_onto m base (next none)
      | false => rfl
    | fault f => rfl
  | _ => rfl

end

/-- With more that waits behind, a step is the same, unless it would hand an outcome on to what is behind. -/
theorem step_onto (hlasts : ¬ m.Meets []) : (m.onto base).step = m.step.onto base := by
  obtain ⟨control, pending, env, depth, store, console, distances⟩ := m
  have hwaits : control.IsOutcome → ∃ p rest, pending = p :: rest := by
    intro houtcome
    cases pending with
    | nil => exact absurd ⟨rfl, houtcome⟩ hlasts
    | cons p rest => exact ⟨p, rest, rfl⟩
  cases control with
  | eval e => exact eval_onto ⟨.eval e, pending, env, depth, store, console, distances⟩ base e
  | exec s => exact exec_onto ⟨.exec s, pending, env, depth, store, console, distances⟩ base s
  | call callee args =>
    exact invoke_onto ⟨.call callee args, pending, env, depth, store, console, distances⟩ base callee args
  | give v =>
    obtain ⟨p, rest, rfl⟩ := hwaits trivial
    exact resumeValue_onto ⟨.give v, rest, env, depth, store, console, distances⟩ base p v
  | complete c =>
    obtain ⟨p, rest, rfl⟩ := hwaits trivial
    exact resumeCompletion_onto ⟨.complete c, rest, env, depth, store, console, distances⟩ base p c
  | halt h =>
    obtain ⟨p, rest, rfl⟩ := hwaits trivial
    exact unwind_onto ⟨.halt h, rest, env, depth, store, console, distances⟩ base p h

theorem steps_onto (hlasts : ∀ k < n, ¬ (m.steps k).Meets []) : (m.onto base).steps n = (m.steps n).onto base := by
  induction n with
  | zero => rfl
  | succ n ih =>
    rw [steps_add n 1, steps_add n 1, ih fun k hk => hlasts k (Nat.lt_succ_of_lt hk)]
    exact step_onto (hlasts n (Nat.lt_succ_self n))

theorem meets_onto : (m.onto base).Meets base ↔ m.Meets [] :=
  and_congr_left fun _ => List.append_left_eq_self

/-- An outcome meets what is behind exactly when it meets nothing without that. -/
theorem ends_onto : (m.onto base).Ends base n ↔ m.Ends [] n := by
  constructor
  · intro h
    have hlasts : ∀ k ≤ n, ∀ j < k, ¬ (m.steps j).Meets [] := by
      intro k
      induction k with
      | zero => exact fun _ j hj => absurd hj (Nat.not_lt_zero j)
      | succ k ih =>
        intro hk j hj hmeets
        have hbefore := ih (Nat.le_of_succ_le hk)
        rcases Nat.lt_succ_iff_lt_or_eq.1 hj with hlt | rfl
        · exact hbefore j hlt hmeets
        · refine h.first j hk ?_
          rw [steps_onto hbefore]
          exact meets_onto.2 hmeets
    refine ⟨?_, hlasts n (Nat.le_refl n)⟩
    have hmeets := h.meets
    rw [steps_onto (hlasts n (Nat.le_refl n))] at hmeets
    exact meets_onto.1 hmeets
  · intro h
    refine ⟨?_, fun k hk hmeets => ?_⟩
    · rw [steps_onto h.first]
      exact meets_onto.2 h.meets
    · rw [steps_onto fun j hj => h.first j (Nat.lt_trans hj hk)] at hmeets
      exact h.first k hk (meets_onto.1 hmeets)

/-! ## Ends -/

/-- The first outcome that meets `base` comes with this state. -/
def ComesTo (m : Machine) (base : List Pending) (last : Machine) : Prop := ∃ n, m.Ends base n ∧ m.steps n = last

theorem comesTo_of_meets (h : m.Meets base) : m.ComesTo base last ↔ last = m := by
  constructor
  · rintro ⟨n, hends, rfl⟩
    obtain rfl := hends.now h
    rfl
  · rintro rfl
    exact ⟨0, ⟨h, fun k hk => absurd hk (Nat.not_lt_zero k)⟩, rfl⟩

theorem comesTo_of_lasts (h : ¬ m.Meets base) : m.ComesTo base last ↔ m.step.ComesTo base last := by
  constructor
  · rintro ⟨n, hends, rfl⟩
    obtain ⟨k, rfl, hnext⟩ := hends.next h
    exact ⟨k, hnext, rfl⟩
  · rintro ⟨n, hends, rfl⟩
    refine ⟨n + 1, ⟨hends.meets, fun k hk => ?_⟩, rfl⟩
    cases k with
    | zero => exact h
    | succ k => exact hends.first k (Nat.lt_of_succ_lt_succ hk)

theorem comesTo_steps (h : ∀ k < n, ¬ (m.steps k).Meets base) :
    m.ComesTo base last ↔ (m.steps n).ComesTo base last := by
  induction n with
  | zero => exact Iff.rfl
  | succ n ih =>
    rw [ih fun k hk => h k (Nat.lt_succ_of_lt hk), comesTo_of_lasts (h n (Nat.lt_succ_self n)), steps_add n 1]
    rfl

theorem ComesTo.unique {last' : Machine} (h : m.ComesTo base last) (h' : m.ComesTo base last') : last' = last := by
  obtain ⟨n, hends, rfl⟩ := h
  obtain ⟨k, hends', rfl⟩ := h'
  rw [hends.unique hends']

theorem comesTo_onto : (m.onto base).ComesTo base last ↔ ∃ mid, m.ComesTo [] mid ∧ mid.onto base = last := by
  constructor
  · rintro ⟨n, hends, rfl⟩
    have halone := ends_onto.1 hends
    exact ⟨_, ⟨n, halone, rfl⟩, (steps_onto halone.first).symm⟩
  · rintro ⟨_, ⟨n, hends, rfl⟩, rfl⟩
    exact ⟨n, ends_onto.2 hends, steps_onto hends.first⟩

/-! ## Evaluations -/

/-- In this state the evaluation of an expression comes to its end with `last`. -/
def Brings (m : Machine) (e : Expr) (last : Machine) : Prop := (m.proceed (.eval e)).ComesTo m.pending last

/-- The evaluation of an expression, with nothing that waits for it. -/
def alone (m : Machine) (e : Expr) : Machine := { m with control := .eval e, pending := [] }

/-- Hands an outcome to a part that waits for it. -/
def hand (m : Machine) (p : Pending) : Machine := { m with pending := p :: m.pending }.step

/-- An evaluation comes to the same end if nothing waits for it. -/
theorem brings_iff : m.Brings e last ↔ ∃ mid, (m.alone e).ComesTo [] mid ∧ mid.onto m.pending = last :=
  comesTo_onto (m := m.alone e)

namespace Brings

theorem unique {last' : Machine} (h : m.Brings e last) (h' : m.Brings e last') : last' = last := ComesTo.unique h h'

theorem distances_eq (h : m.Brings e last) : last.distances = m.distances := by
  obtain ⟨n, -, rfl⟩ := h
  exact steps_distances n _

theorem pending_eq (h : m.Brings e last) : last.pending = m.pending := by
  obtain ⟨n, hends, rfl⟩ := h
  exact hends.meets.1

/-- An evaluation ends with a value or a halt. -/
theorem outcome (h : m.Brings e last) : (∃ v, last.control = .give v) ∨ ∃ halt, last.control = .halt halt := by
  obtain ⟨n, hends, rfl⟩ := h
  have hbegins : ¬ (m.proceed (.eval e)).control.IsOutcome := id
  have hwithin := (begins hbegins).steps n hends.first (Realm.all_makes _ _)
  obtain ⟨-, -, ⟨v, hgive, -⟩ | ⟨_, -, hnot⟩ | hhalt⟩ := hwithin.outcome hends.meets
  · exact .inl ⟨v, hgive⟩
  · cases hnot
  · exact .inr hhalt

end Brings

theorem hand_give {p : Pending} {v : Value} (h : m.control = .give v) : m.hand p = m.resumeValue p v := by
  obtain ⟨control, pending, env, depth, store, console, distances⟩ := m
  obtain rfl : control = .give v := h
  rfl

theorem hand_halt {p : Pending} {halt : Halt} (h : m.control = .halt halt) : m.hand p = m.unwind p halt := by
  obtain ⟨control, pending, env, depth, store, console, distances⟩ := m
  obtain rfl : control = .halt halt := h
  rfl

/-- What waits for an evaluation goes on from its end. -/
theorem comesTo_push {p : Pending} : (m.push p (.eval e)).ComesTo m.pending last ↔
    ∃ mid, m.Brings e mid ∧ (mid.hand p).ComesTo m.pending last := by
  have hlonger : ∀ m' : Machine, ¬ (m'.onto (p :: m.pending)).Meets m.pending := by
    rintro m' ⟨hpending, -⟩
    have := congrArg List.length hpending
    simp [onto] at this
    omega
  have hafter : ∀ {k}, (m.alone e).Ends [] k → ((m.push p (.eval e)).ComesTo m.pending last ↔
      ((((m.alone e).steps k).onto m.pending).hand p).ComesTo m.pending last) := by
    intro k hends
    have hstart : m.push p (.eval e) = (m.alone e).onto (p :: m.pending) := rfl
    have hsteps : ∀ j ≤ k, (m.push p (.eval e)).steps j = ((m.alone e).steps j).onto (p :: m.pending) := fun j hj => by
      rw [hstart, steps_onto fun i hi => hends.first i (Nat.lt_of_lt_of_le hi hj)]
    have hmid : (((m.alone e).steps k).onto m.pending).hand p = (m.push p (.eval e)).steps (k + 1) := by
      rw [steps_add k 1, hsteps k (Nat.le_refl k)]
      show step _ = step _
      simp only [onto, hends.meets.1, List.nil_append]
    rw [hmid]
    refine comesTo_steps fun j hj => ?_
    rw [hsteps j (Nat.le_of_lt_succ hj)]
    exact hlonger _
  constructor
  · intro h
    obtain ⟨n, hends, -⟩ := id h
    have hbegins : ¬ (m.push p (.eval e)).control.IsOutcome := id
    obtain ⟨k, -, hinner, -⟩ := hends.inner (begins hbegins) (Nat.lt_succ_self _)
    have halone : (m.alone e).Ends [] k := (ends_onto : ((m.alone e).onto (p :: m.pending)).Ends _ k ↔ _).1 hinner
    exact ⟨_, brings_iff.2 ⟨_, ⟨k, halone, rfl⟩, rfl⟩, (hafter halone).1 h⟩
  · rintro ⟨mid, hmid, h⟩
    obtain ⟨_, ⟨k, hends, rfl⟩, rfl⟩ := brings_iff.1 hmid
    exact (hafter hends).2 h

/-! ## Rules -/

theorem giveResult_meets (m : Machine) (r : Operator.Result) : (m.giveResult r).Meets m.pending := by
  cases r <;> exact ⟨rfl, trivial⟩

theorem assign_meets (m : Machine) (id : NodeId) (name : Token) (v result : Value) :
    (m.assign id name v result).Meets m.pending := by
  unfold assign
  cases m.destination id name <;> exact ⟨rfl, trivial⟩

/-- An evaluation that begins is not over yet. -/
theorem proceed_lasts (m : Machine) (c : Expr) : ¬ (m.proceed (.eval c)).Meets base := fun h => h.2

theorem proceed_eq {c : Control} (h : m.control = c) : m.proceed c = m := by
  subst h
  rfl

/-- A halt stays as it is at a part that lets it pass. -/
theorem hand_of_passes {p : Pending} {halt : Halt} (h : m.control = .halt halt) (hp : m.unwind p halt = m.halt halt) :
    m.hand p = m := by
  rw [hand_halt h, hp]
  exact proceed_eq h

/-- At a part that lets halts pass and makes an outcome of every value, an evaluation ends with an outcome. -/
theorem Brings.hand_meets {p : Pending} (h : m.Brings e mid) (hvalue : ∀ v, (mid.resumeValue p v).Meets mid.pending)
    (hhalt : ∀ halt, mid.unwind p halt = mid.halt halt) : (mid.hand p).Meets m.pending := by
  rw [← h.pending_eq]
  rcases h.outcome with ⟨v, hgive⟩ | ⟨halt, hhalted⟩
  · rw [hand_give hgive]
    exact hvalue v
  · rw [hand_halt hhalted, hhalt]
    exact ⟨rfl, trivial⟩

/-- An expression that begins with the evaluation of a part. -/
theorem brings_push {c : Expr} {p : Pending} (hstep : (m.proceed (.eval c)).step = m.push p (.eval e)) :
    m.Brings c last ↔ ∃ mid, m.Brings e mid ∧ (mid.hand p).ComesTo m.pending last := by
  unfold Brings
  rw [comesTo_of_lasts (proceed_lasts m c), hstep, comesTo_push]
  exact Iff.rfl

/-- An expression that is over with its first step. -/
theorem brings_of_meets {c : Expr} (hmeets : (m.proceed (.eval c)).step.Meets m.pending) :
    m.Brings c last ↔ last = (m.proceed (.eval c)).step := by
  unfold Brings
  rw [comesTo_of_lasts (proceed_lasts m c), comesTo_of_meets hmeets]

theorem step_eval (m : Machine) (c : Expr) : (m.proceed (.eval c)).step = (m.proceed (.eval c)).eval c := rfl

section

variable {id : NodeId} {name token : Token}

theorem brings_ident : m.Brings (.ident id name) last ↔ last = m.giveResult (m.read id name) := by
  have hstep : (m.proceed (.eval (.ident id name))).step = m.giveResult (m.read id name) := by
    rw [step_eval]
    simp only [eval]
    rw [show (m.proceed (.eval (.ident id name))).read id name = m.read id name from rfl]
    cases m.read id name <;> rfl
  rw [brings_of_meets (hstep ▸ giveResult_meets m _), hstep]

theorem brings_group : m.Brings (.group id token e) last ↔ m.Brings e last :=
  comesTo_of_lasts (proceed_lasts m (.group id token e))

theorem brings_assign :
    m.Brings (.assign id name e) last ↔ ∃ mid, m.Brings e mid ∧ last = mid.hand (.assign id name) := by
  rw [brings_push rfl]
  refine exists_congr fun mid => and_congr_right fun hmid => ?_
  exact comesTo_of_meets (hmid.hand_meets (fun v => assign_meets mid id name v v) fun _ => rfl)

theorem brings_binary {op : BinaryOp} {left right : Expr} : m.Brings (.binary id op token left right) last ↔
    ∃ mid, m.Brings left mid ∧ ((∃ halt, mid.control = .halt halt ∧ last = mid) ∨
      ∃ v mid', mid.control = .give v ∧ mid.Brings right mid' ∧ last = mid'.hand (.right op token v)) := by
  rw [brings_push rfl]
  refine exists_congr fun mid => and_congr_right fun hmid => ?_
  rw [← hmid.pending_eq]
  rcases hmid.outcome with ⟨v, hgive⟩ | ⟨halt, hhalt⟩
  · have hnext : mid.hand (.left op token right) = mid.push (.right op token v) (.eval right) := hand_give hgive
    rw [hnext, comesTo_push]
    have hclose : ∀ mid', mid.Brings right mid' → (mid'.hand (.right op token v)).Meets mid.pending := fun mid' hmid' =>
      hmid'.hand_meets (fun _ => giveResult_meets mid' _) fun _ => rfl
    constructor
    · rintro ⟨mid', hmid', h⟩
      exact .inr ⟨v, mid', hgive, hmid', (comesTo_of_meets (hclose mid' hmid')).1 h⟩
    · rintro (⟨halt, hhalt, -⟩ | ⟨w, mid', hgive', hmid', rfl⟩)
      · rw [hgive] at hhalt
        cases hhalt
      · rw [hgive] at hgive'
        cases hgive'
        exact ⟨mid', hmid', (comesTo_of_meets (hclose mid' hmid')).2 rfl⟩
  · rw [hand_of_passes hhalt rfl, comesTo_of_meets ⟨rfl, by rw [hhalt]; trivial⟩]
    constructor
    · rintro rfl
      exact .inl ⟨halt, hhalt, rfl⟩
    · rintro (⟨_, -, rfl⟩ | ⟨v, _, hgive, -⟩)
      · rfl
      · rw [hhalt] at hgive
        cases hgive

theorem step_compound {op : ArithOp} {current : Value} (h : m.read id name = .ok current) :
    (m.proceed (.eval (.compound id name op token e))).step =
      m.push (.compound id name op token current) (.eval e) := by
  rw [step_eval]
  simp only [eval]
  rw [show (m.proceed (.eval (.compound id name op token e))).read id name = m.read id name from rfl, h]
  rfl

theorem brings_compound {op : ArithOp} : m.Brings (.compound id name op token e) last ↔
    (∃ halt, m.read id name = .error halt ∧ last = m.halt halt) ∨
      ∃ current mid, m.read id name = .ok current ∧ m.Brings e mid ∧
        last = mid.hand (.compound id name op token current) := by
  cases hread : m.read id name with
  | error halt =>
    have hstep : (m.proceed (.eval (.compound id name op token e))).step = m.halt halt := by
      rw [step_eval]
      simp only [eval]
      rw [show (m.proceed (.eval (.compound id name op token e))).read id name = m.read id name from rfl, hread]
      rfl
    rw [brings_of_meets (hstep ▸ ⟨rfl, trivial⟩), hstep]
    constructor
    · rintro rfl
      exact .inl ⟨halt, rfl, rfl⟩
    · rintro (⟨halt, ⟨⟩, rfl⟩ | ⟨_, _, ⟨⟩, -⟩)
      rfl
  | ok current =>
    rw [brings_push (step_compound hread)]
    have hclose : ∀ mid, m.Brings e mid → (mid.hand (.compound id name op token current)).Meets m.pending := by
      intro mid hmid
      refine hmid.hand_meets (fun v => ?_) fun _ => rfl
      simp only [resumeValue]
      cases Operator.compound mid.store op token current v with
      | ok result => exact assign_meets mid id name result result
      | error h => exact ⟨rfl, trivial⟩
    constructor
    · rintro ⟨mid, hmid, h⟩
      exact .inr ⟨current, mid, rfl, hmid, (comesTo_of_meets (hclose mid hmid)).1 h⟩
    · rintro (⟨_, ⟨⟩, -⟩ | ⟨_, mid, ⟨⟩, hmid, rfl⟩)
      exact ⟨mid, hmid, (comesTo_of_meets (hclose mid hmid)).2 rfl⟩

end

end Treewalk.Machine
