import Treewalk.Proofs.Machine.Building

/-!
# The calls that a part of a run makes

A part of a run makes calls, and these make calls in turn. `Machine.Calls` tells the calls that the part makes
itself from those inside of them: between two of its own calls it takes steps, and each of its own calls is taken
as a whole, from its first state to the value that it ends with.

The other lemmas follow pieces of syntax up to their next call: expressions without calls (`Machine.Yields`),
arguments (`Machine.Calls.arguments`), and calls of natives (`Machine.Calls.native`).
-/

namespace Treewalk

/-- A call that ended with a value. -/
structure Call where
  callee : Value
  args : List Value
  result : Value

/-- A call is made next. -/
def Control.IsCall : Control → Prop
  | .call _ _ => True
  | _ => False

namespace Machine

/-- A part of a run for which `base` waits gets from one state to another, and makes these calls itself. What goes
on inside of them is theirs. -/
inductive Calls (base : List Pending) : Machine → List Call → Machine → Prop
  | here (m) : Calls base m [] m
  | step {m calls m'} (hlasts : ¬ m.Meets base) (hcode : ¬ m.control.IsCall) (h : Calls base m.step calls m') :
    Calls base m calls m'
  | call {m callee args n v calls m'} (hcall : m.control = .call callee args) (hends : m.Ends m.pending n)
    (hgive : (m.steps n).control = .give v) (h : Calls base (m.steps n) calls m') :
    Calls base m (⟨callee, args, v⟩ :: calls) m'

variable {base : List Pending} {m m' m'' : Machine} {calls more : List Call}

namespace Calls

theorem trans (h : Calls base m calls m') (h' : Calls base m' more m'') : Calls base m (calls ++ more) m'' := by
  induction h with
  | here => exact h'
  | step hlasts hcode _ ih => exact .step hlasts hcode (ih h')
  | call hcall hends hgive _ ih => exact .call hcall hends hgive (ih h')

/-- First some code, then the rest. -/
theorem andThen (h : Calls base m [] m') (h' : Calls base m' calls m'') : Calls base m calls m'' := h.trans h'

theorem steps (h : Calls base m calls m') : ∃ n, m' = m.steps n := by
  induction h with
  | here => exact ⟨0, rfl⟩
  | step _ _ _ ih =>
    obtain ⟨n, rfl⟩ := ih
    exact ⟨n + 1, rfl⟩
  | @call m callee args n v calls m' _ _ _ _ ih =>
    obtain ⟨k, rfl⟩ := ih
    exact ⟨n + k, (steps_add n k m).symm⟩

/-- While calls are made, the part lasts. -/
theorem lasts {a : Anchor} {s₀ : Store} (h : Calls a.pending m calls m') (hwithin : m.Within .all a s₀) :
    ∃ n, m' = m.steps n ∧ ∀ k < n, ¬ (m.steps k).Meets a.pending := by
  generalize hbase : a.pending = base at h
  induction h with
  | here => exact ⟨0, rfl, fun k hk => absurd hk (Nat.not_lt_zero k)⟩
  | @step m _ _ hlasts _ _ ih =>
    subst hbase
    obtain ⟨n, rfl, hn⟩ := ih (hwithin.step hlasts (Realm.all_makes _ _))
    refine ⟨n + 1, rfl, fun k hk => ?_⟩
    cases k with
    | zero => exact hlasts
    | succ k => exact hn k (Nat.lt_of_succ_lt_succ hk)
  | @call m callee args n v calls m' hcall hends hgive _ ih =>
    subst hbase
    have hbegins : ¬ m.control.IsOutcome := by
      rw [hcall]
      exact id
    -- what waits for the call is longer than the base, or the base itself
    have hinside : ∀ k < n, ¬ (m.steps k).Meets a.pending := by
      rintro k hk ⟨hpending, houtcome⟩
      have hsuffix := ((begins hbegins).steps k (fun j hj => hends.first j (hj.trans hk))
        (Realm.all_makes _ _)).suffix
      rw [hpending] at hsuffix
      have hpending' : m.pending = a.pending :=
        hsuffix.eq_of_length (Nat.le_antisymm hsuffix.length_le hwithin.suffix.length_le)
      exact hends.first k hk ⟨hpending.trans hpending'.symm, houtcome⟩
    obtain ⟨j, rfl, hj⟩ := ih (hwithin.steps n hinside (Realm.all_makes _ _))
    refine ⟨n + j, (steps_add n j m).symm, fun k hk => ?_⟩
    by_cases hlt : k < n
    · exact hinside k hlt
    · have := hj (k - n) (by omega)
      rwa [← steps_add, Nat.add_sub_cancel' (Nat.le_of_not_lt hlt)] at this

end Calls

/-! ## Steps without calls -/

theorem Calls.code (hinner : m.control.IsOutcome → base.length < m.pending.length) (hcode : ¬ m.control.IsCall)
    (hstep : m.step = m') : Calls base m [] m' := by
  refine .step ?_ hcode (hstep ▸ .here _)
  rintro ⟨hpending, houtcome⟩
  have := hinner houtcome
  rw [hpending] at this
  exact Nat.lt_irrefl _ this


/-! ## Expressions without calls -/

/-- An expression comes to a value without any call and without any change. -/
def Yields (m : Machine) (e : Expr) (v : Value) : Prop :=
  ∀ base pending, base.length ≤ pending.length →
    Calls base { m with control := .eval e, pending } [] { m with control := .give v, pending }

theorem yields_literal (m : Machine) (id : NodeId) (token : Token) :
    m.Yields (.literal id token) (.ofLiteral token.literal) :=
  fun _ _ _ => .code False.elim not_false rfl

theorem yields_ident {id : NodeId} {name : Token} {v : Value} (h : m.read id name = .ok v) :
    m.Yields (.ident id name) v := by
  intro base pending _
  refine .code False.elim not_false ?_
  have hread : ({ m with control := .eval (.ident id name), pending } : Machine).read id name = .ok v := h
  simp only [step, eval, hread]
  rfl

theorem yields_index (id : NodeId) {object index : Expr} {bracket : Token} {a : ArrayId} {k : Nat} {x : Value}
    (hobject : m.Yields object (.array a)) (hindex : m.Yields index x)
    (helement : Operator.element m.store bracket (.array a) x = .ok (a, k)) :
    m.Yields (.index id object bracket index) (((m.store.elements a)[k]?).getD .none) := by
  intro base pending hbase
  have hlonger : base.length ≤ (Pending.indexed bracket index .read :: pending).length :=
    Nat.le_succ_of_le hbase
  have hlonger' : base.length ≤ (Pending.index bracket (.array a) .read :: pending).length :=
    Nat.le_succ_of_le hbase
  refine .andThen (.code False.elim not_false rfl) (.andThen (hobject base _ hlonger) ?_)
  refine .andThen (.code (fun _ => Nat.lt_succ_of_le hbase) not_false rfl) (.andThen (hindex base _ hlonger') ?_)
  refine Calls.code (fun _ => Nat.lt_succ_of_le hbase) not_false ?_
  show Machine.useElement { m with control := _, pending } bracket (.array a) x .read = _
  simp only [useElement, helement]
  rfl

/-! ## Arguments -/

/-- A call that is allowed begins. -/
theorem callAt_allowed (paren : Token) {callee : Value} (args : List Value)
    (hallowed : refusal? m.store callee args.length = none) :
    ∃ name, m.callAt paren callee args = m.push (.site paren name) (.call callee args) := by
  refine ⟨((signature? m.store callee).map Prod.fst).getD [], ?_⟩
  unfold callAt
  rw [hallowed]

/-- The arguments that are left are evaluated, and then the call begins. -/
theorem Calls.arguments (paren : Token) {callee : Value} {exprs : List Expr} {vs : List Value}
    (hbase : base.length ≤ m.pending.length) (hargs : List.Forall₂ m.Yields exprs vs) : ∀ (v : Value) (done : List Value),
      refusal? m.store callee ((v :: done).reverse ++ vs).length = none →
      ∃ name, Calls base (m.push (.argument paren callee done exprs) (.give v)) []
        (m.push (.site paren name) (.call callee ((v :: done).reverse ++ vs))) := by
  induction hargs with
  | nil =>
    intro v done hallowed
    rw [List.append_nil] at hallowed ⊢
    obtain ⟨name, hname⟩ := callAt_allowed paren _ hallowed
    refine ⟨name, .code (fun _ => Nat.lt_succ_of_le hbase) not_false ?_⟩
    rw [← hname]
    show Machine.callAt { m with control := _ } paren callee (v :: done).reverse = _
    unfold callAt
    rw [hallowed]
    rfl
  | @cons e w exprs vs hw _ ih =>
    intro v done hallowed
    have hsplit : (v :: done).reverse ++ w :: vs = (w :: v :: done).reverse ++ vs := by simp
    rw [hsplit] at hallowed ⊢
    obtain ⟨name, hrest⟩ := ih w (v :: done) hallowed
    refine ⟨name, .andThen (.code (fun _ => Nat.lt_succ_of_le hbase) not_false rfl) (.andThen ?_ hrest)⟩
    exact hw base (.argument paren callee (v :: done) exprs :: m.pending) (Nat.le_succ_of_le hbase)


/-- The callee and the arguments are evaluated, and then the call begins. -/
theorem Calls.reach (id : NodeId) {callee : Expr} (paren : Token) {e : Expr} {exprs : List Expr} {f v : Value}
    {vs : List Value} (hbase : base.length ≤ m.pending.length) (hcallee : m.Yields callee f)
    (hfirst : m.Yields e v) (hrest : List.Forall₂ m.Yields exprs vs)
    (hallowed : refusal? m.store f (v :: vs).length = none) :
    ∃ name, Calls base (m.proceed (.eval (.call id callee paren (e :: exprs)))) []
      (m.push (.site paren name) (.call f (v :: vs))) := by
  obtain ⟨name, hcall⟩ := Calls.arguments paren hbase hrest v [] hallowed
  refine ⟨name, .andThen (.code False.elim not_false rfl) ?_⟩
  refine .andThen (hcallee base (.callee paren (e :: exprs) :: m.pending) (Nat.le_succ_of_le hbase)) ?_
  refine .andThen (.code (fun _ => Nat.lt_succ_of_le hbase) not_false rfl) ?_
  exact .andThen (hfirst base (.argument paren f [] exprs :: m.pending) (Nat.le_succ_of_le hbase)) hcall

/-- The callee and the first of two arguments are evaluated; the second one comes next. -/
theorem Calls.second {id : NodeId} {callee : Expr} {paren : Token} {e e' : Expr} {f v : Value}
    (hbase : base.length ≤ m.pending.length) (hcallee : m.Yields callee f) (hfirst : m.Yields e v) :
    Calls base (m.proceed (.eval (.call id callee paren [e, e']))) []
      (m.push (.argument paren f [v] []) (.eval e')) := by
  refine .andThen (.code False.elim not_false rfl) ?_
  refine .andThen (hcallee base (.callee paren [e, e'] :: m.pending) (Nat.le_succ_of_le hbase)) ?_
  refine .andThen (.code (fun _ => Nat.lt_succ_of_le hbase) not_false rfl) ?_
  refine .andThen (hfirst base (.argument paren f [] [e'] :: m.pending) (Nat.le_succ_of_le hbase)) ?_
  exact .code (fun _ => Nat.lt_succ_of_le hbase) not_false rfl

/-- The site of a call lets its value pass. -/
theorem Calls.pass {paren : Token} {name : Bytes} {v : Value} (hbase : base.length ≤ m.pending.length) :
    Calls base (m.push (.site paren name) (.give v)) [] (m.proceed (.give v)) :=
  .code (fun _ => Nat.lt_succ_of_le hbase) not_false rfl

/-! ## Calls of natives -/

/-- A call of a native that does not call back ends at once. -/
theorem invoke_native {k : NativeId} {native : Native} {args : List Value} {v : Value} {store : Store}
    (hnative : m.store.natives[k]? = some native) (harity : native.arity = args.length)
    (hroom : m.depth < maxDepth) (hop : ∀ run, native.op ≠ .script run)
    (hrun : ∀ console, native.op.run args ⟨m.store, console⟩ = (.ok v, ⟨store, console⟩)) :
    ∃ console, m.invoke (.native k) args =
      { m with
        control := .give v, pending := .depart m.depth :: m.pending, depth := m.depth + 1, store, console } := by
  have hallowed : refusal? m.store (.native k) args.length = none := by
    simp [refusal?, signature?, hnative, harity]
  refine ⟨m.console.log "call"
    [("fn", ((signature? m.store (.native k)).map Prod.fst).getD []), ("args", Bytes.ofNat args.length),
      ("depth", Bytes.ofNat (m.depth + 1))], ?_⟩
  unfold invoke
  rw [hallowed]
  simp only [enterCall, Nat.not_le.2 hroom, if_false, hnative]
  unfold callNative
  split
  · rename_i run hscript
    exact absurd hscript (hop run)
  · simp only [hrun]

/-- A call of a native that does not call back takes two steps. -/
theorem ends_native {k : NativeId} {native : Native} {args : List Value} {v : Value} {store : Store}
    (hcall : m.control = .call (.native k) args) (hnative : m.store.natives[k]? = some native)
    (harity : native.arity = args.length) (hroom : m.depth < maxDepth) (hop : ∀ run, native.op ≠ .script run)
    (hrun : ∀ console, native.op.run args ⟨m.store, console⟩ = (.ok v, ⟨store, console⟩)) :
    m.Ends m.pending 2 ∧ ∃ console, m.steps 2 = { m with control := .give v, store, console } := by
  obtain ⟨console, hinvoke⟩ := invoke_native hnative harity hroom hop hrun
  have hstep : m.step = m.invoke (.native k) args := by
    unfold step
    rw [hcall]
  have hsteps : m.steps 2 = { m with control := .give v, store, console } := by
    show m.step.step = _
    rw [hstep, hinvoke]
    rfl
  refine ⟨⟨by rw [hsteps]; exact ⟨rfl, trivial⟩, fun j hj => ?_⟩, console, hsteps⟩
  match j, hj with
  | 0, _ =>
    rintro ⟨-, houtcome⟩
    rw [show m.steps 0 = m from rfl, hcall] at houtcome
    exact houtcome
  | 1, _ =>
    refine not_meets_of_cons (p := .depart m.depth) ?_
    show m.step.pending = _
    rw [hstep, hinvoke]

theorem Calls.native (paren : Token) (name : Bytes) {k : NativeId} {native : Native} (args : List Value) {v : Value}
    (store : Store) (hbase : base.length ≤ m.pending.length) (hnative : m.store.natives[k]? = some native)
    (harity : native.arity = args.length) (hroom : m.depth < maxDepth) (hop : ∀ run, native.op ≠ .script run)
    (hrun : ∀ console, native.op.run args ⟨m.store, console⟩ = (.ok v, ⟨store, console⟩)) :
    ∃ console, Calls base (m.push (.site paren name) (.call (.native k) args)) [⟨.native k, args, v⟩]
      { m with control := .give v, store, console } := by
  let called := m.push (.site paren name) (.call (.native k) args)
  obtain ⟨hends, console, hsteps⟩ := ends_native (m := called) rfl hnative harity hroom hop hrun
  refine ⟨console, .call rfl hends (v := v) (by rw [hsteps]) ?_⟩
  rw [hsteps]
  exact .pass (m := { m with store, console }) hbase

end Machine

end Treewalk
