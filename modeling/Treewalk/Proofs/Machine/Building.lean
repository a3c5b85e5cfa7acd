import Treewalk.Proofs.Machine.Part

/-!
# Calls of classes build whole instances

The call of a class makes an instance, computes its fields one after the other, and calls the method that sets the
instance up. All of this is code of the program, which may call the same class again.

**Main results.** A call of a class that succeeds gives an instance that is new, of that class, and has every
declared field (`Machine.Ends.builds`). A call of a set-up method that succeeds gives what its receiver's name is
bound to, unless the run assigned to it (`Machine.Ends.returns_receiver`).

Both follow a part of a run from the end of one inner part to the beginning of the next (`Machine.Ends.resume`).
-/

namespace Treewalk

/-- A part that waits for a call made by a host function. Only such a part may go on after a halt. -/
def Pending.IsCallback : Pending → Prop
  | .callback _ _ => True
  | _ => False

namespace Machine

variable {m : Machine} {base : List Pending} {n : Nat} {s₀ : Store}

/-! ## From one part to the next -/

/-- A halt that meets `p` also meets what waits behind it, unless a host function rescues it. -/
theorem Ends.halts {p : Pending} {halt : Halt} (h : m.Ends base n) (hpending : m.pending = p :: base)
    (hcontrol : m.control = .halt halt) (hp : ¬ p.IsCallback) :
    ∃ halt', (m.steps n).control = .halt halt' := by
  obtain ⟨k, rfl, hnext⟩ := h.next (not_meets_of_cons hpending)
  have hstep : ∃ halt', m.step.control = .halt halt' ∧ m.step.pending = base := by
    rw [step, hcontrol, hpending]
    cases p with
    | callback => exact absurd trivial hp
    | site | depart | restore | body | field => exact ⟨_, rfl, rfl⟩
    | _ => exact ⟨_, rfl, rfl⟩
  obtain ⟨halt', hhalt, hbase⟩ := hstep
  obtain rfl := hnext.now ⟨hbase, by rw [hhalt]; trivial⟩
  exact ⟨halt', hhalt⟩

/-- In a part that does not halt, what waits for an inner part is handed its outcome, in the frame in which the
inner part began, and the rest of the part is what comes after that. -/
theorem Ends.resume {p : Pending} {handed : Handed} {env : FrameId} {depth : Nat} (h : m.Ends base n)
    (hwithin : m.Within .all ⟨handed, p :: base, env, depth⟩ s₀)
    (hp : ¬ p.IsCallback) (hok : ∀ halt, (m.steps n).control ≠ .halt halt) :
    ∃ k j, n = k + 1 + j ∧ m.Ends (p :: base) k ∧ m.steps n = (m.steps k).step.steps j ∧ (m.steps k).step.Ends base j ∧
      (m.steps k).env = env ∧
      ((∃ v, (m.steps k).control = .give v ∧ handed = .value) ∨
        ∃ c, (m.steps k).control = .complete c ∧ handed = .completion) := by
  obtain ⟨k, hk, hends, hinner⟩ := h.inner hwithin (by simp)
  have hafter := h.after (Nat.le_of_lt hk)
  have hsteps : m.steps n = (m.steps k).steps (n - k) := by
    rw [← steps_add, Nat.add_sub_cancel' (Nat.le_of_lt hk)]
  obtain ⟨henv, -, houtcome⟩ := hinner.outcome hends.meets
  obtain ⟨j, hj, hnext⟩ := hafter.next (not_meets_of_cons hends.meets.1)
  rw [hj, steps] at hsteps
  refine ⟨k, j, by omega, hends, hsteps, hnext, henv, ?_⟩
  rcases houtcome with hgive | hcomplete | ⟨halt, hhalt⟩
  · exact .inl hgive
  · exact .inr hcomplete
  · obtain ⟨halt', hhalt'⟩ := hafter.halts hends.meets.1 hhalt hp
    rw [hj, steps, ← hsteps] at hhalt'
    exact absurd hhalt' (hok halt')

/-- An inner part that hands on a value. -/
theorem Ends.resume_value {p : Pending} {env : FrameId} {depth : Nat} (h : m.Ends base n)
    (hwithin : m.Within .all ⟨.value, p :: base, env, depth⟩ s₀)
    (hp : ¬ p.IsCallback) (hok : ∀ halt, (m.steps n).control ≠ .halt halt) :
    ∃ k j v, n = k + 1 + j ∧ m.Ends (p :: base) k ∧ m.steps n = (m.steps k).step.steps j ∧
      (m.steps k).step.Ends base j ∧ (m.steps k).env = env ∧ (m.steps k).control = .give v := by
  obtain ⟨k, j, hn, hends, hsteps, hrest, henv, ⟨v, hgive, -⟩ | ⟨_, -, hnot⟩⟩ := h.resume hwithin hp hok
  · exact ⟨k, j, v, hn, hends, hsteps, hrest, henv, hgive⟩
  · cases hnot

/-- An inner part that hands on a completion. -/
theorem Ends.resume_completion {p : Pending} {env : FrameId} {depth : Nat} (h : m.Ends base n)
    (hwithin : m.Within .all ⟨.completion, p :: base, env, depth⟩ s₀)
    (hp : ¬ p.IsCallback) (hok : ∀ halt, (m.steps n).control ≠ .halt halt) :
    ∃ k j c, n = k + 1 + j ∧ m.Ends (p :: base) k ∧ m.steps n = (m.steps k).step.steps j ∧
      (m.steps k).step.Ends base j ∧ (m.steps k).env = env ∧ (m.steps k).control = .complete c := by
  obtain ⟨k, j, hn, hends, hsteps, hrest, henv, ⟨_, -, hnot⟩ | ⟨c, hcomplete, -⟩⟩ := h.resume hwithin hp hok
  · cases hnot
  · exact ⟨k, j, c, hn, hends, hsteps, hrest, henv, hcomplete⟩

/-- What hands a value on to the base ends there. -/
theorem Ends.gives {v w : Value} (h : m.Ends base n) (hpending : m.pending = base)
    (hcontrol : m.control = .give v) (hgive : (m.steps n).control = .give w) : n = 0 ∧ w = v := by
  obtain rfl := h.now ⟨hpending, by rw [hcontrol]; trivial⟩
  rw [steps, hcontrol] at hgive
  exact ⟨rfl, (Control.give.inj hgive).symm⟩

theorem ne_halt_of_give {v : Value} (h : m.control = .give v) (halt : Halt) : m.control ≠ .halt halt := by
  rintro heq
  rw [h] at heq
  cases heq

/-! ## Instances -/

theorem setUp_gives {object : InstanceId} {cls : Class} {args : List Value} {v : Value}
    (h : (m.setUp object cls args).Ends m.pending n)
    (hgive : ((m.setUp object cls args).steps n).control = .give v) : v = .object object := by
  cases hinit : cls.method? Class.initName with
  | none =>
    have hsetUp : m.setUp object cls args = m.give (.object object) := by rw [setUp, hinit]
    rw [hsetUp] at h hgive
    exact (h.gives rfl rfl hgive).2
  | some init =>
    let bound : Machine :=
      { m with store := (m.store.bind init object).2, pending := .construct object :: m.pending }
    have hsetUp : m.setUp object cls args = bound.callClosure (m.store.bind init object).1 args := by
      rw [setUp, hinit]
    have hwithin : (bound.callClosure (m.store.bind init object).1 args).Within .all
        ⟨.value, .construct object :: m.pending, m.env, m.depth⟩ bound.store :=
      callClosure_within (.all (Nat.le_max_left _ _)) (Closure.in_all _) (fun v _ => v.in_all) .anchor
        (Realm.all_makes _ _)
    rw [hsetUp] at h hgive
    obtain ⟨k, j, w, -, hends, hsteps, hrest, -, hgiven⟩ := h.resume_value hwithin id (ne_halt_of_give hgive)
    rw [hsteps] at hgive
    refine (hrest.gives ?_ ?_ hgive).2
    · rw [step, hgiven, hends.meets.1]
      rfl
    · rw [step, hgiven, hends.meets.1]
      rfl

/-- The fields of an instance are computed in order, and each is written. -/
theorem initFields_builds {object : InstanceId} {cls : Class} {args : List Value} {v : Value} :
    ∀ {fields : List Field} {m : Machine} {n : Nat}, object < m.store.instances.size →
      (m.initFields object cls args fields).Ends m.pending n →
      ((m.initFields object cls args fields).steps n).control = .give v →
      v = .object object ∧ ∀ f ∈ fields, ∃ o,
        ((m.initFields object cls args fields).steps n).store.instances[object]? = some o ∧
          f.name.lexeme ∈ o.names
  | [], m, n, _, h, hgive => ⟨setUp_gives h hgive, List.forall_mem_nil _⟩
  | f :: rest, m, n, hsize, h, hgive => by
    generalize hstart : m.initFields object cls args (f :: rest) = start at h hgive
    have hbegins : ¬ start.control.IsOutcome := by
      rw [← hstart]
      exact id
    have hwithin : start.Within .all
        ⟨.value, .field object f.name.lexeme rest cls args m.env :: m.pending, cls.env, m.depth⟩ start.store := by
      have := begins hbegins
      rw [← hstart] at this ⊢
      exact this
    obtain ⟨k, j, w, -, hends, hsteps, hrest, -, hgiven⟩ :=
      h.resume_value hwithin id (ne_halt_of_give hgive)
    generalize hmiddle : start.steps k = middle at hends hsteps hrest hgiven
    let written : Machine :=
      { middle with
        pending := m.pending, store := middle.store.putField object f.name.lexeme w, env := m.env }
    have hwaits : middle.pending = .field object f.name.lexeme rest cls args m.env :: m.pending := by
      rw [← hmiddle]
      exact hends.meets.1
    have hstep : middle.step = written.initFields object cls args rest := by
      rw [step, hgiven, hwaits]
      rfl
    have hgrown : start.store.Extends Set.univ middle.store := by
      rw [← hmiddle]
      exact (start.steps_extends k).mono (Set.subset_univ _)
    have hinstance : ∃ o, middle.store.instances[object]? = some o := by
      have hfirst : start.store.instances[object]? = some m.store.instances[object] := by
        rw [← hstart]
        exact Array.getElem?_eq_getElem hsize
      obtain ⟨o, ho, -⟩ := hgrown.instances object _ hfirst
      exact ⟨o, ho⟩
    obtain ⟨o, ho⟩ := hinstance
    have hput : written.store.instances[object]? = some (o.put f.name.lexeme w) := by
      simp only [written, Store.putField, Array.getElem?_modify, if_pos, ho, Option.map_some]
    rw [hstep] at hsteps hrest
    rw [hsteps] at hgive ⊢
    obtain ⟨hobject, hfields⟩ :=
      initFields_builds (m := written) (Array.getElem?_eq_some_iff.1 hput).1 hrest hgive
    refine ⟨hobject, List.forall_mem_cons.2 ⟨?_, hfields⟩⟩
    have hkept : written.store.Extends Set.univ
        ((written.initFields object cls args rest).steps j).store :=
      (initFields_extends written object cls args rest).trans
        ((steps_extends _ j).mono (Set.subset_univ _))
    obtain ⟨o', ho', -, hnames⟩ := hkept.instances object _ hput
    exact ⟨o', ho', hnames.subset (o.mem_names_put f.name.lexeme w)⟩

/-- The first step of the call of a class: the call is refused, or an instance is made. -/
theorem step_class {c : ClassId} {args : List Value} (hcall : m.control = .call (.classRef c) args) :
    (∃ halt, m.step.control = .halt halt ∧ m.step.pending = m.pending) ∨
      ∃ (cls : Class) (made : Machine), m.store.classes[c]? = some cls ∧
        m.step = made.initFields m.store.instances.size cls args cls.fields ∧
        made.store = (m.store.newInstance c).2 ∧ made.pending = .depart m.depth :: m.pending := by
  rw [step, hcall]
  dsimp only
  unfold invoke
  split
  · exact .inl ⟨_, rfl, rfl⟩
  · rename_i hallowed
    dsimp only
    split
    · exact .inl ⟨_, rfl, rfl⟩
    · rename_i m' henter
      obtain ⟨hstore, -, -, hpending⟩ := enterCall_ok henter
      right
      cases hcls : m.store.classes[c]? with
      | none => simp [refusal?, signature?, hcls] at hallowed
      | some cls =>
        rw [hstore, hcls]
        exact ⟨cls, { m' with store := (m.store.newInstance c).2 }, rfl, rfl, rfl, hpending⟩

/-- A call of a class that succeeds gives a new instance of that class with all declared fields. -/
theorem Ends.builds {c : ClassId} {args : List Value} {v : Value} (h : m.Ends m.pending n)
    (hcall : m.control = .call (.classRef c) args) (hgive : (m.steps n).control = .give v) :
    ∃ cls object o, m.store.classes[c]? = some cls ∧ v = .object object ∧ m.store.instances.size ≤ object ∧
      (m.steps n).store.instances[object]? = some o ∧ o.cls = c ∧ ∀ f ∈ cls.fields, f.name.lexeme ∈ o.names := by
  obtain ⟨k, rfl, hnext⟩ := h.next (by
    rintro ⟨-, houtcome⟩
    rw [hcall] at houtcome
    exact houtcome)
  rw [steps] at hgive ⊢
  rcases step_class hcall with ⟨halt, hhalt, hpending⟩ | ⟨cls, made, hcls, hstep, hstore, hpending⟩
  · obtain rfl := hnext.now ⟨hpending, by rw [hhalt]; trivial⟩
    rw [steps, hhalt] at hgive
    cases hgive
  · rw [hstep] at hnext hgive ⊢
    have hwithin : (made.initFields m.store.instances.size cls args cls.fields).Within .all
        ⟨.value, .depart m.depth :: m.pending, made.env, made.depth⟩ made.store := by
      refine initFields_within (.all (Nat.le_max_left _ _)) _ cls.in_all (fun v _ => v.in_all)
        (fun _ _ => trivial) ?_ (Realm.all_makes _ _)
      rw [hpending]
      exact .anchor
    obtain ⟨i, j, w, -, hends, hsteps, hrest, -, hgiven⟩ :=
      hnext.resume_value hwithin id (ne_halt_of_give hgive)
    generalize hstart : made.initFields m.store.instances.size cls args cls.fields = start at *
    have hsize : m.store.instances.size < made.store.instances.size := by
      simp [hstore, Store.newInstance]
    have hdeparts : (start.steps i).step.pending = m.pending ∧ (start.steps i).step.control = .give w ∧
        (start.steps i).step.store = (start.steps i).store := by
      rw [step, hgiven, hends.meets.1]
      exact ⟨rfl, rfl, rfl⟩
    rw [hsteps] at hgive ⊢
    obtain ⟨rfl, rfl⟩ := hrest.gives hdeparts.1 hdeparts.2.1 hgive
    have hmade : (made.initFields m.store.instances.size cls args cls.fields).Ends made.pending i := by
      rw [hstart, hpending]
      exact hends
    obtain ⟨hobject, hfields⟩ := initFields_builds hsize hmade (by rw [hstart]; exact hgiven)
    rw [hstart] at hfields
    have hnew : made.store.instances[m.store.instances.size]? = some { cls := c } := by
      simp [hstore, Store.newInstance]
    have hkept : made.store.Extends Set.univ (start.steps i).store := by
      rw [← hstart]
      exact (initFields_extends made _ cls args cls.fields).trans
        ((steps_extends _ i).mono (Set.subset_univ _))
    obtain ⟨o, ho, hclass, -⟩ := hkept.instances _ _ hnew
    refine ⟨cls, m.store.instances.size, o, hcls, hobject, Nat.le_refl _, ?_, hclass, fun f hf => ?_⟩
    · rw [steps, hdeparts.2.2]
      exact ho
    · obtain ⟨o', ho', hname⟩ := hfields f hf
      rw [ho] at ho'
      cases ho'
      exact hname

/-! ## Receivers -/

/-- The first step of the call of a function: the call is refused, or the body begins. -/
theorem step_function {f : FunctionId} {closure : Closure} {args : List Value}
    (hcall : m.control = .call (.function f) args) (hf : m.store.functions[f]? = some closure) :
    (∃ halt, m.step.control = .halt halt ∧
        (m.step.pending = m.pending ∨ m.step.pending = .depart m.depth :: m.pending)) ∨
      ∃ called : Machine, m.step = called.sequence closure.body ∧
        called.pending = .body closure m.env :: .depart m.depth :: m.pending := by
  rw [step, hcall]
  dsimp only
  unfold invoke
  split
  · exact .inl ⟨_, rfl, .inl rfl⟩
  · dsimp only
    split
    · exact .inl ⟨_, rfl, .inl rfl⟩
    · rename_i m' henter
      obtain ⟨hstore, henv, -, hpending⟩ := enterCall_ok henter
      rw [hstore, hf]
      dsimp only
      unfold callClosure
      split
      · exact .inl ⟨_, rfl, .inr hpending⟩
      · refine .inr ⟨_, rfl, ?_⟩
        dsimp only
        rw [hpending, henv]

/-- The body of a set-up method that ends well gives what the receiver's name is bound to. -/
theorem finishBody_receiver {closure : Closure} {c : Completion} {b : Binding} {v : Value}
    (hinit : closure.isInit = true) (hb : (m.store.frame closure.env).find? Store.receiverName = some b)
    (hgive : (m.finishBody closure c).control = .give v) : v = b.value := by
  have hget : m.store.getAt closure.env 0 Store.receiverName = .ok b.value := by
    simp [Store.getAt, Store.target, Store.ancestor?, Frame.lookup?, hb, Except.map]
  unfold finishBody at hgive
  cases c with
  | leave | skip => cases hgive
  | normal | result =>
    dsimp only at hgive
    rw [if_pos hinit, hget] at hgive
    exact (Control.give.inj hgive).symm

theorem finishBody_meets (closure : Closure) (c : Completion) : (m.finishBody closure c).Meets m.pending := by
  unfold finishBody
  cases c with
  | leave | skip => exact ⟨rfl, trivial⟩
  | normal | result =>
    dsimp only
    split_ifs
    · split <;> exact ⟨rfl, trivial⟩
    · exact ⟨rfl, trivial⟩

/-- A call of a set-up method that succeeds gives what the receiver's name is bound to when the call begins, unless
the run assigns to that name in between. -/
theorem Ends.returns_receiver {f : FunctionId} {closure : Closure} {args : List Value} {b : Binding} {v : Value}
    (h : m.Ends m.pending n) (hcall : m.control = .call (.function f) args)
    (hf : m.store.functions[f]? = some closure) (hinit : closure.isInit = true)
    (hb : (m.store.frame closure.env).find? Store.receiverName = some b)
    (hkept : ∀ k < n, (closure.env, Store.receiverName) ∉ (m.steps k).assigned)
    (hgive : (m.steps n).control = .give v) : v = b.value := by
  have hok := ne_halt_of_give hgive
  obtain ⟨k, rfl, hnext⟩ := h.next (by
    rintro ⟨-, houtcome⟩
    rw [hcall] at houtcome
    exact houtcome)
  rw [steps] at hgive hok
  rcases step_function hcall hf with ⟨halt, hhalt, hpending | hpending⟩ | ⟨called, hstep, hpending⟩
  · obtain rfl := hnext.now ⟨hpending, by rw [hhalt]; trivial⟩
    exact absurd hhalt (hok halt)
  · obtain ⟨halt', hhalt'⟩ := hnext.halts hpending hhalt id
    exact absurd hhalt' (hok halt')
  · -- the call departs with the value that its body comes to
    have houter : m.step.Within .all ⟨.value, .depart m.depth :: m.pending, m.env, called.depth⟩ called.store := by
      rw [hstep]
      refine sequence_within (.all (Nat.le_max_left _ _)) trivial trivial ?_
      rw [hpending]
      exact .body trivial .anchor
    obtain ⟨i, j, w, hk, hends, hsteps, hrest, -, hgiven⟩ := hnext.resume_value houter id hok
    have hdeparts : (m.step.steps i).step.pending = m.pending ∧ (m.step.steps i).step.control = .give w := by
      rw [step, hgiven, hends.meets.1]
      exact ⟨rfl, rfl⟩
    rw [hsteps] at hgive
    obtain ⟨rfl, rfl⟩ := hrest.gives hdeparts.1 hdeparts.2 hgive
    -- the body ends with a completion, and then the receiver is looked up
    have hinner : m.step.Within .all
        ⟨.completion, .body closure m.env :: .depart m.depth :: m.pending, called.env, called.depth⟩
        called.store := by
      rw [hstep]
      refine sequence_within (.all (Nat.le_max_left _ _)) trivial trivial ?_
      rw [hpending]
      exact .anchor
    obtain ⟨i', j', c, hi, hbody, hsteps', hrest', -, hcomplete⟩ :=
      hends.resume_completion hinner id (ne_halt_of_give hgiven)
    have hfinish : (m.step.steps i').step =
        { m.step.steps i' with pending := .depart m.depth :: m.pending, env := m.env }.finishBody closure c := by
      rw [step, hcomplete, hbody.meets.1]
      rfl
    have hfound : ((m.step.steps i').store.frame closure.env).find? Store.receiverName = some b := by
      refine (m.steps_extends (i' + 1)).bindings closure.env Store.receiverName b hb ?_
      rintro ⟨k', hk', hassigned⟩
      exact hkept k' (by omega) hassigned
    rw [hfinish] at hsteps' hrest'
    obtain rfl := hrest'.now (finishBody_meets closure c)
    rw [hsteps', steps] at hgiven
    exact finishBody_receiver hinit (by exact hfound) hgiven

end Machine

end Treewalk
