import Treewalk.Proofs.Machine.Evaluation
import Treewalk.Proofs.Machine.Operators
import Treewalk.Proofs.Scope.Twins
import Treewalk.Proofs.Session.Alike
import Treewalk.Proofs.Tree.Equality

/-!
# Compound assignment, spelled out

A compound assignment `x op= e` reads the variable, evaluates `e`, operates and writes. So does `x = x op (e)`, by
way of an assignment, a binary expression and a group. The two are other pieces of text, with identities and tokens
of their own, and other parts wait while `e` is evaluated.

**Evaluations alike** (`Machine.evaluations_alike`). The same expression comes to ends alike in the two, whatever
waits for it: calls that are nested deeper wait for their ends only, so that for a comparison nothing but these need
wait.

**Main theorem** (`Reached.compound_spelled_out`). In every state the compound assignment and what it spells come to
ends that agree, or neither comes to an end, unless the compound operator repeats a string.
-/

namespace Treewalk

variable {L : Likeness} {d : Distances}

/-! ## Evaluations alike -/

namespace Machine

/-- What waits if calls are nested this deep and nothing else waits. -/
def departures : Nat → List Pending
  | 0 => []
  | depth + 1 => .depart depth :: departures depth

theorem waits_departures : ∀ depth, Waits L none depth (departures depth) (departures depth)
  | 0 => .nothing rfl
  | depth + 1 => .depart (waits_departures depth)

theorem waits_length {more : Option (List Stmt)} {depth : Nat} {ps ps' : List Pending} (h : Waits L more depth ps ps') :
    ps'.length = ps.length := by
  induction h with
  | nothing | program => rfl
  | part _ _ ih | depart _ ih => exact congrArg (· + 1) ih

/-- The ends of two evaluations, alike in all that a program sees. -/
structure EndsAlike (L : Likeness) (m m' : Machine) : Prop where
  env : m'.env = m.env
  depth : m'.depth = m.depth
  store : m.store.Like L m'.store
  console : m.console.Like L m'.console
  control : m.control.Like L m'.control

theorem meets_nil {m : Machine} : m.Meets [] ↔ m.isFinal = true := by
  obtain ⟨control, pending, env, depth, store, console, distances⟩ := m
  unfold Meets isFinal
  cases pending <;> cases control <;> simp [Control.IsOutcome]

/-- Once nothing waits for an outcome, it stays. -/
theorem lasts_before {m : Machine} {n : Nat} (h : ¬ (m.steps n).Meets []) : ∀ k < n, ¬ (m.steps k).Meets [] := by
  intro k hk hmeets
  obtain ⟨j, rfl⟩ := Nat.exists_eq_add_of_lt hk
  rw [Nat.add_assoc, steps_add, steps_of_isFinal (meets_nil.1 hmeets)] at h
  exact h hmeets

/-- Machines alike meet nothing together. -/
theorem Like.meets_nil {m m' : Machine} {base : List Pending}
    (h : (m.onto base).Like L none d d (m'.onto base)) : m'.Meets [] ↔ m.Meets [] := by
  have hlength : m'.pending.length = m.pending.length := by
    have := waits_length h.waits
    simpa [onto] using this
  have houtcome : m'.control.IsOutcome ↔ m.control.IsOutcome := by
    have hcontrol : m.control.Like L m'.control := h.control
    generalize m.control = c at hcontrol
    generalize m'.control = c' at hcontrol
    cases hcontrol <;> exact Iff.rfl
  unfold Meets
  rw [houtcome, ← List.length_eq_zero_iff, hlength, List.length_eq_zero_iff]

/-- What is routed with something behind all that waits is routed with something else behind it. -/
theorem Routed.onto {m : Machine} {base base' : List Pending} (h : (m.onto base).Routed) (hlasts : ¬ m.Meets []) :
    (m.onto base').Routed := by
  have hwaits : m.control.IsOutcome → ∃ p rest, m.pending = p :: rest := by
    intro houtcome
    cases hpending : m.pending with
    | nil => exact absurd ⟨hpending, houtcome⟩ hlasts
    | cons p rest => exact ⟨p, rest, rfl⟩
  have hhead : ∀ {p rest q more b}, m.pending = p :: rest → (m.onto b).pending = q :: more →
      p = q ∧ more = rest ++ b := by
    intro p rest q more b hp hq
    simp only [Machine.onto, hp, List.cons_append, List.cons.injEq] at hq
    exact ⟨hq.1, hq.2.symm⟩
  refine ⟨fun c hc htop => ?_, fun v p rest hv hp => ?_, fun c p rest hc hp => ?_⟩
  · obtain ⟨p, rest, hpending⟩ := hwaits (by rw [show m.control = .complete c from hc]; trivial)
    rcases htop with hnone | ⟨stmts, more, hprogram⟩
    · simp [Machine.onto, hpending] at hnone
    · obtain ⟨rfl, -⟩ := hhead hpending hprogram
      exact h.top c hc (.inr ⟨stmts, rest ++ base, by simp [Machine.onto, hpending]⟩)
  · obtain ⟨q, more, hpending⟩ := hwaits (by rw [show m.control = .give v from hv]; trivial)
    obtain ⟨rfl, -⟩ := hhead hpending hp
    exact h.give v _ (more ++ base) hv (by simp [Machine.onto, hpending])
  · obtain ⟨q, more, hpending⟩ := hwaits (by rw [show m.control = .complete c from hc]; trivial)
    obtain ⟨rfl, -⟩ := hhead hpending hp
    exact h.complete c _ (more ++ base) hc (by simp [Machine.onto, hpending])

/-- Two evaluations go on alike, with nothing but departures behind what waits. By induction on the number of steps;
what is really behind keeps the first one routed. -/
theorem onto_like {m m' : Machine} {base real : List Pending} (hids : ∀ id id', L.ids id id' → d.find? id' = d.find? id)
    (h : (m.onto base).Like L none d d (m'.onto base)) (hrouted : ∀ n, ((m.onto real).steps n).Routed) (n : Nat) :
    ((m.steps n).onto base).Like L none d d ((m'.steps n).onto base) := by
  induction n with
  | zero => exact h
  | succ n ih =>
    rw [steps_add n 1, steps_add n 1]
    show ((m.steps n).step.onto base).Like L none d d ((m'.steps n).step.onto base)
    by_cases hmeets : (m.steps n).Meets []
    · rw [step_of_isFinal (Machine.meets_nil.1 hmeets),
        step_of_isFinal (Machine.meets_nil.1 (ih.meets_nil.2 hmeets))]
      exact ih
    · have hreal := hrouted n
      rw [steps_onto (lasts_before hmeets)] at hreal
      rw [← step_onto hmeets, ← step_onto (mt ih.meets_nil.1 hmeets)]
      exact ih.step (fun id _ _ id' => hids id id') (hreal.onto hmeets) fun _ => rfl

variable {m : Machine} {e e' : Expr}

/-- The same expression comes to ends alike, or to none. -/
theorem evaluations_alike (hids : ∀ id id', L.ids id id' → d.find? id' = d.find? id) (htable : m.distances = d)
    (hstore : m.store.Like L m.store) (hconsole : m.console.Like L m.console) (he : e.Like L e') {real : List Pending}
    (hrouted : ∀ n, (((m.alone e).onto real).steps n).Routed) :
    (∀ mid, m.Brings e mid → ∃ mid', m.Brings e' mid' ∧ mid.EndsAlike L mid') ∧
      ∀ mid', m.Brings e' mid' → ∃ mid, m.Brings e mid ∧ mid.EndsAlike L mid' := by
  have hstart : ((m.alone e).onto (departures m.depth)).Like L none d d ((m.alone e').onto (departures m.depth)) :=
    ⟨⟨waits_departures _, rfl, rfl, hstore, hconsole, htable, htable⟩, .eval he⟩
  have hlike := onto_like hids hstart hrouted
  have hends : ∀ n, (m.alone e').Ends [] n ↔ (m.alone e).Ends [] n := fun n =>
    ⟨fun h => ⟨(hlike n).meets_nil.1 h.meets, fun k hk hmeets => h.first k hk ((hlike k).meets_nil.2 hmeets)⟩,
      fun h => ⟨(hlike n).meets_nil.2 h.meets, fun k hk hmeets => h.first k hk ((hlike k).meets_nil.1 hmeets)⟩⟩
  have halike : ∀ n, (((m.alone e).steps n).onto m.pending).EndsAlike L (((m.alone e').steps n).onto m.pending) :=
    fun n => ⟨(hlike n).env, (hlike n).depth, (hlike n).store, (hlike n).console, (hlike n).control⟩
  constructor
  · intro mid h
    obtain ⟨_, ⟨n, hn, rfl⟩, rfl⟩ := brings_iff.1 h
    exact ⟨_, brings_iff.2 ⟨_, ⟨n, (hends n).2 hn, rfl⟩, rfl⟩, halike n⟩
  · intro mid' h
    obtain ⟨_, ⟨n, hn, rfl⟩, rfl⟩ := brings_iff.1 h
    exact ⟨_, brings_iff.2 ⟨_, ⟨n, (hends n).1 hn, rfl⟩, rfl⟩, halike n⟩

end Machine

theorem SameResult.of_ok {α : Type} {a : α} {r : Except Halt α} (h : SameResult L (.ok a) r) : r = .ok a := by
  cases h
  rfl

theorem SameResult.of_error {α : Type} {halt : Halt} {r : Except Halt α} (h : SameResult L (.error halt) r) :
    ∃ halt', r = .error halt' ∧ halt.Like L halt' := by
  cases h with
  | error hh => exact ⟨_, rfl, hh⟩

theorem Control.Like.of_give {v : Value} {c : Control} (h : (Control.give v).Like L c) : c = .give v := by
  cases h
  rfl

theorem Control.Like.of_halt {halt : Halt} {c : Control} (h : (Control.halt halt).Like L c) :
    ∃ halt', c = .halt halt' ∧ halt.Like L halt' := by
  cases h with
  | halt hh => exact ⟨_, rfl, hh⟩

/-! ## What a compound assignment spells -/

/-- `x = x op (e)`. -/
def Expr.spelledOut (op : ArithOp) (name operator paren : Token) (e : Expr) : Expr :=
  .assign 0 name (.binary 0 (.arith op) operator (.ident 0 name) (.group 0 paren e))

/-- What is spelled out like that, up to identities and positions. -/
theorem Expr.eq_spelledOut {op : ArithOp} {name operator paren : Token} {e a : Expr}
    (h : a.map blank nowhere = (Expr.spelledOut op name operator paren e).map blank nowhere) :
    ∃ id id' id'' id''' target operand token bracket e',
      a = .assign id target (.binary id' (.arith op) token (.ident id'' operand) (.group id''' bracket e')) ∧
        target.move nowhere = name.move nowhere ∧ operand.move nowhere = name.move nowhere ∧
          e'.map blank nowhere = e.map blank nowhere := by
  cases a with
  | assign id target value =>
    injection h with _ htarget hvalue
    cases value with
    | binary id' op' token left right =>
      injection hvalue with _ hop _ hleft hright
      subst hop
      cases left with
      | ident id'' operand =>
        injection hleft with _ hoperand
        cases right with
        | group id''' bracket e' =>
          injection hright with _ _ he
          exact ⟨id, id', id'', id''', target, operand, token, bracket, e', rfl, htarget, hoperand, he⟩
        | _ => cases hright
      | _ => cases hleft
    | _ => cases hvalue
  | _ => cases h

namespace Machine

variable {m mid last : Machine} {e : Expr} {id id' id'' id''' : NodeId} {name target operand token bracket : Token}
  {op : ArithOp}

/-- Writes the result of an operator to a variable and gives it. -/
def settle (m : Machine) (id : NodeId) (name : Token) : Operator.Result → Machine
  | .ok v => m.assign id name v v
  | .error h => m.halt h

theorem hand_compound {current v : Value} (h : mid.control = .give v) :
    mid.hand (.compound id name op token current) =
      mid.settle id name (Operator.compound mid.store op token current v) := by
  rw [hand_give h]
  simp only [resumeValue]
  cases Operator.compound mid.store op token current v <;> rfl

theorem hand_right_assign {current v : Value} (h : mid.control = .give v) :
    (mid.hand (.right (.arith op) token current)).hand (.assign id name) =
      mid.settle id name (Operator.binary mid.store (.arith op) token current v) := by
  rw [hand_give h]
  simp only [resumeValue]
  cases Operator.binary mid.store (.arith op) token current v with
  | error halt => exact hand_of_passes rfl rfl
  | ok w =>
    show (mid.give w).assign id name w w = mid.assign id name w w
    unfold assign
    rw [show (mid.give w).destination id name = mid.destination id name from rfl]
    cases mid.destination id name <;> rfl

/-- A result that is refused, or that has nowhere to go, leaves all as it is. -/
theorem settle_halt {r : Operator.Result} {halt : Halt} (h : (m.settle id name r).control = .halt halt) :
    m.settle id name r = m.halt halt := by
  cases r with
  | error =>
    cases h
    rfl
  | ok v =>
    simp only [settle, assign] at h ⊢
    cases hdestination : m.destination id name with
    | error =>
      rw [hdestination] at h
      cases h
      rfl
    | ok f =>
      rw [hdestination] at h
      cases h

/-- The evaluation of what a compound assignment spells: it reads the variable, evaluates, operates and writes. -/
theorem brings_spelledOut :
    m.Brings (.assign id target (.binary id' (.arith op) token (.ident id'' operand) (.group id''' bracket e))) last ↔
      (∃ halt, m.read id'' operand = .error halt ∧ last = m.halt halt) ∨
        ∃ current mid, m.read id'' operand = .ok current ∧ m.Brings e mid ∧
          last = (mid.hand (.right (.arith op) token current)).hand (.assign id target) := by
  simp only [brings_assign, brings_binary, brings_ident, brings_group, exists_eq_left]
  cases hread : m.read id'' operand with
  | error halt =>
    constructor
    · rintro ⟨_, ⟨halt', hhalt, rfl⟩ | ⟨v, _, hgive, -⟩, rfl⟩
      · exact .inl ⟨halt, rfl, hand_of_passes rfl rfl⟩
      · cases hgive
    · rintro (⟨_, ⟨⟩, rfl⟩ | ⟨_, _, ⟨⟩, -⟩)
      exact ⟨_, .inl ⟨halt, rfl, rfl⟩, (hand_of_passes rfl rfl).symm⟩
  | ok current =>
    constructor
    · rintro ⟨_, ⟨halt', hhalt, rfl⟩ | ⟨v, mid, hgive, hmid, rfl⟩, rfl⟩
      · cases hhalt
      · cases hgive
        exact .inr ⟨current, mid, rfl, hmid, rfl⟩
    · rintro (⟨_, ⟨⟩, -⟩ | ⟨_, mid, ⟨⟩, hmid, rfl⟩)
      exact ⟨_, .inr ⟨current, mid, rfl, hmid, rfl⟩, rfl⟩

end Machine

/-! ## Ends that agree -/

/-- The same value, or halts of the same kind. -/
inductive Control.Agrees : Control → Control → Prop
  | give {v} : Control.Agrees (.give v) (.give v)
  | halt {h h'} (hh : h.SameKind h') : Control.Agrees (.halt h) (.halt h')

namespace Machine

/-- The ends of two evaluations with the same value, or with halts of the same kind, in states that are the same up
to identities and positions. -/
structure Agrees (L : Likeness) (m m' : Machine) : Prop where
  env : m'.env = m.env
  depth : m'.depth = m.depth
  store : m.store.Like L m'.store
  console : m.console.Like L m'.console
  control : m.control.Agrees m'.control

/-- Two expressions come to ends that agree, or neither comes to an end. -/
def EvaluatesAlike (L : Likeness) (m : Machine) (e e' : Expr) : Prop :=
  (∀ last, m.Brings e last → ∃ last', m.Brings e' last' ∧ last.Agrees L last') ∧
    ∀ last', m.Brings e' last' → ∃ last, m.Brings e last ∧ last.Agrees L last'

namespace EndsAlike

variable {m m' : Machine} {id id' : NodeId} {name name' : Token}

/-- What waits does not matter to a variable. -/
theorem beside (h : m.EndsAlike L m') (htable : m.distances = d) (htable' : m'.distances = d) :
    Machine.Beside L none d d { m with pending := departures m.depth } { m' with pending := departures m.depth } :=
  ⟨waits_departures _, h.env, h.depth, h.store, h.console, htable, htable'⟩

theorem halt (h : m.EndsAlike L m') {halt halt' : Halt} (hh : halt.SameKind halt') :
    (m.halt halt).Agrees L (m'.halt halt') := ⟨h.env, h.depth, h.store, h.console, .halt hh⟩

/-- Results that agree are written to the same variable. -/
theorem settle (h : m.EndsAlike L m') (htable : m.distances = d) (htable' : m'.distances = d)
    (hid : d.find? id' = d.find? id) (hname : name.Like L name') {r r' : Operator.Result} (hr : Operator.Agrees r r') :
    (m.settle id name r).Agrees L (m'.settle id' name' r') := by
  cases hr with
  | error hh => exact h.halt hh
  | @ok v =>
    have hdestination : SameResult L (m.destination id name) (m'.destination id' name') :=
      (h.beside htable htable').destination hid hname
    simp only [Machine.settle, Machine.assign]
    generalize m.destination id name = r at hdestination ⊢
    generalize m'.destination id' name' = r' at hdestination ⊢
    cases hdestination with
    | error hh => exact h.halt hh.sameKind
    | @ok f =>
      dsimp only
      rw [hname.lexeme_eq]
      exact ⟨h.env, h.depth, h.store.put f name.lexeme v, h.console, .give⟩

/-- From ends alike, a compound assignment and what it spells come to ends that agree, but for a repetition. -/
theorem finish (h : m.EndsAlike L m') (htable : m.distances = d) (htable' : m'.distances = d)
    (houtcome : (∃ v, m.control = .give v) ∨ ∃ halt, m.control = .halt halt) (hid : d.find? id' = d.find? id)
    (hname : name.Like L name') {op : ArithOp} {current : Value} {token token' : Token}
    (hplain : ∀ v, m.control = .give v → ¬ Operator.Repeats op current v) :
    (m.hand (.compound id name op token current)).Agrees L
      ((m'.hand (.right (.arith op) token' current)).hand (.assign id' name')) := by
  have hcontrol := h.control
  rcases houtcome with ⟨v, hgive⟩ | ⟨halt, hhalt⟩
  · rw [hgive] at hcontrol
    rw [hand_compound hgive, hand_right_assign hcontrol.of_give]
    exact h.settle htable htable' hid hname (Operator.compound_agrees h.store token token' (hplain v hgive))
  · rw [hhalt] at hcontrol
    obtain ⟨halt', hhalt', hlike⟩ := hcontrol.of_halt
    have hpassed : m'.hand (.right (.arith op) token' current) = m' := hand_of_passes hhalt' rfl
    rw [hpassed, hand_of_passes hhalt rfl, hand_of_passes hhalt' rfl]
    refine ⟨h.env, h.depth, h.store, h.console, ?_⟩
    rw [hhalt, hhalt']
    exact .halt hlike.sameKind

end EndsAlike

section

variable {m : Machine} {e e' : Expr} {id id' id'' id''' idGroup : NodeId} {op : ArithOp}
  {name target operand token token' bracket : Token}

/-- A machine that holds nothing that tells identities or positions apart evaluates a compound assignment and what it
spells alike, but for repetitions. -/
theorem evaluatesAlike_spelledOut (hids : ∀ id id', L.ids id id' → d.find? id' = d.find? id) (htable : m.distances = d)
    (hstore : m.store.Like L m.store) (hconsole : m.console.Like L m.console)
    (hrouted : ∀ current, m.read id name = .ok current → ∃ real, ∀ n, (((m.alone e).onto real).steps n).Routed)
    (he : e.Like L e') (hid : d.find? id' = d.find? id) (hname : name.Like L target)
    (hid' : d.find? id''' = d.find? id) (hname' : name.Like L operand)
    (hplain : ∀ current mid v, m.read id name = .ok current → m.Brings e mid → mid.control = .give v →
      ¬ Operator.Repeats op current v) :
    m.EvaluatesAlike L (.compound id name op token e)
      (.assign id' target (.binary id'' (.arith op) token' (.ident id''' operand) (.group idGroup bracket e'))) := by
  have hbeside : Beside L none d d { m with pending := departures m.depth } { m with pending := departures m.depth } :=
    ⟨waits_departures _, rfl, rfl, hstore, hconsole, htable, htable⟩
  have hread : SameResult L (m.read id name) (m.read id''' operand) := hbeside.read hid' hname'
  cases hcurrent : m.read id name with
  | error halt =>
    rw [hcurrent] at hread
    obtain ⟨halt', hcurrent', hlike⟩ := hread.of_error
    have hagrees : (m.halt halt).Agrees L (m.halt halt') := ⟨rfl, rfl, hstore, hconsole, .halt hlike.sameKind⟩
    have hbrings : m.Brings (.compound id name op token e) (m.halt halt) :=
      brings_compound.2 (.inl ⟨halt, hcurrent, rfl⟩)
    have hbrings' : m.Brings (.assign id' target
        (.binary id'' (.arith op) token' (.ident id''' operand) (.group idGroup bracket e'))) (m.halt halt') :=
      brings_spelledOut.2 (.inl ⟨halt', hcurrent', rfl⟩)
    constructor
    · intro last hlast
      obtain rfl := hbrings.unique hlast
      exact ⟨_, hbrings', hagrees⟩
    · intro last' hlast'
      obtain rfl := hbrings'.unique hlast'
      exact ⟨_, hbrings, hagrees⟩
  | ok current =>
    rw [hcurrent] at hread
    have hcurrent' := hread.of_ok
    obtain ⟨real, hrouted⟩ := hrouted current hcurrent
    have hfinish : ∀ {mid mid' : Machine}, m.Brings e mid → m.Brings e' mid' → mid.EndsAlike L mid' →
        (mid.hand (.compound id name op token current)).Agrees L
          ((mid'.hand (.right (.arith op) token' current)).hand (.assign id' target)) := fun hmid hmid' hends =>
      hends.finish (hmid.distances_eq.trans htable) (hmid'.distances_eq.trans htable) hmid.outcome hid hname
        fun v hgive => hplain current _ v hcurrent hmid hgive
    constructor
    · intro last hlast
      rcases brings_compound.1 hlast with ⟨halt, hhalt, -⟩ | ⟨_, mid, hok, hmid, rfl⟩
      · rw [hcurrent] at hhalt
        cases hhalt
      · rw [hcurrent] at hok
        cases hok
        obtain ⟨mid', hmid', hends⟩ := (evaluations_alike hids htable hstore hconsole he hrouted).1 mid hmid
        exact ⟨_, brings_spelledOut.2 (.inr ⟨current, mid', hcurrent', hmid', rfl⟩), hfinish hmid hmid' hends⟩
    · intro last' hlast'
      rcases brings_spelledOut.1 hlast' with ⟨halt, hhalt, -⟩ | ⟨_, mid', hok, hmid', rfl⟩
      · rw [hcurrent'] at hhalt
        cases hhalt
      · rw [hcurrent'] at hok
        cases hok
        obtain ⟨mid, hmid, hends⟩ := (evaluations_alike hids htable hstore hconsole he hrouted).2 mid' hmid'
        exact ⟨_, brings_compound.2 (.inr ⟨current, mid, hcurrent, hmid, rfl⟩), hfinish hmid hmid' hends⟩

end

end Machine

/-! ## The theorem -/

section

variable {programs : List (List Stmt)} {labels : List Region} {hosted : Bool} {i : Interpreter} {m : Machine}

theorem Interpreter.resolved_fixes (hknown : Known programs d) : (Likeness.resolved d).Fixes programs :=
  fun _ _ hq => ⟨(hknown.built hq).mono fun _ _ => Iff.rfl, fun _ _ _ _ _ => rfl⟩

/-- Compound assignment means read, operate, write. -/
theorem Reached.compound_spelled_out (h : Reached programs labels (.running hosted i m)) {id : NodeId}
    {name token operator paren : Token} {op : ArithOp} {e a : Expr}
    (hnext : m.control = .eval (.compound id name op token e))
    (ha : a.map blank nowhere = (Expr.spelledOut op name operator paren e).map blank nowhere) {Γ Γ' : Environs}
    (hplace : Here programs Γ (.expr (.compound id name op token e))) (hplace' : Here programs Γ' (.expr a))
    (halike : Γ.Alike Γ') :
    let c := Expr.compound id name op token e
    ((¬ ∃ t n mid, op = .mul ∧ m.read id name = .ok (.string t) ∧ m.Brings e mid ∧ mid.control = .give (.number n)) →
      m.EvaluatesAlike (.resolved m.distances) c a) ∧
    (∀ last halt, m.Brings c last → last.control = .halt halt →
      last = m.halt halt ∨ ∃ mid, m.Brings e mid ∧ last = mid.halt halt) ∧
    (∀ t n mid f, op = .mul → m.read id name = .ok (.string t) → m.Brings e mid → mid.control = .give (.number n) →
      mid.destination id name = .ok f →
      (∀ k ≤ 2 ^ 31 - 1, (n == Float.ofNat k) = true → k * t.size ≤ 2 ^ 28 → ∃ u,
        unpack u = (List.replicate k (unpack t)).flatten ∧
        m.Brings c { mid with store := mid.store.put f name.lexeme (.string u), control := .give (.string u) }) ∧
      ((∀ k ≤ 2 ^ 31 - 1, (n == Float.ofNat k) = true → 2 ^ 28 < k * t.size) →
        ∃ e, m.Brings c (mid.halt (.error e)))) := by
  intro c
  have hfits : m.Fits programs labels hosted := h.fits.2
  have hknown := hfits.known
  refine ⟨fun hplain => ?_, fun last halt hlast hhalt => ?_, fun t n mid f hop hread hmid hgive hdest => ?_⟩
  · obtain ⟨_, _, _, _, target, operand, _, _, e', rfl, htarget, hoperand, he⟩ := Expr.eq_spelledOut ha
    have hvalue := hplace'.part List.mem_cons_self
    have hleft := hvalue.part List.mem_cons_self
    have hright := hvalue.part (List.mem_cons_of_mem _ List.mem_cons_self)
    have hlike : e.Like (.resolved m.distances) e' := Expr.like_of_twins e e' he
      ⟨hknown, Γ, Γ', halike, hplace.part List.mem_cons_self, hright.part List.mem_cons_self⟩
    refine Machine.evaluatesAlike_spelledOut (fun _ _ h => h) rfl
      (hfits.store.like_self (Interpreter.resolved_fixes hknown) fun _ _ _ _ => trivial) ⟨m.console.err, rfl, rfl⟩
      (fun current hcurrent => ?_) hlike ?_ (Token.like_resolved ?_ ?_ htarget) ?_ (Token.like_resolved ?_ ?_ hoperand)
      fun current mid v hcurrent hmid hgive hrepeats => ?_
    · refine ⟨.compound id name op token current :: m.pending, fun n => ?_⟩
      obtain ⟨_, hreached⟩ := h.step.steps n
      rw [← Machine.proceed_eq hnext, Machine.step_compound hcurrent] at hreached
      exact hreached.fits.2.routed
    · rw [hknown.find?_eq hplace rfl, hknown.find?_eq hplace' rfl, halike.distance?_eq, Token.lexeme_eq htarget]
    · exact hknown.built hplace _ List.mem_cons_self
    · exact hknown.built hplace' _ List.mem_cons_self
    · rw [hknown.find?_eq hplace rfl, hknown.find?_eq hleft rfl, halike.distance?_eq, Token.lexeme_eq hoperand]
    · exact hknown.built hplace _ List.mem_cons_self
    · exact hknown.built hleft _ List.mem_cons_self
    · obtain ⟨hop, t, n, rfl, rfl⟩ := hrepeats
      exact hplain ⟨t, n, mid, hop, hcurrent, hmid, hgive⟩
  · rcases Machine.brings_compound.1 hlast with ⟨halt', -, rfl⟩ | ⟨current, mid, -, hmid, rfl⟩
    · left
      cases hhalt
      rfl
    · right
      refine ⟨mid, hmid, ?_⟩
      rcases hmid.outcome with ⟨v, hgive⟩ | ⟨halt', hhalt'⟩
      · rw [Machine.hand_compound hgive] at hhalt ⊢
        exact Machine.settle_halt hhalt
      · rw [Machine.hand_of_passes hhalt' rfl] at hhalt ⊢
        exact (Machine.proceed_eq hhalt).symm
  · subst hop
    have hsettled : m.Brings c (mid.hand (.compound id name .mul token (.string t))) :=
      Machine.brings_compound.2 (.inr ⟨_, mid, hread, hmid, rfl⟩)
    rw [Machine.hand_compound hgive] at hsettled
    change m.Brings c (mid.settle id name (Operator.repetition mid.store token t n)) at hsettled
    constructor
    · intro k hk hn hsize
      obtain ⟨u, hu, hok⟩ := Operator.repetition_ok hk hn hsize
      refine ⟨u, hu, ?_⟩
      rw [hok] at hsettled
      simpa only [Machine.settle, Machine.assign, hdest] using hsettled
    · intro hcount
      obtain ⟨e, herror⟩ := Operator.repetition_refused hcount
      rw [herror] at hsettled
      exact ⟨e, hsettled⟩

end

/-- A place on the first line. -/
def samplePosition (offset : Nat) : Position := ⟨offset, 1, offset + 1⟩

def sampleName (offset : Nat) : Token := ⟨.identifier, text "x", .none, samplePosition offset⟩

def sampleString (id : NodeId) (content : Bytes) (offset : Nat) : Expr :=
  .literal id ⟨.string, text "\"" ++ content ++ text "\"", .string content, samplePosition offset⟩

/-- `x += "b"`. -/
def sampleShort : Expr :=
  .compound 3 (sampleName 11) .add ⟨.plusAssign, text "+=", .none, samplePosition 12⟩ (sampleString 2 (text "b") 14)

/-- `x = x + ("b")`. -/
def sampleLong : Expr :=
  .assign 10 (sampleName 11) (.binary 9 (.arith .add) ⟨.plus, text "+", .none, samplePosition 14⟩
    (.ident 6 (sampleName 13))
    (.group 8 ⟨.leftParen, text "(", .none, samplePosition 15⟩ (sampleString 7 (text "b") 16)))

/-- A block that declares the variable before an expression. -/
def sampleBlock (id : NodeId) (e : Expr) : List Stmt :=
  [.block (samplePosition 0) [.declare (samplePosition 1) (sampleName 5) (some (sampleString id (text "a") 7)),
    .expression (samplePosition 11) e]]

theorem sampleBlock_here {programs : List (List Stmt)} {id : NodeId} {e : Expr} (h : sampleBlock id e ∈ programs) :
    ∃ Γ, Here programs Γ (.expr e) ∧ Γ.outside = 0 ∧ Γ.layers.map Layer.names = [[(text "x", true)]] := by
  have hprogram : Here programs {} (.list (sampleBlock id e)) := ⟨_, h, .here⟩
  have hblock := hprogram.part List.mem_cons_self
  have hbody := hblock.part List.mem_cons_self
  have hrest := hbody.part (List.mem_cons_of_mem _ List.mem_cons_self)
  have hlast := hrest.part List.mem_cons_self
  exact ⟨_, hlast.part List.mem_cons_self, rfl, rfl⟩

theorem sampleBlock_steps {i : Interpreter} (hstore : i.store = Interpreter.bare.store) (id : NodeId) (e : Expr) :
    ((i.machine (.complete .normal) [.program (sampleBlock id e)]).steps 7).control = .eval e := by
  obtain ⟨store, console⟩ := i
  subst hstore
  rfl

/-- The two samples in one session: before the first evaluation of the short one, both mean the same. -/
theorem Reached.compound_spelled_out_block :
    let i := ((Interpreter.bare.compile (text "\x7blet x=\"a\";x+=\"b\";\x7d")).2.compile
      (text "\x7blet x=\"a\";x=x+(\"b\");\x7d")).2
    let m := (i.machine (.complete .normal) [.program (sampleBlock 0 sampleShort)]).steps 7
    m.control = .eval sampleShort ∧ m.EvaluatesAlike (.resolved m.distances) sampleShort sampleLong := by
  intro i m
  have hshort : ((Interpreter.bare.compile (text "\x7blet x=\"a\";x+=\"b\";\x7d")).1.stmts) =
      .ok (sampleBlock 0 sampleShort) := by
    rw [Interpreter.compile_of_accepts (by decide +kernel)]
    refine congrArg Except.ok ?_
    decide +kernel
  have hlong : ((Interpreter.bare.compile (text "\x7blet x=\"a\";x+=\"b\";\x7d")).2.compile
      (text "\x7blet x=\"a\";x=x+(\"b\");\x7d")).1.stmts = .ok (sampleBlock 4 sampleLong) := by
    rw [Interpreter.compile_of_accepts (by decide +kernel)]
    refine congrArg Except.ok ?_
    decide +kernel
  have hstore : i.store = Interpreter.bare.store := by
    rw [Interpreter.compile_store, Interpreter.compile_store]
  have hnext : m.control = .eval sampleShort := sampleBlock_steps hstore 0 sampleShort
  have hreached := ((Reached.start.compile hshort).compile hlong).execute
    (List.mem_append_left _ (List.mem_append_right _ List.mem_cons_self))
  obtain ⟨labels, hm⟩ := hreached.steps 7
  obtain ⟨Γ, hplace, houtside, hnames⟩ := sampleBlock_here
    (List.mem_append_left [sampleBlock 4 sampleLong] (List.mem_append_right [] List.mem_cons_self))
  obtain ⟨Γ', hplace', houtside', hnames'⟩ := sampleBlock_here
    (List.mem_append_right ([] ++ [sampleBlock 0 sampleShort]) (List.mem_singleton_self (sampleBlock 4 sampleLong)))
  have hspelled : sampleLong.map blank nowhere = (Expr.spelledOut .add (sampleName 11) ⟨.plus, text "+", .none, {}⟩
      ⟨.leftParen, text "(", .none, {}⟩ (sampleString 2 (text "b") 14)).map blank nowhere := rfl
  have halike : Γ.Alike Γ' := ⟨houtside'.trans houtside.symm, hnames'.trans hnames.symm⟩
  have hsame := (hm.compound_spelled_out hnext hspelled hplace hplace' halike).1
  refine ⟨hnext, hsame ?_⟩
  rintro ⟨_, _, _, hmul, -⟩
  cases hmul

end Treewalk
