import Treewalk.Proofs.Machine.Realm

/-!
# Runs stay in their realm and put back what they change

A part of a run is the evaluation of an expression, the execution of a statement or a call, from the state in
which it begins up to the state in which its outcome meets what waited there (`Anchor`).

**What waits** (`Lasting`). Above the anchor each pending part is told what it is handed, a value or a completion,
and in which frame and at which depth of calls. The parts that changed the frame or the depth hold what was there
before; so the outcome gets to the anchor in the frame and at the depth that the part began with.

**One step** (`Machine.Within.step`). While a part lasts, the run holds nothing but what its realm allows, keeps
the heap closed under it, leaves alone what the realm lacks, and never exceeds the depth that it began with or
`Machine.maxDepth`. The only condition is that what a step makes is in the realm.
-/

namespace Treewalk

variable {R : Realm}

/-! ## Operators and natives -/

theorem Value.IsPlain.within {v : Value} (h : v.IsPlain) : v.In R := by
  cases v <;> trivial

theorem Value.ofLiteral_in (l : Literal) : (Value.ofLiteral l).In R := by
  cases l <;> trivial

theorem RuntimeError.in_at {t : Token} (ht : R.Has t) (kind : Diagnostic.Kind) (message : Bytes) :
    (RuntimeError.at t kind message).In R := by
  rintro s ⟨⟩ -
  exact ht.2

theorem RuntimeError.in_unlocated (kind : Diagnostic.Kind) (message : Bytes) :
    (RuntimeError.unlocated kind message).In R := by
  intro s hs
  cases hs

theorem Halt.At.within {t : Token} {h : Halt} (hat : h.At t) (ht : R.Has t) : h.In R := by
  rcases hat with ⟨kind, message, rfl⟩ | rfl
  · exact RuntimeError.in_at ht kind message
  · trivial

/-- At a call a halt gets the site of the call at most. -/
theorem Halt.In.atCall {h : Halt} (hin : h.In R) {paren : Token} (hparen : R.Has paren) {callee : Bytes} :
    (h.atCall paren callee).In R := by
  cases h with
  | error e =>
    show RuntimeError.In R (if e.isLocated then e else { e with site := some paren.site })
    split_ifs
    · exact hin
    · rintro s ⟨⟩ -
      exact hparen.2
  | plain message =>
    rintro s ⟨⟩ -
    exact hparen.2
  | fault f => trivial

/-- Only arrays have elements. -/
theorem Operator.element_array {s : Store} {bracket : Token} {object index : Value} {array : ArrayId} {i : Nat}
    (h : element s bracket object index = .ok (array, i)) : object = .array array := by
  have hother : ∀ r, element.notInteger s bracket index ≠ .ok r := by
    intro r hr
    unfold element.notInteger at hr
    split at hr <;> cases hr
  unfold element at h
  split at h
  · split at h
    · split_ifs at h
      · split at h
        · cases h
          rfl
        · cases h
      · exact absurd h (hother _)
    · exact absurd h (hother _)
  · cases h

namespace NativeOp

theorem promised_in {α : Type} {r : Except Fault α} {f : α → Result}
    (hf : ∀ a, (∀ v, f a = .ok v → v.In R) ∧ ∀ halt, f a = .error halt → halt.In R) :
    (∀ v, promised r f = .ok v → v.In R) ∧ ∀ halt, promised r f = .error halt → halt.In R := by
  cases r with
  | ok a => exact hf a
  | error e =>
    constructor
    · rintro v ⟨⟩
    · rintro halt ⟨⟩
      trivial

/-- A native of the language hands on what it was handed; what it makes has to be in the realm. -/
theorem run_in {op : NativeOp} {args : List Value} {w : World} (h : w.store.In R) (hop : op.In R)
    (hargs : ∀ v ∈ args, v.In R) (hmakes : R.Makes w.store (op.run args w).2.store) :
    R.Leads w.store (op.run args w).2.store ∧ (∀ v, (op.run args w).1 = .ok v → v.In R) ∧
      ∀ halt, (op.run args w).1 = .error halt → halt.In R := by
  have harg : ∀ k, ((args.drop k).headD .none).In R := by
    intro k
    cases hdrop : args.drop k with
    | nil => trivial
    | cons v rest => exact hargs v (List.mem_of_mem_drop (hdrop ▸ List.mem_cons_self))
  have hunlocated : ∀ {kind message halt},
      (Except.error (.error (.unlocated kind message)) : Result) = .error halt → halt.In R := by
    rintro kind message halt ⟨⟩
    exact RuntimeError.in_unlocated kind message
  have hno : ∀ {e v}, (Except.error e : Result) = .ok v → v.In R := by rintro e v ⟨⟩
  have hnoHalt : ∀ {u halt}, (Except.ok u : Result) = .error halt → halt.In R := by rintro u halt ⟨⟩
  have hplain : ∀ {u v : Value}, (Except.ok u : Result) = .ok v → u.IsPlain → v.In R := by
    rintro u v ⟨⟩ hu
    exact hu.within
  cases op with
  | input =>
    simp only [run, readInput]
    split
    · exact ⟨h.leads, fun v hv => hplain hv trivial, fun halt => hnoHalt⟩
    · refine ⟨h.leads, ?_, fun halt => hnoHalt⟩
      rintro v ⟨⟩
      trivial
    · exact ⟨h.leads, fun v => hno, fun halt => hunlocated⟩
  | len =>
    refine ⟨h.leads, fun v hv => ?_, fun halt hhalt => ?_⟩
    · simp only [run, length, wrongArgument] at hv
      split at hv <;> cases hv <;> trivial
    · simp only [run, length, wrongArgument] at hhalt
      split at hhalt
      · cases hhalt
        trivial
      · cases hhalt
      · cases hhalt
      · exact hunlocated hhalt
  | str => exact ⟨h.leads, promised_in fun t => ⟨fun v hv => hplain hv trivial, fun halt => hnoHalt⟩⟩
  | error => exact ⟨h.leads, promised_in fun t => ⟨fun v => hno, fun halt => hunlocated⟩⟩
  | num =>
    refine ⟨h.leads, fun v hv => ?_, fun halt hhalt => ?_⟩
    · simp only [run, toNumber, wrongArgument] at hv
      split at hv
      · exact hplain hv trivial
      · exact hplain hv trivial
      · split at hv
        · exact hplain hv trivial
        · cases hv
      · cases hv
    · simp only [run, toNumber, wrongArgument] at hhalt
      split at hhalt
      · cases hhalt
      · cases hhalt
      · split at hhalt
        · cases hhalt
        · exact hunlocated hhalt
      · exact hunlocated hhalt
  | push =>
    simp only [run, pushElement]
    split
    · rename_i a ha
      have hin : a ∈ R.arrays := by
        have := harg 0
        rwa [List.drop_zero, ha] at this
      refine ⟨h.modifyArray hin fun v hv => ?_, fun v hv => hplain hv trivial, fun halt => hnoHalt⟩
      rcases Array.mem_push.1 hv with hv | rfl
      · exact h.arrays a hin v hv
      · exact harg 1
    · exact ⟨h.leads, fun v => hno, fun halt => hunlocated⟩
  | pop =>
    simp only [run, popElement]
    split
    · rename_i a ha
      have hin : a ∈ R.arrays := by
        have := harg 0
        rwa [List.drop_zero, ha] at this
      split
      · rename_i last hlast
        refine ⟨h.modifyArray hin fun v hv => h.arrays a hin v ?_, ?_, fun halt => hnoHalt⟩
        · rw [← Array.mem_toList_iff, Array.toList_pop] at hv
          exact Array.mem_toList_iff.1 ((List.dropLast_sublist _).mem hv)
        · rintro v ⟨⟩
          exact h.arrays a hin last (Array.mem_of_getElem? hlast)
      · exact ⟨h.leads, fun v => hno, fun halt => hunlocated⟩
    · exact ⟨h.leads, fun v => hno, fun halt => hunlocated⟩
  | copy =>
    simp only [run] at hmakes ⊢
    split at hmakes
    · rename_i v store hclone
      obtain ⟨rfl, rfl⟩ := Prod.mk.inj (Store.clone?_ok hclone)
      obtain ⟨hleads, hin⟩ := h.clone (harg 0) hmakes
      refine ⟨hleads, ?_, fun halt => hnoHalt⟩
      rintro v ⟨⟩
      exact hin
    · refine ⟨h.leads, fun v => hno, ?_⟩
      rintro halt ⟨⟩
      trivial
  | random =>
    obtain ⟨x, hx⟩ := drawRandom_result w
    simp only [run, drawRandom_store, hx]
    exact ⟨h.leads, fun v hv => hplain hv trivial, fun halt => hnoHalt⟩
  | randomSeed =>
    simp only [run, seedRandom]
    split
    · refine ⟨h.leads, ?_, fun halt => hnoHalt⟩
      rintro v ⟨⟩
      trivial
    · exact ⟨h.leads, fun v => hno, fun halt => hunlocated⟩
  | sqrt =>
    refine ⟨h.leads, fun v hv => ?_, fun halt hhalt => ?_⟩
    · simp only [run, ofNumber, squareRoot, wrongArgument] at hv
      split at hv
      · split_ifs at hv
        exact hplain hv trivial
      · cases hv
    · simp only [run, ofNumber, squareRoot, wrongArgument] at hhalt
      split at hhalt
      · split_ifs at hhalt
        exact hunlocated hhalt
      · exact hunlocated hhalt
  | floor | abs =>
    refine ⟨h.leads, fun v hv => ?_, fun halt hhalt => ?_⟩
    · simp only [run, ofNumber, wrongArgument] at hv
      split at hv
      · exact hplain hv trivial
      · cases hv
    · simp only [run, ofNumber, wrongArgument] at hhalt
      split at hhalt
      · cases hhalt
      · exact hunlocated hhalt
  | fails e =>
    refine ⟨h.leads, fun v => hno, ?_⟩
    rintro halt ⟨⟩
    exact hop
  | failsPlain | missing =>
    refine ⟨h.leads, fun v => hno, ?_⟩
    rintro halt ⟨⟩
    trivial
  | clock | type | script =>
    refine ⟨h.leads, ?_, fun halt => hnoHalt⟩
    rintro v ⟨⟩
    trivial

end NativeOp

/-! ## What waits -/

/-- What a pending part is handed, unless the run halts. -/
inductive Handed where
  | value
  | completion

/-- What a piece of syntax that waits is handed, and what it hands on. -/
def Pending.turns : Pending → Option (Handed × Handed)
  | .unary _ _ | .left _ _ _ | .right _ _ _ | .logical _ _ | .ternary _ _ _ | .assign _ _
  | .compound _ _ _ _ _ | .indexed _ _ _ | .index _ _ _ | .property _ _ | .write _ _ | .callee _ _
  | .argument _ _ _ _ | .element _ _ | .site _ _ => some (.value, .value)
  | .discard | .print _ | .declare _ | .branch _ _ | .loopTest _ _ | .forTest _ _ _ | .forStep _ _ _
  | .result => some (.value, .completion)
  | .loopBody _ _ | .forStart _ _ _ | .forBody _ _ _ | .sequence _ | .program _ =>
    some (.completion, .completion)
  | .depart _ | .callback _ _ | .body _ _ | .field _ _ _ _ _ _ | .construct _ | .restore _ => none

section

variable (R : Realm)

def ElementUse.In : ElementUse → Prop
  | .read => True
  | .step _ t _ => R.Has t

def PropertyUse.In : PropertyUse → Prop
  | .read => True
  | .step _ t _ => R.Has t
  | .write e => R.code (.expr e)

/-- The tokens, the values and the syntax that a pending part holds are of the realm. -/
def Pending.In : Pending → Prop
  | .unary _ t | .assign _ t | .write t _ | .site t _ | .declare t => R.Has t
  | .left _ t e => R.Has t ∧ R.code (.expr e)
  | .right _ t v => R.Has t ∧ v.In R
  | .logical _ e => R.code (.expr e)
  | .ternary t yes no => R.Has t ∧ R.code (.expr yes) ∧ R.code (.expr no)
  | .compound _ name _ t v => R.Has name ∧ R.Has t ∧ v.In R
  | .indexed t e use => R.Has t ∧ R.code (.expr e) ∧ use.In R
  | .index t v use => R.Has t ∧ v.In R ∧ use.In R
  | .property t use => R.Has t ∧ use.In R
  | .callee t args => R.Has t ∧ ∀ e ∈ args, R.code (.expr e)
  | .argument t v done rest =>
    R.Has t ∧ v.In R ∧ (∀ w ∈ done, w.In R) ∧ ∀ e ∈ rest, R.code (.expr e)
  | .element done rest => (∀ w ∈ done, w.In R) ∧ ∀ e ∈ rest, R.code (.expr e)
  | .callback _ next => ∀ r : Option Value, (∀ v ∈ r, v.In R) → (next r).In R
  | .body f _ => f.env ∈ R.frames
  | .field _ _ rest cls args _ =>
    (∀ f ∈ rest, R.code (.expr f.value)) ∧ cls.In R ∧ ∀ v ∈ args, v.In R
  | .print pos => ⟨text "print", pos⟩ ∈ R.sites
  | .branch yes no => R.code (.stmt yes) ∧ ∀ s ∈ no, R.code (.stmt s)
  | .loopTest cond s | .loopBody cond s => R.code (.expr cond) ∧ R.code (.stmt s)
  | .forStart cond step s | .forTest cond step s | .forBody cond step s | .forStep cond step s =>
    (∀ e ∈ cond, R.code (.expr e)) ∧ (∀ e ∈ step, R.code (.expr e)) ∧ R.code (.stmt s)
  | .sequence rest | .program rest => R.code (.list rest)
  | .depart _ | .construct _ | .discard | .result | .restore _ => True

end

/-- The state in which a part of a run begins, without the heap: what waits, what it will be handed, the frame and
the depth of calls. -/
structure Anchor where
  handed : Handed
  pending : List Pending
  env : FrameId
  depth : Nat

/-- The depth that a part of a run does not exceed. -/
def Anchor.limit (a : Anchor) : Nat := max a.depth Machine.maxDepth

/-- What waits while a part of a run lasts: its own pending parts, innermost first, and behind them the anchor.
The first of them is handed this in this frame and at this depth. -/
inductive Lasting (R : Realm) (a : Anchor) : Handed → FrameId → Nat → List Pending → Prop
  | anchor : Lasting R a a.handed a.env a.depth a.pending
  | code {p k k' env depth rest} (hturns : p.turns = some (k, k')) (hp : p.In R) (henv : env ∈ R.frames)
    (h : Lasting R a k' env depth rest) : Lasting R a k env depth (p :: rest)
  | restore {env back depth rest} (h : Lasting R a .completion back depth rest) :
    Lasting R a .completion env depth (.restore back :: rest)
  | body {f env back depth rest} (hf : f.env ∈ R.frames) (h : Lasting R a .value back depth rest) :
    Lasting R a .completion env depth (.body f back :: rest)
  | field {object name more cls args env back depth rest}
    (hp : (Pending.field object name more cls args back).In R) (h : Lasting R a .value back depth rest) :
    Lasting R a .value env depth (.field object name more cls args back :: rest)
  | construct {object env depth rest} (h : Lasting R a .value env depth rest) :
    Lasting R a .value env depth (.construct object :: rest)
  | callback {rescues next env depth rest} (hp : (Pending.callback rescues next).In R)
    (h : Lasting R a .value env depth rest) : Lasting R a .value env depth (.callback rescues next :: rest)
  | depart {env depth back rest} (hback : back ≤ a.limit) (h : Lasting R a .value env back rest) :
    Lasting R a .value env depth (.depart back :: rest)

namespace Lasting

variable {a : Anchor} {k : Handed} {env : FrameId} {depth : Nat} {pending : List Pending}

/-- Behind what waits is the anchor. -/
theorem suffix (h : Lasting R a k env depth pending) : a.pending <:+ pending := by
  induction h with
  | anchor => exact List.suffix_refl _
  | code _ _ _ _ ih => exact ih.trans (List.suffix_cons _ _)
  | restore _ ih => exact ih.trans (List.suffix_cons _ _)
  | body _ _ ih => exact ih.trans (List.suffix_cons _ _)
  | field _ _ ih => exact ih.trans (List.suffix_cons _ _)
  | construct _ ih => exact ih.trans (List.suffix_cons _ _)
  | callback _ _ ih => exact ih.trans (List.suffix_cons _ _)
  | depart _ _ ih => exact ih.trans (List.suffix_cons _ _)

/-- At the anchor the frame and the depth are those that the part began with. -/
theorem eq_anchor (h : Lasting R a k env depth pending) (hpending : pending = a.pending) :
    k = a.handed ∧ env = a.env ∧ depth = a.depth := by
  have hshort : ∀ {p rest}, Lasting R a k env depth pending → pending = p :: rest → a.pending <:+ rest →
      k = a.handed ∧ env = a.env ∧ depth = a.depth := by
    intro p rest _ heq hrest
    have := hrest.length_le
    rw [← hpending, heq, List.length_cons] at this
    omega
  cases h with
  | anchor => exact ⟨rfl, rfl, rfl⟩
  | code hturns hp henv h => exact hshort (.code hturns hp henv h) rfl h.suffix
  | restore h => exact hshort (.restore h) rfl h.suffix
  | body hf h => exact hshort (.body hf h) rfl h.suffix
  | field hp h => exact hshort (.field hp h) rfl h.suffix
  | construct h => exact hshort (.construct h) rfl h.suffix
  | callback hp h => exact hshort (.callback hp h) rfl h.suffix
  | depart hback h => exact hshort (.depart hback h) rfl h.suffix

end Lasting

/-! ## States -/

section

variable (R : Realm) (a : Anchor)

def Completion.In : Completion → Prop
  | .result v => v.In R
  | _ => True

/-- What happens next is of the realm, and its outcome is what is waited for. -/
def Control.Within (env : FrameId) (depth : Nat) (pending : List Pending) : Control → Prop
  | .eval e => R.code (.expr e) ∧ env ∈ R.frames ∧ Lasting R a .value env depth pending
  | .exec s => R.code (.stmt s) ∧ env ∈ R.frames ∧ Lasting R a .completion env depth pending
  | .call callee args => callee.In R ∧ (∀ v ∈ args, v.In R) ∧ Lasting R a .value env depth pending
  | .give v => v.In R ∧ Lasting R a .value env depth pending
  | .complete c => c.In R ∧ Lasting R a .completion env depth pending
  | .halt h => h.In R ∧ ∃ k, Lasting R a k env depth pending

/-- An outcome is handed to what waits. -/
def Control.IsOutcome : Control → Prop
  | .give _ | .complete _ | .halt _ => True
  | _ => False

instance : DecidablePred Control.IsOutcome
  | .give _ | .complete _ | .halt _ => .isTrue trivial
  | .eval _ | .exec _ | .call _ _ => .isFalse id

/-- The heap and the depth while a part of a run lasts that began with the heap `s₀`. -/
structure Bounded (s₀ s : Store) (depth : Nat) : Prop where
  leads : R.Leads s₀ s
  depth : depth ≤ a.limit

/-- A part of a run lasts that began at the anchor, with the heap `s₀`. -/
structure Machine.Within (s₀ : Store) (m : Machine) : Prop extends Bounded R a s₀ m.store m.depth where
  control : m.control.Within R a m.env m.depth m.pending

end

theorem Bounded.lead {a : Anchor} {s₀ s s' : Store} {depth : Nat} (h : Bounded R a s₀ s depth)
    (hs : R.Leads s s') : Bounded R a s₀ s' depth := ⟨h.leads.trans hs, h.depth⟩

namespace Machine

variable {a : Anchor} {s₀ : Store} {m : Machine}

/-! ## Names -/

/-- What is read is of the realm, and a failure is reported at the name. -/
theorem read_in (h : m.store.In R) (henv : m.env ∈ R.frames) {name : Token} (hname : R.Has name)
    (id : NodeId) :
    (∀ v, m.read id name = .ok v → v.In R) ∧ ∀ halt, m.read id name = .error halt → halt.In R := by
  have hget : ∀ d v, m.store.getAt m.env d name.lexeme = .ok v → v.In R := by
    intro d v hv
    unfold Store.getAt at hv
    cases ht : m.store.target m.env d name.lexeme with
    | error e => simp [ht, Except.map] at hv
    | ok t =>
      simp only [ht, Except.map, Except.ok.injEq] at hv
      rw [← hv]
      exact (h.target henv ht).2 hname.1
  have hglobal : ∀ v, m.store.get Store.globals name.lexeme = .ok v → v.In R := by
    intro v hv
    unfold Store.get at hv
    split at hv
    · rename_i u hu
      cases hv
      obtain ⟨g, hg, hlookup⟩ := Option.bind_eq_some_iff.1 hu
      exact h.lookup (h.owner R.globals_mem hg) hname.1 hlookup
    · cases hv
  unfold read
  constructor
  · intro v hv
    cases hd : m.distances.find? id with
    | some d =>
      simp only [hd] at hv
      split at hv
      · cases hv
      · cases hfound : m.store.getAt m.env d name.lexeme with
        | error e => simp [hfound, Except.mapError] at hv
        | ok u =>
          simp only [hfound, Except.mapError, Except.ok.injEq] at hv
          rw [← hv]
          exact hget d u hfound
    | none =>
      simp only [hd] at hv
      split at hv
      · cases hv
      · cases hfound : m.store.get Store.globals name.lexeme with
        | error e => simp [hfound, Except.mapError] at hv
        | ok u =>
          simp only [hfound, Except.mapError, Except.ok.injEq] at hv
          rw [← hv]
          exact hglobal u hfound
  · intro halt hhalt
    cases hd : m.distances.find? id with
    | some d =>
      simp only [hd] at hhalt
      split at hhalt
      · cases hhalt
        exact RuntimeError.in_at hname _ _
      · cases hfound : m.store.getAt m.env d name.lexeme with
        | ok u => simp [hfound, Except.mapError] at hhalt
        | error e =>
          simp only [hfound, Except.mapError, Except.error.injEq] at hhalt
          rw [← hhalt]
          trivial
    | none =>
      simp only [hd] at hhalt
      split at hhalt
      · cases hhalt
        exact RuntimeError.in_at hname _ _
      · cases hfound : m.store.get Store.globals name.lexeme with
        | ok u => simp [hfound, Except.mapError] at hhalt
        | error e =>
          simp only [hfound, Except.mapError, Except.error.injEq] at hhalt
          rw [← hhalt]
          exact RuntimeError.in_at hname _ _

/-- An assignment writes to a frame of the realm, and a failure is reported at the name. -/
theorem destination_in (h : m.store.In R) (henv : m.env ∈ R.frames) {name : Token} (hname : R.Has name)
    (id : NodeId) : (∀ f, m.destination id name = .ok f → f ∈ R.frames) ∧
      ∀ halt, m.destination id name = .error halt → halt.In R := by
  unfold destination
  cases hd : m.distances.find? id with
  | some d =>
    dsimp only
    cases ht : m.store.target m.env d name.lexeme with
    | error e =>
      refine ⟨by simp [Except.map, Except.mapError], ?_⟩
      rintro halt ⟨⟩
      trivial
    | ok t =>
      refine ⟨?_, by simp [Except.map, Except.mapError]⟩
      rintro f ⟨⟩
      exact (h.target henv ht).1
  | none =>
    dsimp only
    unfold Store.assignee
    cases howner : m.store.owner? name.lexeme Store.globals Store.globals with
    | none =>
      refine ⟨by simp [Except.mapError], ?_⟩
      rintro halt ⟨⟩
      exact RuntimeError.in_at hname _ _
    | some g =>
      dsimp only
      split_ifs
      · refine ⟨by simp [Except.mapError], ?_⟩
        rintro halt ⟨⟩
        exact RuntimeError.in_at hname _ _
      · refine ⟨?_, by simp [Except.mapError]⟩
        rintro f ⟨⟩
        exact h.owner R.globals_mem howner

/-! ## Going on -/

section

variable (h : Bounded R a s₀ m.store m.depth)

include h

theorem give_within {v : Value} (hv : v.In R) (hp : Lasting R a .value m.env m.depth m.pending) :
    (m.give v).Within R a s₀ := ⟨h, hv, hp⟩

theorem complete_within {c : Completion} (hc : c.In R)
    (hp : Lasting R a .completion m.env m.depth m.pending) : (m.complete c).Within R a s₀ :=
  ⟨h, hc, hp⟩

theorem halt_within {halt : Halt} (hhalt : halt.In R) {k : Handed}
    (hp : Lasting R a k m.env m.depth m.pending) : (m.halt halt).Within R a s₀ :=
  ⟨h, hhalt, k, hp⟩

theorem fail_within {e : RuntimeError} (he : e.In R) {k : Handed}
    (hp : Lasting R a k m.env m.depth m.pending) : (m.fail e).Within R a s₀ := halt_within h he hp

theorem evaluate_within {e : Expr} (he : R.code (.expr e)) (henv : m.env ∈ R.frames)
    (hp : Lasting R a .value m.env m.depth m.pending) : (m.proceed (.eval e)).Within R a s₀ :=
  ⟨h, he, henv, hp⟩

theorem execute_within {s : Stmt} (hs : R.code (.stmt s)) (henv : m.env ∈ R.frames)
    (hp : Lasting R a .completion m.env m.depth m.pending) : (m.proceed (.exec s)).Within R a s₀ :=
  ⟨h, hs, henv, hp⟩

/-- A piece of syntax waits for the value of an expression. -/
theorem push_eval (p : Pending) {k : Handed} (hp : p.In R) {e : Expr} (he : R.code (.expr e))
    (henv : m.env ∈ R.frames) (hrest : Lasting R a k m.env m.depth m.pending)
    (hturns : p.turns = some (.value, k) := by rfl) : (m.push p (.eval e)).Within R a s₀ :=
  ⟨h, he, henv, .code hturns hp henv hrest⟩

/-- A piece of syntax waits for the completion of a statement. -/
theorem push_exec (p : Pending) {k : Handed} (hp : p.In R) {s : Stmt} (hs : R.code (.stmt s))
    (henv : m.env ∈ R.frames) (hrest : Lasting R a k m.env m.depth m.pending)
    (hturns : p.turns = some (.completion, k) := by rfl) : (m.push p (.exec s)).Within R a s₀ :=
  ⟨h, hs, henv, .code hturns hp henv hrest⟩

theorem giveResult_within {r : Operator.Result} (hr : ∀ v, r = .ok v → v.IsPlain) {t : Token}
    (hat : ∀ halt, r = .error halt → halt.At t) (ht : R.Has t)
    (hp : Lasting R a .value m.env m.depth m.pending) : (m.giveResult r).Within R a s₀ := by
  cases r with
  | ok v => exact give_within h (hr v rfl).within hp
  | error e => exact halt_within h ((hat e rfl).within ht) hp

/-! ## Statements -/

theorem assign_within {name : Token} (hname : R.Has name) {v result : Value} (hv : v.In R)
    (hresult : result.In R) (henv : m.env ∈ R.frames) (hp : Lasting R a .value m.env m.depth m.pending)
    (id : NodeId) : (m.assign id name v result).Within R a s₀ := by
  obtain ⟨hframe, hfail⟩ := destination_in h.leads.closed henv hname id
  unfold assign
  cases hd : m.destination id name with
  | ok f => exact ⟨h.lead (h.leads.closed.put (hframe f hd) fun _ => hv), hresult, hp⟩
  | error e => exact halt_within h (hfail e hd) hp

theorem define_within {name : Token} (hname : R.Has name) {v : Value} (hv : v.In R)
    (henv : m.env ∈ R.frames) (hp : Lasting R a .completion m.env m.depth m.pending) :
    (m.define name v).Within R a s₀ := by
  unfold define
  split
  · exact fail_within h (RuntimeError.in_at hname _ _) hp
  · exact ⟨h.lead (h.leads.closed.add henv fun _ => hv), trivial, hp⟩

theorem sequence_within {stmts : List Stmt} (hs : R.code (.list stmts)) (henv : m.env ∈ R.frames)
    (hp : Lasting R a .completion m.env m.depth m.pending) : (m.sequence stmts).Within R a s₀ := by
  cases stmts with
  | nil => exact complete_within h trivial hp
  | cons s rest =>
    have hparts := R.parts hs
    simp only [Fragment.parts, List.mem_cons, List.not_mem_nil, or_false, forall_eq_or_imp, forall_eq] at hparts
    exact push_exec h (.sequence rest) hparts.2 hparts.1 henv hp

theorem enterScope_bounded (henv : m.env ∈ R.frames) (hnew : m.store.frames.size ∈ R.frames) :
    Bounded R a s₀ m.enterScope.store m.depth := by
  refine ⟨h.leads.trans (h.leads.closed.pushFrame hnew ?_ (by simp)), h.depth⟩
  rintro g ⟨⟩
  exact henv

theorem forTest_within {cond step : Option Expr} {body : Stmt}
    (hparts : (Pending.forTest cond step body).In R) (henv : m.env ∈ R.frames)
    (hp : Lasting R a .completion m.env m.depth m.pending) : (m.forTest cond step body).Within R a s₀ := by
  cases cond with
  | none => exact push_exec h (.forBody none step body) hparts hparts.2.2 henv hp
  | some c => exact push_eval h (.forTest c step body) hparts (hparts.1 c rfl) henv hp

theorem forStep_within {cond step : Option Expr} {body : Stmt}
    (hparts : (Pending.forTest cond step body).In R) (henv : m.env ∈ R.frames)
    (hp : Lasting R a .completion m.env m.depth m.pending) : (m.forStep cond step body).Within R a s₀ := by
  cases step with
  | none => exact forTest_within h hparts henv hp
  | some e => exact push_eval h (.forStep cond e body) hparts (hparts.2.1 e rfl) henv hp

theorem exec_within {stmt : Stmt} (hs : R.code (.stmt stmt)) (henv : m.env ∈ R.frames)
    (hp : Lasting R a .completion m.env m.depth m.pending) (hmakes : R.Makes m.store (m.exec stmt).store) :
    (m.exec stmt).Within R a s₀ := by
  have hparts := R.parts hs
  have htokens := R.has_token hs
  cases stmt with
  | expression pos e => exact push_eval h .discard trivial (hparts _ List.mem_cons_self) henv hp
  | print pos e => exact push_eval h (.print pos) (R.code_print hs) (hparts _ List.mem_cons_self) henv hp
  | declare pos name value =>
    have hname := htokens name List.mem_cons_self
    cases value with
    | none => exact define_within h hname trivial henv hp
    | some e => exact push_eval h (.declare name) hname (hparts _ List.mem_cons_self) henv hp
  | block pos body =>
    rw [exec, sequence_store] at hmakes
    have hnew : m.store.frames.size ∈ R.frames :=
      hmakes.frames _ (Nat.le_refl _) (by simp [enterScope, Store.newFrame])
    exact sequence_within (m := m.enterScope) (enterScope_bounded h henv hnew)
      (hparts _ List.mem_cons_self) hnew (.restore hp)
  | branch pos cond yes no =>
    simp only [Fragment.parts, Stmt.parts, List.forall_mem_cons, List.forall_mem_map] at hparts
    exact push_eval h (.branch yes no) ⟨hparts.2.1, fun s hs => hparts.2.2 s (by simpa using hs)⟩ hparts.1 henv hp
  | loop pos cond body =>
    simp only [Fragment.parts, Stmt.parts, List.mem_cons, List.not_mem_nil, or_false, forall_eq_or_imp,
      forall_eq] at hparts
    exact push_eval h (.loopTest cond body) hparts hparts.1 henv hp
  | forLoop pos start cond step body =>
    simp only [Fragment.parts, Stmt.parts, List.forall_mem_append, List.forall_mem_map, Option.mem_toList,
      List.mem_singleton, forall_eq] at hparts
    obtain ⟨⟨⟨hstart, hcond⟩, hstep⟩, hbody⟩ := hparts
    have hround : (Pending.forTest cond step body).In R := ⟨hcond, hstep, hbody⟩
    have hnew : m.store.frames.size ∈ R.frames := by
      refine hmakes.frames _ (Nat.le_refl _) ?_
      cases start with
      | none =>
        simp only [exec, forTest_store]
        simp [enterScope, Store.newFrame]
      | some s => simp [exec, push, enterScope, Store.newFrame]
    have hinside := enterScope_bounded h henv hnew
    cases start with
    | none => exact forTest_within (m := m.enterScope) hinside hround hnew (.restore hp)
    | some s =>
      exact push_exec (m := m.enterScope) hinside (.forStart cond step body) hround (hstart s rfl) hnew
        (.restore hp)
  | leave | skip => exact complete_within h trivial hp
  | result keyword value =>
    cases value with
    | none => exact complete_within h trivial hp
    | some e => exact push_eval h .result trivial (hparts _ List.mem_cons_self) henv hp
  | function f =>
    let closure : Closure := { name := f.name.lexeme, params := f.params, body := f.body, env := m.env }
    have hclosure : closure.In R :=
      ⟨henv, fun p hp => htokens p (List.mem_cons_of_mem _ hp), hparts _ List.mem_cons_self⟩
    let made : Machine := { m with store := (m.store.newFunction closure).2 }
    have hfunction : R.Makes m.store made.store :=
      hmakes.first (define_extends (w := ∅) made f.name (.function m.store.functions.size))
    have hnew : m.store.functions.size ∈ R.functions :=
      hfunction.functions _ (Nat.le_refl _) (by simp [made, Store.newFunction])
    exact define_within (m := made) (h.lead (h.leads.closed.newFunction fun _ => hclosure))
      (htokens f.name List.mem_cons_self) hnew henv hp
  | classDecl pos name fields methods =>
    simp only [Fragment.parts, Stmt.parts, List.forall_mem_append, List.forall_mem_map] at hparts
    let closures := methods.map fun f =>
      ({ name := f.name.lexeme, params := f.params, body := f.body, env := m.env
         isInit := f.name.lexeme == Class.initName } : Closure)
    let cls : Class := { name := name.lexeme, methods := closures, fields, env := m.env }
    have hclosures : ∀ c ∈ closures, c.In R := by
      intro c hc
      obtain ⟨f, hf, rfl⟩ := List.mem_map.1 hc
      refine ⟨henv, fun p hp => htokens p ?_, hparts.2 f hf⟩
      exact List.mem_cons_of_mem _ (List.mem_flatMap.2 ⟨f, hf, List.mem_cons_of_mem _ hp⟩)
    exact define_within (m := { m with store := (m.store.newClass cls).2 })
      (h.lead (h.leads.closed.newClass (c := cls) ⟨henv, hparts.1, hclosures⟩))
      (htokens name List.mem_cons_self) trivial henv hp

/-! ## Calls -/

omit h in
theorem bindParams_fails {e : RuntimeError} {ps : List Token} {vs : List Value} {done : List Binding}
    (hps : ∀ p ∈ ps, R.Has p) (hbind : bindParams done ps vs = .error e) : e.In R := by
  obtain ⟨p, hp, kind, message, rfl⟩ := bindParams_error hbind
  exact RuntimeError.in_at (hps p hp) kind message

theorem callClosure_within {f : Closure} (hf : f.In R) {args : List Value} (hargs : ∀ v ∈ args, v.In R)
    (hp : Lasting R a .value m.env m.depth m.pending) (hmakes : R.Makes m.store (m.callClosure f args).store) :
    (m.callClosure f args).Within R a s₀ := by
  unfold callClosure at hmakes ⊢
  cases hbind : bindParams [] f.params args with
  | error e => exact fail_within h (bindParams_fails hf.params hbind) hp
  | ok bindings =>
    simp only [hbind, sequence_store] at hmakes
    have hnew : m.store.frames.size ∈ R.frames := hmakes.frames _ (Nat.le_refl _) (by simp)
    have hpushed : R.Leads m.store
        { m.store with frames := m.store.frames.push { parent := some f.env, bindings } } := by
      refine h.leads.closed.pushFrame hnew ?_ fun b hb _ => bindParams_values hargs (by simp) hbind b hb
      rintro g ⟨⟩
      exact hf.env
    let called : Machine :=
      { m with
        store := { m.store with frames := m.store.frames.push { parent := some f.env, bindings } }
        env := m.store.frames.size
        pending := .body f m.env :: m.pending }
    exact sequence_within (m := called) (h.lead hpushed) hf.body hnew (.body hf.env hp)

theorem setUp_within (object : InstanceId) {cls : Class} (hcls : cls.In R) {args : List Value}
    (hargs : ∀ v ∈ args, v.In R) (hp : Lasting R a .value m.env m.depth m.pending)
    (hmakes : R.Makes m.store (m.setUp object cls args).store) :
    (m.setUp object cls args).Within R a s₀ := by
  unfold setUp at hmakes ⊢
  split at hmakes
  · exact give_within h trivial hp
  · rename_i init hinit
    let bound : Machine :=
      { m with store := (m.store.bind init object).2, pending := .construct object :: m.pending }
    have hframe : R.Makes m.store bound.store :=
      hmakes.first (callClosure_extends (w := ∅) bound (m.store.bind init object).1 args)
    have hnew : m.store.frames.size ∈ R.frames :=
      hframe.frames _ (Nat.le_refl _) (by simp [bound, Store.bind, Store.newFrameWith])
    have hmethod : init.In R := hcls.methods init (List.mem_reverse.1 (List.mem_of_find?_eq_some hinit))
    obtain ⟨hleads, hin⟩ := h.leads.closed.bind hmethod object hnew
    exact callClosure_within (m := bound) (h.lead hleads) hin hargs (.construct hp)
      (hmakes.second (Store.Extends.bind (w := ∅) m.store init object))

theorem initFields_within (object : InstanceId) {cls : Class} (hcls : cls.In R) {args : List Value}
    (hargs : ∀ v ∈ args, v.In R) {fields : List Field} (hfields : ∀ f ∈ fields, R.code (.expr f.value))
    (hp : Lasting R a .value m.env m.depth m.pending)
    (hmakes : R.Makes m.store (m.initFields object cls args fields).store) :
    (m.initFields object cls args fields).Within R a s₀ := by
  cases fields with
  | nil => exact setUp_within h object hcls hargs hp hmakes
  | cons f rest =>
    obtain ⟨hf, hrest⟩ := List.forall_mem_cons.1 hfields
    exact ⟨h, hf, hcls.env, .field ⟨hrest, hcls, hargs⟩ hp⟩

theorem runScript_within {script : Script} (hscript : script.In R)
    (hp : Lasting R a .value m.env m.depth m.pending) : (m.runScript script).Within R a s₀ := by
  induction script with
  | give v => exact give_within h hscript hp
  | fail e => exact fail_within h hscript hp
  | failPlain message => exact halt_within h trivial hp
  | look array next ih =>
    obtain ⟨harray, hnext⟩ := hscript
    refine ih _ (hnext _ fun v hv => ?_)
    unfold spread at hv
    split at hv
    · exact h.leads.closed.arrays _ harray v (Array.mem_toList_iff.1 hv)
    · cases hv
  | call callee args rescues next _ =>
    obtain ⟨hcallee, hargs, hnext⟩ := hscript
    exact ⟨h, hcallee, hargs, .callback hnext hp⟩

theorem callNative_within {op : NativeOp} (hop : op.In R) {args : List Value} (hargs : ∀ v ∈ args, v.In R)
    (hp : Lasting R a .value m.env m.depth m.pending)
    (hmakes : R.Makes m.store (m.callNative op args).store) : (m.callNative op args).Within R a s₀ := by
  unfold callNative at hmakes ⊢
  split at hmakes
  · exact runScript_within h (hop args hargs) hp
  · obtain ⟨hleads, hresult, hfail⟩ :=
      NativeOp.run_in (w := ⟨m.store, m.console⟩) h.leads.closed hop hargs hmakes
    refine ⟨h.lead hleads, ?_⟩
    dsimp only
    split
    · rename_i v hv
      exact ⟨hresult v hv, hp⟩
    · rename_i halt hhalt
      exact ⟨hfail halt hhalt, .value, hp⟩

omit h in
theorem enterCall_error {name : Bytes} {count : Nat} {e : RuntimeError}
    (he : m.enterCall name count = .error e) : e.In R := by
  unfold enterCall at he
  split_ifs at he
  cases he
  exact RuntimeError.in_unlocated _ _

omit h in
theorem enterCall_depth {name : Bytes} {count : Nat} {m' : Machine} (he : m.enterCall name count = .ok m') :
    m.depth < maxDepth ∧ m'.depth = m.depth + 1 := by
  unfold enterCall at he
  split_ifs at he with hdepth
  cases he
  exact ⟨Nat.lt_of_not_le hdepth, rfl⟩

theorem invoke_within {callee : Value} (hcallee : callee.In R) {args : List Value}
    (hargs : ∀ v ∈ args, v.In R) (hp : Lasting R a .value m.env m.depth m.pending)
    (hmakes : R.Makes m.store (m.invoke callee args).store) : (m.invoke callee args).Within R a s₀ := by
  unfold invoke at hmakes ⊢
  split at hmakes
  · exact fail_within h (RuntimeError.in_unlocated _ _) hp
  · dsimp only at hmakes ⊢
    split at hmakes
    · rename_i e henter
      exact fail_within h (enterCall_error henter) hp
    · rename_i m' henter
      obtain ⟨hstore, henv, -, hpending⟩ := enterCall_ok henter
      obtain ⟨hfree, hdepth⟩ := enterCall_depth henter
      have h' : Bounded R a s₀ m'.store m'.depth := by
        rw [hstore, hdepth]
        exact ⟨h.leads, Nat.le_trans hfree (Nat.le_max_right _ _)⟩
      have hp' : Lasting R a .value m'.env m'.depth m'.pending := by
        rw [hpending, henv]
        exact .depart h.depth hp
      rw [← hstore] at hmakes
      split at hmakes
      · split at hmakes
        · rename_i f hf
          exact callClosure_within h' (h'.leads.closed.functions _ hcallee _ hf) hargs hp' hmakes
        · exact give_within h' trivial hp'
      · split at hmakes
        · rename_i c _ _ cls hcls
          have hin := h'.leads.closed.classes cls (Array.mem_of_getElem? hcls)
          exact initFields_within (m := { m' with store := (m'.store.newInstance c).2 })
            (h'.lead (h'.leads.closed.newInstance c)) _ hin hargs hin.fields hp'
            (hmakes.second (Store.Extends.newInstance (w := ∅) m'.store c))
        · exact give_within h' trivial hp'
      · split at hmakes
        · rename_i native hnative
          exact callNative_within h' (h'.leads.closed.natives native (Array.mem_of_getElem? hnative)) hargs hp'
            hmakes
        · exact give_within h' trivial hp'
      · exact give_within h' trivial hp'

theorem callAt_within {paren : Token} (hparen : R.Has paren) {callee : Value} (hcallee : callee.In R)
    {args : List Value} (hargs : ∀ v ∈ args, v.In R) (henv : m.env ∈ R.frames)
    (hp : Lasting R a .value m.env m.depth m.pending) : (m.callAt paren callee args).Within R a s₀ := by
  unfold callAt
  split
  · exact fail_within h (RuntimeError.in_at hparen _ _) hp
  · exact ⟨h, hcallee, hargs, .code rfl hparen henv hp⟩

/-! ## Expressions -/

omit h in
theorem stepResult_in (before : Bool) {current next : Value} (hcurrent : current.In R) (hnext : next.In R) :
    (stepResult before current next).In R := by
  cases before
  · exact hcurrent
  · exact hnext

theorem eval_within {e : Expr} (he : R.code (.expr e)) (henv : m.env ∈ R.frames)
    (hp : Lasting R a .value m.env m.depth m.pending) (hmakes : R.Makes m.store (m.eval e).store) :
    (m.eval e).Within R a s₀ := by
  have hparts := R.parts he
  have htokens := R.has_token he
  simp only [Fragment.parts, Fragment.tokens] at hparts htokens
  cases e with
  | literal _ token => exact give_within h (Value.ofLiteral_in token.literal) hp
  | group _ _ inner => exact evaluate_within h (hparts _ List.mem_cons_self) henv hp
  | unary _ op token operand =>
    exact push_eval h (.unary op token) (htokens token List.mem_cons_self) (hparts _ List.mem_cons_self) henv hp
  | binary _ op token left right =>
    simp only [Expr.parts, List.mem_cons, List.not_mem_nil, or_false, forall_eq_or_imp, forall_eq] at hparts
    exact push_eval h (.left op token right) ⟨htokens token List.mem_cons_self, hparts.2⟩ hparts.1 henv hp
  | logical _ op token left right =>
    simp only [Expr.parts, List.mem_cons, List.not_mem_nil, or_false, forall_eq_or_imp, forall_eq] at hparts
    exact push_eval h (.logical op right) hparts.2 hparts.1 henv hp
  | ternary _ question cond yes no =>
    simp only [Expr.parts, List.mem_cons, List.not_mem_nil, or_false, forall_eq_or_imp, forall_eq] at hparts
    exact push_eval h (.ternary question yes no) ⟨htokens question List.mem_cons_self, hparts.2⟩ hparts.1 henv hp
  | ident id name | this id name =>
    obtain ⟨hread, hfail⟩ := read_in h.leads.closed henv (htokens name List.mem_cons_self) id
    simp only [eval]
    split
    · rename_i v hv
      exact give_within h (hread v hv) hp
    · rename_i halt hhalt
      exact halt_within h (hfail halt hhalt) hp
  | assign id name value =>
    exact push_eval h (.assign id name) (htokens name List.mem_cons_self) (hparts _ List.mem_cons_self) henv hp
  | compound id name op token value =>
    simp only [Expr.tokens, List.mem_cons, List.not_mem_nil, or_false, forall_eq_or_imp, forall_eq] at htokens
    obtain ⟨hread, hfail⟩ := read_in h.leads.closed henv htokens.1 id
    simp only [eval]
    split
    · rename_i current hcurrent
      exact push_eval h (.compound id name op token current) ⟨htokens.1, htokens.2, hread _ hcurrent⟩
        (hparts _ List.mem_cons_self) henv hp
    · rename_i halt hhalt
      exact halt_within h (hfail halt hhalt) hp
  | update id name op token before =>
    simp only [Expr.tokens, List.mem_cons, List.not_mem_nil, or_false, forall_eq_or_imp, forall_eq] at htokens
    obtain ⟨hread, hfail⟩ := read_in h.leads.closed henv htokens.1 id
    simp only [eval]
    split
    · rename_i halt hhalt
      exact halt_within h (hfail halt hhalt) hp
    · rename_i current hcurrent
      split
      · rename_i halt hhalt
        exact halt_within h ((Operator.step_at hhalt).within htokens.2) hp
      · rename_i next hnext
        have hin : next.In R := (Operator.step_plain hnext).within
        exact assign_within h htokens.1 hin (stepResult_in before (hread _ hcurrent) hin) henv hp id
  | updateIndex _ object bracket index op token before =>
    simp only [Expr.tokens, Expr.parts, List.mem_cons, List.not_mem_nil, or_false, forall_eq_or_imp,
      forall_eq] at htokens hparts
    exact push_eval h (.indexed bracket index (.step op token before)) ⟨htokens.1, hparts.2, htokens.2⟩
      hparts.1 henv hp
  | updateGet _ object name op token before =>
    simp only [Expr.tokens, List.mem_cons, List.not_mem_nil, or_false, forall_eq_or_imp, forall_eq] at htokens
    exact push_eval h (.property name (.step op token before)) htokens (hparts _ List.mem_cons_self) henv hp
  | call _ callee paren args =>
    simp only [Expr.parts, List.forall_mem_cons, List.forall_mem_map] at hparts
    exact push_eval h (.callee paren args) ⟨htokens paren List.mem_cons_self, hparts.2⟩ hparts.1 henv hp
  | lambda _ _ params body =>
    let closure : Closure := { name := text "lambda", params, body, env := m.env }
    have hclosure : closure.In R :=
      ⟨henv, fun p hp => htokens p (List.mem_cons_of_mem _ hp), hparts _ List.mem_cons_self⟩
    have hnew : m.store.functions.size ∈ R.functions :=
      hmakes.functions _ (Nat.le_refl _) (by simp [eval, Store.newFunction])
    exact ⟨h.lead (h.leads.closed.newFunction fun _ => hclosure), hnew, hp⟩
  | array _ _ elements =>
    simp only [Expr.parts, List.forall_mem_map] at hparts
    cases elements with
    | nil =>
      have hnew : m.store.arrays.size ∈ R.arrays :=
        hmakes.arrays _ (Nat.le_refl _) (by simp [eval, Store.newArray])
      exact ⟨h.lead (h.leads.closed.newArray hnew (by simp)), hnew, hp⟩
    | cons e rest =>
      obtain ⟨hfirst, hrest⟩ := List.forall_mem_cons.1 hparts
      exact push_eval h (.element #[] rest) ⟨by simp, hrest⟩ hfirst henv hp
  | index _ object bracket index =>
    simp only [Expr.parts, List.mem_cons, List.not_mem_nil, or_false, forall_eq_or_imp, forall_eq] at hparts
    exact push_eval h (.indexed bracket index .read) ⟨htokens bracket List.mem_cons_self, hparts.2, trivial⟩
      hparts.1 henv hp
  | get _ object name =>
    exact push_eval h (.property name .read) ⟨htokens name List.mem_cons_self, trivial⟩
      (hparts _ List.mem_cons_self) henv hp
  | set _ object name value =>
    simp only [Expr.parts, List.mem_cons, List.not_mem_nil, or_false, forall_eq_or_imp, forall_eq] at hparts
    exact push_eval h (.property name (.write value)) ⟨htokens name List.mem_cons_self, hparts.2⟩ hparts.1
      henv hp

/-! ## Elements, properties and printing -/

theorem useElement_within {bracket : Token} (hbracket : R.Has bracket) {object index : Value}
    (hobject : object.In R) {use : ElementUse} (huse : use.In R)
    (hp : Lasting R a .value m.env m.depth m.pending) :
    (m.useElement bracket object index use).Within R a s₀ := by
  unfold useElement
  split
  · rename_i halt hhalt
    exact halt_within h ((Operator.element_at hhalt).within hbracket) hp
  · rename_i array i helement
    have harray : array ∈ R.arrays := by
      rw [Operator.element_array helement] at hobject
      exact hobject
    have hcurrent : (((m.store.elements array)[i]?).getD .none).In R := by
      cases hfound : (m.store.elements array)[i]? with
      | none => trivial
      | some v => exact h.leads.closed.arrays array harray v (Array.mem_of_getElem? hfound)
    dsimp only
    split
    · exact give_within h hcurrent hp
    · split
      · rename_i halt hhalt
        exact halt_within h ((Operator.step_at hhalt).within huse) hp
      · rename_i next hnext
        have hin : next.In R := (Operator.step_plain hnext).within
        refine ⟨h.lead (h.leads.closed.modifyArray harray fun v hv => ?_), stepResult_in _ hcurrent hin, hp⟩
        rcases Array.mem_or_eq_of_mem_setIfInBounds hv with hv | rfl
        · exact h.leads.closed.arrays array harray v hv
        · exact hin

theorem readProperty_within {name : Token} (hname : R.Has name) (v : Value)
    (hp : Lasting R a .value m.env m.depth m.pending)
    (hmakes : R.Makes m.store (m.readProperty name v).store) : (m.readProperty name v).Within R a s₀ := by
  cases v with
  | object i =>
    have hstore : (m.readProperty name (.object i)).store = (m.store.property i name.lexeme).2 := by
      unfold readProperty
      dsimp only
      split <;> rename_i heq
      · rw [heq]
      · rw [heq]
        rfl
    rw [hstore] at hmakes
    obtain ⟨hleads, hin⟩ := h.leads.closed.property i name.lexeme hmakes
    simp only [readProperty]
    split <;> rename_i store heq <;> rw [heq] at hleads hin
    · exact ⟨h.lead hleads, hin _ rfl, hp⟩
    · exact fail_within (m := { m with store }) (h.lead hleads) (RuntimeError.in_at hname _ _) hp
  | host i =>
    simp only [readProperty]
    split
    · rename_i v hfound
      obtain ⟨o, ho, hv⟩ := Option.bind_eq_some_iff.1 hfound
      obtain ⟨before, behind, heq, -⟩ := List.lookup_eq_some_iff.1 hv
      have hmem : (name.lexeme, v) ∈ o.properties := by simp [heq]
      exact give_within h (h.leads.closed.properties o (Array.mem_of_getElem? ho) _ hmem) hp
    · exact fail_within h (RuntimeError.in_at hname _ _) hp
  | hollow o =>
    cases o with
    | object => exact halt_within h trivial hp
    | _ => exact fail_within h (RuntimeError.in_at hname _ _) hp
  | _ => exact fail_within h (RuntimeError.in_at hname _ _) hp

theorem stepProperty_within {name token : Token} (hname : R.Has name) (htoken : R.Has token) (op : StepOp)
    (before : Bool) (v : Value) (hp : Lasting R a .value m.env m.depth m.pending)
    (hmakes : R.Makes m.store (m.stepProperty name op token before v).store) :
    (m.stepProperty name op token before v).Within R a s₀ := by
  cases v with
  | object i =>
    have hmade : R.Makes m.store (m.store.property i name.lexeme).2 := by
      unfold stepProperty at hmakes
      dsimp only at hmakes
      split at hmakes <;> rename_i store heq
      · rw [heq]
        exact hmakes
      · rw [heq]
        split at hmakes
        · exact hmakes
        · exact hmakes.first (Store.Extends.putField (w := ∅) store i name.lexeme _)
    obtain ⟨hleads, hin⟩ := h.leads.closed.property i name.lexeme hmade
    simp only [stepProperty]
    split <;> rename_i store heq <;> rw [heq] at hleads hin
    · exact fail_within (m := { m with store }) (h.lead hleads) (RuntimeError.in_at hname _ _) hp
    · split
      · rename_i halt hhalt
        exact halt_within (m := { m with store }) (h.lead hleads) ((Operator.step_at hhalt).within htoken) hp
      · rename_i next hnext
        have hset : next.In R := (Operator.step_plain hnext).within
        exact ⟨h.lead (hleads.trans (hleads.closed.putField i _ hset)), stepResult_in before (hin _ rfl) hset, hp⟩
  | _ => exact fail_within h (RuntimeError.in_at hname _ _) hp

theorem print_within {pos : Position} (hpos : ⟨text "print", pos⟩ ∈ R.sites) (shown : ByteArray)
    (hp : Lasting R a .completion m.env m.depth m.pending) : (m.print pos shown).Within R a s₀ := by
  unfold print
  split
  · exact ⟨h, trivial, hp⟩
  · refine fail_within h ?_ hp
    rintro s ⟨⟩ -
    exact hpos

/-! ## Handing on -/

/-- A value meets a piece of syntax that waits for it. -/
theorem resumeCode_within {p : Pending} {k : Handed} (hturns : p.turns = some (.value, k)) (hin : p.In R)
    {v : Value} (hv : v.In R) (henv : m.env ∈ R.frames) (hp : Lasting R a k m.env m.depth m.pending)
    (hmakes : R.Makes m.store (m.resumeValue p v).store) : (m.resumeValue p v).Within R a s₀ := by
  have hmore : ∀ {done : List Value}, (∀ w ∈ done, w.In R) → ∀ w ∈ v :: done, w.In R :=
    fun hdone => List.forall_mem_cons.2 ⟨hv, hdone⟩
  cases p <;> cases hturns
  case unary op token =>
    exact giveResult_within h (fun _ => Operator.unary_plain) (fun _ => Operator.unary_at) hin hp
  case left op token right => exact push_eval h (.right op token v) ⟨hin.1, hv⟩ hin.2 henv hp
  case right op token left =>
    exact giveResult_within h (fun _ => Operator.binary_plain) (fun _ => Operator.binary_at) hin.1 hp
  case logical op right =>
    simp only [resumeValue]
    split
    · exact give_within h hv hp
    · exact give_within h hv hp
    · exact evaluate_within h hin henv hp
  case ternary question yes no =>
    simp only [resumeValue]
    split
    · rename_i b
      cases b
      · exact evaluate_within h hin.2.2 henv hp
      · exact evaluate_within h hin.2.1 henv hp
    · exact fail_within h (RuntimeError.in_at hin.1 _ _) hp
  case assign id name => exact assign_within h hin hv hv henv hp id
  case compound id name op token current =>
    simp only [resumeValue]
    split
    · rename_i result hresult
      have hset : result.In R := (Operator.compound_plain hresult).within
      exact assign_within h hin.1 hset hset henv hp id
    · rename_i halt hhalt
      exact halt_within h ((Operator.compound_at hhalt).within hin.2.1) hp
  case indexed bracket index use =>
    exact push_eval h (.index bracket v use) ⟨hin.1, hv, hin.2.2⟩ hin.2.1 henv hp
  case index bracket object use => exact useElement_within h hin.1 hin.2.1 hin.2.2 hp
  case property name use =>
    cases use with
    | read => exact readProperty_within h hin.1 v hp hmakes
    | step op token before => exact stepProperty_within h hin.1 hin.2 op before v hp hmakes
    | write value =>
      simp only [resumeValue]
      split
      · exact push_eval h (.write name _) hin.1 hin.2 henv hp
      · exact fail_within h (RuntimeError.in_at hin.1 _ _) hp
  case write name i => exact ⟨h.lead (h.leads.closed.putField i name.lexeme hv), hv, hp⟩
  case callee paren args =>
    cases args with
    | nil => exact callAt_within h hin.1 hv (by simp) henv hp
    | cons e rest =>
      obtain ⟨he, hrest⟩ := List.forall_mem_cons.1 hin.2
      exact push_eval h (.argument paren v [] rest) ⟨hin.1, hv, by simp, hrest⟩ he henv hp
  case argument paren callee done rest =>
    obtain ⟨hparen, hcallee, hdone, hargs⟩ := hin
    cases rest with
    | nil => exact callAt_within h hparen hcallee (fun w hw => hmore hdone w (List.mem_reverse.1 hw)) henv hp
    | cons e rest =>
      obtain ⟨he, hrest⟩ := List.forall_mem_cons.1 hargs
      exact push_eval h (.argument paren callee (v :: done) rest) ⟨hparen, hcallee, hmore hdone, hrest⟩ he henv hp
  case element done rest =>
    have hdone : ∀ w ∈ done.push v, w.In R := by
      intro w hw
      rcases Array.mem_push.1 hw with hw | rfl
      · exact hin.1 w hw
      · exact hv
    cases rest with
    | nil =>
      have hnew : m.store.arrays.size ∈ R.arrays :=
        hmakes.arrays _ (Nat.le_refl _) (by simp [resumeValue, Store.newArray])
      exact ⟨h.lead (h.leads.closed.newArray hnew hdone), hnew, hp⟩
    | cons e rest =>
      obtain ⟨he, hrest⟩ := List.forall_mem_cons.1 hin.2
      exact push_eval h (.element (done.push v) rest) ⟨hdone, hrest⟩ he henv hp
  case site => exact give_within h hv hp
  case discard => exact complete_within h trivial hp
  case print pos =>
    simp only [resumeValue]
    split
    · exact halt_within h trivial hp
    · exact print_within h hin _ hp
  case declare name => exact define_within h hin hv henv hp
  case branch yes no =>
    simp only [resumeValue]
    split
    · exact execute_within h hin.1 henv hp
    · split
      · rename_i s
        exact execute_within h (hin.2 s rfl) henv hp
      · exact complete_within h trivial hp
  case loopTest cond body =>
    simp only [resumeValue]
    split
    · exact push_exec h (.loopBody cond body) hin hin.2 henv hp
    · exact complete_within h trivial hp
  case forTest cond step body =>
    simp only [resumeValue]
    split
    · exact push_exec h (.forBody cond step body) hin hin.2.2 henv hp
    · exact complete_within h trivial hp
  case forStep cond step body => exact forTest_within h hin henv hp
  case result => exact complete_within h hv hp

/-- A completion meets a piece of syntax that waits for it. -/
theorem completeCode_within {p : Pending} {k : Handed} (hturns : p.turns = some (.completion, k)) (hin : p.In R)
    {c : Completion} (hc : c.In R) (henv : m.env ∈ R.frames) (hp : Lasting R a k m.env m.depth m.pending) :
    (m.resumeCompletion p c).Within R a s₀ := by
  cases p <;> cases hturns
  case loopBody cond body =>
    cases c with
    | normal | skip => exact push_eval h (.loopTest cond body) hin hin.1 henv hp
    | leave => exact complete_within h trivial hp
    | result v => exact complete_within h hc hp
  case forStart cond step body => exact forTest_within h hin henv hp
  case forBody cond step body =>
    cases c with
    | normal | skip => exact forStep_within h hin henv hp
    | leave => exact complete_within h trivial hp
    | result v => exact complete_within h hc hp
  case sequence rest =>
    cases c with
    | normal => exact sequence_within h hin henv hp
    | _ => exact complete_within h hc hp
  case program rest =>
    cases c with
    | normal =>
      cases rest with
      | nil => exact complete_within h trivial hp
      | cons s rest =>
        have hparts := R.parts hin
        simp only [Fragment.parts, List.mem_cons, List.not_mem_nil, or_false, forall_eq_or_imp,
          forall_eq] at hparts
        exact push_exec h (.program rest) hparts.2 hparts.1 henv hp
    | _ => exact halt_within h trivial hp

/-- A halt passes a piece of syntax; a call in the program gives it a site. -/
theorem unwindCode_within {p : Pending} {turn : Handed × Handed} (hturns : p.turns = some turn) (hin : p.In R)
    {halt : Halt} (hhalt : halt.In R) {k : Handed} (hp : Lasting R a k m.env m.depth m.pending) :
    (m.unwind p halt).Within R a s₀ := by
  cases p with
  | site paren callee => exact halt_within h (hhalt.atCall hin) hp
  | depart | callback | body | field | construct | restore => cases hturns
  | _ => exact halt_within h hhalt hp

theorem finishBody_within {f : Closure} (hf : f.env ∈ R.frames) {c : Completion} (hc : c.In R)
    (hp : Lasting R a .value m.env m.depth m.pending) : (m.finishBody f c).Within R a s₀ := by
  unfold finishBody
  cases c with
  | leave | skip => exact halt_within h trivial hp
  | normal | result v =>
    dsimp only
    split_ifs
    · split
      · rename_i receiver hreceiver
        refine give_within h ?_ hp
        unfold Store.getAt at hreceiver
        cases ht : m.store.target f.env 0 Store.receiverName with
        | error e => simp [ht, Except.map] at hreceiver
        | ok t =>
          simp only [ht, Except.map, Except.ok.injEq] at hreceiver
          rw [← hreceiver]
          exact (h.leads.closed.target hf ht).2 R.receiver_mem
      · exact halt_within h trivial hp
    · exact give_within h hc hp

end

/-! ## Steps -/

/-- An outcome meets what waited when a part of a run began. -/
def Meets (base : List Pending) (m : Machine) : Prop := m.pending = base ∧ m.control.IsOutcome

/-- A value is handed to what waits above the anchor. -/
theorem resumeValue_within {p : Pending} {rest : List Pending} (h : Bounded R a s₀ m.store m.depth) {v : Value}
    (hv : v.In R) (hp : Lasting R a .value m.env m.depth (p :: rest)) (hne : p :: rest ≠ a.pending)
    (hmakes : R.Makes m.store ({ m with pending := rest }.resumeValue p v).store) :
    ({ m with pending := rest }.resumeValue p v).Within R a s₀ := by
  obtain ⟨control, pending, env, depth, store, console, distances⟩ := m
  dsimp only at h hp hmakes ⊢
  generalize hk : Handed.value = k at hp
  generalize hpending : p :: rest = waiting at hp hne
  cases hp with
  | anchor => exact absurd rfl hne
  | code hturns hin henv hrest =>
    cases hpending
    subst hk
    exact resumeCode_within (m := ⟨control, rest, env, depth, store, console, distances⟩) h hturns hin hv henv
      hrest hmakes
  | restore | body => cases hk
  | @field object name more cls args _ back _ _ hin hrest =>
    cases hpending
    obtain ⟨hmore, hcls, hargs⟩ := hin
    exact initFields_within
      (m := ⟨control, rest, back, depth, store.putField object name v, console, distances⟩)
      (h.lead (h.leads.closed.putField object name hv)) object hcls hargs hmore hrest
      (hmakes.second (Store.Extends.putField (w := ∅) store object name v))
  | construct hrest =>
    cases hpending
    exact give_within (m := ⟨control, rest, env, depth, store, console, distances⟩) h trivial hrest
  | callback hin hrest =>
    cases hpending
    refine runScript_within (m := ⟨control, rest, env, depth, store, console, distances⟩) h (hin (some v) ?_) hrest
    rintro w ⟨⟩
    exact hv
  | depart hback hrest =>
    cases hpending
    exact ⟨⟨h.leads, hback⟩, hv, hrest⟩

/-- A completion is handed to what waits above the anchor. -/
theorem resumeCompletion_within {p : Pending} {rest : List Pending} (h : Bounded R a s₀ m.store m.depth)
    {c : Completion} (hc : c.In R) (hp : Lasting R a .completion m.env m.depth (p :: rest))
    (hne : p :: rest ≠ a.pending) : ({ m with pending := rest }.resumeCompletion p c).Within R a s₀ := by
  obtain ⟨control, pending, env, depth, store, console, distances⟩ := m
  dsimp only at h hp ⊢
  generalize hk : Handed.completion = k at hp
  generalize hpending : p :: rest = waiting at hp hne
  cases hp with
  | anchor => exact absurd rfl hne
  | code hturns hin henv hrest =>
    cases hpending
    subst hk
    exact completeCode_within (m := ⟨control, rest, env, depth, store, console, distances⟩) h hturns hin hc henv
      hrest
  | restore hrest =>
    cases hpending
    exact ⟨h, hc, hrest⟩
  | @body f _ back _ _ hf hrest =>
    cases hpending
    exact finishBody_within (m := ⟨control, rest, back, depth, store, console, distances⟩) h hf hc hrest
  | field | construct | callback | depart => cases hk

/-- A halt passes what waits above the anchor. -/
theorem unwind_within {p : Pending} {rest : List Pending} (h : Bounded R a s₀ m.store m.depth) {halt : Halt}
    (hhalt : halt.In R) {k : Handed} (hp : Lasting R a k m.env m.depth (p :: rest))
    (hne : p :: rest ≠ a.pending) : ({ m with pending := rest }.unwind p halt).Within R a s₀ := by
  obtain ⟨control, pending, env, depth, store, console, distances⟩ := m
  dsimp only at h hp ⊢
  generalize hpending : p :: rest = waiting at hp hne
  cases hp with
  | anchor => exact absurd rfl hne
  | code hturns hin henv hrest =>
    cases hpending
    exact unwindCode_within (m := ⟨control, rest, env, depth, store, console, distances⟩) h hturns hin hhalt hrest
  | restore hrest | body _ hrest | field _ hrest =>
    cases hpending
    exact ⟨h, hhalt, _, hrest⟩
  | construct hrest =>
    cases hpending
    exact ⟨h, hhalt, _, hrest⟩
  | @callback rescues next _ _ _ hin hrest =>
    cases hpending
    have hscript : (({ control, pending := rest, env, depth, store, console, distances } : Machine).runScript
        (next none)).Within R a s₀ :=
      runScript_within (m := ⟨control, rest, env, depth, store, console, distances⟩) h (hin none nofun) hrest
    unfold unwind
    dsimp only
    split
    · exact hscript
    · exact hscript
    · exact ⟨h, hhalt, _, hrest⟩
  | depart hback hrest =>
    cases hpending
    exact ⟨⟨h.leads, hback⟩, hhalt, _, hrest⟩

/-- While a part of a run lasts, a step leaves it lasting. -/
theorem Within.step (h : m.Within R a s₀) (hlasts : ¬ m.Meets a.pending) (hmakes : R.Makes m.store m.step.store) :
    m.step.Within R a s₀ := by
  obtain ⟨hbounded, hcontrol⟩ := h
  unfold Machine.step at hmakes ⊢
  unfold Meets at hlasts
  cases hc : m.control with
  | eval e =>
    rw [hc] at hcontrol
    simp only [hc] at hmakes
    exact eval_within hbounded hcontrol.1 hcontrol.2.1 hcontrol.2.2 hmakes
  | exec s =>
    rw [hc] at hcontrol
    simp only [hc] at hmakes
    exact exec_within hbounded hcontrol.1 hcontrol.2.1 hcontrol.2.2 hmakes
  | call callee args =>
    rw [hc] at hcontrol
    simp only [hc] at hmakes
    exact invoke_within hbounded hcontrol.1 hcontrol.2.1 hcontrol.2.2 hmakes
  | give v =>
    rw [hc] at hcontrol
    simp only [hc, Control.IsOutcome, and_true] at hmakes hlasts
    cases hp : m.pending with
    | nil =>
      have hnone := hcontrol.2.suffix
      rw [hp, List.suffix_nil] at hnone
      exact absurd (hp.trans hnone.symm) hlasts
    | cons p rest =>
      rw [hp] at hlasts hcontrol
      simp only [hp] at hmakes
      exact resumeValue_within (m := { m with control := .give v }) hbounded hcontrol.1 hcontrol.2 hlasts hmakes
  | complete c =>
    rw [hc] at hcontrol
    simp only [hc, Control.IsOutcome, and_true] at hmakes hlasts
    cases hp : m.pending with
    | nil =>
      have hnone := hcontrol.2.suffix
      rw [hp, List.suffix_nil] at hnone
      exact absurd (hp.trans hnone.symm) hlasts
    | cons p rest =>
      rw [hp] at hlasts hcontrol
      exact resumeCompletion_within (m := { m with control := .complete c }) hbounded hcontrol.1 hcontrol.2 hlasts
  | halt halt =>
    rw [hc] at hcontrol
    obtain ⟨hhalt, k, hstack⟩ := hcontrol
    simp only [hc, Control.IsOutcome, and_true] at hmakes hlasts
    cases hp : m.pending with
    | nil =>
      have hnone := hstack.suffix
      rw [hp, List.suffix_nil] at hnone
      exact absurd (hp.trans hnone.symm) hlasts
    | cons p rest =>
      rw [hp] at hlasts hstack
      exact unwind_within (m := { m with control := .halt halt }) hbounded hhalt hstack hlasts

end Machine

end Treewalk
