import Mathlib.Data.Nat.Find
import Treewalk.Proofs.Machine.Like
import Treewalk.Proofs.Machine.Run
import Treewalk.Proofs.Session.Agreement
import Treewalk.Proofs.Session.Outcome

/-!
# Machines alike go on alike

What a step does depends on the words of the code, on the distances of the names that it uses, and on the
objects; it does not depend on identities and positions as such. So if two machines are alike and the two
tables agree on the name that the next step uses, the machines after that step are alike
(`Machine.Like.step`), and so are they after any number of steps (`Machine.Like.steps`).

The one exception is the end of the first program where the second one goes on with more statements: there
the run of the first is over.
-/

namespace Treewalk

variable {L : Likeness}

/-! ## Tokens and faults -/

namespace Token.Like

variable {t t' : Token} (h : t.Like L t')

include h

theorem lexeme_eq : t'.lexeme = t.lexeme := by
  obtain ⟨p, -, rfl⟩ := h
  rfl

theorem literal_eq : t'.literal = t.literal := by
  obtain ⟨p, -, rfl⟩ := h
  rfl

/-- A fault at a token is one at the corresponding token. -/
theorem fault (kind : Diagnostic.Kind) (message : Bytes) :
    (RuntimeError.at t kind message).Like L (.at t' kind message) := by
  obtain ⟨p, hp, rfl⟩ := h
  exact .located hp

end Token.Like

theorem SameResult.elim {α : Type} {r r' : Except Halt α} (h : SameResult L r r') :
    (∃ a, r = .ok a ∧ r' = .ok a) ∨ ∃ halt halt', r = .error halt ∧ r' = .error halt' ∧ halt.Like L halt' := by
  cases h with
  | ok => exact .inl ⟨_, rfl, rfl⟩
  | error hh => exact .inr ⟨_, _, rfl, rfl, hh⟩

theorem SameResult.refuse {α : Type} {e e' : RuntimeError} (he : e.Like L e') :
    SameResult L (Operator.refuse e : Except Halt α) (Operator.refuse e') :=
  .error (.error he)

theorem RuntimeError.Like.isLocated_eq {e e' : RuntimeError} (h : e.Like L e') :
    e'.isLocated = e.isLocated := by
  cases h with
  | unlocated | given => rfl
  | @located kind lexeme p p' message hp =>
    have hline := L.line p p' hp
    simp only [RuntimeError.isLocated, Option.any_some]
    by_cases hzero : p.line = 0
    · rw [hzero, hline.2 hzero]
    · have hzero' : p'.line ≠ 0 := fun h => hzero (hline.1 h)
      simp only [Nat.pos_of_ne_zero hzero, Nat.pos_of_ne_zero hzero', decide_true]

/-- Halts alike stay alike when a call takes them. -/
theorem Halt.Like.atCall {h h' : Halt} (hh : h.Like L h') {t t' : Token} (ht : t.Like L t') (callee : Bytes) :
    (h.atCall t callee).Like L (h'.atCall t' callee) := by
  obtain ⟨p, hp, rfl⟩ := ht
  cases hh with
  | error he =>
    simp only [Halt.atCall, he.isLocated_eq]
    split
    · exact .error he
    · cases he with
      | unlocated | given | located => exact .error (.located hp)
  | plain => exact .error (.located hp)
  | fault => exact .fault

/-! ## Operators -/

namespace Operator

variable {s s' : Store} {t t' : Token} (hs : s.Like L s') (ht : t.Like L t')

include hs ht

theorem wrongType_like (wanted : String) (v : Value) :
    (wrongType s t wanted v).Like L (wrongType s' t' wanted v) := by
  unfold wrongType
  rw [hs.typeName_eq, ht.lexeme_eq]
  exact ht.fault _ _

theorem wrongTypes_like (wanted : String) (v w : Value) :
    (wrongTypes s t wanted v w).Like L (wrongTypes s' t' wanted v w) := by
  unfold wrongTypes
  rw [hs.typeName_eq, ht.lexeme_eq]
  exact ht.fault _ _

theorem unary_like (op : UnaryOp) (v : Value) : SameResult L (unary s op t v) (unary s' op t' v) := by
  unfold unary
  split
  · exact .ok
  · exact .refuse (wrongType_like hs ht _ _)
  · exact .ok
  · exact .refuse (wrongType_like hs ht _ _)

omit ht in
theorem concat_like (v w : Value) : SameResult L (concat s v w) (concat s' v w) := by
  unfold concat
  rw [hs.display?_eq, hs.display?_eq]
  split
  · exact .ok
  · exact .error .fault
  · exact .error .fault

theorem arith_like (op : ArithOp) (v w : Value) : SameResult L (arith s op t v w) (arith s' op t' v w) := by
  unfold arith
  split
  · exact .ok
  · split
    · exact concat_like hs _ _
    · exact .refuse (wrongTypes_like hs ht _ _ _)
  · exact .ok
  · exact .ok
  · split
    · exact .refuse (ht.fault _ _)
    · exact .ok
  · exact .refuse (wrongTypes_like hs ht _ _ _)

theorem compare_like (op : CompareOp) (v w : Value) :
    SameResult L (compare s op t v w) (compare s' op t' v w) := by
  unfold compare
  split
  · exact .ok
  · exact .refuse (wrongTypes_like hs ht _ _ _)

theorem binary_like (op : BinaryOp) (v w : Value) :
    SameResult L (binary s op t v w) (binary s' op t' v w) := by
  cases op with
  | arith op => exact arith_like hs ht op v w
  | compare op => exact compare_like hs ht op v w
  | equal =>
    simp only [binary, hs.equal_eq]
    exact .ok
  | notEqual =>
    simp only [binary, hs.equal_eq]
    exact .ok

theorem repetition_like (u : ByteArray) (n : Float) :
    SameResult L (repetition s t u n) (repetition s' t' u n) := by
  unfold repetition
  rw [hs.display_eq]
  split
  · exact .refuse (ht.fault _ _)
  · split
    · exact .refuse (ht.fault _ _)
    · split <;> exact .ok

theorem compound_like (op : ArithOp) (v w : Value) :
    SameResult L (compound s op t v w) (compound s' op t' v w) := by
  unfold compound
  split
  · exact repetition_like hs ht _ _
  · exact arith_like hs ht _ _ _

theorem step_like (op : StepOp) (v : Value) : SameResult L (step s op t v) (step s' op t' v) := by
  unfold step
  split
  · split <;> exact .ok
  · exact .refuse (wrongType_like hs ht _ _)

theorem element_like (object index : Value) :
    SameResult L (element s t object index) (element s' t' object index) := by
  have hother : SameResult L (element.notInteger s t index) (element.notInteger s' t' index) := by
    unfold element.notInteger
    rw [hs.repr?_eq]
    split
    · exact .refuse (ht.fault _ _)
    · exact .error .fault
  unfold element
  rw [hs.elements_eq, hs.typeName_eq, hs.display_eq]
  split
  · split
    · split
      · split
        · exact .ok
        · exact .refuse (ht.fault _ _)
      · exact hother
    · exact hother
  · exact .refuse (ht.fault _ _)

end Operator

/-! ## Objects -/

namespace Store.Like

variable {s s' : Store} (h : s.Like L s')

include h

theorem frames_eq : s'.frames = s.frames := h.proj Store.frames fun _ _ => rfl

theorem instances_eq : s'.instances = s.instances := h.proj Store.instances fun _ _ => rfl

theorem natives_eq : s'.natives = s.natives := h.proj Store.natives fun _ _ => rfl

theorem hosts_eq : s'.hosts = s.hosts := h.proj Store.hosts fun _ _ => rfl

theorem binds_eq : s'.binds = s.binds := h.resembles.binds_eq

/-- Stores alike stay alike when they change alike, code apart. -/
theorem change (f : Store → Store)
    (hf : ∀ (t : Store) functions classes,
      f { t with functions, classes } = { f t with functions, classes })
    (hnatives : (f s).natives = s.natives) : (f s).Like L (f s') := by
  have hself : f s = { f s with functions := s.functions, classes := s.classes } := hf s _ _
  have hother : f s' = { f s with functions := s'.functions, classes := s'.classes } := by
    rw [← hf s, ← h.same]
  refine ⟨?_, ?_, ?_, ?_⟩
  · rw [hother]
  · rw [hself, hother]
    exact h.functions
  · rw [hself, hother]
    exact h.classes
  · rw [hnatives]
    exact h.given

theorem put (f : FrameId) (name : Bytes) (v : Value) : (s.put f name v).Like L (s'.put f name v) :=
  h.change (·.put f name v) (fun _ _ _ => rfl) rfl

theorem add (f : FrameId) (b : Binding) : (s.add f b).Like L (s'.add f b) :=
  h.change (·.add f b) (fun _ _ _ => rfl) rfl

theorem modifyArray (a : ArrayId) (f : Array Value → Array Value) :
    (s.modifyArray a f).Like L (s'.modifyArray a f) :=
  h.change (·.modifyArray a f) (fun _ _ _ => rfl) rfl

theorem putField (i : InstanceId) (name : Bytes) (v : Value) :
    (s.putField i name v).Like L (s'.putField i name v) :=
  h.change (·.putField i name v) (fun _ _ _ => rfl) rfl

theorem pushFrame (fr : Frame) :
    ({ s with frames := s.frames.push fr } : Store).Like L { s' with frames := s'.frames.push fr } :=
  h.change (fun t => { t with frames := t.frames.push fr }) (fun _ _ _ => rfl) rfl

theorem newArray (elems : Array Value) : (s'.newArray elems).1 = (s.newArray elems).1 ∧
    (s.newArray elems).2.Like L (s'.newArray elems).2 :=
  ⟨h.proj (fun t => (t.newArray elems).1) fun _ _ => rfl,
    h.change (fun t => (t.newArray elems).2) (fun _ _ _ => rfl) rfl⟩

theorem newInstance (c : ClassId) : (s'.newInstance c).1 = (s.newInstance c).1 ∧
    (s.newInstance c).2.Like L (s'.newInstance c).2 :=
  ⟨h.proj (fun t => (t.newInstance c).1) fun _ _ => rfl,
    h.change (fun t => (t.newInstance c).2) (fun _ _ _ => rfl) rfl⟩

theorem clone? (v : Value) :
    (∃ w t t', s.clone? v = .ok (w, t) ∧ s'.clone? v = .ok (w, t') ∧ t.Like L t') ∨
      ∃ f, s.clone? v = .error f ∧ s'.clone? v = .error f := by
  cases v with
  | array a =>
    obtain ⟨hv, hstore⟩ := h.newArray (s.elements a)
    refine .inl ⟨(s.newArray (s.elements a)).1, _, _, rfl, ?_, hstore⟩
    rw [← hv]
    simp only [Store.clone?, Store.clone, h.elements_eq]
  | hollow hollow =>
    cases hollow with
    | array => exact .inr ⟨_, rfl, rfl⟩
    | _ => exact .inl ⟨_, _, _, rfl, rfl, h⟩
  | _ => exact .inl ⟨_, _, _, rfl, rfl, h⟩

theorem newFunction {f f' : Closure} (hf : f.Like L f') :
    (s'.newFunction f').1 = (s.newFunction f).1 ∧ (s.newFunction f).2.Like L (s'.newFunction f').2 := by
  refine ⟨congrArg Value.function h.functions.size, ?_, h.functions.push hf, h.classes, h.given⟩
  unfold Store.newFunction
  rw [h.same]

theorem newClass {c c' : Class} (hc : c.Like L c') :
    (s'.newClass c').1 = (s.newClass c).1 ∧ (s.newClass c).2.Like L (s'.newClass c').2 := by
  refine ⟨congrArg Value.classRef h.classes.size, ?_, h.functions, h.classes.push hc, h.given⟩
  unfold Store.newClass
  rw [h.same]

theorem bind {f f' : Closure} (hf : f.Like L f') (receiver : InstanceId) :
    (s.bind f receiver).1.Like L (s'.bind f' receiver).1 ∧
      (s.bind f receiver).2.Like L (s'.bind f' receiver).2 := by
  unfold Store.bind Store.newFrameWith
  dsimp only
  rw [hf.env]
  refine ⟨⟨hf.name, hf.params, hf.body, ?_, hf.isInit⟩, h.pushFrame _⟩
  simp only [h.frames_eq]

end Store.Like

/-- The last of several methods of a name is found at the same place. -/
theorem Closure.find?_like {fs fs' : List Closure} (h : List.Forall₂ (Closure.Like L) fs fs') (name : Bytes) :
    Option.Rel (Closure.Like L) (fs.find? (·.name == name)) (fs'.find? (·.name == name)) := by
  induction h with
  | nil => exact .none
  | cons hf _ ih =>
    simp only [List.find?_cons, hf.name]
    split
    · exact .some hf
    · exact ih

theorem Class.Like.method? {c c' : Class} (h : c.Like L c') (name : Bytes) :
    Option.Rel (Closure.Like L) (c.method? name) (c'.method? name) :=
  Closure.find?_like (List.rel_reverse h.methods) name

theorem Class.Like.arity_eq {c c' : Class} (h : c.Like L c') : c'.arity = c.arity := by
  have hinit := h.method? Class.initName
  unfold Class.arity
  generalize c.method? Class.initName = f at hinit ⊢
  generalize c'.method? Class.initName = f' at hinit ⊢
  cases hinit with
  | none => rfl
  | some hf => simp only [Option.map_some, Option.getD_some, hf.params.length_eq]

/-- A property is found alike. -/
theorem Store.Like.property {s s' : Store} (h : s.Like L s') (i : InstanceId) (name : Bytes) :
    (s'.property i name).1 = (s.property i name).1 ∧
      (s.property i name).2.Like L (s'.property i name).2 := by
  unfold Store.property
  rw [h.instances_eq]
  split
  · exact ⟨rfl, h⟩
  · have hmethod : Option.Rel (Closure.Like L) ((s.classOf? i).bind (·.method? name))
        ((s'.classOf? i).bind (·.method? name)) := by
      unfold Store.classOf?
      rw [h.instances_eq]
      cases s.instances[i]? with
      | none => exact .none
      | some inst =>
        have hcls := h.classes.get inst.cls
        simp only [Option.bind_some]
        generalize s.classes[inst.cls]? = c at hcls ⊢
        generalize s'.classes[inst.cls]? = c' at hcls ⊢
        cases hcls with
        | none => exact .none
        | some hc => exact hc.method? name
    generalize (s.classOf? i).bind (·.method? name) = f at hmethod ⊢
    generalize (s'.classOf? i).bind (·.method? name) = f' at hmethod ⊢
    cases hmethod with
    | none => exact ⟨rfl, h⟩
    | some hf =>
      obtain ⟨hbound, hstore⟩ := h.bind hf i
      obtain ⟨hv, hstore⟩ := hstore.newFunction hbound
      exact ⟨congrArg some hv, hstore⟩

/-! ## Natives -/

namespace NativeOp

variable {s s' : Store} {c c' : Console} (hs : s.Like L s')

include hs

theorem wrongArgument_like (name wanted : String) (v : Value) :
    SameResult L (wrongArgument s name wanted v) (wrongArgument s' name wanted v) := by
  unfold wrongArgument
  rw [hs.typeName_eq]
  exact .error (.error .unlocated)

theorem length_like (v : Value) : SameResult L (length s v) (length s' v) := by
  unfold length
  rw [hs.elements_eq]
  split
  · exact .error .fault
  · exact .ok
  · exact .ok
  · exact wrongArgument_like hs _ _ _

theorem toNumber_like (v : Value) : SameResult L (toNumber s v) (toNumber s' v) := by
  unfold toNumber
  split
  · exact .ok
  · exact .ok
  · split
    · exact .ok
    · exact .error (.error .unlocated)
  · exact wrongArgument_like hs _ _ _

theorem ofNumber_like (name : String) {f f' : Float → Result} (hf : ∀ x, SameResult L (f x) (f' x))
    (v : Value) : SameResult L (ofNumber s name f v) (ofNumber s' name f' v) := by
  unfold ofNumber
  split
  · exact hf _
  · exact wrongArgument_like hs _ _ _

theorem squareRoot_like (x : Float) : SameResult L (squareRoot s x) (squareRoot s' x) := by
  unfold squareRoot
  rw [hs.display_eq]
  split
  · exact .error (.error .unlocated)
  · exact .ok

omit hs in
theorem promised_like {α : Type} (r : Except Fault α) {f : α → Result} (hf : ∀ a, SameResult L (f a) (f a)) :
    SameResult L (promised r f) (promised r f) := by
  unfold promised
  split
  · exact hf _
  · exact .error .fault

end NativeOp

/-- The same result, in worlds that stay alike. -/
structure NativeOp.SameEffect (L : Likeness) (r r' : NativeOp.Result × NativeOp.World) : Prop where
  result : SameResult L r.1 r'.1
  store : r.2.store.Like L r'.2.store
  console : r.2.console.Like L r'.2.console

theorem NativeOp.drawRandom_like {s s' : Store} {c : Console} {err : Sink} (hs : s.Like L s')
    (herr : L.streams c.err err) :
    SameEffect L (drawRandom ⟨s, c⟩) (drawRandom ⟨s', { c with err }⟩) := by
  rcases hnext : c.random.next with ⟨x, source⟩
  simp only [drawRandom, hnext]
  exact ⟨.ok, hs, err, rfl, herr⟩

/-- A native does alike in worlds alike, and raises nothing that was not foreseen. -/
theorem NativeOp.run_like {s s' : Store} {c c' : Console} (hs : s.Like L s') (hc : c.Like L c') (op : NativeOp)
    (hop : ∀ e, op.Raises e → L.given e) (args : List Value) :
    SameEffect L (op.run args ⟨s, c⟩) (op.run args ⟨s', c'⟩) := by
  obtain ⟨err, rfl, herr⟩ := hc
  have hsame : c.Like L { c with err } := ⟨err, rfl, herr⟩
  cases op with
  | clock => exact ⟨.ok, hs, err, rfl, herr⟩
  | random => exact drawRandom_like hs herr
  | input =>
    simp only [run, readInput]
    split
    · exact ⟨.ok, hs, err, rfl, herr⟩
    · exact ⟨.ok, hs, err, rfl, herr⟩
    · exact ⟨.error (.error .unlocated), hs, err, rfl, herr⟩
  | len => exact ⟨length_like hs _, hs, hsame⟩
  | str =>
    simp only [run, hs.display?_eq]
    exact ⟨promised_like _ fun _ => .ok, hs, hsame⟩
  | num => exact ⟨toNumber_like hs _, hs, hsame⟩
  | type =>
    simp only [run, hs.typeName_eq]
    exact ⟨.ok, hs, hsame⟩
  | push =>
    simp only [run, pushElement]
    split
    · simp only [hs.elements_eq]
      exact ⟨.ok, hs.modifyArray _ _, hsame⟩
    · exact ⟨wrongArgument_like hs _ _ _, hs, hsame⟩
  | pop =>
    simp only [run, popElement]
    split
    · simp only [hs.elements_eq]
      split
      · exact ⟨.ok, hs.modifyArray _ _, hsame⟩
      · exact ⟨.error (.error .unlocated), hs, hsame⟩
    · exact ⟨wrongArgument_like hs _ _ _, hs, hsame⟩
  | copy =>
    simp only [run]
    obtain ⟨w, t, t', heq, heq', ht⟩ | ⟨f, heq, heq'⟩ := hs.clone? (args.headD .none)
    · rw [heq, heq']
      exact ⟨.ok, ht, hsame⟩
    · rw [heq, heq']
      exact ⟨.error .fault, hs, hsame⟩
  | error =>
    simp only [run, hs.display?_eq]
    exact ⟨promised_like _ fun _ => .error (.error .unlocated), hs, hsame⟩
  | randomSeed =>
    simp only [run, seedRandom]
    split
    · exact ⟨.ok, hs, err, rfl, herr⟩
    · exact ⟨wrongArgument_like hs _ _ _, hs, hsame⟩
  | sqrt => exact ⟨ofNumber_like hs _ (squareRoot_like hs) _, hs, hsame⟩
  | floor | abs => exact ⟨ofNumber_like hs _ (fun _ => .ok) _, hs, hsame⟩
  | fails e => exact ⟨.error (.error (.given (hop e rfl))), hs, hsame⟩
  | failsPlain => exact ⟨.error .plain, hs, hsame⟩
  | missing => exact ⟨.error .fault, hs, hsame⟩
  | script => exact ⟨.ok, hs, hsame⟩

/-! ## Going on -/

namespace Machine.Beside

variable {more : Option (List Stmt)} {d d' : Distances} {m m' : Machine} (h : m.Beside L more d d' m')

include h

theorem proceed {c c' : Control} (hc : c.Like L c') : (m.proceed c).Like L more d d' (m'.proceed c') :=
  ⟨⟨h.waits, h.env, h.depth, h.store, h.console, h.table, h.table'⟩, hc⟩

theorem push {p p' : Pending} (hp : p.Like L p') {c c' : Control} (hc : c.Like L c') :
    (m.push p c).Like L more d d' (m'.push p' c') :=
  ⟨⟨.part hp h.waits, h.env, h.depth, h.store, h.console, h.table, h.table'⟩, hc⟩

theorem give (v : Value) : (m.give v).Like L more d d' (m'.give v) := h.proceed .give

theorem complete (c : Completion) : (m.complete c).Like L more d d' (m'.complete c) := h.proceed .complete

theorem halt {halt halt' : Halt} (hh : halt.Like L halt') :
    (m.halt halt).Like L more d d' (m'.halt halt') := h.proceed (.halt hh)

theorem fail {e e' : RuntimeError} (he : e.Like L e') : (m.fail e).Like L more d d' (m'.fail e') :=
  h.halt (.error he)

theorem giveResult {r r' : Operator.Result} (hr : SameResult L r r') :
    (m.giveResult r).Like L more d d' (m'.giveResult r') := by
  cases hr with
  | ok => exact h.give _
  | error hh => exact h.halt hh

theorem withStore {s s' : Store} (hs : s.Like L s') :
    Machine.Beside L more d d' { m with store := s } { m' with store := s' } :=
  ⟨h.waits, h.env, h.depth, hs, h.console, h.table, h.table'⟩

theorem withEnv (env : FrameId) : Machine.Beside L more d d' { m with env } { m' with env } :=
  ⟨h.waits, rfl, h.depth, h.store, h.console, h.table, h.table'⟩

theorem withPart {p p' : Pending} (hp : p.Like L p') :
    Machine.Beside L more d d' { m with pending := p :: m.pending } { m' with pending := p' :: m'.pending } :=
  ⟨.part hp h.waits, h.env, h.depth, h.store, h.console, h.table, h.table'⟩

/-! ## Names -/

theorem read {id id' : NodeId} {t t' : Token} (hid : d'.find? id' = d.find? id) (ht : t.Like L t') :
    SameResult L (m.read id t) (m'.read id' t') := by
  unfold Machine.read Store.getAt Store.get
  dsimp only
  rw [h.table, h.table', hid, ht.lexeme_eq]
  cases d.find? id with
  | some distance =>
    simp only [h.env, h.store.resembles.target_eq]
    cases m.store.target m.env distance t.lexeme with
    | error f => exact .error .fault
    | ok found =>
      obtain ⟨f, v⟩ := found
      cases v with
      | unset => exact .error (.error (ht.fault _ _))
      | _ => exact .ok
  | none =>
    simp only [h.store.resembles.owner?_eq, h.store.resembles.frame_eq]
    cases (m.store.owner? t.lexeme Store.globals Store.globals).bind
        fun g => (m.store.frame g).lookup? t.lexeme with
    | none => exact .error (.error (ht.fault _ _))
    | some v =>
      cases v with
      | unset => exact .error (.error (ht.fault _ _))
      | _ => exact .ok

theorem destination {id id' : NodeId} {t t' : Token} (hid : d'.find? id' = d.find? id) (ht : t.Like L t') :
    SameResult L (m.destination id t) (m'.destination id' t') := by
  unfold Machine.destination
  rw [h.table, h.table', hid, ht.lexeme_eq]
  cases d.find? id with
  | some distance =>
    simp only [h.env, h.store.resembles.target_eq]
    cases m.store.target m.env distance t.lexeme with
    | error f => exact .error .fault
    | ok found => exact .ok
  | none =>
    simp only [Store.assignee, h.store.resembles.owner?_eq, h.store.resembles.frame_eq]
    split
    · exact .error (by
        unfold assignError
        rw [ht.lexeme_eq]
        exact .error (ht.fault _ _))
    · split
      · exact .error (by
          unfold assignError
          rw [ht.lexeme_eq]
          exact .error (ht.fault _ _))
      · exact .ok

theorem assign {id id' : NodeId} {t t' : Token} (hid : d'.find? id' = d.find? id) (ht : t.Like L t')
    (v result : Value) : (m.assign id t v result).Like L more d d' (m'.assign id' t' v result) := by
  have hdestination := h.destination hid ht
  unfold Machine.assign
  generalize m.destination id t = r at hdestination ⊢
  generalize m'.destination id' t' = r' at hdestination ⊢
  cases hdestination with
  | ok =>
    dsimp only
    rw [ht.lexeme_eq]
    exact (h.withStore (h.store.put _ _ _)).proceed .give
  | error hh => exact h.halt hh

theorem define {t t' : Token} (ht : t.Like L t') (v : Value) :
    (m.define t v).Like L more d d' (m'.define t' v) := by
  unfold Machine.define
  rw [h.store.binds_eq, h.env, ht.lexeme_eq]
  split
  · exact h.fail (ht.fault _ _)
  · exact ((h.withStore (h.store.add _ _)).withEnv m.env).proceed .complete

/-! ## Statements -/

theorem sequence {stmts stmts' : List Stmt} (hs : List.Forall₂ (Stmt.Like L) stmts stmts') :
    (m.sequence stmts).Like L more d d' (m'.sequence stmts') := by
  cases hs with
  | nil => exact h.complete _
  | cons hs hrest => exact h.push (.sequence hrest) (.exec hs)

theorem enterScope : m.enterScope.Beside L more d d' m'.enterScope := by
  unfold Machine.enterScope Store.newFrame
  dsimp only
  rw [h.env, h.store.frames_eq]
  refine ⟨.part .restore h.waits, rfl, h.depth, ?_, h.console, h.table, h.table'⟩
  have hpushed := h.store.pushFrame { parent := some m.env }
  rw [h.store.frames_eq] at hpushed
  exact hpushed

theorem forTest {c c' u u' : Option Expr} {b b' : Stmt} (hc : Option.Rel (Expr.Like L) c c')
    (hu : Option.Rel (Expr.Like L) u u') (hb : b.Like L b') :
    (m.forTest c u b).Like L more d d' (m'.forTest c' u' b') := by
  cases hc with
  | none => exact h.push (.forBody .none hu hb) (.exec hb)
  | some hc => exact h.push (.forTest (.some hc) hu hb) (.eval hc)

theorem forStep {c c' u u' : Option Expr} {b b' : Stmt} (hc : Option.Rel (Expr.Like L) c c')
    (hu : Option.Rel (Expr.Like L) u u') (hb : b.Like L b') :
    (m.forStep c u b).Like L more d d' (m'.forStep c' u' b') := by
  cases hu with
  | none => exact h.forTest hc .none hb
  | some hu => exact h.push (.forStep hc (.some hu) hb) (.eval hu)

theorem newFunction {f f' : Closure} (hf : f.Like L f') {t t' : Token} (ht : t.Like L t') :
    ({ m with store := (m.store.newFunction f).2 }.define t (m.store.newFunction f).1).Like L more d d'
      ({ m' with store := (m'.store.newFunction f').2 }.define t' (m'.store.newFunction f').1) := by
  obtain ⟨hv, hstore⟩ := h.store.newFunction hf
  rw [hv]
  exact (h.withStore hstore).define ht _

theorem newClass {c c' : Class} (hc : c.Like L c') {t t' : Token} (ht : t.Like L t') :
    ({ m with store := (m.store.newClass c).2 }.define t (m.store.newClass c).1).Like L more d d'
      ({ m' with store := (m'.store.newClass c').2 }.define t' (m'.store.newClass c').1) := by
  obtain ⟨hv, hstore⟩ := h.store.newClass hc
  rw [hv]
  exact (h.withStore hstore).define ht _

theorem exec {s s' : Stmt} (hs : s.Like L s') : (m.exec s).Like L more d d' (m'.exec s') := by
  cases hs with
  | expression he => exact h.push .discard (.eval he)
  | print hp he => exact h.push (.print hp) (.eval he)
  | declare ht hv =>
    cases hv with
    | none => exact h.define ht _
    | some he => exact h.push (.declare ht) (.eval he)
  | block hbody => exact h.enterScope.sequence hbody
  | branch hc hy hn => exact h.push (.branch hy hn) (.eval hc)
  | loop hc hb => exact h.push (.loopTest hc hb) (.eval hc)
  | forLoop hs hc hu hb =>
    cases hs with
    | none => exact h.enterScope.forTest hc hu hb
    | some hs => exact h.enterScope.push (.forStart hc hu hb) (.exec hs)
  | leave | skip => exact h.complete _
  | result hv =>
    cases hv with
    | none => exact h.complete _
    | some he => exact h.push .result (.eval he)
  | function hd =>
    obtain ⟨ht, hps, hbody⟩ := hd
    refine h.newFunction ?_ ht
    exact ⟨ht.lexeme_eq, hps, hbody, h.env, rfl⟩
  | classDecl ht hfs hms =>
    refine h.newClass ⟨ht.lexeme_eq, ?_, hfs, h.env⟩ ht
    refine List.forall₂_map_left_iff.2 (List.forall₂_map_right_iff.2 (hms.imp ?_))
    intro f f' hf
    obtain ⟨ht, hps, hbody⟩ := hf
    exact ⟨ht.lexeme_eq, hps, hbody, h.env, congrArg (· == Class.initName) ht.lexeme_eq⟩

end Machine.Beside

/-! ## Calls -/

namespace Machine

/-- Parameters alike are bound to the same values, or refused at corresponding places. -/
theorem bindParams_like {ps ps' : List Token} (h : List.Forall₂ (Token.Like L) ps ps') :
    ∀ (done : List Binding) (vs : List Value),
      (∃ bindings, bindParams done ps vs = .ok bindings ∧ bindParams done ps' vs = .ok bindings) ∨
        ∃ e e', bindParams done ps vs = .error e ∧ bindParams done ps' vs = .error e' ∧ e.Like L e' := by
  induction h with
  | nil => exact fun done _ => .inl ⟨done, rfl, rfl⟩
  | @cons p p' ps ps' hp _ ih =>
    intro done vs
    cases vs with
    | nil => exact .inl ⟨done, rfl, rfl⟩
    | cons v vs =>
      simp only [bindParams, hp.lexeme_eq]
      split
      · exact .inr ⟨_, _, rfl, rfl, hp.fault _ _⟩
      · exact ih _ vs

theorem signature?_like {s s' : Store} (h : s.Like L s') (v : Value) : signature? s' v = signature? s v := by
  cases v with
  | function f =>
    exact h.functions.map_eq (fun _ _ hf => by rw [hf.name, hf.params.length_eq]) f
  | classRef c => exact h.classes.map_eq (fun _ _ hc => by rw [hc.name, hc.arity_eq]) c
  | native n => simp only [signature?, h.natives_eq]
  | _ => rfl

theorem refusal?_like {s s' : Store} (h : s.Like L s') (v : Value) (count : Nat) :
    refusal? s' v count = refusal? s v count := by
  unfold refusal?
  rw [signature?_like h, h.typeName_eq]

namespace Beside

variable {more : Option (List Stmt)} {d d' : Distances} {m m' : Machine} (h : m.Beside L more d d' m')

include h

theorem callClosure {f f' : Closure} (hf : f.Like L f') (args : List Value) :
    (m.callClosure f args).Like L more d d' (m'.callClosure f' args) := by
  unfold Machine.callClosure
  obtain ⟨bindings, heq, heq'⟩ | ⟨e, e', heq, heq', he⟩ := bindParams_like hf.params [] args
  · rw [heq, heq']
    dsimp only
    rw [hf.env, h.env]
    have hsize : m'.store.frames.size = m.store.frames.size := by rw [h.store.frames_eq]
    refine Beside.sequence ?_ hf.body
    exact ⟨.part (.body hf) h.waits, hsize, h.depth, h.store.pushFrame _, h.console, h.table, h.table'⟩
  · rw [heq, heq']
    exact h.fail he

theorem setUp {cls cls' : Class} (hcls : cls.Like L cls') (object : InstanceId) (args : List Value) :
    (m.setUp object cls args).Like L more d d' (m'.setUp object cls' args) := by
  have hinit := hcls.method? Class.initName
  unfold Machine.setUp
  generalize cls.method? Class.initName = f at hinit ⊢
  generalize cls'.method? Class.initName = f' at hinit ⊢
  cases hinit with
  | none => exact h.give _
  | some hf =>
    obtain ⟨hbound, hstore⟩ := h.store.bind hf object
    exact ((h.withStore hstore).withPart .construct).callClosure hbound args

theorem initFields {cls cls' : Class} (hcls : cls.Like L cls') (object : InstanceId) (args : List Value)
    {fields fields' : List Field} (hfields : List.Forall₂ (Field.Like L) fields fields') :
    (m.initFields object cls args fields).Like L more d d' (m'.initFields object cls' args fields') := by
  cases hfields with
  | nil => exact h.setUp hcls object args
  | cons hf hrest =>
    obtain ⟨ht, he⟩ := hf
    simp only [Machine.initFields, hcls.env, h.env, Field.name, ht]
    exact ((h.withPart (.field hrest hcls)).withEnv cls.env).proceed (.eval he)

theorem runScript {script : Script} (hscript : ∀ e, script.Raises e → L.given e) :
    (m.runScript script).Like L more d d' (m'.runScript script) := by
  induction script with
  | give v => exact h.give v
  | fail e => exact h.fail (.given (hscript e .fail))
  | failPlain message => exact h.halt .plain
  | look array next ih =>
    have hspread : spread m'.store array = spread m.store array := by
      cases array with
      | array a => simp only [spread, h.store.elements_eq]
      | _ => rfl
    simp only [Machine.runScript, hspread]
    exact ih _ fun e he => hscript e (.look he)
  | call callee args rescues next ih =>
    exact h.push (.callback fun v e he => hscript e (.call he)) .call

theorem callNative {op : NativeOp} (hop : ∀ e, op.Raises e → L.given e) (args : List Value) :
    (m.callNative op args).Like L more d d' (m'.callNative op args) := by
  unfold Machine.callNative
  split
  · rename_i run
    exact h.runScript fun e he => hop e ⟨args, he⟩
  · obtain ⟨hresult, hstore, hconsole⟩ := NativeOp.run_like h.store h.console op hop args
    refine ⟨⟨h.waits, h.env, h.depth, hstore, hconsole, h.table, h.table'⟩, ?_⟩
    dsimp only
    generalize (op.run args ⟨m.store, m.console⟩).1 = r at hresult ⊢
    generalize (op.run args ⟨m'.store, m'.console⟩).1 = r' at hresult ⊢
    cases hresult with
    | ok => exact .give
    | error hh => exact .halt hh

/-- The state of a call that was counted. -/
theorem enterCall (name : Bytes) (count : Nat) :
    (∃ n n', m.enterCall name count = .ok n ∧ m'.enterCall name count = .ok n' ∧
        n.Beside L more d d' n') ∨
      ∃ e, m.enterCall name count = .error e ∧ m'.enterCall name count = .error e ∧ e.Like L e := by
  unfold Machine.enterCall
  rw [h.depth]
  split
  · exact .inr ⟨_, rfl, rfl, .unlocated⟩
  · refine .inl ⟨_, _, rfl, rfl, .depart h.waits, h.env, rfl, h.store, ?_, h.table, h.table'⟩
    obtain ⟨err, hconsole, herr⟩ := h.console
    simp only [hconsole, Console.log]
    split
    · exact ⟨_, rfl, L.logged _ _ herr _⟩
    · exact ⟨_, rfl, herr⟩

theorem invoke (callee : Value) (args : List Value) :
    (m.invoke callee args).Like L more d d' (m'.invoke callee args) := by
  unfold Machine.invoke
  rw [refusal?_like h.store, signature?_like h.store]
  split
  · exact h.fail .unlocated
  · dsimp only
    obtain ⟨n, n', heq, heq', hn⟩ | ⟨e, heq, heq', he⟩ :=
      h.enterCall (((signature? m.store callee).map Prod.fst).getD []) args.length
    · rw [heq, heq']
      dsimp only
      cases callee with
      | function f =>
        have hf := hn.store.functions.get f
        dsimp only
        generalize n.store.functions[f]? = x at hf ⊢
        generalize n'.store.functions[f]? = x' at hf ⊢
        cases hf with
        | none => exact hn.give _
        | some hf => exact hn.callClosure hf args
      | classRef c =>
        have hc := hn.store.classes.get c
        obtain ⟨hobject, hstore⟩ := hn.store.newInstance c
        dsimp only
        generalize n.store.classes[c]? = x at hc ⊢
        generalize n'.store.classes[c]? = x' at hc ⊢
        cases hc with
        | none => exact hn.give _
        | some hcls =>
          dsimp only
          rw [hobject]
          exact (hn.withStore hstore).initFields hcls _ args hcls.fields
      | native i =>
        dsimp only
        rw [hn.store.natives_eq]
        split
        · rename_i native hnative
          exact hn.callNative (hn.store.given native (Array.mem_of_getElem? hnative)) args
        · exact hn.give _
      | _ => exact hn.give _
    · rw [heq, heq']
      exact h.fail he

theorem callAt {t t' : Token} (ht : t.Like L t') (callee : Value) (args : List Value) :
    (m.callAt t callee args).Like L more d d' (m'.callAt t' callee args) := by
  unfold Machine.callAt
  rw [refusal?_like h.store, signature?_like h.store]
  split
  · exact h.fail (ht.fault _ _)
  · exact h.push (.site ht) .call

end Beside

end Machine

/-! ## Expressions -/

/-- The tables agree on a use of a name, if there is one. -/
def Distances.Agree (L : Likeness) (d d' : Distances) (use : Option (NodeId × Token)) : Prop :=
  ∀ id name, use = some (id, name) → ∀ id', L.ids id id' → d'.find? id' = d.find? id

namespace Machine.Beside

variable {more : Option (List Stmt)} {d d' : Distances} {m m' : Machine} (h : m.Beside L more d d' m')

include h

theorem eval {e e' : Expr} (he : e.Like L e')
    (hagree : Distances.Agree L d d' { m with control := .eval e }.touches) :
    (m.eval e).Like L more d d' (m'.eval e') := by
  cases he with
  | literal ht =>
    simp only [Machine.eval, ht.literal_eq]
    exact h.give _
  | group _ he => exact h.proceed (.eval he)
  | unary ht he => exact h.push (.unary ht) (.eval he)
  | binary ht hl hr => exact h.push (.left ht hr) (.eval hl)
  | logical _ hl hr => exact h.push (.logical hr) (.eval hl)
  | ternary ht hc hy hn => exact h.push (.ternary ht hy hn) (.eval hc)
  | ident hid ht | this hid ht =>
    obtain ⟨v, heq, heq'⟩ | ⟨halt, halt', heq, heq', hh⟩ := (h.read (hagree _ _ rfl _ hid) ht).elim
    · simp only [Machine.eval, heq, heq']
      exact h.give v
    · simp only [Machine.eval, heq, heq']
      exact h.halt hh
  | assign hid ht he => exact h.push (.assign hid ht) (.eval he)
  | compound hid ht hu he =>
    obtain ⟨v, heq, heq'⟩ | ⟨halt, halt', heq, heq', hh⟩ := (h.read (hagree _ _ rfl _ hid) ht).elim
    · simp only [Machine.eval, heq, heq']
      exact h.push (.compound hid ht hu) (.eval he)
    · simp only [Machine.eval, heq, heq']
      exact h.halt hh
  | @update _ _ _ _ op _ _ _ hid ht hu =>
    have hid := hagree _ _ rfl _ hid
    obtain ⟨v, heq, heq'⟩ | ⟨halt, halt', heq, heq', hh⟩ := (h.read hid ht).elim
    · simp only [Machine.eval, heq, heq']
      obtain ⟨w, heq, heq'⟩ | ⟨halt, halt', heq, heq', hh⟩ := (Operator.step_like h.store hu op v).elim
      · simp only [heq, heq']
        exact h.assign hid ht _ _
      · simp only [heq, heq']
        exact h.halt hh
    · simp only [Machine.eval, heq, heq']
      exact h.halt hh
  | updateIndex ho ht hi hu => exact h.push (.indexed ht hi (.step hu)) (.eval ho)
  | updateGet ho ht hu => exact h.push (.property ht (.step hu)) (.eval ho)
  | call hc ht hargs => exact h.push (.callee ht hargs) (.eval hc)
  | @lambda _ _ _ _ params params' body body' ht hps hbody =>
    have hf : Closure.Like L { name := text "lambda", params, body, env := m.env }
        { name := text "lambda", params := params', body := body', env := m'.env } :=
      ⟨rfl, hps, hbody, h.env, rfl⟩
    obtain ⟨hv, hstore⟩ := h.store.newFunction hf
    simp only [Machine.eval]
    rw [hv]
    exact (h.withStore hstore).proceed .give
  | array ht hes =>
    cases hes with
    | nil =>
      obtain ⟨hv, hstore⟩ := h.store.newArray #[]
      simp only [Machine.eval]
      rw [hv]
      exact (h.withStore hstore).proceed .give
    | cons he hrest => exact h.push (.element hrest) (.eval he)
  | index ho ht hi => exact h.push (.indexed ht hi .read) (.eval ho)
  | get ho ht => exact h.push (.property ht .read) (.eval ho)
  | set ho ht he => exact h.push (.property ht (.write he)) (.eval ho)

theorem useElement {t t' : Token} (ht : t.Like L t') (object index : Value) {use use' : ElementUse}
    (huse : use.Like L use') :
    (m.useElement t object index use).Like L more d d' (m'.useElement t' object index use') := by
  unfold Machine.useElement
  obtain ⟨⟨a, i⟩, heq, heq'⟩ | ⟨halt, halt', heq, heq', hh⟩ :=
    (Operator.element_like h.store ht object index).elim
  · rw [heq, heq']
    dsimp only
    rw [h.store.elements_eq]
    cases huse with
    | read => exact h.give _
    | @step op _ _ _ hu =>
      obtain ⟨w, heq, heq'⟩ | ⟨halt, halt', heq, heq', hh⟩ :=
        (Operator.step_like h.store hu op (((m.store.elements a)[i]?).getD .none)).elim
      · simp only [heq, heq']
        exact (h.withStore (h.store.modifyArray _ _)).proceed .give
      · simp only [heq, heq']
        exact h.halt hh
  · rw [heq, heq']
    exact h.halt hh

omit h in
theorem noProperty_like {t t' : Token} (ht : t.Like L t') : (noProperty t).Like L (noProperty t') := by
  unfold noProperty
  rw [ht.lexeme_eq]
  exact ht.fault _ _

theorem noFields_like {t t' : Token} (ht : t.Like L t') (v : Value) :
    (noFields m.store t v).Like L (noFields m'.store t' v) := by
  unfold noFields
  rw [h.store.typeName_eq]
  exact ht.fault _ _

theorem readProperty {t t' : Token} (ht : t.Like L t') (v : Value) :
    (m.readProperty t v).Like L more d d' (m'.readProperty t' v) := by
  cases v with
  | object i =>
    obtain ⟨hv, hstore⟩ := h.store.property i t.lexeme
    simp only [Machine.readProperty, ht.lexeme_eq]
    generalize m.store.property i t.lexeme = r at hv hstore ⊢
    generalize m'.store.property i t.lexeme = r' at hv hstore ⊢
    obtain ⟨v, s⟩ := r
    obtain ⟨v', s'⟩ := r'
    obtain rfl : v' = v := hv
    cases v' with
    | none => exact (h.withStore hstore).fail (noProperty_like ht)
    | some v => exact (h.withStore hstore).proceed .give
  | host i =>
    simp only [Machine.readProperty, ht.lexeme_eq, h.store.hosts_eq]
    split
    · exact h.give _
    · exact h.fail (noProperty_like ht)
  | hollow hollow =>
    cases hollow with
    | host => exact h.fail (noProperty_like ht)
    | object => exact h.halt .fault
    | _ =>
      simp only [Machine.readProperty, h.store.typeName_eq]
      exact h.fail (ht.fault _ _)
  | _ =>
    simp only [Machine.readProperty, h.store.typeName_eq]
    exact h.fail (ht.fault _ _)

theorem stepProperty {t t' u u' : Token} (ht : t.Like L t') (hu : u.Like L u') (op : StepOp) (before : Bool)
    (v : Value) : (m.stepProperty t op u before v).Like L more d d' (m'.stepProperty t' op u' before v) := by
  cases v with
  | object i =>
    obtain ⟨hv, hstore⟩ := h.store.property i t.lexeme
    simp only [Machine.stepProperty, ht.lexeme_eq]
    generalize m.store.property i t.lexeme = r at hv hstore ⊢
    generalize m'.store.property i t.lexeme = r' at hv hstore ⊢
    obtain ⟨v, s⟩ := r
    obtain ⟨v', s'⟩ := r'
    obtain rfl : v' = v := hv
    cases v' with
    | none => exact (h.withStore hstore).fail (noProperty_like ht)
    | some current =>
      obtain ⟨w, heq, heq'⟩ | ⟨halt, halt', heq, heq', hh⟩ := (Operator.step_like hstore hu op current).elim
      · simp only [heq, heq']
        exact (h.withStore (hstore.putField _ _ _)).proceed .give
      · simp only [heq, heq']
        exact (h.withStore hstore).halt hh
  | _ => exact h.fail (h.noFields_like ht _)

theorem print {p p' : Position} (hp : L.places p p') (shown : ByteArray) :
    (m.print p shown).Like L more d d' (m'.print p' shown) := by
  obtain ⟨err, hconsole, herr⟩ := h.console
  unfold Machine.print
  rw [show m'.console.out = m.console.out by rw [hconsole]]
  split
  · refine ⟨⟨h.waits, h.env, h.depth, h.store, ⟨err, ?_, herr⟩, h.table, h.table'⟩, .complete⟩
    simp only [hconsole]
  · exact h.fail (.located hp)

/-! ## Handing on -/

theorem resumeValue {p p' : Pending} (hp : p.Like L p') (v : Value)
    (hagree : Distances.Agree L d d' { m with control := .give v, pending := p :: m.pending }.touches) :
    (m.resumeValue p v).Like L more d d' (m'.resumeValue p' v) := by
  cases hp with
  | unary ht => exact h.giveResult (Operator.unary_like h.store ht _ v)
  | left ht he => exact h.push (.right ht) (.eval he)
  | right ht => exact h.giveResult (Operator.binary_like h.store ht _ _ v)
  | logical he =>
    simp only [Machine.resumeValue]
    split
    · exact h.give v
    · exact h.give v
    · exact h.proceed (.eval he)
  | ternary ht hy hn =>
    simp only [Machine.resumeValue, h.store.typeName_eq]
    split
    · split
      · exact h.proceed (.eval hy)
      · exact h.proceed (.eval hn)
    · exact h.fail (ht.fault _ _)
  | assign hid ht => exact h.assign (hagree _ _ rfl _ hid) ht v v
  | @compound _ _ _ _ op _ _ current hid ht hu =>
    obtain ⟨w, heq, heq'⟩ | ⟨halt, halt', heq, heq', hh⟩ :=
      (Operator.compound_like h.store hu op current v).elim
    · simp only [Machine.resumeValue, heq, heq']
      exact h.assign (hagree _ _ rfl _ hid) ht _ _
    · simp only [Machine.resumeValue, heq, heq']
      exact h.halt hh
  | indexed ht he hu => exact h.push (.index ht hu) (.eval he)
  | index ht hu => exact h.useElement ht _ v hu
  | property ht hu =>
    cases hu with
    | read => exact h.readProperty ht v
    | step hu => exact h.stepProperty ht hu _ _ v
    | write he =>
      simp only [Machine.resumeValue]
      split
      · exact h.push (.write ht) (.eval he)
      · exact h.fail (h.noFields_like ht _)
  | write ht =>
    simp only [Machine.resumeValue, ht.lexeme_eq]
    exact (h.withStore (h.store.putField _ _ _)).proceed .give
  | callee ht hargs =>
    cases hargs with
    | nil => exact h.callAt ht v []
    | cons he hrest => exact h.push (.argument ht hrest) (.eval he)
  | argument ht hrest =>
    cases hrest with
    | nil => exact h.callAt ht _ _
    | cons he hrest => exact h.push (.argument ht hrest) (.eval he)
  | @element done _ _ hrest =>
    cases hrest with
    | nil =>
      obtain ⟨hv, hstore⟩ := h.store.newArray (done.push v)
      simp only [Machine.resumeValue]
      rw [hv]
      exact (h.withStore hstore).proceed .give
    | cons he hrest => exact h.push (.element hrest) (.eval he)
  | callback hnext => exact h.runScript (hnext (some v))
  | field hrest hcls =>
    exact ((h.withStore (h.store.putField _ _ _)).withEnv _).initFields hcls _ _ hrest
  | print hp =>
    simp only [Machine.resumeValue, h.store.display?_eq]
    split
    · exact h.halt .fault
    · exact h.print hp _
  | declare ht => exact h.define ht v
  | branch hy hn =>
    simp only [Machine.resumeValue]
    split
    · exact h.proceed (.exec hy)
    · cases hn with
      | none => exact h.complete _
      | some hs => exact h.proceed (.exec hs)
  | loopTest hc hb =>
    simp only [Machine.resumeValue]
    split
    · exact h.push (.loopBody hc hb) (.exec hb)
    · exact h.complete _
  | forTest hc hu hb =>
    simp only [Machine.resumeValue]
    split
    · exact h.push (.forBody hc hu hb) (.exec hb)
    · exact h.complete _
  | forStep hc hu hb => exact h.forTest hc hu hb
  | construct => exact h.give _
  | result | discard => exact h.complete _
  | site | body | loopBody | forStart | forBody | sequence | restore => exact h.give v

theorem finishBody {f f' : Closure} (hf : f.Like L f') (c : Completion) :
    (m.finishBody f c).Like L more d d' (m'.finishBody f' c) := by
  have hreceiver : m'.store.getAt f.env 0 Store.receiverName = m.store.getAt f.env 0 Store.receiverName :=
    h.store.proj (fun s => s.getAt f.env 0 Store.receiverName) fun _ _ => rfl
  cases c with
  | leave | skip =>
    simp only [Machine.finishBody, hf.name]
    exact h.halt .plain
  | normal | result =>
    simp only [Machine.finishBody, hf.isInit, hf.env, hreceiver]
    split
    · split
      · exact h.give _
      · exact h.halt .fault
    · exact h.give _

theorem resumeCompletion {p p' : Pending} (hp : p.Like L p') (c : Completion) :
    (m.resumeCompletion p c).Like L more d d' (m'.resumeCompletion p' c) := by
  cases hp with
  | sequence hrest =>
    cases c with
    | normal => exact h.sequence hrest
    | leave | skip | result => exact h.complete _
  | @restore env => exact (h.withEnv env).complete c
  | @body _ _ env hf => exact (h.withEnv env).finishBody hf c
  | loopBody hc hb =>
    cases c with
    | normal | skip => exact h.push (.loopTest hc hb) (.eval hc)
    | leave | result => exact h.complete _
  | forStart hc hu hb => exact h.forTest hc hu hb
  | forBody hc hu hb =>
    cases c with
    | normal | skip => exact h.forStep hc hu hb
    | leave | result => exact h.complete _
  | _ => exact h.complete c

theorem unwind {p p' : Pending} (hp : p.Like L p') {halt halt' : Halt} (hh : halt.Like L halt') :
    (m.unwind p halt).Like L more d d' (m'.unwind p' halt') := by
  cases hp with
  | site ht => exact h.halt (hh.atCall ht _)
  | @callback rescues next hnext =>
    cases hh with
    | error he =>
      cases rescues with
      | true => exact h.runScript (hnext none)
      | false => exact h.halt (.error he)
    | plain =>
      cases rescues with
      | true => exact h.runScript (hnext none)
      | false => exact h.halt .plain
    | fault => exact h.halt .fault
  | @restore env => exact (h.withEnv env).halt hh
  | @body _ _ env => exact (h.withEnv env).halt hh
  | @field _ _ _ _ _ _ _ env => exact (h.withEnv env).halt hh
  | _ => exact h.halt hh

end Machine.Beside

/-! ## Steps and runs -/

/-- The next step leaves the program: all of it is done, or it has failed. -/
def Machine.Leaving (m : Machine) : Prop :=
  m.control = .complete .normal ∧ m.pending = [.program []] ∨
    ∃ halt rest, m.control = .halt halt ∧ m.pending = [.program rest]

/-- What is handed on is what is waited for, and nothing leaves the top level. -/
structure Machine.Routed (m : Machine) : Prop where
  top : ∀ c, m.control = .complete c →
    (m.pending = [] ∨ ∃ rest more, m.pending = .program rest :: more) → c = .normal
  give : ∀ v p rest, m.control = .give v → m.pending = p :: rest → p.takesValue = true
  complete : ∀ c p rest, m.control = .complete c → m.pending = p :: rest → p.takesValue = false

theorem Machine.Fits.routed {programs : List (List Stmt)} {labels : List Region} {hosted : Bool} {m : Machine}
    (h : m.Fits programs labels hosted) : m.Routed :=
  ⟨h.directed.top, h.directed.give, h.directed.complete⟩

namespace Machine.Like

variable {more : Option (List Stmt)} {d d' : Distances} {m m' : Machine}

/-- Machines alike take steps alike, if the tables agree on the name that the step uses. Only the end of the
first program may part them. -/
theorem step (h : m.Like L more d d' m') (hagree : d.Agree L d' m.touches) (hrouted : m.Routed)
    (hleaving : m.Leaving → more = none) : m.step.Like L more d d' m'.step := by
  obtain ⟨control, pending, env, depth, store, console, distances⟩ := m
  obtain ⟨control', pending', env', depth', store', console', distances'⟩ := m'
  obtain ⟨⟨hwaits, henv, hdepth, hstore, hconsole, htable, htable'⟩, hcontrol⟩ := h
  obtain rfl : env' = env := henv
  obtain rfl : depth' = depth := hdepth
  have hbeside : ∀ {depth ps ps'}, Waits L more depth ps ps' →
      Machine.Beside L more d d' ⟨control, ps, env', depth, store, console, distances⟩
        ⟨control', ps', env', depth, store', console', distances'⟩ :=
    fun hwaits => ⟨hwaits, rfl, rfl, hstore, hconsole, htable, htable'⟩
  cases hcontrol with
  | eval he => exact (hbeside hwaits).eval he hagree
  | exec hs => exact (hbeside hwaits).exec hs
  | call => exact (hbeside hwaits).invoke _ _
  | @give v =>
    cases hwaits with
    | nothing hmore => exact (hbeside (.nothing hmore)).give v
    | program => cases hrouted.give v _ _ rfl rfl
    | part hp hwaits => exact (hbeside hwaits).resumeValue hp v hagree
    | depart hwaits => exact (hbeside hwaits).give v
  | @complete c =>
    cases hwaits with
    | nothing hmore => exact (hbeside (.nothing hmore)).complete c
    | program hrest =>
      obtain rfl := hrouted.top c rfl (.inr ⟨_, _, rfl⟩)
      cases hrest with
      | nil =>
        obtain rfl := hleaving (.inl ⟨rfl, rfl⟩)
        exact (hbeside (.nothing rfl)).complete .normal
      | cons hs hrest => exact (hbeside (.program hrest)).proceed (.exec hs)
    | part hp hwaits => exact (hbeside hwaits).resumeCompletion hp c
    | depart => cases hrouted.complete c _ _ rfl rfl
  | halt hh =>
    cases hwaits with
    | nothing hmore => exact (hbeside (.nothing hmore)).halt hh
    | program => exact (hbeside (.nothing (hleaving (.inr ⟨_, _, rfl, rfl⟩)))).halt hh
    | part hp hwaits => exact (hbeside hwaits).unwind hp hh
    | depart hwaits => exact (hbeside hwaits).halt hh

/-- Nothing waits in the one machine exactly if nothing waits in the other. -/
theorem isFinal_eq (h : m.Like L more d d' m') : m'.isFinal = m.isFinal := by
  obtain ⟨control, pending, env, depth, store, console, distances⟩ := m
  obtain ⟨control', pending', env', depth', store', console', distances'⟩ := m'
  obtain ⟨⟨hwaits, -, -, -, -, -, -⟩, hcontrol⟩ := h
  cases hwaits with
  | nothing => cases hcontrol <;> rfl
  | program | part | depart => rfl

/-- If there is more to come, the first program is not over. -/
theorem not_isFinal {stmts : List Stmt} (h : m.Like L (some stmts) d d' m') : m.isFinal = false := by
  obtain ⟨control, pending, env, depth, store, console, distances⟩ := m
  obtain ⟨control', pending', env', depth', store', console', distances'⟩ := m'
  obtain ⟨⟨hwaits, -, -, -, -, -, -⟩, -⟩ := h
  cases hwaits with
  | nothing hmore => cases hmore
  | program | part | depart => rfl

end Machine.Like

/-- The tables agree on all uses of names in the programs. -/
def Distances.AgreeOn (programs : List (List Stmt)) (L : Likeness) (d d' : Distances) : Prop :=
  ∀ Γ e id name, Here programs Γ (.expr e) → e.use? = some (id, name) → ∀ id', L.ids id id' →
    d'.find? id' = d.find? id

namespace Machine.Like

variable {programs : List (List Stmt)} {hosted : Bool} {more : Option (List Stmt)} {d d' : Distances}

/-- Machines alike stay alike, as long as the first program is not left while the second one has more to do.
By induction on the number of steps; the types of the first machine are kept along. -/
theorem steps (hagree : d.AgreeOn programs L d') (n : Nat) : ∀ {labels : List Region} {m m' : Machine},
    m.Like L more d d' m' → m.Fits programs labels hosted →
      (∀ k < n, (m.steps k).Leaving → more = none) → (m.steps n).Like L more d d' (m'.steps n) := by
  induction n with
  | zero => exact fun h _ _ => h
  | succ n ih =>
    intro labels m m' h hfits hleaving
    have huse : d.Agree L d' m.touches := by
      intro id name ht
      obtain ⟨Γ, e, he, -, huse⟩ := hfits.touches ht
      exact hagree Γ e id _ he huse
    have hstep := h.step huse hfits.routed (hleaving 0 (Nat.succ_pos n))
    exact ih hstep hfits.step fun k hk => hleaving (k + 1) (Nat.succ_lt_succ hk)

variable {labels : List Region} {m m' : Machine}

/-- Runs of machines alike end alike, or not at all. -/
theorem run (h : m.Like L none d d' m') (hagree : d.AgreeOn programs L d')
    (hfits : m.Fits programs labels hosted) : Option.Rel (Machine.Like L none d d') m.run m'.run := by
  refine run_rel (fun n => ?_) fun _ _ hlike => hlike.isFinal_eq
  exact h.steps hagree n hfits fun _ _ _ => rfl

/-- A run that ends leaves its program; up to there a program with more to do goes along. -/
theorem leaving {stmts : List Stmt} {final : Machine} (h : m.Like L (some stmts) d d' m')
    (hagree : d.AgreeOn programs L d') (hfits : m.Fits programs labels hosted) (hrun : m.run = some final) :
    ∃ n, (m.steps n).Leaving ∧ (m.steps n).Like L (some stmts) d d' (m'.steps n) := by
  classical
  obtain ⟨hfinal, last, rfl⟩ := run_eq_some_iff.1 hrun
  have hexists : ∃ n, (m.steps n).Leaving := by
    by_contra hnone
    have hlast := h.steps hagree last hfits fun k _ hk => absurd ⟨k, hk⟩ hnone
    rw [hlast.not_isFinal] at hfinal
    cases hfinal
  refine ⟨Nat.find hexists, Nat.find_spec hexists, ?_⟩
  exact h.steps hagree _ hfits fun k hk hleaving => absurd hleaving (Nat.find_min hexists hk)

end Machine.Like

end Treewalk
