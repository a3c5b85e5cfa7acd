import Treewalk.Proofs.Machine.Direct
import Treewalk.Proofs.Numeral.Whole
import Treewalk.Proofs.Session.Honest
import Treewalk.Proofs.Session.Written

/-!
# Calls of the list functions: the state

A call of `map`, `filter` or `reduce` is followed from the call to its return (`Walk`). What is known of the callback is
that it gives a value each time the function calls it and leaves the array alone; it may run any code and change
anything else. So what the function relies on is kept where the callback cannot get at it: in the frames of the call and
of its loop, and in the new array, which nothing else in the heap leads to (`Walk.Holds`, `Walk.InLoop`).

`Walk.Path` is a way from the call to a state, with the calls that the function has made so far. The lemmas here read
the names of the library, ask for the length, read an element and call the callback in such a state.
-/

namespace Treewalk

/-! ## Counting -/

/-- An index below the length names its element. -/
theorem Operator.element_ofNat {s : Store} {a : ArrayId} {k : Nat} (hsmall : (s.elements a).size < 2 ^ 53)
    (hk : k < (s.elements a).size) (bracket : Token) : element s bracket (.array a) (.ofNat k) = .ok (a, k) := by
  have hk' : k < 2 ^ 53 := hk.trans hsmall
  have hleast : ¬ Float.ofNat k < 0 := fun hlt => Nat.not_lt_zero k ((Whole.ofNat_lt hk' (by decide)).1 hlt)
  have hmost : ¬ Float.ofNat k ≥ Float.ofNat (s.elements a).size := fun hle =>
    Nat.not_le.2 hk ((Whole.ofNat_le hsmall hk').1 hle)
  have hindex : elementIndex? (Float.ofNat k) (s.elements a).size = some k := by
    simp [elementIndex?, hleast, hmost, Whole.toUInt64_ofNat hk']
  have hwhole : (Value.number (Float.ofNat k)).isIntegral = true := Whole.isIntegral_ofNat hk'
  simp only [element, Value.ofNat, hwhole, if_true, hindex]

theorem Operator.less_ofNat {k n : Nat} (hsmall : n < 2 ^ 53) (hk : k ≤ n) (s : Store) (token : Token) :
    binary s (.compare .less) token (.ofNat k) (.ofNat n) = .ok (.bool (k < n)) := by
  have hless := Whole.ofNat_lt (hk.trans_lt hsmall) hsmall
  simp only [binary, compare, Value.ofNat, toNumber?, order, hless]

/-! ## Names -/

theorem Value.native_ne_unset (k : NativeId) : Value.native k ≠ .unset := by
  rintro ⟨⟩

theorem Value.array_ne_unset (a : ArrayId) : Value.array a ≠ .unset := by
  rintro ⟨⟩

theorem Value.ofNat_ne_unset (n : Nat) : Value.ofNat n ≠ .unset := by
  rintro ⟨⟩

section

variable {m : Machine} {next : NodeId} {table : Distances} {e : Expr} {name : Bytes} {v : Value}

theorem Expr.eq_of_reads {at? : Option Nat} (h : e.reads next table = some (name, at?)) : ∃ id token,
    e = .ident id token ∧ id < next ∧ token.lexeme = name ∧ table.find? id = at? := by
  unfold reads at h
  split at h
  · rename_i id token
    split_ifs at h with hid
    cases h
    exact ⟨id, token, rfl, hid, rfl, rfl⟩
  · cases h

theorem Machine.read_local {id : NodeId} {token : Token} {d : Nat} {f : FrameId}
    (hdistance : m.distances.find? id = some d) (hancestor : m.store.ancestor? m.env d = some f)
    (hvalue : (m.store.frame f).lookup? token.lexeme = some v) (hset : v ≠ .unset) :
    m.read id token = .ok v := by
  have hget : m.store.getAt m.env d token.lexeme = .ok v := by
    simp [Store.getAt, Store.target, hancestor, hvalue, Except.map]
  unfold read
  rw [hdistance]
  simp only [hget, Except.mapError]
  split
  · rename_i heq
    cases heq
    exact absurd rfl hset
  · rfl

theorem Machine.read_global {id : NodeId} {token : Token} (hdistance : m.distances.find? id = none)
    (hvalue : (m.store.frame Store.globals).lookup? token.lexeme = some v) (hset : v ≠ .unset) :
    m.read id token = .ok v := by
  have hbinds : m.store.binds Store.globals token.lexeme = true := by
    obtain ⟨b, hb, -⟩ := Option.map_eq_some_iff.1 hvalue
    simp [Store.binds, hb]
  have howner : m.store.owner? token.lexeme Store.globals Store.globals = some Store.globals := by
    show m.store.owner? token.lexeme 0 0 = some 0
    exact if_pos hbinds
  have hget : m.store.get Store.globals token.lexeme = .ok v := by
    simp [Store.get, howner, hvalue]
  unfold read
  rw [hdistance]
  simp only [hget, Except.mapError]
  split
  · rename_i heq
    cases heq
    exact absurd rfl hset
  · rfl

end


/-- What can be called stays what it is. -/
theorem Store.Extends.signature? {w : Set (FrameId × Bytes)} {s s' : Store} (h : s.Extends w s') {v : Value}
    {p : Bytes × Nat} (hv : Machine.signature? s v = some p) : Machine.signature? s' v = some p := by
  cases v with
  | function f =>
    obtain ⟨c, hc, rfl⟩ := Option.map_eq_some_iff.1 hv
    simp [Machine.signature?, h.functions f c hc]
  | classRef c =>
    obtain ⟨cls, hcls, rfl⟩ := Option.map_eq_some_iff.1 hv
    simp [Machine.signature?, h.classes c cls hcls]
  | native k =>
    unfold Machine.signature? at hv ⊢
    rwa [h.natives]
  | _ => cases hv

/-! ## Calls of the library -/

namespace ListFunction

/-- The arguments of a call. -/
def args (array fn init : Value) : ListFunction → List Value
  | map | filter => [array, fn]
  | reduce => [array, fn, init]

/-- How many arguments the callback takes. -/
def arity : ListFunction → Nat
  | map | filter => 1
  | reduce => 2

/-- The arguments of the callback, from the progress so far and the next element. -/
def handed : ListFunction → List Value → Value → List Value
  | map, _, x | filter, _, x => [x]
  | reduce, s, x => s ++ [x]

/-- The progress after the callback gave `r`. -/
def advance : ListFunction → List Value → Value → Value → List Value
  | map, s, _, r => s ++ [r]
  | filter, s, x, r => if r.isTruthy then s ++ [x] else s
  | reduce, _, _, r => [r]

/-- The native that gives the length. -/
def length : Value := .native 2

/-- The native that adds an element. -/
def push : Value := .native 6

/-- The call that asks for the length of an array with `n` elements. -/
def asked (array : ArrayId) (n : Nat) : Call := ⟨length, [.array array], .ofNat n⟩

/-- The call that adds an element to an array with `n` elements. -/
def added (out : ArrayId) (n : Nat) (v : Value) : Call := ⟨push, [.array out, v], .ofNat (n + 1)⟩

/-- The calls of a round in which the callback gives `r`. -/
def roundCalls (F : ListFunction) (fn : Value) (out : ArrayId) (s : List Value) (x r : Value) : List Call :=
  ⟨fn, F.handed s x, r⟩ :: match F with
    | map => [added out s.length r]
    | filter => if r.isTruthy then [added out s.length x] else []
    | reduce => []

/-- The calls of the loop over an array with `n` elements, from elements that are left and what the callback gives for
each of them. -/
def loopCalls (F : ListFunction) (fn : Value) (array out : ArrayId) (n : Nat) :
    List Value → List (Value × Value) → List Call
  | _, [] => [asked array n]
  | s, (x, r) :: rest =>
    asked array n :: (F.roundCalls fn out s x r ++ F.loopCalls fn array out n (F.advance s x r) rest)

/-- The progress after these elements. -/
def progress (F : ListFunction) (s : List Value) (rounds : List (Value × Value)) : List Value :=
  rounds.foldl (fun s p => F.advance s p.1 p.2) s

end ListFunction

/-- A call of a function of the library: the state in which it is made, with what is known of it. -/
structure Walk where
  kind : ListFunction
  array : ArrayId
  fn : Value
  /-- The first value of a fold; the others do without it. -/
  init : Value
  call : Machine
  programs : List (List Stmt)
  hosted : Bool
  interpreter : Interpreter
  next : NodeId
  table : Distances
  honest : Honest programs (.running hosted interpreter call)
  known : ∀ id < next, call.distances.find? id = table.find? id
  callee : FunctionId
  source : Function
  written : kind.isWritten next table source = true
  function : call.store.functions[callee]? = some source.closure
  calls : call.control = .call (.function callee) (kind.args (.array array) fn init)
  room : call.depth + 2 ≤ Machine.maxDepth
  callable : Machine.refusal? call.store fn kind.arity = none
  small : (call.store.elements array).size < 2 ^ 53
  returns : ∀ calls c args, Machine.Calls call.pending call.step calls c → c.control = .call fn args →
    ∃ n v, c.Ends c.pending n ∧ (c.steps n).control = .give v ∧
      (c.steps n).store.elements array = c.store.elements array

namespace Walk

variable (W : Walk)

/-- The elements of the array. -/
def elements : Array Value := W.call.store.elements W.array

/-- The frame of the call. -/
def locals : FrameId := W.call.store.frames.size

/-- The frame of the loop. -/
def header : FrameId := W.locals + 1

/-- The new array. -/
def out : ArrayId := W.call.store.arrays.size

/-- The array that only the call gets at. -/
def hidden : Set ArrayId :=
  match W.kind with
  | .map | .filter => {W.out}
  | .reduce => ∅

/-- What the call binds, when its result is `v`. -/
def bindings (v : Value) : List Binding :=
  (W.kind.params.zip (W.kind.args (.array W.array) W.fn W.init) ++ [(W.kind.result, v)]).map fun b =>
    { name := b.1, value := b.2 }

/-- How the progress is kept: as the elements of the new array, or as the result itself. -/
def Stores (store : Store) (s : List Value) (v : Value) : Prop :=
  match W.kind with
  | .map | .filter => v = .array W.out ∧ (store.elements W.out).toList = s
  | .reduce => s = [v] ∧ v ≠ .unset ∧ store.Shows ∅ v

/-- The call has come this far: the array is as it was, and the result is kept in a frame that only the call gets at,
besides frames in `X`. -/
structure Holds (X : Set FrameId) (s : List Value) (store : Store) (depth : Nat) : Prop where
  hides : store.Hides X W.hidden
  elements : store.elements W.array = W.elements
  mem : W.locals ∈ X
  depth : depth = W.call.depth + 1
  stores : ∃ v, W.Stores store s v ∧
    store.frame W.locals = { parent := some Store.globals, bindings := W.bindings v }

/-- The loop has come to this index. -/
structure InLoop (X : Set FrameId) (s : List Value) (k : Nat) (store : Store) (depth : Nat) : Prop
    extends W.Holds X s store depth where
  header_mem : W.header ∈ X
  header : store.frame W.header = { parent := some W.locals, bindings := [{ name := text "i", value := .ofNat k }] }

/-- The call has got to a state, and has made these calls. -/
def Path (calls : List Call) (m : Machine) : Prop := Machine.Calls W.call.pending W.call.step calls m

end Walk

section

variable {W : Walk} {X : Set FrameId} {s : List Value} {k : Nat} {m m' : Machine} {calls more : List Call}

namespace Walk

/-! ## What stays -/

theorem Path.trans (h : W.Path calls m) (h' : Machine.Calls W.call.pending m more m') : W.Path (calls ++ more) m' :=
  Machine.Calls.trans h h'

theorem Path.andThen (h : W.Path calls m) (h' : Machine.Calls W.call.pending m [] m') : W.Path calls m' := by
  have := h.trans h'
  rwa [List.append_nil] at this

/-- A step that begins no call. -/
theorem Path.code (h : W.Path calls m) (hinner : m.control.IsOutcome → W.call.pending.length < m.pending.length)
    (hcode : ¬ m.control.IsCall) (hstep : m.step = m') : W.Path calls m' :=
  h.andThen (.code hinner hcode hstep)

theorem Path.honest (h : W.Path calls m) : Honest W.programs (.running W.hosted W.interpreter m) := by
  obtain ⟨n, rfl⟩ := Machine.Calls.steps h
  exact W.honest.step.steps n

end Walk

namespace Walk

/-! ## What names come to -/

/-- What the library needs of the heap and of the table of distances. -/
structure Knows (W : Walk) (store : Store) (distances : Distances) : Prop where
  distances : ∀ id < W.next, distances.find? id = W.table.find? id
  bound : ∀ name v, (name, v) ∈ Interpreter.protections → (store.frame Store.globals).lookup? name = some v
  natives : ∀ (k : NativeId) n, Interpreter.standard.store.natives[k]? = some n → store.natives[k]? = some n

theorem Path.knows (h : W.Path calls m) : W.Knows m.store m.distances := by
  refine ⟨fun id hid => ?_, fun name v hv => ?_, h.honest.keeps.1.natives⟩
  · obtain ⟨n, rfl⟩ := Machine.Calls.steps h
    rw [← W.known id hid, Machine.steps_distances, Machine.step_distances]
  · rw [Frame.lookup?, show (m.store.frame Store.globals).find? name = _ from h.honest.bound hv]
    rfl

namespace Knows

theorem yields_local (h : W.Knows m.store m.distances) {e : Expr} {name : Bytes} {d : Nat} {f : FrameId} {v : Value}
    (he : e.reads W.next W.table = some (name, some d)) (hancestor : m.store.ancestor? m.env d = some f)
    (hvalue : (m.store.frame f).lookup? name = some v) (hset : v ≠ .unset) : m.Yields e v := by
  obtain ⟨id, token, rfl, hid, rfl, hdistance⟩ := Expr.eq_of_reads he
  exact Machine.yields_ident (Machine.read_local ((h.distances id hid).trans hdistance) hancestor hvalue hset)

theorem yields_global (h : W.Knows m.store m.distances) {e : Expr} {name : Bytes} {v : Value}
    (he : e.reads W.next W.table = some (name, none)) (hv : (name, v) ∈ Interpreter.protections) (hset : v ≠ .unset) :
    m.Yields e v := by
  obtain ⟨id, token, rfl, hid, rfl, hdistance⟩ := Expr.eq_of_reads he
  exact Machine.yields_ident (Machine.read_global ((h.distances id hid).trans hdistance) (h.bound _ v hv) hset)

theorem yields_length (h : W.Knows m.store m.distances) {e : Expr}
    (he : e.reads W.next W.table = some (text "len", none)) : m.Yields e ListFunction.length :=
  h.yields_global he (Interpreter.mem_protections (n := ("len", 1, .len)) rfl) (Value.native_ne_unset 2)

theorem yields_push (h : W.Knows m.store m.distances) {e : Expr}
    (he : e.reads W.next W.table = some (text "push", none)) : m.Yields e ListFunction.push :=
  h.yields_global he (Interpreter.mem_protections (n := ("push", 2, .push)) rfl) (Value.native_ne_unset 6)

/-- A native is called with as many arguments as it takes. -/
theorem allowed {store : Store} {table : Distances} (h : W.Knows store table) {k : Nat} {n : String × Nat × NativeOp}
    (hn : Interpreter.natives[k]? = some n) : Machine.refusal? store (.native k) n.2.1 = none := by
  simp [Machine.refusal?, Machine.signature?, h.natives k _ (Interpreter.standard_native hn)]

end Knows

/-- An expression without calls is evaluated. -/
theorem Path.yield {p : Pending} {e : Expr} {v : Value} (h : W.Path calls (m.push p (.eval e))) (hv : m.Yields e v)
    (hbase : W.call.pending.length ≤ m.pending.length) : W.Path calls (m.push p (.give v)) :=
  h.andThen (hv _ (p :: m.pending) (Nat.le_succ_of_le hbase))

/-- What waits for a value gets it. -/
theorem Path.value {p : Pending} {v : Value} (h : W.Path calls (m.push p (.give v)))
    (hbase : W.call.pending.length ≤ m.pending.length) : W.Path calls ((m.proceed (.give v)).resumeValue p v) :=
  h.code (fun _ => Nat.lt_succ_of_le hbase) not_false rfl

/-- What waits for a completion gets it. -/
theorem Path.completion {p : Pending} {c : Completion} (h : W.Path calls (m.push p (.complete c)))
    (hbase : W.call.pending.length ≤ m.pending.length) :
    W.Path calls ((m.proceed (.complete c)).resumeCompletion p c) :=
  h.code (fun _ => Nat.lt_succ_of_le hbase) not_false rfl

theorem lookup_array (W : Walk) (p : Option FrameId) (v : Value) :
    Frame.lookup? { parent := p, bindings := W.bindings v } (text "arr") = some (.array W.array) := by
  unfold bindings
  cases W.kind <;> rfl

theorem lookup_callback (W : Walk) (p : Option FrameId) (v : Value) :
    Frame.lookup? { parent := p, bindings := W.bindings v } W.kind.callback = some W.fn := by
  unfold bindings
  cases W.kind <;> rfl

theorem lookup_result (W : Walk) (p : Option FrameId) (v : Value) :
    Frame.lookup? { parent := p, bindings := W.bindings v } W.kind.result = some v := by
  unfold bindings
  cases W.kind <;> rfl

/-- Another result makes no other difference. -/
theorem put_result (W : Walk) (p : Option FrameId) (v w : Value) :
    Frame.put { parent := p, bindings := W.bindings v } W.kind.result w =
      { parent := p, bindings := W.bindings w } := by
  unfold bindings
  cases W.kind <;> rfl

/-- The array is not the one that is made. -/
theorem array_lt (W : Walk) : W.array < W.call.store.arrays.size := by
  have hmem : Value.array W.array ∈ W.kind.args (.array W.array) W.fn W.init := by
    cases W.kind <;> exact List.mem_cons_self
  exact ((W.honest.shows W.calls).2 _ hmem).2

/-- What can be called is a value. -/
theorem fn_ne_unset (W : Walk) : W.fn ≠ .unset := by
  intro hunset
  have := W.callable
  rw [hunset] at this
  cases this

theorem Stores.ne_unset {store : Store} {v : Value} (h : W.Stores store s v) : v ≠ .unset := by
  unfold Stores at h
  cases hkind : W.kind <;> simp only [hkind] at h
  · exact h.1 ▸ Value.array_ne_unset _
  · exact h.1 ▸ Value.array_ne_unset _
  · exact h.2.1

theorem array_not_hidden (W : Walk) : W.array ∉ W.hidden := by
  have hne : W.array ≠ W.out := Nat.ne_of_lt W.array_lt
  unfold hidden
  cases W.kind with
  | map | filter => exact hne
  | reduce => exact id

end Walk

namespace Walk

/-! ## The head of the loop -/

/-- The frame of the loop is inside that of the call. -/
theorem InLoop.parent (h : W.InLoop X s k m.store m.depth) :
    m.store.ancestor? W.header 1 = some W.locals := by
  simp [Store.ancestor?, h.header]

/-- The length of the array is asked. -/
theorem Holds.call_length (h : W.Holds X s m.store m.depth) {paren : Token} {name : Bytes}
    (hbase : W.call.pending.length ≤ m.pending.length)
    (hpath : W.Path calls (m.push (.site paren name) (.call ListFunction.length [.array W.array]))) :
    ∃ console, W.Path (calls ++ [ListFunction.asked W.array W.elements.size])
      { m with control := .give (.ofNat W.elements.size), console } := by
  have hroom : m.depth < Machine.maxDepth := by
    have := W.room
    rw [h.depth]
    omega
  obtain ⟨console, hcalls⟩ := Machine.Calls.native paren name [.array W.array] m.store hbase
    (hpath.knows.natives 2 _ (Interpreter.standard_native (n := ("len", 1, .len)) rfl)) rfl hroom (by rintro run ⟨⟩)
    (v := .ofNat W.elements.size) fun console => by
      rw [← h.elements]
      rfl
  exact ⟨console, hpath.trans hcalls⟩

/-- The array, the callback and the result are read in the frame of the call, at the distance of that frame. -/
theorem Holds.yields_array (h : W.Holds X s m.store m.depth) (hknows : W.Knows m.store m.distances) {d : Nat}
    (hd : m.store.ancestor? m.env d = some W.locals) {e : Expr}
    (he : e.reads W.next W.table = some (text "arr", some d)) : m.Yields e (.array W.array) := by
  obtain ⟨v, -, hframe⟩ := h.stores
  exact hknows.yields_local he hd (by rw [hframe, lookup_array]) (Value.array_ne_unset _)

theorem Holds.yields_callback (h : W.Holds X s m.store m.depth) (hknows : W.Knows m.store m.distances) {d : Nat}
    (hd : m.store.ancestor? m.env d = some W.locals) {e : Expr}
    (he : e.reads W.next W.table = some (W.kind.callback, some d)) : m.Yields e W.fn := by
  obtain ⟨v, -, hframe⟩ := h.stores
  exact hknows.yields_local he hd (by rw [hframe, lookup_callback]) W.fn_ne_unset

theorem Holds.yields_result (h : W.Holds X s m.store m.depth) (hknows : W.Knows m.store m.distances) {d : Nat}
    (hd : m.store.ancestor? m.env d = some W.locals) {e : Expr}
    (he : e.reads W.next W.table = some (W.kind.result, some d)) :
    ∃ v, W.Stores m.store s v ∧ m.Yields e v := by
  obtain ⟨v, hstores, hframe⟩ := h.stores
  exact ⟨v, hstores, hknows.yields_local he hd (by rw [hframe, lookup_result]) hstores.ne_unset⟩

/-- The index is read in the frame of the loop. -/
theorem InLoop.yields_index (h : W.InLoop X s k m.store m.depth) (hknows : W.Knows m.store m.distances) {d : Nat}
    (hd : m.store.ancestor? m.env d = some W.header) {e : Expr}
    (he : e.reads W.next W.table = some (text "i", some d)) : m.Yields e (.ofNat k) :=
  hknows.yields_local he hd (by rw [h.header]; rfl) (Value.ofNat_ne_unset k)

/-- The loop goes on as long as there are elements. -/
theorem InLoop.asks (h : W.InLoop X s k m.store m.depth) (henv : m.env = W.header) (hk : k ≤ W.elements.size)
    (hbase : W.call.pending.length ≤ m.pending.length) {id callId : NodeId} {token paren : Token}
    {index length array : Expr} (hindex : index.reads W.next W.table = some (text "i", some 0))
    (hlength : length.reads W.next W.table = some (text "len", none))
    (harray : array.reads W.next W.table = some (text "arr", some 1))
    (hpath : W.Path calls
      (m.proceed (.eval (.binary id (.compare .less) token index (.call callId length paren [array]))))) :
    ∃ console, W.Path (calls ++ [ListFunction.asked W.array W.elements.size])
      { m with control := .give (.bool (k < W.elements.size)), console } := by
  have hindexed := h.yields_index hpath.knows (by rw [henv]; rfl) hindex
  have harrayed := h.yields_array hpath.knows (by rw [henv, h.parent]) harray
  have h₁ : W.Path calls (m.push (.left (.compare .less) token (.call callId length paren [array])) (.eval index)) :=
    hpath.code False.elim not_false rfl
  have h₂ : W.Path calls
      (m.push (.right (.compare .less) token (.ofNat k)) (.eval (.call callId length paren [array]))) :=
    (h₁.yield hindexed hbase).value hbase
  let inner : Machine := { m with pending := .right (.compare .less) token (.ofNat k) :: m.pending }
  have hallowed : Machine.refusal? inner.store ListFunction.length 1 = none :=
    hpath.knows.allowed (n := ("len", 1, .len)) rfl
  obtain ⟨name, hreach⟩ := Machine.Calls.reach (m := inner) callId paren (Nat.le_succ_of_le hbase)
    (hpath.knows.yields_length (m := inner) hlength) harrayed .nil hallowed
  obtain ⟨console, h₃⟩ := Holds.call_length (m := inner) h.toHolds (Nat.le_succ_of_le hbase) (h₂.andThen hreach)
  refine ⟨console, ?_⟩
  have h₄ := Path.value (m := { m with console }) (p := .right (.compare .less) token (.ofNat k)) h₃ hbase
  have hless : Operator.binary m.store (.compare .less) token (.ofNat k) (.ofNat W.elements.size) =
      .ok (.bool (k < W.elements.size)) := Operator.less_ofNat W.small hk m.store token
  have hcompare : ({ m with control := .give (.ofNat W.elements.size), console } : Machine).resumeValue
      (.right (.compare .less) token (.ofNat k)) (.ofNat W.elements.size) =
        { m with control := .give (.bool (k < W.elements.size)), console } := by
    show Machine.giveResult _ (Operator.binary m.store (.compare .less) token (.ofNat k) (.ofNat W.elements.size)) = _
    rw [hless]
    rfl
  rw [← hcompare]
  exact h₄

/-! ## The callback -/

theorem Path.extends (h : W.Path calls m) : W.call.store.Extends Set.univ m.store := by
  obtain ⟨n, rfl⟩ := Machine.Calls.steps h
  exact (W.call.steps_extends (n + 1)).mono (Set.subset_univ _)

/-- What was there before the call is not hidden in it. -/
theorem Path.shows (h : W.Path calls m) {v : Value} (hv : W.call.store.Shows ∅ v) : m.store.Shows W.hidden v := by
  cases v with
  | array a =>
    refine ⟨fun ha => ?_, hv.2.trans_le h.extends.arrays⟩
    have hne : a ≠ W.out := Nat.ne_of_lt hv.2
    unfold hidden at ha
    cases hkind : W.kind <;> rw [hkind] at ha
    · exact hne ha
    · exact hne ha
    · exact ha
  | _ => trivial

theorem fn_shows (W : Walk) : W.call.store.Shows ∅ W.fn := by
  refine (W.honest.shows W.calls).2 _ ?_
  cases W.kind <;> simp [ListFunction.args]

/-- What could be called can still be called. -/
theorem Path.callable (h : W.Path calls m) : Machine.refusal? m.store W.fn W.kind.arity = none := by
  obtain ⟨name, hsignature⟩ := Machine.signature?_of_refusal? W.callable
  simp [Machine.refusal?, h.extends.signature? hsignature]

theorem Stores.mono {store store' : Store} {v : Value} (h : W.Stores store s v)
    (hsize : store.arrays.size ≤ store'.arrays.size) (hkept : ∀ a ∈ W.hidden, store'.elements a = store.elements a) :
    W.Stores store' s v := by
  unfold Stores hidden at *
  cases hkind : W.kind <;> simp only [hkind] at h hkept ⊢
  · exact ⟨h.1, by rw [hkept W.out rfl, h.2]⟩
  · exact ⟨h.1, by rw [hkept W.out rfl, h.2]⟩
  · exact ⟨h.1, h.2.1, h.2.2.mono hsize⟩

/-- The callback gives a value and leaves alone what only the call gets at. -/
theorem Holds.call_back (h : W.Holds X s m.store m.depth) {args : List Value}
    (hargs : ∀ v ∈ args, m.store.Shows W.hidden v) {paren : Token} {name : Bytes}
    (hbase : W.call.pending.length ≤ m.pending.length)
    (hpath : W.Path calls (m.push (.site paren name) (.call W.fn args))) :
    ∃ (m' : Machine) (r : Value), W.Path (calls ++ [⟨W.fn, args, r⟩]) (m'.proceed (.give r)) ∧ m'.env = m.env ∧
      m'.pending = m.pending ∧
      W.Holds X s m'.store m'.depth ∧ (∀ f ∈ X, m'.store.frame f = m.store.frame f) ∧ r ≠ .unset ∧
      m'.store.Shows W.hidden r := by
  let c := m.push (.site paren name) (.call W.fn args)
  obtain ⟨n, r, hends, hgive, helements⟩ := W.returns calls c args hpath rfl
  obtain ⟨hides, hframes, harrays, hshows⟩ := hends.hides rfl h.hides (hpath.shows W.fn_shows) hargs
  obtain ⟨henv, hdepth⟩ := hends.restores (fun houtcome => houtcome)
  have hgrown := c.steps_extends n
  have hreturned : W.Path (calls ++ [⟨W.fn, args, r⟩]) (c.steps n) := hpath.trans (.call rfl hends hgive (.here _))
  have hset : r ≠ .unset := hreturned.honest.hands (.give hgive)
  have hpending : (c.steps n).pending = .site paren name :: m.pending := hends.meets.1
  have hstate : c.steps n = Machine.push { c.steps n with pending := m.pending } (.site paren name) (.give r) := by
    unfold Machine.push
    rw [← hpending, ← hgive]
  refine ⟨{ c.steps n with pending := m.pending }, r, ?_, henv, rfl, ?_, hframes, hset, hshows r hgive⟩
  · rw [hstate] at hreturned
    exact hreturned.andThen (.pass hbase)
  · obtain ⟨v, hstores, hlocals⟩ := h.stores
    refine ⟨hides, helements.trans h.elements, h.mem, hdepth.trans h.depth, v,
      hstores.mono hgrown.arrays harrays, ?_⟩
    exact (hframes _ h.mem).trans hlocals

/-- An element of the array is read. -/
theorem Holds.yields_element (h : W.Holds X s m.store m.depth) {id : NodeId} {array index : Expr} {bracket : Token}
    {x : Value} (harray : m.Yields array (.array W.array)) (hindex : m.Yields index (.ofNat k))
    (hx : W.elements[k]? = some x) : m.Yields (.index id array bracket index) x := by
  have hk : k < W.elements.size := (Array.getElem?_eq_some_iff.1 hx).1
  have helements : m.store.elements W.array = W.elements := h.elements
  have helement : Operator.element m.store bracket (.array W.array) (.ofNat k) = .ok (W.array, k) := by
    refine Operator.element_ofNat ?_ ?_ bracket
    · rw [helements]
      exact W.small
    · rw [helements]
      exact hk
  have := Machine.yields_index id harray hindex helement
  rwa [helements, hx] at this

theorem Holds.element_shows (h : W.Holds X s m.store m.depth) {x : Value}
    (hx : W.elements[k]? = some x) : m.store.Shows W.hidden x := by
  refine h.hides.element W.array_not_hidden ?_
  rw [h.elements]
  exact Array.mem_of_getElem? hx

end Walk

end

end Treewalk
