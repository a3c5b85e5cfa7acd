import Treewalk.Proofs.Session.Walk

/-!
# Calls of the list functions: the loop

One round of the loop takes the next element: `map` calls the callback and adds what it gives, `filter` calls it and
adds the element if that counts as true, and `reduce` calls it with what it has come to and keeps what it gives. Each
round leaves the loop one index further, with the progress that `ListFunction.advance` says (`Walk.InLoop.round`,
`Walk.InLoop.counts`).

**Main result** (`Walk.InLoop.loop`). From any index on, the loop takes one round for each element that is left and
ends; the proof is by induction on how many are left.
-/

namespace Treewalk

namespace ListFunction

variable {next : NodeId} {table : Distances} {body : Stmt}

theorem of_isRound_map (h : map.isRound next table body = true) :
    ∃ pos id push paren out id' fn paren' id'' array bracket index,
      body = .expression pos (.call id push paren [out, .call id' fn paren' [.index id'' array bracket index]]) ∧
      push.reads next table = some (text "push", none) ∧ out.reads next table = some (text "out", some 1) ∧
      fn.reads next table = some (text "fn", some 1) ∧ array.reads next table = some (text "arr", some 1) ∧
      index.reads next table = some (text "i", some 0) := by
  unfold isRound at h
  split at h
  · exact ⟨_, _, _, _, _, _, _, _, _, _, _, _, rfl, of_decide_eq_true h⟩
  all_goals simp_all

theorem of_isRound_filter (h : filter.isRound next table body = true) :
    ∃ pos pos' id fn paren id' array bracket index pos'' id'' push paren' out id₃ array' bracket' index',
      body = .block pos [.branch pos' (.call id fn paren [.index id' array bracket index])
        (.expression pos'' (.call id'' push paren' [out, .index id₃ array' bracket' index'])) none] ∧
      fn.reads next table = some (text "pred", some 2) ∧ array.reads next table = some (text "arr", some 2) ∧
      index.reads next table = some (text "i", some 1) ∧ push.reads next table = some (text "push", none) ∧
      out.reads next table = some (text "out", some 2) ∧ array'.reads next table = some (text "arr", some 2) ∧
      index'.reads next table = some (text "i", some 1) := by
  unfold isRound at h
  split at h
  · simp_all
  · exact ⟨_, _, _, _, _, _, _, _, _, _, _, _, _, _, _, _, _, _, rfl, of_decide_eq_true h⟩
  all_goals simp_all

theorem of_isRound_reduce (h : reduce.isRound next table body = true) :
    ∃ pos id name id' fn paren acc id'' array bracket index,
      body = .expression pos (.assign id name (.call id' fn paren [acc, .index id'' array bracket index])) ∧
      (Expr.ident id name).reads next table = some (text "acc", some 1) ∧
      fn.reads next table = some (text "fn", some 1) ∧ acc.reads next table = some (text "acc", some 1) ∧
      array.reads next table = some (text "arr", some 1) ∧ index.reads next table = some (text "i", some 0) := by
  unfold isRound at h
  split at h
  · simp_all
  · simp_all
  · exact ⟨_, _, _, _, _, _, _, _, _, _, _, rfl, of_decide_eq_true h⟩
  · cases h

end ListFunction

section

variable {W : Walk} {X : Set FrameId} {s : List Value} {k : Nat} {m m' : Machine} {calls more : List Call}

namespace Walk

/-! ## The callback -/

/-- The callback leaves the loop where it is. -/
theorem InLoop.call_back (h : W.InLoop X s k m.store m.depth) {args : List Value}
    (hargs : ∀ v ∈ args, m.store.Shows W.hidden v) {paren : Token} {name : Bytes}
    (hbase : W.call.pending.length ≤ m.pending.length)
    (hpath : W.Path calls (m.push (.site paren name) (.call W.fn args))) :
    ∃ (m' : Machine) (r : Value), W.Path (calls ++ [⟨W.fn, args, r⟩]) (m'.proceed (.give r)) ∧ m'.env = m.env ∧
      m'.pending = m.pending ∧ W.InLoop X s k m'.store m'.depth ∧
      (∀ f ∈ X, m'.store.frame f = m.store.frame f) ∧ r ≠ .unset ∧ m'.store.Shows W.hidden r := by
  obtain ⟨m', r, hpath', henv, hpending, hholds, hframes, hset, hshows⟩ := h.toHolds.call_back hargs hbase hpath
  exact ⟨m', r, hpath', henv, hpending, ⟨hholds, h.header_mem, (hframes _ h.header_mem).trans h.header⟩, hframes, hset,
    hshows⟩

/-- The next element is read. -/
theorem InLoop.yields_next (h : W.InLoop X s k m.store m.depth) (hknows : W.Knows m.store m.distances) {x : Value}
    (hx : W.elements[k]? = some x) {d d' : Nat} (hd : m.store.ancestor? m.env d = some W.locals)
    (hd' : m.store.ancestor? m.env d' = some W.header) {array index : Expr}
    (harray : array.reads W.next W.table = some (text "arr", some d))
    (hindex : index.reads W.next W.table = some (text "i", some d')) (id : NodeId) (bracket : Token) :
    m.Yields (.index id array bracket index) x :=
  h.yields_element (h.yields_array hknows hd harray) (h.yields_index hknows hd' hindex) hx

/-- The callback is called with the next element. -/
theorem InLoop.tries (h : W.InLoop X s k m.store m.depth) (hbase : W.call.pending.length ≤ m.pending.length)
    {x : Value} (hx : W.elements[k]? = some x) (harity : W.kind.arity = 1) {d d' : Nat}
    (hd : m.store.ancestor? m.env d = some W.locals) (hd' : m.store.ancestor? m.env d' = some W.header)
    {fn array index : Expr} (hfn : fn.reads W.next W.table = some (W.kind.callback, some d))
    (harray : array.reads W.next W.table = some (text "arr", some d))
    (hindex : index.reads W.next W.table = some (text "i", some d')) {id id' : NodeId} {paren bracket : Token}
    (hpath : W.Path calls (m.proceed (.eval (.call id fn paren [.index id' array bracket index])))) :
    ∃ (m' : Machine) (r : Value), W.Path (calls ++ [⟨W.fn, [x], r⟩]) (m'.proceed (.give r)) ∧ m'.env = m.env ∧
      m'.pending = m.pending ∧ W.InLoop X s k m'.store m'.depth ∧
      (∀ f ∈ X, m'.store.frame f = m.store.frame f) := by
  have hallowed : Machine.refusal? m.store W.fn 1 = none := harity ▸ hpath.callable
  obtain ⟨name, hreach⟩ := Machine.Calls.reach id paren hbase
    (h.yields_callback hpath.knows hd hfn) (h.yields_next hpath.knows hx hd hd' harray hindex id' bracket) .nil hallowed
  obtain ⟨m', r, hpath', henv, hpending, hin, hframes, -, -⟩ := h.call_back (show ∀ v ∈ [x], m.store.Shows W.hidden v by
    rintro v (- | ⟨_, ⟨⟩⟩)
    exact h.element_shows hx) hbase (hpath.andThen hreach)
  exact ⟨m', r, hpath', henv, hpending, hin, hframes⟩

/-! ## The new array -/

theorem Stores.out {store : Store} {v : Value} (h : W.Stores store s v) (hkind : W.kind ≠ .reduce) :
    v = .array W.out ∧ (store.elements W.out).toList = s := by
  unfold Stores at h
  cases hreduce : W.kind <;> simp only [hreduce] at h
  · exact h
  · exact h
  · exact absurd hreduce hkind

theorem Stores.single {store : Store} {v : Value} (h : W.Stores store s v) (hkind : W.kind = .reduce) :
    s = [v] ∧ store.Shows W.hidden v := by
  unfold Stores hidden at *
  rw [hkind] at h ⊢
  exact ⟨h.1, h.2.2⟩

theorem out_hidden (hkind : W.kind ≠ .reduce) : W.out ∈ W.hidden := by
  unfold hidden
  cases hreduce : W.kind
  · rfl
  · rfl
  · exact absurd hreduce hkind

/-- An element is added to the new array. -/
theorem InLoop.adds (h : W.InLoop X s k m.store m.depth) (hkind : W.kind ≠ .reduce)
    (hbase : W.call.pending.length ≤ m.pending.length) {v : Value} {paren : Token} {name : Bytes}
    (hpath : W.Path calls (m.push (.site paren name) (.call ListFunction.push [.array W.out, v]))) :
    ∃ m' : Machine,
      W.Path (calls ++ [ListFunction.added W.out s.length v]) (m'.proceed (.give (.ofNat (s.length + 1)))) ∧
      m'.env = m.env ∧ m'.pending = m.pending ∧ W.InLoop X (s ++ [v]) k m'.store m'.depth := by
  obtain ⟨result, hstores, hlocals⟩ := h.stores
  obtain ⟨rfl, hs⟩ := hstores.out hkind
  have hsize : (m.store.elements W.out).size = s.length := by rw [← hs, Array.length_toList]
  have hroom : m.depth < Machine.maxDepth := by
    have := W.room
    rw [h.depth]
    omega
  obtain ⟨console, hcalls⟩ := Machine.Calls.native paren name [.array W.out, v]
    (m.store.modifyArray W.out (·.push v)) hbase
    (hpath.knows.natives 6 _ (Interpreter.standard_native (n := ("push", 2, .push)) rfl)) rfl hroom (by rintro run ⟨⟩)
    (v := .ofNat (s.length + 1)) fun console => by
      rw [← hsize]
      rfl
  refine ⟨{ m with store := m.store.modifyArray W.out (·.push v), console }, hpath.trans hcalls, rfl, rfl, ?_⟩
  have hin : W.out < m.store.arrays.size := h.hides.arrays _ (out_hidden hkind)
  have hne : W.out ≠ W.array := Nat.ne_of_gt W.array_lt
  refine ⟨⟨h.hides.modifyArray (out_hidden hkind) _, ?_, h.mem, h.depth, .array W.out, ?_, hlocals⟩, h.header_mem,
    h.header⟩
  · rw [← h.elements]
    simp [Store.elements, Store.modifyArray, Array.getElem?_modify, hne]
  · have hadded : ((m.store.modifyArray W.out (·.push v)).elements W.out).toList = s ++ [v] := by
      rw [← hs]
      simp [Store.elements, Store.modifyArray, Array.getElem_modify, hin]
    unfold Stores
    cases hreduce : W.kind
    · exact ⟨rfl, hadded⟩
    · exact ⟨rfl, hadded⟩
    · exact absurd hreduce hkind

/-! ## Rounds -/

/-- What waits for a value gets it. -/
theorem Path.taken {p : Pending} {rest : List Pending} {v : Value} (h : W.Path calls (m.proceed (.give v)))
    (hpending : m.pending = p :: rest) (hbase : W.call.pending.length ≤ rest.length) :
    W.Path calls (({ m with control := .give v, pending := rest } : Machine).resumeValue p v) := by
  refine h.code (fun _ => ?_) not_false ?_
  · show _ < m.pending.length
    rw [hpending]
    exact Nat.lt_succ_of_le hbase
  · unfold Machine.proceed Machine.step
    simp only [hpending]

/-- What waits for a completion gets it. -/
theorem Path.ended {p : Pending} {rest : List Pending} {c : Completion} (h : W.Path calls (m.proceed (.complete c)))
    (hpending : m.pending = p :: rest) (hbase : W.call.pending.length ≤ rest.length) :
    W.Path calls (({ m with control := .complete c, pending := rest } : Machine).resumeCompletion p c) := by
  refine h.code (fun _ => ?_) not_false ?_
  · show _ < m.pending.length
    rw [hpending]
    exact Nat.lt_succ_of_le hbase
  · unfold Machine.proceed Machine.step
    simp only [hpending]

theorem Knows.push_allowed (h : W.Knows m.store m.distances) : Machine.refusal? m.store ListFunction.push 2 = none :=
  h.allowed (n := ("push", 2, .push)) rfl

/-- A statement of the loop ends, and the loop has come this far. -/
def Completes (W : Walk) (calls : List Call) (s : List Value) (k : Nat) (m : Machine) : Prop :=
  ∃ (m' : Machine) (X : Set FrameId), W.Path calls (m'.proceed (.complete .normal)) ∧ m'.env = m.env ∧
    m'.pending = m.pending ∧ W.InLoop X s k m'.store m'.depth

variable {x : Value} {body : Stmt}

theorem InLoop.round_map (h : W.InLoop X s k m.store m.depth) (hkind : W.kind = .map) (henv : m.env = W.header)
    (hbase : W.call.pending.length ≤ m.pending.length) (hx : W.elements[k]? = some x)
    (hbody : ListFunction.map.isRound W.next W.table body = true) (hpath : W.Path calls (m.proceed (.exec body))) :
    ∃ r, W.Completes (calls ++ [⟨W.fn, [x], r⟩] ++ [ListFunction.added W.out s.length r]) (s ++ [r]) k m := by
  obtain ⟨pos, id, push, paren, out, id', fn, paren', id'', array, bracket, index, rfl, hpush, hout, hfn, harray,
    hindex⟩ := ListFunction.of_isRound_map hbody
  have hreduce : W.kind ≠ .reduce := by
    rw [hkind]
    rintro ⟨⟩
  have hlocals : m.store.ancestor? m.env 1 = some W.locals := by rw [henv, h.parent]
  have hheader : m.store.ancestor? m.env 0 = some W.header := by rw [henv]; rfl
  obtain ⟨v, hstores, hv⟩ := h.yields_result hpath.knows hlocals (by rw [hkind]; exact hout)
  obtain ⟨rfl, -⟩ := hstores.out hreduce
  -- up to the callback
  let outer : Machine := { m with pending := .discard :: m.pending }
  have h₁ : W.Path calls (outer.proceed (.eval (.call id push paren [out, .call id' fn paren'
      [.index id'' array bracket index]]))) := hpath.code False.elim not_false rfl
  have h₂ := h₁.andThen (.second (m := outer) (Nat.le_succ_of_le hbase)
    (hpath.knows.yields_push (m := outer) hpush) hv)
  let inner : Machine := { outer with pending := .argument paren ListFunction.push [.array W.out] [] :: outer.pending }
  obtain ⟨m₃, r, h₃, henv₃, hpending₃, hin₃, -⟩ := InLoop.tries (m := inner) h
    (Nat.le_succ_of_le (Nat.le_succ_of_le hbase)) hx (by rw [hkind]; rfl) hlocals hheader (by rw [hkind]; exact hfn)
    harray hindex h₂
  -- up to the native
  let last : Machine := { m₃ with pending := .discard :: m.pending }
  have h₄ : W.Path _ (last.callAt paren ListFunction.push [.array W.out, r]) :=
    h₃.taken hpending₃ (Nat.le_succ_of_le hbase)
  obtain ⟨name, hname⟩ := Machine.callAt_allowed (m := last) paren [.array W.out, r] h₃.knows.push_allowed
  rw [hname] at h₄
  obtain ⟨m₅, h₅, henv₅, hpending₅, hin₅⟩ := InLoop.adds (m := last) hin₃ hreduce (Nat.le_succ_of_le hbase) h₄
  exact ⟨r, { m₅ with pending := m.pending }, X, h₅.taken hpending₅ hbase, henv₅.trans henv₃, rfl, hin₅⟩

/-- An assignment to the result. -/
theorem Knows.assign_result (h : W.Knows m.store m.distances) (hin : W.InLoop X s k m.store m.depth)
    (hkind : W.kind = .reduce) (hlocals : m.store.ancestor? m.env 1 = some W.locals) {id : NodeId} {name : Token}
    (hname : (Expr.ident id name).reads W.next W.table = some (text "acc", some 1)) (r : Value) :
    m.assign id name r r =
      { m with store := m.store.put W.locals (text "acc") r, control := .give r } := by
  obtain ⟨id', name', heq, hid, hlexeme, hdistance⟩ := Expr.eq_of_reads hname
  cases heq
  obtain ⟨v, -, hframe⟩ := hin.stores
  have hvalue : (m.store.frame W.locals).lookup? name.lexeme = some v := by
    rw [hlexeme, hframe]
    have := W.lookup_result (some Store.globals) v
    rwa [hkind] at this
  have hdestination : m.destination id name = .ok W.locals := by
    unfold Machine.destination
    rw [(h.distances id hid).trans hdistance]
    simp [Store.target, hlocals, hvalue, Except.map, Except.mapError]
  unfold Machine.assign
  rw [hdestination, hlexeme]

/-- The result of a fold is replaced. -/
theorem InLoop.replaces (h : W.InLoop X s k m.store m.depth) (hkind : W.kind = .reduce) {r : Value} (hset : r ≠ .unset)
    (hshows : m.store.Shows W.hidden r) : W.InLoop X [r] k (m.store.put W.locals (text "acc") r) m.depth := by
  obtain ⟨v, -, hframe⟩ := h.stores
  have hlt : W.locals < m.store.frames.size := h.hides.frames _ h.mem
  have hheader : (m.store.put W.locals (text "acc") r).frame W.header = m.store.frame W.header := by
    rw [Store.put, Store.frame_change, if_neg]
    exact fun heq => Nat.ne_of_lt (Nat.lt_succ_self _) heq.1
  refine ⟨⟨h.hides.modifyFrame h.mem _, h.elements, h.mem, h.depth, r, ?_, ?_⟩, h.header_mem, hheader.trans h.header⟩
  · unfold Stores hidden at *
    rw [hkind] at hshows ⊢
    exact ⟨rfl, hset, hshows⟩
  · rw [Store.put, Store.frame_change, if_pos ⟨rfl, hlt⟩, hframe]
    have := W.put_result (some Store.globals) v r
    rwa [hkind] at this

theorem InLoop.round_reduce (h : W.InLoop X s k m.store m.depth) (hkind : W.kind = .reduce) (henv : m.env = W.header)
    (hbase : W.call.pending.length ≤ m.pending.length) (hx : W.elements[k]? = some x)
    (hbody : ListFunction.reduce.isRound W.next W.table body = true) (hpath : W.Path calls (m.proceed (.exec body))) :
    ∃ r, W.Completes (calls ++ [⟨W.fn, s ++ [x], r⟩]) [r] k m := by
  obtain ⟨pos, id, name, id', fn, paren, acc, id'', array, bracket, index, rfl, hname, hfn, hacc, harray, hindex⟩ :=
    ListFunction.of_isRound_reduce hbody
  have hlocals : m.store.ancestor? m.env 1 = some W.locals := by rw [henv, h.parent]
  have hheader : m.store.ancestor? m.env 0 = some W.header := by rw [henv]; rfl
  obtain ⟨v, hstores, hv⟩ := h.yields_result hpath.knows hlocals (by rw [hkind]; exact hacc)
  obtain ⟨rfl, hshows⟩ := hstores.single hkind
  -- up to the callback
  let inner : Machine := { m with pending := .assign id name :: .discard :: m.pending }
  have h₁ : W.Path calls ({ m with pending := .discard :: m.pending }.proceed
      (.eval (.assign id name (.call id' fn paren [acc, .index id'' array bracket index])))) := hpath.code False.elim not_false rfl
  have h₂ : W.Path calls (inner.proceed (.eval (.call id' fn paren [acc, .index id'' array bracket index]))) :=
    h₁.code False.elim not_false rfl
  have hinner : W.call.pending.length ≤ inner.pending.length := Nat.le_succ_of_le (Nat.le_succ_of_le hbase)
  have hallowed : Machine.refusal? inner.store W.fn [v, x].length = none := by
    have := hpath.callable
    rwa [hkind] at this
  obtain ⟨name', hreach⟩ := Machine.Calls.reach (m := inner) id' paren hinner
    (h.yields_callback (m := inner) hpath.knows hlocals (by rw [hkind]; exact hfn)) hv
    (.cons (h.yields_next (m := inner) hpath.knows hx hlocals hheader harray hindex id'' bracket) .nil) hallowed
  obtain ⟨m₃, r, h₃, henv₃, hpending₃, hin₃, -, hset, hshows₃⟩ := InLoop.call_back (m := inner) h (by
    rintro w (- | ⟨_, - | ⟨_, ⟨⟩⟩⟩)
    · exact hshows
    · exact h.element_shows hx) hinner (h₂.andThen hreach)
  -- up to the end
  have h₄ := h₃.taken hpending₃ (Nat.le_succ_of_le hbase)
  let last : Machine := { m₃ with control := .give r, pending := .discard :: m.pending }
  have hassign : last.assign id name r r = _ := Knows.assign_result (m := last) h₃.knows hin₃ hkind (by
    rw [henv₃.trans henv]
    exact hin₃.parent) hname r
  have h₅ : W.Path _ (last.assign id name r r) := h₄
  rw [hassign] at h₅
  refine ⟨r, { m₃ with store := m₃.store.put W.locals (text "acc") r, pending := m.pending }, X,
    Path.taken (m := { m₃ with store := m₃.store.put W.locals (text "acc") r, pending := .discard :: m.pending })
      h₅ rfl hbase, henv₃, rfl, hin₃.replaces hkind hset hshows₃⟩

/-- A block in the loop has a frame of its own, inside that of the loop. -/
theorem InLoop.enters (h : W.InLoop X s k m.store m.depth) (henv : m.env = W.header) :
    W.InLoop (insert m.store.frames.size X) s k m.enterScope.store m.enterScope.depth ∧
      m.enterScope.store.frame m.enterScope.env = { parent := some W.header } := by
  have hkept : ∀ f ∈ X, m.enterScope.store.frame f = m.store.frame f := by
    intro f hf
    have hne : f ≠ m.store.frames.size := Nat.ne_of_lt (h.hides.frames f hf)
    show Store.frame { m.store with frames := m.store.frames.push _ } f = _
    rw [Store.frame_push, if_neg hne]
  obtain ⟨v, hstores, hlocals⟩ := h.stores
  refine ⟨⟨⟨h.hides.pushFrame (Nat.zero_lt_of_lt (h.hides.frames _ h.mem)) _, h.elements, .inr h.mem, h.depth, v,
    hstores, (hkept _ h.mem).trans hlocals⟩, .inr h.header_mem, (hkept _ h.header_mem).trans h.header⟩, ?_⟩
  show Store.frame { m.store with frames := m.store.frames.push { parent := some m.env } } m.store.frames.size = _
  rw [Store.frame_push, if_pos rfl, henv]

/-- In a block in the loop, the frame of the loop is one up and that of the call is two up. -/
theorem InLoop.of_block (h : W.InLoop X s k m.store m.depth)
    (hframe : m.store.frame m.env = { parent := some W.header }) :
    m.store.ancestor? m.env 1 = some W.header ∧ m.store.ancestor? m.env 2 = some W.locals := by
  have hup : ∀ n, m.store.ancestor? m.env (n + 1) = m.store.ancestor? W.header n := by
    intro n
    show (m.store.frame m.env).parent.bind _ = _
    rw [hframe]
    rfl
  exact ⟨(hup 0).trans rfl, (hup 1).trans h.parent⟩

/-- A statement adds to the new array what an expression without calls comes to. -/
theorem InLoop.adds_yielded (h : W.InLoop X s k m.store m.depth) (hkind : W.kind ≠ .reduce)
    (hbase : W.call.pending.length ≤ m.pending.length) {pos : Position} {id : NodeId} {paren : Token}
    {push out e : Expr} {v : Value} (hpush : push.reads W.next W.table = some (text "push", none)) (hout : m.Yields out (.array W.out))
    (he : m.Yields e v) (hpath : W.Path calls (m.proceed (.exec (.expression pos (.call id push paren [out, e]))))) :
    W.Completes (calls ++ [ListFunction.added W.out s.length v]) (s ++ [v]) k m := by
  let inner : Machine := { m with pending := .discard :: m.pending }
  have h₁ : W.Path calls (inner.proceed (.eval (.call id push paren [out, e]))) := hpath.code False.elim not_false rfl
  obtain ⟨name, hreach⟩ := Machine.Calls.reach (m := inner) id paren (Nat.le_succ_of_le hbase)
    (hpath.knows.yields_push (m := inner) hpush) hout (.cons he .nil) hpath.knows.push_allowed
  obtain ⟨m', h₂, henv, hpending, hin⟩ := InLoop.adds (m := inner) h hkind (Nat.le_succ_of_le hbase)
    (h₁.andThen hreach)
  exact ⟨{ m' with pending := m.pending }, X, h₂.taken hpending hbase, henv, rfl, hin⟩

theorem InLoop.round_filter (h : W.InLoop X s k m.store m.depth) (hkind : W.kind = .filter) (henv : m.env = W.header)
    (hbase : W.call.pending.length ≤ m.pending.length) (hx : W.elements[k]? = some x)
    (hbody : ListFunction.filter.isRound W.next W.table body = true) (hpath : W.Path calls (m.proceed (.exec body))) :
    ∃ r, W.Completes (calls ++ [⟨W.fn, [x], r⟩] ++ if r.isTruthy then [ListFunction.added W.out s.length x] else [])
      (if r.isTruthy then s ++ [x] else s) k m := by
  obtain ⟨pos, pos', id, fn, paren, id', array, bracket, index, pos'', id'', push, paren', out, id₃, array', bracket',
    index', rfl, hfn, harray, hindex, hpush, hout, harray', hindex'⟩ := ListFunction.of_isRound_filter hbody
  have hreduce : W.kind ≠ .reduce := by
    rw [hkind]
    rintro ⟨⟩
  obtain ⟨hin, hframe⟩ := h.enters henv
  have hbase' : W.call.pending.length ≤ m.enterScope.pending.length := Nat.le_succ_of_le hbase
  -- up to the callback
  let yes : Stmt := .expression pos'' (.call id'' push paren' [out, .index id₃ array' bracket' index'])
  let inner : Machine :=
    { m.enterScope with pending := .branch yes none :: .sequence [] :: m.enterScope.pending }
  have h₁ : W.Path calls ({ m.enterScope with pending := .sequence [] :: m.enterScope.pending }.proceed
      (.exec (.branch pos' (.call id fn paren [.index id' array bracket index]) yes none))) :=
    hpath.code False.elim not_false rfl
  have h₂ : W.Path calls (inner.proceed (.eval (.call id fn paren [.index id' array bracket index]))) :=
    h₁.code False.elim not_false rfl
  obtain ⟨hheader, hlocals⟩ := InLoop.of_block (m := inner) hin hframe
  obtain ⟨m₃, r, h₃, henv₃, hpending₃, hin₃, hframes₃⟩ := InLoop.tries (m := inner) hin
    (Nat.le_succ_of_le (Nat.le_succ_of_le hbase')) hx (by rw [hkind]; rfl) hlocals hheader (by rw [hkind]; exact hfn)
    harray hindex h₂
  -- the branch
  let last : Machine := { m₃ with pending := .sequence [] :: m.enterScope.pending }
  have h₄ := h₃.taken hpending₃ (Nat.le_succ_of_le hbase')
  have hbranch : W.Completes
      (calls ++ [⟨W.fn, [x], r⟩] ++ if r.isTruthy then [ListFunction.added W.out s.length x] else [])
      (if r.isTruthy then s ++ [x] else s) k last := by
    by_cases hr : r.isTruthy = true
    · rw [if_pos hr, if_pos hr]
      have hnext : ({ last with control := .give r } : Machine).resumeValue (.branch yes none) r =
          last.proceed (.exec yes) := if_pos hr
      rw [hnext] at h₄
      have hframe₃ : m₃.store.frame m₃.env = { parent := some W.header } := by
        rw [henv₃]
        exact (hframes₃ _ (.inl rfl)).trans hframe
      obtain ⟨hheader₃, hlocals₃⟩ := InLoop.of_block (m := last) hin₃ hframe₃
      obtain ⟨v, hstores, hv⟩ :=
        Holds.yields_result (m := last) hin₃.toHolds h₃.knows hlocals₃ (by rw [hkind]; exact hout)
      obtain ⟨rfl, -⟩ := hstores.out hreduce
      exact InLoop.adds_yielded (m := last) hin₃ hreduce (Nat.le_succ_of_le hbase') hpush hv
        (InLoop.yields_next (m := last) hin₃ h₃.knows hx hlocals₃ hheader₃ harray' hindex' id₃ bracket') h₄
    · rw [if_neg hr, if_neg hr, List.append_nil]
      have hnext : ({ last with control := .give r } : Machine).resumeValue (.branch yes none) r =
          last.proceed (.complete .normal) := if_neg hr
      rw [hnext] at h₄
      exact ⟨last, _, h₄, rfl, rfl, hin₃⟩
  -- out of the block
  obtain ⟨m₆, X', h₆, henv₆, hpending₆, hin₆⟩ := hbranch
  have h₇ := h₆.ended hpending₆ hbase'
  have h₈ := Path.ended (m := { m₆ with pending := m.enterScope.pending }) h₇ rfl hbase
  exact ⟨r, { m₆ with env := m.env, pending := m.pending }, X', h₈, rfl, rfl, hin₆⟩

/-- **A round of the loop.** The callback is called with the next element, and what it gives is used. -/
theorem InLoop.round (h : W.InLoop X s k m.store m.depth) (henv : m.env = W.header)
    (hbase : W.call.pending.length ≤ m.pending.length) (hx : W.elements[k]? = some x)
    (hbody : W.kind.isRound W.next W.table body = true) (hpath : W.Path calls (m.proceed (.exec body))) :
    ∃ r, W.Completes (calls ++ W.kind.roundCalls W.fn W.out s x r) (W.kind.advance s x r) k m := by
  cases hkind : W.kind with
  | map =>
    rw [hkind] at hbody
    obtain ⟨r, hr⟩ := h.round_map hkind henv hbase hx hbody hpath
    rw [List.append_assoc] at hr
    exact ⟨r, hr⟩
  | filter =>
    rw [hkind] at hbody
    obtain ⟨r, hr⟩ := h.round_filter hkind henv hbase hx hbody hpath
    rw [List.append_assoc] at hr
    exact ⟨r, hr⟩
  | reduce =>
    rw [hkind] at hbody
    exact h.round_reduce hkind henv hbase hx hbody hpath

/-- The index goes up by one. -/
theorem InLoop.counts (h : W.InLoop X s k m.store m.depth) (hknows : W.Knows m.store m.distances)
    (henv : m.env = W.header) (hk : k < W.elements.size) {id : NodeId} {name : Token} (token : Token)
    (hname : (Expr.ident id name).reads W.next W.table = some (text "i", some 0)) :
    m.eval (.update id name .increment token false) =
        { m with store := m.store.put W.header (text "i") (.ofNat (k + 1)), control := .give (.ofNat k) } ∧
      W.InLoop X s (k + 1) (m.store.put W.header (text "i") (.ofNat (k + 1))) m.depth := by
  obtain ⟨id', name', heq, hid, hlexeme, hdistance⟩ := Expr.eq_of_reads hname
  cases heq
  have hvalue : (m.store.frame W.header).lookup? name.lexeme = some (.ofNat k) := by
    rw [hlexeme, h.header]
    rfl
  have hancestor : m.store.ancestor? m.env 0 = some W.header := by rw [henv]; rfl
  have hread : m.read id name = .ok (.ofNat k) :=
    Machine.read_local ((hknows.distances id hid).trans hdistance) hancestor hvalue (Value.ofNat_ne_unset k)
  have hnext : Operator.step m.store .increment token (.ofNat k) = .ok (.ofNat (k + 1)) := by
    have hsmall : W.elements.size < 2 ^ 53 := W.small
    simp [Operator.step, Value.ofNat, Whole.ofNat_add_one (k := k) (by omega)]
  have hdestination : m.destination id name = .ok W.header := by
    unfold Machine.destination
    rw [(hknows.distances id hid).trans hdistance]
    simp [Store.target, hancestor, hvalue, Except.map, Except.mapError]
  have hlt : W.header < m.store.frames.size := h.hides.frames _ h.header_mem
  obtain ⟨v, hstores, hlocals⟩ := h.stores
  refine ⟨?_, ⟨h.hides.modifyFrame h.header_mem _, h.elements, h.mem, h.depth, v, hstores, ?_⟩, h.header_mem, ?_⟩
  · simp only [Machine.eval, hread, hnext, Machine.assign, hdestination, hlexeme]
    rfl
  · rw [Store.put, Store.frame_change, if_neg, hlocals]
    exact fun heq => Nat.ne_of_gt (Nat.lt_succ_self _) heq.1
  · rw [Store.put, Store.frame_change, if_pos ⟨rfl, hlt⟩, h.header]
    rfl

/-- The calls of the loop over the elements from `k` on, and the progress in the end. -/
def Finishes (W : Walk) (calls : List Call) (s : List Value) (k : Nat) (m : Machine) : Prop :=
  ∃ (results : List Value), results.length = W.elements.size - k ∧
    W.Completes (calls ++ W.kind.loopCalls W.fn W.array W.out W.elements.size s
      ((W.elements.toList.drop k).zip results)) (W.kind.progress s ((W.elements.toList.drop k).zip results))
      W.elements.size m

/-- **The loop** takes one round for each element that is left. -/
theorem InLoop.loop {id callId updateId : NodeId} {token paren name updateToken : Token} {index length array : Expr}
    (hindex : index.reads W.next W.table = some (text "i", some 0))
    (hlength : length.reads W.next W.table = some (text "len", none))
    (harray : array.reads W.next W.table = some (text "arr", some 1))
    (hname : (Expr.ident updateId name).reads W.next W.table = some (text "i", some 0))
    (hbody : W.kind.isRound W.next W.table body = true) {left : Nat} :
    ∀ {X : Set FrameId} {s : List Value} {k : Nat} {m : Machine} {calls : List Call}, k + left = W.elements.size →
      W.InLoop X s k m.store m.depth → m.env = W.header → W.call.pending.length ≤ m.pending.length →
      W.Path calls (m.forTest (some (.binary id (.compare .less) token index (.call callId length paren [array])))
        (some (.update updateId name .increment updateToken false)) body) → W.Finishes calls s k m := by
  generalize hcond : Expr.binary id (.compare .less) token index (.call callId length paren [array]) = cond
  generalize hstep : Expr.update updateId name .increment updateToken false = step
  induction left with
  | zero =>
    intro X s k m calls hk h henv hbase hpath
    obtain rfl : k = W.elements.size := hk
    obtain ⟨console, h₁⟩ := InLoop.asks
      (m := { m with pending := .forTest (some cond) (some step) body :: m.pending }) h henv (Nat.le_refl _) (Nat.le_succ_of_le hbase) hindex hlength harray (by rw [hcond]; exact hpath)
    have h₂ := Path.taken
      (m := { m with console, pending := .forTest (some cond) (some step) body :: m.pending }) h₁ rfl hbase
    rw [decide_eq_false (Nat.lt_irrefl _)] at h₂
    refine ⟨[], by simp, { m with console }, X, ?_, rfl, rfl, ?_⟩
    · rw [List.drop_eq_nil_of_le (by simp)]
      exact h₂
    · rw [List.drop_eq_nil_of_le (by simp)]
      exact h
  | succ left ih =>
    intro X s k m calls hk h henv hbase hpath
    have hlt : k < W.elements.size := by omega
    have hx : W.elements[k]? = some W.elements[k] := Array.getElem?_eq_getElem hlt
    have hdrop : W.elements.toList.drop k = W.elements[k] :: W.elements.toList.drop (k + 1) :=
      List.drop_eq_getElem_cons (by simpa using hlt)
    -- the test
    obtain ⟨console, h₁⟩ := InLoop.asks
      (m := { m with pending := .forTest (some cond) (some step) body :: m.pending }) h henv hlt.le (Nat.le_succ_of_le hbase) hindex hlength harray (by rw [hcond]; exact hpath)
    have h₂ := Path.taken
      (m := { m with console, pending := .forTest (some cond) (some step) body :: m.pending }) h₁ rfl hbase
    rw [decide_eq_true hlt] at h₂
    -- the round
    obtain ⟨r, m₃, X', h₃, henv₃, hpending₃, hin₃⟩ := InLoop.round
      (m := { m with console, pending := .forBody (some cond) (some step) body :: m.pending }) h henv
      (Nat.le_succ_of_le hbase) hx hbody h₂
    have h₄ := h₃.ended hpending₃ hbase
    -- the index
    obtain ⟨heval, hin₅⟩ := InLoop.counts
      (m := { m₃ with control := .eval step, pending := .forStep (some cond) (some step) body :: m.pending })
      hin₃ h₃.knows (henv₃.trans henv) hlt updateToken hname
    rw [hstep] at heval
    have h₅ := h₄.code False.elim not_false heval
    have h₆ := Path.taken (m := { m₃ with
        store := m₃.store.put W.header (text "i") (.ofNat (k + 1))
        pending := .forStep (some cond) (some step) body :: m.pending }) h₅ rfl hbase
    -- the rest
    obtain ⟨results, hlength', m', X'', hpath', henv', hpending', hin'⟩ := ih (k := k + 1)
      (m := { m₃ with store := m₃.store.put W.header (text "i") (.ofNat (k + 1)), pending := m.pending })
      (by omega) hin₅ (henv₃.trans henv) hbase h₆
    refine ⟨r :: results, by simp [hlength']; omega, m', X'', ?_, henv'.trans henv₃, hpending', ?_⟩
    · rw [hdrop, List.zip_cons_cons, ListFunction.loopCalls]
      simpa using hpath'
    · rw [hdrop, List.zip_cons_cons]
      exact hin'

end Walk

end

end Treewalk
