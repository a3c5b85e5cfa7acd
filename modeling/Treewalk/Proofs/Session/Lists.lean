import Treewalk.Proofs.Session.Rounds

/-!
# The list functions

A call of `map`, `filter` or `reduce` opens a frame with its arguments and its first result (`Walk.starts`), goes
through its loop (`Walk.InLoop.loop`), and returns its result to the caller (`Walk.Holds.gives`).

**Main theorem** (`Honest.list_functions`). Called with an array and a callback that returns each time and leaves the
array alone, the function calls the callback once for each element in order, gives what it should and leaves the array
as it was.
-/

namespace Treewalk

/-- Parameters of different names are bound to the arguments in order. -/
theorem Machine.bindParams_eq : ∀ {params : List Token} {args : List Value} {done : List Binding},
    params.length = args.length → (done.map Binding.name ++ params.map Token.lexeme).Nodup →
    bindParams done params args =
      .ok (done ++ ((params.map Token.lexeme).zip args).map fun b => { name := b.1, value := b.2 }) := by
  intro params
  induction params with
  | nil =>
    intro args done hlength _
    obtain rfl : args = [] := List.length_eq_zero_iff.1 hlength.symm
    exact congrArg Except.ok (List.append_nil done).symm
  | cons p params ih =>
    intro args done hlength hnodup
    cases args with
    | nil => cases hlength
    | cons v args =>
      have hfresh : ¬ done.any (·.name == p.lexeme) = true := by
        intro hany
        obtain ⟨b, hb, heq⟩ := List.any_eq_true.1 hany
        exact List.disjoint_of_nodup_append hnodup (List.mem_map_of_mem hb) (by simp [beq_iff_eq.1 heq])
      have hrest := @ih args (done ++ [{ name := p.lexeme, value := v }]) (Nat.succ.inj hlength)
        (by simpa using hnodup)
      rw [bindParams, if_neg hfresh, hrest]
      simp

namespace ListFunction

/-- The progress in the beginning: a fold begins with its last argument; the others begin with nothing. -/
def begin (F : ListFunction) (init : Value) : List Value :=
  match F with
  | map | filter => []
  | reduce => [init]

variable {F : ListFunction} {next : NodeId} {table : Distances} {d : Function} {loop body : Stmt}

/-! ## The syntax -/

theorem of_isWritten (h : F.isWritten next table d = true) : ∃ name params pos result start loop body pos' returned,
    d = .mk name params [.declare pos result (some start), loop, .result pos' (some returned)] ∧
      name.lexeme = F.name ∧ params.map Token.lexeme = F.params ∧ result.lexeme = F.result ∧
      F.isStart next table start = true ∧ loop.walk? next table = some body ∧ F.isRound next table body = true ∧
      returned.reads next table = some (F.result, some 0) := by
  unfold isWritten at h
  split at h
  · rename_i name params pos result start loop pos' returned
    obtain ⟨hname, hparams, hresult, hstart, hloop, hreturned⟩ := of_decide_eq_true h
    obtain ⟨body, hwalk, hbody⟩ := (Option.any_eq_true _ _).1 hloop
    exact ⟨_, _, _, _, _, _, body, _, _, rfl, hname, hparams, hresult, hstart, hwalk, hbody, hreturned⟩
  · cases h

theorem of_walk? (h : loop.walk? next table = some body) :
    ∃ pos pos' i id zero id₁ token index id₂ length paren array id₃ name token',
      loop = .forLoop pos (some (.declare pos' i (some (.literal id zero))))
        (some (.binary id₁ (.compare .less) token index (.call id₂ length paren [array])))
        (some (.update id₃ name .increment token' false)) body ∧
      i.lexeme = text "i" ∧ zero.literal.isZero = true ∧ index.reads next table = some (text "i", some 0) ∧
      length.reads next table = some (text "len", none) ∧ array.reads next table = some (text "arr", some 1) ∧
      (Expr.ident id₃ name).reads next table = some (text "i", some 0) := by
  unfold Stmt.walk? at h
  split at h
  · split_ifs at h with hparts
    cases h
    exact ⟨_, _, _, _, _, _, _, _, _, _, _, _, _, _, _, rfl, hparts⟩
  · cases h

theorem of_isStart {start : Expr} (h : F.isStart next table start = true) :
    (F ≠ .reduce ∧ ∃ id bracket, start = .array id bracket []) ∨
      (F = .reduce ∧ start.reads next table = some (text "init", some 0)) := by
  unfold isStart at h
  split at h
  · exact .inl ⟨by rintro ⟨⟩, _, _, rfl⟩
  · exact .inl ⟨by rintro ⟨⟩, _, _, rfl⟩
  · exact .inr ⟨rfl, of_decide_eq_true h⟩
  · cases h

end ListFunction

section

variable {W : Walk} {X : Set FrameId} {s : List Value} {k : Nat} {m m' : Machine} {calls more : List Call}

namespace Walk

/-! ## Into the loop -/

/-- The progress in the beginning. -/
def initial (W : Walk) : List Value := W.kind.begin W.init

/-- What waits while the body of the function runs. -/
def inner (W : Walk) : List Pending :=
  .body W.source.closure W.call.env :: .depart W.call.depth :: W.call.pending

/-- The frame of the call before its result is declared. -/
def opened (W : Walk) : Store :=
  { W.call.store with
    frames := W.call.store.frames.push
      { parent := some Store.globals
        bindings := (W.kind.params.zip (W.kind.args (.array W.array) W.fn W.init)).map fun b =>
          { name := b.1, value := b.2 } } }

theorem frame_opened (W : Walk) : W.opened.frame W.locals =
    { parent := some Store.globals
      bindings := (W.kind.params.zip (W.kind.args (.array W.array) W.fn W.init)).map fun b =>
        { name := b.1, value := b.2 } } := by
  unfold opened locals
  rw [Store.frame_push, if_pos rfl]

/-- The body of the function begins in a frame that binds the parameters. -/
theorem begins {name : Token} {params : List Token} {body : List Stmt} (hsource : W.source = .mk name params body)
    (hparams : params.map Token.lexeme = W.kind.params) : ∃ console,
      W.call.step = ({ W.call with
        store := W.opened, env := W.locals, depth := W.call.depth + 1, pending := W.inner, console } : Machine).sequence
          body := by
  have hlength : params.length = (W.kind.args (.array W.array) W.fn W.init).length := by
    rw [← List.length_map (f := Token.lexeme), hparams]
    cases W.kind <;> rfl
  have hbound := @Machine.bindParams_eq params _ [] hlength (by
    rw [hparams]
    cases W.kind <;> decide)
  rw [hparams, List.nil_append] at hbound
  have hfunction := W.function
  have hallowed : Machine.refusal? W.call.store (.function W.callee) (W.kind.args (.array W.array) W.fn W.init).length =
      none := by
    simp [Machine.refusal?, Machine.signature?, hfunction, hsource, Function.closure, Function.params, hlength]
  have hroom : ¬ Machine.maxDepth ≤ W.call.depth := by
    have := W.room
    omega
  refine ⟨W.call.console.log "call"
    [("fn", ((Machine.signature? W.call.store (.function W.callee)).map Prod.fst).getD []),
      ("args", Bytes.ofNat (W.kind.args (.array W.array) W.fn W.init).length),
      ("depth", Bytes.ofNat (W.call.depth + 1))], ?_⟩
  unfold Machine.step
  rw [W.calls]
  dsimp only
  unfold Machine.invoke
  rw [hallowed]
  simp only [Machine.enterCall, hroom, if_false, hfunction]
  unfold Machine.callClosure
  have hclosure : W.source.closure.params = params := by rw [hsource]; rfl
  have hbody : W.source.closure.body = body := by rw [hsource]; rfl
  rw [hclosure, hbound, hbody]
  rfl

theorem globals_lt (W : Walk) : Store.globals < W.call.store.frames.size := by
  have hbound := W.honest.bound (Interpreter.mem_protections (k := 2) (n := ("len", 1, .len)) rfl)
  have hlookup : (W.call.store.frame Store.globals).lookup? (text "len") = some (.native 2) := by
    rw [Frame.lookup?, show (W.call.store.frame Store.globals).find? _ = _ from hbound]
    rfl
  exact Store.lt_size_of_lookup? hlookup

/-- The last argument of a fold is a value that was there before. -/
theorem init_sound (hkind : W.kind = .reduce) : W.init ≠ .unset ∧ W.call.store.Shows ∅ W.init := by
  have hmem : W.init ∈ W.kind.args (.array W.array) W.fn W.init := by
    rw [hkind]
    exact .tail _ (.tail _ (.head _))
  exact ⟨W.honest.hands (.argument W.calls hmem), (W.honest.shows W.calls).2 _ hmem⟩

/-- The first value of the result: a new array, or the last argument. -/
theorem first {start : Expr} (hstart : W.kind.isStart W.next W.table start = true) (hstore : m.store = W.opened)
    (henv : m.env = W.locals) (hbase : W.call.pending.length ≤ m.pending.length)
    (hpath : W.Path calls (m.proceed (.eval start))) : ∃ v store,
      W.Path calls { m with control := .give v, store } ∧ store.frames = W.opened.frames ∧
      store.Hides {W.locals} W.hidden ∧ store.elements W.array = W.elements ∧ W.Stores store W.initial v := by
  have hopened : W.opened.Hides {W.locals} ∅ := by
    have hnew := W.honest.hides.pushFrame W.globals_lt
    rw [insert_empty_eq] at hnew
    exact hnew _
  obtain ⟨hkind, id, bracket, rfl⟩ | ⟨hkind, hread⟩ := ListFunction.of_isStart hstart
  · have hhidden : W.hidden = {W.out} := by
      unfold hidden
      cases hreduce : W.kind <;> first | rfl | exact absurd hreduce hkind
    have hne : W.array ≠ W.call.store.arrays.size := Nat.ne_of_lt W.array_lt
    refine ⟨.array W.out, (W.opened.newArray #[]).2, hpath.code False.elim not_false ?_, rfl, ?_, ?_, ?_⟩
    · show (({ m with control := _ } : Machine).eval (.array id bracket [])) = _
      simp only [Machine.eval, hstore]
      rfl
    · have hnew := hopened.newArray #[]
      rw [insert_empty_eq] at hnew
      rwa [hhidden]
    · show ((W.call.store.arrays.push #[])[W.array]?).getD #[] = _
      rw [Array.getElem?_push, if_neg hne]
      rfl
    · have hempty : ((W.opened.newArray #[]).2.elements W.out).toList = [] := by
        show (((W.call.store.arrays.push #[])[W.call.store.arrays.size]?).getD #[]).toList = []
        simp
      unfold Stores initial ListFunction.begin
      cases hreduce : W.kind
      · exact ⟨rfl, hempty⟩
      · exact ⟨rfl, hempty⟩
      · exact absurd hreduce hkind
  · have hlookup : (m.store.frame W.locals).lookup? (text "init") = some W.init := by
      rw [hstore, frame_opened, hkind]
      rfl
    obtain ⟨hset, hshows⟩ := init_sound hkind
    have hyields := hpath.knows.yields_local hread (show m.store.ancestor? m.env 0 = some W.locals by rw [henv]; rfl)
      hlookup hset
    refine ⟨W.init, m.store, hpath.andThen (hyields _ _ hbase), by rw [hstore], ?_, ?_, ?_⟩
    · unfold hidden
      rw [hkind, hstore]
      exact hopened
    · rw [hstore]
      rfl
    · unfold Stores initial ListFunction.begin
      rw [hkind, hstore]
      exact ⟨rfl, hset, hshows⟩

/-- A name is declared in a frame that does not bind it. -/
theorem Path.declares {name : Token} {v : Value} (h : W.Path calls (m.push (.declare name) (.give v)))
    (hnew : (m.store.frame m.env).find? name.lexeme = none) (hbase : W.call.pending.length ≤ m.pending.length) :
    W.Path calls (({ m with store := m.store.add m.env { name := name.lexeme, value := v } } : Machine).proceed
      (.complete .normal)) := by
  have hunbound : ¬ m.store.binds m.env name.lexeme = true := by simp [Store.binds, hnew]
  have hdefine : (m.proceed (.give v)).resumeValue (.declare name) v =
      ({ m with store := m.store.add m.env { name := name.lexeme, value := v } } : Machine).proceed
        (.complete .normal) := by
    show (m.proceed (.give v)).define name v = _
    unfold Machine.define
    exact if_neg hunbound
  rw [← hdefine]
  exact h.value hbase

/-- The result is declared in the frame of the call. -/
theorem starts {pos : Position} {start : Expr} {result : Token} (hstart : W.kind.isStart W.next W.table start = true)
    (hresult : result.lexeme = W.kind.result) (hstore : m.store = W.opened) (henv : m.env = W.locals)
    (hdepth : m.depth = W.call.depth + 1) (hbase : W.call.pending.length ≤ m.pending.length)
    (hpath : W.Path calls (m.proceed (.exec (.declare pos result (some start))))) : ∃ m' : Machine,
      W.Path calls (m'.proceed (.complete .normal)) ∧ m'.env = W.locals ∧ m'.pending = m.pending ∧
      m'.store.frames.size = W.header ∧ W.Holds {W.locals} W.initial m'.store m'.depth := by
  have h₁ : W.Path calls (m.push (.declare result) (.eval start)) := hpath.code False.elim not_false rfl
  obtain ⟨v, store, h₂, hframes, hhides, helements, hstores⟩ := first
    (m := { m with pending := .declare result :: m.pending }) hstart hstore henv (Nat.le_succ_of_le hbase) h₁
  have hsame : store.frame W.locals = W.opened.frame W.locals := by rw [Store.frame, hframes, Store.frame]
  have hframe := hsame.trans W.frame_opened
  have hlt : W.locals < store.frames.size := hhides.frames _ rfl
  have h₃ := Path.declares (m := { m with store }) h₂ (by
    show (store.frame m.env).find? _ = none
    rw [henv, hframe, hresult]
    cases W.kind <;> rfl) hbase
  refine ⟨{ m with store := store.add m.env { name := result.lexeme, value := v } }, h₃, henv, rfl, ?_, ?_⟩
  · show (store.frames.modify _ _).size = _
    rw [Array.size_modify, hframes]
    exact Array.size_push _
  · refine ⟨?_, helements, rfl, hdepth, v, hstores.mono (Nat.le_refl _) fun _ _ => rfl, ?_⟩
    · rw [henv]
      exact hhides.modifyFrame rfl _
    · show (store.add m.env _).frame _ = _
      rw [henv, Store.add, Store.frame_change, if_pos ⟨rfl, hlt⟩, hframe, hresult]
      unfold bindings Frame.add
      simp

/-- The loop begins with the index zero, in a frame of its own. -/
theorem Holds.starts_loop (h : W.Holds X s m.store m.depth) (henv : m.env = W.locals)
    (hsize : m.store.frames.size = W.header) (hbase : W.call.pending.length ≤ m.pending.length) {pos : Position}
    {i zero : Token} {id : NodeId} {cond step : Option Expr} {body : Stmt} (hi : i.lexeme = text "i")
    (hzero : zero.literal.isZero = true) (hpath : W.Path calls (m.enterScope.push (.forStart cond step body)
      (.exec (.declare pos i (some (.literal id zero)))))) :
    ∃ m' : Machine, W.Path calls (m'.forTest cond step body) ∧ m'.env = W.header ∧
      m'.pending = .restore W.locals :: m.pending ∧ W.InLoop (insert W.header X) s 0 m'.store m'.depth := by
  have henter : m.enterScope = { m with
      store := { m.store with frames := m.store.frames.push { parent := some W.locals } }
      env := W.header, pending := .restore W.locals :: m.pending } := by
    unfold Machine.enterScope Store.newFrame
    rw [henv, hsize]
  rw [henter] at hpath
  generalize hstore : ({ m.store with frames := m.store.frames.push { parent := some W.locals } } : Store) = store
    at hpath
  have hframe : ∀ f, store.frame f = if f = W.header then { parent := some W.locals } else m.store.frame f := by
    intro f
    rw [← hstore, Store.frame_push, hsize]
  have hvalue : Value.ofLiteral zero.literal = .ofNat 0 := by
    cases hliteral : zero.literal with
    | number x => 
      rw [hliteral] at hzero
      exact congrArg Value.number (of_decide_eq_true hzero)
    | _ => rw [hliteral] at hzero; cases hzero
  have hne : W.locals ≠ W.header := Nat.ne_of_lt (Nat.lt_succ_self _)
  have hnew : ∀ f ∈ X, store.frame f = m.store.frame f := fun f hf => by
    rw [hframe, if_neg]
    rintro rfl
    exact Nat.lt_irrefl _ (hsize ▸ h.hides.frames _ hf)
  have hhides : store.Hides (insert W.header X) W.hidden := by
    rw [← hstore, ← hsize]
    exact h.hides.pushFrame (Nat.zero_lt_of_lt (h.hides.frames _ h.mem)) _
  -- the index is declared
  let inside : Machine := { m with
    store, env := W.header, pending := .forStart cond step body :: .restore W.locals :: m.pending }
  have hinside : W.call.pending.length ≤ inside.pending.length :=
    Nat.le_succ_of_le (Nat.le_succ_of_le hbase)
  have h₁ : W.Path calls (inside.push (.declare i) (.eval (.literal id zero))) := hpath.code False.elim not_false rfl
  have h₂ := Path.yield (m := inside) h₁ (inside.yields_literal id zero) hinside
  rw [hvalue] at h₂
  have h₃ := Path.declares (m := inside) h₂ (by
    show (store.frame W.header).find? _ = none
    rw [hframe, if_pos rfl]
    rfl) hinside
  have h₄ := Path.ended (m := { inside with
    store := store.add W.header { name := i.lexeme, value := .ofNat 0 } }) h₃ rfl (Nat.le_succ_of_le hbase)
  obtain ⟨v, hstores, hlocals⟩ := h.stores
  have hgrown : m.store.arrays.size ≤ store.arrays.size ∧ ∀ a, store.elements a = m.store.elements a := by
    rw [← hstore]
    exact ⟨Nat.le_refl _, fun _ => rfl⟩
  refine ⟨{ inside with
    store := store.add W.header { name := i.lexeme, value := .ofNat 0 }, pending := .restore W.locals :: m.pending },
    h₄, rfl, rfl, ⟨hhides.modifyFrame (.inl rfl) _, (hgrown.2 _).trans h.elements, .inr h.mem, h.depth, v,
      hstores.mono hgrown.1 fun a _ => hgrown.2 a, ?_⟩, .inl rfl, ?_⟩
  · rw [Store.add, Store.frame_change, if_neg fun heq => hne heq.1.symm, hnew _ h.mem, hlocals]
  · rw [Store.add, Store.frame_change, if_pos ⟨rfl, hhides.frames _ (.inl rfl)⟩, hframe, if_pos rfl, hi]
    rfl

/-! ## Out of the loop -/

/-- The result is returned to where the function was called. -/
theorem Holds.gives (h : W.Holds X s m.store m.depth) (henv : m.env = W.locals) (hpending : m.pending = W.inner)
    {token : Token} {returned : Expr} (hreturned : returned.reads W.next W.table = some (W.kind.result, some 0))
    (hpath : W.Path calls (m.push (.sequence []) (.exec (.result token (some returned))))) :
    ∃ v, W.Stores m.store s v ∧ W.Path calls { m with
      control := .give v, env := W.call.env, depth := W.call.depth, pending := W.call.pending } := by
  have hbase : W.call.pending.length ≤ m.pending.length := by
    rw [hpending]
    exact Nat.le_succ_of_le (Nat.le_succ _)
  obtain ⟨v, hstores, hyields⟩ := h.yields_result hpath.knows
    (show m.store.ancestor? m.env 0 = some W.locals by rw [henv]; rfl) hreturned
  let inside : Machine := { m with pending := .sequence [] :: m.pending }
  have h₁ : W.Path calls (inside.push .result (.eval returned)) := hpath.code False.elim not_false rfl
  have h₂ := (Path.yield (m := inside) h₁ hyields (Nat.le_succ_of_le hbase)).value (Nat.le_succ_of_le hbase)
  have h₃ : W.Path calls (m.proceed (.complete (.result v))) := Path.completion (m := m) h₂ hbase
  have h₄ : W.Path calls { m with
      control := .give v, env := W.call.env, pending := .depart W.call.depth :: W.call.pending } :=
    h₃.ended hpending (Nat.le_succ _)
  exact ⟨v, hstores, Path.taken (m := { m with env := W.call.env, pending := .depart W.call.depth :: W.call.pending })
    h₄ rfl (Nat.le_refl _)⟩

/-! ## The whole call -/

/-- What the callback gives for each element, and the state in which the call ends. -/
def Returns (W : Walk) : Prop :=
  ∃ (results : List Value) (m : Machine) (v : Value), results.length = W.elements.size ∧
    W.Path (W.kind.loopCalls W.fn W.array W.out W.elements.size W.initial (W.elements.toList.zip results)) m ∧
    m.pending = W.call.pending ∧ m.control = .give v ∧ m.store.elements W.array = W.elements ∧
    W.Stores m.store (W.kind.progress W.initial (W.elements.toList.zip results)) v

theorem returns_all (W : Walk) : W.Returns := by
  obtain ⟨name, params, pos, result, start, loop, body, token, returned, hsource, hname, hparams, hresult, hstart,
    hwalk, hbody, hreturned⟩ := ListFunction.of_isWritten W.written
  obtain ⟨pos₁, pos₂, i, id, zero, id₁, op, index, id₂, length, paren, array, id₃, counter, op', hloop, hi, hzero,
    hindex, hlength, harray, hcounter⟩ := ListFunction.of_walk? hwalk
  obtain ⟨console, hbegins⟩ := W.begins hsource hparams
  -- into the loop
  let opened : Machine := { W.call with
    store := W.opened, env := W.locals, depth := W.call.depth + 1,
    pending := .sequence [loop, .result token (some returned)] :: W.inner, console }
  have hinner : W.call.pending.length ≤ W.inner.length := Nat.le_succ_of_le (Nat.le_succ _)
  have h₁ : W.Path [] (opened.proceed (.exec (.declare pos result (some start)))) := by
    unfold Path
    rw [hbegins]
    exact .here _
  obtain ⟨m₂, h₂, henv₂, hpending₂, hsize₂, hholds₂⟩ := starts hstart hresult (m := opened) rfl rfl rfl
    (Nat.le_succ_of_le hinner) h₁
  let first : Machine := { m₂ with pending := .sequence [.result token (some returned)] :: W.inner }
  have h₃ : W.Path [] (first.proceed (.exec loop)) := h₂.ended hpending₂ hinner
  rw [hloop] at h₃
  obtain ⟨m₄, h₄, henv₄, hpending₄, hin₄⟩ := Holds.starts_loop (m := first) hholds₂ henv₂ hsize₂
    (Nat.le_succ_of_le hinner) hi hzero (h₃.code False.elim not_false rfl)
  have hbase₄ : W.call.pending.length ≤ m₄.pending.length := by
    rw [hpending₄]
    exact Nat.le_succ_of_le (Nat.le_succ_of_le hinner)
  -- the loop, and out of it
  obtain ⟨results, hresults, m₅, X, h₅, henv₅, hpending₅, hin₅⟩ := InLoop.loop hindex hlength harray hcounter hbody
    (Nat.zero_add _) hin₄ henv₄ hbase₄ h₄
  rw [List.drop_zero, List.nil_append] at h₅
  rw [List.drop_zero] at hin₅
  have h₆ := h₅.ended (hpending₅.trans hpending₄) (Nat.le_succ_of_le hinner)
  have h₇ := Path.ended (m := { m₅ with env := W.locals, pending := first.pending }) h₆ rfl hinner
  obtain ⟨v, hstores, h₈⟩ := Holds.gives (m := { m₅ with env := W.locals, pending := W.inner }) hin₅.toHolds rfl rfl
    hreturned h₇
  exact ⟨results, _, v, hresults, h₈, rfl, rfl, hin₅.elements, hstores⟩

end Walk

end

/-! ## The functions of the standard interpreter -/

namespace ListFunction

/-- Where the standard interpreter holds the function. -/
def index : ListFunction → FunctionId
  | map => 0
  | filter => 1
  | reduce => 2

theorem functions_declareAll (ds : List Function) : ∀ s : Store,
    (ds.foldl Store.declare s).functions.toList = s.functions.toList ++ ds.map Function.closure := by
  induction ds with
  | nil => exact fun s => (List.append_nil _).symm
  | cons d ds ih =>
    intro s
    rw [List.foldl_cons, ih]
    simp [Store.declare, Store.add, Store.newFunction]

theorem library_eq : ∃ a b c : Function, Interpreter.library = [a, b, c] ∧ a.name.lexeme = text "map" ∧
    b.name.lexeme = text "filter" ∧ c.name.lexeme = text "reduce" := by
  have hnames := Interpreter.library_names
  rcases hlibrary : Interpreter.library with _ | ⟨a, _ | ⟨b, _ | ⟨c, _ | ⟨d, rest⟩⟩⟩⟩ <;> rw [hlibrary] at hnames <;>
    simp only [List.map_cons, List.map_nil, List.cons.injEq, reduceCtorEq, and_false, and_true] at hnames
  exact ⟨a, b, c, rfl, hnames⟩

/-- The standard interpreter binds the name of the function to it. -/
theorem lookup_standard (F : ListFunction) :
    (Interpreter.standard.store.frame Store.globals).lookup? F.name = some (.function F.index) := by
  obtain ⟨a, b, c, hlibrary, ha, hb, hc⟩ := library_eq
  have horiginal := Interpreter.furnished_isOriginal
  have hfree : ∀ F : ListFunction,
      (Interpreter.furnished.registerMath.store.frame Store.globals).find? F.name = none := by
    rintro (_ | _ | _) <;> decide +kernel
  generalize hs : Interpreter.furnished.registerMath.store = s at horiginal hfree
  have hsize : Store.globals < s.frames.size := by
    rw [horiginal.frames]
    exact Nat.zero_lt_one
  have hdeclared : ∀ (s : Store) (d : Function), (s.declare d).frames.size = s.frames.size ∧
      (s.declare d).functions.size = s.functions.size + 1 := fun s d => by
    simp [Store.declare, Store.add, Store.newFunction]
  have hsize₁ : Store.globals < (s.declare a).frames.size := by rwa [(hdeclared _ _).1]
  have hsize₂ : Store.globals < ((s.declare a).declare b).frames.size := by rwa [(hdeclared _ _).1]
  have hcount₁ : (s.declare a).functions.size = 1 := by rw [(hdeclared _ _).2, horiginal.functions]
  have hcount₂ : ((s.declare a).declare b).functions.size = 2 := by rw [(hdeclared _ _).2, hcount₁]
  rw [Interpreter.standard_store, hlibrary, hs]
  show Frame.lookup? ((((s.declare a).declare b).declare c).frame _) _ = _
  rw [Frame.lookup?, Store.find?_declare hsize₂, Store.find?_declare hsize₁, Store.find?_declare hsize, hfree,
    horiginal.functions, hcount₁, hcount₂, ha, hb, hc]
  cases F <;> rfl

/-- The function is written as it should be. -/
theorem function_standard (F : ListFunction) : ∃ source : Function,
    F.isWritten Interpreter.standard.nextId Interpreter.standard.distances source = true ∧
      Interpreter.standard.store.functions[F.index]? = some source.closure := by
  obtain ⟨-, hwritten⟩ := Interpreter.library_written
  obtain ⟨a, b, c, hlibrary, -⟩ := library_eq
  have hfunctions : Interpreter.standard.store.functions.toList = [a.closure, b.closure, c.closure] := by
    rw [Interpreter.standard_store, functions_declareAll, hlibrary,
      Array.eq_empty_of_size_eq_zero Interpreter.furnished_isOriginal.functions]
    rfl
  rw [hlibrary, ← Interpreter.standard_eq] at hwritten
  simp only [← Array.getElem?_toList, hfunctions]
  cases F with
  | map => exact ⟨a, hwritten (.map, a) (by simp), rfl⟩
  | filter => exact ⟨b, hwritten (.filter, b) (by simp), rfl⟩
  | reduce => exact ⟨c, hwritten (.reduce, c) (by simp), rfl⟩

end ListFunction

/-! ## The main theorem -/

namespace ListFunction

/-- What the function gives, from the elements and what the callback gave for them: `map` gives a new array of what
the callback gave, `filter` one of the elements for which that counts as true, and `reduce` what the callback gave
last. -/
def Gives (F : ListFunction) (before after : Store) (init : Value) (elements results : List Value) (v : Value) : Prop :=
  match F with
  | map => v = .array before.arrays.size ∧ (after.elements before.arrays.size).toList = results
  | filter => v = .array before.arrays.size ∧
    (after.elements before.arrays.size).toList = ((elements.zip results).filter (·.2.isTruthy)).map Prod.fst
  | reduce => v = results.getLastD init

theorem progress_map (s : List Value) : ∀ {elements results : List Value}, results.length = elements.length →
    map.progress s (elements.zip results) = s ++ results := by
  intro elements results hlength
  induction results generalizing s elements with
  | nil => cases elements <;> simp [progress] at *
  | cons r results ih =>
    cases elements with
    | nil => cases hlength
    | cons x elements =>
      have := ih (s ++ [r]) (Nat.succ.inj hlength)
      simpa [progress, advance] using this

theorem progress_filter (rounds : List (Value × Value)) : ∀ s : List Value,
    filter.progress s rounds = s ++ (rounds.filter (·.2.isTruthy)).map Prod.fst := by
  induction rounds with
  | nil => exact fun s => (List.append_nil s).symm
  | cons p rounds ih =>
    intro s
    rw [progress, List.foldl_cons, ← progress, ih]
    by_cases hp : p.2.isTruthy = true <;> simp [advance, hp]

theorem progress_reduce : ∀ {elements results : List Value} (init : Value), results.length = elements.length →
    reduce.progress [init] (elements.zip results) = [results.getLastD init] := by
  intro elements results
  induction results generalizing elements with
  | nil => intro init _; cases elements <;> rfl
  | cons r results ih =>
    intro init hlength
    cases elements with
    | nil => cases hlength
    | cons x elements => exact (ih r (Nat.succ.inj hlength)).trans (by rw [List.getLastD_cons])

end ListFunction

/-- **The list functions.** In an honest session a function of the library is called with an array and a callback that
gives a value each time the function calls it, and leaves the array alone. Then the function calls the callback once for
each element in order, with what a fold has come to so far, and between these calls only `len` and `push`. It gives what
it should (`ListFunction.Gives`), and the array is what it was. -/
theorem Honest.list_functions {programs : List (List Stmt)} {hosted : Bool} {i : Interpreter} {m : Machine}
    (h : Honest programs (.running hosted i m)) {F : ListFunction} {callee fn init : Value} {array : ArrayId}
    (hlibrary : (Interpreter.standard.store.frame Store.globals).lookup? F.name = some callee)
    (hcall : m.control = .call callee (F.args (.array array) fn init))
    (hsmall : (m.store.elements array).size < 2 ^ 53) (hroom : m.depth + 2 ≤ Machine.maxDepth)
    (hcallable : Machine.refusal? m.store fn F.arity = none)
    (hreturns : ∀ calls c args, Machine.Calls m.pending m.step calls c → c.control = .call fn args →
      ∃ n v, c.Ends c.pending n ∧ (c.steps n).control = .give v ∧
        (c.steps n).store.elements array = c.store.elements array) :
    ∃ n results v, results.length = (m.store.elements array).size ∧ m.Ends m.pending n ∧
      (m.steps n).control = .give v ∧
      Machine.Calls m.pending m.step (F.loopCalls fn array m.store.arrays.size (m.store.elements array).size
        (F.begin init) ((m.store.elements array).toList.zip results)) (m.steps n) ∧
      (m.steps n).store.elements array = m.store.elements array ∧
      F.Gives m.store (m.steps n).store init (m.store.elements array).toList results v := by
  obtain ⟨source, hwritten, hfunction⟩ := F.function_standard
  obtain rfl : .function F.index = callee := Option.some.inj (F.lookup_standard.symm.trans hlibrary)
  obtain ⟨hkept, htable⟩ := h.keeps
  let W : Walk :=
    { kind := F, array, fn, init, call := m, programs, hosted, interpreter := i, next := Interpreter.standard.nextId
      table := Interpreter.standard.distances, honest := h, callee := F.index, source, written := hwritten
      known := fun id hid => by rw [htable, hkept.distances id hid]
      function := hkept.functions _ _ hfunction
      calls := hcall, room := hroom, callable := hcallable, small := hsmall, returns := hreturns }
  obtain ⟨results, m', v, hresults, hpath, hpending, hgive, helements, hstores⟩ := W.returns_all
  have hbegins : ¬ m.control.IsOutcome := by
    rw [hcall]
    exact id
  have hlasts : ¬ m.Meets m.pending := fun hmeets => hbegins hmeets.2
  obtain ⟨k, rfl, hk⟩ := Machine.Calls.lasts (a := m.anchor) hpath
    ((Machine.begins hbegins).step hlasts (Realm.all_makes _ _))
  refine ⟨k + 1, results, v, hresults, ⟨⟨hpending, ?_⟩, ?_⟩, hgive, hpath, helements, ?_⟩
  · show (m.step.steps k).control.IsOutcome
    rw [hgive]
    trivial
  · rintro (_ | j) hj
    · exact hlasts
    · exact hk j (Nat.lt_of_succ_lt_succ hj)
  · have hlength : results.length = (m.store.elements array).toList.length := hresults
    unfold Walk.Stores Walk.initial at hstores
    unfold ListFunction.Gives
    cases F with
    | map => exact ⟨hstores.1, hstores.2.trans (ListFunction.progress_map [] hlength)⟩
    | filter => exact ⟨hstores.1, hstores.2.trans (ListFunction.progress_filter _ [])⟩
    | reduce =>
      have hlast := hstores.1
      rw [show W.kind = .reduce from rfl] at hlast
      exact (List.singleton_inj.1 ((ListFunction.progress_reduce init hlength).symm.trans hlast)).symm

/-- Does this hold now and after each of the next steps? -/
def Machine.always (p : Machine → Bool) : Nat → Machine → Bool
  | 0, m => p m
  | n + 1, m => p m && m.step.always p n

theorem Machine.always_steps {p : Machine → Bool} {n : Nat} : ∀ {m : Machine}, m.always p n = true → ∀ k ≤ n,
    p (m.steps k) = true := by
  induction n with
  | zero =>
    intro m h k hk
    obtain rfl := Nat.le_zero.1 hk
    exact h
  | succ n ih =>
    intro m h k hk
    rw [always, Bool.and_eq_true] at h
    cases k with
    | zero => exact h.1
    | succ k => exact ih h.2 k (Nat.le_of_succ_le_succ hk)

/-- Does the call go on, and is `type` called as it should be if it is called next? -/
def Machine.goesOn (waiting : Nat) (m : Machine) : Bool :=
  waiting < m.pending.length && match m.control with
    | .call (.native 5) args => args.length = 1 ∧ m.depth < maxDepth
    | _ => true

/-- Is `map` called next, with one element and `type`, and does the call end after so many steps? -/
def Machine.mapsType (n : Nat) (m : Machine) : Bool :=
  (match m.control with
    | .call (.function 0) [.array 0, .native 5] => true
    | _ => false) &&
  decide (m.depth = 0 ∧ (m.store.elements 0).size = 1 ∧ refusal? m.store (.native 5) 1 = none ∧
    m.step.always (goesOn m.pending.length) n = true ∧ (m.steps (n + 2)).pending.length = m.pending.length ∧
    (m.steps (n + 2)).control.IsOutcome)

/-- The call in `map([none], type);`. -/
def Interpreter.sampleCall : Machine :=
  ((assembled.compile (text "map([none], type);")).2.machine (.complete .normal)
    [.program (Parsed.ofSource assembled.nextId (text "map([none], type);")).stmts]).steps 11

/-- The native `type` gives a text. -/
theorem Honest.ends_type {programs : List (List Stmt)} {hosted : Bool} {i : Interpreter} {m : Machine}
    (h : Honest programs (.running hosted i m)) {args : List Value} (hcall : m.control = .call (.native 5) args)
    (hlength : args.length = 1) (hroom : m.depth < Machine.maxDepth) :
    ∃ n v, m.Ends m.pending n ∧ (m.steps n).control = .give v ∧ (m.steps n).store = m.store := by
  obtain ⟨x, rfl⟩ := List.length_eq_one_iff.1 hlength
  have hrun : ∀ console, NativeOp.type.run [x] ⟨m.store, console⟩ =
      (.ok (.ofBytes (m.store.typeName x)), ⟨m.store, console⟩) := fun _ => rfl
  obtain ⟨hends, console, hsteps⟩ := Machine.ends_native hcall
    (h.keeps.1.natives 5 _ (Interpreter.standard_native (n := ("type", 1, .type)) rfl)) rfl hroom (by rintro run ⟨⟩)
    hrun
  exact ⟨2, _, hends, by rw [hsteps], by rw [hsteps]⟩

theorem Honest.list_functions_map : ∃ programs i m n results v, Honest programs (.running false i m) ∧
    m.control = .call (.function 0) (ListFunction.map.args (.array 0) (.native 5) .none) ∧
    (m.store.elements 0).size = 1 ∧ m.Ends m.pending n ∧ (m.steps n).control = .give v ∧ results.length = 1 ∧
    ListFunction.map.Gives m.store (m.steps n).store .none (m.store.elements 0).toList results v := by
  have haccepts : Interpreter.accepts Interpreter.assembled.nextId (text "map([none], type);") = true := by
    decide +kernel
  obtain ⟨programs, hmade, hstandard⟩ := Course.standard
  have hcompiled := (Honest.standard (hmade.trans hstandard)).compile (text "map([none], type);")
  rw [Interpreter.standard_eq, Interpreter.compile_of_accepts haccepts] at hcompiled
  have h := (hcompiled.execute (List.mem_append_right _ List.mem_cons_self)).steps 11
  generalize hm : Machine.steps _ 11 = m at h
  have hchecked : m.mapsType 68 = true := by
    rw [show m = Interpreter.sampleCall from hm.symm]
    decide +kernel
  unfold Machine.mapsType at hchecked
  rw [Bool.and_eq_true, decide_eq_true_iff] at hchecked
  obtain ⟨hshape, hdepth, hsize, hcallable, hgoes, hlength, houtcome⟩ := hchecked
  have hcall : m.control = .call (.function 0) [.array 0, .native 5] := by
    split at hshape
    · assumption
    · cases hshape
  have hgoing := Machine.always_steps hgoes
  have hbegins : ¬ m.control.IsOutcome := by
    rw [hcall]
    exact id
  have hlasts : ¬ m.Meets m.pending := fun hmeets => hbegins hmeets.2
  have hends : m.Ends m.pending 70 := by
    refine Machine.ends_of_lengths hbegins (fun k hk hpos => ?_) hlength houtcome
    obtain ⟨k, rfl⟩ := Nat.exists_eq_add_of_lt hpos
    have := hgoing (0 + k) (by omega)
    simp only [Machine.goesOn, Bool.and_eq_true, decide_eq_true_eq] at this
    exact this.1
  have hreturns : ∀ calls c args, Machine.Calls m.pending m.step calls c → c.control = .call (.native 5) args →
      ∃ n v, c.Ends c.pending n ∧ (c.steps n).control = .give v ∧
        (c.steps n).store.elements 0 = c.store.elements 0 := by
    intro calls c args hpath hcontrol
    obtain ⟨k, rfl, hk⟩ := Machine.Calls.lasts (a := m.anchor) hpath
      ((Machine.begins hbegins).step hlasts (Realm.all_makes _ _))
    have hle : k ≤ 69 := by
      by_contra hlarge
      exact hk 69 (by omega) hends.meets
    obtain rfl | hlt := Nat.eq_or_lt_of_le hle
    · refine absurd houtcome ?_
      rw [show (m.steps (68 + 2)).control = _ from hcontrol]
      exact id
    have hstep := hgoing k (by omega)
    simp only [Machine.goesOn, hcontrol, Bool.and_eq_true, decide_eq_true_eq] at hstep
    obtain ⟨n, v, hends', hgive, hstore⟩ := (h.steps (k + 1)).ends_type hcontrol hstep.2.1 hstep.2.2
    exact ⟨n, v, hends', hgive, congrArg (Store.elements · 0) hstore⟩
  obtain ⟨n, results, v, hresults, hends', hgive, -, -, hgives⟩ := h.list_functions (F := .map)
    ListFunction.map.lookup_standard hcall (by rw [hsize]; decide) (by rw [hdepth]; decide) hcallable hreturns
  exact ⟨_, _, m, n, results, v, h, hcall, hsize, hends', hgive, hresults.trans hsize, hgives⟩

end Treewalk
