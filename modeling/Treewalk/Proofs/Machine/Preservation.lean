import Treewalk.Proofs.Machine.Halts

/-!
# Steps keep to checked programs

A machine that runs checked programs still does so after a step, with labels for the frames that the step
made (`Machine.Fits.step`). One lemma for each part of the machine says so of that part; the cases
follow the definitions.
-/

namespace Treewalk

/-! ## The regions that a step enters -/

/-- The regions that setting up an instance enters: that of the receiver and that of the method. -/
def Class.setUpRegions (c : Class) : List Region :=
  c.region :: (c.method? Class.initName).toList.map Closure.region

/-- The regions that a statement enters. -/
def Stmt.regions : Stmt → List Region
  | .block pos body => [.block pos body]
  | .forLoop pos start cond step body => [.header pos start cond step body]
  | _ => []

/-- The regions that a call of a value enters. -/
def Store.callRegions (s : Store) : Value → List Region
  | .function f => (s.functions[f]?).toList.map Closure.region
  | .classRef c => (s.classes[c]?).toList.flatMap Class.setUpRegions
  | _ => []

/-- The regions that are entered if a value is handed to a pending part. -/
def Store.resumeRegions (s : Store) (v : Value) : Pending → List Region
  | .property _ _ =>
    match v with
    | .object i => (s.classOf? i).toList.map Class.region
    | _ => []
  | .field _ _ _ cls _ _ => cls.setUpRegions
  | _ => []

namespace Machine

/-- The regions that the next step enters, unless something fails before. -/
def candidates (m : Machine) : List Region :=
  match m.control with
  | .exec stmt => stmt.regions
  | .call callee _ => m.store.callRegions callee
  | .give v => (m.pending.head?.map (m.store.resumeRegions v)).getD []
  | _ => []

/-- The regions of the frames that the next step makes, in order. -/
def opens (m : Machine) : List Region :=
  m.candidates.take (m.step.store.frames.size - m.store.frames.size)

end Machine

section

variable {programs : List (List Stmt)} {labels : List Region} {hosted : Bool} {m : Machine}
  {Γ Γ' : Environs}

/-- A machine runs checked programs once labels are added, the first of some regions. -/
def Advances (programs : List (List Stmt)) (labels : List Region) (hosted : Bool)
    (regions : List Region) (m : Machine) : Prop :=
  ∃ opened, opened <+: regions ∧ m.Fits programs (labels ++ opened) hosted

theorem Advances.stay {regions : List Region} (h : m.Fits programs labels hosted) :
    Advances programs labels hosted regions m :=
  ⟨[], List.nil_prefix, by rwa [List.append_nil]⟩

/-! ## Names -/

theorem Store.target_shortChain {s : Store} {env f : FrameId} {d : Nat} {name : Bytes} {fault : Fault}
    (hancestor : s.ancestor? env d = some f) (h : s.target env d name = .error fault) (n : Int) :
    fault ≠ .shortChain n := by
  unfold Store.target at h
  rw [Int.toNat_natCast, hancestor] at h
  dsimp only at h
  split at h
  · cases h
  · cases h
    exact nofun

/-- A distance never leads beyond the chain. -/
theorem Machine.Holds.ancestor (hm : m.Holds programs labels) {e : Expr}
    (he : Here programs Γ (.expr e)) (henv : Chain labels m.store m.env Γ.layers) {id : NodeId}
    {name : Bytes} (huse : e.use? = some (id, name)) {d : Nat} (hd : m.distances.find? id = some d) :
    ∃ f, m.store.ancestor? m.env d = some f := by
  rw [hm.known.find?_eq he huse] at hd
  obtain ⟨layer, hlayer, -⟩ := Environs.distance?_layer hd
  obtain ⟨f, hf, -⟩ := henv.ancestor d layer hlayer
  exact ⟨f, hf⟩

theorem Machine.Holds.read_fits (hm : m.Holds programs labels) {e : Expr}
    (he : Here programs Γ (.expr e)) (henv : Chain labels m.store m.env Γ.layers) {id : NodeId}
    {lexeme : Bytes} (huse : e.use? = some (id, lexeme)) {name : Token} (hname : name.Proper) {h : Halt}
    (hread : m.read id name = .error h) (pending : List Pending) : h.Fits hosted pending := by
  have hat : ∀ kind message, (Halt.error (.at name kind message)).Fits hosted pending := fun kind message =>
    .inl (RuntimeError.isLocated_at hname kind message)
  unfold Machine.read at hread
  cases hd : m.distances.find? id with
  | none =>
    simp only [hd] at hread
    cases hget : m.store.get Store.globals name.lexeme with
    | error _ =>
      simp only [hget, Except.mapError] at hread
      cases hread
      exact hat _ _
    | ok v =>
      simp only [hget, Except.mapError] at hread
      split at hread
      · cases hread
        exact hat _ _
      · cases hread
  | some d =>
    simp only [hd, Store.getAt] at hread
    obtain ⟨f, hf⟩ := hm.ancestor he henv huse hd
    cases htarget : m.store.target m.env d name.lexeme with
    | error fault =>
      simp only [htarget, Except.map, Except.mapError] at hread
      cases hread
      exact Store.target_shortChain hf htarget
    | ok found =>
      simp only [htarget, Except.map, Except.mapError] at hread
      split at hread
      · cases hread
        exact hat _ _
      · cases hread

theorem Machine.assignError_at (name : Token) (b : BindError) : (Machine.assignError name b).At name := by
  cases b <;> exact .inl ⟨_, _, rfl⟩

theorem Machine.Holds.destination_fits (hm : m.Holds programs labels) {e : Expr}
    (he : Here programs Γ (.expr e)) (henv : Chain labels m.store m.env Γ.layers) {id : NodeId}
    {lexeme : Bytes} (huse : e.use? = some (id, lexeme)) {name : Token} (hname : name.Proper) {h : Halt}
    (hdest : m.destination id name = .error h) (pending : List Pending) : h.Fits hosted pending := by
  unfold Machine.destination at hdest
  cases hd : m.distances.find? id with
  | none =>
    simp only [hd] at hdest
    cases hassignee : m.store.assignee Store.globals name.lexeme with
    | ok g => simp [hassignee, Except.mapError] at hdest
    | error b =>
      simp only [hassignee, Except.mapError] at hdest
      cases hdest
      exact (Machine.assignError_at name b).fits hname hosted pending
  | some d =>
    simp only [hd] at hdest
    obtain ⟨f, hf⟩ := hm.ancestor he henv huse hd
    cases htarget : m.store.target m.env d name.lexeme with
    | ok found => simp [htarget, Except.map, Except.mapError] at hdest
    | error fault =>
      simp only [htarget, Except.map, Except.mapError] at hdest
      cases hdest
      exact Store.target_shortChain hf htarget

/-! ## Going on -/

section

variable (hm : m.Holds programs labels)

include hm

theorem Machine.Holds.give_fits (hstack : Stack programs labels m.store hosted .value m.env m.pending)
    (v : Value) : (m.give v).Fits programs labels hosted :=
  ⟨⟨hm.known, hm.store⟩, .give hstack⟩

theorem Machine.Holds.halt_fits {a : Awaited}
    (hstack : Stack programs labels m.store hosted a m.env m.pending) {h : Halt}
    (hh : h.Fits hosted m.pending) : (m.halt h).Fits programs labels hosted :=
  ⟨⟨hm.known, hm.store⟩, .halt hh hstack⟩

theorem Machine.Holds.fail_fits {a : Awaited}
    (hstack : Stack programs labels m.store hosted a m.env m.pending) {t : Token} (ht : t.Proper)
    (kind : Diagnostic.Kind) (message : Bytes) :
    (m.fail (.at t kind message)).Fits programs labels hosted :=
  hm.halt_fits hstack (.inl (RuntimeError.isLocated_at ht kind message))

theorem Machine.Holds.complete_fits
    (hstack : Stack programs labels m.store hosted (.completion Γ) m.env m.pending) {c : Completion}
    (hc : c.Fits labels m.store m.env Γ) : (m.complete c).Fits programs labels hosted :=
  ⟨⟨hm.known, hm.store⟩, .complete hc hstack⟩

theorem Machine.Holds.assign_fits {e : Expr} (he : Here programs Γ (.expr e))
    (henv : Chain labels m.store m.env Γ.layers) {id : NodeId} {lexeme : Bytes}
    (huse : e.use? = some (id, lexeme)) {name : Token} (hname : name.Proper)
    (hstack : Stack programs labels m.store hosted .value m.env m.pending) (v result : Value) :
    (m.assign id name v result).Fits programs labels hosted := by
  unfold Machine.assign
  cases hdest : m.destination id name with
  | ok f =>
    exact ⟨⟨hm.known, hm.store.put f name.lexeme v⟩,
      .give (hstack.grow (.put m.store f name.lexeme v))⟩
  | error h => exact hm.halt_fits hstack (hm.destination_fits he henv huse hname hdest _)

/-- An object that is made together with the name it is bound to: its code may use the name. -/
theorem Machine.Holds.define_fits (henv : Chain labels m.store m.env Γ.layers) {name : Token}
    (hname : name.Proper) (hlayers : Γ'.layers = (Γ.add name.lexeme).layers) {s : Store}
    (hframes : s.frames = m.store.frames)
    (hs : ∀ s' : Store, m.store.Grows s' → s'.frames.size = m.store.frames.size →
      s'.functions = s.functions → s'.classes = s.classes →
      Chain labels s' m.env (Γ.add name.lexeme).layers → s'.Fits programs labels)
    (hstack : Stack programs labels m.store hosted (.completion Γ') m.env m.pending) (v : Value) :
    ({ m with store := s }.define name v).Fits programs labels hosted := by
  have hgrows : m.store.Grows s := .of_frames hframes
  have hsize : s.frames.size = m.store.frames.size := by rw [hframes]
  unfold Machine.define
  by_cases hbound : s.binds m.env name.lexeme
  · rw [if_pos hbound]
    have hm' : Machine.Holds programs labels { m with store := s } :=
      ⟨hm.known, hs s hgrows hsize rfl rfl ((henv.grow hgrows).add hbound)⟩
    exact hm'.fail_fits (hstack.grow hgrows) hname _ _
  · rw [if_neg hbound]
    have hadd : m.store.Grows (s.add m.env { name := name.lexeme, value := v }) :=
      hgrows.trans (.add s _ _)
    have hadded : (s.add m.env { name := name.lexeme, value := v }).binds m.env name.lexeme = true :=
      Store.binds_add s (by rw [hsize]; exact henv.env_lt) _
    have hchain := (henv.grow hadd).add hadded
    refine ⟨⟨hm.known, hs _ hadd ?_ rfl rfl hchain⟩, .complete ?_ (hstack.grow hadd)⟩
    · simp [Store.add, hsize]
    · show Chain labels _ m.env Γ'.layers
      rw [hlayers]
      exact hchain

/-! ## Statements -/

theorem Machine.Holds.sequence_fits {stmts : List Stmt} (hs : Here programs Γ (.list stmts))
    (henv : Chain labels m.store m.env Γ.layers)
    (hstack : Stack programs labels m.store hosted (.completion (Γ.afterAll stmts)) m.env m.pending) :
    (m.sequence stmts).Fits programs labels hosted := by
  cases stmts with
  | nil => exact hm.complete_fits hstack henv
  | cons stmt rest =>
    have hstmt : Here programs Γ (.stmt stmt) := hs.part (by simp [Fragment.parts])
    have hrest : Here programs (Γ.after stmt) (.list rest) := hs.part (by simp [Fragment.parts])
    have htakes : (Γ.after stmt).Takes Γ stmt := ⟨rfl, .inr (.of_context (Γ.toContext_after stmt))⟩
    exact ⟨⟨hm.known, hm.store⟩, .exec hstmt henv htakes (.sequence hrest hstack)⟩

theorem Machine.Holds.enterScope (region : Region) :
    Machine.Holds programs (labels ++ [region]) m.enterScope := ⟨hm.known, hm.store.push _ region⟩

omit hm in
theorem Chain.enterScope (henv : Chain labels m.store m.env Γ.layers)
    (hlength : labels.length = m.store.frames.size) (region : Region) :
    Chain (labels ++ [region]) m.enterScope.store m.enterScope.env (Γ.enter region).layers :=
  henv.push hlength region []

omit hm in
theorem Stack.enterScope (henv : Chain labels m.store m.env Γ.layers)
    (hstack : Stack programs labels m.store hosted (.completion Γ) m.env m.pending)
    (hadmits : Γ.Admits Γ') (region : Region) :
    Stack programs (labels ++ [region]) m.enterScope.store hosted (.completion Γ') m.enterScope.env
      m.enterScope.pending := by
  have hgrows : m.store.Grows m.enterScope.store := .push m.store _
  have hlabels : labels <+: labels ++ [region] := List.prefix_append _ _
  exact .restore (henv.mono hgrows hlabels) hadmits (hstack.mono hgrows hlabels)

section

variable {pos : Position} {start : Option Stmt} {cond step : Option Expr} {body : Stmt}
  (hs : Here programs Γ (.stmt (.forLoop pos start cond step body)))
  (henv : Chain labels m.store m.env (Γ.round pos start cond step body).layers)
  (hstack : Stack programs labels m.store hosted (.completion (Γ.round pos start cond step body)) m.env
    m.pending)

include hs henv hstack

theorem Machine.Holds.forTest_fits : (m.forTest cond step body).Fits programs labels hosted := by
  cases cond with
  | some c =>
    have hc : Here programs (Γ.round pos start (some c) step body) (.expr c) :=
      hs.part (by simp [Fragment.parts, Stmt.parts, Environs.round])
    exact ⟨⟨hm.known, hm.store⟩, .eval hc henv (.forTest hs henv hstack)⟩
  | none =>
    have hb : Here programs (Γ.round pos start none step body).enterLoop (.stmt body) :=
      hs.part (by simp [Fragment.parts, Stmt.parts, Environs.round])
    have hplaced := (hm.known.placed hs).2
    have htakes : (Γ.round pos start none step body).enterLoop.Takes
        (Γ.round pos start none step body).enterLoop body :=
      .of_not_isDeclaration hplaced rfl (.of_context rfl)
    exact ⟨⟨hm.known, hm.store⟩, .exec hb henv htakes (.forBody hs henv hstack)⟩

theorem Machine.Holds.forStep_fits : (m.forStep cond step body).Fits programs labels hosted := by
  cases step with
  | some e =>
    have he : Here programs (Γ.round pos start cond (some e) body) (.expr e) :=
      hs.part (by simp [Fragment.parts, Stmt.parts, Environs.round])
    exact ⟨⟨hm.known, hm.store⟩, .eval he henv (.forStep hs henv hstack)⟩
  | none => exact hm.forTest_fits hs henv hstack

end

theorem Machine.Holds.exec_fits {stmt : Stmt} (hs : Here programs Γ (.stmt stmt))
    (henv : Chain labels m.store m.env Γ.layers) (htakes : Γ'.Takes Γ stmt)
    (hstack : Stack programs labels m.store hosted (.completion Γ') m.env m.pending) :
    Advances programs labels hosted stmt.regions (m.exec stmt) := by
  have hplaced := hm.known.placed hs
  cases stmt with
  | expression pos e =>
    have he : Here programs Γ (.expr e) := hs.part (by simp [Fragment.parts, Stmt.parts])
    exact .stay ⟨⟨hm.known, hm.store⟩, .eval he henv (.statement .expression hs henv htakes hstack)⟩
  | print pos e =>
    have he : Here programs Γ (.expr e) := hs.part (by simp [Fragment.parts, Stmt.parts])
    exact .stay ⟨⟨hm.known, hm.store⟩, .eval he henv (.statement .print hs henv htakes hstack)⟩
  | declare pos name value =>
    have hname : name.Proper := (hm.known.built hs).1 name (by simp [Stmt.tokens])
    cases value with
    | some e =>
      have he : Here programs (Γ.declare name.lexeme) (.expr e) :=
        hs.part (by simp [Fragment.parts, Stmt.parts])
      exact .stay ⟨⟨hm.known, hm.store⟩,
        .eval he (henv.declare name.lexeme) (.statement .declare hs henv htakes hstack)⟩
    | none =>
      exact .stay (hm.define_fits henv hname htakes.1 rfl
        (fun s' hgrows hsize hfunctions hclasses _ => hm.store.same hgrows hsize hfunctions hclasses)
        hstack .unset)
  | block pos body =>
    have hadmits : Γ'.Admits Γ := htakes.2.resolve_left nofun
    have hback : Chain labels m.store m.env Γ'.layers := by
      rw [htakes.1]
      exact henv
    have hbody : Here programs (Γ.enter (.block pos body)) (.list body) :=
      hs.part (by simp [Fragment.parts, Stmt.parts])
    have hafter : Γ'.Admits ((Γ.enter (.block pos body)).afterAll body) := by
      refine ⟨fun h => hadmits.leaves ?_, fun h => hadmits.returns ?_⟩
      · rwa [Environs.toContext_afterAll] at h
      · rwa [Environs.toContext_afterAll] at h
    refine ⟨[.block pos body], List.prefix_refl _, ?_⟩
    exact (hm.enterScope _).sequence_fits hbody (henv.enterScope hm.store.length _)
      (hstack.enterScope hback hafter _)
  | branch pos cond yes no =>
    have hc : Here programs Γ (.expr cond) := hs.part (by simp [Fragment.parts, Stmt.parts])
    exact .stay ⟨⟨hm.known, hm.store⟩, .eval hc henv (.statement .branch hs henv htakes hstack)⟩
  | loop pos cond body =>
    have hc : Here programs Γ (.expr cond) := hs.part (by simp [Fragment.parts, Stmt.parts])
    exact .stay ⟨⟨hm.known, hm.store⟩, .eval hc henv (.statement .loop hs henv htakes hstack)⟩
  | forLoop pos start cond step body =>
    have hadmits : Γ'.Admits Γ := htakes.2.resolve_left nofun
    have hback : Chain labels m.store m.env Γ'.layers := by
      rw [htakes.1]
      exact henv
    have hround : Γ'.Admits (Γ.round pos start cond step body) := by
      refine ⟨fun h => hadmits.leaves ?_, fun h => hadmits.returns ?_⟩
      · rwa [Environs.round, Environs.toContext_afterOpt] at h
      · rwa [Environs.round, Environs.toContext_afterOpt] at h
    have hm' := hm.enterScope (.header pos start cond step body)
    have henv' := henv.enterScope hm.store.length (.header pos start cond step body)
    have hstack' := hstack.enterScope hback hround (.header pos start cond step body)
    refine ⟨[.header pos start cond step body], List.prefix_refl _, ?_⟩
    cases start with
    | none => exact hm'.forTest_fits hs henv' hstack'
    | some clause =>
      have hclause : Here programs (Γ.enter (.header pos (some clause) cond step body))
          (.stmt clause) := hs.part (by simp [Fragment.parts, Stmt.parts])
      have htakes' : (Γ.round pos (some clause) cond step body).quiet.Takes
          (Γ.enter (.header pos (some clause) cond step body)) clause :=
        ⟨rfl, .inl (hplaced.1 clause rfl)⟩
      exact ⟨⟨hm'.known, hm'.store⟩, .exec hclause henv' htakes' (.forStart hs hstack')⟩
  | leave keyword =>
    have hadmits : Γ'.Admits Γ := htakes.2.resolve_left nofun
    exact .stay (hm.complete_fits hstack (hadmits.leaves hplaced))
  | skip keyword =>
    have hadmits : Γ'.Admits Γ := htakes.2.resolve_left nofun
    exact .stay (hm.complete_fits hstack (hadmits.leaves hplaced))
  | result keyword value =>
    cases value with
    | some e =>
      have he : Here programs Γ (.expr e) := hs.part (by simp [Fragment.parts, Stmt.parts])
      exact .stay ⟨⟨hm.known, hm.store⟩, .eval he henv (.statement .result hs henv htakes hstack)⟩
    | none =>
      have hadmits : Γ'.Admits Γ := htakes.2.resolve_left nofun
      exact .stay (hm.complete_fits hstack (hadmits.returns hplaced))
  | function d =>
    have htokens := (hm.known.built hs).1
    have hbody : Here programs ((Γ.add d.name.lexeme).enterFunction .function d.params d.body)
        (.list d.body) := hs.part (by simp [Fragment.parts, Stmt.parts])
    refine .stay ?_
    show ({ m with store := (m.store.newFunction _).2 }.define d.name _).Fits programs labels hosted
    refine hm.define_fits henv (htokens d.name List.mem_cons_self) htakes.1 (by rfl) ?_ hstack _
    intro s' hgrows hsize hfunctions hclasses hchain
    refine hm.store.withFunction hgrows hsize hfunctions hclasses ⟨?_, _, _, hchain, hbody⟩
    exact fun p hp => htokens p (List.mem_cons_of_mem _ hp)
  | classDecl pos name fields methods =>
    have htokens := (hm.known.built hs).1
    refine .stay ?_
    show ({ m with store := (m.store.newClass _).2 }.define name _).Fits programs labels hosted
    refine hm.define_fits henv (htokens name List.mem_cons_self) htakes.1 (by rfl) ?_ hstack _
    intro s' hgrows hsize hfunctions hclasses hchain
    refine hm.store.withClass hgrows hsize hfunctions hclasses ⟨Γ.add name.lexeme, hchain, ?_, ?_⟩
    · intro f hf
      refine hs.part ?_
      simp only [Fragment.parts, Stmt.parts, List.mem_append, List.mem_map]
      exact .inl ⟨f, hf, rfl⟩
    · intro closure hclosure
      obtain ⟨f, hf, rfl⟩ := List.mem_map.1 hclosure
      refine ⟨rfl, fun p hp => htokens p ?_, f.bodyKind, hs.part ?_⟩
      · exact List.mem_cons_of_mem _ (List.mem_flatMap.2 ⟨f, hf, List.mem_cons_of_mem _ hp⟩)
      · simp only [Fragment.parts, Stmt.parts, List.mem_append, List.mem_map]
        refine .inr ⟨f, hf, ?_⟩
        simp only [Class.region, Region.ofClass, List.map_map]
        rfl

/-! ## Calls -/

omit hm in
theorem Machine.bindParams_error {e : RuntimeError} : ∀ {ps : List Token} {vs : List Value}
    {done : List Binding}, Machine.bindParams done ps vs = .error e →
      ∃ p ∈ ps, ∃ kind message, e = .at p kind message
  | [], _, _, h => by simp [Machine.bindParams] at h
  | _ :: _, [], _, h => by simp [Machine.bindParams] at h
  | p :: ps, v :: vs, done, h => by
    rw [Machine.bindParams] at h
    split at h
    · cases h
      exact ⟨p, List.mem_cons_self, _, _, rfl⟩
    · obtain ⟨q, hq, he⟩ := Machine.bindParams_error h
      exact ⟨q, List.mem_cons_of_mem _ hq, he⟩

omit hm in
/-- Every parameter that has an argument is bound. -/
theorem Machine.bindParams_ok {bindings : List Binding} : ∀ {ps : List Token} {vs : List Value}
    {done : List Binding}, vs.length = ps.length → Machine.bindParams done ps vs = .ok bindings →
      (∀ b ∈ done, b ∈ bindings) ∧ ∀ p ∈ ps, ∃ b ∈ bindings, b.name = p.lexeme
  | [], [], done, _, h => by
    obtain rfl : done = bindings := by simpa [Machine.bindParams] using h
    exact ⟨fun b hb => hb, nofun⟩
  | p :: ps, v :: vs, done, hlength, h => by
    rw [Machine.bindParams] at h
    split at h
    · cases h
    · obtain ⟨hdone, hps⟩ := Machine.bindParams_ok (by simpa using hlength) h
      refine ⟨fun b hb => hdone b (List.mem_append_left _ hb), List.forall_mem_cons.2 ⟨?_, hps⟩⟩
      exact ⟨_, hdone _ (List.mem_append_right _ List.mem_cons_self), rfl⟩

omit hm in
/-- What holds of all arguments holds of the values that are bound to parameters. -/
theorem Machine.bindParams_values {P : Value → Prop} {bindings : List Binding} : ∀ {ps : List Token}
    {vs : List Value} {done : List Binding}, (∀ v ∈ vs, P v) → (∀ b ∈ done, P b.value) →
      Machine.bindParams done ps vs = .ok bindings → ∀ b ∈ bindings, P b.value
  | p :: ps, v :: vs, done, hvs, hdone, h => by
    rw [Machine.bindParams] at h
    split at h
    · cases h
    · obtain ⟨hv, hvs⟩ := List.forall_mem_cons.1 hvs
      refine Machine.bindParams_values hvs (fun b hb => ?_) h
      rcases List.mem_append.1 hb with hb | hb
      · exact hdone b hb
      · rw [List.mem_singleton.1 hb]
        exact hv
  | [], _, done, _, hdone, h => by
    obtain rfl : done = bindings := by simpa [Machine.bindParams] using h
    exact hdone
  | _ :: _, [], done, _, hdone, h => by
    obtain rfl : done = bindings := by simpa [Machine.bindParams] using h
    exact hdone

theorem Machine.Holds.callClosure_fits {f : Closure} (hf : f.Fits programs labels m.store)
    {args : List Value} (hargs : args.length = f.params.length)
    (hstack : Stack programs labels m.store hosted .value m.env m.pending) :
    Advances programs labels hosted [f.region] (m.callClosure f args) := by
  obtain ⟨hparams, Γ, kind, hchain, hbody⟩ := hf
  unfold Machine.callClosure
  cases hbind : Machine.bindParams [] f.params args with
  | error e =>
    obtain ⟨p, hp, kind, message, rfl⟩ := Machine.bindParams_error hbind
    exact .stay (hm.fail_fits hstack (hparams p hp) kind message)
  | ok bindings =>
    obtain ⟨-, hbound⟩ := Machine.bindParams_ok hargs hbind
    have hgrows := Store.Grows.push m.store { parent := some f.env, bindings }
    have hlabels : labels <+: labels ++ [f.region] := List.prefix_append _ _
    -- the parameters are bound in the new frame
    have hnames : ∀ p ∈ f.params, Store.binds
        { m.store with frames := m.store.frames.push { parent := some f.env, bindings } }
        m.store.frames.size p.lexeme = true := by
      intro p hp
      obtain ⟨b, hb, hname⟩ := hbound p hp
      rw [Store.binds, Store.frame_push_size, Frame.find?, List.find?_isSome]
      exact ⟨b, hb, by rw [hname]; exact beq_self_eq_true _⟩
    have henter := hchain.push hm.store.length f.region bindings
    have henv : Chain (labels ++ [f.region]) _ m.store.frames.size
        (Γ.enterFunction kind f.params f.body).layers :=
      Chain.addAll (Γ := { Γ.enter f.region with
        toContext := Γ.toContext.enter kind Γ.layers.length }) henter hnames
    have hloop : ((Γ.enterFunction kind f.params f.body).afterAll f.body).inLoop = false := by
      rw [Environs.toContext_afterAll, Environs.toContext_enterFunction]
      rfl
    refine ⟨[f.region], List.prefix_refl _, ?_⟩
    have hm' : Machine.Holds programs (labels ++ [f.region])
        { m with
          store := { m.store with frames := m.store.frames.push { parent := some f.env, bindings } }
          env := m.store.frames.size
          pending := .body f m.env :: m.pending } := ⟨hm.known, hm.store.push _ _⟩
    exact hm'.sequence_fits hbody henv (.body hloop (hstack.mono hgrows hlabels))

omit hm in
theorem Class.method?_mem {c : Class} {name : Bytes} {f : Closure} (h : c.method? name = some f) :
    f ∈ c.methods := List.mem_reverse.1 (List.mem_of_find?_eq_some h)

/-- A method with its receiver. -/
theorem Machine.Holds.bind_fits {cls : Class} (hcls : cls.Fits programs labels m.store) {f : Closure}
    (hf : f ∈ cls.methods) (object : InstanceId) :
    (m.store.bind f object).1.Fits programs (labels ++ [cls.region]) (m.store.bind f object).2 := by
  obtain ⟨Γ, hchain, -, hmethods⟩ := hcls
  obtain ⟨henv, hparams, kind, hbody⟩ := hmethods f hf
  refine ⟨hparams, Γ.receive cls.region, kind, ?_, hbody⟩
  rw [← henv] at hchain
  have henter := hchain.push hm.store.length cls.region
    [{ name := Store.receiverName, value := .object object }]
  have hthis : (m.store.bind f object).2.binds m.store.frames.size (text "this") = true := by
    rw [Store.binds]
    show ((Store.frame { m.store with frames := m.store.frames.push _ } m.store.frames.size).find?
      _).isSome = true
    rw [Store.frame_push_size]
    rfl
  exact Chain.add (Γ := Γ.enter cls.region) henter hthis

theorem Machine.Holds.setUp_fits {cls : Class} (hcls : cls.Fits programs labels m.store)
    {args : List Value} (hargs : args.length = cls.arity)
    (hstack : Stack programs labels m.store hosted .value m.env m.pending) (object : InstanceId) :
    Advances programs labels hosted cls.setUpRegions (m.setUp object cls args) := by
  unfold Machine.setUp
  cases hinit : cls.method? Class.initName with
  | none => exact .stay (hm.give_fits hstack _)
  | some init =>
    have hlength : args.length = init.params.length := by
      rw [hargs, Class.arity, hinit]
      rfl
    have hgrows : m.store.Grows (m.store.bind init object).2 := .push m.store _
    have hlabels : labels <+: labels ++ [cls.region] := List.prefix_append _ _
    have hm' : Machine.Holds programs (labels ++ [cls.region])
        { m with
          store := (m.store.bind init object).2
          pending := .construct object :: m.pending } := ⟨hm.known, hm.store.push _ _⟩
    obtain ⟨opened, hopened, hfits⟩ := hm'.callClosure_fits
      (hm.bind_fits hcls (Class.method?_mem hinit) object) hlength
      (.construct (hstack.mono hgrows hlabels))
    refine ⟨cls.region :: opened, ?_, by simpa using hfits⟩
    rw [Class.setUpRegions, hinit]
    exact (List.prefix_cons_inj cls.region).2 hopened

theorem Machine.Holds.initFields_fits {cls : Class} (hcls : cls.Fits programs labels m.store)
    {args : List Value} (hargs : args.length = cls.arity)
    (hstack : Stack programs labels m.store hosted .value m.env m.pending) (object : InstanceId)
    {fields : List Field} (hfields : ∀ f ∈ fields, f ∈ cls.fields) :
    Advances programs labels hosted cls.setUpRegions (m.initFields object cls args fields) := by
  cases fields with
  | nil => exact hm.setUp_fits hcls hargs hstack object
  | cons f rest =>
    obtain ⟨Γ, hchain, hvalues, _⟩ := id hcls
    have hmore : ∀ g ∈ rest, g ∈ cls.fields := fun g hg => hfields g (List.mem_cons_of_mem _ hg)
    exact .stay ⟨⟨hm.known, hm.store⟩, .eval (hvalues f (hfields f List.mem_cons_self)) hchain
      (.field hcls hmore hargs hstack)⟩

theorem Machine.Holds.runScript_fits (hguard : Guarded hosted m.pending)
    (hstack : Stack programs labels m.store hosted .value m.env m.pending) (script : Script) :
    (m.runScript script).Fits programs labels hosted := by
  induction script with
  | give v => exact hm.give_fits hstack v
  | fail e => exact hm.halt_fits hstack (.inr hguard)
  | failPlain message => exact hm.halt_fits hstack hguard
  | look array next ih => exact ih _
  | call callee args rescues next _ =>
    exact ⟨⟨hm.known, hm.store⟩, .call hguard (.callback hguard hstack)⟩

theorem Machine.Holds.callNative_fits (hguard : Guarded hosted m.pending)
    (hstack : Stack programs labels m.store hosted .value m.env m.pending) (op : NativeOp)
    (args : List Value) : (m.callNative op args).Fits programs labels hosted := by
  unfold Machine.callNative
  split
  · exact hm.runScript_fits hguard hstack _
  · have hsame := NativeOp.run_store op args ⟨m.store, m.console⟩
    have hfault := fun f => @NativeOp.run_fault op args ⟨m.store, m.console⟩ f
    generalize op.run args ⟨m.store, m.console⟩ = outcome at hsame hfault
    obtain ⟨result, w⟩ := outcome
    have hstore : w.store.Fits programs labels :=
      hm.store.of_eq hsame.frames hsame.functions hsame.classes
    have hstack' := hstack.grow (Store.Grows.of_frames hsame.frames)
    refine ⟨⟨hm.known, hstore⟩, ?_⟩
    cases result with
    | ok v => exact .give hstack'
    | error h =>
      refine .halt ?_ hstack'
      cases h with
      | error e => exact .inr hguard
      | plain message => exact hguard
      | fault f =>
        rw [hfault f rfl]
        exact fun _ => nofun

omit hm in
theorem Machine.signature?_of_refusal? {s : Store} {callee : Value} {count : Nat}
    (h : Machine.refusal? s callee count = none) :
    ∃ name, Machine.signature? s callee = some (name, count) := by
  unfold Machine.refusal? at h
  split at h
  · cases h
  · rename_i name arity hsignature
    split at h
    · rename_i harity
      exact ⟨name, by rw [hsignature, harity]⟩
    · cases h

omit hm in
/-- A counted call changes the stack, the depth and the log only. -/
theorem Machine.enterCall_ok {name : Bytes} {count : Nat} {m' : Machine}
    (h : m.enterCall name count = .ok m') : m'.store = m.store ∧ m'.env = m.env ∧
      m'.distances = m.distances ∧ m'.pending = .depart m.depth :: m.pending := by
  unfold Machine.enterCall at h
  split at h
  · cases h
  · cases h
    exact ⟨rfl, rfl, rfl, rfl⟩

theorem Machine.Holds.invoke_fits (hguard : Guarded hosted m.pending)
    (hstack : Stack programs labels m.store hosted .value m.env m.pending) (callee : Value)
    (args : List Value) :
    Advances programs labels hosted (m.store.callRegions callee) (m.invoke callee args) := by
  unfold Machine.invoke
  cases hrefusal : Machine.refusal? m.store callee args.length with
  | some message => exact .stay (hm.halt_fits hstack (.inr hguard))
  | none =>
    obtain ⟨name, hsignature⟩ := Machine.signature?_of_refusal? hrefusal
    simp only
    cases henter : m.enterCall _ args.length with
    | error e => exact .stay (hm.halt_fits hstack (.inr hguard))
    | ok m' =>
      obtain ⟨hstore, henv, hdistances, hpending⟩ := Machine.enterCall_ok henter
      have hm' : m'.Holds programs labels := by
        refine ⟨?_, ?_⟩
        · rw [hdistances]
          exact hm.known
        · rw [hstore]
          exact hm.store
      have hguard' : Guarded hosted m'.pending := by
        rw [hpending]
        exact hguard
      have hstack' : Stack programs labels m'.store hosted .value m'.env m'.pending := by
        rw [hstore, henv, hpending]
        exact .depart hguard hstack
      rw [← hstore] at hsignature ⊢
      cases callee with
      | function f =>
        cases hf : m'.store.functions[f]? with
        | none => simp [Machine.signature?, hf] at hsignature
        | some closure =>
          have hlength : args.length = closure.params.length := by
            have hsome : some (closure.name, closure.params.length) = some (name, args.length) := by
              rw [← hsignature, Machine.signature?, hf]
              rfl
            exact ((Prod.mk.inj (Option.some.inj hsome)).2).symm
          simp only [hf, Store.callRegions]
          exact hm'.callClosure_fits (hm'.store.functions _ (Array.mem_of_getElem? hf)) hlength hstack'
      | classRef c =>
        cases hc : m'.store.classes[c]? with
        | none => simp [Machine.signature?, hc] at hsignature
        | some cls =>
          have hlength : args.length = cls.arity := by
            have hsome : some (cls.name, cls.arity) = some (name, args.length) := by
              rw [← hsignature, Machine.signature?, hc]
              rfl
            exact ((Prod.mk.inj (Option.some.inj hsome)).2).symm
          simp only [hc, Store.callRegions, Option.toList_some, List.flatMap_cons, List.flatMap_nil,
            List.append_nil]
          have hgrows : m'.store.Grows (m'.store.newInstance c).2 := .of_frames rfl
          have hnew : Machine.Holds programs labels { m' with store := (m'.store.newInstance c).2 } :=
            ⟨hm'.known, hm'.store.of_eq rfl rfl rfl⟩
          have hcls := hm'.store.classes _ (Array.mem_of_getElem? hc)
          exact hnew.initFields_fits (hcls.mono hgrows (List.prefix_refl _)) hlength
            (hstack'.grow hgrows) _ fun f hf => hf
      | native n =>
        cases hn : m'.store.natives[n]? with
        | none => simp [Machine.signature?, hn] at hsignature
        | some native =>
          simp only [hn]
          exact .stay (hm'.callNative_fits hguard' hstack' native.op args)
      | _ => cases hsignature

theorem Machine.Holds.callAt_fits {paren : Token} (hparen : paren.Proper)
    (hstack : Stack programs labels m.store hosted .value m.env m.pending) (callee : Value)
    (args : List Value) : (m.callAt paren callee args).Fits programs labels hosted := by
  unfold Machine.callAt
  split
  · exact hm.fail_fits hstack hparen _ _
  · exact ⟨⟨hm.known, hm.store⟩, .call (.inr trivial) (.site hparen hstack)⟩

/-! ## Expressions -/

theorem Machine.Holds.eval_fits {e : Expr} (he : Here programs Γ (.expr e))
    (henv : Chain labels m.store m.env Γ.layers)
    (hstack : Stack programs labels m.store hosted .value m.env m.pending) :
    (m.eval e).Fits programs labels hosted := by
  have htokens := hm.known.built he
  -- a part of the expression in the same environs, with the expression waiting for it
  have hpush : ∀ {p : Pending} {part : Expr}, e.Suspends p → (Γ, .expr part) ∈ e.parts Γ →
      (m.push p (.eval part)).Fits programs labels hosted := fun hp hpart =>
    ⟨⟨hm.known, hm.store⟩, .eval (he.part hpart) henv (.operand hp he henv hstack)⟩
  cases e with
  | literal id t => exact hm.give_fits hstack _
  | group id t inner =>
    exact ⟨⟨hm.known, hm.store⟩, .eval (he.part (by simp [Fragment.parts, Expr.parts])) henv hstack⟩
  | unary id op t operand => exact hpush .unary (by simp [Expr.parts])
  | binary id op t l r => exact hpush .left (by simp [Expr.parts])
  | logical id op t l r => exact hpush .logical (by simp [Expr.parts])
  | ternary id t c y n => exact hpush .ternary (by simp [Expr.parts])
  | ident id name =>
    have hname : name.Proper := htokens name (by simp [Expr.tokens])
    rw [Machine.eval]
    cases hread : m.read id name with
    | ok v => exact hm.give_fits hstack v
    | error h => exact hm.halt_fits hstack (hm.read_fits he henv rfl hname hread _)
  | assign id name value => exact hpush .assign (by simp [Expr.parts])
  | compound id name op t value =>
    have hname : name.Proper := htokens name (by simp [Expr.tokens])
    rw [Machine.eval]
    cases hread : m.read id name with
    | ok v => exact hpush .compound (by simp [Expr.parts])
    | error h => exact hm.halt_fits hstack (hm.read_fits he henv rfl hname hread _)
  | update id name op t before =>
    have hname : name.Proper := htokens name (by simp [Expr.tokens])
    have ht : t.Proper := htokens t (by simp [Expr.tokens])
    rw [Machine.eval]
    cases hread : m.read id name with
    | error h => exact hm.halt_fits hstack (hm.read_fits he henv rfl hname hread _)
    | ok current =>
      simp only
      cases hstep : Operator.step m.store op t current with
      | error h => exact hm.halt_fits hstack ((Operator.step_at hstep).fits ht _ _)
      | ok next => exact hm.assign_fits he henv rfl hname hstack _ _
  | updateIndex id o t i op u before => exact hpush .indexedStep (by simp [Expr.parts])
  | updateGet id o t op u before => exact hpush .getStep (by simp [Expr.parts])
  | call id callee t args => exact hpush .callee (by simp [Expr.parts])
  | lambda id t params body =>
    have hbody : Here programs (Γ.enterFunction .function params body) (.list body) :=
      he.part (by simp [Fragment.parts, Expr.parts])
    have hparams : ∀ p ∈ params, p.Proper := fun p hp => htokens p (List.mem_cons_of_mem _ hp)
    have hgrows : m.store.Grows (m.store.newFunction
        { name := text "lambda", params, body, env := m.env }).2 := .of_frames rfl
    exact ⟨⟨hm.known, hm.store.withFunction hgrows rfl rfl rfl
      ⟨hparams, Γ, .function, henv.grow hgrows, hbody⟩⟩, .give (hstack.grow hgrows)⟩
  | array id t elements =>
    cases elements with
    | nil =>
      exact ⟨⟨hm.known, hm.store.of_eq rfl rfl rfl⟩, .give (hstack.grow (.of_frames rfl))⟩
    | cons e rest => exact hpush (.element (List.suffix_cons e rest)) (by simp [Expr.parts])
  | index id o t i => exact hpush .indexed (by simp [Expr.parts])
  | get id o t => exact hpush .get (by simp [Expr.parts])
  | set id o t value => exact hpush .set (by simp [Expr.parts])
  | this id keyword =>
    have hkeyword : keyword.Proper := htokens keyword (by simp [Expr.tokens])
    rw [Machine.eval]
    cases hread : m.read id keyword with
    | ok v => exact hm.give_fits hstack v
    | error h => exact hm.halt_fits hstack (hm.read_fits he henv rfl hkeyword hread _)

theorem Machine.Holds.giveResult_fits
    (hstack : Stack programs labels m.store hosted .value m.env m.pending) {t : Token} (ht : t.Proper)
    {result : Operator.Result} (hresult : ∀ h, result = .error h → h.At t) :
    (m.giveResult result).Fits programs labels hosted := by
  cases result with
  | ok v => exact hm.give_fits hstack v
  | error h => exact hm.halt_fits hstack ((hresult h rfl).fits ht _ _)

/-- The tokens that errors about an element are reported at. -/
def ElementUse.tokens : ElementUse → List Token
  | .read => []
  | .step _ token _ => [token]

theorem Machine.Holds.useElement_fits
    (hstack : Stack programs labels m.store hosted .value m.env m.pending) {t : Token} (ht : t.Proper)
    {use : ElementUse} (huse : ∀ u ∈ use.tokens, u.Proper) (object index : Value) :
    (m.useElement t object index use).Fits programs labels hosted := by
  unfold Machine.useElement
  cases helement : Operator.element m.store t object index with
  | error h => exact hm.halt_fits hstack ((Operator.element_at helement).fits ht _ _)
  | ok place =>
    obtain ⟨a, i⟩ := place
    cases use with
    | read => exact hm.give_fits hstack _
    | step op token before =>
      simp only
      have htoken : token.Proper := huse token (by simp [ElementUse.tokens])
      cases hstep : Operator.step m.store op token _ with
      | error h => exact hm.halt_fits hstack ((Operator.step_at hstep).fits htoken _ _)
      | ok next =>
        exact ⟨⟨hm.known, hm.store.of_eq rfl rfl rfl⟩, .give (hstack.grow (.of_frames rfl))⟩

/-- Reading a property may make a method with its receiver. -/
theorem Machine.Holds.property_fits (i : InstanceId) (name : Bytes) :
    ∃ opened, opened <+: (m.store.classOf? i).toList.map Class.region ∧
      (m.store.property i name).2.Fits programs (labels ++ opened) ∧
      m.store.Grows (m.store.property i name).2 := by
  have hsame : m.store.Fits programs (labels ++ []) := by
    rw [List.append_nil]
    exact hm.store
  unfold Store.property
  split
  · exact ⟨[], List.nil_prefix, hsame, .refl _⟩
  · split
    · exact ⟨[], List.nil_prefix, hsame, .refl _⟩
    · rename_i f hmethod
      obtain ⟨cls, hcls, hf⟩ := Option.bind_eq_some_iff.1 hmethod
      have hmem : cls ∈ m.store.classes := by
        obtain ⟨inst, -, hclass⟩ := Option.bind_eq_some_iff.1 hcls
        exact Array.mem_of_getElem? hclass
      have hbound := hm.bind_fits (hm.store.classes cls hmem) (Class.method?_mem hf) i
      have hframe : (m.store.bind f i).2.Fits programs (labels ++ [cls.region]) := hm.store.push _ _
      have hgrows : (m.store.bind f i).2.Grows
          ((m.store.bind f i).2.newFunction (m.store.bind f i).1).2 := .of_frames rfl
      refine ⟨[cls.region], by simp [hcls], ?_, (Store.Grows.push m.store _).trans hgrows⟩
      exact hframe.withFunction hgrows rfl rfl rfl (hbound.mono hgrows (List.prefix_refl _))

theorem Machine.Holds.readProperty_fits
    (hstack : Stack programs labels m.store hosted .value m.env m.pending) {name : Token}
    (hname : name.Proper) (v : Value) :
    Advances programs labels hosted (m.store.resumeRegions v (.property name .read))
      (m.readProperty name v) := by
  cases v with
  | object i =>
    obtain ⟨opened, hopened, hstore, hgrows⟩ := hm.property_fits i name.lexeme
    have hstack' := hstack.mono hgrows (List.prefix_append labels opened)
    refine ⟨opened, hopened, ?_⟩
    rw [Machine.readProperty]
    rcases hproperty : m.store.property i name.lexeme with ⟨_ | v, store⟩
    · rw [hproperty] at hstore hstack'
      have hm' : Machine.Holds programs (labels ++ opened) { m with store } := ⟨hm.known, hstore⟩
      exact hm'.fail_fits hstack' hname _ _
    · rw [hproperty] at hstore hstack'
      exact ⟨⟨hm.known, hstore⟩, .give hstack'⟩
  | host h =>
    rw [Machine.readProperty]
    split
    · exact .stay (hm.give_fits hstack _)
    · exact .stay (hm.fail_fits hstack hname _ _)
  | hollow h =>
    cases h with
    | object => exact .stay (hm.halt_fits hstack fun _ => nofun)
    | _ => exact .stay (hm.fail_fits hstack hname _ _)
  | _ => exact .stay (hm.fail_fits hstack hname _ _)

theorem Machine.Holds.stepProperty_fits
    (hstack : Stack programs labels m.store hosted .value m.env m.pending) {name token : Token}
    (hname : name.Proper) (htoken : token.Proper) (op : StepOp) (before : Bool) (v : Value) :
    Advances programs labels hosted
      (m.store.resumeRegions v (.property name (.step op token before)))
      (m.stepProperty name op token before v) := by
  cases v with
  | object i =>
    obtain ⟨opened, hopened, hstore, hgrows⟩ := hm.property_fits i name.lexeme
    have hstack' := hstack.mono hgrows (List.prefix_append labels opened)
    refine ⟨opened, hopened, ?_⟩
    rw [Machine.stepProperty]
    rcases hproperty : m.store.property i name.lexeme with ⟨_ | current, store⟩
    · rw [hproperty] at hstore hstack'
      have hm' : Machine.Holds programs (labels ++ opened) { m with store } := ⟨hm.known, hstore⟩
      exact hm'.fail_fits hstack' hname _ _
    · rw [hproperty] at hstore hstack'
      have hm' : Machine.Holds programs (labels ++ opened) { m with store } := ⟨hm.known, hstore⟩
      simp only
      cases hstep : Operator.step store op token current with
      | error h => exact hm'.halt_fits hstack' ((Operator.step_at hstep).fits htoken _ _)
      | ok next =>
        exact ⟨⟨hm.known, hstore.of_eq rfl rfl rfl⟩, .give (hstack'.grow (.of_frames rfl))⟩
  | _ => exact .stay (hm.fail_fits hstack hname _ _)

/-! ## Handing on -/

theorem Machine.Holds.print_fits
    (hstack : Stack programs labels m.store hosted (.completion Γ) m.env m.pending)
    (henv : Chain labels m.store m.env Γ.layers) {pos : Position} (hpos : 1 ≤ pos.line)
    (shown : ByteArray) : (m.print pos shown).Fits programs labels hosted := by
  unfold Machine.print
  split
  · exact ⟨⟨hm.known, hm.store⟩, .complete henv hstack⟩
  · refine hm.halt_fits hstack (.inl ?_)
    have hline : 0 < pos.line := hpos
    simp [RuntimeError.isLocated, hline]

/-- A value for an expression that waits for a part of it. -/
theorem Machine.Holds.resumeOperand_fits {e : Expr} {p : Pending} (hp : e.Suspends p)
    (he : Here programs Γ (.expr e)) (henv : Chain labels m.store m.env Γ.layers)
    (hstack : Stack programs labels m.store hosted .value m.env m.pending) (v : Value) :
    Advances programs labels hosted (m.store.resumeRegions v p) (m.resumeValue p v) := by
  have htokens := hm.known.built he
  -- the next part of the expression, with the expression waiting for it
  have hpush : ∀ {p' : Pending} {part : Expr}, e.Suspends p' → (Γ, .expr part) ∈ e.parts Γ →
      (m.push p' (.eval part)).Fits programs labels hosted := fun hp' hpart =>
    ⟨⟨hm.known, hm.store⟩, .eval (he.part hpart) henv (.operand hp' he henv hstack)⟩
  have hproceed : ∀ {part : Expr}, (Γ, .expr part) ∈ e.parts Γ →
      (m.proceed (.eval part)).Fits programs labels hosted := fun hpart =>
    ⟨⟨hm.known, hm.store⟩, .eval (he.part hpart) henv hstack⟩
  cases hp with
  | @unary _ _ t _ =>
    have ht : t.Proper := htokens t (by simp [Expr.tokens])
    exact .stay (hm.giveResult_fits hstack ht fun h hrun => Operator.unary_at hrun)
  | left => exact .stay (hpush .right (by simp [Expr.parts]))
  | @right _ _ t _ _ _ =>
    have ht : t.Proper := htokens t (by simp [Expr.tokens])
    exact .stay (hm.giveResult_fits hstack ht fun h hrun => Operator.binary_at hrun)
  | logical =>
    unfold Machine.resumeValue
    dsimp only
    split
    · exact .stay (hm.give_fits hstack v)
    · exact .stay (hm.give_fits hstack v)
    · exact .stay (hproceed (by simp [Expr.parts]))
  | @ternary _ t _ yes no =>
    have ht : t.Proper := htokens t (by simp [Expr.tokens])
    cases v with
    | bool b =>
      refine .stay (hproceed ?_)
      cases b <;> simp [Expr.parts]
    | _ => exact .stay (hm.fail_fits hstack ht _ _)
  | @assign _ name _ =>
    have hname : name.Proper := htokens name (by simp [Expr.tokens])
    exact .stay (hm.assign_fits he henv rfl hname hstack v v)
  | @compound _ name op t _ current =>
    have hname : name.Proper := htokens name (by simp [Expr.tokens])
    have ht : t.Proper := htokens t (by simp [Expr.tokens])
    rw [Machine.resumeValue]
    cases hrun : Operator.compound m.store op t current v with
    | ok result => exact .stay (hm.assign_fits he henv rfl hname hstack _ _)
    | error h => exact .stay (hm.halt_fits hstack ((Operator.compound_at hrun).fits ht _ _))
  | indexed => exact .stay (hpush .index (by simp [Expr.parts]))
  | @index _ _ t _ _ =>
    have ht : t.Proper := htokens t (by simp [Expr.tokens])
    have huse : ∀ u ∈ ElementUse.read.tokens, u.Proper := List.forall_mem_nil _
    exact .stay (hm.useElement_fits hstack ht huse _ v)
  | indexedStep => exact .stay (hpush .indexStep (by simp [Expr.parts]))
  | @indexStep _ _ t _ op u before _ =>
    have ht : t.Proper := htokens t (by simp [Expr.tokens])
    have huse : ∀ w ∈ (ElementUse.step op u before).tokens, w.Proper := by
      simpa [ElementUse.tokens] using htokens u (by simp [Expr.tokens])
    exact .stay (hm.useElement_fits hstack ht huse _ v)
  | @get _ _ t => exact hm.readProperty_fits hstack (htokens t (by simp [Expr.tokens])) v
  | @getStep _ _ t op u before =>
    have ht : t.Proper := htokens t (by simp [Expr.tokens])
    have hu : u.Proper := htokens u (by simp [Expr.tokens])
    exact hm.stepProperty_fits hstack ht hu op before v
  | @set _ _ t _ =>
    have ht : t.Proper := htokens t (by simp [Expr.tokens])
    cases v with
    | object i => exact .stay (hpush .write (by simp [Expr.parts]))
    | _ => exact .stay (hm.fail_fits hstack ht _ _)
  | write =>
    exact .stay ⟨⟨hm.known, hm.store.of_eq rfl rfl rfl⟩, .give (hstack.grow (.of_frames rfl))⟩
  | @callee _ _ t args =>
    have ht : t.Proper := htokens t (by simp [Expr.tokens])
    cases args with
    | nil => exact .stay (hm.callAt_fits ht hstack v [])
    | cons a rest =>
      exact .stay (hpush (.argument (List.suffix_cons a rest)) (by simp [Expr.parts]))
  | @argument _ _ t args callee done rest hrest =>
    have ht : t.Proper := htokens t (by simp [Expr.tokens])
    cases rest with
    | nil => exact .stay (hm.callAt_fits ht hstack callee _)
    | cons a rest =>
      have ha : a ∈ args := hrest.mem List.mem_cons_self
      refine .stay (hpush (.argument ((List.suffix_cons a rest).trans hrest)) ?_)
      exact List.mem_cons_of_mem _ (List.mem_map_of_mem ha)
  | @element _ _ elements done rest hrest =>
    cases rest with
    | nil =>
      exact .stay ⟨⟨hm.known, hm.store.of_eq rfl rfl rfl⟩, .give (hstack.grow (.of_frames rfl))⟩
    | cons a rest =>
      have ha : a ∈ elements := hrest.mem List.mem_cons_self
      refine .stay (hpush (.element ((List.suffix_cons a rest).trans hrest)) ?_)
      exact List.mem_map_of_mem ha

/-- A value for a statement that waits for one. -/
theorem Machine.Holds.resumeStatement_fits {stmt : Stmt} {p : Pending} (hp : stmt.Suspends p)
    (hs : Here programs Γ (.stmt stmt)) (henv : Chain labels m.store m.env Γ.layers)
    (htakes : Γ'.Takes Γ stmt)
    (hstack : Stack programs labels m.store hosted (.completion Γ') m.env m.pending) (v : Value) :
    (m.resumeValue p v).Fits programs labels hosted := by
  have hplaced := hm.known.placed hs
  -- a statement that declares nothing, once it is done
  have hdone : stmt.isDeclaration = false → Chain labels m.store m.env Γ'.layers := by
    intro hstmt
    rw [htakes.1, Γ.after_of_not_isDeclaration hstmt]
    exact henv
  cases hp with
  | expression => exact hm.complete_fits hstack (hdone rfl)
  | @print pos _ =>
    obtain ⟨t, ht, hpos⟩ := (hm.known.built hs).2
    have hline : 1 ≤ pos.line := by
      rw [show pos = t.pos from hpos.symm]
      exact ht.line
    rw [Machine.resumeValue]
    cases hdisplay : m.store.display? v with
    | ok shown => exact hm.print_fits hstack (hdone rfl) hline shown
    | error f =>
      rw [Store.display?_error hdisplay]
      exact hm.halt_fits hstack (by simp [Halt.Fits])
  | @declare _ name _ =>
    have hname : name.Proper := (hm.known.built hs).1 name (by simp [Stmt.tokens])
    exact hm.define_fits henv hname htakes.1 rfl
      (fun s' hgrows hsize hfunctions hclasses _ => hm.store.same hgrows hsize hfunctions hclasses)
      hstack v
  | @branch pos cond yes no =>
    have hadmits : Γ'.Admits Γ := htakes.2.resolve_left (by simp [Stmt.isClause])
    have hbranch : ∀ arm, (Γ, .stmt arm) ∈ Stmt.parts Γ (.branch pos cond yes no) →
        arm.isDeclaration = false → (m.proceed (.exec arm)).Fits programs labels hosted :=
      fun arm hpart harm => ⟨⟨hm.known, hm.store⟩, .exec (hs.part hpart) henv
        (.of_not_isDeclaration harm htakes.1 hadmits) hstack⟩
    unfold Machine.resumeValue
    dsimp only
    split
    · exact hbranch yes (by simp [Stmt.parts]) hplaced.1
    · cases no with
      | none => exact hm.complete_fits hstack (hdone rfl)
      | some arm => exact hbranch arm (by simp [Stmt.parts]) (hplaced.2 arm rfl)
  | @loop _ cond body =>
    rw [Machine.resumeValue]
    split
    · have hb : Here programs Γ.enterLoop (.stmt body) :=
        hs.part (by simp [Fragment.parts, Stmt.parts])
      have htakes' : Γ.enterLoop.Takes Γ.enterLoop body :=
        .of_not_isDeclaration hplaced rfl (.of_context rfl)
      exact ⟨⟨hm.known, hm.store⟩, .exec hb henv htakes' (.loopBody hs henv htakes hstack)⟩
    · exact hm.complete_fits hstack (hdone rfl)
  | result =>
    have hadmits : Γ'.Admits Γ := htakes.2.resolve_left (by simp [Stmt.isClause])
    exact hm.complete_fits hstack (hadmits.returns hplaced)

theorem Machine.Holds.resumeValue_fits {p : Pending}
    (hstack : Stack programs labels m.store hosted .value m.env (p :: m.pending)) (v : Value) :
    Advances programs labels hosted (m.store.resumeRegions v p) (m.resumeValue p v) := by
  generalize henv' : m.env = env at hstack
  cases hstack with
  | operand hp he henv h =>
    subst henv'
    exact hm.resumeOperand_fits hp he henv h v
  | statement hp hs henv htakes h =>
    subst henv'
    exact .stay (hm.resumeStatement_fits hp hs henv htakes h v)
  | @forTest pos start cond step body Γ _ _ hs henv h =>
    subst henv'
    rw [Machine.resumeValue]
    split
    · have hb : Here programs (Γ.round pos start cond step body).enterLoop (.stmt body) :=
        hs.part (by simp [Fragment.parts, Stmt.parts, Environs.round])
      have htakes : (Γ.round pos start cond step body).enterLoop.Takes
          (Γ.round pos start cond step body).enterLoop body :=
        .of_not_isDeclaration (hm.known.placed hs).2 rfl (.of_context rfl)
      exact .stay ⟨⟨hm.known, hm.store⟩, .exec hb henv htakes (.forBody hs henv h)⟩
    · exact .stay (hm.complete_fits h henv)
  | forStep hs henv h =>
    subst henv'
    exact .stay (hm.forTest_fits hs henv h)
  | @field object name more cls args _ back _ hcls hmore hargs h =>
    have hgrows : m.store.Grows (m.store.putField object name v) := .of_frames rfl
    have hm' : Machine.Holds programs labels
        { m with store := m.store.putField object name v, env := back } :=
      ⟨hm.known, hm.store.of_eq rfl rfl rfl⟩
    exact hm'.initFields_fits (hcls.mono hgrows (List.prefix_refl _)) hargs (h.grow hgrows) object
      hmore
  | construct h =>
    subst henv'
    exact .stay (hm.give_fits h _)
  | site hparen h =>
    subst henv'
    exact .stay (hm.give_fits h v)
  | depart hguard h =>
    subst henv'
    exact .stay ⟨⟨hm.known, hm.store⟩, .give h⟩
  | callback hguard h =>
    subst henv'
    exact .stay (hm.runScript_fits hguard h _)

theorem Machine.Holds.finishBody_fits
    (hstack : Stack programs labels m.store hosted .value m.env m.pending) {c : Completion}
    {env : FrameId} (hc : c.Fits labels m.store env Γ) (hΓ : Γ.inLoop = false) (f : Closure) :
    (m.finishBody f c).Fits programs labels hosted := by
  have hleft : ¬ Γ.inLoop = true := by simp [hΓ]
  unfold Machine.finishBody
  cases c with
  | leave => exact absurd hc hleft
  | skip => exact absurd hc hleft
  | normal | result v =>
    dsimp only
    split
    · -- the set-up of an instance ends with its receiver
      cases htarget : m.store.target f.env 0 Store.receiverName with
      | ok found =>
        simp only [Store.getAt, htarget, Except.map]
        exact hm.give_fits hstack _
      | error fault =>
        simp only [Store.getAt, htarget, Except.map]
        exact hm.halt_fits hstack (Store.target_shortChain (d := 0) rfl htarget)
    · exact hm.give_fits hstack _

omit hm in
/-- Outside all regions nothing is declared. -/
theorem Environs.after_default (stmt : Stmt) : ({} : Environs).after stmt = {} := by
  cases stmt <;> rfl

theorem Machine.Holds.resumeCompletion_fits {p : Pending} {c : Completion}
    (hc : c.Fits labels m.store m.env Γ)
    (hstack : Stack programs labels m.store hosted (.completion Γ) m.env (p :: m.pending)) :
    (m.resumeCompletion p c).Fits programs labels hosted := by
  generalize henv' : m.env = env at hstack
  generalize hpending : p :: m.pending = pending at hstack
  cases hstack with
  | finished h => cases hpending
  | @program rest h hrest =>
    obtain ⟨rfl, hnil⟩ := List.cons.inj hpending
    obtain rfl : c = .normal := hc.normal rfl rfl
    cases rest with
    | nil =>
      refine hm.complete_fits (Γ := {}) ?_ hc
      rw [henv', hnil]
      exact .finished h
    | cons stmt rest =>
      have hstmt : Here programs {} (.stmt stmt) := hrest.part (by simp [Fragment.parts])
      have hmore : Here programs {} (.list rest) := by
        have hpart := hrest.part (Δ := ({} : Environs).after stmt) (q := .list rest)
          (by simp [Fragment.parts])
        rwa [Environs.after_default] at hpart
      have htakes : ({} : Environs).Takes {} stmt := by
        refine ⟨?_, .inr (.of_context rfl)⟩
        rw [Environs.after_default]
      refine ⟨⟨hm.known, hm.store⟩, .exec hstmt hc htakes ?_⟩
      show Stack programs labels m.store hosted (.completion {}) m.env (.program rest :: m.pending)
      rw [henv', hnil]
      exact .program h hmore
  | @loopBody pos cond body Γ Γ' _ rest hs henv htakes h =>
    obtain ⟨rfl, rfl⟩ := List.cons.inj hpending
    subst henv'
    have hadmits : Γ'.Admits Γ := htakes.2.resolve_left nofun
    have hagain : (m.push (.loopTest cond body) (.eval cond)).Fits programs labels hosted := by
      have hcond : Here programs Γ (.expr cond) := hs.part (by simp [Fragment.parts, Stmt.parts])
      exact ⟨⟨hm.known, hm.store⟩, .eval hcond henv (.statement .loop hs henv htakes h)⟩
    cases c with
    | normal => exact hagain
    | skip => exact hagain
    | leave =>
      refine hm.complete_fits h ?_
      show Chain labels m.store m.env Γ'.layers
      rw [htakes.1]
      exact henv
    | result v => exact hm.complete_fits h (hadmits.returns hc)
  | @forStart pos start cond step body Γ _ rest hs h =>
    obtain ⟨rfl, rfl⟩ := List.cons.inj hpending
    subst henv'
    obtain rfl : c = .normal := hc.normal rfl rfl
    exact hm.forTest_fits hs hc h
  | forBody hs henv h =>
    obtain ⟨rfl, rfl⟩ := List.cons.inj hpending
    subst henv'
    cases c with
    | normal => exact hm.forStep_fits hs henv h
    | skip => exact hm.forStep_fits hs henv h
    | leave => exact hm.complete_fits h henv
    | result v => exact hm.complete_fits h hc
  | @sequence stmts Γ _ rest hs h =>
    obtain ⟨rfl, rfl⟩ := List.cons.inj hpending
    subst henv'
    cases c with
    | normal => exact hm.sequence_fits hs hc h
    | leave | skip =>
      refine hm.complete_fits h ?_
      show (Γ.afterAll stmts).inLoop = true
      rw [Environs.toContext_afterAll]
      exact hc
    | result v =>
      refine hm.complete_fits h ?_
      show (Γ.afterAll stmts).body ≠ .none
      rw [Environs.toContext_afterAll]
      exact hc
  | @restore Γ _ _ back rest hback hadmits h =>
    obtain ⟨rfl, rfl⟩ := List.cons.inj hpending
    refine ⟨⟨hm.known, hm.store⟩, .complete (Γ := Γ) ?_ h⟩
    cases c with
    | normal => exact hback
    | leave | skip => exact hadmits.leaves hc
    | result v => exact hadmits.returns hc
  | @body f _ _ back rest hΓ h =>
    obtain ⟨rfl, rfl⟩ := List.cons.inj hpending
    have hm' : Machine.Holds programs labels { m with env := back } := ⟨hm.known, hm.store⟩
    exact hm'.finishBody_fits h hc hΓ f

/-! ## Unwinding -/

omit hm in
/-- Whatever waits for a place gets one at a call. -/
theorem Halt.Fits.atCall {h : Halt} {p : Token} {pending pending' : List Pending} (hh : h.Fits hosted pending)
    (hp : p.Proper) (callee : Bytes) : (h.atCall p callee).Fits hosted pending' := by
  have hline : 0 < p.pos.line := hp.line
  cases h with
  | error e =>
    left
    show RuntimeError.isLocated (if e.isLocated then e else { e with site := some p.site }) = true
    split
    · assumption
    · simp [RuntimeError.isLocated, Token.site, hline]
  | plain message =>
    left
    simp [RuntimeError.isLocated, Token.site, hline]
  | fault f => exact hh

omit hm in
/-- A part that is neither a call nor made by the host does not shield. -/
theorem Halt.Fits.pass {h : Halt} {p : Pending} {pending : List Pending}
    (hh : h.Fits hosted (p :: pending)) (hp : Shielded (p :: pending) → Guarded hosted pending) :
    h.Fits hosted pending := by
  have hguard : Guarded hosted (p :: pending) → Guarded hosted pending := by
    rintro (hhosted | hshielded)
    · exact .inl hhosted
    · exact hp hshielded
  cases h with
  | error e => exact hh.imp id hguard
  | plain message => exact hguard hh
  | fault f => exact hh

theorem Machine.Holds.unwind_fits {a : Awaited} {p : Pending} {h : Halt}
    (hh : h.Fits hosted (p :: m.pending))
    (hstack : Stack programs labels m.store hosted a m.env (p :: m.pending)) :
    (m.unwind p h).Fits programs labels hosted := by
  generalize henv' : m.env = env at hstack
  generalize hpending : p :: m.pending = pending at hstack
  cases hstack with
  | returned | finished => cases hpending
  | program hhosted hrest =>
    obtain ⟨rfl, hnil⟩ := List.cons.inj hpending
    refine hm.halt_fits (a := .completion {}) ?_ (hh.pass False.elim)
    rw [henv', hnil]
    exact .finished hhosted
  | operand hp he henv h =>
    obtain ⟨rfl, rfl⟩ := List.cons.inj hpending
    subst henv'
    cases hp <;> exact hm.halt_fits h (hh.pass False.elim)
  | statement hp hs henv htakes h =>
    obtain ⟨rfl, rfl⟩ := List.cons.inj hpending
    subst henv'
    cases hp <;> exact hm.halt_fits h (hh.pass False.elim)
  | loopBody _ _ _ h | forStart _ h | forTest _ _ h | forBody _ _ h | forStep _ _ h | sequence _ h
  | construct h =>
    obtain ⟨rfl, rfl⟩ := List.cons.inj hpending
    subst henv'
    exact hm.halt_fits h (hh.pass False.elim)
  | restore _ _ h | body _ h | field _ _ _ h =>
    obtain ⟨rfl, rfl⟩ := List.cons.inj hpending
    exact ⟨⟨hm.known, hm.store⟩, .halt (hh.pass False.elim) h⟩
  | site hparen h =>
    obtain ⟨rfl, rfl⟩ := List.cons.inj hpending
    subst henv'
    exact hm.halt_fits h (hh.atCall hparen _)
  | depart hguard h =>
    obtain ⟨rfl, rfl⟩ := List.cons.inj hpending
    subst henv'
    exact ⟨⟨hm.known, hm.store⟩, .halt (hh.pass fun _ => hguard) h⟩
  | @callback rescues next _ _ hguard h =>
    obtain ⟨rfl, rfl⟩ := List.cons.inj hpending
    subst henv'
    unfold Machine.unwind
    dsimp only
    split
    · exact hm.runScript_fits hguard h _
    · exact hm.runScript_fits hguard h _
    · exact hm.halt_fits h (hh.pass fun _ => hguard)

end

/-! ## Steps -/

/-- A step keeps to checked programs, with labels for the frames that it makes. -/
theorem Machine.Fits.advances (h : m.Fits programs labels hosted) :
    Advances programs labels hosted m.candidates m.step := by
  have hm : m.Holds programs labels := h.toHolds
  have hcontrol := h.control
  -- the machine with the innermost pending part taken off
  have hpop : ∀ control pending, Machine.Holds programs labels { m with control, pending } :=
    fun control pending => ⟨hm.known, hm.store⟩
  unfold Machine.step Machine.candidates
  cases hc : m.control with
  | eval e =>
    rw [hc] at hcontrol
    cases hcontrol with
    | eval he henv hstack => exact .stay (hm.eval_fits he henv hstack)
  | exec stmt =>
    rw [hc] at hcontrol
    cases hcontrol with
    | exec hs henv htakes hstack => exact hm.exec_fits hs henv htakes hstack
  | call callee args =>
    rw [hc] at hcontrol
    cases hcontrol with
    | call hguard hstack => exact hm.invoke_fits hguard hstack callee args
  | give v =>
    rw [hc] at hcontrol
    cases hcontrol with
    | give hstack =>
      cases hp : m.pending with
      | nil => exact .stay h
      | cons p rest =>
        rw [hp] at hstack
        exact (hpop _ rest).resumeValue_fits hstack v
  | complete c =>
    rw [hc] at hcontrol
    cases hcontrol with
    | complete hfits hstack =>
      cases hp : m.pending with
      | nil => exact .stay h
      | cons p rest =>
        rw [hp] at hstack
        exact .stay ((hpop _ rest).resumeCompletion_fits hfits hstack)
  | halt halt =>
    rw [hc] at hcontrol
    cases hcontrol with
    | halt hfits hstack =>
      cases hp : m.pending with
      | nil => exact .stay h
      | cons p rest =>
        rw [hp] at hfits hstack
        exact .stay ((hpop _ rest).unwind_fits hfits hstack)

theorem Machine.Fits.step (h : m.Fits programs labels hosted) :
    m.step.Fits programs (labels ++ m.opens) hosted := by
  obtain ⟨opened, hopened, hfits⟩ := h.advances
  have hlength : opened.length = m.step.store.frames.size - m.store.frames.size := by
    have hbefore := h.store.length
    have hafter := hfits.store.length
    rw [List.length_append] at hafter
    omega
  have hopens : m.opens = opened := by
    rw [Machine.opens, ← hlength]
    exact (List.prefix_iff_eq_take.1 hopened).symm
  rw [hopens]
  exact hfits

end

end Treewalk
