import Treewalk.Proofs.Parser.Lines
import Treewalk.Proofs.Scope.Relabel
import Treewalk.Proofs.Session.Prepared

/-!
# A program whole or in pieces

A source and another one on the lines behind it make a whole. Running the whole is the same as running the
pieces one after the other; what differs is where the second piece stands, which is further down.

**Text** (`Parsed.ofSource_below`, `Joined`). A newline ends every token but an open comment or string, and no
statement goes on behind its last token, so the statements of the whole are those of the pieces. The second
piece is parsed with the identities that it has in the whole.

**Check** (`Joined.compile`). The check of the first piece leaves no scope open, so the distances that are
kept for the whole are those that are kept for the pieces, all in one table.

**Run** (`Interpreter.execute_append`). Up to the end of the first piece the runs are in lockstep. There the
run of the whole is where the run of the second piece starts: in the global frame, with no call open, with the
same objects and the same console.

**Main theorem** (`Session.run_whole`). Outcome, output, globals and objects are the same, and functions are
the same up to identities and positions.
-/

namespace Treewalk

/-! ## One text behind another -/

namespace Parsed

/-- Two sources without faults, the second one on the lines behind the first: the statements of both. -/
theorem ofSource_accepted {n : NodeId} {source more : Bytes} (hfirst : (ofSource n source).faults = [])
    (hsecond : (ofSource (ofSource n source).nextId more).faults = []) :
    ofSource n (source ++ Bytes.newline :: more) =
      { stmts := (ofSource n source).stmts ++
          Stmt.mapAll id (below source) (ofSource (ofSource n source).nextId more).stmts
        faults := []
        nextId := (ofSource (ofSource n source).nextId more).nextId } := by
  rw [ofSource_below hfirst (first_ne_else hsecond), hsecond]
  rfl

/-- A source below some empty lines has its statements moved down. -/
theorem ofSource_blank {n : NodeId} {source : Bytes} (h : (ofSource n source).faults = []) (k : Nat) :
    ofSource n (List.replicate k Bytes.newline ++ source) =
      { stmts := Stmt.mapAll id (Position.down k k) (ofSource n source).stmts
        faults := []
        nextId := (ofSource n source).nextId } := by
  induction k with
  | zero =>
    rw [Position.down_zero, Stmt.mapAll_id, ← h, ← exhausted_ofSource n source]
    rfl
  | succ k ih =>
    have hempty : ofSource n [] = { stmts := [], faults := [], nextId := n } := rfl
    have hlines := @ofSource_accepted n [] (List.replicate k Bytes.newline ++ source)
      (by rw [hempty]) (by rw [hempty, ih])
    have hdown : below [] ∘ Position.down k k = Position.down (k + 1) (k + 1) := by
      funext p
      simp [below, Position.down, Nat.add_assoc, Nat.add_comm 1]
    rw [hempty, ih, Stmt.mapAll_mapAll, hdown] at hlines
    exact hlines

end Parsed

/-- A source is accepted whatever identities it gets. -/
theorem Interpreter.accepts_eq (n : NodeId) (source : Bytes) : accepts n source = accepts 0 source := by
  have hshift := Parsed.ofSource_shift n 0 source
  rw [show (0 : NodeId) + n = n from Nat.zero_add n] at hshift
  simp only [accepts, hshift, Resolution.ofProgram_map]

/-- A source has the statements of two accepted ones, those of the second one moved. -/
structure Joined (n : NodeId) (first second whole : Bytes) (f : Position → Position) : Prop where
  accepts : Interpreter.accepts n first = true
  accepts' : Interpreter.accepts (Parsed.ofSource n first).nextId second = true
  parsed : Parsed.ofSource n whole =
    { stmts := (Parsed.ofSource n first).stmts ++
        Stmt.mapAll id f (Parsed.ofSource (Parsed.ofSource n first).nextId second).stmts
      faults := []
      nextId := (Parsed.ofSource (Parsed.ofSource n first).nextId second).nextId }

section

variable {n : NodeId} {source more : Bytes} (hsource : Interpreter.accepts n source = true)
  (hmore : Interpreter.accepts 0 more = true)

include hsource hmore

theorem Joined.lines : Joined n source more (source ++ Bytes.newline :: more) (Parsed.below source) := by
  have hmore := (Interpreter.accepts_eq (Parsed.ofSource n source).nextId more).trans hmore
  refine ⟨hsource, hmore, Parsed.ofSource_accepted ?_ ?_⟩
  · simp only [Interpreter.accepts, Bool.and_eq_true, List.isEmpty_iff] at hsource
    exact hsource.1
  · simp only [Interpreter.accepts, Bool.and_eq_true, List.isEmpty_iff] at hmore
    exact hmore.1

/-- With as many empty lines before it as the first source has lines, the second one is at its place. -/
theorem Joined.blank : Joined n source
    (List.replicate (source.count Bytes.newline + 1) Bytes.newline ++ more) (source ++ Bytes.newline :: more)
    (Position.down (source.length - source.count Bytes.newline) 0) := by
  have hlines := Joined.lines hsource hmore
  have hsecond := hlines.accepts'
  simp only [Interpreter.accepts, Bool.and_eq_true, List.isEmpty_iff] at hsecond
  have hblank := Parsed.ofSource_blank hsecond.1 (source.count Bytes.newline + 1)
  have hdown : Position.down (source.length - source.count Bytes.newline) 0 ∘
      Position.down (source.count Bytes.newline + 1) (source.count Bytes.newline + 1) = Parsed.below source := by
    have hcount : source.count Bytes.newline ≤ source.length := List.count_le_length
    funext p
    simp only [Function.comp, Position.down, Parsed.below, Position.mk.injEq]
    exact ⟨by omega, Nat.zero_add _, trivial⟩
  refine ⟨hsource, ?_, ?_⟩
  · have hchecked := @Resolution.ofProgram_append [] _ trivial rfl hsecond.2
      (Position.down (source.count Bytes.newline + 1) (source.count Bytes.newline + 1))
    simp only [Interpreter.accepts, hblank, List.isEmpty_nil, Bool.true_and, List.isEmpty_iff]
    exact hchecked.1
  · rw [hlines.parsed, hblank, Stmt.mapAll_mapAll, hdown]
    rfl

end

theorem Distances.insertAll_append (d : Distances) (us vs : List LocalUse) :
    d.insertAll (us ++ vs) = (d.insertAll us).insertAll vs := List.foldl_append

theorem Distances.insertAll_move (f : Position → Position) (us : List LocalUse) : ∀ d : Distances,
    d.insertAll (us.map (LocalUse.map id f)) = d.insertAll us := by
  induction us with
  | nil => exact fun _ => rfl
  | cons u us ih => exact fun d => ih (d.insert u.id u.distance)

/-- The whole is accepted, and leaves the table and the next identity that the two sources leave. -/
theorem Joined.compile {i j : Interpreter} {first second whole : Bytes} {f : Position → Position}
    (h : Joined i.nextId first second whole f) (hnextId : j.nextId = (i.compile first).2.nextId)
    (hdistances : j.distances = (i.compile first).2.distances) :
    ∃ xs ys, (i.compile first).1.stmts = .ok xs ∧ (j.compile second).1.stmts = .ok ys ∧
      (i.compile whole).1.stmts = .ok (xs ++ Stmt.mapAll id f ys) ∧
      (i.compile whole).2.distances = (j.compile second).2.distances ∧
      xs = (Parsed.ofSource i.nextId first).stmts ∧ ys = (Parsed.ofSource j.nextId second).stmts := by
  obtain ⟨hfirst, hsecond, hwhole⟩ := h
  have hxs := Interpreter.compile_of_accepts hfirst
  obtain ⟨-, -, -, hafter⟩ := Interpreter.compile_eq_ok hxs
  rw [hafter] at hnextId hdistances
  dsimp only at hnextId hdistances
  rw [← hnextId] at hsecond hwhole
  have hys := Interpreter.compile_of_accepts hsecond
  obtain ⟨-, -, -, hafter'⟩ := Interpreter.compile_eq_ok hys
  simp only [Interpreter.accepts, Bool.and_eq_true, List.isEmpty_iff] at hfirst hsecond
  obtain ⟨_, _, _, _, hw, _⟩ := Parsed.ofSource_reads hfirst.1
  obtain ⟨hfaults, huses⟩ := Resolution.ofProgram_append hw hfirst.2 hsecond.2 f
  have hcompiled := @Interpreter.compile_of_parsed i whole _ _ (by rw [hwhole]) (by rw [hwhole]) rfl
  rw [if_pos hfaults, huses, Distances.insertAll_append, Distances.insertAll_move, ← hdistances] at hcompiled
  refine ⟨_, _, hxs, hys, ?_, ?_, rfl, rfl⟩
  · rw [hcompiled]
  · rw [hcompiled, hafter']

/-! ## One program behind another -/

section

variable {L : Likeness} {programs programs' : List (List Stmt)} {labels labels' : List Region}

namespace Machine

variable {m m' final : Machine} {d d' : Distances} {more : List Stmt}

theorem Fits.steps {hosted : Bool} (n : Nat) : ∀ {labels : List Region} {m : Machine},
    m.Fits programs labels hosted → ∃ labels', (m.steps n).Fits programs labels' hosted := by
  induction n with
  | zero => exact fun h => ⟨_, h⟩
  | succ n ih => exact fun h => ih h.step

/-- A program that is left without a halt is done, and of the two only the second one is to come. -/
theorem Leaving.done (hleaving : m.Leaving) (h : m.Like L (some more) d d' m')
    (hfits : m.Fits programs labels false) (hrun : m.run = some final)
    (hdone : ∀ halt, final.control ≠ .halt halt) :
    m' = ⟨.complete .normal, [.program more], Store.globals, 0, m'.store, m'.console, d'⟩ ∧
      final.store.Like L m'.store ∧ final.console.Like L m'.console := by
  obtain ⟨control, pending, env, depth, store, console, distances⟩ := m
  obtain ⟨control', pending', env', depth', store', console', distances'⟩ := m'
  rcases hleaving with ⟨rfl, rfl⟩ | ⟨halt, rest, rfl, rfl⟩
  · have hlast : (⟨.complete .normal, [.program []], env, depth, store, console, distances⟩ : Machine).run =
        some ⟨.complete .normal, [], env, depth, store, console, distances⟩ :=
      Machine.run_of_steps (n := 1) rfl
    rw [hlast] at hrun
    cases hrun
    obtain ⟨⟨hwaits, henv, hdepth, hstore, hconsole, -, htable⟩, hcontrol⟩ := h
    obtain ⟨-, hstack⟩ := hfits
    cases hcontrol
    cases hwaits with
    | part hp => cases hp
    | program hrest =>
      cases hrest
      cases hstack with
      | complete _ hstack =>
        cases hstack
        cases henv
        cases hdepth
        cases htable
        exact ⟨rfl, hstore, hconsole⟩
  · have hlast : (⟨.halt halt, [.program rest], env, depth, store, console, distances⟩ : Machine).run =
        some ⟨.halt halt, [], env, depth, store, console, distances⟩ :=
      Machine.run_of_steps (n := 1) rfl
    rw [hlast] at hrun
    cases hrun
    exact absurd rfl (hdone halt)

end Machine

/-- Two programs run as one: if the first one is done, the second one ends as it does behind the first. -/
theorem Interpreter.execute_append {i i' j : Interpreter} {first first' second second' : List Stmt}
    (hlike : i.Like L i') (hfits : Phase.Fits programs labels (.idle i)) (hmem : first ∈ programs)
    (hagree : i.distances.AgreeOn programs L i'.distances) (hfirst : List.Forall₂ (Stmt.Like L) first first')
    (hdone : (i.execute first).1 = .done ())
    (hj : ∀ k, (i.execute first).2.Like L k → j.Like L k)
    (hfits' : Phase.Fits programs' labels' (.idle j)) (hmem' : second ∈ programs')
    (hagree' : j.distances.AgreeOn programs' L i'.distances)
    (hsecond : List.Forall₂ (Stmt.Like L) second second') :
    (j.execute second).1.Like L (i'.execute (first' ++ second')).1 ∧
      ((j.execute second).1 ≠ .unfinished →
        (j.execute second).2.Like L (i'.execute (first' ++ second')).2) ∧
      ∃ n, ∀ k, (j.after ((j.machine (.complete .normal) [.program second]).steps k)).Like L
        (i'.after ((i'.machine (.complete .normal) [.program (first' ++ second')]).steps (n + k))) := by
  have hwaits : Waits L (some second') 0 [.program first] [.program (first' ++ second')] := .program hfirst
  have hstart : (i.machine (.complete .normal) [.program first]).Like L (some second') i.distances i'.distances
      (i'.machine (.complete .normal) [.program (first' ++ second')]) :=
    ⟨⟨hwaits, rfl, rfl, hlike.store, hlike.console, rfl, rfl⟩, .complete⟩
  have hmachine := hfits.start hmem
  rw [execute_eq] at hdone hj
  cases hrun : (i.machine (.complete .normal) [.program first]).run with
  | none =>
    rw [hrun] at hdone
    cases hdone
  | some final =>
    rw [hrun] at hdone hj
    have hnohalt : ∀ halt, final.control ≠ .halt halt := by
      intro halt hcontrol
      simp only [finish, hcontrol] at hdone
      cases halt <;> cases hdone
    obtain ⟨n, hleaving, hthere⟩ := hstart.leaving hagree hmachine hrun
    obtain ⟨labels₁, hfits₁⟩ := hmachine.steps n
    rw [← Machine.run_steps _ n] at hrun
    obtain ⟨hrest, hstore, hconsole⟩ := hleaving.done hthere hfits₁ hrun hnohalt
    generalize hm' : (i'.machine (.complete .normal) [.program (first' ++ second')]).steps n = m' at *
    have hafter := hj { i' with store := m'.store, console := m'.console } (by
      rw [finish_some]
      exact ⟨hstore, hconsole⟩)
    have hnext : (j.machine (.complete .normal) [.program second]).Like L none j.distances i'.distances m' := by
      rw [hrest]
      exact hafter.start hsecond
    have hmachine' := hfits'.start hmem'
    have hwhile : ∀ k, (j.after ((j.machine (.complete .normal) [.program second]).steps k)).Like L
        (i'.after ((i'.machine (.complete .normal) [.program (first' ++ second')]).steps (n + k))) := by
      intro k
      have hlater := hnext.steps hagree' k hmachine' fun _ _ _ => rfl
      rw [Machine.steps_add, hm']
      exact ⟨hlater.store, hlater.console⟩
    have hend := hnext.run hagree' hmachine'
    rw [execute_eq, execute_eq, ← Machine.run_steps (i'.machine _ _) n, hm']
    generalize (j.machine (.complete .normal) [.program second]).run = r at hend ⊢
    generalize m'.run = r' at hend ⊢
    cases hend with
    | none => exact ⟨.unfinished, fun h => absurd rfl h, n, hwhile⟩
    | some hm => exact ⟨(hm.finish j i').1, fun _ => (hm.finish j i').2, n, hwhile⟩

end

/-! ## Sessions -/

namespace Session

section

variable {s : Session} {programs : List (List Stmt)} {labels : List Region} {L : Likeness}
  {first second whole : Bytes} {f : Position → Position} {name : Bytes}

/-- Two sources, run one after the other, end like a source that joins them. -/
theorem run_joined (hfits : Phase.Fits programs labels (.idle s.interpreter)) (hdumps : s.dumpsTree = false)
    (hjoined : Joined s.interpreter.nextId first second whole f) (hdone : (s.run name first).1 = .done ())
    (hids : L.ids = Eq) (hstreams : ∀ err err', L.streams err err')
    (hgiven : ∀ n ∈ s.interpreter.store.natives, ∀ e, n.op.Raises e → L.given e)
    (hold : ∀ Γ q, Here (programs ++ [(Parsed.ofSource s.interpreter.nextId first).stmts]) Γ q →
      q.Built fun t => L.places t.pos t.pos)
    (hnew : Everywhere (fun _ q => q.Built fun t => L.places t.pos (f t.pos)) {}
      (.list (Parsed.ofSource (Parsed.ofSource s.interpreter.nextId first).nextId second).stmts))
    (name' name'' : Bytes) :
    ((s.run name first).2.run name' second).1.Like L (s.run name'' whole).1 ∧
      (((s.run name first).2.run name' second).1 ≠ .unfinished →
        ((s.run name first).2.run name' second).2.interpreter.Like L (s.run name'' whole).2.interpreter) ∧
      ∃ n, ∀ k, s.sightAt name'' whole (n + k) = (s.run name first).2.sightAt name' second k := by
  have hxs := Interpreter.compile_of_accepts hjoined.accepts
  obtain ⟨-, -, -, hcompiled⟩ := Interpreter.compile_eq_ok hxs
  have hfits₁ := Interpreter.compile_fits_anyway first hfits
  rw [hxs] at hfits₁
  obtain ⟨i, hi, hrun, hend, hdumps', -⟩ := run_of_accepted hxs hdumps name
  rw [hrun] at hdone
  generalize s.run name first = t at *
  have hnextId : t.2.interpreter.nextId = (s.interpreter.compile first).2.nextId := by
    rw [hend.nextId, Interpreter.execute_nextId, hi.nextId]
  have hdistances : t.2.interpreter.distances = (s.interpreter.compile first).2.distances := by
    rw [hend.distances, Interpreter.execute_distances, hi.distances]
  obtain ⟨xs, ys, hxs', hys, hwhole, htable, hxs_eq, hys_eq⟩ := hjoined.compile hnextId hdistances
  obtain rfl : xs = (Parsed.ofSource s.interpreter.nextId first).stmts := hxs_eq
  obtain ⟨j, hj, hrun', hend', -, hsight'⟩ := run_of_accepted hys hdumps' name'
  obtain ⟨i', hi', hrun'', hend'', -, hsight''⟩ := run_of_accepted hwhole hdumps name''
  have hknown : (Parsed.ofSource s.interpreter.nextId first).stmts ∈
      programs ++ [(Parsed.ofSource s.interpreter.nextId first).stmts] :=
    List.mem_append_right _ List.mem_cons_self
  -- the accepted code, before and after the first run
  have hfits_i := hi.fits hfits₁
  obtain ⟨⟨labels', hfits'⟩, -⟩ := (Course.start.after_execute hknown).keeps hfits_i
  have hfits₂ := Interpreter.compile_fits_anyway second (hend.fits hfits')
  rw [hys] at hfits₂
  have hfits_j := hj.fits hfits₂
  -- all of it is like itself
  have hfixes : L.Fixes (programs ++ [(Parsed.ofSource s.interpreter.nextId first).stmts]) :=
    fun Γ q hq => ⟨hold Γ q hq, fun _ _ _ _ _ => by rw [hids]⟩
  have hself : s.interpreter.Like L s.interpreter := by
    have hstore := hfits_i.2
    rw [hi.compiled_store] at hstore
    exact ⟨hstore.like_self hfixes hgiven, _, rfl, hstreams _ _⟩
  have hstart : i.Like L i' :=
    hself.reported hstreams hi.compiled_store hi'.compiled_store hi.compiled_console hi'.compiled_console
  have hsecond : List.Forall₂ (Stmt.Like L) ys (Stmt.mapAll id f ys) := by
    rw [hnextId, hcompiled] at hys_eq
    rw [hys_eq]
    exact Stmt.likeAll_map _ ⟨{}, fun Γ q hq => ⟨hnew Γ q hq, fun _ _ _ _ _ => by rw [hids]; rfl⟩⟩
  -- one table for the whole: the uses in the second source have identities of their own
  have hagree' : j.distances.AgreeOn
      (programs ++ [(Parsed.ofSource s.interpreter.nextId first).stmts] ++ [ys]) L i'.distances := by
    intro _ _ id _ _ _ id' hid
    rw [hids] at hid
    rw [hi'.distances, htable, hj.distances, hid]
  have hagree : i.distances.AgreeOn (programs ++ [(Parsed.ofSource s.interpreter.nextId first).stmts]) L
      i'.distances := by
    rintro Γ e id _ ⟨program, hprogram, hocc⟩ huse id' hid
    rw [hids] at hid
    have hlt := ((hfits_i.1.knows program hprogram Γ _ hocc).1.2 e id _ rfl huse).1
    rw [← hid, hi'.distances, htable, (Interpreter.compile_table _ _).2 id (.inl ?_), hdistances, hi.distances]
    rw [hnextId, ← hi.nextId]
    exact hlt
  have hbetween : ∀ k, (i.execute (Parsed.ofSource s.interpreter.nextId first).stmts).2.Like L k →
      j.Like L k := by
    intro k hk
    have hended := hk.reported hstreams hend.store rfl hend.console ⟨_, rfl⟩
    exact hended.reported hstreams hj.compiled_store rfl hj.compiled_console ⟨_, rfl⟩
  obtain ⟨houtcome, hafter, n, hwhile⟩ := Interpreter.execute_append hstart hfits_i hknown hagree
    (hfixes.body ⟨_, hknown, .here⟩) hdone hbetween hfits_j (List.mem_append_right _ List.mem_cons_self)
    hagree' hsecond
  rw [hrun', hrun'']
  refine ⟨houtcome, fun h =>
    (hafter h).reported hstreams hend'.store hend''.store hend'.console hend''.console, n, fun k => ?_⟩
  rw [hsight', hsight'']
  exact sight_eq (hwhile k)

end

end Session

/-! ## Places -/

/-- A token of the source stands here. -/
def Token.StandsAt (source : Bytes) (p : Position) : Prop :=
  ∃ t ∈ (Token.scan source).tokens, t.kind ≠ .eof ∧ t.pos = p

/-- A word of the piece stands here. -/
def Fragment.StandsAt (p : Position) : Fragment → Prop
  | .expr e => ∃ t ∈ e.tokens, t.pos = p
  | .stmt s => s.pos = p ∨ ∃ t ∈ s.tokens, t.pos = p
  | .list _ => False

theorem Fragment.Built.standsAt {P : Token → Prop} {q : Fragment} (h : q.Built P) :
    q.Built fun t => q.StandsAt t.pos := by
  cases q with
  | expr e => exact fun t ht => ⟨t, ht, rfl⟩
  | stmt s =>
    obtain ⟨t, -, hpos⟩ := h.2
    exact ⟨fun t ht => .inr ⟨t, ht, rfl⟩, t, .inl hpos.symm, hpos⟩
  | list ss => trivial

theorem Token.StandsAt.line {source : Bytes} {p : Position} (h : Token.StandsAt source p) : 1 ≤ p.line := by
  obtain ⟨t, ht, hkind, rfl⟩ := h
  obtain ⟨ts, e, htokens, he, hproper⟩ := Token.scan_tokens source
  rw [htokens] at ht
  rcases List.mem_append.1 ht with ht | ht
  · exact (hproper t ht).line
  · rw [List.mem_singleton.1 ht] at hkind
    exact absurd he hkind

/-- Every word of a program stands where its source has a token. -/
theorem Parsed.ofSource_stands {n : NodeId} {source : Bytes} (h : (Parsed.ofSource n source).faults = []) :
    Everywhere (fun _ q => q.Built fun t => Token.StandsAt source t.pos) {}
      (.list (Parsed.ofSource n source).stmts) := by
  exact (Parsed.made_of_tokens h fun t ht hkind => ⟨t, ht, hkind, rfl⟩).throughout {}

/-- Between a run in pieces and a run of the whole: places of the second source are moved down, places of
the first one and of programs before stay. -/
def Likeness.pieces (programs : List (List Stmt)) (natives : Array Native) (source more : Bytes) : Likeness where
  ids := Eq
  places p p' := Token.StandsAt more p ∧ p' = Parsed.below source p ∨
    (Token.StandsAt source p ∨ ∃ Γ q, Here programs Γ q ∧ q.StandsAt p) ∧ p' = p
  given e := ∃ n ∈ natives, n.op.Raises e
  line := by
    rintro p p' (⟨hp, rfl⟩ | ⟨-, rfl⟩)
    · have hline := hp.line
      simp only [Parsed.below, Position.down]
      omega
    · exact Iff.rfl

/-- All places are on the same line, and in the same column. -/
def Likeness.sameLine : Likeness where
  ids := Eq
  places p p' := p'.line = p.line ∧ p'.column = p.column
  given _ := True
  line := fun _ _ h => by rw [h.1]

namespace Session

/-- Running a program whole or in pieces is the same. If the first piece is done and the second one is
accepted, then the whole ends like the second piece: with the same outcome, where only a fault in the second
piece has another place, further down; with the same output and the same globals and objects; and functions
and classes differ in identities and positions only. Behind as many empty lines as the first piece has lines,
the second one has its faults on the very lines of the whole. From some step of the whole on, the same is seen
of it at every step as of the second piece, also if they never end. -/
theorem run_whole {s : Session} {programs : List (List Stmt)}
    (hreached : Course [] (.idle .bare) programs (.idle s.interpreter)) (hdumps : s.dumpsTree = false)
    {source more name : Bytes} (hdone : (s.run name source).1 = .done ())
    (hmore : Interpreter.accepts 0 more = true) (name' name'' : Bytes) :
    let L := Likeness.pieces programs s.interpreter.store.natives source more
    let pieces := (s.run name source).2.run name' more
    let lower := (s.run name source).2.run name'
      (List.replicate (source.count Bytes.newline + 1) Bytes.newline ++ more)
    let whole := s.run name'' (source ++ Bytes.newline :: more)
    pieces.1.Like L whole.1 ∧ lower.1.Like .sameLine whole.1 ∧
      (pieces.1 ≠ .unfinished → whole.2.sight = pieces.2.sight ∧
        pieces.2.interpreter.store.Like L whole.2.interpreter.store) ∧
      ∃ n, ∀ k, s.sightAt name'' (source ++ Bytes.newline :: more) (n + k) =
        (s.run name source).2.sightAt name' more k := by
  intro L pieces lower whole
  obtain ⟨⟨labels, hfits⟩, -⟩ := hreached.keeps Interpreter.bare_fits
  have hlines := Joined.lines (accepts_of_done hdone) hmore
  have hblank := Joined.blank (accepts_of_done hdone) hmore
  have hparsed := hlines.accepts
  have hparsed' := hlines.accepts'
  have hparsed'' := hblank.accepts'
  simp only [Interpreter.accepts, Bool.and_eq_true, List.isEmpty_iff] at hparsed hparsed' hparsed''
  have hbuilt : ∀ Γ q, Here (programs ++ [(Parsed.ofSource s.interpreter.nextId source).stmts]) Γ q →
      q.Built Token.Proper := by
    rintro Γ q ⟨program, hprogram, hocc⟩
    rcases List.mem_append.1 hprogram with hprogram | hprogram
    · exact hfits.1.known.built ⟨program, hprogram, hocc⟩
    · obtain rfl := List.mem_singleton.1 hprogram
      exact (Parsed.ofSource_drawn hparsed.1).2 {} Γ q hocc
  have hold : ∀ Γ q, Here (programs ++ [(Parsed.ofSource s.interpreter.nextId source).stmts]) Γ q →
      q.Built fun t => L.places t.pos t.pos := by
    rintro Γ q ⟨program, hprogram, hocc⟩
    rcases List.mem_append.1 hprogram with hmem | hmem
    · exact (hbuilt Γ q ⟨program, hprogram, hocc⟩).standsAt.mono fun t ht =>
        .inr ⟨.inr ⟨Γ, q, ⟨program, hmem, hocc⟩, ht⟩, rfl⟩
    · obtain rfl := List.mem_singleton.1 hmem
      exact (Parsed.ofSource_stands hparsed.1 Γ q hocc).mono fun t ht => .inr ⟨.inl ht, rfl⟩
  obtain ⟨houtcome, hafter, hwhile⟩ := run_joined (L := L) hfits hdumps hlines hdone rfl (fun _ _ => trivial)
    (fun n hn e he => ⟨n, hn, he⟩) hold
    (fun Γ q hq => (Parsed.ofSource_stands hparsed'.1 Γ q hq).mono fun t ht => .inl ⟨ht, rfl⟩) name' name''
  obtain ⟨hlower, -⟩ := run_joined (L := .sameLine) hfits hdumps hblank hdone rfl (fun _ _ => trivial)
    (fun _ _ _ _ => trivial) (fun Γ q hq => (hbuilt Γ q hq).mono fun _ _ => ⟨rfl, rfl⟩)
    (fun Γ q hq => (Parsed.ofSource_stands hparsed''.1 Γ q hq).mono fun t _ => ⟨Nat.zero_add _, rfl⟩) name' name''
  exact ⟨houtcome, hlower, fun h => ⟨sight_eq (hafter h), (hafter h).store⟩, hwhile⟩

/-- A function of the first piece is called in the second one, and then a name that nothing defines. -/
theorem run_whole_called :
    let source := text "let a = true;\nfun f() \x7b return a; \x7d"
    let more := text "f();\nnone;"
    let s : Session := { interpreter := .bare }
    (s.run [] source).1 = .done () ∧ Interpreter.accepts 0 more = true ∧
      ((s.run [] source).2.run [] more).1.Like (.pieces [] #[] source more)
        (s.run [] (source ++ Bytes.newline :: more)).1 := by
  intro source more s
  have hprepared := prepare_of_accepted (s := s) (Interpreter.compile_of_accepts (i := s.interpreter)
    (show Interpreter.accepts 0 (text "let a = true;\nfun f() \x7b return a; \x7d") = true by decide +kernel)) rfl []
  have hdone : (s.run [] source).1 = .done () := run_done (n := 9) hprepared (by decide +kernel)
  have hmore : Interpreter.accepts 0 more = true := by decide +kernel
  exact ⟨hdone, hmore, (run_whole (s := s) .start rfl hdone hmore [] []).1⟩

end Session

end Treewalk
