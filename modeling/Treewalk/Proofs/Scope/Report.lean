import Treewalk.Proofs.Scope.Mentions

/-!
# What the check reports

For a program without faults the check notes the uses of local names in the order in which it comes to them,
each with its distance in the text, and it warns of the locals that no use leads to, region by region, inner
regions first.

A use marks an entry of the scopes around it. The mark is all that is left of the use when the scope ends, and
it must tell whether any use leads to the entry. `Told` says of two states what was reported between them:
which uses were noted, which entries were marked and which warnings were given. `Tells` says it of a step of
the check, and each form of tree is a composition of such steps.

Main results: `Resolution.ofProgram_reports`, and that the warnings of unused locals are exactly those of
locals that no noted use leads to (`Resolution.unused_exact`).
-/

namespace Treewalk

open Scope

/-! ## Entries that are used -/

namespace Scope

/-- An entry of this name is marked as used. -/
def Marked (name : Bytes) (scope : Scope) : Prop := ∃ e ∈ scope, e.name.lexeme = name ∧ e.used = true

/-- The same in the one of the scopes that has so many around it. -/
def MarkedAt (level : Nat) (name : Bytes) : List Scope → Prop
  | [] => False
  | scope :: outer => (outer.length = level ∧ Marked name scope) ∨ MarkedAt level name outer

variable {level : Nat} {name : Bytes}

theorem MarkedAt.lt : ∀ {scopes : List Scope}, MarkedAt level name scopes → level < scopes.length
  | _ :: outer, .inl ⟨h, _⟩ => by
    rw [List.length_cons]
    omega
  | _ :: outer, .inr h => Nat.lt_succ_of_lt h.lt

theorem markedAt_length (scope : Scope) (outer : List Scope) :
    MarkedAt outer.length name (scope :: outer) ↔ Marked name scope := by
  have hout : ¬ MarkedAt outer.length name outer := fun h => Nat.lt_irrefl _ h.lt
  simp [MarkedAt, hout]

theorem markedAt_of_ne {outer : List Scope} (h : level ≠ outer.length) (scope : Scope) :
    MarkedAt level name (scope :: outer) ↔ MarkedAt level name outer := by
  simp [MarkedAt, h.symm]

theorem markedAt_modifyHead {f : Scope → Scope} (hf : ∀ scope, Marked name (f scope) ↔ Marked name scope)
    (scopes : List Scope) : MarkedAt level name (scopes.modifyHead f) ↔ MarkedAt level name scopes := by
  cases scopes with
  | nil => rfl
  | cons scope outer => simp only [List.modifyHead_cons, MarkedAt, hf]

/-- A name that is declared is not used yet. -/
theorem marked_declare (t : Token) (origin : Origin) (scope : Scope) :
    Marked name (scope ++ [{ name := t, origin }]) ↔ Marked name scope := by
  simp [Marked, or_and_right, exists_or]

theorem marked_ready (n : Bytes) (scope : Scope) :
    Marked name (mark n ({ · with ready := true }) scope) ↔ Marked name scope := by
  simp only [Marked, mark, List.mem_map, exists_exists_and_eq_and]
  refine exists_congr fun e => and_congr_right fun _ => ?_
  by_cases h : e.name.lexeme = n <;> simp [h]

theorem marked_use (n : Bytes) (scope : Scope) :
    Marked name (mark n ({ · with used := true }) scope) ↔
      Marked name scope ∨ name = n ∧ ∃ e ∈ scope, e.name.lexeme = n := by
  simp only [Marked, mark, List.mem_map, exists_exists_and_eq_and]
  constructor
  · rintro ⟨e, he, hname, hused⟩
    by_cases h : e.name.lexeme = n
    · simp only [h, beq_self_eq_true, if_true] at hname
      exact .inr ⟨hname.symm, e, he, h⟩
    · simp only [beq_iff_eq, h, if_false] at hname hused
      exact .inl ⟨e, he, hname, hused⟩
  · rintro (⟨e, he, rfl, hused⟩ | ⟨rfl, e, he, rfl⟩)
    · refine ⟨e, he, ?_⟩
      by_cases h : e.name.lexeme = n <;> simp [h, hused]
    · exact ⟨e, he, by simp⟩

/-- A use marks its name in the scope where it was found. -/
theorem markedAt_modify (n : Bytes) : ∀ (d : Nat) (scopes : List Scope),
    MarkedAt level name (scopes.modify d (mark n ({ · with used := true }))) ↔
      MarkedAt level name scopes ∨ (name = n ∧ scopes.length = level + d + 1 ∧
        ∃ scope, scopes[d]? = some scope ∧ ∃ e ∈ scope, e.name.lexeme = n)
  | _, [] => by simp [MarkedAt]
  | 0, scope :: outer => by
    by_cases hlevel : level = outer.length
    · subst hlevel
      simp [markedAt_length, marked_use]
    · simp [markedAt_of_ne hlevel, Ne.symm hlevel]
  | d + 1, scope :: outer => by
    have hlength : (outer.length + 1 = level + (d + 1) + 1) = (outer.length = level + d + 1) := by
      simp only [eq_iff_iff]
      omega
    simp only [List.modify_succ_cons, MarkedAt, markedAt_modify n d outer, List.length_modify, or_assoc,
      List.length_cons, hlength, List.getElem?_cons_succ]

/-- A name that is found has an entry. -/
theorem entry_of_distance? {outside : Nat} {n : Bytes} : ∀ {scopes : List Scope} {d : Nat},
    distance? outside n scopes = some d → ∃ scope, scopes[d]? = some scope ∧ ∃ e ∈ scope, e.name.lexeme = n
  | scope :: outer, d, h => by
    rw [distance?] at h
    split at h
    · rename_i hany
      cases h
      obtain ⟨e, he, hname⟩ := List.any_eq_true.1 hany
      exact ⟨scope, rfl, e, he, by simp_all⟩
    · obtain ⟨d', hd', rfl⟩ := Option.map_eq_some_iff.1 h
      simpa using entry_of_distance? hd'

/-- The warnings about unused names, latest first. -/
def State.idle (s : State) : List Diagnostic := s.warnings.filter (·.warning = .unusedVariable)

theorem filter_unused (ts : List Token) :
    (ts.map unused).filter (·.warning = .unusedVariable) = ts.map unused := by
  simp [List.filter_eq_self, unused]

/-- The names that the end of a scope warns about: in a scope that has no name twice they are those without a
mark. -/
theorem idle_names {scope : Scope} {Hit : Bytes → Prop} [DecidablePred Hit]
    (hnodup : ((declared scope).map (·.1.lexeme)).Nodup) (hmarked : ∀ name, Marked name scope ↔ Hit name) :
    (scope.filter Entry.idle).map Entry.name = (((declared scope).filter (·.2 = .local)).map Prod.fst).filter
      fun t => t.lexeme.head? ≠ some 0x5F ∧ ¬ Hit t.lexeme := by
  have hused : ∀ e ∈ scope, e.used = true ↔ Hit e.name.lexeme := by
    intro e he
    rw [← hmarked]
    constructor
    · exact fun h => ⟨e, he, rfl, h⟩
    · rintro ⟨e', he', hname, hused⟩
      rw [declared, List.map_map] at hnodup
      exact List.inj_on_of_nodup_map hnodup he' he hname ▸ hused
  simp only [declared, List.filter_map, List.map_map, List.filter_filter]
  refine congrArg (List.map Entry.name) (List.filter_congr fun e he => ?_)
  rw [Bool.eq_iff_iff]
  simp only [Entry.idle, Function.comp_apply, Bool.and_eq_true, decide_eq_true_eq, Bool.not_eq_true',
    ← Bool.not_eq_true, hused e he]
  tauto

section

variable {Hit : Nat → Bytes → Prop} {scope : Scope} {outer scopes : List Scope}

/-- The marks that are left when a scope ends, where `Hit` tells what was used since it was opened. -/
theorem markedAt_outer (hlength : outer.length = scopes.length)
    (h : ∀ level name, MarkedAt level name (scope :: outer) ↔
      MarkedAt level name ([] :: scopes) ∨ level < scopes.length + 1 ∧ Hit level name) (level : Nat)
    (name : Bytes) :
    MarkedAt level name outer ↔ MarkedAt level name scopes ∨ level < scopes.length ∧ Hit level name := by
  by_cases hlevel : level = scopes.length
  · subst hlevel
    have hnot : ¬ MarkedAt scopes.length name outer := fun hm => Nat.lt_irrefl _ (hlength ▸ hm.lt)
    have hnot' : ¬ MarkedAt scopes.length name scopes := fun hm => Nat.lt_irrefl _ hm.lt
    simp [hnot, hnot']
  · have hmarked := h level name
    rw [markedAt_of_ne (hlength ▸ hlevel), markedAt_of_ne hlevel] at hmarked
    rw [hmarked]
    refine or_congr_right (and_congr_left fun _ => ?_)
    omega

/-- The marks of the scope itself. -/
theorem marked_inner (hlength : outer.length = scopes.length)
    (h : ∀ level name, MarkedAt level name (scope :: outer) ↔
      MarkedAt level name ([] :: scopes) ∨ level < scopes.length + 1 ∧ Hit level name) (name : Bytes) :
    Marked name scope ↔ Hit scopes.length name := by
  have hempty : ¬ MarkedAt scopes.length name ([] :: scopes) := by
    rw [markedAt_length]
    simp [Marked]
  rw [← markedAt_length scope outer, hlength, h]
  simp [hempty]

/-- The end of a scope warns about its idle entries. -/
theorem idle_close {s : State} (hscopes : s.scopes = scope :: outer) :
    s.close.idle = (((scope.filter Entry.idle).map Entry.name).map unused).reverse ++ s.idle := by
  have hwarnings : s.close.warnings =
      (((scope.filter Entry.idle).map Entry.name).map unused).reverse ++ s.warnings := by
    rw [List.map_map]
    simp only [State.close, hscopes, List.headD_cons]
    rfl
  rw [State.idle, hwarnings, List.filter_append, List.filter_reverse, filter_unused]
  rfl

end

end Scope

open Classical in
/-- The locals of a region that nothing leads to, where `Led` tells what is led to. Names with an underscore in
front are left out. -/
noncomputable def Region.idle (Led : Region → Bytes → Prop) (r : Region) : List Token :=
  r.locals.filter fun t => t.lexeme.head? ≠ some 0x5F ∧ ¬ Led r t.lexeme

/-! ## Steps of the check -/

/-- What was reported between two states, on the way from one place of the text to another: the uses `ms` were
noted and have marked their entries, and `ws` were warned about. -/
structure Told (Γ Γ' : Environs) (ms : List Mention) (ws : List Token) (s s' : State) : Prop where
  seen : Γ'.Seen s'.scopes
  noted : s'.noted = (ms.filterMap Mention.noted?).reverse ++ s.noted
  marked : ∀ level name, MarkedAt level name s'.scopes ↔ MarkedAt level name s.scopes ∨
    level < Γ.layers.length ∧ ∃ m ∈ ms, m.name = name ∧ m.Reaches level
  idle : s'.idle = (ws.map unused).reverse ++ s.idle

/-- A step of the check that finds no fault reports these uses and these names. -/
structure Tells (c : Check Unit) (Γ Γ' : Environs) (ms : List Mention) (ws : List Token) : Prop where
  adds : Adds c
  length : Γ'.layers.length = Γ.layers.length
  tells : ∀ s s', s.faults = [] → Γ.Seen s.scopes → Clean c s s' → Told Γ Γ' ms ws s s'

namespace Tells

variable {c c' : Check Unit} {Γ Γ' Γ'' : Environs} {ms ms' : List Mention} {ws ws' : List Token}

theorem of_eq (h : Tells c Γ Γ' ms ws) (hms : ms' = ms) (hws : ws' = ws) : Tells c Γ Γ' ms' ws' := by
  rw [hms, hws]
  exact h

/-- A piece reports what its parts report, and then its own use. -/
theorem piece {p : Fragment} (h : Tells c Γ Γ' ms ws)
    (hms : (p.order Γ).flatMap (fun part => part.2.mentions part.1) ++ p.own Γ = ms) (hws : ws' = ws) :
    Tells c Γ Γ' (p.mentions Γ) ws' :=
  h.of_eq ((p.mentions_eq Γ).trans hms) hws

/-- What the check sees of the environs is their layers. -/
theorem relocate {Γ₀ Γ₀' : Environs} (h : Tells c Γ₀ Γ₀' ms ws) (hstart : Γ₀.layers = Γ.layers)
    (hend : Γ₀'.layers = Γ'.layers) : Tells c Γ Γ' ms ws := by
  refine ⟨h.adds, by rw [← hstart, ← hend, h.length], fun s s' hfaults hseen hrun => ?_⟩
  rw [Environs.Seen, ← hstart] at hseen
  obtain ⟨hseen', hnoted, hmarked, hidle⟩ := h.tells s s' hfaults hseen hrun
  exact ⟨by rwa [Environs.Seen, ← hend], hnoted, by rwa [← hstart], hidle⟩

/-- One step behind the other. -/
theorem andThen (h : Tells c Γ Γ' ms ws) (h' : Tells c' Γ' Γ'' ms' ws') :
    Tells (c >>= fun _ => c') Γ Γ'' (ms ++ ms') (ws ++ ws') := by
  refine ⟨adds_stable.bind h.adds fun _ => h'.adds, h'.length.trans h.length, ?_⟩
  intro s s'' hfaults hseen hrun
  obtain ⟨s', hrun, hrun'⟩ := (clean_bind h.adds h'.adds).1 hrun
  have htold := h.tells s s' hfaults hseen hrun
  have htold' := h'.tells s' s'' (hrun.2.trans hfaults) htold.seen hrun'
  refine ⟨htold'.seen, ?_, fun level name => ?_, ?_⟩
  · rw [htold'.noted, htold.noted, List.filterMap_append, List.reverse_append, List.append_assoc]
  · rw [htold'.marked, htold.marked, h.length]
    simp only [List.mem_append, or_and_right, exists_or, and_or_left, or_assoc]
  · rw [htold'.idle, htold.idle, List.map_append, List.reverse_append, List.append_assoc]

/-- A step that reports nothing and marks no entry. -/
theorem of_quiet (hc : Adds c) (hlength : Γ'.layers.length = Γ.layers.length)
    (h : ∀ s s', s.faults = [] → Γ.Seen s.scopes → Clean c s s' → Γ'.Seen s'.scopes ∧ s'.uses = s.uses ∧
      s'.idle = s.idle ∧ ∀ level name, MarkedAt level name s'.scopes ↔ MarkedAt level name s.scopes) :
    Tells c Γ Γ' [] [] := by
  refine ⟨hc, hlength, fun s s' hfaults hseen hrun => ?_⟩
  obtain ⟨hseen', huses, hidle, hmarked⟩ := h s s' hfaults hseen hrun
  refine ⟨hseen', ?_, ?_, hidle⟩
  · simp only [State.noted, huses]
    rfl
  · simpa using hmarked

theorem nothing : Tells (pure ()) Γ Γ [] [] := by
  refine of_quiet (adds_stable.pure ()) rfl ?_
  rintro s _ - hseen ⟨⟨⟩, -⟩
  exact ⟨hseen, rfl, rfl, fun _ _ => Iff.rfl⟩

theorem warned (pos : Position) : Tells (warn (unreachable pos)) Γ Γ [] [] := by
  refine of_quiet (adds_stable.warn _) rfl ?_
  rintro s _ - hseen ⟨⟨⟩, -⟩
  exact ⟨hseen, rfl, rfl, fun _ _ => Iff.rfl⟩

theorem required (ok : Bool) (keyword : Token) (message : String) :
    Tells (require ok keyword message) Γ Γ [] [] := by
  cases ok with
  | true => exact nothing
  | false =>
    refine of_quiet (adds_stable.require false keyword message) rfl ?_
    rintro s s' - - ⟨⟨⟩, -⟩

theorem declared (t : Token) (origin : Origin) :
    Tells (Scope.declare t origin) Γ (Γ.declare t.lexeme) [] [] := by
  refine of_quiet (adds_stable.declare t origin) (by simp [Environs.declare]) ?_
  intro s s' hfaults hseen hrun
  have hfinds := (Finds.declared t origin).finds s s' hseen hrun.1 (hrun.2.trans hfaults)
  refine ⟨hfinds.1, ?_⟩
  have hrun := hrun.1
  unfold Scope.declare at hrun
  cases hscopes : s.scopes with
  | nil =>
    simp only [hscopes, EStateM.Result.ok.injEq, true_and] at hrun
    subst hrun
    exact ⟨rfl, rfl, fun _ _ => by rw [hscopes]⟩
  | cons scope outer =>
    simp only [hscopes] at hrun
    split at hrun
    · cases hrun
    · simp only [EStateM.Result.ok.injEq, true_and] at hrun
      subst hrun
      exact ⟨rfl, rfl, fun _ _ => markedAt_modifyHead (marked_declare t origin) (scope :: outer)⟩

theorem defined (t : Token) : Tells (define t) Γ (Γ.define t.lexeme) [] [] := by
  refine of_quiet (adds_stable.define t) (by simp [Environs.define]) ?_
  intro s s' hfaults hseen hrun
  have hfinds := (Finds.defined t).finds s s' hseen hrun.1 (hrun.2.trans hfaults)
  refine ⟨hfinds.1, ?_⟩
  have hrun := hrun.1
  unfold define at hrun
  cases hscopes : s.scopes with
  | nil =>
    simp only [hscopes, EStateM.Result.ok.injEq, true_and] at hrun
    subst hrun
    exact ⟨rfl, rfl, fun _ _ => by rw [hscopes]⟩
  | cons scope outer =>
    simp only [hscopes, EStateM.Result.ok.injEq, true_and] at hrun
    subst hrun
    exact ⟨rfl, rfl, fun _ _ => markedAt_modifyHead (marked_ready t.lexeme) (scope :: outer)⟩

theorem declaredAll : ∀ {Γ : Environs} (params : List Token),
    Tells (declareAll params) Γ (Γ.addAll params) [] []
  | _, [] => nothing
  | Γ, p :: ps =>
    (declared p .parameter).andThen ((defined p).andThen (declaredAll (Γ := Γ.add p.lexeme) ps))

/-- A use is noted with its distance in the text, and marks its entry. -/
theorem used (Γ : Environs) (id : NodeId) (use : Use) (t : Token) :
    Tells (useName Γ.toContext id use t) Γ Γ [⟨Γ, id, t.lexeme⟩] [] := by
  refine ⟨adds_stable.useName _ _ _ _, rfl, fun s s' hfaults hseen hrun => ?_⟩
  have hfinds := (Finds.used Γ id use t).finds s s' hseen hrun.1 (hrun.2.trans hfaults)
  have hdistance : Scope.distance? Γ.outside t.lexeme s.scopes = Γ.distance? t.lexeme :=
    Environs.Seen.distance?_eq hseen
  have hlength : s.scopes.length = Γ.layers.length := by simpa using congrArg List.length hseen
  have hrun := hrun.1
  unfold useName at hrun
  rw [hdistance] at hrun
  cases hd : Γ.distance? t.lexeme with
  | none =>
    simp only [hd, EStateM.Result.ok.injEq, true_and] at hrun
    subst hrun
    refine ⟨hseen, ?_, ?_, rfl⟩
    · simp [Mention.noted?, Mention.distance?, hd]
    · simp [Mention.Reaches, Mention.distance?, hd]
  | some d =>
    simp only [hd, EStateM.Result.ok.injEq, true_and] at hrun
    subst hrun
    refine ⟨hfinds.1, ?_, fun level name => ?_, rfl⟩
    · simp [Mention.noted?, Mention.distance?, hd, State.noted]
    · have hentry := entry_of_distance? (hdistance.trans hd)
      rw [markedAt_modify, hlength]
      simp only [hentry, and_true, List.mem_singleton, exists_eq_left, Mention.Reaches, Mention.distance?, hd,
        Option.some.injEq, exists_eq_left']
      refine or_congr_right ?_
      constructor
      · rintro ⟨rfl, h⟩
        exact ⟨by omega, rfl, h⟩
      · rintro ⟨-, rfl, h⟩
        exact ⟨rfl, h⟩

/-- The fault of a statement would be on record. -/
theorem recorded (h : Tells c Γ Γ' ms ws) : Tells (recording c) Γ Γ' ms ws := by
  refine ⟨adds_stable.recording h.adds, h.length, fun s s' hfaults hseen hrun => ?_⟩
  exact h.tells s s' hfaults hseen ((clean_recording h.adds).1 hrun)

/-- The number of scopes is the number of regions around. -/
theorem measured {f : Nat → Check Unit} (h : Tells (f Γ.layers.length) Γ Γ' ms ws) (hf : ∀ n, Adds (f n)) :
    Tells (depth >>= f) Γ Γ' ms ws := by
  refine ⟨adds_stable.bind adds_stable.depth hf, h.length, fun s s' hfaults hseen hrun => ?_⟩
  have hlength : s.scopes.length = Γ.layers.length := by simpa using congrArg List.length hseen
  have hrun' : Clean (f s.scopes.length) s s' := hrun
  rw [hlength] at hrun'
  exact h.tells s s' hfaults hseen hrun'

/-- The end of a region warns about its locals that no use in it reaches. -/
theorem inside (Led : Region → Bytes → Prop) {Γ₀ : Environs} {r : Region} {ds : List (Token × Origin)}
    {Q : Prop} (h : Tells c Γ₀ Γ' ms ws) (hj : Judges c ds Q) (henter : Γ₀.layers = (Γ.enter r).layers)
    (htail : Γ'.layers.tail = Γ.layers) (hlocals : (ds.filter (·.2 = .local)).map Prod.fst = r.locals)
    (hled : ∀ t ∈ r.locals,
      (∃ m ∈ ms, m.name = t.lexeme ∧ m.Reaches Γ.layers.length) ↔ Led r t.lexeme) :
    Tells (within c) Γ Γ ms (ws ++ r.idle Led) := by
  classical
  refine ⟨adds_stable.within h.adds, rfl, fun s s' hfaults hseen hrun => ?_⟩
  obtain ⟨s₁, hrun₁, rfl⟩ := clean_within.1 hrun
  have hinside : Γ₀.Seen ([] :: s.scopes) := by
    simp only [Environs.Seen, henter, Environs.enter, List.map_cons, List.cons.injEq]
    exact ⟨rfl, hseen⟩
  have htold := h.tells { s with scopes := [] :: s.scopes } s₁ hfaults hinside hrun₁
  obtain ⟨-, hfree, hnames⟩ := hj.clean _ _ hrun₁
  have hlength : s.scopes.length = Γ.layers.length := by simpa using congrArg List.length hseen
  cases hscopes : s₁.scopes with
  | nil => simp [hscopes] at hnames
  | cons scope outer =>
    rw [hscopes, List.map_cons, List.map_cons, List.modifyHead_cons, List.cons.injEq] at hnames
    have hdeclared : Scope.declared scope = ds := hnames.1
    have houter : outer.length = s.scopes.length := by simpa using congrArg List.length hnames.2
    have hmarked := htold.marked
    rw [hscopes, henter, Environs.enter, List.length_cons, ← hlength] at hmarked
    refine ⟨?_, htold.noted, ?_, ?_⟩
    · have htails := congrArg List.tail htold.seen
      rw [← List.map_tail, ← List.map_tail, htail] at htails
      exact htails
    · have hclose : s₁.close.scopes = outer := by simp [State.close, hscopes]
      rw [hclose, ← hlength]
      exact markedAt_outer houter hmarked
    · have hnodup : ((Scope.declared scope).map (·.1.lexeme)).Nodup := hdeclared ▸ hfree.1
      have hidle : (scope.filter Entry.idle).map Entry.name = r.idle Led := by
        rw [idle_names hnodup (marked_inner houter hmarked), hdeclared, hlocals, Region.idle]
        refine List.filter_congr fun t ht => ?_
        simp only [hlength, hled t ht]
      rw [idle_close hscopes, hidle, List.map_append, List.reverse_append, List.append_assoc]
      exact congrArg _ htold.idle

end Tells

/-! ## Along the tree -/

/-- Some way to be where the context says. -/
def Scope.Context.enclosures (ctx : Context) : List Enclosure :=
  (if ctx.inLoop then [.loop] else []) ++ (if ctx.body = .function then [.function] else []) ++
    (if ctx.inClass then [.method initName] else [])

theorem Scope.Context.agrees_enclosures (ctx : Context) : ctx.Agrees ctx.enclosures := by
  obtain ⟨body, outside, inClass, inLoop⟩ := ctx
  cases body <;> cases inClass <;> cases inLoop <;> constructor <;>
    simp [enclosures, MayReturn, MayExit, HasReceiver, Enclosure.isFunction]

/-- The bodies of branches and loops declare nothing. -/
def Fragment.Plain : Fragment → Prop
  | .stmt (.branch _ _ yes no) => yes.isDeclaration = false ∧ ∀ s ∈ no, s.isDeclaration = false
  | .stmt (.loop _ _ body) | .stmt (.forLoop _ _ _ _ body) => body.isDeclaration = false
  | _ => True

/-- A piece is plain, and `Led` is what the pieces in a region say about it. -/
def Fragment.Sound (Led : Region → Bytes → Prop) (Γ : Environs) (p : Fragment) : Prop :=
  p.Plain ∧ p.Fits Led Γ

theorem Environs.afterOpt_of_not_isDeclaration (Γ : Environs) {s : Option Stmt}
    (h : ∀ v ∈ s, v.isDeclaration = false) : Γ.afterOpt s = Γ := by
  cases s with
  | none => rfl
  | some s => exact Γ.after_of_not_isDeclaration (h s rfl)

theorem filter_local (ts : List Token) :
    (((ts.map fun t => (t, Origin.local)).filter (·.2 = .local)).map Prod.fst) = ts := by
  simp [List.filter_map, Function.comp_def]

section

variable {Led : Region → Bytes → Prop} {Γ : Environs}

/-- The check of a function goes through its parameters and its body, and the region ends behind them. -/
theorem Tells.function {kind : Body} {params : List Token} {body : List Stmt} {ws : List Token}
    (hbody : Tells (Stmt.checkAll (Γ.enterFunction kind params body).toContext false body)
      (Γ.enterFunction kind params body) ((Γ.enterFunction kind params body).afterAll body)
      ((Fragment.list body).mentions (Γ.enterFunction kind params body)) ws)
    (hled : ∀ name, (∃ m ∈ (Extent.function Γ kind params body).mentions,
      m.name = name ∧ m.Reaches Γ.layers.length) ↔ Led (.function params body) name) :
    Tells (do
      let inner := Γ.toContext.enter kind (← depth)
      within do
        declareAll params
        Stmt.checkAll inner false body) Γ Γ (Extent.function Γ kind params body).mentions
      (ws ++ (Region.function params body).idle Led) := by
  refine Tells.measured ?_ fun n => adds_stable.within
    (adds_stable.bind (adds_stable.declareAll params) fun _ => adds_stable.stmts _ false body)
  rw [Environs.toContext_enterFunction] at hbody
  have hjudges := (Judges.declaredAll params).andThen (Stmt.checkAll_judges body false
    (Γ.toContext.enter kind Γ.layers.length).agrees_enclosures)
  have hparams : Tells (declareAll params) ({ Γ.enter (.function params body) with
      toContext := Γ.toContext.enter kind Γ.layers.length } : Environs) _ [] [] := Tells.declaredAll params
  refine ((hparams.andThen hbody).inside Led (r := .function params body) hjudges rfl ?_ ?_
    fun t _ => ?_).of_eq ?_ ?_
  · rw [Environs.tail_afterAll, Environs.enterFunction, Environs.tail_addAll]
    rfl
  · rw [List.filter_append, List.map_append, filter_local]
    simp [List.filter_map, Function.comp_def, Region.locals]
  · simpa [Extent.function, Extent.mentions] using hled t.lexeme
  · simp [Extent.function, Extent.mentions]
  · rfl

mutual

theorem Expr.check_tells : ∀ (e : Expr) (Γ : Environs), Everywhere (Fragment.Sound Led) Γ (.expr e) →
    Tells (e.check Γ.toContext) Γ Γ ((Fragment.expr e).mentions Γ) (e.nested.flatMap (Region.idle Led))
  | .literal _ _, Γ, _ => by
    rw [Expr.check]
    exact Tells.nothing.piece (by simp [Fragment.order, Fragment.parts, Expr.parts, Fragment.own, Expr.use?])
      (by simp [Expr.nested])
  | .group _ _ e, Γ, h | .unary _ _ _ e, Γ, h | .updateGet _ e _ _ _ _, Γ, h | .get _ e _, Γ, h => by
    rw [Expr.check]
    have he := Expr.check_tells e Γ (h.part (by simp [Fragment.parts, Expr.parts]))
    exact he.piece
      (by simp [Fragment.order, Fragment.parts, Expr.parts, Fragment.own, Expr.use?])
      (by rw [Expr.nested])
  | .binary _ _ _ l r, Γ, h | .logical _ _ _ l r, Γ, h | .updateIndex _ l _ r _ _ _, Γ, h
  | .index _ l _ r, Γ, h => by
    rw [Expr.check]
    have hl := Expr.check_tells l Γ (h.part (by simp [Fragment.parts, Expr.parts]))
    have hr := Expr.check_tells r Γ (h.part (by simp [Fragment.parts, Expr.parts]))
    exact (hl.andThen hr).piece
      (by simp [Fragment.order, Fragment.parts, Expr.parts, Fragment.own, Expr.use?])
      (by rw [Expr.nested, List.flatMap_append])
  | .set _ object _ value, Γ, h => by
    rw [Expr.check]
    have hv := Expr.check_tells value Γ (h.part (by simp [Fragment.parts, Expr.parts]))
    have ho := Expr.check_tells object Γ (h.part (by simp [Fragment.parts, Expr.parts]))
    exact (hv.andThen ho).piece
      (by simp [Fragment.order, Fragment.own, Expr.use?])
      (by rw [Expr.nested, List.flatMap_append])
  | .ternary _ _ cond yes no, Γ, h => by
    rw [Expr.check]
    have hc := Expr.check_tells cond Γ (h.part (by simp [Fragment.parts, Expr.parts]))
    have hy := Expr.check_tells yes Γ (h.part (by simp [Fragment.parts, Expr.parts]))
    have hn := Expr.check_tells no Γ (h.part (by simp [Fragment.parts, Expr.parts]))
    exact (hc.andThen (hy.andThen hn)).piece
      (by simp [Fragment.order, Fragment.parts, Expr.parts, Fragment.own, Expr.use?])
      (by simp [Expr.nested])
  | .ident id name, Γ, _ => by
    rw [Expr.check]
    exact (Tells.used Γ id .read name).piece
      (by simp [Fragment.order, Fragment.parts, Expr.parts, Fragment.own, Expr.use?])
      (by simp [Expr.nested])
  | .update id name _ token _, Γ, _ => by
    rw [Expr.check]
    exact (Tells.used Γ id .update { name with pos := token.pos }).piece
      (by simp [Fragment.order, Fragment.parts, Expr.parts, Fragment.own, Expr.use?])
      (by simp [Expr.nested])
  | .this id keyword, Γ, _ => by
    rw [Expr.check]
    exact ((Tells.required _ keyword _).andThen
      (Tells.used Γ id .receiver { keyword with lexeme := text "this" })).piece
      (by simp [Fragment.order, Fragment.parts, Expr.parts, Fragment.own, Expr.use?])
      (by simp [Expr.nested])
  | .assign id name value, Γ, h => by
    rw [Expr.check]
    have hv := Expr.check_tells value Γ (h.part (by simp [Fragment.parts, Expr.parts]))
    exact (hv.andThen (Tells.used Γ id .assign name)).piece
      (by simp [Fragment.order, Fragment.parts, Expr.parts, Fragment.own, Expr.use?])
      (by simp [Expr.nested])
  | .compound id name _ _ value, Γ, h => by
    rw [Expr.check]
    have hv := Expr.check_tells value Γ (h.part (by simp [Fragment.parts, Expr.parts]))
    exact (hv.andThen (Tells.used Γ id .compound name)).piece
      (by simp [Fragment.order, Fragment.parts, Expr.parts, Fragment.own, Expr.use?])
      (by simp [Expr.nested])
  | .call _ callee _ args, Γ, h => by
    rw [Expr.check]
    have hc := Expr.check_tells callee Γ (h.part (by simp [Fragment.parts, Expr.parts]))
    have ha := Expr.checkAll_tells args Γ fun e he => h.part (by simp [Fragment.parts, Expr.parts, he])
    exact (hc.andThen ha).piece
      (by simp [Fragment.order, Fragment.parts, Expr.parts, Fragment.own, Expr.use?, List.flatMap_map])
      (by simp [Expr.nested])
  | .array _ _ es, Γ, h => by
    rw [Expr.check]
    have hes := Expr.checkAll_tells es Γ fun e he => h.part (by simp [Fragment.parts, Expr.parts, he])
    exact hes.piece
      (by simp [Fragment.order, Fragment.parts, Expr.parts, Fragment.own, Expr.use?, List.flatMap_map])
      (by simp [Expr.nested])
  | .lambda _ _ params body, Γ, h => by
    rw [Expr.check]
    have hbody := Stmt.checkAll_tells body (Γ.enterFunction .function params body) false
      (h.part (by simp [Fragment.parts, Expr.parts]))
    exact (Tells.function hbody fun name => h.here.2 _ (List.mem_singleton_self _) name).piece
      (by simp [Fragment.order, Fragment.parts, Expr.parts, Fragment.own, Expr.use?, Extent.function, Extent.mentions])
      (by simp [Expr.nested])

theorem Expr.checkAll_tells : ∀ (es : List Expr) (Γ : Environs),
    (∀ e ∈ es, Everywhere (Fragment.Sound Led) Γ (.expr e)) →
    Tells (Expr.checkAll Γ.toContext es) Γ Γ (es.flatMap fun e => (Fragment.expr e).mentions Γ)
      ((Expr.nestedAll es).flatMap (Region.idle Led))
  | [], Γ, _ => by
    rw [Expr.checkAll]
    exact Tells.nothing.of_eq rfl (by simp [Expr.nestedAll])
  | e :: es, Γ, h => by
    rw [Expr.checkAll]
    have he := Expr.check_tells e Γ (h e List.mem_cons_self)
    have hes := Expr.checkAll_tells es Γ fun v hv => h v (List.mem_cons_of_mem _ hv)
    exact (he.andThen hes).of_eq List.flatMap_cons (by simp [Expr.nestedAll])

theorem Expr.checkOpt_tells : ∀ (e : Option Expr) (Γ : Environs),
    (∀ v ∈ e, Everywhere (Fragment.Sound Led) Γ (.expr v)) →
    Tells (Expr.checkOpt Γ.toContext e) Γ Γ (e.toList.flatMap fun v => (Fragment.expr v).mentions Γ)
      ((Expr.nestedOpt e).flatMap (Region.idle Led))
  | none, Γ, _ => by
    rw [Expr.checkOpt]
    exact Tells.nothing.of_eq rfl (by simp [Expr.nestedOpt])
  | some e, Γ, h => by
    rw [Expr.checkOpt]
    exact (Expr.check_tells e Γ (h e rfl)).of_eq (by simp) (by simp [Expr.nestedOpt])

theorem Stmt.check_tells : ∀ (s : Stmt) (Γ : Environs), Everywhere (Fragment.Sound Led) Γ (.stmt s) →
    Tells (s.check Γ.toContext) Γ (Γ.after s) ((Fragment.stmt s).mentions Γ)
      (s.nested.flatMap (Region.idle Led))
  | .expression _ e, Γ, h | .print _ e, Γ, h => by
    rw [Stmt.check]
    have he := Expr.check_tells e Γ (h.part (by simp [Fragment.parts, Stmt.parts]))
    exact he.piece
      (by simp [Fragment.order, Fragment.parts, Stmt.parts, Fragment.own])
      (by rw [Stmt.nested])
  | .declare _ name value, Γ, h => by
    rw [Stmt.check]
    have hvalue : Tells (Expr.checkOpt Γ.toContext value) (Γ.declare name.lexeme) _ _ _ :=
      Expr.checkOpt_tells value (Γ.declare name.lexeme) fun v hv =>
        h.part (by simpa [Fragment.parts, Stmt.parts] using hv)
    exact ((Tells.declared name .local).andThen (hvalue.andThen (Tells.defined name))).piece
      (by simp [Fragment.order, Fragment.parts, Stmt.parts, Fragment.own, List.flatMap_map])
      (by simp [Stmt.nested])
  | .block pos body, Γ, h => by
    rw [Stmt.check]
    have hbody : Tells (Stmt.checkAll Γ.toContext false body) (Γ.enter (.block pos body)) _ _ _ :=
      Stmt.checkAll_tells body (Γ.enter (.block pos body)) false
        (h.part (by simp [Fragment.parts, Stmt.parts]))
    have hfits := h.here.2 _ (List.mem_singleton_self _)
    refine (hbody.inside Led (r := .block pos body)
      (Stmt.checkAll_judges body false Γ.toContext.agrees_enclosures) rfl ?_ (filter_local _)
      fun t _ => ?_).piece ?_ (by simp [Stmt.nested])
    · rw [Environs.tail_afterAll]
      rfl
    · simpa [Extent.mentions] using hfits t.lexeme
    · simp [Fragment.order, Fragment.parts, Stmt.parts, Fragment.own]
  | .branch _ cond yes no, Γ, h => by
    rw [Stmt.check]
    have hc := Expr.check_tells cond Γ (h.part (by simp [Fragment.parts, Stmt.parts]))
    have hy := Stmt.check_tells yes Γ (h.part (by simp [Fragment.parts, Stmt.parts]))
    have hn := Stmt.checkOpt_tells no Γ fun v hv =>
      h.part (by simp [Fragment.parts, Stmt.parts, Option.mem_def.1 hv])
    rw [Γ.after_of_not_isDeclaration h.here.1.1] at hy
    rw [Γ.afterOpt_of_not_isDeclaration h.here.1.2] at hn
    exact (hc.andThen (hy.andThen hn)).piece
      (by simp [Fragment.order, Fragment.parts, Stmt.parts, Fragment.own, List.flatMap_map])
      (by simp [Stmt.nested])
  | .loop _ cond body, Γ, h => by
    rw [Stmt.check]
    have hc := Expr.check_tells cond Γ (h.part (by simp [Fragment.parts, Stmt.parts]))
    have hb : Tells (body.check { Γ.toContext with inLoop := true }) Γ.enterLoop _ _ _ :=
      Stmt.check_tells body Γ.enterLoop (h.part (by simp [Fragment.parts, Stmt.parts]))
    rw [Γ.enterLoop.after_of_not_isDeclaration h.here.1] at hb
    have hround : Tells (body.check { Γ.toContext with inLoop := true }) Γ Γ _ _ := hb.relocate rfl rfl
    exact (hc.andThen hround).piece
      (by simp [Fragment.order, Fragment.parts, Stmt.parts, Fragment.own])
      (by simp [Stmt.nested])
  | .forLoop pos start cond step body, Γ, h => by
    rw [Stmt.check]
    -- the clauses of the header see what the first one declares
    let inside := Γ.enter (.header pos start cond step body)
    let round := inside.afterOpt start
    have hcontext : round.toContext = Γ.toContext := inside.toContext_afterOpt start
    have hstart : Tells (Stmt.checkOpt Γ.toContext start) inside round _ _ :=
      Stmt.checkOpt_tells start inside fun v hv =>
        h.part (by simp [Fragment.parts, Stmt.parts, Option.mem_def.1 hv, inside])
    have hcond := Expr.checkOpt_tells cond round fun v hv =>
      h.part (by simp [Fragment.parts, Stmt.parts, Option.mem_def.1 hv, round, inside])
    have hstep := Expr.checkOpt_tells step round fun v hv =>
      h.part (by simp [Fragment.parts, Stmt.parts, Option.mem_def.1 hv, round, inside])
    have hbody := Stmt.check_tells body round.enterLoop
      (h.part (by simp [Fragment.parts, Stmt.parts, round, inside]))
    rw [round.enterLoop.after_of_not_isDeclaration h.here.1] at hbody
    have hround : Tells (body.check { round.toContext with inLoop := true }) round round _ _ :=
      hbody.relocate rfl rfl
    rw [hcontext] at hcond hstep hround
    have hπ := Γ.toContext.agrees_enclosures
    have hjudges := (Stmt.checkOpt_judges start hπ).andThen ((Expr.checkOpt_judges cond hπ).andThen
      ((Expr.checkOpt_judges step hπ).andThen (Stmt.check_judges body hπ.enterLoop)))
    have hfits := h.here.2 _ (List.mem_singleton_self _)
    refine ((hstart.andThen (hcond.andThen (hstep.andThen hround))).inside Led
      (r := .header pos start cond step body) hjudges rfl (inside.tail_afterOpt start) ?_ fun t _ => ?_).piece
      ?_ (by simp [Stmt.nested])
    · simp only [List.nil_append, ← List.map_append]
      exact filter_local _
    · simpa [Extent.mentions, Stmt.parts, List.flatMap_map, inside, round] using hfits t.lexeme
    · simp [Fragment.order, Fragment.parts, Stmt.parts, Fragment.own, List.flatMap_map, inside, round]
  | .leave keyword, Γ, _ | .skip keyword, Γ, _ => by
    rw [Stmt.check]
    exact (Tells.required _ keyword _).piece
      (by simp [Fragment.order, Fragment.parts, Stmt.parts, Fragment.own])
      (by simp [Stmt.nested])
  | .result keyword value, Γ, h => by
    rw [Stmt.check]
    have hvalue := Expr.checkOpt_tells value Γ fun v hv =>
      h.part (by simpa [Fragment.parts, Stmt.parts] using hv)
    exact ((Tells.required _ keyword _).andThen ((Tells.required _ keyword _).andThen hvalue)).piece
      (by simp [Fragment.order, Fragment.parts, Stmt.parts, Fragment.own, List.flatMap_map])
      (by simp [Stmt.nested])
  | .function (.mk name params body), Γ, h => by
    rw [Stmt.check]
    have hbody := Stmt.checkAll_tells body ((Γ.add name.lexeme).enterFunction .function params body) false
      (h.part (List.mem_singleton_self _))
    have hall := Tells.function hbody fun n => h.here.2 _ (List.mem_singleton_self _) n
    exact ((Tells.declared name .local).andThen ((Tells.defined name).andThen hall)).piece
      (by simp [Fragment.order, Fragment.parts, Stmt.parts, Fragment.own, Extent.function, Extent.mentions, Function.name, Function.params, Function.body])
      (by simp [Stmt.nested])
  | .classDecl pos name fields methods, Γ, h => by
    rw [Stmt.check]
    let inner := (Γ.add name.lexeme).receive (.ofClass name fields methods)
    have hfields : Tells (Field.checkAll Γ.toContext fields) (Γ.add name.lexeme) _ _ _ :=
      Field.checkAll_tells fields (Γ.add name.lexeme) fun d hd =>
        h.part (List.mem_append_left _ (List.mem_map_of_mem hd))
    have hmethods : Tells (Function.checkAll { Γ.toContext with inClass := true } methods)
        (((Γ.add name.lexeme).enter (.ofClass name fields methods)).add (text "this")) _ _ _ :=
      (Function.checkAll_tells methods inner
        (fun d hd => h.part (List.mem_append_right _ (List.mem_map_of_mem hd)))
        fun d hd => h.here.2 _ (List.mem_map_of_mem hd)).relocate rfl rfl
    have hjudges := (Judges.declared (receiver name) .receiver).andThen
      ((Judges.defined (receiver name)).andThen
        (@Function.checkAll_judges methods { Γ.toContext with inClass := true } [] rfl))
    have htail : inner.layers.tail = (Γ.add name.lexeme).layers :=
      Environs.tail_add ((Γ.add name.lexeme).enter (.ofClass name fields methods)) (text "this")
    have hinside := ((Tells.declared (receiver name) .receiver).andThen
      ((Tells.defined (receiver name)).andThen hmethods)).inside Led
      (r := .ofClass name fields methods) hjudges rfl htail rfl fun _ => nofun
    refine ((Tells.declared name .local).andThen ((Tells.defined name).andThen
      (hfields.andThen hinside))).piece ?_ (by simp [Stmt.nested])
    simp [Fragment.order, Fragment.parts, Stmt.parts, Fragment.own, List.flatMap_map, Extent.function,
      Extent.mentions, inner]

theorem Stmt.checkOpt_tells : ∀ (s : Option Stmt) (Γ : Environs),
    (∀ v ∈ s, Everywhere (Fragment.Sound Led) Γ (.stmt v)) →
    Tells (Stmt.checkOpt Γ.toContext s) Γ (Γ.afterOpt s)
      (s.toList.flatMap fun v => (Fragment.stmt v).mentions Γ) ((Stmt.nestedOpt s).flatMap (Region.idle Led))
  | none, Γ, _ => by
    rw [Stmt.checkOpt]
    exact Tells.nothing.of_eq rfl (by simp [Stmt.nestedOpt])
  | some s, Γ, h => by
    rw [Stmt.checkOpt]
    exact (Stmt.check_tells s Γ (h s rfl)).of_eq (by simp) (by simp [Stmt.nestedOpt])

theorem Stmt.checkAll_tells : ∀ (ss : List Stmt) (Γ : Environs) (exited : Bool),
    Everywhere (Fragment.Sound Led) Γ (.list ss) →
    Tells (Stmt.checkAll Γ.toContext exited ss) Γ (Γ.afterAll ss) ((Fragment.list ss).mentions Γ)
      ((Stmt.nestedAll ss).flatMap (Region.idle Led))
  | [], Γ, _, _ => by
    rw [Stmt.checkAll]
    exact Tells.nothing.piece
      (by simp [Fragment.order, Fragment.parts, Fragment.own])
      (by simp [Stmt.nestedAll])
  | s :: ss, Γ, exited, h => by
    rw [Stmt.checkAll]
    have hs := Stmt.check_tells s Γ (h.part (by simp [Fragment.parts]))
    have hss := Stmt.checkAll_tells ss (Γ.after s) s.exits (h.part (by simp [Fragment.parts]))
    rw [Environs.toContext_after] at hss
    have hboth : Tells (do
        recording (s.check Γ.toContext)
        Stmt.checkAll Γ.toContext s.exits ss) Γ (Γ.afterAll (s :: ss)) ((Fragment.list (s :: ss)).mentions Γ)
        ((Stmt.nestedAll (s :: ss)).flatMap (Region.idle Led)) :=
      (hs.recorded.andThen hss).piece (by simp [Fragment.order, Fragment.parts, Fragment.own])
        (by simp [Stmt.nestedAll])
    cases exited with
    | false => exact hboth
    | true => exact (Tells.warned _).andThen hboth

theorem Function.checkAll_tells : ∀ (ds : List Function) (Γ : Environs),
    (∀ d ∈ ds, Everywhere (Fragment.Sound Led) (Γ.enterFunction d.bodyKind d.params d.body) (.list d.body)) →
    (∀ d ∈ ds, ∀ name, (∃ m ∈ (Extent.function Γ d.bodyKind d.params d.body).mentions,
      m.name = name ∧ m.Reaches Γ.layers.length) ↔ Led (.function d.params d.body) name) →
    Tells (Function.checkAll Γ.toContext ds) Γ Γ
      (ds.flatMap fun d => (Extent.function Γ d.bodyKind d.params d.body).mentions)
      ((Function.nestedAll ds).flatMap (Region.idle Led))
  | [], Γ, _, _ => by
    rw [Function.checkAll]
    exact Tells.nothing.of_eq rfl (by simp [Function.nestedAll])
  | .mk name params body :: ds, Γ, h, hled => by
    rw [Function.checkAll]
    have hbody := Stmt.checkAll_tells body _ false (h _ List.mem_cons_self)
    have hrest := Function.checkAll_tells ds Γ (fun d hd => h d (List.mem_cons_of_mem _ hd))
      fun d hd => hled d (List.mem_cons_of_mem _ hd)
    have hall := (Tells.function hbody (hled _ List.mem_cons_self)).andThen hrest
    rw [bind_assoc] at hall
    exact hall.of_eq List.flatMap_cons (by simp [Function.nestedAll, Function.params, Function.body])

theorem Field.checkAll_tells : ∀ (ds : List Field) (Γ : Environs),
    (∀ d ∈ ds, Everywhere (Fragment.Sound Led) Γ (.expr d.value)) →
    Tells (Field.checkAll Γ.toContext ds) Γ Γ (ds.flatMap fun d => (Fragment.expr d.value).mentions Γ)
      ((Field.nestedAll ds).flatMap (Region.idle Led))
  | [], Γ, _ => by
    rw [Field.checkAll]
    exact Tells.nothing.of_eq rfl (by simp [Field.nestedAll])
  | .mk _ value :: ds, Γ, h => by
    rw [Field.checkAll]
    have hv := Expr.check_tells value Γ (h _ List.mem_cons_self)
    have hds := Field.checkAll_tells ds Γ fun d hd => h d (List.mem_cons_of_mem _ hd)
    exact (hv.andThen hds).of_eq List.flatMap_cons (by simp [Field.nestedAll])

end

end

/-! ## Programs -/

/-- The check of a program without faults notes the uses of local names in order, and warns of the locals that
no use leads to. -/
theorem Resolution.ofProgram_reports {stmts : List Stmt}
    (hplain : Everywhere (fun _ p => p.Plain) {} (.list stmts))
    (hids : (((Fragment.list stmts).mentions {}).map Mention.id).Nodup)
    (hfaults : (ofProgram stmts).faults = []) :
    (ofProgram stmts).uses.map (fun u => (u.id, u.distance)) =
        ((Fragment.list stmts).mentions {}).filterMap Mention.noted? ∧
      (ofProgram stmts).warnings.filter (·.warning = .unusedVariable) =
        ((Stmt.nestedAll stmts).flatMap (Region.idle (Mentioned stmts))).map unused := by
  have hsound : Everywhere (Fragment.Sound (Mentioned stmts)) {} (.list stmts) :=
    fun Γ p hocc => ⟨hplain Γ p hocc, Occurs.fits hocc hids⟩
  obtain ⟨s, hrun, heq⟩ := ofProgram_eq stmts
  rw [heq] at hfaults ⊢
  have htold := (Stmt.checkAll_tells stmts {} false hsound).tells {} s rfl rfl
    ⟨hrun, List.reverse_eq_nil_iff.1 hfaults⟩
  constructor
  · rw [List.map_reverse]
    have hnoted : s.uses.map (fun u => (u.id, u.distance)) = _ := htold.noted.trans (List.append_nil _)
    rw [hnoted, List.reverse_reverse]
  · rw [List.filter_reverse]
    have hidle : s.warnings.filter (·.warning = .unusedVariable) = _ :=
      htold.idle.trans (List.append_nil _)
    rw [hidle, List.reverse_reverse]

/-- In a source that is accepted the uses have different identities and the bodies of branches and loops
declare nothing. -/
theorem Parsed.ofSource_plain {n : NodeId} {source : Bytes} {stmts : List Stmt}
    (hparsed : (Parsed.ofSource n source).faults = []) (hstmts : (Parsed.ofSource n source).stmts = stmts)
    (hfaults : (Resolution.ofProgram stmts).faults = []) :
    Everywhere (fun _ p => p.Plain) {} (.list stmts) ∧
      (((Fragment.list stmts).mentions {}).map Mention.id).Nodup := by
  obtain ⟨_, _, _, _, hw, _⟩ := Parsed.ofSource_reads hparsed
  obtain ⟨hnumbered, -⟩ := Parsed.ofSource_drawn hparsed
  rw [hstmts] at hw hnumbered
  obtain ⟨marks, _, _, hlawful⟩ := ofProgram_finds hw hfaults
  constructor
  · intro Γ p hocc
    have hplaced := (hlawful Γ p hocc).1
    unfold Fragment.Plain
    split
    · exact hplaced
    · exact hplaced
    · exact hplaced.2
    · trivial
  · obtain ⟨ids, hperm, hsublist⟩ := Fragment.mentions_subperm {} (.list stmts)
    exact hperm.nodup_iff.1 (hsublist.nodup hnumbered.nodup)

/-- What a noted use leads to is what the use in the text is of. -/
theorem LocalUse.leadsTo_iff {stmts : List Stmt} {uses : List LocalUse}
    (hids : (((Fragment.list stmts).mentions {}).map Mention.id).Nodup)
    (huses : uses.map (fun u => (u.id, u.distance)) =
      ((Fragment.list stmts).mentions {}).filterMap Mention.noted?) {id : NodeId} {r : Region} {name : Bytes} :
    (∃ u ∈ uses, u.id = id ∧ u.LeadsTo stmts r name) ↔
      ∃ m ∈ (Fragment.list stmts).mentions {}, m.id = id ∧ m.name = name ∧ m.region? = some r := by
  have hnoted : ∀ pair : NodeId × Nat, (∃ u ∈ uses, (u.id, u.distance) = pair) ↔
      ∃ m ∈ (Fragment.list stmts).mentions {}, m.id = pair.1 ∧ m.distance? = some pair.2 := by
    intro pair
    rw [← List.mem_map, huses, List.mem_filterMap]
    refine exists_congr fun m => and_congr_right fun _ => ?_
    rw [Mention.noted?, Option.map_eq_some_iff]
    constructor
    · rintro ⟨d, hd, rfl⟩
      exact ⟨rfl, hd⟩
    · rintro ⟨hid, hd⟩
      exact ⟨pair.2, hd, Prod.ext hid rfl⟩
  constructor
  · rintro ⟨u, hu, rfl, Γ, e, hocc, huse, hregion⟩
    obtain ⟨m, hm, hid, hd⟩ := (hnoted (u.id, u.distance)).1 ⟨u, hu, rfl⟩
    have hmention : ⟨Γ, u.id, name⟩ ∈ (Fragment.list stmts).mentions {} :=
      Fragment.mem_mentions.2 ⟨e, hocc, huse⟩
    obtain rfl := List.inj_on_of_nodup_map hids hm hmention hid
    exact ⟨_, hm, rfl, rfl, by rw [Mention.region?, hd, Option.bind_some, hregion]⟩
  · rintro ⟨m, hm, rfl, rfl, hregion⟩
    obtain ⟨d, hd, hregion⟩ := Option.bind_eq_some_iff.1 hregion
    obtain ⟨u, hu, heq⟩ := (hnoted (m.id, d)).2 ⟨m, hm, rfl, hd⟩
    obtain ⟨hid, rfl⟩ := Prod.mk.inj heq
    obtain ⟨e, hocc, huse⟩ := Fragment.mem_mentions.1 hm
    exact ⟨u, hu, hid, m.around, e, hocc, hid ▸ huse, hregion⟩

open Classical in
/-- The check of an accepted source warns, once each, of the locals of its regions that no noted use leads to
and whose names do not start with an underscore: region by region, each in the order of declaration and
behind the regions inside it. Parameters, receivers and names outside all regions are no locals. -/
theorem Resolution.unused_exact {n : NodeId} {source : Bytes} {stmts : List Stmt}
    (hparsed : (Parsed.ofSource n source).faults = []) (hstmts : (Parsed.ofSource n source).stmts = stmts)
    (hfaults : (ofProgram stmts).faults = []) :
    (ofProgram stmts).warnings.filter (·.warning = .unusedVariable) =
      (Stmt.nestedAll stmts).flatMap fun r => (r.locals.filter fun t => t.lexeme.head? ≠ some 0x5F ∧
        ∀ u ∈ (ofProgram stmts).uses, ¬ u.LeadsTo stmts r t.lexeme).map unused := by
  obtain ⟨hplain, hids⟩ := Parsed.ofSource_plain hparsed hstmts hfaults
  obtain ⟨huses, hidle⟩ := ofProgram_reports hplain hids hfaults
  rw [hidle, List.map_flatMap]
  refine List.flatMap_congr fun r _ => ?_
  have hled : ∀ name, Mentioned stmts r name ↔ ∃ u ∈ (ofProgram stmts).uses, u.LeadsTo stmts r name := by
    intro name
    constructor
    · rintro ⟨m, hm, hname, hregion⟩
      obtain ⟨u, hu, -, hleads⟩ := (LocalUse.leadsTo_iff hids huses).2 ⟨m, hm, rfl, hname, hregion⟩
      exact ⟨u, hu, hleads⟩
    · rintro ⟨u, hu, hleads⟩
      obtain ⟨m, hm, -, hname, hregion⟩ := (LocalUse.leadsTo_iff hids huses).1 ⟨u, hu, rfl, hleads⟩
      exact ⟨m, hm, hname, hregion⟩
  simp [Region.idle, hled]

/-- A global name, and a block with an unused variable, another one whose name starts with an underscore, a
function in which a used variable has the name of the unused one, and an unused function. -/
def sampleLocals : Bytes :=
  text "let top = 1; \x7b let a = 1; let _b = 2; " ++
    text "fun f(p) \x7b let a = p; let c = 3; print a; \x7d f(top); let g = fun(q) \x7b \x7d; \x7d"

open Classical in
/-- In the sample the inner region is warned about before the outer one. -/
theorem Resolution.unused_sample :
    (Parsed.ofSource 0 sampleLocals).faults = [] ∧
      (ofProgram (Parsed.ofSource 0 sampleLocals).stmts).faults = [] ∧
      ((Stmt.nestedAll (Parsed.ofSource 0 sampleLocals).stmts).flatMap fun r => (r.locals.filter fun t =>
        t.lexeme.head? ≠ some 0x5F ∧ ∀ u ∈ (ofProgram (Parsed.ofSource 0 sampleLocals).stmts).uses,
          ¬ u.LeadsTo (Parsed.ofSource 0 sampleLocals).stmts r t.lexeme).map unused).map (·.lexeme) =
        [text "c", text "a", text "g"] := by
  have hparsed : (Parsed.ofSource 0 sampleLocals).faults = [] := by decide +kernel
  have hfaults : (ofProgram (Parsed.ofSource 0 sampleLocals).stmts).faults = [] := by decide +kernel
  refine ⟨hparsed, hfaults, ?_⟩
  rw [← unused_exact hparsed rfl hfaults]
  decide +kernel

end Treewalk
