import Treewalk.Proofs.Parser.Bounds

/-!
# What parsers do not see

A parser that stops in front of a closing brace has not seen what stands behind it, whatever it recovered
from on its way. Nor does a parser look at the faults recorded so far.

**The relation** (`Ignores`). A change of the tokens is not seen while the tokens ahead allow it (`Unseen`). With
such a change a parser finds the same result and ends in the state that it would have ended in, changed in the
same way.

**Main results** (`Routine.earlier_faults`, `Routine.unseen_behind`). Faults recorded earlier stay as they are,
and what stands behind a closing brace does not matter before it.

A fault is at the end of input only if the parser has come there (`Routine.located`).
-/

namespace Treewalk.Parser

open Parse

variable {α β : Type}

/-! ## Steps -/

/-- The token after the next one, or the last one. -/
def second : List Token → Token
  | _ :: t :: _ => t
  | ts => Token.first ts

theorem peekSecond_eq (s : State) : peekSecond s = .ok (second s.rest) s := by
  obtain ⟨_ | ⟨t, _ | ⟨u, rest⟩⟩, n, faults⟩ := s <;> rfl

theorem advance_eq (s : State) : advance s =
    if (Token.first s.rest).kind = .eof then .ok (Token.first s.rest) s
    else .ok (Token.first s.rest) { s with rest := s.rest.tail } := by
  obtain ⟨_ | ⟨t, rest⟩, n, faults⟩ := s <;> rfl

/-- A result with its state changed. -/
def onState (g : State → State) : EStateM.Result Stop State α → EStateM.Result Stop State α
  | .ok a s => .ok a (g s)
  | .error e s => .error e (g s)

/-- The tokens changed, and more faults recorded before all others. -/
def changed (change : List Token → List Token) (earlier : List Diagnostic) (s : State) : State :=
  { s with rest := change s.rest, faults := s.faults ++ earlier }

/-! ## Changes that are not seen -/

section

variable (ahead : List Token → Prop) (change : List Token → List Token)

/-- While the tokens left satisfy `ahead`, no step tells them from the changed ones. -/
structure Unseen : Prop where
  earlier {us ts : List Token} (h : Within us ts) (hus : ahead us) : ahead ts
  first {ts : List Token} (h : ahead ts) : Token.first (change ts) = Token.first ts
  second {ts : List Token} (h : ahead ts) (hbrace : (Token.first ts).kind ≠ .rightBrace) :
    second (change ts) = second ts
  tail {ts : List Token} (heof : (Token.first ts).kind ≠ .eof) (h : ahead ts.tail) :
    (change ts).tail = change ts.tail
  resume {ts : List Token} (h : ahead (resume ts)) : resume (change ts) = change (resume ts)

/-- A parser that stops with `ahead` still true has not seen the change. -/
def Ignores (p : Parser α) : Prop := ∀ s, Within (endOf (p s)).rest s.rest ∧
  ∀ earlier, ahead (endOf (p s)).rest → p (changed change earlier s) = onState (changed change earlier) (p s)

end

section

variable {ahead : List Token → Prop} {change : List Token → List Token}

theorem Ignores.bind {p : Parser α} {f : α → Parser β} (hunseen : Unseen ahead change)
    (hp : Ignores ahead change p) (hf : ∀ a, Ignores ahead change (f a)) : Ignores ahead change (p >>= f) := by
  intro s
  refine ⟨within_compositional.bind (fun s => (hp s).1) (fun a s => (hf a s).1) s, fun earlier h => ?_⟩
  have hfirst := (hp s).2 earlier
  show EStateM.bind p f (changed change earlier s) = onState (changed change earlier) (EStateM.bind p f s)
  replace h : ahead (endOf (EStateM.bind p f s)).rest := h
  unfold EStateM.bind at h ⊢
  cases hps : p s with
  | ok a s' =>
    rw [hps] at hfirst h
    rw [hfirst (hunseen.earlier (hf a s').1 h)]
    exact (hf a s').2 earlier h
  | error e s' =>
    rw [hps] at hfirst h
    rw [hfirst h]
    rfl

theorem Ignores.recovering {p : Parser Stmt} (hunseen : Unseen ahead change) (hp : Ignores ahead change p) :
    Ignores ahead change (Parser.recovering p) := by
  intro s
  refine ⟨within_compositional.recovering (fun s => (hp s).1) s, fun earlier h => ?_⟩
  have hinner := (hp s).2 earlier
  unfold Parser.recovering at h ⊢
  cases hps : p s with
  | ok stmt s' =>
    rw [hps] at hinner h
    rw [hinner h]
    rfl
  | error e s' =>
    rw [hps] at hinner h
    cases e with
    | outOfFuel =>
      rw [hinner h]
      rfl
    | fault d =>
      have hresume : ahead (resume s'.rest) := h
      rw [hinner (hunseen.earlier (resume_within _) hresume)]
      simp only [onState, changed, hunseen.resume hresume, List.cons_append]

theorem Unseen.compositional (hunseen : Unseen ahead change) :
    Compositional fun _ p => Ignores ahead change p where
  pure a s := ⟨.refl _, fun _ _ => rfl⟩
  outOfFuel s := ⟨.refl _, fun _ _ => rfl⟩
  bind hp hf := .bind hunseen hp hf
  look {α f} hf s := by
    have hlook : ∀ s : State, (Parser.peek >>= f) s = f (Token.first s.rest) s := fun _ => rfl
    refine ⟨?_, fun earlier h => ?_⟩
    · refine within_compositional.look (fun t => ?_) s
      rcases hf t with ht | ⟨hkind, g, hg, hu⟩
      · exact .inl fun s => (ht s).1
      · exact .inr ⟨hkind, g, hg, fun u s => (hu u s).1⟩
    rw [hlook] at h
    rw [hlook, hlook]
    rcases hf (Token.first s.rest) with ht | ⟨hkind, g, hg, hu⟩
    · have hahead : ahead s.rest := hunseen.earlier (ht s).1 h
      rw [show (changed change earlier s).rest = change s.rest from rfl, hunseen.first hahead]
      exact (ht s).2 earlier h
    · have hlook₂ : ∀ s : State, (peekSecond >>= g) s = g (Parser.second s.rest) s := fun s => by
        show EStateM.bind peekSecond g s = _
        rw [EStateM.bind, peekSecond_eq]
      rw [hg, hlook₂] at h
      have hahead : ahead s.rest := hunseen.earlier (hu _ s).1 h
      rw [show (changed change earlier s).rest = change s.rest from rfl, hunseen.first hahead, hg, hlook₂, hlook₂,
        show (changed change earlier s).rest = change s.rest from rfl, hunseen.second hahead hkind]
      exact (hu _ s).2 earlier h
  advance s := by
    refine ⟨within_compositional.advance s, fun earlier h => ?_⟩
    have hahead : ahead s.rest := hunseen.earlier (within_compositional.advance s) h
    rw [advance_eq] at h
    rw [advance_eq, advance_eq, show (changed change earlier s).rest = change s.rest from rfl, hunseen.first hahead]
    split_ifs at h ⊢ with heof
    · rfl
    · simp only [onState, changed, hunseen.tail heof h]
  freshId s := ⟨.refl _, fun _ _ => rfl⟩
  recordAt t kind message ht s := ⟨.refl _, fun _ _ => rfl⟩
  recordNext kind message s := by
    refine ⟨.refl _, fun earlier (h : ahead s.rest) => ?_⟩
    show EStateM.Result.ok () { changed change earlier s with
      faults := faultAt (Token.first (change s.rest)) kind message :: (s.faults ++ earlier) } = _
    rw [hunseen.first h]
    rfl
  failExpected {α} what s := by
    refine ⟨.refl _, fun earlier (h : ahead s.rest) => ?_⟩
    show EStateM.Result.error (Stop.fault (faultAt (Token.first (change s.rest)) _
      (text "expected " ++ what ++ text ", found " ++ found (Token.first (change s.rest))))) _ = _
    rw [hunseen.first h]
    rfl
  recovering hp := .recovering hunseen hp

end

/-! ## Faults recorded earlier -/

theorem unseen_id : Unseen (fun _ => True) id where
  earlier _ _ := trivial
  first _ := rfl
  second _ _ := rfl
  tail _ _ := rfl
  resume _ := rfl

/-- Parsers only add to the faults and do not look at them. -/
theorem Routine.earlier_faults {n : Nat} {p : Parser α} (h : Routine n p) (s : State) (earlier : List Diagnostic) :
    p { s with faults := s.faults ++ earlier } =
      onState (fun s => { s with faults := s.faults ++ earlier }) (p s) :=
  (unseen_id.compositional.routine n h s).2 earlier trivial

/-! ## Behind a closing brace -/

/-- Recovery that starts before a token stops before it whatever follows, or it goes on behind it. -/
theorem dropToBoundary_cases (ts : List Token) (b : Token) : ∀ before : Token.Kind,
    (∃ ts', ∀ us, dropToBoundary before (ts ++ b :: us) = ts' ++ b :: us) ∨
      ∀ us, dropToBoundary before (ts ++ b :: us) = dropToBoundary b.kind us := by
  induction ts with
  | nil =>
    intro before
    by_cases hstop : (b.kind = .eof || before = .semicolon || startsStatement b.kind) = true
    · exact .inl ⟨[], fun us => by simp only [List.nil_append, dropToBoundary, if_pos hstop]⟩
    · exact .inr fun us => by simp only [List.nil_append, dropToBoundary, if_neg hstop]
  | cons t ts ih =>
    intro before
    by_cases hstop : (t.kind = .eof || before = .semicolon || startsStatement t.kind) = true
    · exact .inl ⟨t :: ts, fun us => by simp only [List.cons_append, dropToBoundary, if_pos hstop]⟩
    · simp only [List.cons_append, dropToBoundary, if_neg hstop]
      exact ih t.kind

theorem resume_cases (ts : List Token) {b : Token} (hb : b.kind ≠ .eof) :
    (∃ ts', ∀ us, resume (ts ++ b :: us) = ts' ++ b :: us) ∨
      ∀ us, resume (ts ++ b :: us) = dropToBoundary b.kind us := by
  cases ts with
  | nil => exact .inr fun us => by simp only [List.nil_append, resume, if_neg hb]
  | cons t ts =>
    by_cases ht : t.kind = .eof
    · exact .inl ⟨t :: ts, fun us => by simp only [List.cons_append, resume, if_pos ht]⟩
    · simp only [List.cons_append, resume, if_neg ht]
      exact dropToBoundary_cases ts b t.kind

/-- The last tokens exchanged for others. -/
def exchange (us vs ts : List Token) : List Token := ts.take (ts.length - us.length) ++ vs

theorem exchange_append (ts us vs : List Token) : exchange us vs (ts ++ us) = ts ++ vs := by
  simp [exchange]

theorem exchange_behind (ts us vs : List Token) (b : Token) :
    exchange us vs (ts ++ b :: us) = ts ++ b :: vs := by
  rw [List.append_cons, exchange_append, ← List.append_cons]

theorem unseen_exchange {b : Token} (hb : b.kind = .rightBrace) (us vs : List Token) :
    Unseen (fun ts => ∃ xs, ts = xs ++ b :: us) (exchange us vs) where
  earlier := by
    rintro _ _ ⟨used, rfl, -⟩ ⟨xs, rfl⟩
    exact ⟨used ++ xs, (List.append_assoc ..).symm⟩
  first := by
    rintro _ ⟨xs, rfl⟩
    rw [exchange_behind]
    cases xs <;> rfl
  second := by
    rintro _ ⟨xs, rfl⟩ hfirst
    rw [exchange_behind]
    rcases xs with _ | ⟨x, _ | ⟨x', xs⟩⟩
    · exact absurd hb hfirst
    · rfl
    · rfl
  tail := by
    rintro (_ | ⟨t, ts⟩) - ⟨xs, hxs⟩
    · cases xs <;> cases hxs
    · obtain rfl : ts = xs ++ b :: us := hxs
      rw [← List.cons_append, exchange_behind]
      exact (exchange_behind xs us vs b).symm
  resume := by
    rintro ts ⟨xs, hxs⟩
    obtain ⟨used, hused, -⟩ := resume_within ts
    rw [hxs, ← List.append_assoc] at hused
    subst hused
    have hne : b.kind ≠ .eof := by rw [hb]; decide
    rcases resume_cases (used ++ xs) hne with ⟨ts', hts'⟩ | hbehind
    · rw [hts', exchange_behind, exchange_behind, hts']
    · -- it would have gone on behind the brace and come back
      rw [hbehind] at hxs
      have hlength := (dropToBoundary_within b.kind us).length_le
      rw [hxs, List.length_append, List.length_cons] at hlength
      omega

/-- What stands behind a closing brace does not matter to a parser that stops before it. -/
theorem Routine.unseen_behind {n : Nat} {p : Parser α} (h : Routine n p) {b : Token} (hb : b.kind = .rightBrace)
    {ts us xs : List Token} {id : NodeId} {faults : List Diagnostic}
    (hend : (endOf (p ⟨ts ++ b :: us, id, faults⟩)).rest = xs ++ b :: us) (vs : List Token) :
    p ⟨ts ++ b :: vs, id, faults⟩ =
      onState (fun s => { s with rest := xs ++ b :: vs }) (p ⟨ts ++ b :: us, id, faults⟩) := by
  have hsame := ((unseen_exchange hb us vs).compositional.routine n h ⟨ts ++ b :: us, id, faults⟩).2 [] ⟨xs, hend⟩
  simp only [changed, exchange_behind, List.append_nil] at hsame
  rw [hsame]
  generalize p ⟨ts ++ b :: us, id, faults⟩ = r at hend
  cases r with
  | ok a s =>
    replace hend : s.rest = xs ++ b :: us := hend
    simp only [onState, changed, hend, exchange_behind, List.append_nil]
  | error e s =>
    replace hend : s.rest = xs ++ b :: us := hend
    simp only [onState, changed, hend, exchange_behind, List.append_nil]

/-! ## Where faults are -/

/-- A fault is at the end of input only if the parser stops there. -/
def Located (p : Parser α) : Prop := ∀ s, Within (endOf (p s)).rest s.rest ∧
  (∀ d s', p s = .error (.fault d) s' → d.incomplete = decide ((Token.first s'.rest).kind = .eof)) ∧
  ((Token.first (endOf (p s)).rest).kind ≠ .eof → (∀ d ∈ s.faults, d.incomplete = false) →
    ∀ d ∈ (endOf (p s)).faults, d.incomplete = false)

/-- The end of input is not left again. -/
theorem Within.first_ne_eof {ts us : List Token} (h : Within us ts) (hus : (Token.first us).kind ≠ .eof) :
    (Token.first ts).kind ≠ .eof := by
  obtain ⟨_ | ⟨t, used⟩, rfl, hused⟩ := h
  · exact hus
  · exact hused t List.mem_cons_self

theorem Located.bind {p : Parser α} {f : α → Parser β} (hp : Located p) (hf : ∀ a, Located (f a)) :
    Located (p >>= f) := by
  intro s
  refine ⟨within_compositional.bind (fun s => (hp s).1) (fun a s => (hf a s).1) s, ?_⟩
  obtain ⟨-, hfault, hcomplete⟩ := hp s
  show (∀ d s', EStateM.bind p f s = .error (.fault d) s' → _) ∧
    ((Token.first (endOf (EStateM.bind p f s)).rest).kind ≠ .eof → _ →
      ∀ d ∈ (endOf (EStateM.bind p f s)).faults, d.incomplete = false)
  unfold EStateM.bind
  cases hps : p s with
  | ok a s' =>
    rw [hps] at hcomplete
    obtain ⟨hwithin, hfault', hcomplete'⟩ := hf a s'
    exact ⟨hfault', fun hend hs => hcomplete' hend (hcomplete (hwithin.first_ne_eof hend) hs)⟩
  | error e s' =>
    rw [hps] at hfault hcomplete
    refine ⟨?_, hcomplete⟩
    rintro d _ ⟨⟩
    exact hfault d s' rfl

theorem Located.recovering {p : Parser Stmt} (hp : Located p) : Located (Parser.recovering p) := by
  intro s
  refine ⟨within_compositional.recovering (fun s => (hp s).1) s,
    fun d s' h => absurd h (faultless_recovering _ _ _ _), ?_⟩
  obtain ⟨-, hfault, hcomplete⟩ := hp s
  unfold Parser.recovering
  cases hps : p s with
  | ok stmt s' =>
    rw [hps] at hcomplete
    exact hcomplete
  | error e s' =>
    rw [hps] at hfault hcomplete
    cases e with
    | outOfFuel => exact hcomplete
    | fault d =>
      intro hend hs
      have hne : (Token.first s'.rest).kind ≠ .eof := (resume_within s'.rest).first_ne_eof hend
      refine List.forall_mem_cons.2 ⟨?_, hcomplete hne hs⟩
      rw [hfault d s' rfl, decide_eq_false hne]

/-- A parser that does not fail here. -/
theorem noFault_of_ok {p : Parser α} {s s' : State} {a : α} (h : p s = .ok a s') (d : Diagnostic) (s'' : State) :
    p s = .error (.fault d) s'' → d.incomplete = decide ((Token.first s''.rest).kind = .eof) := by
  rw [h]
  nofun

theorem located_compositional : Compositional fun _ p => Located p where
  pure a s := ⟨.refl _, noFault_of_ok rfl, fun _ hs => hs⟩
  outOfFuel s := ⟨.refl _, nofun, fun _ hs => hs⟩
  bind hp hf := hp.bind hf
  look {α f} hf s := by
    rcases hf (Token.first s.rest) with ht | ⟨-, g, hg, hu⟩
    · exact ht s
    · have hlook : (peek >>= f) s = g (second s.rest) s := by
        show f (Token.first s.rest) s = _
        rw [hg]
        show EStateM.bind peekSecond g s = _
        rw [EStateM.bind, peekSecond_eq]
      simp only [hlook]
      exact hu _ s
  advance s := by
    refine ⟨within_compositional.advance s, ?_⟩
    rw [advance_eq]
    split_ifs
    · exact ⟨nofun, fun _ hs => hs⟩
    · exact ⟨nofun, fun _ hs => hs⟩
  freshId s := ⟨.refl _, noFault_of_ok rfl, fun _ hs => hs⟩
  recordAt t kind message ht s :=
    ⟨.refl _, noFault_of_ok rfl, fun _ hs => List.forall_mem_cons.2 ⟨decide_eq_false ht, hs⟩⟩
  recordNext kind message s :=
    ⟨.refl _, noFault_of_ok rfl, fun hend hs => List.forall_mem_cons.2 ⟨decide_eq_false hend, hs⟩⟩
  failExpected what s := by
    refine ⟨.refl _, ?_, fun _ hs => hs⟩
    rintro d s' ⟨⟩
    rfl
  recovering hp := hp.recovering

theorem Routine.located {n : Nat} {p : Parser α} (h : Routine n p) : Located p :=
  located_compositional.routine n h

end Treewalk.Parser
