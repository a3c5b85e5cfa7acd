import Mathlib.Data.List.Induction
import Treewalk.Proofs.Store.Ledger

/-!
# Frames are ordered maps

Frames are made and called on from none at all (`Store.Built`). What such calls leave is a tree of ordered finite
maps: a frame binds each name once, and lists its names in the order in which they were defined first, which is
read off the calls alone (`FrameCall.defines?`); a look-up stands for the nearest frame that binds the name.

**Steps.** `FrameCall.Effect` says what a call does, and from it what the call keeps: parents older than their
children, the names in their order, and protected bindings, unless the call writes at a distance.

**Runs.** By induction over the calls, the names of every frame are the history of its definitions, and frames that
are written in place come to the same.

Main result: the calls on frames are those on ordered finite maps (`Store.Built.frames_are_maps`).
-/

namespace Treewalk

/-! ## First occurrences -/

theorem eraseDups_concat (names : List Bytes) (name : Bytes) : (names ++ [name]).eraseDups =
    if name ∈ names.eraseDups then names.eraseDups else names.eraseDups ++ [name] := by
  simp only [List.mem_eraseDups, List.eraseDups_append]
  split_ifs with hmem <;> simp [List.removeAll, hmem, List.eraseDups_cons]

theorem nodup_eraseDups (names : List Bytes) : names.eraseDups.Nodup := by
  induction names using List.reverseRecOn with
  | nil => simp
  | append_singleton names name ih =>
    rw [eraseDups_concat]
    split_ifs with hmem
    · exact ih
    · refine List.nodup_append.2 ⟨ih, List.pairwise_singleton _ _, fun first hfirst last hlast => ?_⟩
      rintro rfl
      exact hmem (List.mem_singleton.1 hlast ▸ hfirst)

/-! ## What a call keeps -/

namespace Store

variable {s s' : Store} {f g h : FrameId} {name other : Bytes} {v : Value} {b : Binding}

theorem Puts.aged (hputs : s.Puts f b s') (hs : s.Aged) : s'.Aged := by
  intro g up hup
  exact hs g up (hputs.parent g ▸ hup)

theorem Puts.ancestor?_eq (hputs : s.Puts f b s') (n : Nat) : ∀ g : FrameId, s'.ancestor? g n = s.ancestor? g n := by
  induction n with
  | zero => exact fun _ => rfl
  | succ n ih =>
    intro g
    rw [ancestor?, ancestor?, hputs.parent, funext ih]

theorem Puts.names_eq (hputs : s.Puts f b s') (hbound : b.name ∈ (s.frame f).names) (g : FrameId) :
    (s'.frame g).names = (s.frame g).names := by
  rw [hputs.names, if_neg fun h => h.2 (h.1 ▸ hbound)]

/-- A write to a bound name leaves every name with its nearest frame. -/
theorem Puts.nearest_iff (hputs : s.Puts f b s') (hbound : b.name ∈ (s.frame f).names) :
    s'.Nearest g name h ↔ s.Nearest g name h := by
  simp only [Nearest, hputs.ancestor?_eq, hputs.names_eq hbound]

/-- A write to a bound name is seen through the frames for which it is in the nearest one, and through no other. -/
theorem Puts.get_eq (hputs : s.Puts f b s') (hs : s.Aged) (hbound : b.name ∈ (s.frame f).names) :
    (other = b.name ∧ s.Nearest g b.name f → s'.get g other = .ok b.value) ∧
      (¬(other = b.name ∧ s.Nearest g b.name f) → s'.get g other = s.get g other) := by
  have hs' := hputs.aged hs
  constructor
  · rintro ⟨rfl, hnearest⟩
    have hfind := hputs.find? f b.name
    rw [if_pos ⟨rfl, rfl⟩] at hfind
    exact hs'.get_nearest ((hputs.nearest_iff hbound).2 hnearest) hfind
  · intro hother
    by_cases hknown : ∃ h, s.Nearest g other h
    · obtain ⟨h, hnearest⟩ := hknown
      obtain ⟨c, hc⟩ := hnearest.find?
      have hfind := hputs.find? h other
      rw [if_neg, hc] at hfind
      · rw [hs.get_nearest hnearest hc, hs'.get_nearest ((hputs.nearest_iff hbound).2 hnearest) hfind]
      · rintro ⟨rfl, rfl⟩
        exact hother ⟨rfl, hnearest⟩
    · have hnone := not_exists.1 hknown
      rw [get_unknown hnone, get_unknown fun h hnearest => hnone h ((hputs.nearest_iff hbound).1 hnearest)]

end Store

namespace FrameCall

variable {s s' : Store} {c : FrameCall} {r : Except (BindError ⊕ Fault) Store} {f : FrameId} {name : Bytes}
  {b : Binding}

/-- The name that a call asks to define in a frame, whether it may or not. -/
def defines? (f : FrameId) : FrameCall → Option Bytes
  | define g name _ | register g name _ _ => if g = f then some name else none
  | create _ | mutate _ _ _ | putAt _ _ _ _ => none

/-- Does a call write without asking for protection? -/
def writesAt : FrameCall → Bool
  | putAt _ _ _ _ => true
  | _ => false

theorem Effect.aged (heffect : c.Effect s r) (hs : s.Aged) (hc : c.On s) : (r.toOption.getD s).Aged := by
  cases heffect with
  | @created parent =>
    intro f up hup
    change (Store.frame { s with frames := s.frames.push _ } f).parent = _ at hup
    rw [Store.frame_push] at hup
    split_ifs at hup with hf
    · exact hf ▸ hc up hup
    · exact hs f up hup
  | defined _ hputs | registered _ hputs | mutated _ _ _ hputs | written _ _ hputs => exact hputs.aged hs
  | definedTwice | registeredTwice | shielded | unknown | tooFar | missed => exact hs

/-- A name that is defined in a frame comes behind the others, unless it is there. -/
theorem Effect.names_defined (heffect : c.Effect s r) (hname : c.defines? f = some name) :
    ((r.toOption.getD s).frame f).names =
      if name ∈ (s.frame f).names then (s.frame f).names else (s.frame f).names ++ [name] := by
  cases heffect with
  | defined hfree hputs | registered hfree hputs =>
    simp only [defines?, Option.ite_none_right_eq_some, Option.some.injEq] at hname
    obtain ⟨rfl, rfl⟩ := hname
    rw [if_neg hfree]
    exact (hputs.names _).trans (if_pos ⟨rfl, hfree⟩)
  | definedTwice hbound | registeredTwice hbound =>
    simp only [defines?, Option.ite_none_right_eq_some, Option.some.injEq] at hname
    obtain ⟨rfl, rfl⟩ := hname
    exact (if_pos hbound).symm
  | created | mutated | shielded | unknown | written | tooFar | missed => cases hname

theorem Effect.names_other (heffect : c.Effect s r) (hname : c.defines? f = none) :
    ((r.toOption.getD s).frame f).names = (s.frame f).names := by
  cases heffect with
  | @created parent =>
    change (Store.frame { s with frames := s.frames.push { parent } } f).names = _
    rw [Store.frame_push]
    split_ifs with hf
    · simp [hf, Store.frame, Frame.names]
    · rfl
  | defined hfree hputs | registered hfree hputs =>
    simp only [defines?, ite_eq_right_iff, reduceCtorEq, imp_false] at hname
    exact (hputs.names f).trans (if_neg fun h => hname h.1.symm)
  | mutated _ hfind _ hputs | written _ hfind hputs =>
    obtain rfl := Frame.name_of_find? hfind
    exact hputs.names_eq (Store.mem_names_of_find? hfind) f
  | definedTwice | registeredTwice | shielded | unknown | tooFar | missed => rfl

/-- A protected binding is written at a distance only. -/
theorem Effect.find?_protected (heffect : c.Effect s r) (hc : c.writesAt = false)
    (hb : (s.frame f).find? name = some b) (hprotected : b.isProtected = true) :
    ((r.toOption.getD s).frame f).find? name = some b := by
  cases heffect with
  | @created parent =>
    change (Store.frame { s with frames := s.frames.push { parent } } f).find? name = _
    rw [Store.frame_push_of_lt (Store.lt_size_of_find? hb), hb]
  | defined hfree hputs | registered hfree hputs =>
    refine (hputs.find? f name).trans ((if_neg ?_).trans hb)
    rintro ⟨rfl, rfl⟩
    exact hfree (Store.mem_names_of_find? hb)
  | mutated _ hfind hopen hputs =>
    refine (hputs.find? f name).trans ((if_neg ?_).trans hb)
    rintro ⟨rfl, rfl⟩
    rw [Frame.name_of_find? hfind, hfind] at hb
    cases hb
    exact absurd hprotected (by simp [hopen])
  | written => cases hc
  | definedTwice | registeredTwice | shielded | unknown | tooFar | missed => exact hb

end FrameCall

/-! ## What calls leave -/

namespace Store

/-- The frames of a store were made by these calls, one after the other, from none at all. -/
inductive Built : List FrameCall → Store → Prop
  | start {s} (h : s.frames = #[]) : Built [] s
  | call {calls s} (h : Built calls s) {c : FrameCall} (hc : c.On s) : Built (calls ++ [c]) (c.after s)

namespace Built

variable {calls : List FrameCall} {s : Store}

theorem aged (h : s.Built calls) : s.Aged := by
  induction h with
  | start hs =>
    intro f up hup
    simp [Store.frame, hs] at hup
  | call h hc ih => exact (FrameCall.effect ih hc).aged ih hc

/-- The names of a frame are those that were to be defined in it, each where it came first. -/
theorem names_eq (h : s.Built calls) (f : FrameId) :
    (s.frame f).names = (calls.filterMap (·.defines? f)).eraseDups := by
  induction h with
  | start hs => simp [Store.frame, hs, Frame.names]
  | @call calls s h c hc ih =>
    have heffect := FrameCall.effect h.aged hc
    rw [List.filterMap_append]
    cases hname : c.defines? f with
    | none =>
      rw [List.filterMap_cons_none hname, List.filterMap_nil, List.append_nil, ← ih]
      exact heffect.names_other hname
    | some name =>
      rw [List.filterMap_cons_some hname, List.filterMap_nil, eraseDups_concat, ← ih]
      exact heffect.names_defined hname

/-- The calls written in place, all of them, leave the ledgers of the store. -/
theorem inPlaceAll_eq (h : s.Built calls) : FrameCall.inPlaceAll calls = s.ledgers := by
  induction h with
  | start hs => simp [FrameCall.inPlaceAll, Store.ledgers, hs]
  | @call calls s h c hc ih =>
    rw [FrameCall.inPlaceAll] at ih ⊢
    rw [List.foldl_append, ih]
    exact congrArg Prod.snd (c.inPlace_mirrors s)

/-- Frames that calls have made are ordered finite maps in a tree, and further calls are those on such maps.

Every frame binds each name once, exactly the names that a look-up in it finds, in the order of their first
definition. A look-up along the chain gives the value in the nearest frame that binds the name. An assignment along
the chain writes there, unless the binding is protected, and what it writes is seen through the frames for which
that frame is the nearest one and through no other. A call does what `FrameCall.Effect` says; a refused one leaves
everything as it was; and a protected binding is written at a distance only. All this holds as well of frames that
keep their table apart from the order of their names and are written in place. -/
theorem frames_are_maps (h : s.Built calls) :
    (∀ f, (s.frame f).names.Nodup ∧
      (∀ name, name ∈ (s.frame f).names ↔ ((s.frame f).lookup? name).isSome = true) ∧
      (s.frame f).names = (calls.filterMap (·.defines? f)).eraseDups) ∧
    FrameCall.inPlaceAll calls = s.ledgers ∧
    (∀ f name,
      (∀ g, s.Nearest f name g → ∃ b, (s.frame g).find? name = some b ∧ s.get f name = .ok b.value) ∧
      ((∀ g, ¬ s.Nearest f name g) → s.get f name = .error (.undefined name))) ∧
    (∀ f name v s', s.mutate f name v = .ok s' → ∃ g, s.Nearest f name g ∧ ∀ k other,
      (other = name ∧ s.Nearest k name g → s'.get k other = .ok v) ∧
      (¬(other = name ∧ s.Nearest k name g) → s'.get k other = s.get k other)) ∧
    ∀ c : FrameCall, c.On s →
      c.Effect s (c.perform s) ∧
      (∀ s', c.perform s = .ok s' → c.after s = s' ∧ c.inPlace.on s.ledgers = (.ok (), s'.ledgers)) ∧
      (∀ e, c.perform s = .error e → c.after s = s ∧ c.inPlace.on s.ledgers = (.error e, s.ledgers)) ∧
      (c.writesAt = false → ∀ f name b, (s.frame f).find? name = some b → b.isProtected = true →
        ((c.after s).frame f).find? name = some b) := by
  refine ⟨fun f => ⟨?_, fun name => ?_, h.names_eq f⟩, h.inPlaceAll_eq,
    fun f name => ⟨fun g hnearest => ?_, get_unknown⟩, ?_, fun c hc => ?_⟩
  · rw [h.names_eq]
    exact nodup_eraseDups _
  · rw [Frame.mem_names_iff, Frame.lookup?, Option.isSome_map]
  · obtain ⟨b, hb⟩ := hnearest.find?
    exact ⟨b, hb, h.aged.get_nearest hnearest hb⟩
  · intro f name v s' hmutate
    have heffect := FrameCall.effect_mutate h.aged f name v
    rw [FrameCall.perform, hmutate] at heffect
    cases heffect with
    | @mutated _ _ _ g b _ hnearest hfind _ hputs =>
      obtain rfl := Frame.name_of_find? hfind
      exact ⟨g, hnearest, fun _ _ => hputs.get_eq h.aged (mem_names_of_find? hfind)⟩
  · have heffect := FrameCall.effect h.aged hc
    have hmirrors := c.inPlace_mirrors s
    refine ⟨heffect, fun s' hok => ?_, fun e herror => ?_, fun hwrites f name b => heffect.find?_protected hwrites⟩
    · rw [hok, Clerk.mirrors_ok] at hmirrors
      rw [FrameCall.after, hok]
      exact ⟨rfl, hmirrors⟩
    · rw [herror, Clerk.mirrors_error] at hmirrors
      rw [FrameCall.after, herror]
      exact ⟨rfl, hmirrors⟩

/-- Calls on a frame and on two below it: one of them hides a protected name of the outer frame and writes another
one there, and a second definition is refused. -/
def shadowing : List FrameCall :=
  [.create none, .register 0 (text "pi") (.native 0) true, .define 0 (text "x") .none, .create (some 0),
    .create (some 0), .define 1 (text "pi") (.bool true), .mutate 1 (text "x") (.bool true),
    .define 0 (text "x") .none]

/-- The name of the outer frame is written for both frames below it. The protected one stays hidden from one of them
and protected from the other. -/
theorem frames_are_maps_shadowed : ∃ s, Built shadowing s ∧ (s.frame 0).names = [text "pi", text "x"] ∧
    s.get 1 (text "pi") = .ok (.bool true) ∧ s.get 2 (text "x") = .ok (.bool true) ∧
    (FrameCall.mutate 2 (text "pi") .none).perform s = .error (.inl (.isProtected (text "pi"))) ∧
    (FrameCall.mutate 2 (text "pi") .none).after s = s := by
  have h : Built shadowing _ := Built.start (s := {}) rfl
    |>.call (c := .create none) nofun
    |>.call (c := .register 0 (text "pi") (.native 0) true) (by decide : 0 < 1)
    |>.call (c := .define 0 (text "x") .none) (by decide : 0 < 1)
    |>.call (c := .create (some 0)) (by rintro _ ⟨⟩; decide +kernel)
    |>.call (c := .create (some 0)) (by rintro _ ⟨⟩; decide +kernel)
    |>.call (c := .define 1 (text "pi") (.bool true)) (by decide : 1 < 3)
    |>.call (c := .mutate 1 (text "x") (.bool true)) (by decide : 1 < 3)
    |>.call (c := .define 0 (text "x") .none) (by decide : 0 < 3)
  obtain ⟨hmaps, -, hget, -, hcalls⟩ := h.frames_are_maps
  refine ⟨_, h, (hmaps 0).2.2.trans (by decide +kernel), ?_, ?_, rfl, ?_⟩
  · obtain ⟨b, hb, hv⟩ := (hget 1 (text "pi")).1 1 ((nearest_here (by decide +kernel)).2 rfl)
    obtain rfl : { name := text "pi", value := .bool true } = b := Option.some.inj hb
    exact hv
  · obtain ⟨b, hb, hv⟩ := (hget 2 (text "x")).1 0
      ((nearest_up (by decide +kernel)).2 ⟨0, rfl, (nearest_here (by decide +kernel)).2 rfl⟩)
    obtain rfl : { name := text "x", value := .bool true } = b := Option.some.inj hb
    exact hv
  · exact ((hcalls (.mutate 2 (text "pi") .none) (by decide : 2 < 3)).2.2.1 _ rfl).1

end Built

end Store

end Treewalk
