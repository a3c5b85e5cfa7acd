import Mathlib.Data.Finset.Prod
import Mathlib.Data.List.Forall2
import Mathlib.Order.Bounds.Basic
import Treewalk.Proofs.Numeral.Whole
import Treewalk.Store.Equal

/-!
# Equal values are bisimilar values

**What equality is** (`Store.Matches`, `Store.IsBisimulation`). Two values match along a relation `R` if
they are of one type and equal as far as one look tells; two different arrays must be of one length, and
`R` must relate their elements pairwise. A bisimulation is a relation whose pairs all match along it.

**Main theorem** (`Store.equal_bisimilarity`). The comparison ends, and it says yes exactly for the pairs
of the greatest bisimulation. So it is symmetric and transitive, and only numbers that are no number at
all differ from themselves.

The comparison never takes back a pair of arrays it has met, although it does not know yet whether they
are equal. This is sound because a difference ends everything: when nothing is due any more, every pair
met has had its elements compared, and these matched or were met as well. The pairs met are then a
bisimulation. Conversely, pairs of a bisimulation only ever lead to pairs of it, so no difference is
found from them. The comparison ends because a round that leaves something to do has met a new pair of
arrays with elements, and there are only finitely many.

For the same reasons the order of the looks makes no difference: a comparison that goes depth first and keeps one
set of the pairs met (`Store.equalInPlace`) gives the same answer (`Store.equalInPlace_eq`).
-/

namespace Treewalk.Store

variable {s : Store} {R : Value → Value → Prop}

/-! ## Bisimulations -/

/-- The values are of one type and equal as far as one look tells; elements of arrays are related
by `R`. -/
inductive Matches (s : Store) (R : Value → Value → Prop) : Value → Value → Prop
  | none : Matches s R .none .none
  | unset : Matches s R .unset .unset
  | number {x y : Float} (h : (x == y) = true) : Matches s R (.number x) (.number y)
  | string (x : ByteArray) : Matches s R (.string x) (.string x)
  | bool (x : Bool) : Matches s R (.bool x) (.bool x)
  | function (x : FunctionId) : Matches s R (.function x) (.function x)
  | classRef (x : ClassId) : Matches s R (.classRef x) (.classRef x)
  | native (x : NativeId) : Matches s R (.native x) (.native x)
  | object (x : InstanceId) : Matches s R (.object x) (.object x)
  | host (x : HostId) : Matches s R (.host x) (.host x)
  /-- Both lack their object. -/
  | hollow (x : Hollow) : Matches s R (.hollow x) (.hollow x)
  | sameArray (a : ArrayId) : Matches s R (.array a) (.array a)
  | elements {a b : ArrayId} (h : List.Forall₂ R (s.elements a).toList (s.elements b).toList) :
      Matches s R (.array a) (.array b)

/-- Every related pair matches along the relation. -/
def IsBisimulation (s : Store) (R : Value → Value → Prop) : Prop := ∀ v w, R v w → s.Matches R v w

theorem Matches.mono {S : Value → Value → Prop} (h : ∀ v w, R v w → S v w) {v w : Value}
    (hm : s.Matches R v w) : s.Matches S v w := by
  cases hm with
  | number hxy => exact .number hxy
  | elements hab => exact .elements (hab.imp h)
  | _ => constructor

/-! ## One look -/

theorem ofBool_eq_same {b : Bool} : Verdict.ofBool b = .same ↔ b = true := by
  cases b <;> simp [Verdict.ofBool]

theorem ofBool_ne_elements (b : Bool) (x y : ArrayId) : Verdict.ofBool b ≠ .elements x y := by
  cases b <;> simp [Verdict.ofBool]

theorem glance_array_self (s : Store) (a : ArrayId) : s.glance (.array a) (.array a) = .same := by
  simp [glance]

/-- A look leaves only pairs of arrays open, and these are of one length. -/
theorem glance_elements {v w : Value} {a b : ArrayId} (h : s.glance v w = .elements a b) :
    v = .array a ∧ w = .array b ∧ a ≠ b ∧ (s.elements a).size = (s.elements b).size := by
  cases v <;> cases w <;> simp [glance, ofBool_ne_elements] at h
  case array x y =>
    split_ifs at h with hxy hsize
    cases h
    exact ⟨rfl, rfl, hxy, hsize⟩

/-- Values that look the same match along every relation. -/
theorem matches_of_same {v w : Value} (h : s.glance v w = .same) : s.Matches R v w := by
  cases v <;> cases w <;> simp only [glance, ofBool_eq_same, beq_iff_eq, decide_eq_true_eq,
    reduceCtorEq] at h
  case none => exact .none
  case unset => exact .unset
  case number x y => exact .number h
  case array x y =>
    split_ifs at h with hxy
    subst hxy
    exact .sameArray x
  all_goals
    subst h
    constructor

/-- Values that match look the same or leave their elements open, and those are related. -/
theorem glance_of_matches {v w : Value} (h : s.Matches R v w) :
    s.glance v w = .same ∨
      ∃ a b, s.glance v w = .elements a b ∧
        List.Forall₂ R (s.elements a).toList (s.elements b).toList := by
  cases h with
  | @elements a b hab =>
    have hsize : (s.elements a).size = (s.elements b).size := by simpa using hab.length_eq
    by_cases hne : a = b
    · subst hne
      exact .inl (glance_array_self s a)
    · exact .inr ⟨a, b, by simp [glance, hne, hsize], hab⟩
  | _ => left; simp_all [glance, Verdict.ofBool]

/-! ## One round -/

/-- The values look the same, or they are arrays that have been met. -/
def Agree (s : Store) (met : List (ArrayId × ArrayId)) (v w : Value) : Prop :=
  s.glance v w = .same ∨ ∃ a b, s.glance v w = .elements a b ∧ (a, b) ∈ met

theorem Agree.mono {met met' : List (ArrayId × ArrayId)} (h : met ⊆ met') {v w : Value}
    (ha : s.Agree met v w) : s.Agree met' v w := by
  rcases ha with ha | ⟨a, b, ha, hab⟩
  · exact .inl ha
  · exact .inr ⟨a, b, ha, h hab⟩

/-- The elements of two arrays, side by side. -/
def sideBySide (s : Store) (p : ArrayId × ArrayId) : List (Value × Value) :=
  (s.elements p.1).toList.zip (s.elements p.2).toList

/-- What a round without a difference has done, from what was known before it: it has seen all its
pairs, and the elements of what it newly met are due. -/
structure Follows (s : Store) (r : Round) (pairs : List (Value × Value)) (r' : Round) : Prop where
  met : r.met ⊆ r'.met
  due : r.due ⊆ r'.due
  seen : ∀ p ∈ pairs, s.Agree r'.met p.1 p.2
  new : ∀ p ∈ r'.met, p ∈ r.met ∨
    (s.elements p.1).size = (s.elements p.2).size ∧ s.sideBySide p ⊆ r'.due

theorem glanceAll_follows {pairs : List (Value × Value)} {r r' : Round}
    (h : s.glanceAll r pairs = some r') : s.Follows r pairs r' := by
  fun_induction glanceAll s r pairs with
  | case1 r =>
    cases h
    exact ⟨List.Subset.refl _, List.Subset.refl _, by simp, fun _ hp => .inl hp⟩
  | case2 r v w rest hlook ih =>
    obtain ⟨hmet, hdue, hseen, hnew⟩ := ih h
    exact ⟨hmet, hdue, List.forall_mem_cons.2 ⟨.inl hlook, hseen⟩, hnew⟩
  | case3 => cases h
  | case4 r v w rest a b hlook hmem ih =>
    obtain ⟨hmet, hdue, hseen, hnew⟩ := ih h
    have hab : (a, b) ∈ r'.met := hmet (by simpa using hmem)
    exact ⟨hmet, hdue, List.forall_mem_cons.2 ⟨.inr ⟨a, b, hlook, hab⟩, hseen⟩, hnew⟩
  | case5 r v w rest a b hlook _ ih =>
    obtain ⟨hmet, hdue, hseen, hnew⟩ := ih h
    obtain ⟨hab, hmet⟩ := List.cons_subset.1 hmet
    obtain ⟨helems, hdue⟩ := List.append_subset.1 hdue
    refine ⟨hmet, hdue, List.forall_mem_cons.2 ⟨.inr ⟨a, b, hlook, hab⟩, hseen⟩, fun p hp => ?_⟩
    rcases hnew p hp with hp | hp
    · rcases List.mem_cons.1 hp with rfl | hp
      · exact .inr ⟨(glance_elements hlook).2.2.2, helems⟩
      · exact .inl hp
    · exact .inr hp

theorem forall₂_iff_sideBySide {a b : ArrayId}
    (hsize : (s.elements a).size = (s.elements b).size) :
    List.Forall₂ R (s.elements a).toList (s.elements b).toList ↔
      ∀ p ∈ s.sideBySide (a, b), R p.1 p.2 := by
  rw [List.forall₂_iff_zip]
  simp [sideBySide, hsize]

/-- Pairs of a bisimulation show no difference and lead only to pairs of it. -/
theorem glanceAll_of_bisimulation (hR : s.IsBisimulation R) {pairs : List (Value × Value)} {r : Round}
    (hpairs : ∀ p ∈ pairs, R p.1 p.2) (hdue : ∀ p ∈ r.due, R p.1 p.2) :
    ∃ r', s.glanceAll r pairs = some r' ∧ ∀ p ∈ r'.due, R p.1 p.2 := by
  fun_induction glanceAll s r pairs with
  | case1 r => exact ⟨r, rfl, hdue⟩
  | case2 r v w rest _ ih => exact ih (fun p hp => hpairs p (.tail _ hp)) hdue
  | case3 r v w rest hlook =>
    have hm := glance_of_matches (hR v w (hpairs _ (.head _)))
    simp [hlook] at hm
  | case4 r v w rest a b _ _ ih => exact ih (fun p hp => hpairs p (.tail _ hp)) hdue
  | case5 r v w rest a b hlook _ ih =>
    have helems : List.Forall₂ R (s.elements a).toList (s.elements b).toList := by
      have hm := glance_of_matches (hR v w (hpairs _ (.head _)))
      simpa [hlook] using hm
    refine ih (fun p hp => hpairs p (.tail _ hp)) fun p hp => ?_
    rcases List.mem_append.1 hp with hp | hp
    · exact (forall₂_iff_sideBySide (glance_elements hlook).2.2.2).1 helems p hp
    · exact hdue p hp

/-! ## All rounds -/

/-- The comparison ends with an answer: a round finds a difference, or at last nothing is due. -/
inductive Settles (s : Store) : List (ArrayId × ArrayId) → List (Value × Value) → Bool → Prop
  | done (met : List (ArrayId × ArrayId)) : Settles s met [] true
  | differ {met : List (ArrayId × ArrayId)} {due : List (Value × Value)}
      (h : s.glanceAll ⟨met, []⟩ due = Option.none) : Settles s met due false
  | round {met : List (ArrayId × ArrayId)} {due : List (Value × Value)} {r : Round} {answer : Bool}
      (h : s.glanceAll ⟨met, []⟩ due = some r) (rest : Settles s r.met r.due answer) :
      Settles s met due answer

/-- The pairs of arrays of the store that have not been met. -/
def unmet (s : Store) (met : List (ArrayId × ArrayId)) : Finset (ArrayId × ArrayId) :=
  (Finset.range s.arrays.size ×ˢ Finset.range s.arrays.size) \ met.toFinset

theorem unmet_cons_subset (s : Store) (p : ArrayId × ArrayId) (met : List (ArrayId × ArrayId)) :
    s.unmet (p :: met) ⊆ s.unmet met := by
  intro q hq
  simp only [unmet, Finset.mem_sdiff, List.mem_toFinset, List.mem_cons, not_or] at hq ⊢
  exact ⟨hq.1, hq.2.2⟩

/-- An array with elements is one of the store. -/
theorem lt_size_of_mem_elements {a : ArrayId} {v : Value} (h : v ∈ (s.elements a).toList) :
    a < s.arrays.size := by
  by_contra hlt
  simp [elements, Array.getElem?_eq_none (Nat.le_of_not_lt hlt)] at h

/-- Meeting a new pair of arrays with elements leaves fewer to meet. -/
theorem unmet_cons_card_lt {a b : ArrayId} {met : List (ArrayId × ArrayId)} (hnew : (a, b) ∉ met)
    (helems : s.sideBySide (a, b) ≠ []) : (s.unmet ((a, b) :: met)).card < (s.unmet met).card := by
  obtain ⟨⟨v, w⟩, hvw⟩ := List.exists_mem_of_ne_nil _ helems
  have hmem := List.of_mem_zip hvw
  apply Finset.card_lt_card
  refine ⟨unmet_cons_subset s (a, b) met, fun hsub => ?_⟩
  have hab : (a, b) ∈ s.unmet met := by
    simp [unmet, lt_size_of_mem_elements hmem.1, lt_size_of_mem_elements hmem.2, hnew]
  simpa [unmet] using hsub hab

/-- A round that makes anything due has met a new pair. -/
theorem glanceAll_unmet {pairs : List (Value × Value)} {r r' : Round}
    (h : s.glanceAll r pairs = some r') :
    (s.unmet r'.met).card ≤ (s.unmet r.met).card ∧
      (r'.due = r.due ∨ (s.unmet r'.met).card < (s.unmet r.met).card) := by
  fun_induction glanceAll s r pairs with
  | case1 r =>
    cases h
    exact ⟨Nat.le_refl _, .inl rfl⟩
  | case2 r v w rest _ ih => exact ih h
  | case3 => cases h
  | case4 r v w rest a b _ _ ih => exact ih h
  | case5 r v w rest a b _ hmem ih =>
    obtain ⟨hle, hdue⟩ := ih h
    have hcons := Finset.card_le_card (unmet_cons_subset s (a, b) r.met)
    refine ⟨hle.trans hcons, ?_⟩
    by_cases helems : s.sideBySide (a, b) = []
    · rcases hdue with hdue | hlt
      · left
        simpa [sideBySide] using hdue.trans (congrArg (· ++ r.due) helems)
      · exact .inr (hlt.trans_le hcons)
    · exact .inr (hle.trans_lt (unmet_cons_card_lt (by simpa using hmem) helems))

/-- With more fuel than there are pairs left to meet, the comparison ends by itself. -/
theorem settle_settles (s : Store) (fuel : Nat) (met : List (ArrayId × ArrayId))
    (due : List (Value × Value)) (hfuel : due = [] ∨ (s.unmet met).card < fuel) :
    s.Settles met due (s.settle fuel met due) := by
  induction fuel generalizing met due with
  | zero =>
    obtain rfl : due = [] := by simpa using hfuel
    exact .done met
  | succ fuel ih =>
    rcases due with _ | ⟨p, due⟩
    · exact .done met
    · have hcard : (s.unmet met).card < fuel + 1 := by simpa using hfuel
      simp only [settle]
      cases hround : s.glanceAll ⟨met, []⟩ (p :: due) with
      | none => exact .differ hround
      | some r =>
        refine .round hround (ih r.met r.due ?_)
        rcases (glanceAll_unmet hround).2 with hdue | hlt
        · exact .inl hdue
        · exact .inr (by simp only at hlt; omega)

theorem unmet_nil_card (s : Store) : (s.unmet []).card = s.arrays.size * s.arrays.size := by
  simp [unmet]

/-- The fuel of a comparison never gives out. -/
theorem equal_settles (s : Store) (v w : Value) : s.Settles [] [(v, w)] (s.equal v w) := by
  apply settle_settles
  rw [unmet_nil_card]
  right
  omega

/-- When nothing differs, all pairs ever met have elements that agree. -/
theorem Settles.closed {met : List (ArrayId × ArrayId)} {due : List (Value × Value)} {answer : Bool}
    (h : s.Settles met due answer) (hyes : answer = true) :
    ∃ all, met ⊆ all ∧ (∀ p ∈ due, s.Agree all p.1 p.2) ∧
      ∀ q ∈ all, q ∈ met ∨ (s.elements q.1).size = (s.elements q.2).size ∧
        ∀ p ∈ s.sideBySide q, s.Agree all p.1 p.2 := by
  induction h with
  | done met => exact ⟨met, List.Subset.refl _, by simp, fun _ hq => .inl hq⟩
  | differ => cases hyes
  | round hround _ ih =>
    obtain ⟨all, hsub, hdue, hclosed⟩ := ih hyes
    obtain ⟨hmet, -, hseen, hnew⟩ := glanceAll_follows hround
    refine ⟨all, List.Subset.trans hmet hsub, fun p hp => (hseen p hp).mono hsub, fun q hq => ?_⟩
    -- a pair met in this round has its elements due, and these agree by the rounds that follow
    rcases hclosed q hq with hq | hq
    · rcases hnew q hq with hq | ⟨hsize, helems⟩
      · exact .inl hq
      · exact .inr ⟨hsize, fun p hp => hdue p (helems hp)⟩
    · exact .inr hq

/-- Arrays met whose elements agree make a bisimulation. -/
theorem agree_isBisimulation {all : List (ArrayId × ArrayId)}
    (hclosed : ∀ q ∈ all, (s.elements q.1).size = (s.elements q.2).size ∧
      ∀ p ∈ s.sideBySide q, s.Agree all p.1 p.2) : s.IsBisimulation (s.Agree all) := by
  rintro v w (hvw | ⟨a, b, hvw, hab⟩)
  · exact matches_of_same hvw
  · obtain ⟨rfl, rfl, -, hsize⟩ := glance_elements hvw
    exact .elements ((forall₂_iff_sideBySide hsize).2 (hclosed (a, b) hab).2)

/-- Equal values are related by a bisimulation. -/
theorem exists_bisimulation {v w : Value} (h : s.equal v w = true) :
    ∃ R, s.IsBisimulation R ∧ R v w := by
  obtain ⟨all, -, hdue, hclosed⟩ := (equal_settles s v w).closed h
  refine ⟨s.Agree all, agree_isBisimulation fun q hq => ?_, hdue (v, w) (.head _)⟩
  exact (hclosed q hq).resolve_left List.not_mem_nil

/-- A comparison of related values finds no difference. -/
theorem Settles.eq_true (hR : s.IsBisimulation R) {met : List (ArrayId × ArrayId)}
    {due : List (Value × Value)} {answer : Bool} (h : s.Settles met due answer)
    (hdue : ∀ p ∈ due, R p.1 p.2) : answer = true := by
  induction h with
  | done => rfl
  | differ hround =>
    obtain ⟨r, hr, -⟩ := glanceAll_of_bisimulation hR hdue (r := ⟨_, []⟩) (by simp)
    rw [hround] at hr
    cases hr
  | round hround _ ih =>
    obtain ⟨r, hr, hrest⟩ := glanceAll_of_bisimulation hR hdue (r := ⟨_, []⟩) (by simp)
    obtain rfl := Option.some.inj (hround.symm.trans hr)
    exact ih hrest

theorem equal_of_bisimulation (hR : s.IsBisimulation R) {v w : Value} (h : R v w) :
    s.equal v w = true :=
  (equal_settles s v w).eq_true hR (by simpa using h)

theorem equal_isBisimulation (s : Store) : s.IsBisimulation fun v w => s.equal v w = true := by
  intro v w h
  obtain ⟨R, hR, hvw⟩ := exists_bisimulation h
  exact (hR v w hvw).mono fun _ _ hr => equal_of_bisimulation hR hr

/-! ## The comparison in place -/

/-- Compares two values depth first. One set of the pairs of arrays met is kept for the whole comparison; a pair
that is met again is taken for equal, and the first difference ends everything. -/
def equalInPlace (s : Store) : (fuel : Nat) → Value → Value → StateM (List (ArrayId × ArrayId)) Bool
  | 0, _, _ => return false
  | fuel + 1, v, w =>
    match s.glance v w with
    | .same => return true
    | .different => return false
    | .elements a b => do
      let met ← getThe (List (ArrayId × ArrayId))
      if met.contains (a, b) then return true
      modify ((a, b) :: ·)
      (s.sideBySide (a, b)).allM fun p => s.equalInPlace fuel p.1 p.2

/-- Compares pairs in order up to the first difference. -/
def equalAllInPlace (s : Store) (fuel : Nat) (pairs : List (Value × Value)) :
    StateM (List (ArrayId × ArrayId)) Bool := pairs.allM fun p => s.equalInPlace fuel p.1 p.2

theorem run_equalInPlace (s : Store) (fuel : Nat) (v w : Value) (met : List (ArrayId × ArrayId)) :
    (s.equalInPlace (fuel + 1) v w).run met =
      match s.glance v w with
      | .same => (true, met)
      | .different => (false, met)
      | .elements a b =>
        if met.contains (a, b) then (true, met)
        else (s.equalAllInPlace fuel (s.sideBySide (a, b))).run ((a, b) :: met) := by
  rw [equalInPlace]
  cases s.glance v w with
  | same => rfl
  | different => rfl
  | elements a b =>
    show StateT.run (if met.contains (a, b) then pure true else
      modify ((a, b) :: ·) >>= fun _ => s.equalAllInPlace fuel (s.sideBySide (a, b))) met = _
    dsimp only
    split <;> rfl

theorem run_equalAllInPlace_cons (s : Store) (fuel : Nat) (p : Value × Value) (rest : List (Value × Value))
    (met : List (ArrayId × ArrayId)) :
    (s.equalAllInPlace fuel (p :: rest)).run met =
      match (s.equalInPlace fuel p.1 p.2).run met with
      | (true, met) => (s.equalAllInPlace fuel rest).run met
      | (false, met) => (false, met) := by
  rw [equalAllInPlace, List.allM, StateT.run_bind]
  cases (s.equalInPlace fuel p.1 p.2).run met with
  | mk answer met => cases answer <;> rfl

/-- What a comparison that says yes has done with the pairs met before: its own values agree, and the elements of
what it newly met agree. -/
structure Accepts (s : Store) (met : List (ArrayId × ArrayId)) (pairs : List (Value × Value))
    (met' : List (ArrayId × ArrayId)) : Prop where
  grows : met ⊆ met'
  seen : ∀ p ∈ pairs, s.Agree met' p.1 p.2
  new : ∀ q ∈ met', q ∈ met ∨ (s.elements q.1).size = (s.elements q.2).size ∧
    ∀ p ∈ s.sideBySide q, s.Agree met' p.1 p.2

theorem Accepts.cons {met met' met'' : List (ArrayId × ArrayId)} {p : Value × Value}
    {pairs : List (Value × Value)} (h : s.Accepts met [p] met') (h' : s.Accepts met' pairs met'') :
    s.Accepts met (p :: pairs) met'' where
  grows := List.Subset.trans h.grows h'.grows
  seen := List.forall_mem_cons.2 ⟨(h.seen p (.head _)).mono h'.grows, h'.seen⟩
  new q hq := by
    rcases h'.new q hq with hq | hq
    · exact (h.new q hq).imp_right fun ⟨hsize, helems⟩ => ⟨hsize, fun p hp => (helems p hp).mono h'.grows⟩
    · exact .inr hq

/-- A yes to the elements of two arrays is one to the arrays. -/
theorem Accepts.arrays {met met' : List (ArrayId × ArrayId)} {v w : Value} {a b : ArrayId}
    (hlook : s.glance v w = .elements a b) (h : s.Accepts ((a, b) :: met) (s.sideBySide (a, b)) met') :
    s.Accepts met [(v, w)] met' := by
  obtain ⟨hab, hmet⟩ := List.cons_subset.1 h.grows
  refine ⟨hmet, List.forall_mem_singleton.2 (.inr ⟨a, b, hlook, hab⟩), fun q hq => ?_⟩
  rcases h.new q hq with hq | hq
  · rcases List.mem_cons.1 hq with rfl | hq
    · exact .inr ⟨(glance_elements hlook).2.2.2, h.seen⟩
    · exact .inl hq
  · exact .inr hq

/-- A comparison that says yes has compared everything that it met. -/
theorem equalInPlace_accepts (fuel : Nat) : ∀ {met met' : List (ArrayId × ArrayId)} {v w : Value},
    (s.equalInPlace fuel v w).run met = (true, met') → s.Accepts met [(v, w)] met' := by
  induction fuel with
  | zero =>
    intro met met' v w h
    cases h
  | succ fuel ih =>
    have hall : ∀ (pairs : List (Value × Value)) {met met' : List (ArrayId × ArrayId)},
        (s.equalAllInPlace fuel pairs).run met = (true, met') → s.Accepts met pairs met' := by
      intro pairs
      induction pairs with
      | nil =>
        intro met met' h
        cases h
        exact ⟨List.Subset.refl _, nofun, fun _ hq => .inl hq⟩
      | cons p rest ihrest =>
        intro met met' h
        rw [run_equalAllInPlace_cons] at h
        cases hfirst : (s.equalInPlace fuel p.1 p.2).run met with
        | mk answer met₁ =>
          rw [hfirst] at h
          cases answer with
          | false => cases h
          | true => exact (ih hfirst).cons (ihrest h)
    intro met met' v w h
    rw [run_equalInPlace] at h
    cases hlook : s.glance v w with
    | same =>
      rw [hlook] at h
      cases h
      exact ⟨List.Subset.refl _, List.forall_mem_singleton.2 (.inl hlook), fun _ hq => .inl hq⟩
    | different =>
      rw [hlook] at h
      cases h
    | elements a b =>
      rw [hlook] at h
      dsimp only at h
      split at h
      · rename_i hmet
        cases h
        exact ⟨List.Subset.refl _, List.forall_mem_singleton.2 (.inr ⟨a, b, hlook, by simpa using hmet⟩),
          fun _ hq => .inl hq⟩
      · exact (hall _ h).arrays hlook

theorem unmet_mono {met met' : List (ArrayId × ArrayId)} (h : met ⊆ met') : s.unmet met' ⊆ s.unmet met := by
  intro q hq
  simp only [unmet, Finset.mem_sdiff, List.mem_toFinset] at hq ⊢
  exact ⟨hq.1, fun hmem => hq.2 (h hmem)⟩

/-- A comparison of values of a bisimulation says yes, if the fuel is for all pairs that it may still meet. -/
theorem equalInPlace_of_bisimulation (hR : s.IsBisimulation R) (fuel : Nat) :
    ∀ {met : List (ArrayId × ArrayId)} {v w : Value}, R v w → (s.unmet met).card < fuel →
      ∃ met', (s.equalInPlace fuel v w).run met = (true, met') ∧ met ⊆ met' := by
  induction fuel with
  | zero => exact fun _ h => absurd h (Nat.not_lt_zero _)
  | succ fuel ih =>
    have hall : ∀ (pairs : List (Value × Value)) (met : List (ArrayId × ArrayId)), (∀ p ∈ pairs, R p.1 p.2) →
        (pairs ≠ [] → (s.unmet met).card < fuel) →
        ∃ met', (s.equalAllInPlace fuel pairs).run met = (true, met') ∧ met ⊆ met' := by
      intro pairs
      induction pairs with
      | nil => exact fun _ _ _ => ⟨_, rfl, List.Subset.refl _⟩
      | cons p rest ihrest =>
        intro met hpairs hfuel
        obtain ⟨hp, hrest⟩ := List.forall_mem_cons.1 hpairs
        obtain ⟨met₁, hfirst, hgrows⟩ := ih hp (hfuel (List.cons_ne_nil _ _))
        have hleft : (s.unmet met₁).card < fuel :=
          (Finset.card_le_card (unmet_mono hgrows)).trans_lt (hfuel (List.cons_ne_nil _ _))
        obtain ⟨met', hlast, hgrows'⟩ := ihrest met₁ hrest fun _ => hleft
        refine ⟨met', ?_, List.Subset.trans hgrows hgrows'⟩
        rw [run_equalAllInPlace_cons, hfirst]
        exact hlast
    intro met v w hvw hfuel
    rw [run_equalInPlace]
    rcases glance_of_matches (hR v w hvw) with hlook | ⟨a, b, hlook, helems⟩
    · rw [hlook]
      exact ⟨met, rfl, List.Subset.refl _⟩
    · rw [hlook]
      dsimp only
      split
      · exact ⟨met, rfl, List.Subset.refl _⟩
      · rename_i hnew
        have hpairs := (forall₂_iff_sideBySide (glance_elements hlook).2.2.2).1 helems
        obtain ⟨met', hrun, hgrows⟩ := hall (s.sideBySide (a, b)) ((a, b) :: met) hpairs fun hne => by
          have hlt := unmet_cons_card_lt (by simpa using hnew) hne
          omega
        exact ⟨met', hrun, (List.cons_subset.1 hgrows).2⟩

/-- The comparison in place gives the same answer. -/
theorem equalInPlace_eq (s : Store) {fuel : Nat} (hfuel : s.arrays.size * s.arrays.size < fuel) (v w : Value) :
    ((s.equalInPlace fuel v w).run []).1 = s.equal v w := by
  rw [← unmet_nil_card] at hfuel
  rw [Bool.eq_iff_iff]
  constructor
  · intro h
    obtain ⟨-, hseen, hclosed⟩ := equalInPlace_accepts fuel (Prod.ext h rfl)
    refine equal_of_bisimulation (agree_isBisimulation fun q hq => ?_) (hseen (v, w) (.head _))
    exact (hclosed q hq).resolve_left List.not_mem_nil
  · intro h
    obtain ⟨met', hrun, -⟩ := equalInPlace_of_bisimulation (equal_isBisimulation s) fuel h hfuel
    rw [hrun]

/-! ## Laws of equality -/

theorem equal_symm {v w : Value} (h : s.equal v w = true) : s.equal w v = true := by
  apply equal_of_bisimulation (R := fun v w => s.equal w v = true) ?_ h
  intro v w h
  cases equal_isBisimulation s _ _ h with
  | number hxy => exact .number (Whole.beq_symm hxy)
  | elements hab => exact .elements hab.flip
  | _ => constructor

/-- Elements related through a third array, one by one. -/
theorem forall₂_comp {S T : Value → Value → Prop} (hcomp : ∀ u v w, R u v → S v w → T u w) :
    ∀ {us vs ws : List Value}, List.Forall₂ R us vs → List.Forall₂ S vs ws → List.Forall₂ T us ws
  | _, _, _, .nil, .nil => .nil
  | _, _, _, .cons huv hrest, .cons hvw hrest' =>
    .cons (hcomp _ _ _ huv hvw) (forall₂_comp hcomp hrest hrest')

theorem equal_trans {u v w : Value} (huv : s.equal u v = true) (hvw : s.equal v w = true) :
    s.equal u w = true := by
  -- an array is the same as itself without a look at its elements, so one step may relate no elements
  let R := fun u w => s.equal u w = true ∨ ∃ v, s.equal u v = true ∧ s.equal v w = true
  apply equal_of_bisimulation (R := R) ?_ (.inr ⟨v, huv, hvw⟩)
  rintro u w (h | ⟨v, huv, hvw⟩)
  · exact (equal_isBisimulation s u w h).mono fun _ _ h => .inl h
  · cases equal_isBisimulation s u v huv with
    | number hxy =>
      cases equal_isBisimulation s _ _ hvw with
      | number hyz => exact .number (Whole.beq_trans hxy hyz)
    | elements hab =>
      cases equal_isBisimulation s _ _ hvw with
      | sameArray => exact .elements (hab.imp fun _ _ h => .inl h)
      | elements hbc => exact .elements (forall₂_comp (fun _ v _ h h' => .inr ⟨v, h, h'⟩) hab hbc)
    | _ => exact (equal_isBisimulation s _ _ hvw).mono fun _ _ h => .inl h

theorem equal_self_iff (s : Store) (v : Value) :
    s.equal v v = true ↔ ∀ x, v = .number x → x.isNaN = false := by
  constructor
  · rintro h x rfl
    cases equal_isBisimulation s _ _ h with
    | number hxx => exact Whole.beq_self_iff.1 hxx
  · intro h
    apply equal_of_bisimulation
      (R := fun v w => v = w ∧ ∀ x, v = .number x → x.isNaN = false) ?_ ⟨rfl, h⟩
    rintro v _ ⟨rfl, h⟩
    cases v with
    | number x => exact .number (Whole.beq_self_iff.2 (h x rfl))
    | array a => exact .sameArray a
    | _ => constructor

/-- The comparison of two values always ends, and equality is the greatest bisimulation of the store.
Hence it is symmetric and transitive, and a value equals itself unless it is no number at all. Depth first, with
one set of pairs for the whole comparison, the answer is the same. -/
theorem equal_bisimilarity (s : Store) :
    (∀ v w, s.Settles [] [(v, w)] (s.equal v w)) ∧
    IsGreatest {R | s.IsBisimulation R} (fun v w => s.equal v w = true) ∧
    (∀ v w, s.equal v w = true → s.equal w v = true) ∧
    (∀ u v w, s.equal u v = true → s.equal v w = true → s.equal u w = true) ∧
    (∀ v, s.equal v v = true ↔ ∀ x, v = .number x → x.isNaN = false) ∧
    ∀ fuel, s.arrays.size * s.arrays.size < fuel →
      ∀ v w, ((s.equalInPlace fuel v w).run []).1 = s.equal v w := by
  refine ⟨equal_settles s, ⟨equal_isBisimulation s, ?_⟩, fun _ _ => equal_symm,
    fun _ _ _ => equal_trans, equal_self_iff s, fun _ => equalInPlace_eq s⟩
  intro R hR v w h
  exact equal_of_bisimulation hR h

-- two arrays, each the only element of the other, and an array that holds itself
example :
    let s : Store := { arrays := #[#[.array 1], #[.array 0], #[.array 2]] }
    s.equal (.array 0) (.array 1) = true ∧ s.equal (.array 0) (.array 2) = true := by decide

end Treewalk.Store
