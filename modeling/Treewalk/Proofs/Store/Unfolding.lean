import Treewalk.Proofs.Store.Bisimilar
import Treewalk.Store.Display

/-!
# Arrays are shown by unfolding them

**What is shown** (`Store.Unfolds`). An array is shown by its elements. An element that is no array has a
text of its own; an array is unfolded in turn, unless it is one of the arrays around it, the one that is
shown included: then it is cut short. What is shared is unfolded wherever it stands. Rules with finitely many
uses give each text, so that there is one at all says that the unfolding ends.

**Main theorem** (`Store.display?_unfolds`). The text that printing gives for an array is the one that the
rules give. There is one unless an instance is missing in it. If no array holds itself, nothing is cut, and
the text is that of the plain unfolding (`Store.UnfoldsPlainly`).

The bound on the nesting is never met: the arrays around an element differ from each other and all have
elements, so there are at most as many of them as there are arrays in the store.
-/

namespace Treewalk.Store

/-! ## Unfolding -/

/-- The text of an array, given the texts of its elements. -/
def bracketed (s : Store) (a : ArrayId) (shown : Value → Bytes) : Bytes :=
  text "[" ++ Bytes.join (text ", ") ((s.elements a).toList.map shown) ++ text "]"

/-- The text of a value inside the arrays `path`, innermost first. -/
inductive Unfolds (s : Store) : (path : List ArrayId) → Value → Bytes → Prop
  | flat {path v t} (hv : v.isArray = false) (ht : s.repr? v = .ok t) : Unfolds s path v t
  | cut {path a} (ha : a ∈ path) : Unfolds s path (.array a) (text "[...]")
  | full {path a shown} (ha : a ∉ path) (h : ∀ v ∈ s.elements a, Unfolds s (a :: path) v (shown v)) :
    Unfolds s path (.array a) (s.bracketed a shown)

/-- The text of a value if nothing is cut. -/
inductive UnfoldsPlainly (s : Store) : Value → Bytes → Prop
  | flat {v t} (hv : v.isArray = false) (ht : s.repr? v = .ok t) : UnfoldsPlainly s v t
  | full {a shown} (h : ∀ v ∈ s.elements a, UnfoldsPlainly s v (shown v)) :
    UnfoldsPlainly s (.array a) (s.bracketed a shown)

/-- An array is an element of another one. -/
def Holds (s : Store) (a b : ArrayId) : Prop := .array b ∈ s.elements a

/-- From an array one gets to no array that holds itself, be it through others. -/
def Acyclic (s : Store) (a : ArrayId) : Prop :=
  ∀ b, Relation.ReflTransGen s.Holds a b → ¬ Relation.TransGen s.Holds b b

variable {s : Store} {path : List ArrayId} {v : Value} {t t' : Bytes} {a b : ArrayId}

theorem bracketed_congr {shown shown' : Value → Bytes} (h : ∀ v ∈ s.elements a, shown v = shown' v) :
    s.bracketed a shown = s.bracketed a shown' := by
  unfold bracketed
  rw [List.map_congr_left fun v hv => h v (Array.mem_toList_iff.1 hv)]

/-- The rules give one text only. -/
theorem Unfolds.eq (h : s.Unfolds path v t) (h' : s.Unfolds path v t') : t = t' := by
  induction h generalizing t' with
  | flat hv ht =>
    cases h' with
    | flat _ ht' => exact Except.ok.inj (ht.symm.trans ht')
    | cut | full => cases hv
  | cut ha =>
    cases h' with
    | flat hv => cases hv
    | cut => rfl
    | full ha' => exact absurd ha ha'
  | full ha _ ih =>
    cases h' with
    | flat hv => cases hv
    | cut ha' => exact absurd ha' ha
    | full _ h' => exact bracketed_congr fun v hv => ih v hv (h' v hv)

theorem UnfoldsPlainly.eq (h : s.UnfoldsPlainly v t) (h' : s.UnfoldsPlainly v t') : t = t' := by
  induction h generalizing t' with
  | flat hv ht =>
    cases h' with
    | flat _ ht' => exact Except.ok.inj (ht.symm.trans ht')
    | full => cases hv
  | full _ ih =>
    cases h' with
    | flat hv => cases hv
    | full h' => exact bracketed_congr fun v hv => ih v hv (h' v hv)

/-! ## The text that is computed -/

/-- Only an instance can be missing in a value that is no array. -/
theorem lacksObject_of_not_isArray (h : v.isArray = false) (hv : v ≠ .hollow .object) (fuel : Nat)
    (path : List ArrayId) : s.lacksObject fuel path v = false := by
  cases v with
  | array a => cases h
  | hollow x =>
    cases x with
    | object => exact absurd rfl hv
    | _ => cases fuel <;> rfl
  | _ => cases fuel <;> rfl

/-- Different arrays of the store are at most as many as there are. -/
theorem length_le_size (hnodup : path.Nodup) (hpath : ∀ b ∈ path, b < s.arrays.size) :
    path.length ≤ s.arrays.size := by
  have hsub : path ⊆ List.range s.arrays.size := fun b hb => List.mem_range.2 (hpath b hb)
  simpa using (hnodup.subperm hsub).length_le

/-- What is computed inside a path follows the rules, if the fuel is for all arrays that are not on it.
By induction on the fuel; the path stays without repetitions and in the store. -/
theorem reprIn_unfolds (fuel : Nat) : ∀ (path : List ArrayId) (v : Value), path.Nodup →
    (∀ b ∈ path, b < s.arrays.size) → s.arrays.size + 2 ≤ fuel + path.length →
    s.lacksObject fuel path v = false → s.Unfolds path v (s.reprIn fuel path v) := by
  induction fuel with
  | zero =>
    intro path v hnodup hpath hfuel
    have hlength := length_le_size hnodup hpath
    omega
  | succ fuel ih =>
    intro path v hnodup hpath hfuel hlacks
    cases v with
    | array a =>
      by_cases ha : a ∈ path
      · simp only [reprIn, List.contains_iff_mem, ha, if_true]
        exact .cut ha
      · simp only [lacksObject, List.contains_eq_mem, ha, decide_false, Bool.not_false, Bool.true_and,
          Array.any_eq_false'] at hlacks
        simp only [reprIn, List.contains_iff_mem, ha, if_false]
        refine .full ha fun v hv => ?_
        have hsize := lt_size_of_mem_elements hv.val
        refine ih (a :: path) v (List.nodup_cons.2 ⟨ha, hnodup⟩) ?_ ?_ ?_
        · exact List.forall_mem_cons.2 ⟨hsize, hpath⟩
        · rw [List.length_cons]
          omega
        · exact Bool.eq_false_iff.2 (hlacks v hv)
    | hollow x =>
      cases x with
      | object => cases hlacks
      | _ => exact .flat rfl rfl
    | _ => exact .flat rfl rfl

/-- Nothing is missing in what the rules give a text. -/
theorem Unfolds.lacksObject (h : s.Unfolds path v t) : ∀ fuel, s.lacksObject fuel path v = false := by
  induction h with
  | @flat path v t hv ht =>
    refine fun fuel => lacksObject_of_not_isArray hv ?_ fuel path
    rintro rfl
    cases ht
  | cut ha =>
    intro fuel
    cases fuel with
    | zero => rfl
    | succ fuel => simp [Store.lacksObject, ha]
  | full ha _ ih =>
    intro fuel
    cases fuel with
    | zero => rfl
    | succ fuel =>
      simp only [Store.lacksObject, List.contains_eq_mem, ha, decide_false, Bool.not_false, Bool.true_and]
      exact Array.any_eq_false'.2 fun v hv => Bool.eq_false_iff.1 (ih v hv fuel)

/-- The text of an array is the one that the rules give. -/
theorem display?_eq_ok_iff {shown : ByteArray} :
    s.display? (.array a) = .ok shown ↔ s.Unfolds [] (.array a) (unpack shown) := by
  have hrules : s.isShown (.array a) = true → s.Unfolds [] (.array a) (s.repr (.array a)) := by
    intro hshown
    refine reprIn_unfolds _ [] _ List.nodup_nil nofun (Nat.le_refl _) ?_
    simpa [isShown] using hshown
  constructor
  · intro h
    unfold display? at h
    split at h
    · rename_i hshown
      cases h
      exact hrules hshown
    · cases h
  · intro h
    have hshown : s.isShown (.array a) = true := by
      simp [isShown, h.lacksObject]
    have htext : s.repr (.array a) = unpack shown := (hrules hshown).eq h
    unfold display?
    rw [if_pos hshown]
    simp only [displayPacked, htext, pack_unpack]

/-- Nothing is missing in a text if no instance is missing in the store. -/
theorem lacksObject_eq_false (h : ∀ b, .hollow .object ∉ s.elements b) (fuel : Nat) :
    ∀ (path : List ArrayId) (v : Value), v ≠ .hollow .object → s.lacksObject fuel path v = false := by
  induction fuel with
  | zero =>
    intro path v hv
    cases v with
    | array a => rfl
    | _ => exact lacksObject_of_not_isArray rfl hv 0 path
  | succ fuel ih =>
    intro path v hv
    cases v with
    | array a =>
      simp only [lacksObject, Bool.and_eq_false_iff]
      refine .inr (Array.any_eq_false'.2 fun w hw => ?_)
      have hne : w ≠ .hollow .object := fun heq => h a (heq ▸ hw)
      rw [ih (a :: path) w hne]
      exact Bool.false_ne_true
    | _ => exact lacksObject_of_not_isArray rfl hv (fuel + 1) path

theorem exists_display? (h : ∀ b, .hollow .object ∉ s.elements b) (a : ArrayId) :
    ∃ shown, s.display? (.array a) = .ok shown := by
  refine ⟨s.displayPacked (.array a), ?_⟩
  have hlacks : s.lacksObject (s.arrays.size + 2) [] (.array a) = false :=
    lacksObject_eq_false h _ _ _ (by simp)
  unfold display? isShown
  rw [hlacks]
  rfl

/-! ## The text in place -/

/-- The text of a value with one set for the arrays that are being shown: an array is in it while its elements are
shown, and it is taken out behind them. -/
def reprInPlace (s : Store) : (fuel : Nat) → Value → StateM (Finset ArrayId) Bytes
  | 0, v => return s.reprFlat v
  | fuel + 1, .array a => do
    let active ← getThe (Finset ArrayId)
    if a ∈ active then return text "[...]"
    modify (insert a)
    let parts ← (s.elements a).toList.mapM (s.reprInPlace fuel)
    modify (Finset.erase · a)
    return text "[" ++ Bytes.join (text ", ") parts ++ text "]"
  | _ + 1, v => return s.reprFlat v

theorem run_reprInPlace_array (s : Store) (fuel : Nat) (a : ArrayId) (active : Finset ArrayId) :
    (s.reprInPlace (fuel + 1) (.array a)).run active =
      if a ∈ active then (text "[...]", active)
      else
        let (parts, active) := ((s.elements a).toList.mapM (s.reprInPlace fuel)).run (insert a active)
        (text "[" ++ Bytes.join (text ", ") parts ++ text "]", active.erase a) := by
  rw [reprInPlace]
  show StateT.run (if a ∈ active then _ else _) active = _
  split <;> rfl

/-- In place the text is the same, and the set is left as it was. -/
theorem run_reprInPlace (fuel : Nat) : ∀ {path : List ArrayId} {active : Finset ArrayId} {v : Value},
    (∀ b, b ∈ active ↔ b ∈ path) → (s.reprInPlace fuel v).run active = (s.reprIn fuel path v, active) := by
  induction fuel with
  | zero => exact fun _ => rfl
  | succ fuel ih =>
    have hall : ∀ {path : List ArrayId} {active : Finset ArrayId} (vs : List Value), (∀ b, b ∈ active ↔ b ∈ path) →
        (vs.mapM (s.reprInPlace fuel)).run active = (vs.map (s.reprIn fuel path), active) := by
      intro path active vs hactive
      induction vs with
      | nil => rfl
      | cons v vs ihvs =>
        rw [List.mapM_cons, StateT.run_bind, ih hactive]
        show (s.reprIn fuel path v :: ((vs.mapM (s.reprInPlace fuel)).run active).1,
          ((vs.mapM (s.reprInPlace fuel)).run active).2) = _
        rw [ihvs, List.map_cons]
    intro path active v hactive
    cases v with
    | array a =>
      rw [run_reprInPlace_array, reprIn]
      by_cases ha : a ∈ path
      · rw [if_pos ((hactive a).2 ha), if_pos (List.contains_iff_mem.2 ha)]
      · have hnew : a ∉ active := fun hmem => ha ((hactive a).1 hmem)
        have hinside : ∀ b, b ∈ insert a active ↔ b ∈ a :: path := by
          simp [hactive]
        rw [if_neg hnew, if_neg (by simpa using ha), hall _ hinside]
        simp [Finset.erase_insert hnew]
    | _ => rfl

/-! ## Arrays that do not hold themselves -/

theorem Acyclic.element (h : s.Acyclic a) (hab : s.Holds a b) : s.Acyclic b :=
  fun c hc => h c (.head hab hc)

/-- Where no array holds itself, the arrays around an element are other ones. -/
theorem Acyclic.around (h : s.Acyclic a) (hpath : ∀ b ∈ path, Relation.TransGen s.Holds b a) : a ∉ path :=
  fun ha => h a .refl (hpath a ha)

/-- One step further in, every array around an element still leads to it. -/
theorem around_element (hpath : ∀ b ∈ path, Relation.TransGen s.Holds b a) {c : ArrayId}
    (hc : .array c ∈ s.elements a) : ∀ b ∈ a :: path, Relation.TransGen s.Holds b c := by
  refine List.forall_mem_cons.2 ⟨.single hc, fun b hb => ?_⟩
  exact (hpath b hb).tail hc

/-- An array that does not lead to itself is unfolded without a cut. -/
theorem Unfolds.plainly (h : s.Unfolds path v t)
    (hv : ∀ a, v = .array a → s.Acyclic a ∧ ∀ b ∈ path, Relation.TransGen s.Holds b a) :
    s.UnfoldsPlainly v t := by
  induction h with
  | flat hflat ht => exact .flat hflat ht
  | @cut path a ha =>
    obtain ⟨hacyclic, hpath⟩ := hv a rfl
    exact absurd ha (hacyclic.around hpath)
  | @full path a shown ha h ih =>
    obtain ⟨hacyclic, hpath⟩ := hv a rfl
    refine .full fun v hmem => ih v hmem ?_
    rintro c rfl
    exact ⟨hacyclic.element hmem, around_element hpath hmem⟩

/-- A plain unfolding of an array that does not lead to itself follows the rules. -/
theorem UnfoldsPlainly.unfolds (h : s.UnfoldsPlainly v t) : ∀ {path : List ArrayId},
    (∀ a, v = .array a → s.Acyclic a ∧ ∀ b ∈ path, Relation.TransGen s.Holds b a) →
      s.Unfolds path v t := by
  induction h with
  | flat hflat ht => exact fun _ => .flat hflat ht
  | @full a shown h ih =>
    intro path hv
    obtain ⟨hacyclic, hpath⟩ := hv a rfl
    refine .full (hacyclic.around hpath) fun v hmem => ih v hmem ?_
    rintro c rfl
    exact ⟨hacyclic.element hmem, around_element hpath hmem⟩

/-- The text of an array is that of its unfolding, cut where an array stands inside itself. There is one,
unless an instance is missing; a value of the host that lacks its array is shown like an empty one. Of an
array that does not lead to itself it is the text of the plain unfolding. With one set for the arrays that are being
shown the text is the same, and the set is empty again behind it. -/
theorem display?_unfolds (s : Store) (a : ArrayId) :
    (∀ shown, s.display? (.array a) = .ok shown ↔ s.Unfolds [] (.array a) (unpack shown)) ∧
    ((∀ b, .hollow .object ∉ s.elements b) → ∃ shown, s.display? (.array a) = .ok shown) ∧
    s.display? (.hollow .array) = .ok (text "[]").pack ∧
    (∀ path v t t', s.Unfolds path v t → s.Unfolds path v t' → t = t') ∧
    (s.Acyclic a → (∀ shown, s.display? (.array a) = .ok shown ↔
      s.UnfoldsPlainly (.array a) (unpack shown)) ∧
      ∀ t t', s.UnfoldsPlainly (.array a) t → s.UnfoldsPlainly (.array a) t' → t = t') ∧
    ∀ v, (s.reprInPlace (s.arrays.size + 2) v).run ∅ = (s.repr v, ∅) := by
  refine ⟨fun _ => display?_eq_ok_iff, fun h => exists_display? h a, rfl, fun _ _ _ _ h h' => h.eq h', fun h => ?_,
    fun v => run_reprInPlace _ (by simp)⟩
  have hhere : ∀ b, Value.array a = .array b → s.Acyclic b ∧ ∀ c ∈ [], Relation.TransGen s.Holds c b := by
    rintro b ⟨⟩
    exact ⟨h, nofun⟩
  refine ⟨fun shown => ?_, fun _ _ h h' => h.eq h'⟩
  rw [display?_eq_ok_iff]
  exact ⟨fun hu => hu.plainly hhere, fun hp => hp.unfolds hhere⟩

-- an array that is shared by two elements is shown twice, one that holds itself is cut
example :
    let s : Store := { arrays := #[#[.array 1, .array 1], #[.bool true], #[.array 2, .array 1]] }
    s.display? (.array 0) = .ok (text "[[true], [true]]").pack ∧
      s.display? (.array 2) = .ok (text "[[...], [true]]").pack := by decide +kernel

end Treewalk.Store
