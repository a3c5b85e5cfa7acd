import Treewalk.Machine.Native
import Treewalk.Proofs.Numeral.Decimal
import Treewalk.Proofs.Token.Places

/-!
# Three readings of a numeral

A numeral is read in three places: the scanner gives it as the literal of a number, `num` converts a string, and a
comparison takes a string for a number. All three read it with `Numeral.read?`, after trimming what may stand around
a string; a numeral has nothing to trim (`Numeral.Plain.trim_eq`), and it is one token (`Numeral.Plain.scan_eq`).

**Main result** (`Numeral.Plain.readings`). Below the limit of numbers the three give the same number, the one nearest
to what the numeral spells, however long it is. From the limit on `num` fails and a comparison takes the string for no
number. A literal cannot fail, so there the three do not agree (`Numeral.readings_differ`).
-/

namespace Treewalk

/-! ## Texts of ASCII -/

theorem Rune.decode_ascii {w : Bytes} (h : ∀ b ∈ w, b < 0x80) : decode w = w.map fun b => ⟨b.toNat, [b]⟩ := by
  induction w with
  | nil => rfl
  | cons b w ih =>
    obtain ⟨hb, hw⟩ := List.forall_mem_cons.1 h
    rw [decode_cons_ascii hb, ih hw]
    rfl

namespace Numeral

variable {w : Bytes} {value places : Nat}

/-- The runes of digits and points. -/
theorem decode_eq (h : ∀ b ∈ w, isDigit b = true ∨ b = 0x2E) : Rune.decode w = w.map fun b => ⟨b.toNat, [b]⟩ := by
  refine Rune.decode_ascii fun b hb => ?_
  rcases h b hb with hdigit | rfl
  · exact UInt8.lt_iff_toNat_lt.2 (Nat.lt_of_le_of_lt (isDigit_cases hdigit).2 (by decide))
  · decide

/-- Runes of digits are digits. -/
theorem isDigit_rune {b : UInt8} (h : isDigit b = true) : Segment.isDigit b.toNat = true := by
  obtain ⟨hlow, hhigh⟩ := isDigit_cases h
  simp [Segment.isDigit, hlow, hhigh]

theorem runLength_digits {ds : Bytes} (hds : ∀ d ∈ ds, isDigit d = true) (rest : List Rune) :
    Segment.runLength Segment.isDigit ((ds.map fun b => ⟨b.toNat, [b]⟩) ++ rest) =
      ds.length + Segment.runLength Segment.isDigit rest := by
  induction ds with
  | nil => simp
  | cons d ds ih =>
    obtain ⟨hd, hds⟩ := List.forall_mem_cons.1 hds
    rw [List.map_cons, List.cons_append, Segment.runLength, if_pos (isDigit_rune hd), ih hds, List.length_cons]
    omega

namespace Plain

/-- A numeral is taken as a whole. -/
theorem numberLength_eq (h : Plain w value places) : Segment.numberLength (Rune.decode w) = w.length := by
  rw [decode_eq h.mem, Segment.numberLength_eq]
  cases h with
  | whole _ hds =>
    have hrun := runLength_digits hds []
    rw [List.append_nil] at hrun
    rw [hrun, Segment.runLength, Nat.add_zero, List.drop_of_length_le (by rw [List.length_map])]
    rfl
  | @point ds fs hne hds hne' hfs =>
    have hfraction := runLength_digits hfs []
    rw [List.append_nil] at hfraction
    have hsome : 0 < fs.length := List.length_pos_iff.2 hne'
    have hstop : Segment.isDigit 0x2E = false := rfl
    rw [List.map_append, List.map_cons, runLength_digits hds]
    simp [Segment.runLength, Segment.fractionLength, hfraction, hsome, hstop]
    omega

/-- A numeral alone is one token. -/
theorem scan_eq (h : Plain w value places) : Token.scan w =
    ⟨[⟨.number, w, .number (Segment.numberValue w), .start⟩, ⟨.eof, [], .none, .behind w⟩], []⟩ := by
  have hlength := h.numberLength_eq
  have hbytes := Rune.bytes_decode w
  have hruns : (Rune.decode w).length = w.length := by rw [decode_eq h.mem, List.length_map]
  obtain ⟨b, rest, rfl, hb⟩ := h.starts
  have hcons : ∃ more, Rune.decode (b :: rest) = ⟨b.toNat, [b]⟩ :: more := by
    rw [decode_eq h.mem]
    exact ⟨_, rfl⟩
  obtain ⟨more, hmore⟩ := hcons
  have hcut : Segment.cut (Rune.decode (b :: rest)) =
      [⟨.token .number (.number (Segment.numberValue (b :: rest))), Rune.decode (b :: rest)⟩] := by
    rw [hmore] at hlength hruns hbytes ⊢
    have hall : more.length ≤ (b :: rest).length - 1 := by
      rw [List.length_cons] at hruns
      omega
    rw [Segment.cut_cons, Segment.front_digit (isDigit_rune hb), hlength, List.take_of_length_le (Nat.le_of_eq hruns),
      hbytes]
    dsimp only
    rw [List.take_of_length_le hall, List.drop_of_length_le hall]
    rfl
  rw [Token.scan_eq, hcut, Position.after_decode]
  simp [Segment.gather, Segment.token?, Segment.fault?, hbytes]

/-- There is no white space around a numeral. -/
theorem trim_eq (h : Plain w value places) : w.trim = w := by
  have hplain : ∀ r ∈ Rune.decode w, isBlank r.code = false := by
    rw [decode_eq h.mem]
    intro r hr
    obtain ⟨b, hb, rfl⟩ := List.mem_map.1 hr
    rcases h.mem b hb with hdigit | rfl
    · have hall : ∀ n < 0x3A, 0x30 ≤ n → isBlank n = false := by decide +kernel
      obtain ⟨hlow, hhigh⟩ := isDigit_cases hdigit
      exact hall _ (Nat.lt_succ_of_le hhigh) hlow
    · decide +kernel
  have hkept : ∀ rs : List Rune, (∀ r ∈ rs, isBlank r.code = false) → rs.dropWhile (fun r => isBlank r.code) = rs := by
    intro rs hrs
    cases rs with
    | nil => rfl
    | cons r rs => rw [List.dropWhile_cons_of_neg (by simp [hrs r List.mem_cons_self])]
  rw [Bytes.trim, hkept _ hplain, hkept _ (by simpa using hplain), List.reverse_reverse, Rune.bytes_decode]

end Plain

/-! ## The readings -/

/-- The three readings of a numeral give the same number: the literal of its token, what `num` returns, and what a
comparison takes the string for. -/
structure Agree (w : Bytes) (x : Float) : Prop where
  literal : Token.scan w = ⟨[⟨.number, w, .number x, .start⟩, ⟨.eof, [], .none, .behind w⟩], []⟩
  converted : ∀ s, NativeOp.toNumber s (.ofBytes w) = .ok (.number x)
  compared : Operator.toNumber? (.ofBytes w) = some x

namespace Plain

theorem toNumber?_eq (h : Plain w value places) : Operator.toNumber? (.ofBytes w) = read? w := by
  show read? (unpack w.pack).trim = read? w
  rw [unpack_pack, h.trim_eq]

theorem toNumber_eq (h : Plain w value places) (s : Store) : NativeOp.toNumber s (.ofBytes w) =
    match read? w with
    | some x => .ok (.number x)
    | none => .error (.error (.unlocated .runtime
        (text "num: cannot convert " ++ Quoted.string w ++ text " to a number"))) := by
  show (match read? (unpack w.pack).trim with
    | some x => _
    | none => _) = _
  rw [unpack_pack, h.trim_eq]

/-- **The three readings of a numeral.** If what it spells is below the limit, all three give the number nearest to
it. If not, `num` fails and a comparison takes the string for no number. -/
theorem readings (h : Plain w value places) :
    ((value / 10 ^ places : ℚ) < Binary64.limit →
      ∃ x, Binary64.nearest? false value (10 ^ places) = some x ∧ Agree w x) ∧
    (Binary64.limit ≤ (value / 10 ^ places : ℚ) →
      (∀ s, NativeOp.toNumber s (.ofBytes w) = .error (.error (.unlocated .runtime
        (text "num: cannot convert " ++ Quoted.string w ++ text " to a number")))) ∧
      Operator.toNumber? (.ofBytes w) = none) := by
  have hrange := Binary64.isSome_nearest?_iff false value (show 0 < 10 ^ places by positivity)
  rw [← h.read?_eq] at hrange ⊢
  push_cast at hrange
  refine ⟨fun hin => ?_, fun hout => ?_⟩
  · obtain ⟨x, hx⟩ := Option.isSome_iff_exists.1 (hrange.2 hin)
    refine ⟨x, hx, ?_, fun s => ?_, ?_⟩
    · rw [h.scan_eq, Segment.numberValue, hx, Option.getD_some]
    · rw [h.toNumber_eq, hx]
    · rw [h.toNumber?_eq, hx]
  · have hnone : read? w = none := by
      cases hread : read? w with
      | none => rfl
      | some x =>
        rw [hread] at hrange
        exact absurd (hrange.1 rfl) (not_lt.2 hout)
    exact ⟨fun s => by rw [h.toNumber_eq, hnone], by rw [h.toNumber?_eq, hnone]⟩

end Plain

/-- One with four hundred zeros behind it. -/
def tooLarge : Bytes := 0x31 :: List.replicate 400 0x30

theorem plain_tooLarge : Plain tooLarge (10 ^ 400) 0 := by
  have hvalue : readOn 0 tooLarge = 10 ^ 400 := by decide +kernel
  rw [← hvalue]
  exact .whole nofun (by decide +kernel)

/-- `12.50` is read alike in all three places, and one with four hundred zeros fails where it can. -/
theorem readings_samples : (∃ x, Agree [0x31, 0x32, 0x2E, 0x35, 0x30] x) ∧
    Operator.toNumber? (.ofBytes tooLarge) = none := by
  have hplain : Plain ([0x31, 0x32] ++ 0x2E :: [0x35, 0x30]) 1250 2 :=
    .point nofun (by decide +kernel) nofun (by decide +kernel)
  have hin : ((1250 : Nat) / 10 ^ 2 : ℚ) < Binary64.limit := by
    refine lt_of_lt_of_le (b := (2 : ℚ) ^ (4 : Int)) (by norm_num) ?_
    exact le_trans (zpow_le_zpow_right₀ (by norm_num) (by norm_num)) Binary64.limit_bounds.1
  have hout : Binary64.limit ≤ ((10 ^ 400 : Nat) / 10 ^ 0 : ℚ) := by
    rw [pow_zero, div_one, Nat.cast_pow]
    refine Binary64.limit_bounds.2.trans ((zpow_le_zpow_right₀ (by norm_num) ?_).trans (two_zpow_le_ten_zpow 400))
    norm_num
  obtain ⟨x, -, hx⟩ := (Plain.readings hplain).1 hin
  exact ⟨⟨x, hx⟩, ((Plain.readings plain_tooLarge).2 hout).2⟩

/-- From the limit on the readings differ: the literal is zero, and no comparison takes the string for a number. -/
theorem readings_differ : Plain tooLarge (10 ^ 400) 0 ∧ Segment.numberValue tooLarge = 0 ∧
    ¬ ∃ x, Agree tooLarge x := by
  have hread : (read? tooLarge).isSome = false := by decide +kernel
  have hnone : read? tooLarge = none := Option.isNone_iff_eq_none.1 (Option.isSome_eq_false_iff.1 hread)
  refine ⟨plain_tooLarge, ?_, fun ⟨x, hx⟩ => ?_⟩
  · rw [Segment.numberValue, hnone, Option.getD_none]
  · have hcompared := hx.compared
    rw [plain_tooLarge.toNumber?_eq, hnone] at hcompared
    cases hcompared

end Numeral

end Treewalk
