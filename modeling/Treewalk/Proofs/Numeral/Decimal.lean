import Mathlib.Data.Nat.Digits.Defs
import Mathlib.Tactic.NormNum
import Mathlib.Tactic.Linarith
import Mathlib.Tactic.Positivity
import Mathlib.Tactic.GCongr
import Mathlib.Algebra.Order.Field.Power
import Mathlib.Data.Rat.Cast.Order
import Treewalk.Numeral.Reading

/-!
# Decimal numerals of any length

A numeral spells a fraction, and it is read as the number nearest to it. The digits are not bounded, so neither is
the fraction: one that is far from every number is settled by counting digits, without the power of ten, and the
rest by rounding a quotient of natural numbers.

**Main results.** A fraction has a nearest number exactly if it is below the middle between the largest number and
the power of two after it (`Binary64.isSome_nearest?_iff`). A numeral of a program is read as the number nearest to
what it spells (`Numeral.Plain.read?_eq`), whichever way it is settled (`Numeral.decimal?_eq`).

Scaling is followed in rational numbers: the target exponent puts the fraction between two powers of two
(`Binary64.targetExponent_eq`), and the mantissa is the scaled fraction, rounded (`Binary64.roundDiv_lt_succ_iff`).
-/

namespace Treewalk.Binary64

theorem scale_eq (num den : Nat) (shift : Int) :
    scale num den shift = (num * 2 ^ shift.toNat, den * 2 ^ (-shift).toNat) := by
  unfold scale
  split
  next h =>
    have hzero : (-shift).toNat = 0 := by omega
    simp [hzero]
  next h =>
    have hzero : shift.toNat = 0 := by omega
    simp [hzero]

/-- Scaling multiplies the fraction by a power of two. -/
theorem scale_ratio (num den : Nat) (shift : Int) :
    ((scale num den shift).1 : ℚ) / (scale num den shift).2 = num / den * 2 ^ shift := by
  have hsplit : (2 : ℚ) ^ shift = 2 ^ shift.toNat / 2 ^ (-shift).toNat := by
    rw [← zpow_natCast, ← zpow_natCast, ← zpow_sub₀ (by norm_num)]
    congr 1
    omega
  rw [scale_eq, hsplit]
  push_cast
  rw [mul_div_mul_comm]

theorem scale_pos (num : Nat) {den : Nat} (hden : 0 < den) (shift : Int) : 0 < (scale num den shift).2 := by
  rw [scale_eq]
  positivity

/-! ## Rounding -/

section

variable {n d k : Nat}

theorem roundDiv_le (hd : 0 < d) (h : (n / d : ℚ) < k) : roundDiv n d ≤ k := by
  have hq : n / d < k := by
    rw [div_lt_iff₀ (by exact_mod_cast hd)] at h
    exact (Nat.div_lt_iff_lt_mul hd).2 (by exact_mod_cast h)
  unfold roundDiv
  dsimp only
  split_ifs <;> omega

theorem le_roundDiv (hd : 0 < d) (h : (k : ℚ) ≤ n / d) : k ≤ roundDiv n d := by
  have hq : k ≤ n / d := by
    rw [le_div_iff₀ (by exact_mod_cast hd)] at h
    exact (Nat.le_div_iff_mul_le hd).2 (by exact_mod_cast h)
  unfold roundDiv
  dsimp only
  split_ifs <;> omega

theorem roundDiv_eq_zero (hd : 0 < d) (h : (n / d : ℚ) < 2⁻¹) : roundDiv n d = 0 := by
  have hhalf : 2 * n < d := by
    rw [div_lt_iff₀ (by exact_mod_cast hd)] at h
    have htwice : (2 * n : ℚ) < d := by linarith
    exact_mod_cast htwice
  have hq : n / d = 0 := Nat.div_eq_of_lt (by omega)
  have hr : n % d = n := Nat.mod_eq_of_lt (by omega)
  unfold roundDiv
  simp [hq, hr, hhalf]

/-- Between an odd number and the one after it the half is rounded up. -/
theorem roundDiv_lt_succ_iff (hd : 0 < d) (hk : k % 2 = 1) : roundDiv n d < k + 1 ↔ (n / d : ℚ) < k + 2⁻¹ := by
  have hright : (n / d : ℚ) < k + 2⁻¹ ↔ 2 * n < (2 * k + 1) * d := by
    rw [div_lt_iff₀ (by exact_mod_cast hd)]
    have hcast : (n : ℚ) < (k + 2⁻¹) * d ↔ (2 * n : ℚ) < (2 * k + 1) * d := by
      constructor <;> intro h <;> linarith
    rw [hcast]
    norm_cast
  rw [hright]
  have hdiv := Nat.div_add_mod n d
  have hlt := Nat.mod_lt n hd
  unfold roundDiv
  dsimp only
  generalize n / d = q at hdiv
  generalize n % d = r at hdiv hlt
  subst hdiv
  rcases Nat.lt_trichotomy q k with hq | rfl | hq
  · have hle : d * (q + 1) ≤ d * k := Nat.mul_le_mul_left d hq
    have hbelow : 2 * (d * q + r) < (2 * k + 1) * d := by nlinarith
    split_ifs <;> omega
  · have hhalf : 2 * (d * q + r) < (2 * q + 1) * d ↔ 2 * r < d := by
      constructor <;> intro h <;> nlinarith
    rw [hhalf]
    split_ifs <;> omega
  · have hle : d * (k + 1) ≤ d * q := Nat.mul_le_mul_left d hq
    have habove : ¬ 2 * (d * q + r) < (2 * k + 1) * d := by nlinarith
    split_ifs <;> omega

end

/-! ## The exponent -/

theorem log2_bounds {n : Nat} (hn : 0 < n) : (2 : ℚ) ^ (n.log2 : Int) ≤ n ∧ (n : ℚ) < 2 ^ ((n.log2 : Int) + 1) := by
  have hlow := Nat.log2_self_le (Nat.ne_of_gt hn)
  have hhigh := Nat.lt_log2_self (n := n)
  refine ⟨?_, ?_⟩
  · rw [zpow_natCast]
    exact_mod_cast hlow
  · have hcast : ((n.log2 : Int) + 1) = ((n.log2 + 1 : Nat) : Int) := by push_cast; rfl
    rw [hcast, zpow_natCast]
    exact_mod_cast hhigh

theorem mul_zpow_neg_lt_iff (x : ℚ) (e k : Int) : x * 2 ^ (-e) < 2 ^ k ↔ x < 2 ^ (e + k) := by
  rw [zpow_neg, ← div_eq_mul_inv, div_lt_iff₀ (by positivity), ← zpow_add₀ (by norm_num), add_comm]

theorem le_mul_zpow_neg_iff (x : ℚ) (e k : Int) : 2 ^ k ≤ x * 2 ^ (-e) ↔ 2 ^ (e + k) ≤ x := by
  rw [zpow_neg, ← div_eq_mul_inv, le_div_iff₀ (by positivity), ← zpow_add₀ (by norm_num), add_comm]

/-- The target exponent is the one at which the fraction has 53 bits before the point, or the least there is. -/
theorem targetExponent_eq {num den : Nat} (hnum : 0 < num) (hden : 0 < den) : ∃ e : Int,
    targetExponent num den = max e (-1074) ∧ (2 : ℚ) ^ (e + 52) ≤ num / den ∧ (num / den : ℚ) < 2 ^ (e + 53) := by
  have hpos : (0 : ℚ) < den := by exact_mod_cast hden
  obtain ⟨hnumlow, hnumhigh⟩ := log2_bounds hnum
  obtain ⟨hdenlow, hdenhigh⟩ := log2_bounds hden
  unfold targetExponent
  dsimp only
  generalize hguess : (Int.ofNat num.log2 - Int.ofNat den.log2 - 53 : Int) = guess
  have hlow : (2 : ℚ) ^ (guess + 52) ≤ num / den := by
    rw [le_div_iff₀ hpos]
    calc (2 : ℚ) ^ (guess + 52) * den ≤ 2 ^ (guess + 52) * 2 ^ ((den.log2 : Int) + 1) := by gcongr
      _ = 2 ^ (num.log2 : Int) := by
        rw [← zpow_add₀ (by norm_num)]
        congr 1
        rw [← hguess]
        simp
        ring
      _ ≤ num := hnumlow
  have hhigh : (num / den : ℚ) < 2 ^ (guess + 54) := by
    rw [div_lt_iff₀ hpos]
    calc (num : ℚ) < 2 ^ ((num.log2 : Int) + 1) := hnumhigh
      _ = 2 ^ (guess + 54) * 2 ^ (den.log2 : Int) := by
        rw [← zpow_add₀ (by norm_num)]
        congr 1
        rw [← hguess]
        simp
        ring
      _ ≤ 2 ^ (guess + 54) * den := by gcongr
  have hscaled : (scale num den (-guess)).1 / (scale num den (-guess)).2 < Nat.pow 2 53 ↔
      (num / den : ℚ) < 2 ^ (guess + 53) := by
    have hd : 0 < (scale num den (-guess)).2 := scale_pos num hden _
    have hdq : (0 : ℚ) < (scale num den (-guess)).2 := by exact_mod_cast hd
    have hratio := scale_ratio num den (-guess)
    rw [Nat.div_lt_iff_lt_mul hd, ← mul_zpow_neg_lt_iff, ← hratio, div_lt_iff₀ hdq]
    norm_cast
  split_ifs with hfloor
  · exact ⟨guess, rfl, hlow, hscaled.1 hfloor⟩
  · refine ⟨guess + 1, rfl, ?_, ?_⟩
    · rw [add_assoc]
      exact not_lt.1 fun h => hfloor (hscaled.2 h)
    · rw [add_assoc]
      exact hhigh

/-! ## The range -/

section

variable {num den : Nat}

/-- What is below half of the least number is nearest to zero. -/
theorem nearest?_of_tiny (negative : Bool) (hden : 0 < den) (h : (num / den : ℚ) < 2 ^ (-1075 : Int)) :
    nearest? negative num den = nearest? negative 0 1 := by
  have hzero : nearest? negative 0 1 = some (ofBits negative 0) := by
    unfold nearest?
    rw [if_pos rfl]
  rcases Nat.eq_zero_or_pos num with rfl | hnum
  · rw [hzero]
    unfold nearest?
    rw [if_pos rfl]
  obtain ⟨e, htarget, hlow, -⟩ := targetExponent_eq hnum hden
  have he : e + 52 < -1075 := (zpow_lt_zpow_iff_right₀ (by norm_num)).1 (lt_of_le_of_lt hlow h)
  have hexp : targetExponent num den = -1074 := by omega
  have hround : roundDiv (scale num den (-(-1074))).1 (scale num den (-(-1074))).2 = 0 := by
    refine roundDiv_eq_zero (scale_pos num hden _) ?_
    rw [scale_ratio, ← zpow_neg_one]
    exact (mul_zpow_neg_lt_iff _ _ _).2 h
  rw [hzero]
  unfold nearest?
  rw [if_neg (Nat.ne_of_gt hnum), hexp]
  dsimp only
  rw [hround, if_pos (by decide)]
  rfl

/-- From here on fractions are too large: the middle between the largest number and the power of two after it. -/
def limit : ℚ := 2 ^ (1024 : Int) - 2 ^ (970 : Int)

theorem limit_bounds : (2 : ℚ) ^ (1023 : Int) ≤ limit ∧ limit ≤ 2 ^ (1024 : Int) := by
  have hpos := zpow_pos (show (0 : ℚ) < 2 by norm_num) (970 : Int)
  have hdouble : (2 : ℚ) ^ (1024 : Int) = 2 ^ (1023 : Int) * 2 := by
    rw [← zpow_add_one₀ (by norm_num)]
    rfl
  have hless : (2 : ℚ) ^ (970 : Int) ≤ 2 ^ (1023 : Int) := zpow_le_zpow_right₀ (by norm_num) (by norm_num)
  unfold limit
  generalize (2 : ℚ) ^ (970 : Int) = a at hpos hless
  generalize (2 : ℚ) ^ (1023 : Int) = b at hdouble hless
  rw [hdouble]
  constructor <;> linarith

/-- A fraction has a nearest number exactly below the limit. -/
theorem isSome_nearest?_iff (negative : Bool) (num : Nat) (hden : 0 < den) :
    (nearest? negative num den).isSome = true ↔ (num / den : ℚ) < limit := by
  rcases Nat.eq_zero_or_pos num with rfl | hnum
  · have hpos : (0 : ℚ) < limit := lt_of_lt_of_le (by positivity) limit_bounds.1
    simp [nearest?, hpos]
  obtain ⟨e₀, htarget, hlow, hhigh⟩ := targetExponent_eq hnum hden
  unfold nearest?
  rw [if_neg (Nat.ne_of_gt hnum)]
  dsimp only
  generalize targetExponent num den = e at htarget
  have hd := scale_pos num hden (-e)
  have hratio := scale_ratio num den (-e)
  generalize scale num den (-e) = p at hd hratio
  obtain ⟨n, d⟩ := p
  dsimp only at hd hratio ⊢
  -- the mantissa has at most 53 bits
  have hbelow : (n / d : ℚ) < 2 ^ (53 : Int) := by
    rw [hratio, mul_zpow_neg_lt_iff]
    exact lt_of_lt_of_le hhigh (zpow_le_zpow_right₀ (by norm_num) (by omega))
  have hround : roundDiv n d ≤ 2 ^ 53 := roundDiv_le hd (by exact_mod_cast hbelow)
  have hmantissa : ∀ bound : Nat, (if (e + 1074).toNat * Nat.pow 2 52 + roundDiv n d < bound then
      some (ofBits negative ((e + 1074).toNat * Nat.pow 2 52 + roundDiv n d)) else none).isSome = true ↔
        (e + 1074).toNat * 2 ^ 52 + roundDiv n d < bound := by
    intro bound
    split_ifs with h
    · exact iff_of_true rfl h
    · exact iff_of_false nofun h
  rw [hmantissa]
  rcases lt_trichotomy e 971 with he | rfl | he
  · refine iff_of_true ?_ ?_
    · have hle : (e + 1074).toNat ≤ 2044 := by omega
      show _ < 2047 * 2 ^ 52
      omega
    · refine lt_of_lt_of_le hhigh (le_trans (zpow_le_zpow_right₀ (by norm_num) ?_) limit_bounds.1)
      omega
  · -- the mantissa may be rounded up to the next power of two
    have hodd : roundDiv n d < 2 ^ 53 ↔ (n / d : ℚ) < ((2 ^ 53 - 1 : Nat) : ℚ) + 2⁻¹ :=
      roundDiv_lt_succ_iff hd (by norm_num)
    have hshift : (2 : ℚ) ^ (971 : Int) * 2 ^ (-971 : Int) = 1 := by
      rw [← zpow_add₀ (by norm_num)]
      norm_num
    have hlimit : limit * 2 ^ (-971 : Int) = ((2 ^ 53 - 1 : Nat) : ℚ) + 2⁻¹ := by
      unfold limit
      rw [sub_mul, ← zpow_add₀ (by norm_num), ← zpow_add₀ (by norm_num)]
      norm_num
    have hcompare : (n / d : ℚ) < ((2 ^ 53 - 1 : Nat) : ℚ) + 2⁻¹ ↔ (num / den : ℚ) < limit := by
      rw [hratio, ← hlimit]
      exact mul_lt_mul_iff_left₀ (by positivity)
    rw [← hcompare, ← hodd]
    show 2045 * 2 ^ 52 + _ < 2047 * 2 ^ 52 ↔ _
    omega
  · refine iff_of_false ?_ (not_lt.2 ?_)
    · have hfull : 2 ^ 52 ≤ roundDiv n d := by
        refine le_roundDiv hd ?_
        have hcast : ((2 ^ 52 : Nat) : ℚ) = 2 ^ (52 : Int) := by norm_num
        rw [hratio, hcast, le_mul_zpow_neg_iff]
        refine le_trans (zpow_le_zpow_right₀ (by norm_num) ?_) hlow
        omega
      have hle : 2046 ≤ (e + 1074).toNat := by omega
      show ¬ _ < 2047 * 2 ^ 52
      omega
    · refine le_trans limit_bounds.2 (le_trans (zpow_le_zpow_right₀ (by norm_num) ?_) hlow)
      omega

end

end Treewalk.Binary64

namespace Treewalk.Numeral

open Binary64

/-! ## Decimal fractions -/

/-- The number of digits bounds a number from both sides. -/
theorem toDigits_bounds {n : Nat} (hn : 0 < n) : 10 ^ ((Nat.toDigits 10 n).length - 1) ≤ n ∧
    n < 10 ^ (Nat.toDigits 10 n).length := by
  have hpos : 0 < (Nat.toDigits 10 n).length := Nat.length_toDigits_pos
  refine ⟨?_, (Nat.length_toDigits_le_iff (by norm_num) hpos).1 (Nat.le_refl _)⟩
  rcases Nat.eq_zero_or_pos ((Nat.toDigits 10 n).length - 1) with hzero | hmore
  · rw [hzero]
    exact hn
  · by_contra hlt
    have hle := (Nat.length_toDigits_le_iff (by norm_num) hmore).2 (not_le.1 hlt)
    omega

theorem two_zpow_le_ten_zpow (n : Nat) : (2 : ℚ) ^ (3 * (n : Int)) ≤ 10 ^ (n : Int) := by
  rw [zpow_mul, zpow_natCast, zpow_natCast]
  gcongr
  norm_num

theorem ten_zpow_neg_le_two_zpow (n : Nat) : (10 : ℚ) ^ (-(n : Int)) ≤ 2 ^ (-(3 * (n : Int))) := by
  rw [zpow_neg, zpow_neg]
  exact inv_anti₀ (by positivity) (two_zpow_le_ten_zpow n)

/-- The cases that are settled without the power of ten are settled rightly: what is read is the number nearest
to the fraction. -/
theorem decimal?_eq (negative : Bool) (value places : Nat) :
    decimal? negative value (-(places : Int)) = nearest? negative value (10 ^ places) := by
  have hden : 0 < 10 ^ places := by positivity
  unfold decimal?
  dsimp only
  rcases Nat.eq_zero_or_pos value with rfl | hvalue
  · simp [nearest?]
  obtain ⟨hlow, hhigh⟩ := toDigits_bounds hvalue
  have hpos : 0 < (Nat.toDigits 10 value).length := Nat.length_toDigits_pos
  generalize (Nat.toDigits 10 value).length = len at hlow hhigh hpos
  have hratio : ((value : ℚ) / (10 ^ places : Nat)) = value * 10 ^ (-(places : Int)) := by
    rw [zpow_neg, zpow_natCast, div_eq_mul_inv]
    push_cast
    rfl
  have hplaces : (0 : ℚ) < 10 ^ (-(places : Int)) := by positivity
  split_ifs with htiny hlarge hwhole
  · have hsize : (len : Int) + -(places : Int) ≤ -(401 : Nat) := by
      simp only [Bool.or_eq_true, decide_eq_true_eq] at htiny
      omega
    refine (nearest?_of_tiny negative hden ?_).symm
    rw [hratio]
    calc (value : ℚ) * 10 ^ (-(places : Int)) < 10 ^ (len : Int) * 10 ^ (-(places : Int)) := by
          gcongr
          exact_mod_cast hhigh
      _ = 10 ^ ((len : Int) + -(places : Int)) := (zpow_add₀ (by norm_num) _ _).symm
      _ ≤ 10 ^ (-((401 : Nat) : Int)) := zpow_le_zpow_right₀ (by norm_num) hsize
      _ ≤ 2 ^ (-(3 * ((401 : Nat) : Int))) := ten_zpow_neg_le_two_zpow 401
      _ ≤ 2 ^ (-1075 : Int) := zpow_le_zpow_right₀ (by norm_num) (by norm_num)
  · have hsize : ((400 : Nat) : Int) ≤ ((len - 1 : Nat) : Int) + -(places : Int) := by omega
    have hout : limit ≤ (value : ℚ) / (10 ^ places : Nat) := by
      rw [hratio]
      calc limit ≤ 2 ^ (1024 : Int) := limit_bounds.2
        _ ≤ 2 ^ (3 * ((400 : Nat) : Int)) := zpow_le_zpow_right₀ (by norm_num) (by norm_num)
        _ ≤ 10 ^ ((400 : Nat) : Int) := two_zpow_le_ten_zpow 400
        _ ≤ 10 ^ (((len - 1 : Nat) : Int) + -(places : Int)) := zpow_le_zpow_right₀ (by norm_num) hsize
        _ = 10 ^ ((len - 1 : Nat) : Int) * 10 ^ (-(places : Int)) := zpow_add₀ (by norm_num) _ _
        _ ≤ value * 10 ^ (-(places : Int)) := by
          gcongr
          exact_mod_cast hlow
    have hnone := (isSome_nearest?_iff negative value hden).not.2 (not_lt.2 hout)
    rw [Bool.not_eq_true, Option.isSome_eq_false_iff, Option.isNone_iff_eq_none] at hnone
    exact hnone.symm
  · obtain rfl : places = 0 := by omega
    simp
  · simp

/-! ## Numerals of programs -/

/-- Digits read one after another, behind a value already read. -/
def readOn (value : Nat) (ds : Bytes) : Nat := ds.foldl (fun v d => v * 10 + (d.toNat - 0x30)) value

/-- The numerals of programs, digits or digits on both sides of a point; they spell `value / 10 ^ places`. -/
inductive Plain : Bytes → (value places : Nat) → Prop
  | whole {ds : Bytes} (hne : ds ≠ []) (hds : ∀ d ∈ ds, isDigit d = true) : Plain ds (readOn 0 ds) 0
  | point {ds fs : Bytes} (hne : ds ≠ []) (hds : ∀ d ∈ ds, isDigit d = true) (hne' : fs ≠ [])
    (hfs : ∀ d ∈ fs, isDigit d = true) : Plain (ds ++ 0x2E :: fs) (readOn 0 (ds ++ fs)) fs.length

theorem isDigit_cases {b : UInt8} (h : isDigit b = true) : 0x30 ≤ b.toNat ∧ b.toNat ≤ 0x39 := by
  simp only [isDigit, Bool.and_eq_true, decide_eq_true_eq] at h
  exact ⟨UInt8.le_iff_toNat_le.1 h.1, UInt8.le_iff_toNat_le.1 h.2⟩

theorem ne_of_isDigit {b c : UInt8} (hb : isDigit b = true) (hc : isDigit c = false) : b ≠ c := by
  rintro rfl
  rw [hb] at hc
  cases hc

/-- Digits and points have no case. -/
theorem lower_eq {b : UInt8} (h : isDigit b = true ∨ b = 0x2E) : lower b = b := by
  have hall : ∀ n < 0x3A, 0x2E ≤ n → lower (UInt8.ofNat n) = UInt8.ofNat n := by decide +kernel
  have hrange : 0x2E ≤ b.toNat ∧ b.toNat < 0x3A := by
    rcases h with h | rfl
    · obtain ⟨hlow, hhigh⟩ := isDigit_cases h
      omega
    · decide
  have hlower := hall b.toNat hrange.2 hrange.1
  rwa [UInt8.ofNat_toNat] at hlower

/-- A numeral starts with a digit. -/
theorem Plain.starts {w : Bytes} {value places : Nat} (h : Plain w value places) :
    ∃ b rest, w = b :: rest ∧ isDigit b = true := by
  cases h with
  | whole hne hds =>
    obtain ⟨b, rest, rfl⟩ := List.exists_cons_of_ne_nil hne
    exact ⟨b, rest, rfl, hds b List.mem_cons_self⟩
  | point hne hds =>
    obtain ⟨b, rest, rfl⟩ := List.exists_cons_of_ne_nil hne
    exact ⟨b, _, rfl, hds b List.mem_cons_self⟩

/-- Only digits and points occur. -/
theorem Plain.mem {w : Bytes} {value places : Nat} (h : Plain w value places) :
    ∀ b ∈ w, isDigit b = true ∨ b = 0x2E := by
  cases h with
  | whole hne hds => exact fun b hb => .inl (hds b hb)
  | point hne hds hne' hfs =>
    intro b hb
    rcases List.mem_append.1 hb with hb | hb
    · exact .inl (hds b hb)
    · rcases List.mem_cons.1 hb with rfl | hb
      · exact .inr rfl
      · exact .inl (hfs b hb)

/-- Digits are read one by one. -/
theorem mantissa_digits {ds : Bytes} (hds : ∀ d ∈ ds, isDigit d = true) (hne : ds ≠ []) (m : Mantissa) (rest : Bytes) :
    mantissa false m (ds ++ rest) =
      mantissa false
        { m with
          value := readOn m.value ds
          places := if m.point then m.places + ds.length else m.places
          seen := true }
        rest := by
  induction ds generalizing m with
  | nil => exact absurd rfl hne
  | cons d ds ih =>
    obtain ⟨hd, hds⟩ := List.forall_mem_cons.1 hds
    have hunderscore : d ≠ 0x5F := ne_of_isDigit hd rfl
    have hpoint : d ≠ 0x2E := ne_of_isDigit hd rfl
    have hdigit : digit? false d = some (d.toNat - 0x30) := by simp [digit?, hd]
    rw [List.cons_append, mantissa, if_neg hunderscore, if_neg hpoint, hdigit]
    dsimp only
    by_cases hmore : ds = []
    · subst hmore
      cases m.point <;> simp [readOn]
    · rw [ih hds hmore]
      cases m.point <;> simp [readOn, Nat.add_assoc, Nat.add_comm 1]

/-- What is read of a numeral: the value of its digits, and how many stand behind the point. -/
theorem Plain.mantissa_eq {w : Bytes} {value places : Nat} (h : Plain w value places) :
    ∃ point, mantissa false {} w = ({ value, places, point, seen := true }, []) := by
  cases h with
  | whole hne hds =>
    have hread := mantissa_digits hds hne {} []
    rw [List.append_nil] at hread
    exact ⟨false, hread⟩
  | @point ds fs hne hds hne' hfs =>
    refine ⟨true, ?_⟩
    have hread := mantissa_digits hfs hne' { value := readOn 0 ds, point := true, seen := true } []
    rw [List.append_nil] at hread
    rw [mantissa_digits hds hne, mantissa, if_neg (by decide), if_pos rfl, if_neg (by simp)]
    refine hread.trans ?_
    simp [mantissa, readOn]

/-- Digits alone are read in base ten. -/
theorem digits?_of_mantissa (negative : Bool) {w : Bytes} {m : Mantissa} (hw : ∀ c ∈ w, lower c ≠ 0x78)
    (hread : mantissa false {} w = (m, [])) (hseen : m.seen = true) (hplain : m.underscores = false) :
    digits? negative w = decimal? negative m.value (0 - m.places) := by
  unfold digits?
  split
  · rename_i c _ _
    have hc : lower c ≠ 0x78 := hw c (by simp)
    simp [hc, hread, hseen, hplain]
  · simp [hread, hseen, hplain]

/-- **A numeral of a program is read as the number nearest to what it spells**, however long it is. -/
theorem Plain.read?_eq {w : Bytes} {value places : Nat} (h : Plain w value places) :
    read? w = nearest? false value (10 ^ places) := by
  obtain ⟨b, rest, hw, hb⟩ := h.starts
  have hplus : b ≠ 0x2B := ne_of_isDigit hb rfl
  have hminus : b ≠ 0x2D := ne_of_isDigit hb rfl
  have hnamed : named? false false w = none := by
    have hne : ∀ {c : UInt8} {cs : Bytes}, isDigit c = false → w.map lower ≠ c :: cs := fun hc heq => by
      rw [hw, List.map_cons, lower_eq (.inl hb)] at heq
      exact ne_of_isDigit hb hc (List.cons.inj heq).1
    unfold named?
    rw [if_neg, if_neg]
    · simp only [Bool.and_eq_true, decide_eq_true_eq, not_and]
      exact fun heq => absurd heq (hne rfl)
    · simp only [Bool.or_eq_true, decide_eq_true_eq, not_or]
      exact ⟨hne rfl, hne rfl⟩
  have hdigits : digits? false w = decimal? false value (-(places : Int)) := by
    have hmark : ∀ c ∈ w, lower c ≠ 0x78 := fun c hc => by
      rw [lower_eq (h.mem c hc)]
      rcases h.mem c hc with hdigit | rfl
      · exact ne_of_isDigit hdigit rfl
      · decide
    obtain ⟨point, hread⟩ := h.mantissa_eq
    rw [digits?_of_mantissa false hmark hread rfl rfl, zero_sub]
  rw [← decimal?_eq, ← hdigits]
  unfold read?
  split
  next negative signed body heq =>
    subst hw
    split at heq
    next hcons => exact absurd (List.cons.inj hcons).1 hplus
    next hcons => exact absurd (List.cons.inj hcons).1 hminus
    next =>
      cases heq
      rw [hnamed, Option.none_or]

end Treewalk.Numeral
