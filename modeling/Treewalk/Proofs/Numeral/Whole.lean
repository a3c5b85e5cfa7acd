import Mathlib.Tactic.Ring
import Treewalk.Value

/-!
# Whole numbers as doubles

A natural number below `2^53` is a double exactly, and so are its successor and products that stay below. The logic's
doubles are packed bits, and each operation unpacks, computes and rounds. The lemmas here follow a whole number through
that: its unpacked form has a mantissa of 53 bits (`Whole.whole`), rounding keeps it (`Whole.round_exact`), and packing
does (`Whole.unpack_pack`).

**Main results.** Order, successor, product and conversion of whole numbers below `2^53` are those of the natural
numbers (`Whole.ofNat_lt`, `Whole.ofNat_add_one`, `Whole.lt_mul_of_beq`, `Whole.toUInt64_of_beq`), and an integral
number between zero and such a number is one of them (`Whole.exists_beq`).
-/

namespace Treewalk

open Float.Model Float.Model.UnpackedFloat

namespace Whole

/-- The format of doubles. -/
abbrev double : Format := .binary64

/-! ## Rounding -/

section

variable {k n : Nat} {sign : Sign} {exponent : Int}

theorem mantissa_shift (em : ExtendedMantissa) (n : Nat) : (em >>> n).mantissa = em.mantissa / 2 ^ n := by
  show (n.repeat ExtendedMantissa.shiftRightOne em).mantissa = _
  induction n with
  | zero => exact (Nat.div_one _).symm
  | succ n ih =>
    show (n.repeat ExtendedMantissa.shiftRightOne em).mantissa / 2 = _
    rw [ih, Nat.div_div_eq_div_mul, Nat.pow_succ]

/-- Zeroes that are shifted out leave no trace. -/
theorem shift_exact (n : Nat) : (⟨k * 2 ^ n, false, false⟩ : ExtendedMantissa) >>> n = ⟨k, false, false⟩ := by
  show n.repeat ExtendedMantissa.shiftRightOne _ = _
  induction n generalizing k with
  | zero => simp [Nat.repeat]
  | succ n ih =>
    have hsplit : k * 2 ^ (n + 1) = k * 2 * 2 ^ n := by ring
    rw [hsplit]
    show ExtendedMantissa.shiftRightOne (n.repeat ExtendedMantissa.shiftRightOne _) = _
    rw [ih]
    simp [ExtendedMantissa.shiftRightOne]

theorem rounded_bounds (em : ExtendedMantissa) :
    em.mantissa ≤ em.roundedMantissa ∧ em.roundedMantissa ≤ em.mantissa + 1 := by
  obtain ⟨m, roundBit, stickyBit⟩ := em
  cases roundBit <;> cases stickyBit <;>
    simp only [ExtendedMantissa.roundedMantissa, ExtendedMantissa.accuracy, Accuracy.roundToNearestEven] <;> omega

/-- A mantissa with at least 53 bits is shifted until it has 53. -/
theorem shiftToTarget (hbits : 52 ≤ k.log2) (hnormal : -1074 ≤ k.log2 + exponent - 52) :
    shiftToTargetExponent double k exponent .exact =
      ((⟨k, false, false⟩ : ExtendedMantissa) >>> (k.log2 - 52), k.log2 + exponent - 52) := by
  have htarget : double.targetExponent (totalExponent k exponent) = k.log2 + exponent - 52 := by
    show max ((k.log2 : Int) + 1 + exponent - ((1 + 52 : Nat) : Int)) (3 - 2 ^ (11 - 1) - ((1 + 52 : Nat) : Int)) = _
    omega
  have hshift : ((k.log2 : Int) + exponent - 52 - exponent).toNat = k.log2 - 52 := by omega
  unfold shiftToTargetExponent shiftToExponent
  rw [htarget]
  simp only [hshift, ExtendedMantissa.ofMantissaAndAccuracy]
  congr 1
  omega

theorem log2_eq (hlow : 2 ^ 52 ≤ k) (hhigh : k < 2 ^ 53) : k.log2 = 52 :=
  (Nat.log2_eq_iff (by omega)).2 ⟨hlow, hhigh⟩

/-- A mantissa with 53 bits stays as it is. -/
theorem shiftToTarget_canonical (hlow : 2 ^ 52 ≤ k) (hhigh : k < 2 ^ 53) (hnormal : -1074 ≤ exponent) :
    shiftToTargetExponent double k exponent .exact = (⟨k, false, false⟩, exponent) := by
  have hlog := log2_eq hlow hhigh
  rw [shiftToTarget (by omega) (by omega), hlog]
  congr 1
  omega

/-- Rounding shifts a mantissa twice: to its 53 bits, and again when rounding up has made one more. -/
theorem round_eq {em : ExtendedMantissa} {m : Nat} {e e' : Int}
    (hfirst : shiftToTargetExponent double k exponent .exact = (em, e))
    (hsecond : shiftToTargetExponent double em.roundedMantissa e .exact = (⟨m, false, false⟩, e')) (hm : 0 < m) :
    roundWithAccuracy double sign k exponent .exact = .finite sign m e' hm := by
  unfold roundWithAccuracy
  rw [hfirst]
  dsimp only
  generalize shiftToTargetExponent double em.roundedMantissa e .exact = shifted at hsecond ⊢
  subst hsecond
  exact dif_neg (Nat.ne_of_gt hm)

/-- The result of rounding has 53 bits, and it is no less than what is rounded by more than a bit. -/
theorem round_canonical (sign : Sign) (exponent : Int) (hbits : 52 ≤ k.log2)
    (hnormal : -1074 ≤ k.log2 + exponent - 52) :
    ∃ m e h, roundWithAccuracy double sign k exponent .exact = .finite sign m e h ∧ 2 ^ 52 ≤ m ∧ m < 2 ^ 53 ∧
      k.log2 + exponent - 52 ≤ e := by
  have hne : k ≠ 0 := by
    rintro rfl
    simp at hbits
  obtain ⟨hlow, hhigh⟩ := (Nat.log2_eq_iff hne).1 rfl
  generalize hem : (⟨k, false, false⟩ : ExtendedMantissa) >>> (k.log2 - 52) = em
  have hmantissa : em.mantissa = k / 2 ^ (k.log2 - 52) := hem ▸ mantissa_shift _ _
  have hsplit : 2 ^ k.log2 = 2 ^ 52 * 2 ^ (k.log2 - 52) := by
    rw [← Nat.pow_add]
    congr 1
    omega
  have hlow' : 2 ^ 52 ≤ em.mantissa := by
    rw [hmantissa, Nat.le_div_iff_mul_le (Nat.two_pow_pos _), ← hsplit]
    exact hlow
  have hhigh' : em.mantissa < 2 ^ 53 := by
    rw [hmantissa, Nat.div_lt_iff_lt_mul (Nat.two_pow_pos _)]
    rw [Nat.pow_succ, hsplit] at hhigh
    calc k < 2 ^ 52 * 2 ^ (k.log2 - 52) * 2 := hhigh
      _ = 2 ^ 53 * 2 ^ (k.log2 - 52) := by ring
  obtain ⟨hround, hround'⟩ := rounded_bounds em
  have hfirst : shiftToTargetExponent double k exponent .exact = (em, k.log2 + exponent - 52) := by
    rw [shiftToTarget hbits hnormal, hem]
  by_cases hfull : em.roundedMantissa < 2 ^ 53
  · have hlow'' : 2 ^ 52 ≤ em.roundedMantissa := hlow'.trans hround
    exact ⟨_, _, _, round_eq hfirst (shiftToTarget_canonical hlow'' hfull hnormal) (by omega), hlow'', hfull,
      Int.le_refl _⟩
  · -- rounding up has made one more bit
    have hcarry : em.roundedMantissa = 2 ^ 53 := by omega
    have hlog : (2 ^ 53 : Nat).log2 = 53 := by decide
    have hsecond : shiftToTargetExponent double em.roundedMantissa (k.log2 + exponent - 52) .exact =
        (⟨2 ^ 52, false, false⟩, k.log2 + exponent - 52 + 1) := by
      rw [hcarry, shiftToTarget (by rw [hlog]; omega) (by rw [hlog]; omega), hlog]
      congr 1
      omega
    exact ⟨_, _, _, round_eq hfirst hsecond (by decide), by decide, by decide, by omega⟩

theorem log2_mul_two_pow (hk : 0 < k) (n : Nat) : (k * 2 ^ n).log2 = k.log2 + n := by
  obtain ⟨hlow, hhigh⟩ := (Nat.log2_eq_iff (Nat.ne_of_gt hk)).1 rfl
  refine (Nat.log2_eq_iff (Nat.ne_of_gt (Nat.mul_pos hk (Nat.two_pow_pos n)))).2 ⟨?_, ?_⟩
  · rw [Nat.pow_add]
    exact Nat.mul_le_mul_right _ hlow
  · rw [Nat.add_right_comm, Nat.pow_add]
    exact Nat.mul_lt_mul_of_pos_right hhigh (Nat.two_pow_pos n)

theorem log2_le (hk : 0 < k) (hsmall : k < 2 ^ 53) : k.log2 ≤ 52 :=
  Nat.lt_succ_iff.1 ((Nat.log2_lt (Nat.ne_of_gt hk)).2 hsmall)

/-- A number that fits in 53 bits has exactly 53 when it is shifted to the left. -/
theorem mantissa_bounds (hk : 0 < k) (hsmall : k < 2 ^ 53) :
    2 ^ 52 ≤ k * 2 ^ (52 - k.log2) ∧ k * 2 ^ (52 - k.log2) < 2 ^ 53 := by
  have hlog := log2_mul_two_pow hk (52 - k.log2)
  rw [Nat.add_sub_cancel' (log2_le hk hsmall)] at hlog
  exact (Nat.log2_eq_iff (Nat.ne_of_gt (Nat.mul_pos hk (Nat.two_pow_pos _)))).1 hlog

/-- What fits in 53 bits is rounded to itself. -/
theorem round_exact (sign : Sign) (n : Nat) (exponent : Int) (hk : 0 < k) (hsmall : k < 2 ^ 53)
    (hbits : 52 ≤ k.log2 + n) (hnormal : -1074 ≤ k.log2 + n + exponent - 52) :
    roundWithAccuracy double sign (k * 2 ^ n) exponent .exact =
      .finite sign (k * 2 ^ (52 - k.log2)) (k.log2 + n + exponent - 52) (Nat.mul_pos hk (Nat.two_pow_pos _)) := by
  have hlog := log2_mul_two_pow hk n
  have hle := log2_le hk hsmall
  obtain ⟨hlow, hhigh⟩ := mantissa_bounds hk hsmall
  have hsplit : k * 2 ^ n = k * 2 ^ (52 - k.log2) * 2 ^ (k.log2 + n - 52) := by
    rw [Nat.mul_assoc, ← Nat.pow_add]
    congr 2
    omega
  have hshift : shiftToTargetExponent double (k * 2 ^ n) exponent .exact =
      (⟨k * 2 ^ (52 - k.log2), false, false⟩, (k.log2 + n : Nat) + exponent - 52) := by
    rw [shiftToTarget (by omega) (by omega), hlog, hsplit, shift_exact]
  exact round_eq hshift (shiftToTarget_canonical hlow hhigh (by omega)) (Nat.mul_pos hk (Nat.two_pow_pos _))

/-- What fits in 53 bits is brought to 53 bits. -/
theorem normalize_exact (sign : Sign) (n : Nat) (exponent : Int) (hk : 0 < k) (hsmall : k < 2 ^ 53)
    (hnormal : -1074 ≤ k.log2 + n + exponent - 52) :
    UnpackedFloat.normalize double ((k * 2 ^ n : Nat) : Int) exponent sign =
      .finite .positive (k * 2 ^ (52 - k.log2)) (k.log2 + n + exponent - 52) (Nat.mul_pos hk (Nat.two_pow_pos _)) := by
  have hpos : compare ((k * 2 ^ n : Nat) : Int) 0 = .gt := by
    have : 0 < k * 2 ^ n := Nat.mul_pos hk (Nat.two_pow_pos n)
    rw [Int.compare_eq_gt]
    omega
  have htarget : double.targetExponent (totalExponent (k * 2 ^ n) exponent) = k.log2 + n + exponent - 52 := by
    show max (((k * 2 ^ n).log2 : Int) + 1 + exponent - ((1 + 52 : Nat) : Int))
      (3 - 2 ^ (11 - 1) - ((1 + 52 : Nat) : Int)) = _
    rw [log2_mul_two_pow hk]
    omega
  have hshift : (exponent - (k.log2 + n + exponent - 52)).toNat = 52 - (k.log2 + n) := by omega
  have hround := round_exact .positive (n + (52 - (k.log2 + n))) (exponent - (52 - (k.log2 + n) : Nat)) hk hsmall
    (by omega) (by omega)
  refine Eq.trans ?_ (hround.trans ?_)
  · unfold UnpackedFloat.normalize
    rw [hpos]
    simp only [UnpackedFloat.round, Int.toNat_natCast, htarget, decreaseExponent, hshift, Nat.shiftLeft_eq,
      Nat.mul_assoc, ← Nat.pow_add]
  · congr 1
    omega

end

/-! ## Packing -/

theorem sign_packed {spec : Format} {sign : Sign} {e : BitVec spec.exponentBits}
    {m : BitVec spec.mantissaBitsWithoutImplicit} :
    Sign.ofBitVec (unpackSign (packComponents spec sign e m)) = sign := by
  have hbit : unpackSign (packComponents spec sign e m) = sign.toBitVec := by
    ext i hi
    obtain rfl : i = 0 := by omega
    unfold unpackSign packComponents
    simp [BitVec.getLsbD_append, BitVec.getElem_append]
  rw [hbit]
  cases sign <;> rfl

/-- The bit that a packed mantissa leaves out. -/
theorem toNat_one_append {n : Nat} (v : BitVec n) : (1#1 ++ v).toNat = 2 ^ n + v.toNat := by
  rw [BitVec.toNat_append, ← Nat.shiftLeft_add_eq_or_of_lt v.isLt, BitVec.toNat_ofNat, Nat.shiftLeft_eq]
  omega

section

variable {spec : Format} {bits : BitVec spec.numBits} {sign : Sign} {m : Nat} {e : Int}

/-- Packed bits whose exponent is not all ones or all zeroes: the mantissa has a bit more than they hold. -/
theorem unpack_normal (hsign : Sign.ofBitVec (unpackSign bits) = sign)
    (hones : unpackExponent bits ≠ -1#_) (hzero : unpackExponent bits ≠ 0#_)
    (hmantissa : (1#1 ++ unpackMantissa bits).toNat = m)
    (hexponent : (unpackExponent bits).toNat - ((spec.exponentBias : Int) + spec.mantissaBitsWithoutImplicit) = e)
    (h : 0 < m) : UnpackedFloat.unpack spec bits = .finite sign m e h := by
  subst hsign hmantissa hexponent
  exact (if_neg hones).trans (if_neg hzero)

/-- Packed bits whose exponent is all zeroes: the mantissa is the one they hold, and the exponent the least. -/
theorem unpack_subnormal (hsign : Sign.ofBitVec (unpackSign bits) = sign)
    (hones : unpackExponent bits ≠ -1#_) (hzero : unpackExponent bits = 0#_)
    (hmantissa : (unpackMantissa bits).toNat = m)
    (hexponent : (unpackExponent bits).toNat - ((spec.exponentBias : Int) + spec.mantissaBitsWithoutImplicit) + 1 = e)
    (h : 0 < m) : UnpackedFloat.unpack spec bits = .finite sign m e h := by
  have hpositive : unpackMantissa bits ≠ 0#_ := fun heq => by
    rw [heq, BitVec.toNat_ofNat, Nat.zero_mod] at hmantissa
    exact Nat.ne_of_gt h hmantissa.symm
  subst hsign hmantissa hexponent
  exact (if_neg hones).trans ((if_pos hzero).trans (dif_neg hpositive))

/-- Packed bits of a finite number are of one of the two kinds. -/
theorem unpack_finite {h : 0 < m} (hf : UnpackedFloat.unpack spec bits = .finite sign m e h) :
    unpackExponent bits ≠ -1#_ ∧
      (unpackExponent bits = 0#_ ∧ (unpackMantissa bits).toNat = m ∧
          (unpackExponent bits).toNat - ((spec.exponentBias : Int) + spec.mantissaBitsWithoutImplicit) + 1 = e ∨
        unpackExponent bits ≠ 0#_ ∧ (1#1 ++ unpackMantissa bits).toNat = m ∧
          (unpackExponent bits).toNat - ((spec.exponentBias : Int) + spec.mantissaBitsWithoutImplicit) = e) := by
  unfold UnpackedFloat.unpack at hf
  dsimp only at hf
  by_cases hones : unpackExponent bits = -1#_
  · rw [if_pos hones] at hf
    by_cases hzero : unpackMantissa bits = 0#_
    · rw [if_pos hzero] at hf
      cases hf
    · rw [if_neg hzero] at hf
      cases hf
  refine ⟨hones, ?_⟩
  rw [if_neg hones] at hf
  by_cases hleast : unpackExponent bits = 0#_
  · rw [if_pos hleast] at hf
    by_cases hzero : unpackMantissa bits = 0#_
    · rw [dif_pos hzero] at hf
      cases hf
    · rw [dif_neg hzero] at hf
      injection hf with _ hm he
      exact .inl ⟨hleast, hm, he⟩
  · rw [if_neg hleast] at hf
    injection hf with _ hm he
    exact .inr ⟨hleast, hm, he⟩

end

/-- A number with 53 bits comes back from its packed form. -/
theorem unpack_pack {sign : Sign} {m : Nat} {e : Int} {h : 0 < m} (hlow : 2 ^ 52 ≤ m) (hhigh : m < 2 ^ 53)
    (hleast : -1074 ≤ e) (hmost : e ≤ 971) : (Float.Model.pack (.finite sign m e h)).unpack = .finite sign m e h := by
  have hbiased : (e + (double.exponentBias : Int) + (double.mantissaBitsWithoutImplicit : Int)).toNat =
      (e + 1075).toNat := by
    show (e + ((2 ^ (11 - 1) - 1 : Nat) : Int) + ((52 : Nat) : Int)).toNat = _
    omega
  obtain ⟨b, hb⟩ : ∃ b : Nat, (e + 1075).toNat = b := ⟨_, rfl⟩
  have hpack : UnpackedFloat.pack double (.finite sign m e h) =
      packComponents double sign (BitVec.ofNat 11 b) (BitVec.ofNat 52 m) := by
    unfold UnpackedFloat.pack
    simp only [log2_eq hlow hhigh, hbiased, hb]
    rw [if_neg (by omega)]
    exact if_pos rfl
  have hones : BitVec.ofNat 11 b ≠ -1#11 := fun heq => by
    have := congrArg BitVec.toNat heq
    simp at this
    omega
  have hzero : BitVec.ofNat 11 b ≠ 0#11 := fun heq => by
    have := congrArg BitVec.toNat heq
    simp at this
    omega
  have hmantissa : (1#1 ++ BitVec.ofNat 52 m).toNat = m := by
    rw [toNat_one_append, BitVec.toNat_ofNat]
    omega
  have hbias : ((double.exponentBias : Nat) : Int) = 1023 := rfl
  have hbits : ((double.mantissaBitsWithoutImplicit : Nat) : Int) = 52 := rfl
  have hfits : (BitVec.ofNat 11 b).toNat = b := by
    rw [BitVec.toNat_ofNat]
    omega
  show UnpackedFloat.unpack double (UnpackedFloat.pack double (.finite sign m e h)) = _
  rw [hpack]
  refine unpack_normal sign_packed ?_ ?_ ?_ ?_ h
  · rw [unpackExponent_packComponents]
    exact hones
  · rw [unpackExponent_packComponents]
    exact hzero
  · rw [unpackMantissa_packComponents]
    exact hmantissa
  · rw [unpackExponent_packComponents, hfits, hbias, hbits]
    omega

/-- A number with fewer bits and the least exponent comes back from its packed form too. -/
theorem unpack_pack_least {sign : Sign} {m : Nat} {h : 0 < m} (hsmall : m < 2 ^ 52) :
    (Float.Model.pack (.finite sign m (-1074) h)).unpack = .finite sign m (-1074) h := by
  have hlog : m.log2 < 52 := (Nat.log2_lt (Nat.ne_of_gt h)).2 hsmall
  have hpack : UnpackedFloat.pack double (.finite sign m (-1074) h) =
      packComponents double sign 0#11 (BitVec.ofNat 52 m) := by
    have hbiased : (-1074 + (double.exponentBias : Int) + (double.mantissaBitsWithoutImplicit : Int)).toNat = 1 := rfl
    have hbits : m.log2 + 1 ≠ double.mantissaBits := by
      show m.log2 + 1 ≠ 1 + 52
      omega
    unfold UnpackedFloat.pack
    simp only [hbiased]
    rw [if_neg (by decide), if_neg hbits]
  have hmantissa : (BitVec.ofNat 52 m).toNat = m := by
    rw [BitVec.toNat_ofNat]
    omega
  show UnpackedFloat.unpack double (UnpackedFloat.pack double (.finite sign m (-1074) h)) = _
  rw [hpack]
  refine unpack_subnormal sign_packed ?_ ?_ ?_ ?_ h
  · rw [unpackExponent_packComponents]
    decide
  · rw [unpackExponent_packComponents]
  · rw [unpackMantissa_packComponents]
    exact hmantissa
  · rw [unpackExponent_packComponents]
    rfl

/-- A finite number comes back from its packed form. -/
theorem unpack_pack_unpack {f : Float.Model} {sign : Sign} {m : Nat} {e : Int} {h : 0 < m}
    (hf : f.unpack = .finite sign m e h) : (Float.Model.pack (.finite sign m e h)).unpack = .finite sign m e h := by
  have hmantissa : (@unpackMantissa double f.toBits.toBitVec).toNat < 2 ^ 52 := BitVec.isLt _
  have hexponent : (@unpackExponent double f.toBits.toBitVec).toNat < 2 ^ 11 := BitVec.isLt _
  have hbias : ((double.exponentBias : Nat) : Int) = 1023 := rfl
  have hbits : ((double.mantissaBitsWithoutImplicit : Nat) : Int) = 52 := rfl
  change UnpackedFloat.unpack double _ = _ at hf
  obtain ⟨hones, ⟨hleast, hm, he⟩ | ⟨hleast, hm, he⟩⟩ := unpack_finite hf
  · rw [hleast, hbias, hbits] at he
    obtain rfl : e = -1074 := he.symm
    exact unpack_pack_least (hm ▸ hmantissa)
  · rw [hbias, hbits] at he
    rw [toNat_one_append] at hm
    have hm' : 2 ^ 52 + (@unpackMantissa double f.toBits.toBitVec).toNat = m := hm
    have hpos : (@unpackExponent double f.toBits.toBitVec).toNat ≠ 0 := fun hzero =>
      hleast (BitVec.eq_of_toNat_eq hzero)
    have hmost : (@unpackExponent double f.toBits.toBitVec).toNat ≠ 2047 := fun hall =>
      hones (BitVec.eq_of_toNat_eq hall)
    exact unpack_pack (by omega) (by omega) (by omega) (by omega)

/-! ## Natural numbers -/

section

variable {j k n : Nat}

/-- A positive number of at most 53 bits, with 53 of them. -/
def whole (k : Nat) (hk : 0 < k) : UnpackedFloat :=
  .finite .positive (k * 2 ^ (52 - k.log2)) (k.log2 - 52) (Nat.mul_pos hk (Nat.two_pow_pos _))

theorem unpack_whole (hk : 0 < k) (hsmall : k < 2 ^ 53) : (Float.Model.pack (whole k hk)).unpack = whole k hk := by
  obtain ⟨hlow, hhigh⟩ := mantissa_bounds hk hsmall
  have hlog := log2_le hk hsmall
  exact unpack_pack hlow hhigh (by omega) (by omega)

/-- Rounding a natural number of at most 53 bits. -/
theorem ofNat_whole (hk : 0 < k) (hsmall : k < 2 ^ 53) : UnpackedFloat.ofNat double k = whole k hk := by
  have hlog := log2_le hk hsmall
  have hnormalize := normalize_exact .positive 0 0 hk hsmall (by omega)
  rw [Nat.pow_zero, Nat.mul_one] at hnormalize
  refine hnormalize.trans ?_
  unfold whole
  congr 1

theorem one_eq : (Float.exactlyRepresentablePowersOfTen[0]).toModel.unpack = whole 1 Nat.one_pos := by
  rfl

theorem ofNat_small (hsmall : k < 2 ^ 53) : Float.ofNat k =
    k.toUInt64.toFloat * Float.exactlyRepresentablePowersOfTen[0] := by
  show Float.ofScientific k false 0 = _
  unfold Float.ofScientific
  rw [dif_pos ⟨hsmall, Nat.zero_le _⟩]
  rfl

theorem toNat_toUInt64 (hsmall : k < 2 ^ 53) : k.toUInt64.toNat = k := by
  show (UInt64.ofNat k).toNat = k
  rw [UInt64.toNat_ofNat']
  omega

theorem ofNat_eq (hk : 0 < k) (hsmall : k < 2 ^ 53) : Float.ofNat k = .ofModel (.pack (whole k hk)) := by
  have hlog := log2_le hk hsmall
  have hleft : k.toUInt64.toFloat.toModel.unpack = whole k hk := by
    show (Float.Model.pack (UnpackedFloat.ofNat double k.toUInt64.toNat)).unpack = _
    rw [toNat_toUInt64 hsmall, ofNat_whole hk hsmall, unpack_whole hk hsmall]
  have hmul : UnpackedFloat.mul double (whole k hk) (whole 1 Nat.one_pos) = whole k hk := by
    have hround := round_exact .positive (52 - k.log2 + 52) ((k.log2 - 52 : Int) + (0 - 52)) hk hsmall (by omega)
      (by omega)
    have hone : (1 : Nat).log2 = 0 := by decide
    unfold whole
    refine Eq.trans ?_ (hround.trans ?_)
    · unfold UnpackedFloat.mul
      simp only [hone, Nat.one_mul, Nat.sub_zero, Nat.mul_assoc, ← Nat.pow_add]
      rfl
    · congr 1
      omega
  rw [ofNat_small hsmall]
  show Float.ofModel (.pack (UnpackedFloat.mul double _ _)) = _
  rw [hleft, one_eq, hmul]

theorem unpack_ofNat (hk : 0 < k) (hsmall : k < 2 ^ 53) : (Float.ofNat k).toModel.unpack = whole k hk := by
  rw [ofNat_eq hk hsmall]
  exact unpack_whole hk hsmall

theorem unpack_zero : (Float.ofNat 0).toModel.unpack = .zero .positive := rfl

/-! ## Order -/

theorem lt_iff {x y : Float} : x < y ↔ x.toModel.unpack.compare y.toModel.unpack = some .lt := by
  show decide (x.toModel < y.toModel) = true ↔ _
  rw [decide_eq_true_iff]
  exact beq_iff_eq

theorem le_iff {x y : Float} : x ≤ y ↔ ∃ o, x.toModel.unpack.compare y.toModel.unpack = some o ∧ o.isLE = true := by
  show decide (x.toModel ≤ y.toModel) = true ↔ _
  rw [decide_eq_true_iff]
  exact Option.any_eq_true _ _

theorem beq_iff {x y : Float} : (x == y) = true ↔ x.toModel.unpack.compare y.toModel.unpack = some .eq := by
  show (x.toModel.unpack.compare y.toModel.unpack == some .eq) = true ↔ _
  exact beq_iff_eq

/-- Equal numbers are the same or both zero, and no number is not one of them. -/
theorem compare_eq_iff {a b : UnpackedFloat} :
    a.compare b = some .eq ↔ a.isNaN = false ∧ (a = b ∨ ∃ sign sign', a = .zero sign ∧ b = .zero sign') := by
  cases a with
  | notANumber => exact iff_of_false nofun fun h => Bool.noConfusion h.1
  | zero sign =>
    rw [and_iff_right (show (UnpackedFloat.zero sign).isNaN = false from rfl)]
    cases b with
    | zero sign' => exact iff_of_true rfl (.inr ⟨sign, sign', rfl, rfl⟩)
    | notANumber => exact iff_of_false nofun (by rintro (h | ⟨_, _, _, h⟩) <;> cases h)
    | infinity sign' | finite sign' =>
      cases sign' <;> exact iff_of_false nofun (by rintro (h | ⟨_, _, _, h⟩) <;> cases h)
  | infinity sign =>
    rw [and_iff_right (show (UnpackedFloat.infinity sign).isNaN = false from rfl),
      or_iff_left (fun ⟨_, _, h, _⟩ => UnpackedFloat.noConfusion h)]
    cases b with
    | infinity sign' =>
      cases sign <;> cases sign'
      · exact iff_of_true rfl rfl
      · exact iff_of_false nofun nofun
      · exact iff_of_false nofun nofun
      · exact iff_of_true rfl rfl
    | _ => cases sign <;> exact iff_of_false nofun nofun
  | finite sign m e hm =>
    rw [and_iff_right (show (UnpackedFloat.finite sign m e hm).isNaN = false from rfl),
      or_iff_left (fun ⟨_, _, h, _⟩ => UnpackedFloat.noConfusion h)]
    cases b with
    | finite sign' m' e' hm' =>
      rw [UnpackedFloat.finite.injEq]
      dsimp only [UnpackedFloat.compare]
      cases sign <;> cases sign' <;> simp [Ordering.then_eq_eq, and_comm]
    | infinity sign' => cases sign' <;> exact iff_of_false nofun nofun
    | _ => cases sign <;> exact iff_of_false nofun nofun

theorem beq_symm {x y : Float} (h : (x == y) = true) : (y == x) = true := by
  rw [beq_iff, compare_eq_iff] at h ⊢
  obtain ⟨hx, heq | ⟨sign, sign', hzero, hzero'⟩⟩ := h
  · exact ⟨heq ▸ hx, .inl heq.symm⟩
  · exact ⟨hzero' ▸ rfl, .inr ⟨sign', sign, hzero', hzero⟩⟩

theorem beq_trans {x y z : Float} (hxy : (x == y) = true) (hyz : (y == z) = true) : (x == z) = true := by
  rw [beq_iff, compare_eq_iff] at hxy hyz ⊢
  obtain ⟨hx, hxy⟩ := hxy
  obtain ⟨-, hyz⟩ := hyz
  refine ⟨hx, ?_⟩
  rcases hxy with hxy | ⟨sign, sign', hzero, hzero'⟩
  · rw [hxy]
    exact hyz
  · rcases hyz with hyz | ⟨-, sign'', -, hzero''⟩
    · exact .inr ⟨sign, sign', hzero, hyz ▸ hzero'⟩
    · exact .inr ⟨sign, sign'', hzero, hzero''⟩

theorem beq_self_iff {x : Float} : (x == x) = true ↔ x.isNaN = false := by
  rw [beq_iff, compare_eq_iff]
  exact and_iff_left (.inl rfl)

theorem compare_whole (hj : 0 < j) (hk : 0 < k) :
    (whole j hj).compare (whole k hk) = some (compare j k) := by
  obtain ⟨hjlow, hjhigh⟩ := (Nat.log2_eq_iff (Nat.ne_of_gt hj)).1 rfl
  obtain ⟨hklow, hkhigh⟩ := (Nat.log2_eq_iff (Nat.ne_of_gt hk)).1 rfl
  show some ((compare ((j.log2 : Int) - 52) (k.log2 - 52)).then
    (compare (j * 2 ^ (52 - j.log2)) (k * 2 ^ (52 - k.log2)))) = _
  congr 1
  rcases Nat.lt_trichotomy j.log2 k.log2 with hlt | heq | hgt
  · have hle : 2 ^ (j.log2 + 1) ≤ 2 ^ k.log2 := Nat.pow_le_pow_right Nat.two_pos hlt
    have hjk : compare j k = .lt := Nat.compare_eq_lt.2 (by omega)
    rw [hjk, Int.compare_eq_lt.2 (by omega)]
    rfl
  · have hscale : 0 < 2 ^ (52 - k.log2) := Nat.two_pow_pos _
    rw [heq, Int.compare_eq_eq.2 rfl]
    show compare _ _ = _
    rcases Nat.lt_trichotomy j k with hlt | rfl | hgt
    · rw [Nat.compare_eq_lt.2 hlt, Nat.compare_eq_lt.2 (Nat.mul_lt_mul_of_pos_right hlt hscale)]
    · rw [Nat.compare_eq_eq.2 rfl, Nat.compare_eq_eq.2 rfl]
    · rw [Nat.compare_eq_gt.2 hgt, Nat.compare_eq_gt.2 (Nat.mul_lt_mul_of_pos_right hgt hscale)]
  · have hle : 2 ^ (k.log2 + 1) ≤ 2 ^ j.log2 := Nat.pow_le_pow_right Nat.two_pos hgt
    have hjk : compare j k = .gt := Nat.compare_eq_gt.2 (by omega)
    rw [hjk, Int.compare_eq_gt.2 (by omega)]
    rfl

theorem compare_ofNat (hj : j < 2 ^ 53) (hk : k < 2 ^ 53) :
    (Float.ofNat j).toModel.unpack.compare (Float.ofNat k).toModel.unpack = some (compare j k) := by
  rcases Nat.eq_zero_or_pos j with rfl | hj₀ <;> rcases Nat.eq_zero_or_pos k with rfl | hk₀
  · rfl
  · rw [unpack_zero, unpack_ofNat hk₀ hk, Nat.compare_eq_lt.2 hk₀]
    rfl
  · rw [unpack_zero, unpack_ofNat hj₀ hj, Nat.compare_eq_gt.2 hj₀]
    rfl
  · rw [unpack_ofNat hj₀ hj, unpack_ofNat hk₀ hk, compare_whole hj₀ hk₀]

theorem ofNat_lt (hj : j < 2 ^ 53) (hk : k < 2 ^ 53) : Float.ofNat j < Float.ofNat k ↔ j < k := by
  rw [lt_iff, compare_ofNat hj hk, Option.some.injEq, Nat.compare_eq_lt]

theorem ofNat_le (hj : j < 2 ^ 53) (hk : k < 2 ^ 53) : Float.ofNat j ≤ Float.ofNat k ↔ j ≤ k := by
  rw [le_iff, compare_ofNat hj hk]
  simp [Nat.isLE_compare]

/-! ## Arithmetic -/

theorem log2_one : (1 : Nat).log2 = 0 := by decide

/-- The next number. -/
theorem ofNat_add_one (hk : k + 1 < 2 ^ 53) : Float.ofNat k + 1 = Float.ofNat (k + 1) := by
  have hsum : ∀ x : UnpackedFloat, (Float.ofNat k).toModel.unpack = x →
      UnpackedFloat.add double x (whole 1 Nat.one_pos) = whole (k + 1) (Nat.succ_pos k) →
      Float.ofNat k + 1 = Float.ofNat (k + 1) := by
    intro x hx hadd
    rw [ofNat_eq (Nat.succ_pos k) hk, ← hadd, ← hx, ← unpack_ofNat Nat.one_pos (by decide)]
    rfl
  rcases Nat.eq_zero_or_pos k with rfl | hk₀
  · exact hsum _ unpack_zero rfl
  · have hsmall : k < 2 ^ 53 := Nat.lt_of_succ_lt hk
    refine hsum _ (unpack_ofNat hk₀ hsmall) ?_
    have hlog := log2_le hk₀ hsmall
    have hlog' := log2_le (Nat.succ_pos k) hk
    have hmin : min ((k.log2 : Int) - 52) ((0 : Nat) - 52) = -52 := by omega
    have hleft : ((k.log2 : Int) - 52 - -52).toNat = k.log2 := by omega
    have hmantissa : k * 2 ^ (52 - k.log2) * 2 ^ k.log2 = k * 2 ^ 52 := by
      rw [Nat.mul_assoc, ← Nat.pow_add]
      congr 2
      omega
    have hadded : Sign.positive.apply ((k * 2 ^ 52 : Nat) : Int) + Sign.positive.apply ((1 * 2 ^ 52 : Nat) : Int) =
        (((k + 1) * 2 ^ 52 : Nat) : Int) := by
      show ((k * 2 ^ 52 : Nat) : Int) + ((1 * 2 ^ 52 : Nat) : Int) = _
      omega
    have hnormalize := normalize_exact (k := k + 1) .positive 52 (-52) (Nat.succ_pos k) hk (by omega)
    unfold whole
    refine Eq.trans ?_ (hnormalize.trans ?_)
    · unfold UnpackedFloat.add
      simp only [log2_one, hmin, decreaseExponent, hleft, Nat.shiftLeft_eq, hmantissa]
      show UnpackedFloat.normalize double
        (Sign.positive.apply ((k * 2 ^ 52 : Nat) : Int) + Sign.positive.apply ((1 * 2 ^ 52 : Nat) : Int)) (-52)
        .positive = _
      rw [hadded]
    · congr 1
      omega

/-! ## Conversions -/

theorem roundToInt_whole (hk : 0 < k) (hsmall : k < 2 ^ 53) :
    roundToInt .positive (k * 2 ^ (52 - k.log2)) (k.log2 - 52) = k := by
  have hlog := log2_le hk hsmall
  have hleft : ((k.log2 : Int) - 52).toNat = 0 := by omega
  have hright : ((0 : Int) - (k.log2 - 52)).toNat = 52 - k.log2 := by omega
  unfold roundToInt
  simp only [decreaseExponent, hleft, Nat.shiftLeft_zero, Int.natCast_zero, Int.sub_zero, shiftToExponent, hright,
    ExtendedMantissa.ofMantissaAndAccuracy, shift_exact]
  rfl

theorem toUInt64_ofNat (hsmall : k < 2 ^ 53) : (Float.ofNat k).toUInt64.toNat = k := by
  have hclamp : ∀ x : UnpackedFloat, (Float.ofNat k).toModel.unpack = x →
      x.toInt 0 (UInt64.size - 1) = k → (Float.ofNat k).toUInt64.toNat = k := by
    intro x hx hint
    show (UInt64.ofNatClamp ((Float.ofNat k).toModel.unpack.toInt 0 (UInt64.size - 1)).toNat).toNat = k
    rw [hx, hint, Int.toNat_natCast]
    have hlt : k < UInt64.size := Nat.lt_trans hsmall (by decide)
    simp only [UInt64.ofNatClamp, hlt, dite_true]
    exact UInt64.toNat_ofNatLT
  rcases Nat.eq_zero_or_pos k with rfl | hk
  · exact hclamp _ unpack_zero rfl
  · exact hclamp _ (unpack_ofNat hk hsmall) (roundToInt_whole hk hsmall)

theorem toFloat_ofNat (hsmall : k < 2 ^ 53) {n : UInt64} (hn : n.toNat = k) : n.toFloat = Float.ofNat k := by
  have hfloat : n.toFloat = .ofModel (.pack (UnpackedFloat.ofNat double n.toNat)) := rfl
  rw [hfloat, hn]
  rcases Nat.eq_zero_or_pos k with rfl | hk
  · rfl
  · rw [ofNat_eq hk hsmall, ofNat_whole hk hsmall]

theorem abs_ofNat (hsmall : k < 2 ^ 53) : (Float.ofNat k).abs = Float.ofNat k := by
  have habs : (Float.ofNat k).abs = .ofModel (.pack (Float.ofNat k).toModel.unpack.abs) := rfl
  rcases Nat.eq_zero_or_pos k with rfl | hk
  · rfl
  · rw [habs, unpack_ofNat hk hsmall, ofNat_eq hk hsmall]
    rfl

/-- The first number beyond those with an exact successor. -/
theorem unpack_limit : (Float.ofNat (Nat.pow 2 53)).toModel.unpack = .finite .positive (2 ^ 52) 1 (by decide) := rfl

theorem lt_limit (hsmall : k < 2 ^ 53) : Float.ofNat k < Float.ofNat (Nat.pow 2 53) := by
  rw [lt_iff, unpack_limit]
  rcases Nat.eq_zero_or_pos k with rfl | hk
  · rw [unpack_zero]
    rfl
  · have hlog := log2_le hk hsmall
    rw [unpack_ofNat hk hsmall]
    show some ((compare ((k.log2 : Int) - 52) 1).then _) = _
    rw [Int.compare_eq_lt.2 (by omega)]
    rfl

theorem isIntegral_ofNat (hsmall : k < 2 ^ 53) : (Value.ofNat k).isIntegral = true := by
  have hequal : (Float.ofNat k == Float.ofNat k) = true :=
    beq_iff.2 (by rw [compare_ofNat hsmall hsmall, Nat.compare_eq_eq.2 rfl])
  show (if (Float.ofNat k).abs < Float.ofNat (Nat.pow 2 53) then
      (Float.ofNat k).abs.toUInt64.toFloat == (Float.ofNat k).abs
    else (Float.ofNat k).isFinite) = true
  rw [abs_ofNat hsmall, if_pos (lt_limit hsmall), toFloat_ofNat hsmall (toUInt64_ofNat hsmall)]
  exact hequal

/-! ## Products -/

theorem log2_add_le (hj : 0 < j) (hk : 0 < k) : j.log2 + k.log2 ≤ (j * k).log2 := by
  rw [Nat.le_log2 (Nat.ne_of_gt (Nat.mul_pos hj hk)), Nat.pow_add]
  exact Nat.mul_le_mul (Nat.log2_self_le (Nat.ne_of_gt hj)) (Nat.log2_self_le (Nat.ne_of_gt hk))

theorem mul_mantissas (hj : 0 < j) (hj' : j < 2 ^ 53) (hk : 0 < k) (hk' : k < 2 ^ 53) :
    j * 2 ^ (52 - j.log2) * (k * 2 ^ (52 - k.log2)) = j * k * 2 ^ (104 - (j.log2 + k.log2)) := by
  have hlog := log2_le hj hj'
  have hlog' := log2_le hk hk'
  rw [Nat.mul_mul_mul_comm, ← Nat.pow_add]
  congr 2
  omega

/-- A product of at most 53 bits is exact. -/
theorem mul_whole (hj : 0 < j) (hj' : j < 2 ^ 53) (hk : 0 < k) (hk' : k < 2 ^ 53) (hjk : j * k < 2 ^ 53) :
    UnpackedFloat.mul double (whole j hj) (whole k hk) = whole (j * k) (Nat.mul_pos hj hk) := by
  have hlog := log2_le hj hj'
  have hlog' := log2_le hk hk'
  have hle := log2_add_le hj hk
  have hround := round_exact .positive (104 - (j.log2 + k.log2)) (((j.log2 : Int) - 52) + (k.log2 - 52))
    (Nat.mul_pos hj hk) hjk (by omega) (by omega)
  have hmul : UnpackedFloat.mul double (whole j hj) (whole k hk) = roundWithAccuracy double .positive
      (j * 2 ^ (52 - j.log2) * (k * 2 ^ (52 - k.log2))) (((j.log2 : Int) - 52) + (k.log2 - 52)) .exact := rfl
  rw [hmul, mul_mantissas hj hj' hk hk', hround]
  unfold whole
  congr 1
  omega

/-! ## Large numbers -/

/-- A number that needs more than 53 bits before the point, or infinity. -/
def Large (x : UnpackedFloat) : Prop :=
  x = .infinity .positive ∨ ∃ m e h, x = .finite .positive m e h ∧ 2 ^ 52 ≤ m ∧ m < 2 ^ 53 ∧ 1 ≤ e

theorem Large.packed {x : UnpackedFloat} (h : Large x) : Large (Float.Model.pack x).unpack := by
  obtain rfl | ⟨m, e, hm, rfl, hlow, hhigh, he⟩ := h
  · exact .inl rfl
  · by_cases hmost : e ≤ 971
    · rw [unpack_pack hlow hhigh (by omega) hmost]
      exact .inr ⟨m, e, hm, rfl, hlow, hhigh, he⟩
    · have hbiased : 2 ^ double.exponentBits ≤
          (e + (double.exponentBias : Int) + (double.mantissaBitsWithoutImplicit : Int)).toNat + 1 := by
        show 2 ^ 11 ≤ (e + ((2 ^ (11 - 1) - 1 : Nat) : Int) + ((52 : Nat) : Int)).toNat + 1
        omega
      have hpack : UnpackedFloat.pack double (.finite .positive m e hm) = packedInfinity double .positive := by
        unfold UnpackedFloat.pack
        exact if_pos hbiased
      refine .inl ?_
      show UnpackedFloat.unpack double (UnpackedFloat.pack double _) = _
      rw [hpack]
      rfl

theorem large_round {e : Int} (hbits : 52 ≤ k.log2) (hlarge : 53 ≤ k.log2 + e) :
    Large (roundWithAccuracy double .positive k e .exact) := by
  obtain ⟨m, e', h, hround, hlow, hhigh, hle⟩ := round_canonical .positive e hbits (by omega)
  exact .inr ⟨m, e', h, hround, hlow, hhigh, by omega⟩

theorem large_ofNat (hk : 2 ^ 53 ≤ k) : Large (Float.ofNat k).toModel.unpack := by
  have hpos : k ≠ 0 := by omega
  have hlog : 53 ≤ k.log2 := (Nat.le_log2 hpos).2 hk
  have hmodel : Float.ofNat k = .ofModel (Float.Model.ofScientific k (Int.ofNat 0)) := by
    show Float.ofScientific k false 0 = _
    unfold Float.ofScientific
    rw [dif_neg (by omega)]
    rfl
  have hmul : UnpackedFloat.ofScientific double k (Int.ofNat 0) =
      roundWithAccuracy double .positive (k <<< 53 * 10 ^ 0) (-53 + 0) .exact := by
    have hleast : ¬ Int.ofNat 0 < -((2 ^ double.exponentBits : Int) + k.log2) := by
      show ¬ (0 : Int) < -((2 : Int) ^ 11 + k.log2)
      omega
    unfold UnpackedFloat.ofScientific
    rw [dif_neg hpos, if_neg (by decide), if_neg hleast, if_pos (by decide)]
    rfl
  rw [hmodel]
  refine Large.packed (x := UnpackedFloat.ofScientific double k (Int.ofNat 0)) ?_
  have hlog' := log2_mul_two_pow (Nat.pos_of_ne_zero hpos) 53
  rw [hmul, Nat.shiftLeft_eq, Nat.pow_zero, Nat.mul_one]
  exact large_round (by omega) (by omega)

theorem large_toFloat {n : UInt64} (hn : 2 ^ 53 ≤ n.toNat) : Large n.toFloat.toModel.unpack := by
  refine Large.packed (x := UnpackedFloat.ofNat double n.toNat) ?_
  generalize n.toNat = k at hn
  have hlog : 53 ≤ k.log2 := (Nat.le_log2 (by omega)).2 hn
  have hpos : compare (k : Int) 0 = .gt := by
    rw [Int.compare_eq_gt]
    omega
  have htarget : double.targetExponent (totalExponent k 0) = k.log2 - 52 := by
    show max ((k.log2 : Int) + 1 + 0 - ((1 + 52 : Nat) : Int)) (3 - 2 ^ (11 - 1) - ((1 + 52 : Nat) : Int)) = _
    omega
  have hshift : (-((k.log2 : Int) - 52)).toNat = 0 := by omega
  unfold UnpackedFloat.ofNat UnpackedFloat.ofInt UnpackedFloat.normalize
  rw [hpos]
  simp only [UnpackedFloat.round, Int.toNat_natCast, htarget, decreaseExponent, Int.zero_sub, hshift,
    Nat.shiftLeft_zero]
  exact large_round (k := k) (by omega) (by omega)

theorem large_mul (hj : 0 < j) (hj' : j < 2 ^ 53) {x : UnpackedFloat} (hx : Large x) :
    Large (UnpackedFloat.mul double (whole j hj) x) := by
  obtain rfl | ⟨m, e, hm, rfl, hlow, hhigh, he⟩ := hx
  · exact .inl rfl
  · have hlog := log2_le hj hj'
    obtain ⟨hlow', hhigh'⟩ := mantissa_bounds hj hj'
    have hle := log2_add_le (j := j * 2 ^ (52 - j.log2)) (k := m) (by omega) hm
    rw [log2_eq hlow hhigh, log2_eq hlow' hhigh'] at hle
    exact large_round (k := j * 2 ^ (52 - j.log2) * m) (e := ((j.log2 : Int) - 52) + e) (by omega) (by omega)

theorem large_mul_whole (hj : 0 < j) (hj' : j < 2 ^ 53) (hk : 0 < k) (hk' : k < 2 ^ 53) (hjk : 2 ^ 53 ≤ j * k) :
    Large (UnpackedFloat.mul double (whole j hj) (whole k hk)) := by
  have hlog := log2_le hj hj'
  have hlog' := log2_le hk hk'
  have hle : 53 ≤ (j * k).log2 := (Nat.le_log2 (by omega)).2 hjk
  have hproduct := log2_mul_two_pow (Nat.mul_pos hj hk) (104 - (j.log2 + k.log2))
  have hmul : UnpackedFloat.mul double (whole j hj) (whole k hk) = roundWithAccuracy double .positive
      (j * 2 ^ (52 - j.log2) * (k * 2 ^ (52 - k.log2))) (((j.log2 : Int) - 52) + (k.log2 - 52)) .exact := rfl
  rw [hmul, mul_mantissas hj hj' hk hk']
  exact large_round (by omega) (by omega)

/-- A large number is larger than one that counts. -/
theorem Large.compare {x : UnpackedFloat} (hx : Large x) (hk : k < 2 ^ 53) :
    (Float.ofNat k).toModel.unpack.compare x = some .lt := by
  rcases Nat.eq_zero_or_pos k with rfl | hk₀
  · rw [unpack_zero]
    obtain rfl | ⟨m, e, hm, rfl, -⟩ := hx <;> rfl
  · rw [unpack_ofNat hk₀ hk]
    obtain rfl | ⟨m, e, hm, rfl, hlow, hhigh, he⟩ := hx
    · rfl
    · have hlog := log2_le hk₀ hk
      show some ((Ord.compare ((k.log2 : Int) - 52) e).then _) = _
      rw [Int.compare_eq_lt.2 (by omega)]
      rfl

/-! ## Numbers that count -/

variable {x : Float}

/-- A number that counts `k` is what `k` is, but for the sign of zero. -/
theorem unpack_of_beq (hk : k < 2 ^ 53) (h : (x == Float.ofNat k) = true) :
    (k = 0 ∧ ∃ sign, x.toModel.unpack = .zero sign) ∨ ∃ hpos, x.toModel.unpack = whole k hpos := by
  rw [beq_iff, compare_eq_iff] at h
  obtain ⟨-, h⟩ := h
  rcases Nat.eq_zero_or_pos k with rfl | hpos
  · obtain h | ⟨sign, _, h, _⟩ := h
    · exact .inl ⟨rfl, .positive, h⟩
    · exact .inl ⟨rfl, sign, h⟩
  · rw [unpack_ofNat hpos hk] at h
    obtain h | ⟨_, _, _, h⟩ := h
    · exact .inr ⟨hpos, h⟩
    · cases h

theorem abs_of_beq (hk : k < 2 ^ 53) (h : (x == Float.ofNat k) = true) : x.abs = Float.ofNat k := by
  have habs : x.abs = .ofModel (.pack x.toModel.unpack.abs) := rfl
  obtain ⟨rfl, sign, hx⟩ | ⟨hpos, hx⟩ := unpack_of_beq hk h
  · rw [habs, hx]
    rfl
  · rw [habs, hx, ofNat_eq hpos hk]
    rfl

theorem isIntegral_of_beq (hk : k < 2 ^ 53) (h : (x == Float.ofNat k) = true) : (Value.number x).isIntegral = true := by
  have hwhole : (Value.number (Float.ofNat k)).isIntegral = true := isIntegral_ofNat hk
  unfold Value.isIntegral at hwhole ⊢
  simp only [abs_ofNat hk, abs_of_beq hk h, if_pos (lt_limit hk)] at hwhole ⊢
  exact hwhole

theorem toUInt64_of_beq (hk : k < 2 ^ 53) (h : (x == Float.ofNat k) = true) : x.toUInt64.toNat = k := by
  obtain ⟨rfl, sign, hx⟩ | ⟨hpos, hx⟩ := unpack_of_beq hk h
  · show (UInt64.ofNatClamp (x.toModel.unpack.toInt 0 (UInt64.size - 1)).toNat).toNat = 0
    rw [hx]
    rfl
  · refine Eq.trans ?_ (toUInt64_ofNat hk)
    show (x.toModel.unpack.toUInt64).toNat = ((Float.ofNat k).toModel.unpack.toUInt64).toNat
    rw [hx, unpack_ofNat hpos hk]

theorem compare_of_beq (hk : k < 2 ^ 53) (h : (x == Float.ofNat k) = true) (hj : j < 2 ^ 53) :
    x.toModel.unpack.compare (Float.ofNat j).toModel.unpack = some (compare k j) := by
  rw [← compare_ofNat hk hj]
  obtain ⟨rfl, sign, hx⟩ | ⟨hpos, hx⟩ := unpack_of_beq hk h
  · rw [hx, unpack_zero]
    rcases Nat.eq_zero_or_pos j with rfl | hj₀
    · rfl
    · rw [unpack_ofNat hj₀ hj]
      rfl
  · rw [hx, unpack_ofNat hpos hk]

/-- Zero, of either sign, or not a number: what a product with zero is. -/
def Nothing (x : UnpackedFloat) : Prop :=
  x = .notANumber ∨ ∃ sign, x = .zero sign

theorem Nothing.packed {x : UnpackedFloat} (h : Nothing x) : Nothing (Float.Model.pack x).unpack := by
  obtain rfl | ⟨sign, rfl⟩ := h
  · exact .inl rfl
  · cases sign <;> exact .inr ⟨_, rfl⟩

theorem nothing_mul (sign : Sign) (x : UnpackedFloat) : Nothing (UnpackedFloat.mul double (.zero sign) x) := by
  cases x with
  | notANumber | infinity => exact .inl rfl
  | zero | finite => exact .inr ⟨_, rfl⟩

/-- A number that counts is not less than nothing. -/
theorem Nothing.compare_ne_lt {x : UnpackedFloat} (h : Nothing x) (hj : j < 2 ^ 53) :
    (Float.ofNat j).toModel.unpack.compare x ≠ some .lt := by
  rcases Nat.eq_zero_or_pos j with rfl | hj₀
  · rw [unpack_zero]
    obtain rfl | ⟨sign, rfl⟩ := h <;> rintro ⟨⟩
  · rw [unpack_ofNat hj₀ hj]
    obtain rfl | ⟨sign, rfl⟩ := h <;> rintro ⟨⟩

theorem ofNat_lt_of_beq (hk : k < 2 ^ 53) (h : (x == Float.ofNat k) = true) (hj : j < 2 ^ 53) :
    Float.ofNat j < x ↔ j < k := by
  rw [lt_iff]
  obtain ⟨rfl, sign, hx⟩ | ⟨hpos, hx⟩ := unpack_of_beq hk h
  · rw [hx]
    exact iff_of_false (Nothing.compare_ne_lt (.inr ⟨sign, rfl⟩) hj) (Nat.not_lt_zero j)
  · rw [hx, ← unpack_ofNat hpos hk, compare_ofNat hj hk, Option.some.injEq, Nat.compare_eq_lt]

/-- A product with a number that counts, compared with another number that counts. -/
theorem lt_mul_of_beq (hk : k < 2 ^ 53) (h : (x == Float.ofNat k) = true) (n : Nat) (hj : j < 2 ^ 53) :
    Float.ofNat j < x * Float.ofNat n ↔ j < k * n := by
  have hproduct : (x * Float.ofNat n).toModel.unpack =
      (Float.Model.pack (UnpackedFloat.mul double x.toModel.unpack (Float.ofNat n).toModel.unpack)).unpack := rfl
  have hnothing : ∀ y, Nothing y → (Float.ofNat j).toModel.unpack.compare (Float.Model.pack y).unpack ≠ some .lt :=
    fun y hy => hy.packed.compare_ne_lt hj
  have hlarge : ∀ y, Large y → (Float.ofNat j).toModel.unpack.compare (Float.Model.pack y).unpack = some .lt :=
    fun y hy => hy.packed.compare hj
  rw [lt_iff, hproduct]
  obtain ⟨rfl, sign, hx⟩ | ⟨hpos, hx⟩ := unpack_of_beq hk h
  · rw [hx, Nat.zero_mul]
    exact iff_of_false (hnothing _ (nothing_mul sign _)) (Nat.not_lt_zero j)
  · rw [hx]
    rcases Nat.eq_zero_or_pos n with rfl | hn
    · rw [unpack_zero, Nat.mul_zero]
      exact iff_of_false (hnothing _ (.inr ⟨_, rfl⟩)) (Nat.not_lt_zero j)
    · by_cases hn' : n < 2 ^ 53
      · rw [unpack_ofNat hn hn']
        by_cases hsmall : k * n < 2 ^ 53
        · rw [mul_whole hpos hk hn hn' hsmall, unpack_whole _ hsmall, ← unpack_ofNat (Nat.mul_pos hpos hn) hsmall,
            compare_ofNat hj hsmall, Option.some.injEq, Nat.compare_eq_lt]
        · exact iff_of_true (hlarge _ (large_mul_whole hpos hk hn hn' (Nat.le_of_not_lt hsmall))) (by omega)
      · refine iff_of_true (hlarge _ (large_mul hpos hk (large_ofNat (Nat.le_of_not_lt hn')))) ?_
        calc j < n := by omega
          _ ≤ k * n := Nat.le_mul_of_pos_left n hpos

theorem unpack_abs {m : Nat} {e : Int} {hm : 0 < m} (hx : x.toModel.unpack = .finite .positive m e hm) :
    x.abs.toModel.unpack = .finite .positive m e hm := by
  have habs : x.abs = .ofModel (.pack x.toModel.unpack.abs) := rfl
  rw [habs, hx]
  exact unpack_pack_unpack hx

/-- A positive number that is not below the limit is larger than one that counts. -/
theorem ofNat_lt_of_limit {m : Nat} {e : Int} {hm : 0 < m} (hj : j < 2 ^ 53)
    (hx : x.toModel.unpack = .finite .positive m e hm) (hlimit : ¬ x.abs < Float.ofNat (Nat.pow 2 53)) :
    Float.ofNat j < x := by
  rw [lt_iff, unpack_abs hx, unpack_limit] at hlimit
  have he : 1 ≤ e := by
    by_contra hsmall
    refine hlimit ?_
    show some ((Ord.compare e 1).then _) = _
    rw [Int.compare_eq_lt.2 (by omega)]
    rfl
  rw [lt_iff, hx]
  rcases Nat.eq_zero_or_pos j with rfl | hj₀
  · rw [unpack_zero]
    rfl
  · have hlog := log2_le hj₀ hj
    rw [unpack_ofNat hj₀ hj]
    show some ((Ord.compare ((j.log2 : Int) - 52) e).then _) = _
    rw [Int.compare_eq_lt.2 (by omega)]
    rfl

/-- A positive number and its conversion count the same, if it is below the limit and its conversion equals it. -/
theorem exists_beq_positive {m : Nat} {e : Int} {hm : 0 < m} (hx : x.toModel.unpack = .finite .positive m e hm)
    (hlimit : x.abs < Float.ofNat (Nat.pow 2 53)) (hwhole : (x.abs.toUInt64.toFloat == x.abs) = true) :
    ∃ k < 2 ^ 53, (x == Float.ofNat k) = true := by
  have habs := unpack_abs hx
  by_cases hsmall : x.abs.toUInt64.toNat < 2 ^ 53
  · refine ⟨_, hsmall, ?_⟩
    have hequal := beq_symm hwhole
    rw [toFloat_ofNat hsmall rfl, beq_iff, habs, ← hx, ← beq_iff] at hequal
    exact hequal
  · -- the conversion of a larger number is beyond the limit
    exfalso
    have hlarge := large_toFloat (Nat.le_of_not_lt hsmall)
    rw [beq_iff, compare_eq_iff, habs] at hwhole
    obtain ⟨-, hequal | ⟨_, _, _, hzero⟩⟩ := hwhole
    · rw [hequal] at hlarge
      obtain hinfinite | ⟨m', e', hm', hfinite, hlow, -, he'⟩ := hlarge
      · cases hinfinite
      · cases hfinite
        rw [lt_iff, habs, unpack_limit] at hlimit
        change some ((Ord.compare e 1).then (Ord.compare m (2 ^ 52))) = some .lt at hlimit
        rw [Option.some.injEq, Ordering.then_eq_lt, Int.compare_eq_lt, Int.compare_eq_eq, Nat.compare_eq_lt] at hlimit
        omega
    · cases hzero

/-- An integral number that is not negative and no more than `j` counts. -/
theorem exists_beq (hj : j < 2 ^ 53) (hintegral : (Value.number x).isIntegral = true) (hleast : ¬ x < 0)
    (hmost : ¬ Float.ofNat j < x) : ∃ k ≤ j, (x == Float.ofNat k) = true := by
  have hlt : ¬ x.toModel.unpack.compare (.zero .positive) = some .lt := fun h => hleast (lt_iff.2 h)
  have habs : x.abs.toModel.unpack = (Float.Model.pack x.toModel.unpack.abs).unpack := rfl
  have hfinite : x.isFinite = x.toModel.unpack.isFinite := rfl
  simp only [Value.isIntegral] at hintegral
  cases hx : x.toModel.unpack with
  | notANumber =>
    have hnot : ¬ x.abs < Float.ofNat (Nat.pow 2 53) := by
      rw [lt_iff, habs, hx]
      rintro ⟨⟩
    rw [if_neg hnot, hfinite, hx] at hintegral
    cases hintegral
  | infinity sign =>
    have hpacked : (Float.Model.pack (UnpackedFloat.infinity sign).abs).unpack = .infinity .positive := by
      cases sign <;> rfl
    have hnot : ¬ x.abs < Float.ofNat (Nat.pow 2 53) := by
      rw [lt_iff, habs, hx, hpacked, unpack_limit]
      rintro ⟨⟩
    rw [if_neg hnot, hfinite, hx] at hintegral
    cases hintegral
  | zero sign =>
    refine ⟨0, Nat.zero_le _, beq_iff.2 ?_⟩
    rw [hx, unpack_zero]
    rfl
  | finite sign m e hm =>
    cases sign with
    | negative =>
      rw [hx] at hlt
      exact absurd rfl hlt
    | positive =>
      by_cases hlimit : x.abs < Float.ofNat (Nat.pow 2 53)
      · rw [if_pos hlimit] at hintegral
        obtain ⟨k, hk, hbeq⟩ := exists_beq_positive hx hlimit hintegral
        exact ⟨k, Nat.le_of_not_lt fun hjk => hmost ((ofNat_lt_of_beq hk hbeq hj).2 hjk), hbeq⟩
      · exact absurd (ofNat_lt_of_limit hj hx hlimit) hmost

end

end Whole

end Treewalk
