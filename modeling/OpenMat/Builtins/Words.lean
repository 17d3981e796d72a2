import OpenMat.Bits.TwosComplement
import OpenMat.Builtins.Bitwise
import OpenMat.Floats.Significant

/-!
This module contains what the functions of one word do to the integers whose patterns the words are.
-/

namespace OpenMat
namespace Builtins
namespace Bitwise

open Floats (FloatValue Significant)
open TwosComplement
open Values (F64 IntegerType)

variable {t : IntegerType} {x y : t.Element} {raw : Word}

theorem bits_pos (t : IntegerType)
    : 0 < bits t := by
  cases t <;> decide

theorem bits_le (t : IntegerType)
    : bits t ≤ 64 := by
  cases t <;> decide

theorem two_pow_bits_le (t : IntegerType)
    : 2 ^ bits t ≤ 2 ^ 64 :=
  Nat.pow_le_pow_right Nat.two_pos (bits_le t)

theorem toNat_mask (t : IntegerType)
    : (mask t).toNat = 2 ^ bits t - 1 := by
  cases t <;> decide

theorem getLsbD_mask (t : IntegerType) (p : Nat)
    : (mask t).getLsbD p = decide (p < bits t) := by
  rw [BitVec.getLsbD, toNat_mask, Nat.testBit_two_pow_sub_one]

theorem toNat_and_mask (raw : Word) (t : IntegerType)
    : (raw &&& mask t).toNat = raw.toNat % 2 ^ bits t := by
  rw [BitVec.toNat_and, toNat_mask, Nat.and_two_pow_sub_one_eq_mod]

theorem toNat_toRaw (x : t.Element)
    : ((toRaw x).toNat : Int) = x.val % 2 ^ bits t := by
  have hpos : (0 : Int) < 2 ^ bits t := by positivity
  have hnonneg := Int.emod_nonneg x.val hpos.ne'
  have hlt := Int.emod_lt_of_pos x.val hpos
  have hle : (2 : Int) ^ bits t ≤ 2 ^ 64 := by exact_mod_cast two_pow_bits_le t
  rw [toRaw, BitVec.toNat_ofNat, Nat.mod_eq_of_lt (by omega), Int.toNat_of_nonneg hnonneg]

theorem getLsbD_toRaw (x : t.Element) (p : Nat)
    : (toRaw x).getLsbD p = (decide (p < bits t) && x.val.testBit p) := by
  rw [← testBit_toNat_emod, ← toNat_toRaw, Int.toNat_natCast, BitVec.getLsbD]

theorem toRaw_and_mask (x : t.Element)
    : toRaw x &&& mask t = toRaw x := by
  apply BitVec.eq_of_getLsbD_eq
  intro p _
  rw [BitVec.getLsbD_and, getLsbD_mask, getLsbD_toRaw, Bool.and_right_comm, Bool.and_self]

theorem wrap_congr {a b : Int} (h : a % 2 ^ bits t = b % 2 ^ bits t)
    : t.wrap a = t.wrap b := by
  apply Subtype.ext
  show (a - t.minimum) % 2 ^ bits t + t.minimum = (b - t.minimum) % 2 ^ bits t + t.minimum
  rw [Int.sub_emod, h, ← Int.sub_emod]

theorem wrap_emod (a : Int)
    : (t.wrap a).val % 2 ^ bits t = a % 2 ^ bits t := by
  show ((a - t.minimum) % 2 ^ bits t + t.minimum) % 2 ^ bits t = a % 2 ^ bits t
  rw [Int.emod_add_emod, sub_add_cancel]

theorem fromRaw_and_mask (raw : Word)
    : fromRaw t (raw &&& mask t) = fromRaw t raw := by
  apply wrap_congr
  rw [toNat_and_mask]
  push_cast
  exact Int.emod_emod_of_dvd _ (dvd_refl _)

theorem testBit_fromRaw (raw : Word) {p : Nat} (hp : p < bits t)
    : (fromRaw t raw).val.testBit p = raw.getLsbD p := by
  rw [fromRaw, testBit_congr (wrap_emod _) hp]
  rfl

theorem and_mask (raw : Word) (t : IntegerType)
    : raw &&& mask t = toRaw (fromRaw t raw) := by
  apply BitVec.eq_of_getLsbD_eq
  intro p _
  rw [BitVec.getLsbD_and, getLsbD_mask, getLsbD_toRaw]
  rcases Nat.lt_or_ge p (bits t) with hp | hp
  . rw [testBit_fromRaw raw hp, Bool.and_comm]
  . rw [decide_eq_false (Nat.not_lt.mpr hp), Bool.and_false, Bool.false_and]

theorem getLsbD_ofInt (v : Int) (p : Nat)
    : (BitVec.ofInt 64 v).getLsbD p = (decide (p < 64) && v.testBit p) := by
  rw [← testBit_toNat_emod, BitVec.getLsbD, BitVec.toNat_ofInt]
  rfl

theorem ofInt_and_mask (x : t.Element)
    : BitVec.ofInt 64 x.val &&& mask t = toRaw x := by
  apply BitVec.eq_of_getLsbD_eq
  intro p hp
  rw [BitVec.getLsbD_and, getLsbD_mask, getLsbD_toRaw, getLsbD_ofInt, decide_eq_true hp, Bool.true_and, Bool.and_comm]

theorem bounds_iff_of_signed (h : t.signed = true) {value : Int}
    : t.minimum ≤ value ∧ value < t.bound ↔ -2 ^ (bits t - 1) ≤ value ∧ value < 2 ^ (bits t - 1) := by
  rw [IntegerType.minimum, IntegerType.bound, if_pos h, if_pos h]
  rfl

theorem bounds_iff_of_unsigned (h : t.signed = false) {value : Int}
    : t.minimum ≤ value ∧ value < t.bound ↔ 0 ≤ value ∧ value < 2 ^ bits t := by
  rw [IntegerType.minimum, IntegerType.bound, h]
  rfl

theorem element_bounds_of_signed (h : t.signed = true) (x : t.Element)
    : -2 ^ (bits t - 1) ≤ x.val ∧ x.val < 2 ^ (bits t - 1) :=
  (bounds_iff_of_signed h).mp x.property

theorem element_bounds_of_unsigned (h : t.signed = false) (x : t.Element)
    : 0 ≤ x.val ∧ x.val < 2 ^ bits t :=
  (bounds_iff_of_unsigned h).mp x.property

theorem element_bounds (x : t.Element)
    : -2 ^ bits t ≤ x.val ∧ x.val < 2 ^ bits t := by
  have hpow : (2 : Int) ^ (bits t - 1) ≤ 2 ^ bits t := pow_le_pow_right₀ (by decide) (Nat.sub_le _ _)
  rcases Bool.eq_false_or_eq_true t.signed with h | h
  . have := element_bounds_of_signed h x
    omega
  . have := element_bounds_of_unsigned h x
    omega

theorem and_signBit_eq_zero_iff (raw : Word) (t : IntegerType)
    : raw &&& signBit t = 0#64 ↔ raw.getLsbD (bits t - 1) = false := by
  have hlt : bits t - 1 < 64 := by
    have := bits_pos t
    have := bits_le t
    omega
  show raw &&& BitVec.twoPow 64 (bits t - 1) = 0#64 ↔ _
  rw [BitVec.and_twoPow]
  cases raw.getLsbD (bits t - 1) with
  | false => simp
  | true =>
    have hne : BitVec.twoPow 64 (bits t - 1) ≠ 0#64 := by
      intro h
      have hbit := congrArg (·.getLsbD (bits t - 1)) h
      simp [hlt] at hbit
    simp [hne]

theorem toRaw_signBit (h : t.signed = true) (x : t.Element)
    : toRaw x &&& signBit t = 0#64 ↔ 0 ≤ x.val := by
  have hpos := bits_pos t
  obtain ⟨hlow, hhigh⟩ := element_bounds_of_signed h x
  rw [and_signBit_eq_zero_iff, getLsbD_toRaw, decide_eq_true (by omega), Bool.true_and,
    testBit_of_bounds hlow hhigh le_rfl, decide_eq_false_iff_not, not_lt]

/-- The pattern of 64 bits has the value of the pattern of the word. -/
theorem toInt_signExtend (h : t.signed = true) (x : t.Element)
    : (signExtend (toRaw x) t).toInt = x.val := by
  have hpos := bits_pos t
  have hle := bits_le t
  obtain ⟨hlow, hhigh⟩ := element_bounds_of_signed h x
  have hpattern : signExtend (toRaw x) t = BitVec.ofInt 64 x.val := by
    apply BitVec.eq_of_getLsbD_eq
    intro p hp
    have hhighBit : bits t ≤ p → x.val.testBit p = decide (x.val < 0) :=
      fun hp => testBit_of_bounds hlow hhigh (by omega)
    simp only [signExtend, toRaw_and_mask, toRaw_signBit h]
    rw [getLsbD_ofInt, decide_eq_true hp, Bool.true_and]
    rcases Nat.lt_or_ge p (bits t) with hlt | hge
    . split
      . rw [getLsbD_toRaw, decide_eq_true hlt, Bool.true_and]
      . rw [BitVec.getLsbD_or, getLsbD_toRaw, BitVec.getLsbD_not, getLsbD_mask, decide_eq_true hlt, Bool.true_and,
          Bool.not_true, Bool.and_false, Bool.or_false]
    . rw [hhighBit hge]
      split
      . next hor =>
        have hnonneg : 0 ≤ x.val := hor.resolve_left (by omega)
        rw [getLsbD_toRaw, decide_eq_false (Nat.not_lt.mpr hge), Bool.false_and, decide_eq_false (not_lt.mpr hnonneg)]
      . next hor =>
        have hneg : x.val < 0 := not_le.mp fun h => hor (.inr h)
        rw [BitVec.getLsbD_or, getLsbD_toRaw, BitVec.getLsbD_not, getLsbD_mask,
          decide_eq_false (Nat.not_lt.mpr hge), decide_eq_true hneg, decide_eq_true hp]
        rfl
  have hpow : (2 : Int) ^ (bits t - 1) ≤ 2 ^ 63 := pow_le_pow_right₀ (by decide) (by omega)
  rw [hpattern, BitVec.toInt_ofInt]
  exact Int.bmod_eq_of_le (by omega) (by omega)

theorem decodeF64_eq (raw : Word) (t : IntegerType)
    : decodeF64 t raw = F64.ofInt (fromRaw t raw).val := by
  rw [decodeF64, and_mask]
  split
  . next h => rw [toInt_signExtend h]
  . next h =>
    obtain ⟨hlow, hhigh⟩ := element_bounds_of_unsigned (Bool.eq_false_of_not_eq_true h) (fromRaw t raw)
    rw [toNat_toRaw, Int.emod_eq_of_lt hlow hhigh]

/-! Shifts. -/

/-- The integer below the product with a power of two. -/
def shifted (value amount : Int) : Int := ⌊(value : ℚ) * 2 ^ amount⌋

theorem shifted_natCast (value : Int) (amount : Nat)
    : shifted value amount = value * 2 ^ amount := by
  rw [shifted, zpow_natCast]
  have hcast : (value : ℚ) * 2 ^ amount = ((value * 2 ^ amount : Int) : ℚ) := by push_cast; rfl
  rw [hcast, Int.floor_intCast]

theorem shifted_neg_natCast (value : Int) (amount : Nat)
    : shifted value (-amount) = value / 2 ^ amount := by
  rw [shifted, zpow_neg, zpow_natCast, ← div_eq_mul_inv]
  have hcast : (value : ℚ) / 2 ^ amount = (value : ℚ) / ((2 ^ amount : Nat) : ℚ) := by push_cast; rfl
  rw [hcast, Rat.floor_intCast_div_natCast]
  push_cast
  rfl

theorem fromRaw_eq_wrap {value : Int} (h : (raw.toNat : Int) % 2 ^ bits t = value % 2 ^ bits t)
    : fromRaw t raw = t.wrap value :=
  wrap_congr h

theorem toNat_toRaw_of_unsigned (h : t.signed = false) (x : t.Element)
    : ((toRaw x).toNat : Int) = x.val := by
  obtain ⟨hlow, hhigh⟩ := element_bounds_of_unsigned h x
  rw [toNat_toRaw, Int.emod_eq_of_lt hlow hhigh]

/-- The pattern of all ones is that of minus one. -/
theorem fromRaw_mask (t : IntegerType)
    : fromRaw t (mask t) = t.wrap (-1) := by
  have hpos := Nat.two_pow_pos (bits t)
  apply fromRaw_eq_wrap
  rw [toNat_mask, Nat.cast_sub (Nat.succ_le_of_lt hpos)]
  push_cast
  rw [sub_eq_neg_add, Int.add_emod_right]

theorem fromRaw_zero (t : IntegerType)
    : fromRaw t 0#64 = t.wrap 0 :=
  rfl

theorem checkedShift_eq_ok {amount : Nat} (h : amount < 64) (shifted : Word)
    : checkedShift amount shifted = .ok shifted :=
  if_pos h

theorem shiftWord_left (x : t.Element) (amount : Nat)
    : fromRaw t ((toRaw x <<< amount) &&& mask t) = t.wrap (x.val * 2 ^ amount) := by
  have hle := bits_le t
  rw [fromRaw_and_mask]
  apply fromRaw_eq_wrap
  rw [BitVec.toNat_shiftLeft, Nat.shiftLeft_eq, Int.natCast_emod, Nat.cast_mul, Nat.cast_pow, Nat.cast_pow,
    Nat.cast_ofNat, Int.emod_emod_of_dvd _ (pow_dvd_pow 2 hle), toNat_toRaw, Int.mul_emod, Int.emod_emod_of_dvd _ (dvd_refl _),
    ← Int.mul_emod]

theorem shiftWord_right_signed (hsigned : t.signed = true) (x : t.Element) (amount : Nat)
    : fromRaw t ((signExtend (toRaw x) t).sshiftRight amount &&& mask t) = t.wrap (x.val / 2 ^ amount) := by
  have hle := bits_le t
  have hvalue : ((signExtend (toRaw x) t).sshiftRight amount).toInt = x.val / 2 ^ amount := by
    rw [BitVec.toInt_sshiftRight, toInt_signExtend hsigned, Int.shiftRight_eq_div_pow]
    push_cast
    rfl
  rw [fromRaw_and_mask]
  apply fromRaw_eq_wrap
  rw [← hvalue]
  generalize (signExtend (toRaw x) t).sshiftRight amount = result
  rw [BitVec.toInt_eq_toNat_bmod]
  have hmod : (Int.bmod result.toNat (2 ^ 64)) % (2 : Int) ^ 64 = (result.toNat : Int) % (2 : Int) ^ 64 := Int.bmod_emod
  rw [← Int.emod_emod_of_dvd (Int.bmod _ _) (pow_dvd_pow 2 hle), hmod, Int.emod_emod_of_dvd _ (pow_dvd_pow 2 hle)]

/-- The shift of a word gives the product with a power of two. -/
theorem shiftWord_eq (x : t.Element) (amount : Int)
    : ∃ result, shiftWord (toRaw x) amount t = .ok result ∧ fromRaw t result = t.wrap (shifted x.val amount) := by
  have hpos := bits_pos t
  have hle := bits_le t
  simp only [shiftWord, toRaw_and_mask]
  by_cases hge : amount ≥ bits t
  . rw [if_pos hge]
    obtain ⟨n, rfl⟩ := Int.eq_ofNat_of_zero_le (by omega : 0 ≤ amount)
    refine ⟨_, rfl, ?_⟩
    rw [fromRaw_zero, shifted_natCast]
    apply wrap_congr
    rw [Int.emod_eq_zero_of_dvd (dvd_zero _), eq_comm, Int.emod_eq_zero_of_dvd]
    exact Dvd.dvd.mul_left (pow_dvd_pow _ (by omega)) _
  rw [if_neg hge]
  rcases Int.eq_nat_or_neg amount with ⟨n, rfl | rfl⟩
  . have hnot : ¬(n : Int) ≤ -bits t := by omega
    rw [if_neg hnot, if_pos (Int.natCast_nonneg n), Int.natAbs_natCast, checkedShift_eq_ok (by omega)]
    refine ⟨_, rfl, ?_⟩
    rw [shiftWord_left, shifted_natCast]
  rcases Nat.eq_zero_or_pos n with rfl | hn
  . have hnot : ¬-((0 : Nat) : Int) ≤ -bits t := by omega
    rw [if_neg hnot, if_pos (by omega), checkedShift_eq_ok (by decide)]
    refine ⟨_, rfl, ?_⟩
    rw [shifted_neg_natCast, pow_zero, Int.ediv_one]
    exact (shiftWord_left x 0).trans (by rw [pow_zero, mul_one])
  rw [shifted_neg_natCast, Int.natAbs_neg, Int.natAbs_natCast]
  by_cases hfar : -(n : Int) ≤ -bits t
  . rw [if_pos hfar]
    refine ⟨_, rfl, ?_⟩
    have hpow : (2 : Int) ^ bits t ≤ 2 ^ n := pow_le_pow_right₀ (by decide) (by omega)
    obtain ⟨hlow, hhigh⟩ := element_bounds x
    rcases lt_or_ge x.val 0 with hneg | hnonneg
    . have hsigned : t.signed = true := by
        rcases Bool.eq_false_or_eq_true t.signed with h | h
        . exact h
        . exact absurd (element_bounds_of_unsigned h x).1 (not_le.mpr hneg)
      have hdiv : x.val / 2 ^ n = -1 := by
        rw [Int.ediv_eq_iff_of_pos (by positivity)]
        omega
      have hbit : toRaw x &&& signBit t ≠ 0#64 := fun h => absurd ((toRaw_signBit hsigned x).mp h) (not_le.mpr hneg)
      rw [hsigned, decide_eq_true hbit, hdiv]
      exact fromRaw_mask t
    . have hbit : (t.signed && decide (toRaw x &&& signBit t ≠ 0#64)) = false := by
        rw [Bool.and_eq_false_iff, decide_eq_false_iff_not, ne_eq, not_not]
        rcases Bool.eq_false_or_eq_true t.signed with h | h
        . exact .inr ((toRaw_signBit h x).mpr hnonneg)
        . exact .inl h
      rw [hbit, Int.ediv_eq_zero_of_lt hnonneg (hhigh.trans_le hpow)]
      rfl
  rw [if_neg hfar, if_neg (by omega), checkedShift_eq_ok (by omega), checkedShift_eq_ok (by omega)]
  split
  . next hsigned => exact ⟨_, rfl, shiftWord_right_signed hsigned x n⟩
  . next hsigned =>
    refine ⟨_, rfl, fromRaw_eq_wrap ?_⟩
    rw [BitVec.toNat_ushiftRight, Nat.shiftRight_eq_div_pow]
    push_cast
    rw [toNat_toRaw_of_unsigned (Bool.eq_false_of_not_eq_true hsigned)]

/-! Integral numbers. -/

section Integral

variable {value : FloatValue} {k : Int}

theorem exists_finite_of_integral (h : value.number = some (.rational k))
    : ∃ negative numerator scale, value = .finite negative numerator scale ∧
        (if negative then -(numerator : Int) else numerator) = k * 2 ^ scale := by
  obtain ⟨negative, numerator, scale, rfl, -⟩ := FloatValue.exists_finite_of_number h
  exact ⟨negative, numerator, scale, rfl, FloatValue.number_finite_eq_int_iff.mp h⟩

theorem isFinite_of_integral (h : value.number = some (.rational k))
    : value.isFinite = true := by
  obtain ⟨negative, numerator, scale, rfl, -⟩ := exists_finite_of_integral h
  rfl

theorem natAbs_of_integral {negative : Bool} {numerator scale : Nat}
    (h : (if negative then -(numerator : Int) else numerator) = k * 2 ^ scale)
    : numerator = k.natAbs * 2 ^ scale := by
  have habs := congrArg Int.natAbs h
  rw [Int.natAbs_mul, Int.natAbs_pow] at habs
  rw [← show (2 : Int).natAbs = 2 from rfl, ← habs]
  split <;> simp

theorem hasFraction_of_integral (h : value.number = some (.rational k))
    : value.hasFraction = false := by
  obtain ⟨negative, numerator, scale, rfl, hvalue⟩ := exists_finite_of_integral h
  rw [FloatValue.hasFraction, natAbs_of_integral hvalue]
  simp

theorem truncated_of_integral (h : value.number = some (.rational k))
    : truncated value = k := by
  obtain ⟨negative, numerator, scale, rfl, hvalue⟩ := exists_finite_of_integral h
  have hpos : (0 : Int) < 2 ^ scale := by positivity
  have hdiv : FloatValue.truncateMagnitude (.finite negative numerator scale) = k.natAbs := by
    rw [FloatValue.truncateMagnitude, natAbs_of_integral hvalue, Nat.mul_div_cancel _ (Nat.two_pow_pos _)]
  cases negative with
  | false =>
    have hnonneg : 0 ≤ k := by
      have : (0 : Int) ≤ k * 2 ^ scale := by rw [← hvalue]; exact Int.natCast_nonneg _
      exact nonneg_of_mul_nonneg_left this hpos
    rw [truncated, hdiv]
    omega
  | true =>
    have hnonpos : k ≤ 0 := by
      have : k * 2 ^ scale ≤ 0 := by
        rw [← hvalue, if_pos rfl]
        omega
      exact nonpos_of_mul_nonpos_left this hpos
    rw [truncated, hdiv]
    omega

theorem number_integerValue (k : Int)
    : (Values.integerValue k).number = some (.rational k) := by
  rw [Values.integerValue, FloatValue.number_finite_eq_int_iff, pow_zero, mul_one]
  rcases lt_or_ge k 0 with h | h
  . rw [decide_eq_true h, if_pos rfl]
    omega
  . rw [decide_eq_false (not_lt.mpr h), if_neg (by decide)]
    omega

theorem isBelowMinus_of_integral {bound : Nat} (h : value.number = some (.rational k)) (hk : -bound ≤ k)
    : value.isBelowMinus bound = false := by
  obtain ⟨negative, numerator, scale, rfl, hvalue⟩ := exists_finite_of_integral h
  have hpos : (0 : Int) < 2 ^ scale := by positivity
  cases negative with
  | false => rfl
  | true =>
    rw [if_pos rfl] at hvalue
    rw [FloatValue.isBelowMinus, Bool.true_and, decide_eq_false_iff_not, not_lt]
    zify
    nlinarith

theorem isAtLeast_of_integral {bound : Nat} (h : value.number = some (.rational k)) (hk : k < bound)
    : value.isAtLeast bound = false := by
  obtain ⟨negative, numerator, scale, rfl, hvalue⟩ := exists_finite_of_integral h
  have hpos : (0 : Int) < 2 ^ scale := by positivity
  cases negative with
  | true => rfl
  | false =>
    rw [if_neg (by decide)] at hvalue
    rw [FloatValue.isAtLeast, Bool.not_false, Bool.true_and, decide_eq_false_iff_not, not_le]
    zify
    nlinarith

end Integral

/-- A double with the value of an element has the pattern of the element. -/
theorem doubleToRaw_eq {name : String} {position : Nat} {value : F64} {x : t.Element} {mixedInteger : Bool}
    (h : value.decode.number = some (.rational x.val))
    : doubleToRaw name position value t mixedInteger = .ok (toRaw x) := by
  simp only [doubleToRaw, ensure_pos (And.intro (isFinite_of_integral h) (hasFraction_of_integral h)),
    truncated_of_integral h, ofInt_and_mask]
  split
  . next hsigned =>
    obtain ⟨hlow, hhigh⟩ := element_bounds_of_signed hsigned x
    rw [ensure_pos ⟨isBelowMinus_of_integral h (by exact_mod_cast hlow), isAtLeast_of_integral h (by exact_mod_cast hhigh)⟩]
    rfl
  . next hsigned =>
    obtain ⟨hlow, hhigh⟩ := element_bounds_of_unsigned (Bool.eq_false_of_not_eq_true hsigned) x
    rw [ensure_pos ⟨isBelowMinus_of_integral h (by simpa using hlow), isAtLeast_of_integral h (by exact_mod_cast hhigh)⟩]
    rfl

/-! Shift amounts and positions. -/

/-- The number is an integer. -/
def Is : RealNumber → Int → Prop
  | .signed value, k => value = k
  | .unsigned value, k => value = k
  | .float value, k => value.decode.number = some (.rational k)

def clamp (width : Nat) (amount : Int) : Int :=
  if amount ≥ width then width else if amount ≤ -width then -width else amount

theorem shiftAmount_eq {name : String} {position width : Nat} {number : RealNumber} {k : Int} (h : Is number k)
    : shiftAmount name position width number = .ok (clamp width k) := by
  cases number with
  | signed value =>
    cases h
    rfl
  | unsigned value =>
    cases h
    rw [shiftAmount, clamp]
    congr 1
    split <;> split <;> omega
  | float value =>
    have hle := FloatValue.le_iff (number_integerValue width) h
    have hge := FloatValue.le_iff h (number_integerValue (-width))
    rw [Int.cast_le] at hle hge
    simp only [shiftAmount, ensure_pos (And.intro (isFinite_of_integral h) (hasFraction_of_integral h)), hle, hge,
      truncated_of_integral h]
    rw [clamp]
    split
    . rfl
    . split <;> rfl

theorem shiftWord_clamp (raw : Word) (k : Int) (t : IntegerType)
    : shiftWord raw (clamp (bits t) k) t = shiftWord raw k t := by
  have hpos := bits_pos t
  rw [clamp]
  split
  . next h => simp only [shiftWord, h, ge_iff_le, le_refl, if_true]
  split
  . next hge hle =>
    have hnot : ¬-(bits t : Int) ≥ bits t := by omega
    simp only [shiftWord, hge, hle, hnot, le_refl, if_true, if_false]
  . rfl

theorem bitPosition_eq {name : String} {position width p : Nat} {number : RealNumber} (h : Is number p) (hpos : 1 ≤ p)
    (hle : p ≤ width)
    : bitPosition name position width number = .ok p := by
  cases number with
  | signed value =>
    cases h
    rw [bitPosition, ensure_pos ⟨by omega, by omega⟩]
    rfl
  | unsigned value =>
    cases h
    rw [bitPosition, ensure_pos ⟨by omega, by omega⟩]
    rfl
  | float value =>
    have hone : (Values.integerValue 1).le value.decode = true := by
      rw [FloatValue.le_iff (number_integerValue 1) h]
      exact_mod_cast hpos
    have hwidth : value.decode.le (Values.integerValue width) = true := by
      rw [FloatValue.le_iff h (number_integerValue width)]
      exact_mod_cast hle
    rw [bitPosition]
    simp only [ensure_pos (And.intro (isFinite_of_integral h) (And.intro (hasFraction_of_integral h)
      (And.intro hone hwidth))), truncated_of_integral h]
    rfl

/-! The functions of one word. -/

/-- The bit at a position, where the lowest one has the position one. -/
def bitAt (x : t.Element) (position : Nat) : Bool := x.val.testBit (position - 1)

/-- The element that a bit is read as. -/
def flag (t : IntegerType) (bit : Bool) : t.Element := t.wrap (if bit then 1 else 0)

/-- The bits of an element, but for one that is given. -/
def HasBit (x : t.Element) (position : Nat) (bit : Bool) (result : t.Element) : Prop :=
  ∀ q, 1 ≤ q → q ≤ bits t → bitAt result q = if q = position then bit else bitAt x q

namespace BinaryOperation

def onBits : BinaryOperation → Bool → Bool → Bool
  | .and => Bool.and
  | .or => Bool.or
  | .xor => Bool.xor

/-- The operation acts bit by bit. -/
def HasBits (operation : BinaryOperation) (x y result : t.Element) : Prop :=
  ∀ p, 1 ≤ p → p ≤ bits t → bitAt result p = operation.onBits (bitAt x p) (bitAt y p)

end BinaryOperation

variable {p : Nat} {number other : RealNumber}

theorem bitshiftWord_eq {k : Int} (h : Is number k) (x : t.Element)
    : ∃ result, bitshiftWord (toRaw x) t [number] = .ok result ∧ fromRaw t result = t.wrap (shifted x.val k) := by
  obtain ⟨result, hresult, hvalue⟩ := shiftWord_eq x k
  refine ⟨result, ?_, hvalue⟩
  show (do shiftWord (toRaw x) (← shiftAmount "bitshift" 2 (bits t) number) t) = _
  rw [shiftAmount_eq h]
  exact (shiftWord_clamp _ _ _).trans hresult

theorem bitDistance_eq (hpos : 1 ≤ p)
    : bitDistance p = .ok (p - 1) :=
  if_neg (by omega)

theorem bitgetWord_eq (h : Is number p) (hpos : 1 ≤ p) (hle : p ≤ bits t) (x : t.Element)
    : ∃ result, bitgetWord (toRaw x) t [number] = .ok result ∧ fromRaw t result = flag t (bitAt x p) := by
  have hbits := bits_le t
  refine ⟨(toRaw x >>> (p - 1)) &&& 1#64, ?_, ?_⟩
  . show (do
      let position ← bitPosition "bitget" 2 (bits t) number
      let distance ← bitDistance position
      let shifted ← checkedShift distance (toRaw x >>> distance)
      return shifted &&& 1#64) = _
    rw [bitPosition_eq h hpos hle]
    show (do
      let distance ← bitDistance p
      let shifted ← checkedShift distance (toRaw x >>> distance)
      return shifted &&& 1#64) = _
    rw [bitDistance_eq hpos]
    show (do
      let shifted ← checkedShift (p - 1) (toRaw x >>> (p - 1))
      return shifted &&& 1#64) = _
    rw [checkedShift_eq_ok (by omega)]
    rfl
  . have hword : (toRaw x >>> (p - 1)) &&& 1#64 = if bitAt x p then 1#64 else 0#64 := by
      apply BitVec.eq_of_getLsbD_eq
      intro q hq
      rw [BitVec.getLsbD_and, BitVec.getLsbD_ushiftRight, getLsbD_toRaw, bitAt]
      rcases Nat.eq_zero_or_pos q with rfl | hqpos
      . rw [Nat.add_zero, decide_eq_true (by omega), Bool.true_and]
        split <;> simp [*]
      . split <;> simp [*] <;> omega
    rw [hword, flag, fromRaw]
    split <;> rfl

theorem bitsetWord_bits (hpos : 1 ≤ p) (hle : p ≤ bits t) (x : t.Element) (bit : Bool)
    : HasBit x p bit (fromRaw t (if bit then toRaw x ||| 1#64 <<< (p - 1) else toRaw x &&& ~~~(1#64 <<< (p - 1)))) := by
  intro q hqpos hqle
  have hbits := bits_le t
  have hmask : (1#64 <<< (p - 1)).getLsbD (q - 1) = decide (q = p) := by
    show (BitVec.twoPow 64 (p - 1)).getLsbD (q - 1) = _
    rw [BitVec.getLsbD_twoPow, decide_eq_true (by omega), Bool.true_and]
    congr 1
    apply propext
    omega
  rw [bitAt, testBit_fromRaw _ (by omega)]
  split
  . next hbit =>
    rw [BitVec.getLsbD_or, getLsbD_toRaw, hmask, decide_eq_true (by omega), Bool.true_and, hbit, bitAt]
    split <;> simp [*]
  . next hbit =>
    rw [BitVec.getLsbD_and, BitVec.getLsbD_not, getLsbD_toRaw, hmask, decide_eq_true (by omega), Bool.true_and,
      decide_eq_true (by omega), Bool.true_and, bitAt]
    split <;> simp [*]

theorem apply_bits (operation : BinaryOperation) (x y : t.Element)
    : operation.HasBits x y (fromRaw t (operation.apply (toRaw x) (toRaw y))) := by
  intro q hpos hle
  rw [bitAt, testBit_fromRaw _ (by omega)]
  cases operation <;>
    simp only [BinaryOperation.apply, BinaryOperation.onBits, BitVec.getLsbD_and, BitVec.getLsbD_or,
      BitVec.getLsbD_xor, getLsbD_toRaw, decide_eq_true (show q - 1 < bits t by omega), Bool.true_and, bitAt]

/-! Doubles. -/

section Doubles

theorem number_ofInt {x : t.Element} (h : Significant x.val)
    : (F64.ofInt x.val).decode.number = some (.rational x.val) := by
  apply F64.number_ofInt _ h.two_pow_log2_dvd
  have hle := bits_le t
  have hpow : (2 : Int) ^ bits t ≤ 2 ^ 64 := pow_le_pow_right₀ (by decide) hle
  have hpow' : (2 : Int) ^ (bits t - 1) ≤ 2 ^ 63 := pow_le_pow_right₀ (by decide) (by omega)
  rcases Bool.eq_false_or_eq_true t.signed with hsigned | hsigned
  . have := element_bounds_of_signed hsigned x
    omega
  . have := element_bounds_of_unsigned hsigned x
    omega

theorem significant_of_number {value : F64} {n : Int} (h : value.decode.number = some (.rational n))
    : Significant n :=
  Significant.of_number h

theorem significant_wrap {n : Int} (h : Significant n) (hsign : t.signed = true ∨ 0 ≤ n)
    : Significant (t.wrap n).val := by
  have hpos := bits_pos t
  rcases Bool.eq_false_or_eq_true t.signed with hsigned | hsigned
  . have hbounds := element_bounds_of_signed hsigned (t.wrap n)
    have hdouble : (2 : Int) ^ bits t = 2 * 2 ^ (bits t - 1) := by rw [← pow_succ', Nat.sub_add_cancel hpos]
    exact h.of_emod (wrap_emod n) hbounds.1 (by omega) (.inr ⟨hpos, rfl⟩)
  . have hbounds := element_bounds_of_unsigned hsigned (t.wrap n)
    have hnonneg : 0 ≤ n := hsign.resolve_left (by rw [hsigned]; decide)
    exact h.of_emod (wrap_emod n) hbounds.1 (by omega) (.inl ⟨rfl, hnonneg⟩)

theorem significant_shifted {x : t.Element} (h : Significant x.val) (k : Int)
    : Significant (t.wrap (shifted x.val k)).val := by
  have hsign : t.signed = true ∨ 0 ≤ x.val := by
    rcases Bool.eq_false_or_eq_true t.signed with hsigned | hsigned
    . exact .inl hsigned
    . exact .inr (element_bounds_of_unsigned hsigned x).1
  rcases Int.eq_nat_or_neg k with ⟨n, rfl | rfl⟩
  . rw [shifted_natCast]
    exact significant_wrap (h.mul_two_pow n) (hsign.imp_right fun h => mul_nonneg h (by positivity))
  . rw [shifted_neg_natCast]
    exact significant_wrap (h.ediv_two_pow n) (hsign.imp_right fun h => Int.ediv_nonneg h (by positivity))

theorem significant_flag (t : IntegerType) (bit : Bool)
    : Significant (flag t bit).val := by
  apply significant_wrap _ (.inr _)
  . apply Significant.of_abs_le
    split <;> decide
  . split <;> decide

/-- The conjunction of the words is that of the integers. -/
theorem fromRaw_and (x y : t.Element)
    : (fromRaw t (toRaw x &&& toRaw y)).val = x.val.land y.val := by
  have hmod : ((toRaw x &&& toRaw y).toNat : Int) % 2 ^ bits t = x.val.land y.val % 2 ^ bits t := by
    apply emod_congr
    intro p hp
    show (toRaw x &&& toRaw y).getLsbD p = _
    rw [BitVec.getLsbD_and, getLsbD_toRaw, getLsbD_toRaw, decide_eq_true hp, Int.testBit_land, Bool.true_and,
      Bool.true_and]
  rw [fromRaw_eq_wrap hmod]
  obtain ⟨hmin, hlt⟩ : t.minimum ≤ x.val.land y.val ∧ x.val.land y.val < t.bound := by
    have hland := @land_nonneg x.val y.val
    have hland' := @land_nonneg y.val x.val
    rw [land_comm y.val] at hland'
    rcases Bool.eq_false_or_eq_true t.signed with hsigned | hsigned
    . have hbounds := element_bounds_of_signed hsigned x
      have hbounds' := element_bounds_of_signed hsigned y
      have hneg := @land_neg x.val y.val (bits t - 1)
      rw [bounds_iff_of_signed hsigned]
      omega
    . have hbounds := element_bounds_of_unsigned hsigned x
      have hbounds' := element_bounds_of_unsigned hsigned y
      rw [bounds_iff_of_unsigned hsigned]
      omega
  exact IntegerType.wrap_val hmin (Int.le_sub_one_of_lt hlt)

end Doubles

end Bitwise
end Builtins
end OpenMat
