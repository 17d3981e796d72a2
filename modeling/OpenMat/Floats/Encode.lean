import OpenMat.Floats.Number
import Mathlib.Data.Nat.Cast.Field
import Mathlib.Data.Rat.Floor

/-!
This module contains the rounding of numbers to a floating point format, and to integers. A tie of two floating
point numbers goes to the even one, a tie of two integers to the one that is farther away from zero.
-/

namespace OpenMat
namespace Floats

/-- The quotient to the nearest integer, of two of them the even one. -/
def roundHalfEven (numerator denominator : Nat) : Nat :=
  let quotient := numerator / denominator
  let remainder := numerator % denominator
  if 2 * remainder < denominator ∨ (2 * remainder = denominator ∧ quotient % 2 = 0) then quotient else quotient + 1

namespace FloatFormat

variable {format : FloatFormat}

/-- All finite numbers are multiples of the least positive one, `2 ^ -leastScale`. -/
def leastScale (format : FloatFormat) : Nat := format.bias + format.fractionBits - 1

def infinityBits (format : FloatFormat) : Nat := (2 ^ format.exponentBits - 1) * 2 ^ format.fractionBits

/-- The exponent of the distance between the numbers around a number, from the least positive number on. -/
def spacing (format : FloatFormat) (numerator scale : Nat) : Nat :=
  Nat.log2 (numerator * 2 ^ format.leastScale / 2 ^ scale) - format.fractionBits

/-- The leading one of the significand adds to the exponent, also where the rounding carries. -/
def magnitudeBits (format : FloatFormat) (numerator scale : Nat) : Nat :=
  let exponent := format.spacing numerator scale
  min (exponent * 2 ^ format.fractionBits +
    roundHalfEven (numerator * 2 ^ format.leastScale) (2 ^ (scale + exponent))) format.infinityBits

def signed (format : FloatFormat) (negative : Bool) (magnitude : Nat) : Nat :=
  negative.toNat * 2 ^ (format.fractionBits + format.exponentBits) + magnitude

/-- What is not a number has one bit pattern. -/
def encode (format : FloatFormat) : FloatValue → Nat
  | .nan => format.infinityBits + 2 ^ (format.fractionBits - 1)
  | .infinite negative => format.signed negative format.infinityBits
  | .finite negative numerator scale => format.signed negative (format.magnitudeBits numerator scale)

theorem encode_lt (hfraction : 0 < format.fractionBits) (value : FloatValue)
    : format.encode value < 2 ^ (format.fractionBits + format.exponentBits + 1) := by
  have hpos := Nat.two_pow_pos format.exponentBits
  have hpos' := Nat.two_pow_pos format.fractionBits
  have hhalf : 2 ^ (format.fractionBits - 1) < 2 ^ format.fractionBits :=
    Nat.pow_lt_pow_right (by decide) (by omega)
  have hinfinity : format.infinityBits + 2 ^ format.fractionBits = 2 ^ (format.fractionBits + format.exponentBits) := by
    rw [infinityBits, ← Nat.succ_mul, Nat.succ_eq_add_one, Nat.sub_add_cancel hpos, pow_add, Nat.mul_comm]
  have hsigned : ∀ negative magnitude, magnitude ≤ format.infinityBits →
      format.signed negative magnitude < 2 ^ (format.fractionBits + format.exponentBits + 1) := by
    intro negative magnitude hle
    rw [signed, pow_succ]
    cases negative with
    | false => rw [Bool.toNat_false]; omega
    | true => rw [Bool.toNat_true]; omega
  cases value with
  | nan =>
    rw [encode, pow_succ]
    omega
  | infinite negative => exact hsigned _ _ le_rfl
  | finite negative numerator scale => exact hsigned _ _ (Nat.min_le_right _ _)

theorem decode_parts {negative : Bool} {exponent fraction : Nat} (hexponent : exponent < 2 ^ format.exponentBits)
    (hfraction : fraction < 2 ^ format.fractionBits)
    : format.decode (format.signed negative (exponent * 2 ^ format.fractionBits + fraction)) =
        if exponent = 2 ^ format.exponentBits - 1 then
          if fraction = 0 then .infinite negative else .nan
        else if exponent = 0 then
          .finite negative fraction (format.bias + format.fractionBits - 1)
        else
          .finite negative ((2 ^ format.fractionBits + fraction) *
            2 ^ (exponent - (format.bias + format.fractionBits))) (format.bias + format.fractionBits - exponent) := by
  have hpos := Nat.two_pow_pos format.fractionBits
  have hpos' := Nat.two_pow_pos format.exponentBits
  have hbits : format.signed negative (exponent * 2 ^ format.fractionBits + fraction) =
      (negative.toNat * 2 ^ format.exponentBits + exponent) * 2 ^ format.fractionBits + fraction := by
    rw [signed, pow_add]
    ring
  have hmod : format.signed negative (exponent * 2 ^ format.fractionBits + fraction) % 2 ^ format.fractionBits =
      fraction := by
    rw [hbits, Nat.mul_add_mod_of_lt hfraction]
  have hdiv : format.signed negative (exponent * 2 ^ format.fractionBits + fraction) / 2 ^ format.fractionBits =
      negative.toNat * 2 ^ format.exponentBits + exponent := by
    rw [hbits, Nat.mul_comm, Nat.mul_add_div hpos, Nat.div_eq_of_lt hfraction, Nat.add_zero]
  have hexp : (negative.toNat * 2 ^ format.exponentBits + exponent) % 2 ^ format.exponentBits = exponent :=
    Nat.mul_add_mod_of_lt hexponent
  have hneg : (negative.toNat * 2 ^ format.exponentBits + exponent) / 2 ^ format.exponentBits = negative.toNat := by
    rw [Nat.mul_comm, Nat.mul_add_div hpos', Nat.div_eq_of_lt hexponent, Nat.add_zero]
  have hsign : decide (negative.toNat % 2 = 1) = negative := by cases negative <;> rfl
  simp only [decode, hmod, hdiv, hexp, pow_add, ← Nat.div_div_eq_div_mul, hneg, hsign]

/-- What a number with the given significand and spacing is. -/
theorem number_decode_signed {negative : Bool} {significand exponent : Nat} (hbias : 0 < format.bias)
    (hlt : significand < 2 ^ (format.fractionBits + 1)) (hnormal : exponent = 0 ∨ 2 ^ format.fractionBits ≤ significand)
    (hfits : exponent * 2 ^ format.fractionBits + significand < format.infinityBits)
    : (format.decode (format.signed negative (exponent * 2 ^ format.fractionBits + significand))).number =
        some (.rational (if negative then -(significand * 2 ^ exponent / 2 ^ format.leastScale : ℚ)
          else significand * 2 ^ exponent / 2 ^ format.leastScale)) := by
  rw [infinityBits] at hfits
  rcases Nat.lt_or_ge significand (2 ^ format.fractionBits) with hsub | hge
  . have hzero : exponent = 0 := hnormal.resolve_right (by omega)
    subst hzero
    have hne : (0 : Nat) ≠ 2 ^ format.exponentBits - 1 := by
      intro h
      rw [← h] at hfits
      omega
    rw [decode_parts (Nat.two_pow_pos _) hsub, if_neg hne, if_pos rfl]
    simp [FloatValue.number, leastScale]
  . obtain ⟨fraction, rfl⟩ := Nat.exists_eq_add_of_le hge
    have hfraction : fraction < 2 ^ format.fractionBits := by
      rw [pow_succ] at hlt
      omega
    have hbits : exponent * 2 ^ format.fractionBits + (2 ^ format.fractionBits + fraction) =
        (exponent + 1) * 2 ^ format.fractionBits + fraction := by ring
    have hexponent : exponent + 1 < 2 ^ format.exponentBits - 1 := by
      rw [hbits] at hfits
      exact Nat.lt_of_mul_lt_mul_right (Nat.lt_of_le_of_lt (Nat.le_add_right _ _) hfits)
    rw [hbits, decode_parts (by omega) hfraction, if_neg hexponent.ne, if_neg (Nat.succ_ne_zero _)]
    -- one of the two powers of the decoded number is one
    have hpowers : ((2 : ℚ) ^ (exponent + 1 - (format.bias + format.fractionBits))) * 2 ^ format.leastScale =
        2 ^ exponent * 2 ^ (format.bias + format.fractionBits - (exponent + 1)) := by
      rw [← pow_add, ← pow_add, leastScale]
      congr 1
      omega
    have hquotient : ((2 ^ format.fractionBits + fraction : ℚ) *
          2 ^ (exponent + 1 - (format.bias + format.fractionBits))) /
        2 ^ (format.bias + format.fractionBits - (exponent + 1)) =
          (2 ^ format.fractionBits + fraction) * 2 ^ exponent / 2 ^ format.leastScale := by
      rw [div_eq_div_iff (by positivity) (by positivity), mul_assoc, hpowers]
      ring
    simp only [FloatValue.number]
    push_cast
    rw [hquotient]

theorem significand_bounds {numerator scale : Nat} {exponent : Nat}
    (hexponent : exponent = format.spacing numerator scale)
    : numerator * 2 ^ format.leastScale / 2 ^ (scale + exponent) < 2 ^ (format.fractionBits + 1) ∧
        (exponent = 0 ∨
          2 ^ format.fractionBits ≤ numerator * 2 ^ format.leastScale / 2 ^ (scale + exponent)) := by
  rw [pow_add, ← Nat.div_div_eq_div_mul]
  rw [spacing] at hexponent
  generalize numerator * 2 ^ format.leastScale / 2 ^ scale = units at hexponent
  have hlt : units < 2 ^ (Nat.log2 units + 1) := Nat.lt_log2_self
  constructor
  . rw [Nat.div_lt_iff_lt_mul (Nat.two_pow_pos _), ← pow_add]
    exact Nat.lt_of_lt_of_le hlt (Nat.pow_le_pow_right Nat.two_pos (by omega))
  . rcases Nat.eq_zero_or_pos exponent with hzero | hpos
    . exact .inl hzero
    . right
      have hne : units ≠ 0 := by
        rintro rfl
        rw [Nat.log2_zero] at hexponent
        omega
      have hle : 2 ^ Nat.log2 units ≤ units := Nat.log2_self_le hne
      rw [Nat.le_div_iff_mul_le (Nat.two_pow_pos _), ← pow_add]
      have hsum : format.fractionBits + exponent = Nat.log2 units := by omega
      rwa [hsum]

theorem roundHalfEven_of_dvd {numerator denominator : Nat} (hpos : 0 < denominator) (h : denominator ∣ numerator)
    : roundHalfEven numerator denominator = numerator / denominator := by
  rw [roundHalfEven, Nat.mod_eq_zero_of_dvd h]
  exact if_pos (.inl (by omega))

/-- A number whose significand has no more bits than there are is not rounded. -/
theorem number_decode_encode {negative : Bool} {numerator scale : Nat} (hbias : 0 < format.bias)
    (hdvd : 2 ^ (scale + format.spacing numerator scale) ∣ numerator * 2 ^ format.leastScale)
    (hfits : format.spacing numerator scale * 2 ^ format.fractionBits + 2 ^ (format.fractionBits + 1) ≤
      format.infinityBits)
    : (format.decode (format.encode (.finite negative numerator scale))).number =
        (FloatValue.finite negative numerator scale).number := by
  obtain ⟨hlt, hnormal⟩ := @significand_bounds format numerator scale _ rfl
  have hless : format.spacing numerator scale * 2 ^ format.fractionBits +
      numerator * 2 ^ format.leastScale / 2 ^ (scale + format.spacing numerator scale) < format.infinityBits := by omega
  have hmagnitude : format.magnitudeBits numerator scale = format.spacing numerator scale * 2 ^ format.fractionBits +
      numerator * 2 ^ format.leastScale / 2 ^ (scale + format.spacing numerator scale) := by
    rw [magnitudeBits, roundHalfEven_of_dvd (Nat.two_pow_pos _) hdvd]
    exact Nat.min_eq_left hless.le
  rw [encode, hmagnitude, number_decode_signed hbias hlt hnormal hless]
  have hvalue : ((numerator * 2 ^ format.leastScale / 2 ^ (scale + format.spacing numerator scale) : Nat) *
      2 ^ format.spacing numerator scale / 2 ^ format.leastScale : ℚ) = numerator / 2 ^ scale := by
    rw [Nat.cast_div hdvd (by positivity), div_eq_div_iff (by positivity) (by positivity)]
    push_cast
    field_simp
    ring
  rw [FloatValue.number, hvalue]

theorem log2_mul_two_pow {n : Nat} (hpos : 0 < n) (k : Nat)
    : Nat.log2 (n * 2 ^ k) = Nat.log2 n + k := by
  rw [Nat.log2_eq_iff (Nat.mul_pos hpos (Nat.two_pow_pos k)).ne']
  have hle := Nat.log2_self_le hpos.ne'
  have hlt := @Nat.lt_log2_self n
  constructor
  . rw [pow_add]
    exact Nat.mul_le_mul_right _ hle
  . rw [Nat.add_right_comm, pow_add]
    exact Nat.mul_lt_mul_of_pos_right hlt (Nat.two_pow_pos k)

/-- Integers with no more significant bits than a double has are exact. -/
theorem double_number_decode_encode {negative : Bool} {n : Nat} (hlt : n < 2 ^ 64) (hdvd : 2 ^ (Nat.log2 n - 52) ∣ n)
    : (double.decode (double.encode (.finite negative n 0))).number = (FloatValue.finite negative n 0).number := by
  have hscale : double.leastScale = 1074 := rfl
  have hspacing : double.spacing n 0 = (if n = 0 then 0 else Nat.log2 n + double.leastScale - 52) := by
    rw [spacing, pow_zero, Nat.div_one]
    split
    . next hzero => rw [hzero, Nat.zero_mul, Nat.log2_zero, Nat.zero_sub]
    . next hne => rw [log2_mul_two_pow (Nat.pos_of_ne_zero hne)]; rfl
  have hlog : n ≠ 0 → Nat.log2 n < 64 := fun hne => (Nat.log2_lt hne).mpr hlt
  apply number_decode_encode (by decide)
  . rw [hspacing, Nat.zero_add]
    split
    . exact one_dvd _
    . rcases Nat.le_total (Nat.log2 n) 52 with hle | hge
      . exact Dvd.dvd.mul_left (pow_dvd_pow 2 (by omega)) n
      . have hsum : Nat.log2 n + double.leastScale - 52 = (Nat.log2 n - 52) + double.leastScale := by omega
        rw [hsum, pow_add]
        exact Nat.mul_dvd_mul_right hdvd _
  . have hle : double.spacing n 0 ≤ 1086 := by
      rw [hspacing]
      split <;> omega
    calc double.spacing n 0 * 2 ^ 52 + 2 ^ 53 ≤ 1086 * 2 ^ 52 + 2 ^ 53 :=
        Nat.add_le_add_right (Nat.mul_le_mul_right _ hle) _
      _ ≤ double.infinityBits := by decide

end FloatFormat

namespace FloatValue

/-- The integer nearest to a number, of two of them the one farther away from zero. -/
def roundAway : FloatValue → Int
  | .nan | .infinite _ => 0
  | .finite negative numerator scale =>
    let magnitude := (2 * numerator + 2 ^ scale) / 2 ^ (scale + 1)
    if negative then -magnitude else magnitude

def le : FloatValue → FloatValue → Bool
  | .nan, _ | _, .nan => false
  | .infinite true, _ | _, .infinite false => true
  | .infinite false, _ | _, .infinite true => false
  | .finite negative numerator scale, .finite negative' numerator' scale' =>
    (if negative then -(numerator : Int) else numerator) * 2 ^ scale' ≤
      (if negative' then -(numerator' : Int) else numerator') * 2 ^ scale

end FloatValue

/-- The nearest integer of a rational, halves away from zero. -/
def roundHalfAway (q : ℚ) : Int := if 0 ≤ q then ⌊q + 1 / 2⌋ else -⌊-q + 1 / 2⌋

theorem roundHalfAway_neg (q : ℚ)
    : roundHalfAway (-q) = -roundHalfAway q := by
  rcases lt_trichotomy q 0 with hneg | rfl | hpos
  . rw [roundHalfAway, roundHalfAway, if_pos (by linarith), if_neg (by linarith), neg_neg]
  . rw [neg_zero, roundHalfAway, if_pos le_rfl]
    norm_num
  . rw [roundHalfAway, roundHalfAway, if_neg (by linarith), if_pos hpos.le, neg_neg]

namespace FloatValue

variable {value other : FloatValue} {q r : ℚ}

/-- A number with a rational value is a signed fraction. -/
theorem exists_finite_of_number (h : value.number = some (.rational q))
    : ∃ negative numerator scale, value = .finite negative numerator scale ∧
        q = (if negative then -(numerator : Int) else numerator : Int) / 2 ^ scale := by
  cases value with
  | nan => cases h
  | infinite negative => cases h
  | finite negative numerator scale =>
    rw [number, Option.some.injEq, Number.rational.injEq] at h
    refine ⟨negative, numerator, scale, rfl, ?_⟩
    rw [← h]
    cases negative <;> simp [neg_div]

theorem roundAway_eq (h : value.number = some (.rational q))
    : value.roundAway = roundHalfAway q := by
  obtain ⟨negative, numerator, scale, rfl, rfl⟩ := exists_finite_of_number h
  have hmagnitude : (((2 * numerator + 2 ^ scale) / 2 ^ (scale + 1) : Nat) : Int) =
      ⌊(numerator : ℚ) / 2 ^ scale + 1 / 2⌋ := by
    have hfraction : (numerator : ℚ) / 2 ^ scale + 1 / 2 =
        ((2 * numerator + 2 ^ scale : Nat) : ℚ) / ((2 ^ (scale + 1) : Nat) : ℚ) := by
      push_cast
      rw [pow_succ]
      field_simp
    rw [hfraction, Rat.floor_natCast_div_natCast]
    push_cast
    rfl
  have hpositive : ((2 * numerator + 2 ^ scale) / 2 ^ (scale + 1) : Nat) =
      roundHalfAway ((numerator : ℚ) / 2 ^ scale) := by
    rw [roundHalfAway, if_pos (div_two_pow_nonneg _ _), hmagnitude]
  cases negative with
  | false => simpa [roundAway] using hpositive
  | true =>
    simp only [roundAway, if_true]
    push_cast
    rw [neg_div, roundHalfAway_neg, ← hpositive]
    push_cast
    rfl

theorem le_iff (h : value.number = some (.rational q)) (hother : other.number = some (.rational r))
    : value.le other = true ↔ q ≤ r := by
  obtain ⟨negative, numerator, scale, rfl, rfl⟩ := exists_finite_of_number h
  obtain ⟨negative', numerator', scale', rfl, rfl⟩ := exists_finite_of_number hother
  rw [le, decide_eq_true_iff, div_le_div_iff₀ (by positivity) (by positivity)]
  norm_cast

end FloatValue

end Floats
end OpenMat
