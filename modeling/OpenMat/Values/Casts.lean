import OpenMat.Floats.Encode
import OpenMat.Values.Value

/-!
This module contains the conversions of numeric elements, and that the ones to integers round to the nearest
integer of the type.
-/

namespace OpenMat
namespace Values

open Floats (FloatFormat FloatValue Number roundHalfAway)

def F32.decode (x : F32) : FloatValue := FloatFormat.single.decode x.toNat

def F64.decode (x : F64) : FloatValue := FloatFormat.double.decode x.toNat

def F32.encode (value : FloatValue) : F32 := BitVec.ofNat 32 (FloatFormat.single.encode value)

def F64.encode (value : FloatValue) : F64 := BitVec.ofNat 64 (FloatFormat.double.encode value)

def integerValue (value : Int) : FloatValue := .finite (value < 0) value.natAbs 0

def F64.ofInt (value : Int) : F64 := F64.encode (integerValue value)

def F64.ofF32 (x : F32) : F64 := F64.encode x.decode

def F32.ofF64 (x : F64) : F32 := F32.encode x.decode

theorem F64.decode_encode_value (value : FloatValue)
    : (F64.encode value).decode = FloatFormat.double.decode (FloatFormat.double.encode value) := by
  have hlt : FloatFormat.double.encode value < 2 ^ 64 := FloatFormat.double.encode_lt (by decide) value
  rw [F64.decode, F64.encode, BitVec.toNat_ofNat, Nat.mod_eq_of_lt hlt]

/-- An integer with no more significant bits than a double has is exact. -/
theorem F64.number_ofInt {value : Int} (hlt : value.natAbs < 2 ^ 64)
    (hdvd : 2 ^ (Nat.log2 value.natAbs - 52) ∣ value.natAbs)
    : (F64.ofInt value).decode.number = some (.rational value) := by
  rw [F64.ofInt, F64.decode_encode_value, integerValue, FloatFormat.double_number_decode_encode hlt hdvd,
    FloatValue.number_finite_eq_int_iff, pow_zero, mul_one]
  rcases lt_or_ge value 0 with hneg | hnonneg
  . rw [decide_eq_true hneg, if_pos rfl]
    omega
  . rw [decide_eq_false (not_lt.mpr hnonneg), if_neg (by simp)]
    omega

/-- A component of a number that is converted. -/
inductive SourceComponent where
  | signed (value : Int)
  | unsigned (value : Nat)
  | float (value : F64)

namespace IntegerType

def maximum (t : IntegerType) : Int := t.bound - 1

theorem minimum_le_maximum (t : IntegerType)
    : t.minimum ≤ t.maximum := by
  cases t <;> decide

theorem bound_eq (t : IntegerType)
    : t.bound = t.minimum + 2 ^ (8 * t.bytes) := by
  cases t <;> decide

/-- The conversion between integers, which keeps the low bits. -/
def wrap (t : IntegerType) (value : Int) : t.Element :=
  ⟨(value - t.minimum) % 2 ^ (8 * t.bytes) + t.minimum, by
    have hpos : (0 : Int) < 2 ^ (8 * t.bytes) := by positivity
    have hnonneg := Int.emod_nonneg (value - t.minimum) hpos.ne'
    have hlt := Int.emod_lt_of_pos (value - t.minimum) hpos
    rw [bound_eq]
    omega⟩

theorem wrap_val {t : IntegerType} {value : Int} (hmin : t.minimum ≤ value) (hmax : value ≤ t.maximum)
    : (t.wrap value).val = value := by
  rw [maximum, bound_eq] at hmax
  show (value - t.minimum) % 2 ^ (8 * t.bytes) + t.minimum = value
  rw [Int.emod_eq_of_lt (by omega) (by omega)]
  omega

/-! The conversion of a component. -/

def isNan : FloatValue → Bool
  | .nan => true
  | .infinite _ | .finite _ _ _ => false

def convertSigned (t : IntegerType) : SourceComponent → Int
  | .signed value => max t.minimum (min value t.maximum)
  | .unsigned value => if value < 2 ^ 127 then min value t.maximum else t.maximum
  | .float value =>
    if isNan value.decode then
      0
    else if value.decode.le (F64.ofInt t.minimum).decode then
      t.minimum
    else if (F64.ofInt t.maximum).decode.le value.decode then
      t.maximum
    else
      value.decode.roundAway

def convertUnsigned (t : IntegerType) : SourceComponent → Int
  | .signed value => if 0 ≤ value then min value t.maximum else min 0 t.maximum
  | .unsigned value => min value t.maximum
  | .float value =>
    if isNan value.decode || value.decode.le (F64.ofInt 0).decode then
      0
    else if (F64.ofInt t.maximum).decode.le value.decode then
      t.maximum
    else
      value.decode.roundAway

def convert (t : IntegerType) (value : SourceComponent) : t.Element :=
  t.wrap (if t.signed then t.convertSigned value else t.convertUnsigned value)

/-- The nearest integer of the type. -/
def saturate (t : IntegerType) (value : Int) : Int := max t.minimum (min value t.maximum)

theorem saturate_bounds (t : IntegerType) (value : Int)
    : t.minimum ≤ t.saturate value ∧ t.saturate value ≤ t.maximum := by
  have := t.minimum_le_maximum
  rw [saturate]
  omega

theorem saturate_of_bounds {t : IntegerType} {value : Int} (hmin : t.minimum ≤ value) (hmax : value ≤ t.maximum)
    : t.saturate value = value := by
  rw [saturate]
  omega

theorem maximum_lt (t : IntegerType)
    : t.maximum < 2 ^ 64 := by
  cases t <;> decide

theorem maximum_nonneg (t : IntegerType)
    : 0 ≤ t.maximum := by
  cases t <;> decide

theorem minimum_of_unsigned {t : IntegerType} (h : t.signed = false)
    : t.minimum = 0 := by
  rw [minimum, h]
  rfl

theorem convert_signed (t : IntegerType) (value : Int)
    : (t.convert (.signed value)).val = t.saturate value := by
  have hbounds := t.saturate_bounds value
  have hvalue : (if t.signed then t.convertSigned (.signed value) else t.convertUnsigned (.signed value)) =
      t.saturate value := by
    split
    . rfl
    . next hsigned =>
      have hmin := minimum_of_unsigned (Bool.eq_false_of_not_eq_true hsigned)
      have hle := t.minimum_le_maximum
      rw [saturate, convertUnsigned, hmin] at *
      split <;> omega
  rw [convert, hvalue]
  exact wrap_val hbounds.1 hbounds.2

theorem convert_unsigned (t : IntegerType) (value : Nat)
    : (t.convert (.unsigned value)).val = t.saturate value := by
  have hbounds := t.saturate_bounds value
  have hlt := t.maximum_lt
  have hnonneg := t.maximum_nonneg
  have hvalue : (if t.signed then t.convertSigned (.unsigned value) else t.convertUnsigned (.unsigned value)) =
      t.saturate value := by
    split
    . next hsigned =>
      have hmin : t.minimum ≤ 0 := by
        rw [minimum, if_pos hsigned]
        have : (0 : Int) < 2 ^ (8 * t.bytes - 1) := by positivity
        omega
      rw [saturate, convertSigned]
      split <;> omega
    . next hsigned =>
      have hmin := minimum_of_unsigned (Bool.eq_false_of_not_eq_true hsigned)
      rw [saturate, convertUnsigned, hmin] at *
      omega
  rw [convert, hvalue]
  exact wrap_val hbounds.1 hbounds.2

/-! Floating point numbers. -/

/-- The integer of the type that is nearest to a number. -/
def nearest (t : IntegerType) : Option Number → Int
  | none => 0
  | some (.infinite negative) => if negative then t.minimum else t.maximum
  | some (.rational q) => t.saturate (roundHalfAway q)

theorem le_roundHalfAway {k : Int} {q : ℚ} (h : (k : ℚ) ≤ q)
    : k ≤ roundHalfAway q := by
  rw [roundHalfAway]
  split
  . exact Int.le_floor.mpr (by linarith)
  . next hneg =>
    have hle : ⌊-q + 1 / 2⌋ ≤ -k := by
      rw [Int.floor_le_iff]
      push_cast
      linarith
    omega

theorem roundHalfAway_le {k : Int} {q : ℚ} (h : q ≤ k)
    : roundHalfAway q ≤ k := by
  have hneg := @le_roundHalfAway (-k) (-q) (by push_cast; linarith)
  rw [Floats.roundHalfAway_neg] at hneg
  omega

theorem roundHalfAway_intCast (k : Int)
    : roundHalfAway k = k :=
  le_antisymm (roundHalfAway_le le_rfl) (le_roundHalfAway le_rfl)

/-- A double is an integer or less than `2 ^ 53`. -/
theorem double_integer_or_small {x : F64} {negative : Bool} {numerator scale : Nat}
    (h : x.decode = .finite negative numerator scale)
    : scale = 0 ∨ numerator < 2 ^ 53 := by
  rw [F64.decode, FloatFormat.decode] at h
  have hfraction : x.toNat % 2 ^ 52 < 2 ^ 52 := Nat.mod_lt _ (by decide)
  split at h
  . split at h <;> cases h
  . split at h
    . cases h
      right
      show x.toNat % 2 ^ 52 < 2 ^ 53
      omega
    . cases h
      rcases Nat.le_total (x.toNat / 2 ^ 52 % 2 ^ 11) 1075 with hle | hge
      . right
        show (2 ^ 52 + x.toNat % 2 ^ 52) * 2 ^ (x.toNat / 2 ^ 52 % 2 ^ 11 - 1075) < 2 ^ 53
        rw [Nat.sub_eq_zero_of_le hle]
        omega
      . exact .inl (Nat.sub_eq_zero_of_le hge)

theorem number_minimum (t : IntegerType)
    : (F64.ofInt t.minimum).decode.number = some (.rational t.minimum) := by
  apply F64.number_ofInt <;> cases t <;> decide

/-- The greatest integers of 64 bits are rounded up to the next power of two. -/
def maximumDouble (t : IntegerType) : Int := if t.bytes = 8 then t.bound else t.maximum

theorem maximum_le_maximumDouble (t : IntegerType)
    : t.maximum ≤ t.maximumDouble := by
  cases t <;> decide

theorem number_maximum (t : IntegerType)
    : (F64.ofInt t.maximum).decode.number = some (.rational t.maximumDouble) := by
  rcases em (t.bytes = 8) with height | hsmall
  . have hdecode : (F64.ofInt t.maximum).decode = .finite false t.bound.natAbs 0 := by
      rw [F64.ofInt, F64.decode_encode_value]
      cases t <;> first | exact absurd height (by decide) | decide +kernel
    rw [hdecode, FloatValue.number_finite_eq_int_iff]
    cases t <;> first | exact absurd height (by decide) | rfl
  . rw [maximumDouble, if_neg hsmall]
    apply F64.number_ofInt <;> cases t <;> first | exact absurd rfl hsmall | decide

theorem nearest_bounds (t : IntegerType) (number : Option Number)
    : t.minimum ≤ t.nearest number ∧ t.nearest number ≤ t.maximum := by
  have hle := t.minimum_le_maximum
  have hnonneg := t.maximum_nonneg
  have hmin : t.minimum ≤ 0 := by cases t <;> decide
  match number with
  | none => exact ⟨hmin, hnonneg⟩
  | some (.infinite true) => exact ⟨le_rfl, hle⟩
  | some (.infinite false) => exact ⟨hle, le_rfl⟩
  | some (.rational q) => exact t.saturate_bounds _

/-- Below the greatest integer as a double, a double rounds to an integer of the type. -/
theorem roundHalfAway_le_maximum {t : IntegerType} {x : F64} {q : ℚ} (h : x.decode.number = some (.rational q))
    (hlt : q < t.maximumDouble)
    : roundHalfAway q ≤ t.maximum := by
  rw [maximumDouble] at hlt
  split at hlt
  . next height =>
    obtain ⟨negative, numerator, scale, hx, rfl⟩ := FloatValue.exists_finite_of_number h
    rcases double_integer_or_small hx with rfl | hsmall
    . rw [pow_zero, div_one] at hlt ⊢
      rw [roundHalfAway_intCast, maximum]
      have := Int.cast_lt.mp hlt
      omega
    . have hmaximum : (2 ^ 53 : Int) ≤ t.maximum := by
        cases t <;> first | exact absurd height (by decide) | decide
      refine le_trans (roundHalfAway_le ?_) hmaximum
      have hnumerator : (if negative then -(numerator : Int) else numerator) ≤ numerator := by
        split <;> omega
      have hone : (1 : ℚ) ≤ 2 ^ scale := one_le_pow₀ one_le_two
      rw [div_le_iff₀ (by positivity)]
      have hcast : (((if negative then -(numerator : Int) else numerator : Int)) : ℚ) ≤ (numerator : Int) :=
        Int.cast_le.mpr hnumerator
      have hbound : ((numerator : Int) : ℚ) ≤ ((2 ^ 53 : Int) : ℚ) := by exact_mod_cast hsmall.le
      have hmul : ((2 ^ 53 : Int) : ℚ) ≤ ((2 ^ 53 : Int) : ℚ) * 2 ^ scale := le_mul_of_one_le_right (by norm_num) hone
      linarith
  . exact roundHalfAway_le hlt.le

theorem number_zero
    : (F64.ofInt 0).decode.number = some (.rational (0 : Int)) :=
  F64.number_ofInt (by decide) (by decide)

/-- The comparisons with the bounds decide whether the number is clamped. -/
theorem convert_rational {t : IntegerType} {value : F64} {q : ℚ} (hq : value.decode.number = some (.rational q))
    : (if t.signed then
          if false = true then 0
          else if value.decode.le (F64.ofInt t.minimum).decode then t.minimum
          else if (F64.ofInt t.maximum).decode.le value.decode then t.maximum
          else value.decode.roundAway
        else if (false || value.decode.le (F64.ofInt 0).decode) then 0
          else if (F64.ofInt t.maximum).decode.le value.decode then t.maximum
          else value.decode.roundAway) = t.nearest (some (.rational q)) := by
  have hle := t.minimum_le_maximum
  have hmaximum : ((t.maximum : Int) : ℚ) ≤ t.maximumDouble := Int.cast_le.mpr t.maximum_le_maximumDouble
  simp only [FloatValue.le_iff hq t.number_minimum, FloatValue.le_iff t.number_maximum hq,
    FloatValue.le_iff hq number_zero, Bool.false_or, Bool.false_eq_true, if_false, FloatValue.roundAway_eq hq]
  have hlower : ∀ low : Int, low = t.minimum → (if q ≤ low then low
      else if (t.maximumDouble : ℚ) ≤ q then t.maximum else roundHalfAway q) = t.nearest (some (.rational q)) := by
    rintro low rfl
    rw [nearest, saturate]
    split
    . next hlow =>
      have := roundHalfAway_le hlow
      omega
    . next hlow =>
      have hround := le_roundHalfAway (not_le.mp hlow).le
      split
      . next hhigh =>
        have := le_roundHalfAway (hmaximum.trans hhigh)
        omega
      . next hhigh =>
        have := roundHalfAway_le_maximum hq (not_le.mp hhigh)
        omega
  split
  . exact hlower _ rfl
  . next hsigned => exact hlower 0 (minimum_of_unsigned (Bool.eq_false_of_not_eq_true hsigned)).symm

theorem convert_float (t : IntegerType) (value : F64)
    : (t.convert (.float value)).val = t.nearest value.decode.number := by
  have hbounds := t.nearest_bounds value.decode.number
  have hvalue : (if t.signed then t.convertSigned (.float value) else t.convertUnsigned (.float value)) =
      t.nearest value.decode.number := by
    cases hdecode : value.decode with
    | nan =>
      rw [convertSigned, convertUnsigned, hdecode]
      simp [isNan, FloatValue.number, nearest]
    | infinite negative =>
      obtain ⟨_, _, _, hmin, -⟩ := FloatValue.exists_finite_of_number t.number_minimum
      obtain ⟨_, _, _, hmax, -⟩ := FloatValue.exists_finite_of_number t.number_maximum
      obtain ⟨_, _, _, hzero, -⟩ := FloatValue.exists_finite_of_number number_zero
      rw [convertSigned, convertUnsigned, hdecode, hmin, hmax, hzero]
      cases hsigned : t.signed with
      | false =>
        have hzeroMin := minimum_of_unsigned hsigned
        cases negative <;> simp [isNan, FloatValue.le, FloatValue.number, nearest, hzeroMin]
      | true => cases negative <;> simp [isNan, FloatValue.le, FloatValue.number, nearest]
    | finite negative numerator scale =>
      obtain ⟨q, hq⟩ : ∃ q, value.decode.number = some (.rational q) := by
        rw [hdecode, FloatValue.number]
        exact ⟨_, rfl⟩
      have hnan : isNan value.decode = false := by rw [hdecode]; rfl
      rw [← hdecode, hq, convertSigned, convertUnsigned, hnan]
      exact convert_rational hq
  rw [convert, hvalue]
  exact wrap_val hbounds.1 hbounds.2

end IntegerType

end Values
end OpenMat
