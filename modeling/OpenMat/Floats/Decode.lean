import Mathlib.Algebra.Order.Ring.Nat

/-!
This module contains binary floating point formats: the number that a bit pattern stands for, and how this
number compares with integers.
-/

namespace OpenMat
namespace Floats

structure FloatFormat where
  exponentBits : Nat
  fractionBits : Nat

/-- The finite numbers are fractions whose denominator is a power of two. -/
inductive FloatValue where
  | nan
  | infinite (negative : Bool)
  | finite (negative : Bool) (numerator scale : Nat)
  deriving DecidableEq, Repr

namespace FloatFormat

def single : FloatFormat where
  exponentBits := 8
  fractionBits := 23

def double : FloatFormat where
  exponentBits := 11
  fractionBits := 52

def bias (format : FloatFormat) : Nat := 2 ^ (format.exponentBits - 1) - 1

def decode (format : FloatFormat) (bits : Nat) : FloatValue :=
  let fraction := bits % 2 ^ format.fractionBits
  let exponent := bits / 2 ^ format.fractionBits % 2 ^ format.exponentBits
  let negative := decide (bits / 2 ^ (format.fractionBits + format.exponentBits) % 2 = 1)
  let scale := format.bias + format.fractionBits
  if exponent = 2 ^ format.exponentBits - 1 then
    if fraction = 0 then .infinite negative else .nan
  else if exponent = 0 then
    -- the subnormal numbers have the exponent of the least normal ones, and no leading one
    .finite negative fraction (scale - 1)
  else
    -- one of the differences is zero
    .finite negative ((2 ^ format.fractionBits + fraction) * 2 ^ (exponent - scale)) (scale - exponent)

end FloatFormat

namespace FloatValue

def isFinite : FloatValue → Bool
  | .finite _ _ _ => true
  | .nan | .infinite _ => false

/-- Whether the difference to the truncated number differs from zero. -/
def hasFraction : FloatValue → Bool
  | .finite _ numerator scale => numerator % 2 ^ scale ≠ 0
  | .nan | .infinite _ => true

/-- The comparison with zero. -/
def isNonPositive : FloatValue → Bool
  | .nan => false
  | .infinite negative => negative
  | .finite negative numerator _ => negative || numerator = 0

/-- The comparison with a positive integer. -/
def isAtLeast (bound : Nat) : FloatValue → Bool
  | .nan => false
  | .infinite negative => !negative
  | .finite negative numerator scale => !negative && bound * 2 ^ scale ≤ numerator

/-- The conversion to unsigned integers, which rounds towards zero. -/
def truncate : FloatValue → Nat
  | .finite false numerator scale => numerator / 2 ^ scale
  | .finite true _ _ | .nan | .infinite _ => 0

/-- Whether a number is the given integer. -/
def Is (n : Nat) : FloatValue → Prop
  | .finite negative numerator scale => (negative = false ∨ numerator = 0) ∧ numerator = n * 2 ^ scale
  | .nan | .infinite _ => False

instance (n : Nat) : (value : FloatValue) → Decidable (value.Is n)
  | .finite negative numerator scale =>
    inferInstanceAs (Decidable ((negative = false ∨ numerator = 0) ∧ numerator = n * 2 ^ scale))
  | .nan | .infinite _ => inferInstanceAs (Decidable False)

variable {value : FloatValue} {n bound : Nat}

/-- A positive integer passes all checks, and is what is converted. -/
theorem is_iff (hpos : 0 < n)
    : value.Is n ↔
        value.isFinite = true ∧ value.hasFraction = false ∧ value.isNonPositive = false ∧
          value.truncate = n := by
  match value with
  | .nan => simp [Is, isFinite]
  | .infinite _ => simp [Is, isFinite]
  | .finite true numerator scale =>
    simp only [Is, isFinite, isNonPositive, Bool.true_or, Bool.true_eq_false, false_or, false_and,
      and_false, iff_false, not_and]
    rintro rfl
    have := Nat.mul_pos hpos (Nat.two_pow_pos scale)
    omega
  | .finite false numerator scale =>
    simp only [Is, isFinite, hasFraction, isNonPositive, truncate, true_or, true_and, Bool.false_or,
      decide_eq_false_iff_not, not_not]
    constructor
    . rintro rfl
      have := Nat.mul_pos hpos (Nat.two_pow_pos scale)
      exact ⟨Nat.mul_mod_left _ _, by omega, Nat.mul_div_left _ (Nat.two_pow_pos scale)⟩
    . rintro ⟨hmod, -, hdiv⟩
      rw [← hdiv, Nat.div_mul_cancel (Nat.dvd_of_mod_eq_zero hmod)]

theorem Is.isAtLeast_iff (h : value.Is n) (hpos : 0 < n)
    : value.isAtLeast bound = true ↔ bound ≤ n := by
  match value, h with
  | .finite negative numerator scale, ⟨hsign, hnumerator⟩ =>
    have hnumeratorPos := Nat.mul_pos hpos (Nat.two_pow_pos scale)
    have hnegative : negative = false := hsign.resolve_right (by omega)
    subst hnegative hnumerator
    simp only [isAtLeast, Bool.not_false, Bool.true_and, decide_eq_true_eq]
    exact Nat.mul_le_mul_right_iff (Nat.two_pow_pos scale)

theorem truncate_pos (hfinite : value.isFinite = true) (hfraction : value.hasFraction = false)
    (hpositive : value.isNonPositive = false)
    : 0 < value.truncate := by
  match value with
  | .finite true _ _ => simp [isNonPositive] at hpositive
  | .finite false numerator scale =>
    simp only [hasFraction, isNonPositive, Bool.false_or, decide_eq_false_iff_not, not_not] at hfraction hpositive
    exact Nat.div_pos (Nat.le_of_dvd (by omega) (Nat.dvd_of_mod_eq_zero hfraction)) (Nat.two_pow_pos scale)

example : (FloatFormat.double.decode 0x4010000000000000).truncate = 4 := by decide

example : (FloatFormat.single.decode 0x3f000000).hasFraction = true := by decide

end FloatValue

end Floats
end OpenMat
