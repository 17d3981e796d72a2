import OpenMat.Floats.Decode
import Mathlib.Algebra.Order.Field.Rat
import Mathlib.Tactic.Ring
import Mathlib.Tactic.Linarith
import Mathlib.Tactic.FieldSimp

/-!
This module contains the comparison of floating point numbers, and the mathematical numbers that it compares.
-/

namespace OpenMat
namespace Floats

inductive Number where
  | infinite (negative : Bool)
  | rational (value : ℚ)
  deriving DecidableEq

namespace FloatValue

/-- The comparison of the language: a signed zero equals the other one, and what is not a number equals nothing. -/
def equal : FloatValue → FloatValue → Bool
  | .nan, _ | _, .nan => false
  | .infinite negative, .infinite negative' => negative == negative'
  | .infinite _, .finite _ _ _ | .finite _ _ _, .infinite _ => false
  | .finite negative numerator scale, .finite negative' numerator' scale' =>
    numerator * 2 ^ scale' == numerator' * 2 ^ scale && (negative == negative' || numerator == 0)

def isNonNegative : FloatValue → Bool
  | .nan => false
  | .infinite negative => !negative
  | .finite negative numerator _ => !negative || numerator = 0

/-- The comparison with a negative integer. -/
def isBelowMinus (bound : Nat) : FloatValue → Bool
  | .nan => false
  | .infinite negative => negative
  | .finite negative numerator scale => negative && bound * 2 ^ scale < numerator

/-- The magnitude of the conversion to signed integers, which rounds towards zero. -/
def truncateMagnitude : FloatValue → Nat
  | .finite _ numerator scale => numerator / 2 ^ scale
  | .nan | .infinite _ => 0

def number : FloatValue → Option Number
  | .nan => none
  | .infinite negative => some (.infinite negative)
  | .finite negative numerator scale =>
    some (.rational (if negative then -(numerator / 2 ^ scale) else numerator / 2 ^ scale))

variable {a b : FloatValue} {negative negative' : Bool} {numerator numerator' scale scale' : Nat}

theorem div_two_pow_eq_iff
    : (numerator : ℚ) / 2 ^ scale = numerator' / 2 ^ scale' ↔
        numerator * 2 ^ scale' = numerator' * 2 ^ scale := by
  rw [div_eq_div_iff (by positivity) (by positivity)]
  norm_cast

theorem div_two_pow_eq_zero_iff
    : (numerator : ℚ) / 2 ^ scale = 0 ↔ numerator = 0 := by
  rw [div_eq_zero_iff, or_iff_left (pow_ne_zero scale two_ne_zero)]
  norm_cast

theorem div_two_pow_nonneg (numerator scale : Nat)
    : (0 : ℚ) ≤ numerator / 2 ^ scale :=
  div_nonneg (Nat.cast_nonneg _) (pow_nonneg zero_le_two _)

theorem equal_finite_iff
    : equal (.finite negative numerator scale) (.finite negative' numerator' scale') = true ↔
        number (.finite negative numerator scale) = number (.finite negative' numerator' scale') := by
  have hleft := div_two_pow_nonneg numerator scale
  have hright := div_two_pow_nonneg numerator' scale'
  have hzero := @div_two_pow_eq_zero_iff numerator scale
  have hiff := @div_two_pow_eq_iff numerator numerator' scale scale'
  simp only [equal, number, Bool.and_eq_true, Bool.or_eq_true, beq_iff_eq, Option.some.injEq,
    Number.rational.injEq, ← hiff, ← hzero]
  cases negative <;> cases negative' <;> simp only [if_true, Bool.false_eq_true, if_false, true_or, and_true,
    Bool.true_eq_false, false_or]
  . constructor
    . rintro ⟨heq, hz⟩
      linarith
    . intro heq
      constructor <;> linarith
  . constructor
    . rintro ⟨heq, hz⟩
      linarith
    . intro heq
      constructor <;> linarith
  . exact ⟨fun h => by rw [h], fun h => by linarith⟩

/-- The comparison is the one of the numbers. -/
theorem equal_iff
    : a.equal b = true ↔ ∃ m, a.number = some m ∧ b.number = some m := by
  match a, b with
  | .nan, _ => simp [equal, number]
  | .infinite _, .nan => simp [equal, number]
  | .finite _ _ _, .nan => simp [equal, number]
  | .infinite negative, .infinite negative' =>
    simp only [equal, number, beq_iff_eq, Option.some.injEq, exists_eq_left', Number.infinite.injEq]
    exact eq_comm
  | .infinite _, .finite _ _ _ => simp [equal, number]
  | .finite _ _ _, .infinite _ => simp [equal, number]
  | .finite negative numerator scale, .finite negative' numerator' scale' =>
    rw [equal_finite_iff]
    constructor
    . intro h
      exact ⟨_, h, rfl⟩
    . rintro ⟨m, hm, hm'⟩
      exact hm.trans hm'.symm

/-- A finite number is an integer where its numerator is a multiple of its denominator. -/
theorem number_finite_eq_int_iff {k : Int}
    : number (.finite negative numerator scale) = some (.rational k) ↔
        (if negative then -(numerator : Int) else numerator) = k * 2 ^ scale := by
  have hpos : (0 : ℚ) < 2 ^ scale := by positivity
  rw [number, Option.some.injEq, Number.rational.injEq]
  cases negative <;> simp only [if_true, Bool.false_eq_true, if_false]
  . rw [div_eq_iff hpos.ne']
    norm_cast
  . rw [← neg_div, div_eq_iff hpos.ne']
    norm_cast

end FloatValue

end Floats
end OpenMat
