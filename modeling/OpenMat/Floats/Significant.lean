import Mathlib.Algebra.Order.AbsoluteValue.Basic
import OpenMat.Bits.TwosComplement
import OpenMat.Floats.Encode

/-!
This module contains the integers that a double can have: the ones with at most 53 significant bits. Shifts, bitwise
conjunctions and remainders of powers of two keep them.
-/

namespace OpenMat
namespace Floats

open TwosComplement

variable {a b n : Int} {w : Nat}

def Significant (n : Int) : Prop := ∃ (m : Int) (e : Nat), n = m * 2 ^ e ∧ |m| ≤ 2 ^ 53

namespace Significant

theorem of_abs_le (h : |n| ≤ 2 ^ 53)
    : Significant n :=
  ⟨n, 0, by rw [pow_zero, mul_one], h⟩

theorem mul_two_pow (h : Significant n) (k : Nat)
    : Significant (n * 2 ^ k) := by
  obtain ⟨m, e, rfl, hm⟩ := h
  exact ⟨m, e + k, by rw [pow_add, mul_assoc], hm⟩

/-- A multiple of a power of two that is not too large. -/
theorem of_dvd {e : Nat} (hdvd : (2 ^ e : Int) ∣ n) (hle : |n| ≤ 2 ^ (53 + e))
    : Significant n := by
  obtain ⟨m, rfl⟩ := hdvd
  refine ⟨m, e, mul_comm _ _, ?_⟩
  have hpos : (0 : Int) < 2 ^ e := by positivity
  rw [abs_mul, abs_of_pos hpos, pow_add, mul_comm] at hle
  exact le_of_mul_le_mul_right hle hpos

theorem abs_ediv_le {m : Int} {k : Nat}
    : |m / 2 ^ k| ≤ |m| := by
  have hpos : (1 : Int) ≤ 2 ^ k := by
    have : (0 : Int) < 2 ^ k := by positivity
    omega
  rw [abs_le]
  rcases le_or_gt 0 m with h | h
  . rw [abs_of_nonneg h]
    have := Int.ediv_nonneg h (le_trans zero_le_one hpos)
    have := Int.ediv_le_self (2 ^ k) h
    omega
  . rw [abs_of_neg h, neg_neg]
    have hneg := Int.ediv_neg_of_neg_of_pos h (lt_of_lt_of_le zero_lt_one hpos)
    have hle : m ≤ m / 2 ^ k := by
      rw [Int.le_ediv_iff_mul_le (lt_of_lt_of_le zero_lt_one hpos)]
      nlinarith
    omega

theorem ediv_two_pow (h : Significant n) (k : Nat)
    : Significant (n / 2 ^ k) := by
  obtain ⟨m, e, rfl, hm⟩ := h
  have hpos : (0 : Int) < 2 ^ e := by positivity
  rcases Nat.le_total k e with hle | hle
  . refine ⟨m, e - k, ?_, hm⟩
    have hpow : (2 : Int) ^ e = 2 ^ (e - k) * 2 ^ k := by rw [← pow_add, Nat.sub_add_cancel hle]
    rw [hpow, ← mul_assoc, Int.mul_ediv_cancel _ (by positivity)]
  . have hpow : (2 : Int) ^ k = 2 ^ (k - e) * 2 ^ e := by rw [← pow_add, Nat.sub_add_cancel hle]
    rw [hpow, Int.mul_ediv_mul_of_pos_left _ _ hpos]
    exact of_abs_le (abs_ediv_le.trans hm)

/-- The integer with the same remainder, unless it is negative where no sign is kept. -/
theorem of_emod (h : Significant a) {z low : Int} (hmod : z % 2 ^ w = a % 2 ^ w) (hlow : low ≤ z)
    (hhigh : z < low + 2 ^ w) (hsign : low = 0 ∧ 0 ≤ a ∨ 0 < w ∧ low = -2 ^ (w - 1))
    : Significant z := by
  have hpos : (0 : Int) < 2 ^ w := by positivity
  obtain ⟨c, hc⟩ := Int.dvd_of_emod_eq_zero (Int.emod_eq_emod_iff_emod_sub_eq_zero.mp hmod)
  by_cases hin : low ≤ a ∧ a < low + 2 ^ w
  . have hzero : c = 0 := by nlinarith
    rw [hzero, mul_zero] at hc
    rwa [sub_eq_zero.mp hc]
  -- the multiples of large powers of two that are left have few bits
  . obtain ⟨m, e, rfl, hm⟩ := h
    obtain ⟨bound, hbound, hz, ha⟩ : ∃ bound ≤ w, |z| ≤ 2 ^ bound ∧ (2 : Int) ^ bound ≤ |m * 2 ^ e| := by
      rcases hsign with ⟨rfl, hnonneg⟩ | ⟨hw, rfl⟩
      . refine ⟨w, le_rfl, abs_le.mpr ⟨by omega, by omega⟩, ?_⟩
        rw [abs_of_nonneg hnonneg]
        omega
      . have hdouble : (2 : Int) ^ w = 2 * 2 ^ (w - 1) := by
          rw [← pow_succ', Nat.sub_add_cancel hw]
        refine ⟨w - 1, Nat.sub_le _ _, abs_le.mpr ⟨by omega, by omega⟩, ?_⟩
        rw [le_abs']
        omega
    have hle : (2 : Int) ^ bound ≤ 2 ^ (53 + e) := by
      rw [abs_mul, abs_of_pos (by positivity : (0 : Int) < 2 ^ e)] at ha
      rw [pow_add]
      exact ha.trans (mul_le_mul_of_nonneg_right hm (by positivity))
    have hexponent : bound ≤ 53 + e := (pow_le_pow_iff_right₀ (by decide)).mp hle
    refine of_dvd (e := min e w) ?_ (hz.trans (pow_le_pow_right₀ (by decide) (by omega)))
    rw [eq_add_of_sub_eq hc]
    refine dvd_add (Dvd.dvd.mul_right (pow_dvd_pow _ (Nat.min_le_right _ _)) _) ?_
    exact Dvd.dvd.mul_left (pow_dvd_pow _ (Nat.min_le_left _ _)) _

theorem land (ha : Significant a) (hb : Significant b)
    : Significant (a.land b) := by
  obtain ⟨m, e, rfl, hm⟩ := ha
  obtain ⟨m', e', rfl, hm'⟩ := hb
  wlog hle : e' ≤ e generalizing m m' e e'
  . rw [land_comm]
    exact this m' e' hm' m e hm (Nat.le_of_not_le hle)
  have ha : |m * 2 ^ e| ≤ 2 ^ (53 + e) := by
    rw [abs_mul, abs_of_pos (by positivity : (0 : Int) < 2 ^ e), pow_add]
    exact mul_le_mul_of_nonneg_right hm (by positivity)
  have hb : |m' * 2 ^ e'| ≤ 2 ^ (53 + e) := by
    rw [abs_mul, abs_of_pos (by positivity : (0 : Int) < 2 ^ e'), pow_add]
    have hpow : (2 : Int) ^ e' ≤ 2 ^ e := pow_le_pow_right₀ (by decide) hle
    exact mul_le_mul hm' hpow (by positivity) (by positivity)
  refine of_dvd (two_pow_dvd_land (Dvd.intro_left _ rfl)) ?_
  rw [abs_le] at ha hb ⊢
  rcases le_or_gt 0 (m * 2 ^ e) with hnonneg | hneg
  . have := @land_nonneg _ (m' * 2 ^ e') hnonneg
    omega
  . rcases le_or_gt 0 (m' * 2 ^ e') with hnonneg' | hneg'
    . rw [land_comm]
      have := @land_nonneg _ (m * 2 ^ e) hnonneg'
      omega
    . have := land_neg ha.1 hneg hb.1 hneg'
      omega

/-- The greatest power of two below the integer divides it, but for the 53 bits. -/
theorem two_pow_log2_dvd (h : Significant n)
    : 2 ^ (Nat.log2 n.natAbs - 52) ∣ n.natAbs := by
  obtain ⟨m, e, rfl, hm⟩ := h
  rcases eq_or_ne m 0 with rfl | hne
  . rw [zero_mul]
    exact dvd_zero _
  have hnat : m.natAbs ≤ 2 ^ 53 := by
    rw [Int.abs_eq_natAbs] at hm
    exact_mod_cast hm
  have hpos : 0 < m.natAbs := Int.natAbs_pos.mpr hne
  have hpow : ((2 : Int) ^ e).natAbs = 2 ^ e := by rw [Int.natAbs_pow]; rfl
  rw [Int.natAbs_mul, hpow, FloatFormat.log2_mul_two_pow hpos]
  rcases Nat.lt_or_eq_of_le hnat with hlt | heq
  . have hlog : Nat.log2 m.natAbs < 53 := (Nat.log2_lt hpos.ne').mpr hlt
    exact Dvd.dvd.mul_left (pow_dvd_pow 2 (by omega)) _
  . rw [heq, Nat.log2_two_pow, ← pow_add]
    exact pow_dvd_pow 2 (by omega)

/-- The doubles are significant. -/
theorem of_number {bits : Nat} (h : (FloatFormat.double.decode bits).number = some (.rational n))
    : Significant n := by
  have hfraction : bits % 2 ^ 52 < 2 ^ 52 := Nat.mod_lt _ (by decide)
  obtain ⟨negative, numerator, scale, hvalue, m, k, rfl, hm, hscale⟩ : ∃ negative numerator scale,
      FloatFormat.double.decode bits = .finite negative numerator scale ∧
        ∃ m k, numerator = m * 2 ^ k ∧ m < 2 ^ 53 ∧ (k = 0 ∨ scale = 0) := by
    rw [FloatFormat.decode] at h ⊢
    split at h
    . split at h <;> cases h
    . next hexponent =>
      rw [if_neg hexponent]
      split at h
      . next hzero =>
        rw [if_pos hzero]
        refine ⟨_, _, _, rfl, bits % 2 ^ 52, 0, ?_, by omega, .inl rfl⟩
        rw [pow_zero, Nat.mul_one]
        rfl
      . next hne =>
        rw [if_neg hne]
        exact ⟨_, _, _, rfl, 2 ^ 52 + bits % 2 ^ 52, _, rfl, by omega, by omega⟩
  rw [hvalue, FloatValue.number_finite_eq_int_iff] at h
  rcases hscale with rfl | rfl
  . have hpow : (1 : Int) ≤ 2 ^ scale := one_le_pow₀ (by decide)
    rw [pow_zero, Nat.mul_one] at h
    have habs : |n * 2 ^ scale| ≤ 2 ^ 53 := by
      rw [← h]
      split
      . rw [abs_neg, Nat.abs_cast]
        exact_mod_cast hm.le
      . rw [Nat.abs_cast]
        exact_mod_cast hm.le
    rw [abs_mul, abs_of_pos (lt_of_lt_of_le zero_lt_one hpow)] at habs
    exact of_abs_le ((le_mul_of_one_le_right (abs_nonneg n) hpow).trans habs)
  . rw [pow_zero, mul_one] at h
    rw [← h]
    refine ⟨if negative then -m else m, k, ?_, ?_⟩
    . push_cast
      split <;> simp
    . split
      . rw [abs_neg, Nat.abs_cast]
        exact_mod_cast hm.le
      . rw [Nat.abs_cast]
        exact_mod_cast hm.le

end Significant

end Floats
end OpenMat
