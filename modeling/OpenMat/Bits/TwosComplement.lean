import Mathlib.Data.Int.Bitwise
import Mathlib.Tactic.Positivity
import Mathlib.Tactic.Zify

/-!
This module contains the bits of integers in two's complement: the low bits are those of the remainder of a power of
two, and the high bits are those of the sign.
-/

namespace OpenMat
namespace TwosComplement

variable {a b : Int} {p w : Nat}

theorem testBit_eq (a : Int) (p : Nat)
    : a.testBit p = decide (a / 2 ^ p % 2 = 1) := by
  cases a with
  | ofNat n =>
    show n.testBit p = _
    rw [Nat.testBit_eq_decide_div_mod_eq]
    congr 1
    rw [Int.ofNat_eq_natCast]
    norm_cast
  | negSucc n =>
    show (!n.testBit p) = _
    have hpos : (0 : Int) < 2 ^ p := by positivity
    rw [Nat.testBit_eq_decide_div_mod_eq, Int.negSucc_ediv _ hpos, ← decide_not]
    congr 1
    have hcast : (n : Int).ediv (2 ^ p) = ((n / 2 ^ p : Nat) : Int) := by
      push_cast
      rfl
    rw [hcast]
    apply propext
    omega

/-- Integers with the same remainder have the same low bits. -/
theorem testBit_congr (h : a % 2 ^ w = b % 2 ^ w) (hp : p < w)
    : a.testBit p = b.testBit p := by
  obtain ⟨c, hc⟩ := Int.dvd_of_emod_eq_zero (Int.emod_eq_emod_iff_emod_sub_eq_zero.mp h)
  replace hc : a = b + 2 ^ w * c := by omega
  have hpow : (2 : Int) ^ w = 2 ^ p * (2 * 2 ^ (w - p - 1)) := by
    rw [← pow_succ', ← pow_add]
    congr 1
    omega
  have hpos : (0 : Int) < 2 ^ p := by positivity
  rw [testBit_eq, testBit_eq, hc, hpow, mul_assoc, Int.add_mul_ediv_left _ _ hpos.ne', mul_assoc]
  congr 2
  omega

theorem testBit_emod (a : Int) (hp : p < w)
    : (a % 2 ^ w).testBit p = a.testBit p :=
  testBit_congr (Int.emod_emod_of_dvd a (dvd_refl _)) hp

theorem testBit_toNat_emod (a : Int) (p w : Nat)
    : (a % 2 ^ w).toNat.testBit p = (decide (p < w) && a.testBit p) := by
  have hpos : (0 : Int) < 2 ^ w := by positivity
  have hnonneg := Int.emod_nonneg a hpos.ne'
  have hlt := Int.emod_lt_of_pos a hpos
  rcases Nat.lt_or_ge p w with hp | hp
  . rw [decide_eq_true hp, Bool.true_and, ← testBit_emod a hp]
    conv_rhs => rw [← Int.toNat_of_nonneg hnonneg]
    rfl
  . rw [decide_eq_false (Nat.not_lt.mpr hp), Bool.false_and]
    apply Nat.testBit_lt_two_pow
    have hle : (2 : Int) ^ w ≤ 2 ^ p := pow_le_pow_right₀ (by decide) hp
    rw [Int.toNat_lt hnonneg]
    exact_mod_cast hlt.trans_le hle

/-- The remainder is determined by the low bits. -/
theorem emod_congr (h : ∀ p < w, a.testBit p = b.testBit p)
    : a % 2 ^ w = b % 2 ^ w := by
  have hpos : (0 : Int) < 2 ^ w := by positivity
  have hnat : (a % 2 ^ w).toNat = (b % 2 ^ w).toNat := by
    apply Nat.eq_of_testBit_eq
    intro p
    rw [testBit_toNat_emod, testBit_toNat_emod]
    rcases Nat.lt_or_ge p w with hp | hp
    . rw [h p hp]
    . rw [decide_eq_false (Nat.not_lt.mpr hp), Bool.false_and, Bool.false_and]
  have ha := Int.emod_nonneg a hpos.ne'
  have hb := Int.emod_nonneg b hpos.ne'
  omega

/-- The high bits are those of the sign. -/
theorem testBit_of_bounds (hlow : -2 ^ w ≤ a) (hhigh : a < 2 ^ w) (hp : w ≤ p)
    : a.testBit p = decide (a < 0) := by
  have hpow : (2 : Int) ^ w ≤ 2 ^ p := pow_le_pow_right₀ (by decide) hp
  have hpos : (0 : Int) < 2 ^ p := by positivity
  rw [testBit_eq]
  congr 1
  apply propext
  rcases lt_or_ge a 0 with hneg | hnonneg
  . have hdiv : a / 2 ^ p = -1 := by
      rw [Int.ediv_eq_iff_of_pos hpos]
      omega
    rw [hdiv]
    omega
  . rw [Int.ediv_eq_zero_of_lt hnonneg (hhigh.trans_le hpow)]
    omega

theorem two_pow_dvd_iff
    : (2 ^ w : Int) ∣ a ↔ ∀ p < w, a.testBit p = false := by
  constructor
  . intro h p hp
    rw [@testBit_congr a 0 p w (by rw [Int.emod_eq_zero_of_dvd h, Int.zero_emod]) hp]
    exact Nat.zero_testBit p
  . intro h
    apply Int.dvd_of_emod_eq_zero
    rw [@emod_congr a 0 w, Int.zero_emod]
    intro p hp
    rw [h p hp]
    exact (Nat.zero_testBit p).symm

theorem two_pow_dvd_land (h : (2 ^ w : Int) ∣ a)
    : (2 ^ w : Int) ∣ a.land b := by
  rw [two_pow_dvd_iff] at h ⊢
  intro p hp
  rw [Int.testBit_land, h p hp, Bool.false_and]

theorem land_comm (a b : Int)
    : a.land b = b.land a := by
  cases a <;> cases b <;> simp [Int.land, Nat.land_comm, Nat.lor_comm]

theorem land_nonneg (ha : 0 ≤ a)
    : 0 ≤ a.land b ∧ a.land b ≤ a := by
  obtain ⟨n, rfl⟩ := Int.eq_ofNat_of_zero_le ha
  cases b with
  | ofNat m =>
    show 0 ≤ ((n &&& m : Nat) : Int) ∧ ((n &&& m : Nat) : Int) ≤ n
    have := @Nat.and_le_left n m
    omega
  | negSucc m =>
    show 0 ≤ ((Nat.ldiff n m : Nat) : Int) ∧ ((Nat.ldiff n m : Nat) : Int) ≤ n
    have hand : Nat.ldiff n m = n &&& Nat.ldiff n m := by
      apply Nat.eq_of_testBit_eq
      intro p
      rw [Nat.testBit_and, Nat.testBit_ldiff, ← Bool.and_assoc, Bool.and_self]
    have := @Nat.and_le_left n (Nat.ldiff n m)
    omega

theorem land_neg (hw : -2 ^ w ≤ a) (ha : a < 0) (hw' : -2 ^ w ≤ b) (hb : b < 0)
    : -2 ^ w ≤ a.land b ∧ a.land b < 0 := by
  obtain ⟨n, rfl⟩ := Int.eq_negSucc_of_lt_zero ha
  obtain ⟨m, rfl⟩ := Int.eq_negSucc_of_lt_zero hb
  show -2 ^ w ≤ Int.negSucc (n ||| m) ∧ Int.negSucc (n ||| m) < 0
  have hn : n < 2 ^ w := by zify; omega
  have hm : m < 2 ^ w := by zify; omega
  have hor := Nat.or_lt_two_pow hn hm
  zify at hor
  omega

end TwosComplement
end OpenMat
