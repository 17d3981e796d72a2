import Mathlib.Algebra.BigOperators.Ring.List
import OpenMat.Sequence.MixedRadix

/-!
This module contains offsets as sums over the dimensions, where every dimension counts with its own stride, and
lists of extents that are continued with ones.
-/

namespace OpenMat
namespace Sequence

variable {cs es : List Nat}

/-- The stride of a dimension is the product of the extents before it. -/
theorem offsetOf_eq_sum (h : cs.length = es.length)
    : offsetOf cs es = ((List.range cs.length).map fun j => cs.getD j 0 * (es.take j).prod).sum := by
  induction cs generalizing es with
  | nil => rw [offsetOf.eq_def]; rfl
  | cons c cs ih =>
    cases es with
    | nil => cases h
    | cons e es =>
      have hstride : ((List.range cs.length).map fun j => cs.getD j 0 * (e * (es.take j).prod)) =
          (List.range cs.length).map fun j => e * (cs.getD j 0 * (es.take j).prod) := by
        apply List.map_congr_left
        intro j _
        ring
      rw [offsetOf, ih (Nat.succ.inj h), List.length_cons, List.range_succ_eq_map, List.map_cons,
        List.sum_cons, List.map_map]
      simp only [Function.comp_def, List.getD_cons_zero, List.getD_cons_succ, List.take_zero,
        List.take_succ_cons, List.prod_nil, List.prod_cons, mul_one]
      rw [hstride, List.sum_map_mul_left]

/-- The summands may be added in any order of the dimensions. -/
theorem sum_map_of_perm {order : List Nat} {n : Nat} (h : order.Perm (List.range' 1 n))
    (summand : Nat → Nat)
    : (order.map fun d => summand (d - 1)).sum = ((List.range n).map summand).sum := by
  have hrange : (List.range' 1 n).map (fun d => summand (d - 1)) = (List.range n).map summand := by
    rw [List.range'_eq_map_range, List.map_map]
    apply List.map_congr_left
    intro j _
    rw [Function.comp_apply, Nat.add_sub_cancel_left]
  rw [← hrange]
  exact (h.map _).sum_eq

theorem offsetOf_zeros (count : Nat) (es : List Nat)
    : offsetOf (List.replicate count 0) es = 0 := by
  induction count generalizing es with
  | zero => rw [List.replicate_zero, offsetOf.eq_def]
  | succ count ih =>
    cases es with
    | nil => rfl
    | cons e es => rw [List.replicate_succ, offsetOf, ih, mul_zero, add_zero]

/-- The first `n` extents, where the ones beyond the last are one. -/
def padded (es : List Nat) (n : Nat) : List Nat := (List.range n).map (es.getD · 1)

section Padded

variable {n : Nat}

@[simp]
theorem length_padded (es : List Nat) (n : Nat)
    : (padded es n).length = n := by
  rw [padded, List.length_map, List.length_range]

theorem getElem_padded {k : Nat} (hk : k < (padded es n).length)
    : (padded es n)[k] = es.getD k 1 := by
  simp only [padded, List.getElem_map, List.getElem_range]

theorem padded_eq_append (h : es.length ≤ n)
    : padded es n = es ++ List.replicate (n - es.length) 1 := by
  apply List.ext_getElem
  . rw [length_padded, List.length_append, List.length_replicate]
    omega
  . intro k hk hk'
    rw [getElem_padded, List.getD_eq_getElem?_getD, List.getElem_append]
    split
    . next hlt => rw [List.getElem?_eq_getElem hlt, Option.getD_some]
    . next hge => rw [List.getElem?_eq_none (Nat.le_of_not_lt hge), Option.getD_none, List.getElem_replicate]

theorem prod_padded (h : es.length ≤ n)
    : (padded es n).prod = es.prod := by
  rw [padded_eq_append h, List.prod_append, List.prod_replicate, one_pow, mul_one]

theorem prod_take_padded (h : es.length ≤ n) (k : Nat)
    : ((padded es n).take k).prod = (es.take k).prod := by
  rw [padded_eq_append h, List.take_append, List.prod_append, List.take_replicate, List.prod_replicate,
    one_pow, mul_one]

theorem take_padded (es : List Nat) (n k : Nat)
    : (padded es n).take k = padded es (min k n) := by
  rw [padded, ← List.map_take, List.take_range, padded]

/-- Fewer extents than there are have the product of the first ones. -/
theorem prod_padded_eq (es : List Nat) (n : Nat)
    : (padded es n).prod = (es.take n).prod := by
  rcases Nat.le_total es.length n with hle | hge
  . rw [prod_padded hle, List.take_of_length_le hle]
  . have hpadded : padded es n = es.take n := by
      apply List.ext_getElem
      . rw [length_padded, List.length_take, Nat.min_eq_left hge]
      . intro k hk hk'
        rw [length_padded] at hk
        rw [getElem_padded, List.getElem_take, List.getD_eq_getElem?_getD,
          List.getElem?_eq_getElem (Nat.lt_of_lt_of_le hk hge), Option.getD_some]
    rw [hpadded]

end Padded

end Sequence
end OpenMat
