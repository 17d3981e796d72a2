import Mathlib.Algebra.BigOperators.Group.List.Basic
import Mathlib.Algebra.Order.Ring.Nat
import Mathlib.Data.List.Forall2
import Mathlib.Tactic.Ring

/-!
This module contains mixed radix numbers whose first digit is the least one: the bijection between the
coordinates below given extents and the offsets below the product of the extents.
-/

namespace OpenMat
namespace Sequence

def offsetOf : List Nat → List Nat → Nat
  | c :: cs, e :: es => c + e * offsetOf cs es
  | _, _ => 0

def coordinatesOf : List Nat → Nat → List Nat
  | [], _ => []
  | e :: es, n => n % e :: coordinatesOf es (n / e)

variable {cs es : List Nat} {n : Nat}

@[simp]
theorem length_coordinatesOf (es : List Nat) (n : Nat)
    : (coordinatesOf es n).length = es.length := by
  induction es generalizing n with
  | nil => rfl
  | cons e es ih => rw [coordinatesOf, List.length_cons, List.length_cons, ih]

theorem coordinatesOf_lt (h : n < es.prod)
    : List.Forall₂ (· < ·) (coordinatesOf es n) es := by
  induction es generalizing n with
  | nil => exact .nil
  | cons e es ih =>
    rw [List.prod_cons] at h
    have he : 0 < e := Nat.pos_of_mul_pos_right (Nat.zero_lt_of_lt h)
    exact .cons (Nat.mod_lt n he) (ih (Nat.div_lt_of_lt_mul h))

theorem offsetOf_lt (h : List.Forall₂ (· < ·) cs es)
    : offsetOf cs es < es.prod := by
  induction h with
  | nil => exact Nat.one_pos
  | @cons c e cs es hc _ ih =>
    rw [offsetOf, List.prod_cons]
    calc c + e * offsetOf cs es < e + e * offsetOf cs es := Nat.add_lt_add_right hc _
      _ = e * (offsetOf cs es + 1) := by rw [Nat.mul_succ, Nat.add_comm]
      _ ≤ e * es.prod := Nat.mul_le_mul_left e ih

theorem offsetOf_coordinatesOf (h : n < es.prod)
    : offsetOf (coordinatesOf es n) es = n := by
  induction es generalizing n with
  | nil => exact (Nat.lt_one_iff.mp h).symm
  | cons e es ih =>
    rw [List.prod_cons] at h
    rw [coordinatesOf, offsetOf, ih (Nat.div_lt_of_lt_mul h), Nat.mod_add_div]

theorem coordinatesOf_offsetOf (h : List.Forall₂ (· < ·) cs es)
    : coordinatesOf es (offsetOf cs es) = cs := by
  induction h with
  | nil => rfl
  | @cons c e cs es hc _ ih =>
    have he : 0 < e := Nat.zero_lt_of_lt hc
    rw [offsetOf, coordinatesOf, Nat.add_mul_mod_self_left, Nat.mod_eq_of_lt hc,
      Nat.add_mul_div_left c _ he, Nat.div_eq_of_lt hc, Nat.zero_add, ih]

theorem coordinatesOf_append (es es' : List Nat) (n : Nat)
    : coordinatesOf (es ++ es') n = coordinatesOf es n ++ coordinatesOf es' (n / es.prod) := by
  induction es generalizing n with
  | nil => rw [List.nil_append, List.prod_nil, Nat.div_one]; rfl
  | cons e es ih =>
    rw [List.cons_append, coordinatesOf, coordinatesOf, ih, List.cons_append, List.prod_cons,
      Nat.div_div_eq_div_mul]

theorem offsetOf_append (h : cs.length = es.length) (cs' es' : List Nat)
    : offsetOf (cs ++ cs') (es ++ es') = offsetOf cs es + es.prod * offsetOf cs' es' := by
  induction cs generalizing es with
  | nil =>
    obtain rfl := List.length_eq_zero_iff.mp h.symm
    have hnil : offsetOf [] [] = 0 := rfl
    rw [List.nil_append, List.nil_append, List.prod_nil, Nat.one_mul, hnil, Nat.zero_add]
  | cons c cs ih =>
    cases es with
    | nil => cases h
    | cons e es =>
      rw [List.cons_append, List.cons_append, offsetOf, offsetOf, ih (Nat.succ.inj h), List.prod_cons]
      ring

/-- The offset of a coordinate on the line through the other coordinates. -/
theorem offsetOf_set {axis k : Nat} (h : cs.length = es.length) (haxis : axis < es.length)
    : offsetOf (cs.set axis k) es =
        offsetOf (cs.drop (axis + 1)) (es.drop (axis + 1)) * ((es.take axis).prod * es[axis]) +
          offsetOf (cs.take axis) (es.take axis) + k * (es.take axis).prod := by
  have hcs : cs.set axis k = cs.take axis ++ k :: cs.drop (axis + 1) :=
    List.set_eq_take_append_cons_drop.trans (if_pos (by omega))
  have hes : es = es.take axis ++ es[axis] :: es.drop (axis + 1) := by
    rw [List.cons_getElem_drop_succ, List.take_append_drop]
  conv_lhs => rw [hcs, hes]
  rw [offsetOf_append (by rw [List.length_take, List.length_take, h]), offsetOf]
  ring

theorem coordinatesOf_ones (count n : Nat)
    : coordinatesOf (List.replicate count 1) n = List.replicate count 0 := by
  induction count generalizing n with
  | zero => rfl
  | succ count ih => rw [List.replicate_succ, coordinatesOf, ih, Nat.mod_one, ← List.replicate_succ]

theorem prod_pos_of_forall₂_lt (h : List.Forall₂ (· < ·) cs es)
    : 0 < es.prod :=
  Nat.zero_lt_of_lt (offsetOf_lt h)

/-- A factor of a positive product is not more than the product. -/
theorem prod_take_le (h : 0 < es.prod) (k : Nat)
    : (es.take k).prod ≤ es.prod := by
  rw [← List.take_append_drop k es, List.prod_append] at h ⊢
  rw [List.take_append_drop]
  exact Nat.le_mul_of_pos_right _ (Nat.pos_of_mul_pos_left h)

theorem prod_drop_le (h : 0 < es.prod) (k : Nat)
    : (es.drop k).prod ≤ es.prod := by
  rw [← List.take_append_drop k es, List.prod_append] at h ⊢
  rw [List.take_append_drop]
  exact Nat.le_mul_of_pos_left _ (Nat.pos_of_mul_pos_right h)

end Sequence
end OpenMat
