import Mathlib.Algebra.Order.Ring.Nat
import Mathlib.Data.List.Basic
import Mathlib.Tactic.Ring

/-!
This module contains unsigned integers as fixed-width sequences of bytes in either byte order, and the fields of
longer sequences.
-/

namespace OpenMat
namespace Bytes

inductive Order where
  | little
  | big
  deriving DecidableEq, Repr

def littleBytes : Nat → Nat → List UInt8
  | 0, _ => []
  | width + 1, value => UInt8.ofNat value :: littleBytes width (value / 256)

def littleValue : List UInt8 → Nat
  | [] => 0
  | byte :: rest => byte.toNat + littleValue rest * 256

/-- The low `width` bytes of a number. -/
def toBytes (order : Order) (width value : Nat) : List UInt8 :=
  match order with
  | .little => littleBytes width value
  | .big => (littleBytes width value).reverse

def ofBytes (order : Order) (bytes : List UInt8) : Nat :=
  match order with
  | .little => littleValue bytes
  | .big => littleValue bytes.reverse

section Little

theorem length_littleBytes (width value : Nat)
    : (littleBytes width value).length = width := by
  induction width generalizing value with
  | zero => rfl
  | succ width ih => rw [littleBytes, List.length_cons, ih]

theorem littleValue_littleBytes (width value : Nat)
    : littleValue (littleBytes width value) = value % 256 ^ width := by
  induction width generalizing value with
  | zero => rw [littleBytes, littleValue, Nat.pow_zero, Nat.mod_one]
  | succ width ih =>
    have hbyte : (UInt8.ofNat value).toNat = value % 256 := UInt8.toNat_ofNat'
    rw [littleBytes, littleValue, ih, hbyte, Nat.pow_succ', Nat.mod_mul]
    omega

end Little

variable (order : Order)

theorem length_toBytes (width value : Nat)
    : (toBytes order width value).length = width := by
  cases order with
  | little => exact length_littleBytes width value
  | big =>
    rw [toBytes, List.length_reverse]
    exact length_littleBytes width value

theorem ofBytes_toBytes {width value : Nat} (h : value < 256 ^ width)
    : ofBytes order (toBytes order width value) = value := by
  have hvalue := littleValue_littleBytes width value
  rw [Nat.mod_eq_of_lt h] at hvalue
  cases order with
  | little => exact hvalue
  | big =>
    rw [ofBytes, toBytes, List.reverse_reverse]
    exact hvalue

/-- The bytes of a sequence at `width` positions from `start` on. -/
def field (bytes : List UInt8) (start width : Nat) : List UInt8 := (bytes.drop start).take width

section Field

variable {a b : List UInt8} {start width n : Nat}

theorem field_append_left (hstart : start = 0) (ha : a.length = width)
    : field (a ++ b) start width = a := by
  rw [field, hstart, List.drop_zero, ← ha, List.take_left]

theorem field_append_right (ha : a.length = n) (hn : n ≤ start)
    : field (a ++ b) start width = field b (start - n) width := by
  rw [field, field, List.drop_append, List.drop_of_length_le (ha ▸ hn), List.nil_append, ha]

theorem drop_append_right (ha : a.length = n) (hn : n ≤ start)
    : (a ++ b).drop start = b.drop (start - n) := by
  rw [List.drop_append, List.drop_of_length_le (ha ▸ hn), List.nil_append, ha]

end Field

end Bytes
end OpenMat
