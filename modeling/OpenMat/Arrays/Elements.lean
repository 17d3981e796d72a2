import Mathlib.Algebra.BigOperators.Group.List.Lemmas
import OpenMat.Arrays.Dense
import OpenMat.Arrays.Subscripts
import OpenMat.Sequence.Strides

/-!
This module contains the elements of an array at subscripts, of which there are at least as many as there are
dimensions.
-/

namespace OpenMat
namespace Arrays

open Sequence

theorem canonicalDimensions_append_ones {dimensions : List Nat} (h : 2 ≤ dimensions.length) (count : Nat)
    : canonicalDimensions (dimensions ++ List.replicate count 1) = canonicalDimensions dimensions := by
  match dimensions, h with
  | m :: n :: rest, _ =>
    induction count with
    | zero => rw [List.replicate_zero, List.append_nil]
    | succ count ih =>
      rw [List.cons_append, List.cons_append, canonicalDimensions] at ih ⊢
      rw [List.replicate_succ', ← List.append_assoc, List.rdropWhile_concat_pos _ _ _ (by simp)]
      exact ih

theorem canonicalDimensions_padded {dimensions : List Nat} {n : Nat} (h : 2 ≤ dimensions.length)
    (hrank : dimensions.length ≤ n)
    : canonicalDimensions (padded dimensions n) = canonicalDimensions dimensions := by
  rw [padded_eq_append hrank, canonicalDimensions_append_ones h]

theorem padded_canonicalDimensions {dimensions : List Nat} (h : 2 ≤ dimensions.length)
    : padded (canonicalDimensions dimensions) dimensions.length = dimensions := by
  obtain ⟨count, hcount⟩ := canonicalDimensions_append h
  have hlength := congrArg List.length hcount
  rw [List.length_append, List.length_replicate] at hlength
  rw [padded_eq_append (length_canonicalDimensions_le h), ← hlength, Nat.add_sub_cancel_left, hcount]

namespace Shape

theorem viewExtents_eq_padded {dimensions : List Nat} {n : Nat} (hpos : 0 < n)
    (hrank : dimensions.length ≤ n)
    : viewExtents dimensions n = padded dimensions n := by
  obtain ⟨m, rfl⟩ : ∃ m, n = m + 1 := Nat.exists_eq_add_one.mpr hpos
  rw [padded_eq_append hrank, viewExtents, Nat.add_sub_cancel]
  rcases Nat.lt_or_ge m dimensions.length with hlt | hge
  . have hlength : dimensions.length = m + 1 := by omega
    have hlast : dimensions.drop m = [dimensions[m]] := by
      rw [List.drop_eq_getElem_cons hlt, List.drop_of_length_le (Nat.le_of_eq hlength)]
    have htake : dimensions.take m ++ [dimensions[m]] = dimensions := by
      rw [← hlast, List.take_append_drop]
    rw [hlast, List.prod_singleton, hlength, Nat.sub_self, Nat.sub_eq_zero_of_le (Nat.le_succ m),
      List.replicate_zero, List.append_nil, List.append_nil, htake]
  . rw [List.take_of_length_le hge, List.drop_of_length_le hge, List.prod_nil, List.append_assoc,
      ← List.replicate_succ', Nat.succ_sub hge]

/-- An array of one element is a scalar. -/
theorem eq_scalar_of_numel {shape : Shape} (h : shape.numel = 1)
    : shape = .scalar := by
  apply Shape.ext
  have hones : ∀ extent ∈ shape.dimensions, extent = 1 := by
    intro extent hextent
    exact Nat.dvd_one.mp (h ▸ List.dvd_prod hextent)
  have hcanonical := shape.canonical
  rw [List.eq_replicate_of_mem hones] at hcanonical ⊢
  rw [← hcanonical]
  rcases shape.dimensions.length with _ | _ | n
  . rfl
  . rfl
  . show 1 :: 1 :: (List.replicate n 1).rdropWhile (· = 1) = [1, 1]
    rw [List.rdropWhile_eq_nil_iff.mpr]
    intro extent hextent
    exact decide_eq_true (List.eq_of_mem_replicate hextent)

end Shape

namespace DenseArray

variable {T : Type}

/-- The element at one-based subscripts. -/
def elementAt (array : DenseArray T) (subscripts : List Nat) : Option T :=
  (array.shape.linearIndexForSubscripts subscripts).toOption.bind fun index => array.data[index - 1]?

variable {array other : DenseArray T} {subscripts : List Nat} {n : Nat}

theorem elementAt_eq (hrank : array.shape.ndims ≤ n)
    (h : Shape.InRange subscripts (padded array.shape.dimensions n))
    : array.elementAt subscripts =
        array.data[offsetOf (subscripts.map (· - 1)) (padded array.shape.dimensions n)]? := by
  have hpos : 0 < n := Nat.lt_of_lt_of_le Nat.two_pos (Nat.le_trans array.shape.two_le_ndims hrank)
  rw [← Shape.viewExtents_eq_padded hpos hrank] at h ⊢
  rw [elementAt, Shape.linearIndexForSubscripts_of_inRange hpos h]
  rfl

theorem offsetOf_lt_length (hrank : array.shape.ndims ≤ n)
    (h : Shape.InRange subscripts (padded array.shape.dimensions n))
    : offsetOf (subscripts.map (· - 1)) (padded array.shape.dimensions n) < array.data.length := by
  rw [array.length_data, Shape.numel, ← prod_padded hrank]
  exact offsetOf_lt (Shape.inRange_iff.mp h).1

/-- Arrays of one shape are equal where their elements are. -/
theorem ext_of_elementAt (hshape : array.shape = other.shape) (hrank : array.shape.ndims ≤ n)
    (h : ∀ subscripts, Shape.InRange subscripts (padded array.shape.dimensions n) →
      array.elementAt subscripts = other.elementAt subscripts)
    : array = other := by
  apply DenseArray.ext hshape
  apply List.ext_getElem
  . rw [array.length_data, other.length_data, hshape]
  . intro offset hoffset hoffset'
    have hlt : offset < (padded array.shape.dimensions n).prod := by
      rw [prod_padded hrank]
      exact Nat.lt_of_lt_of_eq hoffset array.length_data
    have hin := Shape.inRange_succ (coordinatesOf_lt hlt)
    have hat := h _ hin
    rw [elementAt_eq hrank hin] at hat
    rw [hshape] at hin hrank hat
    rw [elementAt_eq hrank hin, List.map_map] at hat
    have hid : ((fun x => x - 1) ∘ fun x => x + 1) = (id : Nat → Nat) := rfl
    rw [hid, List.map_id, ← hshape, offsetOf_coordinatesOf hlt, List.getElem?_eq_getElem hoffset,
      List.getElem?_eq_getElem hoffset', Option.some.injEq] at hat
    exact hat

end DenseArray

end Arrays
end OpenMat
