import OpenMat.Arrays.Shape
import OpenMat.Sequence.MixedRadix

/-!
This module contains the correspondence between linear indices and subscripts: any number of subscripts
numbers the elements of a shape in column-major order.
-/

namespace OpenMat
namespace Arrays

open Sequence

/-- Whether a checked multiplication or addition has failed. -/
def ArrayError.isOverflow : ArrayError → Bool
  | .sizeOverflow .. | .offsetOverflow => true
  | _ => false

section CanonicalDimensions

variable {dimensions : List Nat}

/-- Only trailing extents of one are dropped. -/
theorem canonicalDimensions_append (h : 2 ≤ dimensions.length)
    : ∃ count, canonicalDimensions dimensions ++ List.replicate count 1 = dimensions := by
  match dimensions, h with
  | m :: n :: rest, _ =>
    refine ⟨(rest.rtakeWhile (· = 1)).length, ?_⟩
    have hones : List.replicate (rest.rtakeWhile (· = 1)).length 1 = rest.rtakeWhile (· = 1) := by
      rw [eq_comm, List.eq_replicate_iff]
      refine ⟨rfl, fun extent hextent => ?_⟩
      simpa using List.mem_rtakeWhile_imp hextent
    rw [hones, canonicalDimensions, List.cons_append, List.cons_append, List.rdropWhile_append_rtakeWhile]

theorem length_canonicalDimensions_le (h : 2 ≤ dimensions.length)
    : (canonicalDimensions dimensions).length ≤ dimensions.length := by
  obtain ⟨count, hcount⟩ := canonicalDimensions_append h
  conv_rhs => rw [← hcount, List.length_append]
  exact Nat.le_add_right _ _

theorem prod_take_canonicalDimensions (dimensions : List Nat) (n : Nat)
    : ((canonicalDimensions dimensions).take n).prod = (dimensions.take n).prod := by
  match dimensions, n with
  | [], 0 => rfl
  | [], 1 => rfl
  | [], n + 2 => simp [canonicalDimensions]
  | [_], 0 => rfl
  | [_], 1 => rfl
  | [_], n + 2 => simp [canonicalDimensions]
  | m :: n' :: rest, n =>
    obtain ⟨count, hcount⟩ := canonicalDimensions_append (by simp : 2 ≤ (m :: n' :: rest).length)
    conv_rhs => rw [← hcount, List.take_append, List.prod_append, List.take_replicate,
      List.prod_replicate, one_pow, mul_one]

theorem prod_canonicalDimensions (dimensions : List Nat)
    : (canonicalDimensions dimensions).prod = dimensions.prod := by
  have h := prod_take_canonicalDimensions dimensions
    (max (canonicalDimensions dimensions).length dimensions.length)
  rwa [List.take_of_length_le (Nat.le_max_left _ _), List.take_of_length_le (Nat.le_max_right _ _)] at h

end CanonicalDimensions

namespace Shape

theorem exists_new_iff {dimensions : List Nat}
    : (∃ shape, new dimensions = .ok shape) ↔ ∀ n, (dimensions.take n).prod < 2 ^ 64 := by
  constructor
  . rintro ⟨shape, hshape⟩ n
    rw [← prod_take_canonicalDimensions, ← new_eq_ok_iff.mp hshape]
    exact shape.products_lt n
  . intro h
    refine ⟨⟨canonicalDimensions dimensions, canonicalDimensions_canonicalDimensions dimensions,
      fun n => ?_⟩, new_eq_ok_iff.mpr rfl⟩
    rw [prod_take_canonicalDimensions]
    exact h n

def subscriptsForLinearIndex (shape : Shape) (oneBasedIndex subscriptCount : Nat)
    : Except ArrayError (List Nat) := do
  let offset ← shape.linearOffset oneBasedIndex
  let dimensions ← shape.effectiveDimensions subscriptCount
  return (coordinatesOf dimensions offset).map (· + 1)

/-- The extents that `count` subscripts range over: the last one runs over all dimensions that are left. -/
def viewExtents (dimensions : List Nat) (count : Nat) : List Nat :=
  dimensions.take (count - 1) ++ List.replicate (count - 1 - dimensions.length) 1 ++
    [(dimensions.drop (count - 1)).prod]

/-- One-based subscripts that are in the range of their extents. -/
def InRange (subscripts extents : List Nat) : Prop :=
  List.Forall₂ (fun index extent => 0 < index ∧ index ≤ extent) subscripts extents

variable {shape : Shape} {count index : Nat} {subscripts extents : List Nat}

theorem inRange_iff
    : InRange subscripts extents ↔
        List.Forall₂ (· < ·) (subscripts.map (· - 1)) extents ∧ ∀ index ∈ subscripts, 0 < index := by
  rw [InRange, List.forall₂_map_left_iff]
  constructor
  . intro h
    refine ⟨h.imp fun _ _ hindex => by omega, ?_⟩
    intro index hmem
    obtain ⟨i, hi, rfl⟩ := List.mem_iff_getElem.mp hmem
    exact (h.get hi (h.length_eq ▸ hi)).1
  . rintro ⟨h, hpos⟩
    rw [List.forall₂_iff_get] at h ⊢
    refine ⟨h.1, fun i hi hi' => ?_⟩
    have := h.2 i hi hi'
    have := hpos _ (List.get_mem subscripts ⟨i, hi⟩)
    omega

theorem map_succ_pred (h : ∀ index ∈ subscripts, 0 < index)
    : (subscripts.map (· - 1)).map (· + 1) = subscripts := by
  rw [List.map_map]
  conv_rhs => rw [← List.map_id subscripts]
  apply List.map_congr_left
  intro index hindex
  have := h index hindex
  simp only [Function.comp_apply, id_eq]
  omega

theorem inRange_succ {coordinates : List Nat} (h : List.Forall₂ (· < ·) coordinates extents)
    : InRange (coordinates.map (· + 1)) extents := by
  rw [InRange, List.forall₂_map_left_iff]
  exact h.imp fun _ _ hlt => by omega

theorem length_viewExtents (dimensions : List Nat) (hcount : 0 < count)
    : (viewExtents dimensions count).length = count := by
  simp only [viewExtents, List.length_append, List.length_take, List.length_replicate,
    List.length_singleton]
  omega

theorem prod_viewExtents (dimensions : List Nat) (count : Nat)
    : (viewExtents dimensions count).prod = dimensions.prod := by
  rw [viewExtents, List.prod_append, List.prod_append, List.prod_replicate, one_pow, mul_one,
    List.prod_singleton, ← List.prod_append, List.take_append_drop]

section EffectiveDimensions

/-- What the effective dimensions are wherever they can be computed. -/
theorem effectiveDimensions_eq_ok (h : shape.effectiveDimensions count = .ok extents)
    : 0 < count ∧ extents = viewExtents shape.dimensions count := by
  rw [effectiveDimensions] at h
  split at h
  . cases h
  . next hzero =>
    refine ⟨by omega, ?_⟩
    split at h
    . next hone =>
      cases h
      subst hone
      simp [viewExtents, numel]
    . split at h
      . next hlt =>
        obtain ⟨collapsed, hcollapsed, h⟩ := bind_eq_ok_iff.mp h
        obtain ⟨-, rfl⟩ := (checkProducts_eq_ok_iff (by decide)).mp hcollapsed
        cases h
        rw [ndims] at hlt
        have hnone : count - 1 - shape.dimensions.length = 0 := by omega
        rw [viewExtents, hnone, List.replicate_zero, List.append_nil, one_mul]
      . next hge =>
        cases h
        rw [ndims] at hge ⊢
        rcases Nat.eq_or_lt_of_le (Nat.le_of_not_lt hge) with heq | hgt
        . -- the last subscript has the last dimension to itself
          have hne : shape.dimensions ≠ [] := by
            intro hnil
            rw [hnil, List.length_nil] at heq
            omega
          have hnone : count - 1 - shape.dimensions.length = 0 := by omega
          rw [viewExtents, hnone, ← heq, Nat.sub_self, List.replicate_zero, List.append_nil,
            List.append_nil, ← List.dropLast_eq_take,
            List.drop_length_sub_one hne, List.prod_singleton, List.dropLast_append_getLast]
        . obtain ⟨extra, hextra⟩ : ∃ extra, count - shape.dimensions.length = extra + 1 :=
            ⟨count - shape.dimensions.length - 1, by omega⟩
          have hless : count - 1 - shape.dimensions.length = extra := by omega
          rw [viewExtents, List.take_of_length_le (by omega), List.drop_eq_nil_of_le (by omega), hless,
            hextra, List.prod_nil, List.append_assoc, ← List.replicate_succ']

theorem effectiveDimensions_of_pos (hcount : 0 < count) (hnumel : 0 < shape.numel)
    : shape.effectiveDimensions count = .ok (viewExtents shape.dimensions count) := by
  suffices h : ∃ extents, shape.effectiveDimensions count = .ok extents by
    obtain ⟨extents, h⟩ := h
    rw [h, (effectiveDimensions_eq_ok h).2]
  rw [effectiveDimensions, if_neg (by omega)]
  split
  . exact ⟨_, rfl⟩
  . split
    . have hdrop : 0 < (shape.dimensions.drop (count - 1)).prod := by
        rw [numel, ← List.take_append_drop (count - 1) shape.dimensions, List.prod_append] at hnumel
        exact Nat.pos_of_mul_pos_left hnumel
      have hchecked : checkProducts (count - 1) 1 (shape.dimensions.drop (count - 1)) =
          .ok (1 * (shape.dimensions.drop (count - 1)).prod) := by
        refine (checkProducts_eq_ok_iff (by decide)).mpr ⟨fun n => ?_, rfl⟩
        rw [one_mul]
        calc ((shape.dimensions.drop (count - 1)).take n).prod
            ≤ (shape.dimensions.drop (count - 1)).prod := prod_take_le hdrop n
          _ ≤ shape.dimensions.prod := prod_drop_le hnumel _
          _ < 2 ^ 64 := shape.numel_lt
      rw [hchecked]
      exact ⟨_, rfl⟩
    . exact ⟨_, rfl⟩

theorem numel_pos_of_inRange (h : InRange subscripts (viewExtents shape.dimensions count))
    : 0 < shape.numel := by
  rw [numel, ← prod_viewExtents shape.dimensions count]
  exact prod_pos_of_forall₂_lt (inRange_iff.mp h).1

end EffectiveDimensions

section Contributions

/-- One more subscript leaves the offset below the next stride. -/
theorem contribution_lt {stride offset extent : Nat} (hindex : 0 < index ∧ index ≤ extent)
    (hoffset : offset < stride)
    : offset + (index - 1) * stride < stride * extent := by
  have hbound : (index - 1 + 1) * stride ≤ extent * stride := Nat.mul_le_mul_right _ (by omega)
  rw [Nat.add_mul, one_mul, mul_comm extent] at hbound
  omega

/-- The step of the loop, where the index is in range and the next stride fits. -/
theorem addContributions_cons {dimension stride offset extent : Nat}
    (hindex : 0 < index ∧ index ≤ extent) (hoffset : offset < stride)
    (hfits : stride * extent < 2 ^ 64)
    : addContributions dimension stride offset (index :: subscripts) (extent :: extents) =
        addContributions (dimension + 1) (stride * extent) (offset + (index - 1) * stride) subscripts
          extents := by
  have hnext := contribution_lt hindex hoffset
  have hensure : ensure (ε := ArrayError) (index ≠ 0 ∧ index ≤ extent)
      (.indexOutOfBounds dimension index extent) = .ok () := ensure_pos (by omega)
  have hmul : okOr (checkedMul 64 (index - 1) stride) ArrayError.offsetOverflow =
      .ok ((index - 1) * stride) :=
    okOr_eq_ok_iff.mpr (checkedMul_eq_some_iff.mpr ⟨by omega, rfl⟩)
  have hadd : okOr (checkedAdd 64 offset ((index - 1) * stride)) ArrayError.offsetOverflow =
      .ok (offset + (index - 1) * stride) :=
    okOr_eq_ok_iff.mpr (checkedAdd_eq_some_iff.mpr ⟨by omega, rfl⟩)
  have hextent : okOr (checkedMul 64 stride extent) ArrayError.offsetOverflow = .ok (stride * extent) :=
    okOr_eq_ok_iff.mpr (checkedMul_eq_some_iff.mpr ⟨hfits, rfl⟩)
  rw [addContributions, hensure]
  simp only [bind, Except.bind, hmul, hadd, hextent]

theorem stride_lt {stride extent : Nat} (hfits : stride * (extent :: extents).prod < 2 ^ 64)
    (hpos : 0 < extents.prod)
    : stride * extent < 2 ^ 64 := by
  rw [List.prod_cons, ← mul_assoc] at hfits
  exact Nat.lt_of_le_of_lt (Nat.le_mul_of_pos_right _ hpos) hfits

/-- Subscripts in range add up without overflow. -/
theorem addContributions_of_inRange {dimension stride offset : Nat} (h : InRange subscripts extents)
    (hoffset : offset < stride) (hfits : stride * extents.prod < 2 ^ 64)
    : addContributions dimension stride offset subscripts extents =
        .ok (offset + stride * offsetOf (subscripts.map (· - 1)) extents) := by
  induction h generalizing dimension stride offset with
  | nil => simp [addContributions, offsetOf]
  | @cons index extent subscripts extents hindex htail ih =>
    have hprod : 0 < extents.prod := prod_pos_of_forall₂_lt (inRange_iff.mp htail).1
    rw [addContributions_cons hindex hoffset (stride_lt hfits hprod)]
    rw [List.prod_cons, ← mul_assoc] at hfits
    rw [ih (contribution_lt hindex hoffset) hfits, List.map_cons, offsetOf, mul_add, add_assoc,
      mul_comm stride (index - 1), mul_assoc]

theorem offsetForSubscripts_of_inRange (hcount : 0 < count)
    (h : InRange subscripts (viewExtents shape.dimensions count))
    : shape.offsetForSubscripts subscripts =
        .ok (offsetOf (subscripts.map (· - 1)) (viewExtents shape.dimensions count)) := by
  have hnumel := numel_pos_of_inRange h
  have hlength : subscripts.length = count := by
    rw [List.Forall₂.length_eq h, length_viewExtents _ hcount]
  rw [offsetForSubscripts.eq_def]
  split
  . next index =>
    rw [List.length_singleton] at hlength
    subst hlength
    have hview : viewExtents shape.dimensions 1 = [shape.numel] := by simp [viewExtents, numel]
    rw [hview] at h ⊢
    obtain ⟨hindex, -⟩ := List.forall₂_cons.mp h
    rw [linearOffset_eq_ok_iff]
    simp only [List.map_cons, List.map_nil, offsetOf, mul_zero, add_zero]
    exact ⟨hindex.1, hindex.2, trivial⟩
  . rw [hlength, effectiveDimensions_of_pos hcount hnumel]
    have hfits : 1 * (viewExtents shape.dimensions count).prod < 2 ^ 64 := by
      rw [one_mul, prod_viewExtents]
      exact shape.numel_lt
    have hadd := @addContributions_of_inRange _ _ 0 _ _ h (by decide : 0 < 1) hfits
    rw [zero_add, one_mul] at hadd
    exact hadd

theorem linearIndexForSubscripts_of_inRange (hcount : 0 < count)
    (h : InRange subscripts (viewExtents shape.dimensions count))
    : shape.linearIndexForSubscripts subscripts =
        .ok (offsetOf (subscripts.map (· - 1)) (viewExtents shape.dimensions count) + 1) := by
  have hlt : offsetOf (subscripts.map (· - 1)) (viewExtents shape.dimensions count) < shape.numel := by
    rw [numel, ← prod_viewExtents shape.dimensions count]
    exact offsetOf_lt (inRange_iff.mp h).1
  have hnumel := shape.numel_lt
  rw [linearIndexForSubscripts, offsetForSubscripts_of_inRange hcount h]
  exact okOr_eq_ok_iff.mpr (checkedAdd_eq_some_iff.mpr ⟨by omega, rfl⟩)

theorem subscriptsForLinearIndex_of_le (hcount : 0 < count) (hpos : 0 < index)
    (hle : index ≤ shape.numel)
    : shape.subscriptsForLinearIndex index count =
        .ok ((coordinatesOf (viewExtents shape.dimensions count) (index - 1)).map (· + 1)) := by
  rw [subscriptsForLinearIndex, linearOffset_eq_ok_iff.mpr ⟨hpos, hle, rfl⟩,
    effectiveDimensions_of_pos hcount (by omega)]
  rfl

end Contributions

section Overflow

/-- The errors that are not overflows. -/
abbrev NoOverflow (e : ArrayError) : Prop := e.isOverflow = false

theorem addContributions_raises {dimension stride offset : Nat} (hoffset : offset < stride)
    (hfits : stride * extents.prod < 2 ^ 64) (hpos : 0 < extents.prod)
    : Raises NoOverflow (addContributions dimension stride offset subscripts extents) := by
  induction subscripts generalizing dimension stride offset extents with
  | nil =>
    rw [addContributions.eq_def]
    exact .ok
  | cons index subscripts ih =>
    cases extents with
    | nil =>
      rw [addContributions.eq_def]
      exact .ok
    | cons extent extents =>
      have hprod : 0 < extents.prod := Nat.pos_of_mul_pos_left (List.prod_cons (a := extent) ▸ hpos)
      by_cases hindex : 0 < index ∧ index ≤ extent
      . rw [addContributions_cons hindex hoffset (stride_lt hfits hprod)]
        rw [List.prod_cons, ← mul_assoc] at hfits
        exact ih (contribution_lt hindex hoffset) hfits hprod
      . have hensure : ensure (ε := ArrayError) (index ≠ 0 ∧ index ≤ extent)
            (.indexOutOfBounds dimension index extent) =
              .error (.indexOutOfBounds dimension index extent) := if_neg (by omega)
        rw [addContributions, hensure]
        exact .error rfl

theorem linearOffset_raises
    : Raises NoOverflow (shape.linearOffset index) := by
  rw [linearOffset]
  split
  . exact .error rfl
  . exact .ok

theorem effectiveDimensions_raises (hnumel : 0 < shape.numel)
    : Raises NoOverflow (shape.effectiveDimensions count) := by
  rcases Nat.eq_zero_or_pos count with rfl | hcount
  . exact .error rfl
  . rw [effectiveDimensions_of_pos hcount hnumel]
    exact .ok

theorem offsetForSubscripts_raises (hnumel : 0 < shape.numel)
    : Raises NoOverflow (shape.offsetForSubscripts subscripts) := by
  rw [offsetForSubscripts.eq_def]
  split
  . exact linearOffset_raises
  . refine .bind (effectiveDimensions_raises hnumel) ?_
    intro extents hextents
    have hprod := (prod_effectiveDimensions hextents).1
    apply addContributions_raises (by decide)
    . rw [one_mul, hprod]
      exact shape.numel_lt
    . rwa [hprod]

end Overflow

/--
Each index of an element has subscripts of any positive number, which lead back to it, and so does each
tuple of subscripts in range. No checked operation overflows where there are elements.
-/
theorem subscripts_correct (shape : Shape) (count : Nat) (hcount : 0 < count)
    : (∀ index, 0 < index → index ≤ shape.numel →
        ∃ subscripts, shape.subscriptsForLinearIndex index count = .ok subscripts ∧
          InRange subscripts (viewExtents shape.dimensions count) ∧ subscripts.length = count ∧
          shape.linearIndexForSubscripts subscripts = .ok index) ∧
      (∀ subscripts, InRange subscripts (viewExtents shape.dimensions count) →
        ∃ index, shape.linearIndexForSubscripts subscripts = .ok index ∧ 0 < index ∧
          index ≤ shape.numel ∧ shape.subscriptsForLinearIndex index count = .ok subscripts) ∧
      (0 < shape.numel → ∀ index subscripts,
        Raises NoOverflow (shape.subscriptsForLinearIndex index count) ∧
        Raises NoOverflow (shape.offsetForSubscripts subscripts) ∧
        Raises NoOverflow (shape.linearIndexForSubscripts subscripts)) := by
  refine ⟨?_, ?_, ?_⟩
  . intro index hpos hle
    have hlt : index - 1 < (viewExtents shape.dimensions count).prod := by
      rw [prod_viewExtents]
      exact Nat.lt_of_lt_of_le (Nat.sub_one_lt (by omega)) hle
    have hrange := inRange_succ (coordinatesOf_lt hlt)
    refine ⟨_, subscriptsForLinearIndex_of_le hcount hpos hle, hrange, ?_, ?_⟩
    . rw [List.length_map, length_coordinatesOf, length_viewExtents _ hcount]
    . rw [linearIndexForSubscripts_of_inRange hcount hrange, List.map_map]
      simp only [Function.comp_def, Nat.add_sub_cancel, List.map_id']
      rw [offsetOf_coordinatesOf hlt, Nat.sub_add_cancel hpos]
  . intro subscripts hrange
    obtain ⟨hcoordinates, hpositive⟩ := inRange_iff.mp hrange
    have hlt := offsetOf_lt hcoordinates
    rw [prod_viewExtents] at hlt
    refine ⟨_, linearIndexForSubscripts_of_inRange hcount hrange, Nat.succ_pos _, hlt, ?_⟩
    rw [subscriptsForLinearIndex_of_le hcount (Nat.succ_pos _) hlt, Nat.succ_sub_one,
      coordinatesOf_offsetOf hcoordinates, map_succ_pred hpositive]
  . intro hnumel index subscripts
    refine ⟨?_, offsetForSubscripts_raises hnumel, ?_⟩
    . exact .bind linearOffset_raises fun _ _ =>
        .bind (effectiveDimensions_raises hnumel) fun _ _ => .ok
    . refine .bind (offsetForSubscripts_raises hnumel) ?_
      intro offset hoffset e he
      -- the sum is an index of an element
      have hlt := offsetForSubscripts_lt hoffset
      have hsum : okOr (checkedAdd 64 offset 1) ArrayError.offsetOverflow = .ok (offset + 1) := by
        have := shape.numel_lt
        exact okOr_eq_ok_iff.mpr (checkedAdd_eq_some_iff.mpr ⟨by omega, rfl⟩)
      rw [hsum] at he
      cases he

def cube : Shape where
  dimensions := [2, 3, 4]
  canonical := rfl
  products_lt := Arrays.products_lt_iff.mpr (by decide)

/-- The second one of two subscripts runs over the last two dimensions. -/
theorem subscripts_correct_cube
    : cube.subscriptsForLinearIndex 14 2 = .ok [2, 7] ∧ cube.linearIndexForSubscripts [2, 7] = .ok 14 := by
  obtain ⟨hindices, -, -⟩ := subscripts_correct cube 2 (by decide)
  obtain ⟨subscripts, hsubscripts, -, -, hindex⟩ := hindices 14 (by decide) (by decide)
  have hcube : cube.subscriptsForLinearIndex 14 2 = .ok [2, 7] := by decide
  rw [hcube] at hsubscripts
  cases hsubscripts
  exact ⟨hcube, hindex⟩

end Shape

end Arrays
end OpenMat
