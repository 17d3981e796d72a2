import Mathlib.Data.List.Nodup
import Mathlib.Data.List.Perm.Subperm
import OpenMat.Arrays.Elements
import OpenMat.Builtins.Rearrange

/-!
This module contains the proof that a permutation of the dimensions and a repetition select the elements that their
subscripts say.
-/

namespace OpenMat
namespace Builtins

open Arrays Sequence Rearrangement

variable {T : Type}

/-- Every element of the output is the one at the offset that its own offset is mapped to. -/
theorem exists_gathered {input : DenseArray T} {shape : Shape} {failure : Failure}
    {mapping : Nat → Except Failure Nat} {source : Nat → Nat}
    (h : ∀ offset < shape.numel, mapping offset = .ok (source offset) ∧ source offset < input.data.length)
    : ∃ output, (do
          let values ← (List.range shape.numel).mapM fun offset => do
            let inputOffset ← mapping offset
            okOr input.data[inputOffset]? failure
          (DenseArray.fromVec shape values).mapError arrayError) = .ok output ∧
        output.shape = shape ∧
        ∀ offset < shape.numel, output.data[offset]? = input.data[source offset]? := by
  have hvalue : ∀ offset < shape.numel, ∀ element, input.data[source offset]? = some element →
      (do
        let inputOffset ← mapping offset
        okOr input.data[inputOffset]? failure) = .ok element := by
    intro offset hoffset element helement
    rw [(h offset hoffset).1]
    exact okOr_eq_ok_iff.mpr helement
  have hfound : ∀ offset < shape.numel, ∃ element, input.data[source offset]? = some element :=
    fun offset hoffset => ⟨_, List.getElem?_eq_getElem (h offset hoffset).2⟩
  obtain ⟨values, hvalues⟩ := @exists_mapM_eq_ok _ _ _ (fun offset => do
    let inputOffset ← mapping offset
    okOr input.data[inputOffset]? failure) (List.range shape.numel) (by
      intro offset hoffset
      have hlt := List.mem_range.mp hoffset
      obtain ⟨element, helement⟩ := hfound offset hlt
      exact ⟨element, hvalue offset hlt element helement⟩)
  have hforall := forall₂_of_mapM_eq_ok.mp hvalues
  have hlength : values.length = shape.numel := by rw [← hforall.length_eq, List.length_range]
  refine ⟨⟨shape, values, hlength⟩, ?_, rfl, ?_⟩
  . rw [hvalues]
    simp only [bind, Except.bind, DenseArray.fromVec, dif_pos hlength, Except.mapError]
  . intro offset hoffset
    obtain ⟨element, helement⟩ := hfound offset hoffset
    have hget := hforall.get (by simpa using hoffset) (hlength.symm ▸ hoffset)
    simp only [List.get_eq_getElem, List.getElem_range] at hget
    rw [hvalue offset hoffset element helement, Except.ok.injEq] at hget
    rw [helement, List.getElem?_eq_getElem (hlength.symm ▸ hoffset), hget]

section Permutation

variable {order : List Nat} {input : DenseArray T}

theorem AcceptsOrder.perm (h : AcceptsOrder input order)
    : order.Perm (List.range' 1 order.length) := by
  apply List.Perm.symm
  apply List.Subperm.perm_of_length_le
  . apply List.Nodup.subperm List.nodup_range'
    intro expected hexpected
    have hcount := h.2 expected hexpected
    exact List.count_pos_iff.mp (by omega)
  . rw [List.length_range']

theorem AcceptsOrder.rank_le (h : AcceptsOrder input order)
    : input.shape.dimensions.length ≤ order.length :=
  h.1

/-- The strides are the products of the extents before, also the one beyond the dimensions. -/
theorem sourceStrides_eq {stride : Nat} {extents : List Nat}
    (hfits : ∀ n, stride * (extents.take n).prod < 2 ^ 64)
    : sourceStrides stride extents = .ok
        ((List.range extents.length).map fun j => stride * (extents.take j).prod, stride * extents.prod) := by
  induction extents generalizing stride with
  | nil => simp [sourceStrides]
  | cons extent extents ih =>
    have hnext : stride * extent < 2 ^ 64 := by simpa using hfits 1
    have hmul : okOr (checkedMul 64 stride extent) (mappingError "permute") = .ok (stride * extent) :=
      okOr_eq_ok_iff.mpr (checkedMul_eq_some_iff.mpr ⟨hnext, rfl⟩)
    have htail : ∀ n, stride * extent * (extents.take n).prod < 2 ^ 64 := by
      intro n
      have h := hfits (n + 1)
      rwa [List.take_succ_cons, List.prod_cons, ← mul_assoc] at h
    rw [sourceStrides, hmul]
    simp only [bind, Except.bind, ih htail]
    rw [List.length_cons, List.range_succ_eq_map, List.map_cons, List.map_map, List.prod_cons]
    simp [Function.comp_def, mul_assoc]

theorem strides_getD {extents : List Nat} (j : Nat)
    : ((List.range extents.length).map fun j => 1 * (extents.take j).prod).getD j (1 * extents.prod) =
        (extents.take j).prod := by
  rw [List.getD_eq_getElem?_getD, List.getElem?_map]
  rcases Nat.lt_or_ge j extents.length with hlt | hge
  . simp [List.getElem?_range hlt]
  . rw [List.getElem?_eq_none (by simpa using hge), Option.map_none, Option.getD_none, one_mul,
      List.take_of_length_le hge]

/-- The digits of the offset, each with the stride of its source dimension. -/
theorem permuteOffset_eq {shape : Shape} {strides : List Nat} {stride axis remainder inputOffset : Nat}
    {order : List Nat}
    (hpos : ∀ k < order.length, 0 < shape.dimensions.getD (axis + k) 1)
    (hfits : inputOffset + (List.zipWith (fun coordinate dimension =>
      coordinate * strides.getD (dimension - 1) stride)
      (coordinatesOf ((List.range' axis order.length).map (shape.dimensions.getD · 1)) remainder) order).sum
        < 2 ^ 64)
    : permuteOffset shape strides stride axis order remainder inputOffset = .ok (inputOffset +
        (List.zipWith (fun coordinate dimension => coordinate * strides.getD (dimension - 1) stride)
          (coordinatesOf ((List.range' axis order.length).map (shape.dimensions.getD · 1)) remainder)
          order).sum) := by
  induction order generalizing axis remainder inputOffset with
  | nil => simp [permuteOffset]
  | cons dimension order ih =>
    have hextent : shape.dimensions.getD axis 1 ≠ 0 := Nat.pos_iff_ne_zero.mp (hpos 0 (by simp))
    rw [List.length_cons, List.range'_succ, List.map_cons, coordinatesOf, List.zipWith_cons_cons,
      List.sum_cons, ← Nat.add_assoc] at hfits ⊢
    rw [permuteOffset, splitOffset, if_neg hextent]
    have hmul : okOr (checkedMul 64 (remainder % shape.dimensions.getD axis 1)
        (strides.getD (dimension - 1) stride)) (mappingError "permute") = .ok
          (remainder % shape.dimensions.getD axis 1 * strides.getD (dimension - 1) stride) :=
      okOr_eq_ok_iff.mpr (checkedMul_eq_some_iff.mpr ⟨by omega, rfl⟩)
    have hadd : okOr (checkedAdd 64 inputOffset
        (remainder % shape.dimensions.getD axis 1 * strides.getD (dimension - 1) stride))
          (mappingError "permute") = .ok (inputOffset +
            remainder % shape.dimensions.getD axis 1 * strides.getD (dimension - 1) stride) :=
      okOr_eq_ok_iff.mpr (checkedAdd_eq_some_iff.mpr ⟨by omega, rfl⟩)
    simp only [hmul, hadd, bind, Except.bind]
    apply ih _ hfits
    intro k hk
    have hk' := hpos (k + 1) (by simpa using hk)
    rwa [Nat.add_comm k 1, ← Nat.add_assoc] at hk'

/-- The subscripts of the input whose permutation is given. -/
def sourceSubscripts (order subscripts : List Nat) : List Nat :=
  (List.range order.length).map fun j => subscripts.getD (order.idxOf (j + 1)) 1

/-- The subscripts `t` of the input are permuted to `s`: `t(order(k)) = s(k)`. -/
def Permuted (order t s : List Nat) : Prop :=
  t.length = order.length ∧ List.Forall₂ (fun dimension index => t[dimension - 1]? = some index) order s

theorem length_sourceSubscripts (order subscripts : List Nat)
    : (sourceSubscripts order subscripts).length = order.length := by
  rw [sourceSubscripts, List.length_map, List.length_range]

section Subscripts

variable {s t : List Nat} (hperm : order.Perm (List.range' 1 order.length))
include hperm

theorem mem_order {j : Nat} (hj : j < order.length)
    : j + 1 ∈ order := by
  rw [hperm.mem_iff, List.mem_range'_1]
  omega

theorem idxOf_lt {j : Nat} (hj : j < order.length)
    : order.idxOf (j + 1) < order.length :=
  List.idxOf_lt_length_iff.mpr (mem_order hperm hj)

theorem bounds_of_mem {dimension : Nat} (h : dimension ∈ order)
    : 1 ≤ dimension ∧ dimension - 1 < order.length := by
  rw [hperm.mem_iff, List.mem_range'_1] at h
  omega

theorem nodup_order
    : order.Nodup :=
  hperm.nodup_iff.mpr List.nodup_range'

theorem permuted_sourceSubscripts (hs : s.length = order.length)
    : Permuted order (sourceSubscripts order s) s := by
  refine ⟨length_sourceSubscripts order s, ?_⟩
  rw [List.forall₂_iff_get]
  refine ⟨hs.symm, fun k hk hk' => ?_⟩
  obtain ⟨hpos, hlt⟩ := bounds_of_mem hperm (List.getElem_mem hk)
  have hindex : order.idxOf order[k] = k := (nodup_order hperm).idxOf_getElem k hk
  simp only [List.get_eq_getElem, sourceSubscripts, List.getElem?_map, List.getElem?_range hlt, Option.map_some,
    Nat.sub_add_cancel hpos, hindex]
  rw [List.getD_eq_getElem?_getD, List.getElem?_eq_getElem hk', Option.getD_some]

theorem Permuted.eq_sourceSubscripts (h : Permuted order t s)
    : t = sourceSubscripts order s := by
  obtain ⟨hlength, hforall⟩ := h
  apply List.ext_getElem
  . rw [hlength, length_sourceSubscripts]
  . intro j hj hj'
    have hj := hlength ▸ hj
    have hk := idxOf_lt hperm hj
    have hs := hforall.length_eq
    have hget := hforall.get hk (hs ▸ hk)
    simp only [List.get_eq_getElem, List.getElem_idxOf, Nat.add_sub_cancel] at hget
    rw [List.getElem?_eq_getElem (hlength.symm ▸ hj), Option.some.injEq] at hget
    simp only [sourceSubscripts, List.getElem_map, List.getElem_range]
    rw [hget, List.getD_eq_getElem?_getD, List.getElem?_eq_getElem (hs ▸ hk), Option.getD_some]

theorem inRange_sourceSubscripts {dimensions : List Nat}
    (h : Shape.InRange s (permutedDimensions dimensions order))
    : Shape.InRange (sourceSubscripts order s) (padded dimensions order.length) := by
  rw [permutedDimensions, Shape.InRange, List.forall₂_map_right_iff] at h
  rw [sourceSubscripts, padded, Shape.InRange, List.forall₂_map_left_iff, List.forall₂_map_right_iff,
    List.forall₂_same]
  intro j hj
  have hj := List.mem_range.mp hj
  have hk := idxOf_lt hperm hj
  have hk' := h.length_eq ▸ hk
  have hget := h.get hk' hk
  simp only [List.get_eq_getElem, List.getElem_idxOf, Nat.add_sub_cancel] at hget
  rwa [List.getD_eq_getElem?_getD, List.getElem?_eq_getElem hk', Option.getD_some]

/-- The offset of the source is the sum of the digits of the permuted subscripts. -/
theorem Permuted.offsetOf_eq {dimensions : List Nat} (h : Permuted order t s)
    (hrank : dimensions.length ≤ order.length)
    : offsetOf (t.map (· - 1)) (padded dimensions order.length) =
        (List.zipWith (fun coordinate dimension => coordinate * (dimensions.take (dimension - 1)).prod)
          (s.map (· - 1)) order).sum := by
  have hlength : (t.map (· - 1)).length = (padded dimensions order.length).length := by
    rw [List.length_map, length_padded, h.1]
  rw [offsetOf_eq_sum hlength, List.length_map, h.1]
  simp only [prod_take_padded hrank]
  rw [← sum_map_of_perm hperm fun j => (t.map (· - 1)).getD j 0 * (dimensions.take j).prod]
  clear hperm hrank hlength
  obtain ⟨-, hforall⟩ := h
  generalize order = dims at hforall
  induction hforall with
  | nil => rfl
  | @cons dimension index dims s hindex _ ih =>
    rw [List.map_cons, List.sum_cons, List.map_cons, List.zipWith_cons_cons, List.sum_cons, ih,
      List.getD_eq_getElem?_getD, List.getElem?_map, hindex]
    rfl

end Subscripts

theorem AcceptsOrder.two_le (h : AcceptsOrder input order)
    : 2 ≤ order.length :=
  Nat.le_trans input.shape.two_le_ndims h.1

/-- What the output of a permutation shows of the input. -/
structure IsPermutation (order : List Nat) (input output : DenseArray T) : Prop where
  shape : Shape.new (permutedDimensions input.shape.dimensions order) = .ok output.shape
  elements : ∀ s t, Shape.InRange s (padded output.shape.dimensions order.length) → Permuted order t s →
    Shape.InRange t (padded input.shape.dimensions order.length) ∧ output.elementAt s = input.elementAt t

section Accepted

variable {shape : Shape} (h : AcceptsOrder input order)
include h

theorem padded_shape (hshape : Shape.new (permutedDimensions input.shape.dimensions order) = .ok shape)
    : padded shape.dimensions order.length = permutedDimensions input.shape.dimensions order := by
  have hlength : (permutedDimensions input.shape.dimensions order).length = order.length := List.length_map _
  have hpadded := @padded_canonicalDimensions (permutedDimensions input.shape.dimensions order)
    (hlength ▸ h.two_le)
  rwa [hlength, ← Shape.new_eq_ok_iff.mp hshape] at hpadded

theorem ndims_le (hshape : Shape.new (permutedDimensions input.shape.dimensions order) = .ok shape)
    : shape.ndims ≤ order.length := by
  have hlength : (permutedDimensions input.shape.dimensions order).length = order.length := List.length_map _
  rw [Shape.ndims, Shape.new_eq_ok_iff.mp hshape, ← hlength]
  exact length_canonicalDimensions_le (hlength ▸ h.two_le)

/-- The source of an output offset is found, and it is the element at the permuted subscripts. -/
theorem permuteOffset_source (hshape : Shape.new (permutedDimensions input.shape.dimensions order) = .ok shape)
    {s : List Nat} (hs : Shape.InRange s (padded shape.dimensions order.length))
    : permuteOffset shape
        ((List.range input.shape.dimensions.length).map fun j => 1 * (input.shape.dimensions.take j).prod)
        (1 * input.shape.dimensions.prod) 0 order
        (offsetOf (s.map (· - 1)) (padded shape.dimensions order.length)) 0 =
      .ok (offsetOf ((sourceSubscripts order s).map (· - 1))
        (padded input.shape.dimensions order.length)) := by
  have hcoordinates := (Shape.inRange_iff.mp hs).1
  have hlength : s.length = order.length := by rw [hs.length_eq, length_padded]
  have hrange : (List.range' 0 order.length).map (shape.dimensions.getD · 1) =
      padded shape.dimensions order.length := by
    rw [padded, List.range_eq_range']
  have hsource := (permuted_sourceSubscripts h.perm hlength).offsetOf_eq h.perm h.rank_le
  have hin := inRange_sourceSubscripts h.perm (padded_shape h hshape ▸ hs)
  have hlt := DenseArray.offsetOf_lt_length h.1 hin
  rw [input.length_data] at hlt
  have hnumel := input.shape.numel_lt
  have hdigits := @permuteOffset_eq shape
    ((List.range input.shape.dimensions.length).map fun j => 1 * (input.shape.dimensions.take j).prod)
    (1 * input.shape.dimensions.prod) 0
    (offsetOf (s.map (· - 1)) (padded shape.dimensions order.length)) 0 order
  rw [hrange, coordinatesOf_offsetOf hcoordinates] at hdigits
  simp only [strides_getD, ← hsource, Nat.zero_add] at hdigits
  apply hdigits
  . intro k hk
    have hpos := List.Forall₂.get hs (hlength ▸ hk) (by rwa [length_padded])
    simp only [List.get_eq_getElem, getElem_padded] at hpos
    omega
  . omega

theorem exists_permute (hshape : Shape.new (permutedDimensions input.shape.dimensions order) = .ok shape)
    : ∃ output, permute input order = .ok output ∧ IsPermutation order input output := by
  have hrank := ndims_le h hshape
  have hstrides := @sourceStrides_eq 1 input.shape.dimensions (by simpa using input.shape.products_lt)
  obtain ⟨output, houtput, hsame, hdata⟩ := @exists_gathered _ input shape (mappingError "permute")
    (permuteOffset shape
      ((List.range input.shape.dimensions.length).map fun j => 1 * (input.shape.dimensions.take j).prod)
      (1 * input.shape.dimensions.prod) 0 order · 0)
    (fun offset => offsetOf ((sourceSubscripts order
        ((coordinatesOf (padded shape.dimensions order.length) offset).map (· + 1))).map (· - 1))
      (padded input.shape.dimensions order.length))
    (by
      intro offset hoffset
      have hlt : offset < (padded shape.dimensions order.length).prod := by rwa [prod_padded hrank]
      have hs := Shape.inRange_succ (coordinatesOf_lt hlt)
      have hsource := permuteOffset_source h hshape hs
      rw [List.map_map] at hsource
      have hin := inRange_sourceSubscripts h.perm
        (Eq.mp (congrArg (Shape.InRange _) (padded_shape h hshape)) hs)
      have hid : ((fun x => x - 1) ∘ fun x => x + 1) = (id : Nat → Nat) := rfl
      rw [hid, List.map_id, offsetOf_coordinatesOf hlt] at hsource
      exact ⟨hsource, DenseArray.offsetOf_lt_length h.1 hin⟩)
  refine ⟨output, ?_, hsame ▸ hshape, ?_⟩
  . rw [permute, ensure_pos h, hshape]
    simp only [Except.mapError, bind, Except.bind]
    rw [permuteDense, hstrides]
    exact houtput
  . intro s t hs ht
    obtain rfl := ht.eq_sourceSubscripts h.perm
    rw [hsame] at hs
    have hin := inRange_sourceSubscripts h.perm (padded_shape h hshape ▸ hs)
    refine ⟨hin, ?_⟩
    have hlt : offsetOf (s.map (· - 1)) (padded shape.dimensions order.length) < shape.numel := by
      rw [Shape.numel, ← prod_padded hrank]
      exact offsetOf_lt (Shape.inRange_iff.mp hs).1
    have hcoordinates := (Shape.inRange_iff.mp hs).1
    rw [DenseArray.elementAt_eq h.1 hin, DenseArray.elementAt_eq (hsame ▸ hrank) (hsame ▸ hs), hsame,
      hdata _ hlt, coordinatesOf_offsetOf hcoordinates, Shape.map_succ_pred (Shape.inRange_iff.mp hs).2]

end Accepted

/-- The order that undoes an order. -/
def inverseOrder (order : List Nat) : List Nat :=
  (List.range' 1 order.length).map fun dimension => order.idxOf dimension + 1

theorem length_inverseOrder (order : List Nat)
    : (inverseOrder order).length = order.length := by
  rw [inverseOrder, List.length_map, List.length_range']

section Inverse

variable (h : AcceptsOrder input order)
include h

theorem perm_inverseOrder
    : (inverseOrder order).Perm (List.range' 1 (inverseOrder order).length) := by
  rw [length_inverseOrder]
  apply List.Subperm.perm_of_length_le
  . apply List.Nodup.subperm
    . apply List.Nodup.map_on _ List.nodup_range'
      intro j hj k hk heq
      have hj := h.perm.mem_iff.mpr hj
      exact (List.idxOf_inj hj).mp (Nat.succ.inj heq)
    . intro dimension hdimension
      obtain ⟨j, hj, rfl⟩ := List.mem_map.mp hdimension
      have hlt := List.idxOf_lt_length_iff.mpr (h.perm.mem_iff.mpr hj)
      rw [List.mem_range'_1]
      omega
  . rw [length_inverseOrder, List.length_range']

theorem Permuted.inverse {s t : List Nat} (hpermuted : Permuted order t s)
    : Permuted (inverseOrder order) s t := by
  obtain ⟨hlength, hforall⟩ := hpermuted
  refine ⟨by rw [length_inverseOrder, hforall.length_eq], ?_⟩
  rw [List.forall₂_iff_get]
  refine ⟨by rw [length_inverseOrder, hlength], fun j hj hj' => ?_⟩
  have hj := length_inverseOrder order ▸ hj
  have hk := idxOf_lt h.perm hj
  have hget := hforall.get hk (hforall.length_eq ▸ hk)
  simp only [List.get_eq_getElem, List.getElem_idxOf, Nat.add_sub_cancel] at hget
  simp only [List.get_eq_getElem, inverseOrder, List.getElem_map, List.getElem_range', Nat.one_mul,
    Nat.add_sub_cancel, Nat.add_comm 1 j]
  rw [List.getElem?_eq_getElem (hforall.length_eq ▸ hk)]
  rw [List.getElem?_eq_getElem hj', Option.some.injEq] at hget
  rw [hget]

theorem permutedDimensions_inverse {shape : Shape}
    (hshape : Shape.new (permutedDimensions input.shape.dimensions order) = .ok shape)
    : permutedDimensions shape.dimensions (inverseOrder order) =
        padded input.shape.dimensions order.length := by
  have hpadded := padded_shape h hshape
  rw [permutedDimensions, inverseOrder, List.map_map, padded, List.range'_eq_map_range, List.map_map]
  apply List.map_congr_left
  intro j hj
  have hk := idxOf_lt h.perm (List.mem_range.mp hj)
  have hget : (padded shape.dimensions order.length)[order.idxOf (j + 1)]? =
      (permutedDimensions input.shape.dimensions order)[order.idxOf (j + 1)]? := by rw [hpadded]
  rw [List.getElem?_eq_getElem (by rwa [length_padded]), getElem_padded, permutedDimensions,
    List.getElem?_map, List.getElem?_eq_getElem hk, List.getElem_idxOf, Option.map_some,
    Option.some.injEq, Nat.add_sub_cancel] at hget
  simp only [Function.comp_apply, Nat.add_sub_cancel, Nat.add_comm 1 j]
  exact hget

/-- Permuting by the inverse order restores the array. -/
theorem permute_inverseOrder {output : DenseArray T} (houtput : IsPermutation order input output)
    : permute output (inverseOrder order) = .ok input := by
  have haccepts : AcceptsOrder output (inverseOrder order) := by
    refine ⟨length_inverseOrder order ▸ ndims_le h houtput.shape, fun expected hexpected => ?_⟩
    rw [(perm_inverseOrder h).count_eq, List.count_eq_one_of_mem List.nodup_range' hexpected]
  have hrank := h.rank_le
  have hshape : Shape.new (permutedDimensions output.shape.dimensions (inverseOrder order)) =
      .ok input.shape := by
    rw [permutedDimensions_inverse h houtput.shape, Shape.new_eq_ok_iff,
      canonicalDimensions_padded input.shape.two_le_ndims hrank, input.shape.canonical]
  obtain ⟨restored, hrestored, hpermutation⟩ := exists_permute haccepts hshape
  have hsame : restored.shape = input.shape := by
    have hnew := hpermutation.shape
    rw [hshape, Except.ok.injEq] at hnew
    exact hnew.symm
  rw [hrestored, Except.ok.injEq]
  apply DenseArray.ext_of_elementAt hsame (hsame ▸ hrank)
  intro t ht
  have hlength : t.length = order.length := by rw [ht.length_eq, length_padded]
  have hpermuted : Permuted order t (order.map fun dimension => t.getD (dimension - 1) 1) := by
    refine ⟨hlength, ?_⟩
    rw [List.forall₂_map_right_iff, List.forall₂_same]
    intro dimension hdimension
    have hlt := hlength ▸ (bounds_of_mem h.perm hdimension).2
    rw [List.getD_eq_getElem?_getD, List.getElem?_eq_getElem hlt, Option.getD_some]
  have hinverse := hpermuted.inverse h
  rw [← length_inverseOrder order] at ht
  obtain ⟨hs, hat⟩ := hpermutation.elements t _ ht hinverse
  rw [length_inverseOrder] at hs
  rw [hat, (houtput.elements _ _ hs hpermuted).2]

end Inverse

end Permutation

section Repetition

variable {input : DenseArray T}

theorem splitOffset_of_pos {extent : Nat} (h : 0 < extent) (remainder : Nat)
    : splitOffset extent remainder = (remainder % extent, remainder / extent) :=
  if_neg (Nat.pos_iff_ne_zero.mp h)

/-- The offset takes the digits modulo the extents of the input, with the strides of the input. -/
theorem repmatOffset_eq {inputDimensions extents : List Nat} {axis remainder inputOffset inputStride : Nat}
    (hpos : ∀ k < extents.length, 0 < inputDimensions.getD (axis + k) 1) (hextents : ∀ extent ∈ extents, 0 < extent)
    (hstrides : ∀ n, inputStride *
      (((List.range' axis extents.length).map (inputDimensions.getD · 1)).take n).prod < 2 ^ 64)
    (hoffset : inputOffset < inputStride)
    : repmatOffset inputDimensions axis extents remainder inputOffset inputStride = .ok (inputOffset + inputStride *
        offsetOf (List.zipWith (· % ·) (coordinatesOf extents remainder)
          ((List.range' axis extents.length).map (inputDimensions.getD · 1)))
          ((List.range' axis extents.length).map (inputDimensions.getD · 1))) := by
  induction extents generalizing axis remainder inputOffset inputStride with
  | nil => simp [repmatOffset, offsetOf]
  | cons extent extents ih =>
    have hextent : 0 < extent := hextents extent List.mem_cons_self
    have hinput : 0 < inputDimensions.getD axis 1 := hpos 0 (by simp)
    rw [List.length_cons, List.range'_succ, List.map_cons] at hstrides ⊢
    have hnext : inputStride * inputDimensions.getD axis 1 < 2 ^ 64 := by simpa using hstrides 1
    have hdigit : remainder % extent % inputDimensions.getD axis 1 < inputDimensions.getD axis 1 :=
      Nat.mod_lt _ hinput
    have hbound : (remainder % extent % inputDimensions.getD axis 1 + 1) * inputStride ≤
        inputDimensions.getD axis 1 * inputStride := Nat.mul_le_mul_right _ hdigit
    rw [Nat.add_mul, Nat.one_mul, Nat.mul_comm (inputDimensions.getD axis 1)] at hbound
    rw [repmatOffset, splitOffset_of_pos hextent]
    have hmul : okOr (checkedMul 64 (remainder % extent % inputDimensions.getD axis 1) inputStride)
        (mappingError "repmat") = .ok (remainder % extent % inputDimensions.getD axis 1 * inputStride) :=
      okOr_eq_ok_iff.mpr (checkedMul_eq_some_iff.mpr ⟨by omega, rfl⟩)
    have hadd : okOr (checkedAdd 64 inputOffset
        (remainder % extent % inputDimensions.getD axis 1 * inputStride)) (mappingError "repmat") =
          .ok (inputOffset + remainder % extent % inputDimensions.getD axis 1 * inputStride) :=
      okOr_eq_ok_iff.mpr (checkedAdd_eq_some_iff.mpr ⟨by omega, rfl⟩)
    have hstride : okOr (checkedMul 64 inputStride (inputDimensions.getD axis 1)) (mappingError "repmat") =
        .ok (inputStride * inputDimensions.getD axis 1) :=
      okOr_eq_ok_iff.mpr (checkedMul_eq_some_iff.mpr ⟨hnext, rfl⟩)
    have htail := @ih (axis + 1) (remainder / extent)
      (inputOffset + remainder % extent % inputDimensions.getD axis 1 * inputStride)
      (inputStride * inputDimensions.getD axis 1)
      (by
        intro k hk
        have hk' := hpos (k + 1) (by simpa using hk)
        rwa [Nat.add_comm k 1, ← Nat.add_assoc] at hk')
      (fun extent h => hextents extent (List.mem_cons_of_mem _ h))
      (by
        intro n
        have hn := hstrides (n + 1)
        rwa [List.take_succ_cons, List.prod_cons, ← mul_assoc] at hn)
      (by omega)
    simp only [splitOffset_of_pos hinput, hmul, hadd, hstride, bind, Except.bind, htail, coordinatesOf,
      List.zipWith_cons_cons, offsetOf]
    congr 1
    ring

/-- The extents of the output: as many as the input has dimensions or as there are counts. -/
def repeatedExtents (inputDimensions repetitions : List Nat) : List Nat :=
  (List.range (max inputDimensions.length repetitions.length)).map fun index =>
    inputDimensions.getD index 1 * repetitions.getD index 1

/-- The subscripts of the input that repeated subscripts stand for. -/
def repeatedSubscripts (inputDimensions subscripts : List Nat) : List Nat :=
  subscripts.mapIdx fun dimension index => (index - 1) % inputDimensions.getD dimension 1 + 1

theorem zipWith_mod_zeros {count : Nat} {extents : List Nat} (h : extents.length = count)
    : List.zipWith (· % ·) (List.replicate count 0) extents = List.replicate count 0 := by
  subst h
  induction extents with
  | nil => rfl
  | cons extent extents ih =>
    rw [List.length_cons, List.replicate_succ, List.zipWith_cons_cons, ih, Nat.zero_mod]

section Repeated

variable {shape : Shape} {repetitions : List Nat}

/-- What the output of a repetition shows of the input. -/
structure IsRepetition (repetitions : List Nat) (input output : DenseArray T) : Prop where
  shape : Shape.new (repeatedExtents input.shape.dimensions repetitions) = .ok output.shape
  elements : ∀ s, Shape.InRange s (padded output.shape.dimensions
      (max input.shape.dimensions.length repetitions.length)) →
    Shape.InRange (repeatedSubscripts input.shape.dimensions s)
        (padded input.shape.dimensions (max input.shape.dimensions.length repetitions.length)) ∧
      output.elementAt s = input.elementAt (repeatedSubscripts input.shape.dimensions s)

theorem length_repeatedExtents (inputDimensions repetitions : List Nat)
    : (repeatedExtents inputDimensions repetitions).length =
        max inputDimensions.length repetitions.length := by
  rw [repeatedExtents, List.length_map, List.length_range]

theorem two_le_max (input : DenseArray T) (repetitions : List Nat)
    : 2 ≤ max input.shape.dimensions.length repetitions.length :=
  Nat.le_trans input.shape.two_le_ndims (Nat.le_max_left _ _)

variable (hshape : Shape.new (repeatedExtents input.shape.dimensions repetitions) = .ok shape)
include hshape

theorem padded_repeated
    : padded shape.dimensions (max input.shape.dimensions.length repetitions.length) =
        repeatedExtents input.shape.dimensions repetitions := by
  have hlength := length_repeatedExtents input.shape.dimensions repetitions
  have hpadded := @padded_canonicalDimensions (repeatedExtents input.shape.dimensions repetitions)
    (hlength ▸ two_le_max input repetitions)
  rwa [hlength, ← Shape.new_eq_ok_iff.mp hshape] at hpadded

theorem ndims_repeated_le
    : shape.ndims ≤ max input.shape.dimensions.length repetitions.length := by
  have hlength := length_repeatedExtents input.shape.dimensions repetitions
  rw [Shape.ndims, Shape.new_eq_ok_iff.mp hshape, ← hlength]
  exact length_canonicalDimensions_le (hlength ▸ two_le_max input repetitions)

theorem repeated_extent_pos (hnumel : 0 < shape.numel) {k : Nat}
    (hk : k < max input.shape.dimensions.length repetitions.length)
    : 0 < input.shape.dimensions.getD k 1 := by
  rw [Shape.numel, ← prod_padded (ndims_repeated_le hshape), padded_repeated hshape] at hnumel
  apply Nat.pos_of_ne_zero
  intro hzero
  have hmem : 0 ∈ repeatedExtents input.shape.dimensions repetitions :=
    List.mem_map.mpr ⟨k, List.mem_range.mpr hk, by rw [hzero, Nat.zero_mul]⟩
  rw [List.prod_eq_zero hmem] at hnumel
  exact absurd hnumel (Nat.lt_irrefl 0)

theorem repeatedSubscripts_inRange {s : List Nat} (hnumel : 0 < shape.numel)
    (hs : s.length = max input.shape.dimensions.length repetitions.length)
    : Shape.InRange (repeatedSubscripts input.shape.dimensions s)
        (padded input.shape.dimensions (max input.shape.dimensions.length repetitions.length)) := by
  rw [Shape.InRange, List.forall₂_iff_get]
  refine ⟨by rw [repeatedSubscripts, List.length_mapIdx, length_padded, hs], fun k hk hk' => ?_⟩
  have hpos := repeated_extent_pos hshape hnumel (by rwa [length_padded] at hk')
  simp only [List.get_eq_getElem, repeatedSubscripts, List.getElem_mapIdx, getElem_padded]
  refine ⟨Nat.succ_pos _, Nat.mod_lt _ hpos⟩

omit hshape in
theorem map_pred_repeatedSubscripts {inputDimensions s : List Nat} {n : Nat} (hs : s.length = n)
    : (repeatedSubscripts inputDimensions s).map (· - 1) =
        List.zipWith (· % ·) (s.map (· - 1)) (padded inputDimensions n) := by
  apply List.ext_getElem
  . simp [repeatedSubscripts, hs]
  . intro k hk hk'
    simp [repeatedSubscripts, getElem_padded]

/-- The source of an output offset is the element at the repeated subscripts. -/
theorem repmatOffset_source {s : List Nat}
    (hs : Shape.InRange s (padded shape.dimensions
      (max input.shape.dimensions.length repetitions.length)))
    : repmatOffset input.shape.dimensions 0 shape.dimensions
        (offsetOf (s.map (· - 1)) (padded shape.dimensions
          (max input.shape.dimensions.length repetitions.length))) 0 1 =
      .ok (offsetOf ((repeatedSubscripts input.shape.dimensions s).map (· - 1))
        (padded input.shape.dimensions (max input.shape.dimensions.length repetitions.length))) := by
  have hrank : shape.dimensions.length ≤ max input.shape.dimensions.length repetitions.length :=
    ndims_repeated_le hshape
  have hcoordinates := (Shape.inRange_iff.mp hs).1
  have hlength : s.length = max input.shape.dimensions.length repetitions.length := by
    rw [hs.length_eq, length_padded]
  have hlt := offsetOf_lt hcoordinates
  have hnumel : 0 < shape.numel := by
    rw [Shape.numel, ← prod_padded hrank]
    exact Nat.zero_lt_of_lt hlt
  have hrange : (List.range' 0 shape.dimensions.length).map (input.shape.dimensions.getD · 1) =
      padded input.shape.dimensions shape.dimensions.length := by
    rw [padded, List.range_eq_range']
  have happend : padded input.shape.dimensions (max input.shape.dimensions.length repetitions.length) =
      padded input.shape.dimensions shape.dimensions.length ++
        (padded input.shape.dimensions (max input.shape.dimensions.length repetitions.length)).drop
          shape.dimensions.length := by
    conv_lhs => rw [← List.take_append_drop shape.dimensions.length (padded input.shape.dimensions _),
      take_padded, Nat.min_eq_left hrank]
  have hdigits := coordinatesOf_offsetOf hcoordinates
  rw [padded_eq_append hrank, coordinatesOf_append, coordinatesOf_ones, ← padded_eq_append hrank] at hdigits
  have hmapped := @repmatOffset_eq input.shape.dimensions shape.dimensions 0
    (offsetOf (s.map (· - 1)) (padded shape.dimensions
      (max input.shape.dimensions.length repetitions.length))) 0 1
    (by
      intro k hk
      rw [Nat.zero_add]
      exact repeated_extent_pos hshape hnumel (Nat.lt_of_lt_of_le hk hrank))
    (fun extent hextent => Nat.pos_of_ne_zero fun hzero => by
      rw [Shape.numel, List.prod_eq_zero (hzero ▸ hextent)] at hnumel
      exact absurd hnumel (Nat.lt_irrefl 0))
    (by
      intro n
      rw [hrange, Nat.one_mul, take_padded, prod_padded_eq]
      exact input.shape.products_lt _)
    Nat.one_pos
  rw [hmapped]
  clear hmapped
  generalize offsetOf (s.map (· - 1)) (padded shape.dimensions
    (max input.shape.dimensions.length repetitions.length)) = offset at hdigits
  rw [hrange, map_pred_repeatedSubscripts hlength, happend, ← hdigits, List.zipWith_append,
    zipWith_mod_zeros, offsetOf_append, offsetOf_zeros, Nat.mul_zero, Nat.add_zero, Nat.one_mul, Nat.zero_add]
  . simp
  . simp
  . simp

theorem exists_repmatDense
    : ∃ output, repmatDense input input.shape.dimensions shape = .ok output ∧
        IsRepetition repetitions input output := by
  have hrank := ndims_repeated_le hshape
  have hinputRank := Nat.le_max_left input.shape.dimensions.length repetitions.length
  obtain ⟨output, houtput, hsame, hdata⟩ := @exists_gathered _ input shape (mappingError "repmat")
    (repmatOffset input.shape.dimensions 0 shape.dimensions · 0 1)
    (fun offset => offsetOf ((repeatedSubscripts input.shape.dimensions
        ((coordinatesOf (padded shape.dimensions
          (max input.shape.dimensions.length repetitions.length)) offset).map (· + 1))).map (· - 1))
      (padded input.shape.dimensions (max input.shape.dimensions.length repetitions.length)))
    (by
      intro offset hoffset
      have hlt : offset < (padded shape.dimensions
          (max input.shape.dimensions.length repetitions.length)).prod := by rwa [prod_padded hrank]
      have hs := Shape.inRange_succ (coordinatesOf_lt hlt)
      have hsource := repmatOffset_source hshape hs
      rw [List.map_map] at hsource
      have hin := repeatedSubscripts_inRange hshape (Nat.zero_lt_of_lt hoffset)
        (by rw [hs.length_eq, length_padded])
      have hid : ((fun x => x - 1) ∘ fun x => x + 1) = (id : Nat → Nat) := rfl
      rw [hid, List.map_id, offsetOf_coordinatesOf hlt] at hsource
      exact ⟨hsource, DenseArray.offsetOf_lt_length hinputRank hin⟩)
  refine ⟨output, houtput, hsame ▸ hshape, ?_⟩
  intro s hs
  rw [hsame] at hs
  have hcoordinates := (Shape.inRange_iff.mp hs).1
  have hlt : offsetOf (s.map (· - 1)) (padded shape.dimensions
      (max input.shape.dimensions.length repetitions.length)) < shape.numel := by
    rw [Shape.numel, ← prod_padded hrank]
    exact offsetOf_lt hcoordinates
  have hin := repeatedSubscripts_inRange hshape (Nat.zero_lt_of_lt hlt)
    (by rw [hs.length_eq, length_padded])
  refine ⟨hin, ?_⟩
  rw [DenseArray.elementAt_eq hinputRank hin, DenseArray.elementAt_eq (hsame ▸ hrank) (hsame ▸ hs), hsame,
    hdata _ hlt, coordinatesOf_offsetOf hcoordinates, Shape.map_succ_pred (Shape.inRange_iff.mp hs).2]

end Repeated

section Shapes

variable {repetitions : List Nat}

theorem repmatShape_eq (hne : repetitions ≠ [])
    (hfits : ∀ extent ∈ repeatedExtents input.shape.dimensions (doubledRepetitions repetitions),
      extent < 2 ^ 64)
    : repmatShape input.shape.dimensions repetitions =
        (Shape.new (repeatedExtents input.shape.dimensions (doubledRepetitions repetitions))).mapError
          arrayError := by
  rw [repmatShape, ensure_pos hne]
  have hextents : ((List.range (max input.shape.dimensions.length (doubledRepetitions repetitions).length)).mapM
      fun index => okOr (checkedMul 64 (input.shape.dimensions.getD index 1)
        ((doubledRepetitions repetitions).getD index 1)) repmatOverflow) =
      .ok (repeatedExtents input.shape.dimensions (doubledRepetitions repetitions)) := by
    rw [forall₂_of_mapM_eq_ok, repeatedExtents, List.forall₂_map_right_iff, List.forall₂_same]
    intro index hindex
    have hlt := hfits _ (List.mem_map.mpr ⟨index, hindex, rfl⟩)
    exact okOr_eq_ok_iff.mpr (checkedMul_eq_some_iff.mpr ⟨hlt, rfl⟩)
  simp only [bind, Except.bind, hextents]

theorem repmatShape_overflow (hne : repetitions ≠ [])
    (hoverflow : ∃ extent ∈ repeatedExtents input.shape.dimensions (doubledRepetitions repetitions),
      2 ^ 64 ≤ extent)
    : repmatShape input.shape.dimensions repetitions = .error repmatOverflow := by
  obtain ⟨_, hmem, hge⟩ := hoverflow
  obtain ⟨index, hindex, rfl⟩ := List.mem_map.mp hmem
  rw [repmatShape, ensure_pos hne]
  cases hextents : (List.range (max input.shape.dimensions.length (doubledRepetitions repetitions).length)).mapM
      fun index => okOr (checkedMul 64 (input.shape.dimensions.getD index 1)
        ((doubledRepetitions repetitions).getD index 1)) repmatOverflow with
  | ok extents =>
    have hall := List.forall₂_iff_get.mp (forall₂_of_mapM_eq_ok.mp hextents)
    have hlt := List.mem_range.mp hindex
    have hget := hall.2 index (by simpa using hlt) (by rw [← hall.1]; simpa using hlt)
    simp only [List.get_eq_getElem, List.getElem_range] at hget
    have hfits := (checkedMul_eq_some_iff.mp (okOr_eq_ok_iff.mp hget)).1
    omega
  | error failure =>
    have hraises : Raises (· = repmatOverflow) (.error failure : Except Failure (List Nat)) := by
      rw [← hextents]
      apply Raises.mapM
      intro index _ e he
      cases hproduct : checkedMul 64 (input.shape.dimensions.getD index 1)
          ((doubledRepetitions repetitions).getD index 1) <;> rw [hproduct] at he <;> cases he
      rfl
    simp only [bind, Except.bind, hextents, hraises failure rfl]

end Shapes

end Repetition

/-- Both select the elements that their subscripts say, wherever the shape of the output is one. -/
theorem rearrangement_correct (input : DenseArray T)
    : (∀ order, AcceptsOrder input order →
        (∀ shape, Shape.new (permutedDimensions input.shape.dimensions order) = .ok shape →
          ∃ output, permute input order = .ok output ∧ IsPermutation order input output ∧
            permute output (inverseOrder order) = .ok input) ∧
        ∀ e, Shape.new (permutedDimensions input.shape.dimensions order) = .error e →
          permute input order = .error (arrayError e)) ∧
      ∀ repetitions, repetitions ≠ [] →
        ((∀ extent ∈ repeatedExtents input.shape.dimensions (doubledRepetitions repetitions),
            extent < 2 ^ 64) →
          (∀ shape, Shape.new (repeatedExtents input.shape.dimensions (doubledRepetitions repetitions)) =
              .ok shape →
            ∃ output, repmat input repetitions = .ok output ∧
              IsRepetition (doubledRepetitions repetitions) input output) ∧
          ∀ e, Shape.new (repeatedExtents input.shape.dimensions (doubledRepetitions repetitions)) =
              .error e →
            repmat input repetitions = .error (arrayError e)) ∧
        ((∃ extent ∈ repeatedExtents input.shape.dimensions (doubledRepetitions repetitions),
            2 ^ 64 ≤ extent) →
          repmat input repetitions = .error repmatOverflow) := by
  constructor
  . intro order h
    constructor
    . intro shape hshape
      obtain ⟨output, houtput, hpermutation⟩ := exists_permute h hshape
      exact ⟨output, houtput, hpermutation, permute_inverseOrder h hpermutation⟩
    . intro e he
      rw [permute, ensure_pos h, he]
      rfl
  . intro repetitions hne
    constructor
    . intro hfits
      constructor
      . intro shape hshape
        obtain ⟨output, houtput, hrepetition⟩ := exists_repmatDense hshape
        refine ⟨output, ?_, hrepetition⟩
        rw [repmat, repmatShape_eq hne hfits, hshape]
        exact houtput
      . intro e he
        rw [repmat, repmatShape_eq hne hfits, he]
        rfl
    . intro hoverflow
      rw [repmat, repmatShape_overflow hne hoverflow]
      rfl

/-- Two pages of two rows and three columns. -/
def pages : DenseArray Nat where
  shape := ⟨[2, 3, 2], by decide, Arrays.products_lt_iff.mpr (by decide)⟩
  data := List.range' 1 12
  length_data := by decide

theorem rearrangement_correct_pages
    : (∃ output, permute pages [3, 1, 2] = .ok output ∧ IsPermutation [3, 1, 2] pages output ∧
          permute output (inverseOrder [3, 1, 2]) = .ok pages ∧
          output.data = [1, 7, 2, 8, 3, 9, 4, 10, 5, 11, 6, 12]) ∧
        ∃ output, repmat pages [1, 2] = .ok output ∧ IsRepetition [1, 2] pages output ∧
          output.data = [1, 2, 3, 4, 5, 6, 1, 2, 3, 4, 5, 6, 7, 8, 9, 10, 11, 12, 7, 8, 9, 10, 11, 12] := by
  have hpermuted : ∃ shape, Shape.new (permutedDimensions pages.shape.dimensions [3, 1, 2]) = .ok shape := ⟨_, rfl⟩
  have hrepeated : ∃ shape, Shape.new (repeatedExtents pages.shape.dimensions (doubledRepetitions [1, 2])) =
      .ok shape := ⟨_, rfl⟩
  obtain ⟨hpermute, hrepmat⟩ := rearrangement_correct pages
  constructor
  . obtain ⟨shape, hshape⟩ := hpermuted
    obtain ⟨output, houtput, hpermutation, hinverse⟩ := (hpermute [3, 1, 2] (by decide)).1 shape hshape
    refine ⟨output, houtput, hpermutation, hinverse, ?_⟩
    cases houtput
    rfl
  . obtain ⟨shape, hshape⟩ := hrepeated
    obtain ⟨output, houtput, hrepetition⟩ := ((hrepmat [1, 2] (by decide)).1 (by decide)).1 shape hshape
    refine ⟨output, houtput, hrepetition, ?_⟩
    cases houtput
    rfl

/-- No elements, in dimensions whose order matters for the check of their products. -/
def wide : DenseArray Bool where
  shape := ⟨[0, 2 ^ 32, 2 ^ 32], by decide, Arrays.products_lt_iff.mpr (by decide)⟩
  data := []
  length_data := by decide

/-- The dimensions of the output are refused, although the order and the counts are accepted. -/
theorem rearrangement_overflow
    : AcceptsOrder wide [2, 3, 1] ∧ (∀ output, permute wide [2, 3, 1] ≠ .ok output) ∧
        ∀ output, repmat wide [2 ^ 32, 2 ^ 32] ≠ .ok output := by
  refine ⟨by decide, ?_, ?_⟩
  . intro output h
    rw [permute, ensure_pos (by decide)] at h
    cases hshape : Shape.new (permutedDimensions wide.shape.dimensions [2, 3, 1]) with
    | error e =>
      rw [hshape] at h
      cases h
    | ok shape =>
      have hfits := Shape.exists_new_iff.mp ⟨shape, hshape⟩ 2
      exact absurd hfits (by decide)
  . intro output h
    rw [repmat, repmatShape_overflow (by simp) ⟨2 ^ 64, by decide, le_rfl⟩] at h
    cases h

end Builtins
end OpenMat
