import OpenMat.Arrays.Elements
import OpenMat.Builtins.Words
import OpenMat.Indexing.Broadcast

/-!
This module contains where the elements of operands meet: an operand of one element is expanded to the shape of the
other ones, and the operands of the binary functions are broadcast.
-/

namespace OpenMat
namespace Builtins
namespace Bitwise

open Arrays (Shape DenseArray)
open Indexing (Conform Fits broadcastDimensions projected)
open Indexing.BroadcastPlan (extentsOf stridesOf dot)
open Sequence (coordinatesOf offsetOf)

/-! Scalar expansion. -/

/-- The output has the shape of the operands, but for the ones of one element. -/
structure Expands (shapes : List Shape) (output : Shape) : Prop where
  mem : output ∈ shapes
  agree : ∀ shape ∈ shapes, shape.numel = 1 ∨ shape = output

/-- The offset of the element of an operand that an element of the output is computed of. -/
def expanded (shape : Shape) (offset : Nat) : Nat := if shape.numel = 1 then 0 else offset

variable {name : String} {shapes : List Shape} {shape output : Shape} {controls : List RealControlView}

theorem expanded_lt {offset : Nat} (h : shape.numel = 1 ∨ shape = output) (hlt : offset < output.numel)
    : expanded shape offset < shape.numel := by
  rw [expanded]
  split
  . omega
  . next hne =>
    rw [h.resolve_left hne]
    exact hlt

theorem checkedNumel_eq {total : Nat} {extents : List Nat} (h : ∀ n, total * (extents.take n).prod < 2 ^ 64)
    : checkedNumel name total extents = .ok (total * extents.prod) := by
  induction extents generalizing total with
  | nil => rw [checkedNumel, List.prod_nil, mul_one]
  | cons extent extents ih =>
    have hone : total * extent < 2 ^ 64 := by simpa using h 1
    rw [checkedNumel, checkedMul_eq_some_iff.mpr ⟨hone, rfl⟩]
    show checkedNumel name (total * extent) extents = _
    rw [ih, List.prod_cons, mul_assoc]
    intro n
    have hn := h (n + 1)
    rwa [List.take_succ_cons, List.prod_cons, ← mul_assoc] at hn

/-- The dimensions are none while all operands have one element. -/
theorem expandDimensions_eq {dimensions : Option (List Nat)}
    (hdimensions : ∀ existing ∈ dimensions, existing = output.dimensions)
    (h : ∀ control ∈ controls, control.shape.numel = 1 ∨ control.shape = output)
    : expandDimensions name dimensions controls = .ok
        (if ∀ control ∈ controls, control.shape.numel = 1 then dimensions else some output.dimensions) := by
  induction controls generalizing dimensions with
  | nil => simp [expandDimensions]
  | cons control controls ih =>
    rw [List.forall_mem_cons] at h
    simp only [List.forall_mem_cons]
    unfold expandDimensions
    rw [RealControlView.numel]
    by_cases hscalar : control.shape.numel = 1
    . rw [if_pos hscalar, ih hdimensions h.2]
      simp only [hscalar, true_and]
    . have hsome : ∀ existing ∈ some output.dimensions, existing = output.dimensions := by
        rintro _ ⟨⟩
        rfl
      have hrest := ih hsome h.2
      rw [ite_self] at hrest
      have hnot : ¬(control.shape.numel = 1 ∧ ∀ control ∈ controls, control.shape.numel = 1) :=
        fun hall => hscalar hall.1
      rw [if_neg hscalar, if_neg hnot, h.1.resolve_left hscalar]
      cases dimensions with
      | none => exact hrest
      | some existing =>
        obtain rfl := hdimensions existing rfl
        show (do
          ensure (output.dimensions = output.dimensions) (shapeError name)
          expandDimensions name (some output.dimensions) controls) = _
        rw [ensure_pos rfl]
        exact hrest

theorem scalarExpansionShape_eq (h : Expands (shape :: controls.map RealControlView.shape) output)
    : scalarExpansionShape name shape.dimensions controls = .ok output := by
  have hagree := h.agree
  rw [List.forall_mem_cons, List.forall_mem_map] at hagree
  have hnumel : checkedNumel name 1 shape.dimensions = .ok shape.numel := by
    rw [checkedNumel_eq fun n => by rw [one_mul]; exact shape.products_lt n, one_mul]
    rfl
  have hdimensions : ∀ existing ∈ (if shape.numel = 1 then none else some shape.dimensions),
      existing = output.dimensions := by
    intro existing hexisting
    split at hexisting
    . cases hexisting
    . next hne =>
      cases hexisting
      rw [hagree.1.resolve_left hne]
  have hresult : ((if ∀ control ∈ controls, control.shape.numel = 1 then
      (if shape.numel = 1 then none else some shape.dimensions) else some output.dimensions).getD shape.dimensions) =
        output.dimensions := by
    split
    . next hscalars =>
      split
      . next hscalar =>
        have hones : ∀ operand ∈ shape :: controls.map RealControlView.shape, operand = Shape.scalar := by
          rw [List.forall_mem_cons, List.forall_mem_map]
          exact ⟨Shape.eq_scalar_of_numel hscalar, fun control hcontrol => Shape.eq_scalar_of_numel (hscalars control hcontrol)⟩
        rw [Option.getD_none, Shape.eq_scalar_of_numel hscalar, hones output h.mem]
      . next hne => rw [Option.getD_some, hagree.1.resolve_left hne]
    . rw [Option.getD_some]
  rw [scalarExpansionShape, hnumel]
  show (do
    let dimensions ← expandDimensions name (if shape.numel = 1 then none else some shape.dimensions) controls
    (Shape.new (dimensions.getD shape.dimensions)).mapError fun _ => allocationError name) = _
  rw [expandDimensions_eq hdimensions hagree.2]
  show (Shape.new _).mapError _ = _
  rw [hresult, Shape.new_dimensions]
  rfl

/-! Broadcasting. -/

/-- The output of operands whose extents agree, or are one. -/
structure Broadcasts (left right output : Shape) : Prop where
  conform : ∀ axis, Conform (left.extent axis) (right.extent axis)
  shape : Shape.new (broadcastDimensions left.dimensions right.dimensions) = .ok output

/-- The offset of the element of one of two operands that is broadcast to an element of the output. -/
def broadcastFrom (operand left right : Shape) (offset : Nat) : Nat :=
  Indexing.broadcastOffset (extentsOf operand.dimensions (max left.ndims right.ndims))
    (coordinatesOf (broadcastDimensions left.dimensions right.dimensions) offset)

theorem mapM_eq_ok {ε α β : Type} {f : α → Except ε β} {g : α → β} {l : List α} (h : ∀ a ∈ l, f a = .ok (g a))
    : l.mapM f = .ok (l.map g) := by
  rw [forall₂_of_mapM_eq_ok, List.forall₂_map_right_iff, List.forall₂_same]
  exact h

theorem implicitExtent_eq {left right : Nat} (h : Conform left right)
    : implicitExtent name left right = .ok (Indexing.broadcastExtent left right) := by
  rw [implicitExtent, Indexing.broadcastExtent]
  rcases h with rfl | rfl | rfl
  . rw [if_pos rfl, ite_self]
  . rw [if_pos rfl, if_pos rfl]
    split
    . next h => rw [h]
    . rfl
  . rw [if_pos rfl]
    split
    . next h => rw [h]
    . rfl

theorem implicitShape_eq {left right : Shape} (h : Broadcasts left right output)
    : implicitShape name left.dimensions right.dimensions = .ok output := by
  have hrank : max (max left.dimensions.length right.dimensions.length) 2 =
      max left.dimensions.length right.dimensions.length :=
    max_eq_left (left.two_le_ndims.trans (Nat.le_max_left _ _))
  have hextents : (List.range (max left.dimensions.length right.dimensions.length)).mapM (fun axis =>
      implicitExtent name (left.dimensions.getD axis 1) (right.dimensions.getD axis 1)) =
        .ok (broadcastDimensions left.dimensions right.dimensions) := by
    have hconform : ∀ axis ∈ List.range (max left.dimensions.length right.dimensions.length),
        implicitExtent name (left.dimensions.getD axis 1) (right.dimensions.getD axis 1) =
          .ok (Indexing.broadcastExtent (left.dimensions.getD axis 1) (right.dimensions.getD axis 1)) :=
      fun axis _ => implicitExtent_eq (h.conform axis)
    rw [mapM_eq_ok hconform, broadcastDimensions, extentsOf, extentsOf, List.zipWith_map_left, List.zipWith_map_right, List.zipWith_self]
  simp only [implicitShape, hrank, hextents]
  show (Shape.new _).mapError _ = _
  rw [h.shape]
  rfl

theorem broadcastAxes_eq {input : List Nat} {n k m offset inputStride : Nat} (hrank : k + m = output.ndims)
    (hpos : 0 < output.numel)
    (hstrides : ∀ j, inputStride * (((List.range' k m).map (input.getD · 1)).take j).prod < 2 ^ 64)
    (hoffset : offset + inputStride * Indexing.broadcastOffset ((List.range' k m).map (input.getD · 1))
      (coordinatesOf (output.dimensions.drop k) (n / (output.dimensions.take k).prod)) < 2 ^ 64)
    : broadcastAxes name n output input (List.range' k m) offset inputStride =
        .ok (offset + inputStride * Indexing.broadcastOffset ((List.range' k m).map (input.getD · 1))
          (coordinatesOf (output.dimensions.drop k) (n / (output.dimensions.take k).prod))) := by
  induction m generalizing k offset inputStride with
  | zero => rfl
  | succ m ih =>
    have hk : k < output.dimensions.length := by
      rw [Shape.ndims] at hrank
      omega
    have hextent : output.dimensions[k] = output.extent k := by
      rw [Shape.extent, List.getD_eq_getElem _ _ hk]
    have htake : (output.dimensions.take (k + 1)).prod = (output.dimensions.take k).prod * output.extent k := by
      rw [List.take_add_one, List.getElem?_eq_getElem hk, Option.toList_some, List.prod_append, List.prod_singleton,
        hextent]
    have hprod : stride output k ≠ 0 := by
      rw [Shape.numel, ← List.prod_take_mul_prod_drop output.dimensions k] at hpos
      exact (Nat.pos_of_mul_pos_right hpos).ne'
    rw [List.drop_eq_getElem_cons hk, List.range'_succ, List.map_cons, coordinatesOf, hextent,
      Nat.div_div_eq_div_mul, ← htake, Indexing.broadcastOffset, List.zipWith_cons_cons, offsetOf, projected,
      ← Indexing.broadcastOffset, Nat.mul_add, ← Nat.mul_assoc, ← Nat.add_assoc] at hoffset ⊢
    have hone : inputStride * input.getD k 1 < 2 ^ 64 := by
      simpa [List.range'_succ] using hstrides 1
    have hrest : ∀ j, inputStride * input.getD k 1 * (((List.range' (k + 1) m).map (input.getD · 1)).take j).prod <
        2 ^ 64 := by
      intro j
      have hj := hstrides (j + 1)
      rwa [List.range'_succ, List.map_cons, List.take_succ_cons, List.prod_cons, ← Nat.mul_assoc] at hj
    have haxis : addAxis name n output k (input.getD k 1) offset inputStride = .ok (offset + inputStride *
        (if input.getD k 1 = 1 then 0 else n / (output.dimensions.take k).prod % output.extent k)) := by
      rw [addAxis]
      split
      . rw [Nat.mul_zero, Nat.add_zero]
      . next hne =>
        rw [if_neg hne] at hoffset
        have hextent : output.extent k ≠ 0 := by
          rw [← hextent]
          intro hzero
          have hdvd := List.dvd_prod (List.getElem_mem hk)
          rw [hzero] at hdvd
          exact hpos.ne' (Nat.eq_zero_of_zero_dvd hdvd)
        rw [ensure_pos hextent, divide, if_neg hprod]
        show (do
          let distance ← okOr (checkedMul 64 (n / stride output k % output.extent k) inputStride) (mappingError name)
          okOr (checkedAdd 64 offset distance) (mappingError name)) = _
        rw [stride]
        generalize n / (output.dimensions.take k).prod % output.extent k = coordinate at hoffset ⊢
        rw [Nat.mul_comm] at hoffset
        rw [Nat.mul_comm inputStride, checkedMul_eq_some_iff.mpr ⟨by omega, rfl⟩]
        exact okOr_eq_ok_iff.mpr (checkedAdd_eq_some_iff.mpr ⟨by omega, rfl⟩)
    unfold broadcastAxes
    show (do
      let offset ← addAxis name n output k (input.getD k 1) offset inputStride
      let inputStride ← okOr (checkedMul 64 inputStride (input.getD k 1)) (mappingError name)
      broadcastAxes name n output input (List.range' (k + 1) m) offset inputStride) = _
    rw [haxis]
    show (do
      let inputStride ← okOr (checkedMul 64 inputStride (input.getD k 1)) (mappingError name)
      broadcastAxes name n output input (List.range' (k + 1) m) _ inputStride) = _
    rw [checkedMul_eq_some_iff.mpr ⟨hone, rfl⟩]
    exact ih (by omega) hrest hoffset

theorem stridesOf_append (extents extents' : List Nat) (stride : Nat)
    : stridesOf stride (extents ++ extents') = stridesOf stride extents ++ stridesOf (stride * extents.prod) extents' := by
  induction extents generalizing stride with
  | nil => rw [List.nil_append, stridesOf, List.nil_append, List.prod_nil, Nat.mul_one]
  | cons extent extents ih => rw [List.cons_append, stridesOf, stridesOf, ih, List.prod_cons, List.cons_append, mul_assoc]

theorem extentsOf_add (dimensions : List Nat) (rank more : Nat)
    : ∃ rest, extentsOf dimensions (rank + more) = extentsOf dimensions rank ++ rest :=
  ⟨_, by rw [extentsOf, extentsOf, List.range_add, List.map_append]⟩

theorem fits_extentsOf (shape : Shape) (rank : Nat)
    : Fits (extentsOf shape.dimensions rank) := by
  have hfits := (Indexing.BroadcastPlan.fits_extentsOf (Nat.le_max_right rank shape.ndims)).mpr shape.products_lt
  have htake : extentsOf shape.dimensions rank = (extentsOf shape.dimensions (max rank shape.ndims)).take rank := by
    rw [extentsOf, extentsOf, ← List.map_take, List.take_range, Nat.min_eq_left (Nat.le_max_left _ _)]
  intro n
  rw [htake, List.take_take]
  exact hfits _

/-- The dimensions that the canonical shape of the output lacks add nothing. -/
theorem broadcastOffset_canonical {left right : Shape} (h : Broadcasts left right output) (dimensions : List Nat)
    (n : Nat)
    : Indexing.broadcastOffset (extentsOf dimensions output.ndims) (coordinatesOf output.dimensions n) =
        Indexing.broadcastOffset (extentsOf dimensions (max left.ndims right.ndims))
          (coordinatesOf (broadcastDimensions left.dimensions right.dimensions) n) := by
  have hlength := Indexing.BroadcastPlan.length_broadcastDimensions left.dimensions right.dimensions
  have htwo : 2 ≤ (broadcastDimensions left.dimensions right.dimensions).length := by
    rw [hlength]
    exact left.two_le_ndims.trans (Nat.le_max_left _ _)
  have hdimensions := Shape.new_eq_ok_iff.mp h.shape
  have hle : output.ndims ≤ max left.ndims right.ndims := by
    rw [Shape.ndims, hdimensions, Shape.ndims, Shape.ndims, ← hlength]
    exact Arrays.length_canonicalDimensions_le htwo
  obtain ⟨rest, hrest⟩ := extentsOf_add dimensions output.ndims (max left.ndims right.ndims - output.ndims)
  rw [Nat.add_sub_cancel' hle] at hrest
  have hcoordinates : (coordinatesOf output.dimensions n).length = (extentsOf dimensions output.ndims).length := by
    rw [Sequence.length_coordinatesOf, Indexing.BroadcastPlan.length_extentsOf]
    rfl
  have hcoordinates' : (coordinatesOf (broadcastDimensions left.dimensions right.dimensions) n).length =
      (extentsOf dimensions (max left.ndims right.ndims)).length := by
    rw [Sequence.length_coordinatesOf, Indexing.BroadcastPlan.length_extentsOf, hlength]
    rfl
  have hstrides : (coordinatesOf output.dimensions n).length = (stridesOf 1 (extentsOf dimensions output.ndims)).length := by
    rw [Indexing.BroadcastPlan.length_stridesOf, hcoordinates]
  have hleft := Indexing.BroadcastPlan.dot_stridesOf hcoordinates 1
  have hright := Indexing.BroadcastPlan.dot_stridesOf hcoordinates' 1
  rw [one_mul] at hleft hright
  rw [← hleft, ← hright, ← Indexing.BroadcastPlan.dot_canonicalDimensions htwo, ← hdimensions, hrest, stridesOf_append,
    dot, dot]
  conv_rhs => rw [← List.append_nil (coordinatesOf output.dimensions n), List.zipWith_append hstrides,
    List.zipWith_nil_left, List.append_nil]

theorem broadcastOffset_eq (name : String) {left right operand : Shape} (h : Broadcasts left right output)
    (hoperand : operand = left ∨ operand = right) {n : Nat} (hn : n < output.numel)
    : broadcastOffset name n output operand.dimensions = .ok (broadcastFrom operand left right n) ∧
        broadcastFrom operand left right n < operand.numel := by
  have hdimensions := Shape.new_eq_ok_iff.mp h.shape
  have hnumel : output.numel = (broadcastDimensions left.dimensions right.dimensions).prod := by
    rw [Shape.numel, hdimensions, Arrays.prod_canonicalDimensions]
  have hlt : broadcastFrom operand left right n < operand.numel := by
    obtain ⟨hleft, hright⟩ := Indexing.BroadcastPlan.broadcastOffset_bounds h.conform (hn.trans_eq hnumel)
    rcases hoperand with rfl | rfl
    . exact hleft
    . exact hright
  refine ⟨?_, hlt⟩
  have hextents : (List.range' 0 output.ndims).map (operand.dimensions.getD · 1) =
      extentsOf operand.dimensions output.ndims := by
    rw [← List.range_eq_range']
    rfl
  have hoffset : Indexing.broadcastOffset (extentsOf operand.dimensions output.ndims)
      (coordinatesOf (output.dimensions.drop 0) (n / (output.dimensions.take 0).prod)) =
        broadcastFrom operand left right n := by
    rw [List.drop_zero, List.take_zero, List.prod_nil, Nat.div_one, broadcastOffset_canonical h]
    rfl
  rw [broadcastOffset, List.range_eq_range', broadcastAxes_eq (Nat.zero_add _) (Nat.zero_lt_of_lt hn), hextents, hoffset,
    Nat.zero_add, Nat.one_mul]
  . intro j
    rw [hextents, one_mul]
    exact fits_extentsOf operand output.ndims j
  . rw [hextents, hoffset, Nat.zero_add, Nat.one_mul]
    exact hlt.trans operand.numel_lt

end Bitwise
end Builtins
end OpenMat
