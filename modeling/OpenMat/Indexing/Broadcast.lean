import Mathlib.Algebra.BigOperators.Group.List.Lemmas
import Mathlib.Data.List.GetD
import OpenMat.Arrays.Subscripts
import OpenMat.Indexing.Error

/-!
This module contains broadcasting: the common shape of two operands, and where the elements of the operands
are that meet in an element of the result.
-/

namespace OpenMat
namespace Indexing

open Arrays Sequence

inductive BinaryOperator where
  | add
  | subtract
  | multiply
  | elementMultiply
  | divide
  | leftDivide
  | elementDivide
  | elementLeftDivide
  | power
  | elementPower
  | equal
  | notEqual
  | lessThan
  | lessThanOrEqual
  | greaterThan
  | greaterThanOrEqual
  deriving DecidableEq, Repr

def operatorName : BinaryOperator → String
  | .add => "addition"
  | .subtract => "subtraction"
  | .multiply => "multiplication"
  | .elementMultiply => "element-wise multiplication"
  | .divide => "division"
  | .leftDivide => "left division"
  | .elementDivide => "element-wise division"
  | .elementLeftDivide => "element-wise left division"
  | .power => "power"
  | .elementPower => "element-wise power"
  | .equal => "equality comparison"
  | .notEqual => "inequality comparison"
  | .lessThan => "less-than comparison"
  | .lessThanOrEqual => "less-than-or-equal comparison"
  | .greaterThan => "greater-than comparison"
  | .greaterThanOrEqual => "greater-than-or-equal comparison"

structure BroadcastPlan where
  shape : Shape
  lhsStrides : List Nat
  rhsStrides : List Nat

structure PlannedDimension where
  extent : Nat
  lhsStride : Nat
  rhsStride : Nat

namespace BroadcastPlan

def outputExtent (lhsExtent rhsExtent : Nat) : Option Nat :=
  if lhsExtent = rhsExtent then
    some lhsExtent
  else if lhsExtent = 1 then
    some rhsExtent
  else if rhsExtent = 1 then
    some lhsExtent
  else
    none

/-- The loop over the extents of both operands. -/
def planDimensions (mismatch : RuntimeErrorKind) (lhsStride rhsStride : Nat)
    : List (Nat × Nat) → Except RuntimeErrorKind (List PlannedDimension)
  | [] => .ok []
  | (lhsExtent, rhsExtent) :: extents => do
    let extent ← okOr (outputExtent lhsExtent rhsExtent) mismatch
    let nextLhs ← okOr (checkedMul 64 lhsStride lhsExtent) arraySizeError
    let nextRhs ← okOr (checkedMul 64 rhsStride rhsExtent) arraySizeError
    let planned ← planDimensions mismatch nextLhs nextRhs extents
    return {
      extent := extent
      lhsStride := if lhsExtent = 1 then 0 else lhsStride
      rhsStride := if rhsExtent = 1 then 0 else rhsStride } :: planned

/-- Dimensions beyond the last one have the extent one. -/
def extentsOf (dimensions : List Nat) (rank : Nat) : List Nat :=
  (List.range rank).map fun dimension => dimensions.getD dimension 1

def new (operator : BinaryOperator) (lhsDimensions rhsDimensions : List Nat)
    : Except RuntimeErrorKind BroadcastPlan := do
  let rank := max lhsDimensions.length rhsDimensions.length
  let mismatch := .array (.shapeMismatch (operatorName operator) lhsDimensions rhsDimensions)
  let planned ← planDimensions mismatch 1 1
    ((extentsOf lhsDimensions rank).zip (extentsOf rhsDimensions rank))
  let shape ← (Shape.new (planned.map PlannedDimension.extent)).mapError fun _ => arraySizeError
  return {
    shape := shape
    lhsStrides := planned.map PlannedDimension.lhsStride
    rhsStrides := planned.map PlannedDimension.rhsStride }

/-- One step of the loop for one of the operands. -/
def addCoordinate (strides : List Nat) (dimension coordinate offset : Nat) : Except RuntimeErrorKind Nat := do
  let stride ← okOr strides[dimension]? .panics
  let contribution ← okOr (checkedMul 64 coordinate stride) arraySizeError
  okOr (checkedAdd 64 offset contribution) arraySizeError

def addCoordinates (plan : BroadcastPlan) (dimension remainder lhsOffset rhsOffset : Nat)
    : List Nat → Except RuntimeErrorKind (Nat × Nat)
  | [] => .ok (lhsOffset, rhsOffset)
  | extent :: extents => do
    let coordinate := remainder % extent
    let lhsOffset ← addCoordinate plan.lhsStrides dimension coordinate lhsOffset
    let rhsOffset ← addCoordinate plan.rhsStrides dimension coordinate rhsOffset
    addCoordinates plan (dimension + 1) (remainder / extent) lhsOffset rhsOffset extents

def offsets (plan : BroadcastPlan) (outputOffset : Nat) : Except RuntimeErrorKind (Nat × Nat) :=
  plan.addCoordinates 0 outputOffset 0 0 plan.shape.dimensions

end BroadcastPlan

/-- All products of leading extents fit in 64 bits. -/
def Fits (extents : List Nat) : Prop := ∀ n, (extents.take n).prod < 2 ^ 64

theorem fits_iff {extents : List Nat}
    : Fits extents ↔ ∀ n ∈ List.range (extents.length + 1), (extents.take n).prod < 2 ^ 64 :=
  Arrays.products_lt_iff

instance (extents : List Nat) : Decidable (Fits extents) := decidable_of_iff _ fits_iff.symm

/-- Extents of one dimension agree, or one of them is one. -/
def Conform (lhsExtent rhsExtent : Nat) : Prop :=
  lhsExtent = rhsExtent ∨ lhsExtent = 1 ∨ rhsExtent = 1
deriving Decidable

def broadcastExtent (lhsExtent rhsExtent : Nat) : Nat := if lhsExtent = 1 then rhsExtent else lhsExtent

/-- The extents of the result of two operands. -/
def broadcastDimensions (lhs rhs : List Nat) : List Nat :=
  List.zipWith broadcastExtent (BroadcastPlan.extentsOf lhs (max lhs.length rhs.length))
    (BroadcastPlan.extentsOf rhs (max lhs.length rhs.length))

/-- The coordinate of the element of an operand: an operand of extent one has only one of them. -/
def projected (extent coordinate : Nat) : Nat := if extent = 1 then 0 else coordinate

/-- The offset of the element of an operand that is broadcast to the coordinates. -/
def broadcastOffset (extents coordinates : List Nat) : Nat :=
  offsetOf (List.zipWith projected extents coordinates) extents

namespace BroadcastPlan

variable {lhs rhs extents coordinates strides : List Nat} {rank : Nat}

/-- What the coordinates add up to, where coordinates beyond the last stride do not count. -/
def dot (coordinates strides : List Nat) : Nat := (List.zipWith (· * ·) coordinates strides).sum

/-- The strides of an operand, where a dimension of extent one stays where it is. -/
def stridesOf (stride : Nat) : List Nat → List Nat
  | [] => []
  | extent :: extents => (if extent = 1 then 0 else stride) :: stridesOf (stride * extent) extents

section Strides

theorem dot_stridesOf (h : coordinates.length = extents.length) (stride : Nat)
    : dot coordinates (stridesOf stride extents) = stride * broadcastOffset extents coordinates := by
  induction extents generalizing coordinates stride with
  | nil =>
    rw [List.length_eq_zero_iff.mp h]
    rfl
  | cons extent extents ih =>
    cases coordinates with
    | nil => cases h
    | cons coordinate coordinates =>
      have hrest := ih (Nat.succ.inj h) (stride * extent)
      rw [dot] at hrest
      rw [dot, stridesOf, List.zipWith_cons_cons, List.sum_cons, hrest, broadcastOffset, broadcastOffset,
        List.zipWith_cons_cons, offsetOf, mul_add, mul_assoc, projected]
      split
      . rw [mul_zero, mul_zero]
      . rw [mul_comm stride coordinate]

/-- Trailing coordinates that are zero add nothing. -/
theorem dot_append_zeros (coordinates strides : List Nat) (count : Nat)
    : dot (coordinates ++ List.replicate count 0) strides = dot coordinates strides := by
  induction coordinates generalizing strides with
  | nil =>
    induction count generalizing strides with
    | zero => rfl
    | succ count ih =>
      cases strides with
      | nil => rfl
      | cons stride strides =>
        have hrest := ih strides
        rw [dot, List.nil_append] at hrest
        rw [List.replicate_succ, List.nil_append, dot, List.zipWith_cons_cons, List.sum_cons, hrest, zero_mul,
          zero_add]
        rfl
  | cons coordinate coordinates ih =>
    cases strides with
    | nil => rfl
    | cons stride strides =>
      have hrest := ih strides
      rw [dot, dot] at hrest
      rw [List.cons_append, dot, dot, List.zipWith_cons_cons, List.zipWith_cons_cons, List.sum_cons,
        List.sum_cons, hrest]

theorem broadcastOffset_lt (h : List.Forall₂ (fun extent coordinate => extent ≠ 1 → coordinate < extent)
      extents coordinates)
    : broadcastOffset extents coordinates < extents.prod := by
  apply offsetOf_lt
  induction h with
  | nil => exact .nil
  | @cons extent coordinate extents coordinates hcoordinate _ ih =>
    refine .cons ?_ ih
    rw [projected]
    split
    . omega
    . next hne => exact hcoordinate hne

end Strides

section Planned

/-- The loop without its checks. -/
def plannedOf (lhsStride rhsStride : Nat) : List (Nat × Nat) → List PlannedDimension
  | [] => []
  | (lhsExtent, rhsExtent) :: extents =>
    ⟨broadcastExtent lhsExtent rhsExtent, if lhsExtent = 1 then 0 else lhsStride,
      if rhsExtent = 1 then 0 else rhsStride⟩ ::
        plannedOf (lhsStride * lhsExtent) (rhsStride * rhsExtent) extents

theorem plannedOf_maps (lhsStride rhsStride : Nat) (pairs : List (Nat × Nat))
    : (plannedOf lhsStride rhsStride pairs).map PlannedDimension.extent =
          pairs.map (fun pair => broadcastExtent pair.1 pair.2) ∧
        (plannedOf lhsStride rhsStride pairs).map PlannedDimension.lhsStride =
          stridesOf lhsStride (pairs.map Prod.fst) ∧
        (plannedOf lhsStride rhsStride pairs).map PlannedDimension.rhsStride =
          stridesOf rhsStride (pairs.map Prod.snd) := by
  induction pairs generalizing lhsStride rhsStride with
  | nil => exact ⟨rfl, rfl, rfl⟩
  | cons pair pairs ih =>
    obtain ⟨hextent, hlhs, hrhs⟩ := ih (lhsStride * pair.1) (rhsStride * pair.2)
    rw [plannedOf]
    simp only [List.map_cons, stridesOf, hextent, hlhs, hrhs, and_self]

theorem outputExtent_eq_some_iff {lhsExtent rhsExtent extent : Nat}
    : outputExtent lhsExtent rhsExtent = some extent ↔
        Conform lhsExtent rhsExtent ∧ extent = broadcastExtent lhsExtent rhsExtent := by
  unfold outputExtent Conform broadcastExtent
  split
  . next heq =>
    subst heq
    simp [eq_comm]
  . next hne =>
    split
    . next hone => simp [hone, eq_comm]
    . next hlhs =>
      split
      . next hrhs => simp [hrhs, eq_comm]
      . next hrhs => simp [hne, hlhs, hrhs]

theorem forall_take_cons {stride extent : Nat} {extents : List Nat}
    : (∀ n, stride * ((extent :: extents).take n).prod < 2 ^ 64) ↔
        stride < 2 ^ 64 ∧ ∀ n, stride * extent * (extents.take n).prod < 2 ^ 64 := by
  constructor
  . intro h
    refine ⟨by simpa using h 0, fun n => ?_⟩
    simpa only [List.take_succ_cons, List.prod_cons, ← mul_assoc] using h (n + 1)
  . rintro ⟨hstride, h⟩ n
    cases n with
    | zero => simpa using hstride
    | succ n => simpa only [List.take_succ_cons, List.prod_cons, ← mul_assoc] using h n

theorem planDimensions_eq_ok_iff {mismatch : RuntimeErrorKind} {lhsStride rhsStride : Nat}
    {pairs : List (Nat × Nat)} {planned : List PlannedDimension} (hlhs : lhsStride < 2 ^ 64)
    (hrhs : rhsStride < 2 ^ 64)
    : planDimensions mismatch lhsStride rhsStride pairs = .ok planned ↔
        ((∀ pair ∈ pairs, Conform pair.1 pair.2) ∧
          (∀ n, lhsStride * ((pairs.map Prod.fst).take n).prod < 2 ^ 64) ∧
          ∀ n, rhsStride * ((pairs.map Prod.snd).take n).prod < 2 ^ 64) ∧
        planned = plannedOf lhsStride rhsStride pairs := by
  induction pairs generalizing lhsStride rhsStride planned with
  | nil =>
    simp only [planDimensions, plannedOf, List.map_nil, List.take_nil, List.prod_nil, mul_one, hlhs, hrhs,
      List.not_mem_nil, false_implies, implies_true, and_self, true_and, Except.ok.injEq]
    exact eq_comm
  | cons pair pairs ih =>
    rw [planDimensions, bind_eq_ok_iff, List.forall_mem_cons, List.map_cons, List.map_cons,
      forall_take_cons, forall_take_cons]
    simp only [okOr_eq_ok_iff, outputExtent_eq_some_iff]
    constructor
    . rintro ⟨_, ⟨hconform, rfl⟩, h⟩
      obtain ⟨_, hnextLhs, h⟩ := bind_eq_ok_iff.mp h
      obtain ⟨hfitsLhs, rfl⟩ := checkedMul_eq_some_iff.mp (okOr_eq_ok_iff.mp hnextLhs)
      obtain ⟨_, hnextRhs, h⟩ := bind_eq_ok_iff.mp h
      obtain ⟨hfitsRhs, rfl⟩ := checkedMul_eq_some_iff.mp (okOr_eq_ok_iff.mp hnextRhs)
      obtain ⟨rest, hrest, h⟩ := bind_eq_ok_iff.mp h
      obtain ⟨⟨hconforms, hprodLhs, hprodRhs⟩, rfl⟩ := (ih hfitsLhs hfitsRhs).mp hrest
      cases h
      exact ⟨⟨⟨hconform, hconforms⟩, ⟨hlhs, hprodLhs⟩, hrhs, hprodRhs⟩, rfl⟩
    . rintro ⟨⟨⟨hconform, hconforms⟩, ⟨-, hprodLhs⟩, -, hprodRhs⟩, rfl⟩
      have hfitsLhs : lhsStride * pair.1 < 2 ^ 64 := by simpa using hprodLhs 0
      have hfitsRhs : rhsStride * pair.2 < 2 ^ 64 := by simpa using hprodRhs 0
      refine ⟨_, ⟨hconform, rfl⟩, ?_⟩
      refine bind_eq_ok_iff.mpr ⟨_, okOr_eq_ok_iff.mpr (checkedMul_eq_some_iff.mpr ⟨hfitsLhs, rfl⟩), ?_⟩
      refine bind_eq_ok_iff.mpr ⟨_, okOr_eq_ok_iff.mpr (checkedMul_eq_some_iff.mpr ⟨hfitsRhs, rfl⟩), ?_⟩
      exact bind_eq_ok_iff.mpr
        ⟨_, (ih hfitsLhs hfitsRhs).mpr ⟨⟨hconforms, hprodLhs, hprodRhs⟩, rfl⟩, rfl⟩

end Planned

section Extents

theorem extentsOf_eq (h : lhs.length ≤ rank)
    : extentsOf lhs rank = lhs ++ List.replicate (rank - lhs.length) 1 := by
  apply List.ext_getElem?
  intro i
  rw [extentsOf, List.getElem?_map]
  rcases Nat.lt_or_ge i rank with hi | hi
  . rw [List.getElem?_range hi, Option.map_some]
    by_cases hlt : i < lhs.length
    . rw [List.getElem?_append_left hlt, List.getD_eq_getElem _ _ hlt, List.getElem?_eq_getElem hlt]
    . rw [List.getElem?_append_right (by omega), List.getD_eq_default _ _ (by omega),
        List.getElem?_replicate, if_pos (by omega)]
  . rw [List.getElem?_eq_none (by simpa using hi), List.getElem?_eq_none]
    . rfl
    . rw [List.length_append, List.length_replicate]
      omega

theorem length_extentsOf (dimensions : List Nat) (rank : Nat)
    : (extentsOf dimensions rank).length = rank := by
  rw [extentsOf, List.length_map, List.length_range]

theorem fits_extentsOf (h : lhs.length ≤ rank)
    : Fits (extentsOf lhs rank) ↔ Fits lhs := by
  rw [extentsOf_eq h]
  constructor
  . intro hfits n
    rcases Nat.le_total n lhs.length with hn | hn
    . have := hfits n
      rwa [List.take_append_of_le_length hn] at this
    . have := hfits lhs.length
      rw [List.take_append_of_le_length (Nat.le_refl _), List.take_length] at this
      rwa [List.take_of_length_le hn]
  . intro hfits n
    rw [List.take_append, List.prod_append, List.take_replicate, List.prod_replicate, one_pow, mul_one]
    exact hfits n

theorem prod_extentsOf (h : lhs.length ≤ rank)
    : (extentsOf lhs rank).prod = lhs.prod := by
  rw [extentsOf_eq h, List.prod_append, List.prod_replicate, one_pow, mul_one]

end Extents

section Offsets

variable {plan : BroadcastPlan}

theorem addCoordinate_eq_ok {dimension coordinate offset stride : Nat} {rest : List Nat}
    (hstrides : strides.drop dimension = stride :: rest) (hfits : offset + coordinate * stride < 2 ^ 64)
    : addCoordinate strides dimension coordinate offset = .ok (offset + coordinate * stride) := by
  have hstride : strides[dimension]? = some stride := by
    have := @List.getElem?_drop _ strides dimension 0
    rw [hstrides, Nat.add_zero] at this
    exact this.symm
  rw [addCoordinate, hstride]
  refine bind_eq_ok_iff.mpr ⟨stride, rfl, ?_⟩
  refine bind_eq_ok_iff.mpr ⟨_, okOr_eq_ok_iff.mpr (checkedMul_eq_some_iff.mpr ⟨by omega, rfl⟩), ?_⟩
  exact okOr_eq_ok_iff.mpr (checkedAdd_eq_some_iff.mpr ⟨hfits, rfl⟩)

theorem addCoordinates_eq_ok {dimension remainder lhsOffset rhsOffset : Nat}
    (hlengthLhs : extents.length ≤ (plan.lhsStrides.drop dimension).length)
    (hlengthRhs : extents.length ≤ (plan.rhsStrides.drop dimension).length)
    (hlhs : lhsOffset + dot (coordinatesOf extents remainder) (plan.lhsStrides.drop dimension) < 2 ^ 64)
    (hrhs : rhsOffset + dot (coordinatesOf extents remainder) (plan.rhsStrides.drop dimension) < 2 ^ 64)
    : plan.addCoordinates dimension remainder lhsOffset rhsOffset extents =
        .ok (lhsOffset + dot (coordinatesOf extents remainder) (plan.lhsStrides.drop dimension),
          rhsOffset + dot (coordinatesOf extents remainder) (plan.rhsStrides.drop dimension)) := by
  induction extents generalizing dimension remainder lhsOffset rhsOffset with
  | nil => rfl
  | cons extent extents ih =>
    obtain ⟨lhsStride, lhsRest, hlhsStrides⟩ :=
      List.exists_cons_of_length_pos (Nat.zero_lt_of_lt (Nat.lt_of_succ_le hlengthLhs))
    obtain ⟨rhsStride, rhsRest, hrhsStrides⟩ :=
      List.exists_cons_of_length_pos (Nat.zero_lt_of_lt (Nat.lt_of_succ_le hlengthRhs))
    have hlhsNext : plan.lhsStrides.drop (dimension + 1) = lhsRest := by
      rw [← List.drop_drop, hlhsStrides, List.drop_one, List.tail_cons]
    have hrhsNext : plan.rhsStrides.drop (dimension + 1) = rhsRest := by
      rw [← List.drop_drop, hrhsStrides, List.drop_one, List.tail_cons]
    rw [hlhsStrides, List.length_cons, List.length_cons] at hlengthLhs
    rw [hrhsStrides, List.length_cons, List.length_cons] at hlengthRhs
    rw [hlhsStrides, coordinatesOf, dot, List.zipWith_cons_cons, List.sum_cons, ← Nat.add_assoc] at hlhs ⊢
    rw [hrhsStrides, coordinatesOf, dot, List.zipWith_cons_cons, List.sum_cons, ← Nat.add_assoc] at hrhs
    rw [hrhsStrides, dot, List.zipWith_cons_cons, List.sum_cons, ← Nat.add_assoc]
    have hrest := @ih (dimension + 1) (remainder / extent) (lhsOffset + remainder % extent * lhsStride)
      (rhsOffset + remainder % extent * rhsStride)
      (by rw [hlhsNext]; omega) (by rw [hrhsNext]; omega) (by rw [hlhsNext]; exact hlhs)
      (by rw [hrhsNext]; exact hrhs)
    rw [hlhsNext, hrhsNext] at hrest
    rw [addCoordinates, addCoordinate_eq_ok hlhsStrides (by omega)]
    refine bind_eq_ok_iff.mpr ⟨_, rfl, ?_⟩
    rw [addCoordinate_eq_ok hrhsStrides (by omega)]
    exact bind_eq_ok_iff.mpr ⟨_, rfl, hrest⟩

/-- The coordinates of the result lie in the operands, except where an operand has only one element. -/
theorem forall₂_projectable {pairs : List (Nat × Nat)} (hconform : ∀ pair ∈ pairs, Conform pair.1 pair.2)
    (h : List.Forall₂ (· < ·) coordinates (pairs.map fun pair => broadcastExtent pair.1 pair.2))
    : List.Forall₂ (fun extent coordinate => extent ≠ 1 → coordinate < extent) (pairs.map Prod.fst)
          coordinates ∧
        List.Forall₂ (fun extent coordinate => extent ≠ 1 → coordinate < extent) (pairs.map Prod.snd)
          coordinates := by
  induction pairs generalizing coordinates with
  | nil =>
    cases h
    exact ⟨.nil, .nil⟩
  | cons pair pairs ih =>
    rw [List.forall_mem_cons] at hconform
    rw [List.map_cons] at h
    cases h with
    | cons hcoordinate hrest =>
      obtain ⟨hlhs, hrhs⟩ := ih hconform.2 hrest
      refine ⟨.cons (fun hne => ?_) hlhs, .cons (fun hne => ?_) hrhs⟩
      . rwa [broadcastExtent, if_neg hne] at hcoordinate
      . rw [broadcastExtent] at hcoordinate
        rcases hconform.1 with heq | hone | hone
        . rw [heq, if_neg hne] at hcoordinate
          exact hcoordinate
        . rwa [if_pos hone] at hcoordinate
        . exact absurd hone hne

end Offsets

section Plans

variable {operator : BinaryOperator} {plan : BroadcastPlan}

/-- The extents of both operands, dimension by dimension. -/
def extentPairs (lhs rhs : List Nat) : List (Nat × Nat) :=
  (extentsOf lhs (max lhs.length rhs.length)).zip (extentsOf rhs (max lhs.length rhs.length))

theorem map_extentPairs (lhs rhs : List Nat)
    : (extentPairs lhs rhs).map Prod.fst = extentsOf lhs (max lhs.length rhs.length) ∧
        (extentPairs lhs rhs).map Prod.snd = extentsOf rhs (max lhs.length rhs.length) ∧
        (extentPairs lhs rhs).map (fun pair => broadcastExtent pair.1 pair.2) =
          broadcastDimensions lhs rhs := by
  have hlength : (extentsOf lhs (max lhs.length rhs.length)).length =
      (extentsOf rhs (max lhs.length rhs.length)).length := by
    rw [length_extentsOf, length_extentsOf]
  refine ⟨List.map_fst_zip (Nat.le_of_eq hlength), List.map_snd_zip (Nat.le_of_eq hlength.symm), ?_⟩
  rw [broadcastDimensions, extentPairs, List.map_zip_eq_zipWith]
  rfl

theorem forall_extentPairs
    : (∀ pair ∈ extentPairs lhs rhs, Conform pair.1 pair.2) ↔
        ∀ dimension, Conform (lhs.getD dimension 1) (rhs.getD dimension 1) := by
  have hpairs : extentPairs lhs rhs = (List.range (max lhs.length rhs.length)).map fun dimension =>
      (lhs.getD dimension 1, rhs.getD dimension 1) := by
    rw [extentPairs, extentsOf, extentsOf, List.zip_map']
  rw [hpairs, List.forall_mem_map]
  constructor
  . intro h dimension
    rcases Nat.lt_or_ge dimension (max lhs.length rhs.length) with hlt | hge
    . exact h dimension (List.mem_range.mpr hlt)
    . rw [List.getD_eq_default _ _ (by omega), List.getD_eq_default _ _ (by omega)]
      exact .inl rfl
  . exact fun h dimension _ => h dimension

theorem new_eq_ok_iff
    : new operator lhs rhs = .ok plan ↔
        ((∀ dimension, Conform (lhs.getD dimension 1) (rhs.getD dimension 1)) ∧ Fits lhs ∧ Fits rhs) ∧
        Shape.new (broadcastDimensions lhs rhs) = .ok plan.shape ∧
        plan.lhsStrides = stridesOf 1 (extentsOf lhs (max lhs.length rhs.length)) ∧
        plan.rhsStrides = stridesOf 1 (extentsOf rhs (max lhs.length rhs.length)) := by
  obtain ⟨hfst, hsnd, hextents⟩ := map_extentPairs lhs rhs
  obtain ⟨hplanned, hplannedLhs, hplannedRhs⟩ := plannedOf_maps 1 1 (extentPairs lhs rhs)
  rw [hextents] at hplanned
  rw [hfst] at hplannedLhs
  rw [hsnd] at hplannedRhs
  have hfitsLhs : (∀ n, 1 * ((extentsOf lhs (max lhs.length rhs.length)).take n).prod < 2 ^ 64) ↔
      Fits lhs := by
    simp only [one_mul]
    exact fits_extentsOf (Nat.le_max_left _ _)
  have hfitsRhs : (∀ n, 1 * ((extentsOf rhs (max lhs.length rhs.length)).take n).prod < 2 ^ 64) ↔
      Fits rhs := by
    simp only [one_mul]
    exact fits_extentsOf (Nat.le_max_right _ _)
  rw [new, bind_eq_ok_iff, ← extentPairs]
  simp only [planDimensions_eq_ok_iff (by decide : 1 < 2 ^ 64) (by decide : 1 < 2 ^ 64), hfst, hsnd,
    hfitsLhs, hfitsRhs, forall_extentPairs]
  constructor
  . rintro ⟨_, ⟨hchecks, rfl⟩, h⟩
    obtain ⟨shape, hshape, h⟩ := bind_eq_ok_iff.mp h
    cases h
    rw [hplanned] at hshape
    exact ⟨hchecks, mapError_eq_ok_iff.mp hshape, hplannedLhs, hplannedRhs⟩
  . rintro ⟨hchecks, hshape, hlhs, hrhs⟩
    refine ⟨_, ⟨hchecks, rfl⟩, bind_eq_ok_iff.mpr ⟨plan.shape, ?_, ?_⟩⟩
    . rw [hplanned]
      exact mapError_eq_ok_iff.mpr hshape
    . rw [hplannedLhs, hplannedRhs, ← hlhs, ← hrhs]
      rfl

theorem length_stridesOf (stride : Nat) (extents : List Nat)
    : (stridesOf stride extents).length = extents.length := by
  induction extents generalizing stride with
  | nil => rfl
  | cons extent extents ih => rw [stridesOf, List.length_cons, List.length_cons, ih]

theorem length_broadcastDimensions (lhs rhs : List Nat)
    : (broadcastDimensions lhs rhs).length = max lhs.length rhs.length := by
  rw [broadcastDimensions, List.length_zipWith, length_extentsOf, length_extentsOf, Nat.min_self]

/-- The coordinates of an operand at an output offset, and that they are in range. -/
theorem broadcastOffset_bounds (hconform : ∀ dimension, Conform (lhs.getD dimension 1) (rhs.getD dimension 1))
    {n : Nat} (hn : n < (broadcastDimensions lhs rhs).prod)
    : broadcastOffset (extentsOf lhs (max lhs.length rhs.length))
          (coordinatesOf (broadcastDimensions lhs rhs) n) < lhs.prod ∧
        broadcastOffset (extentsOf rhs (max lhs.length rhs.length))
          (coordinatesOf (broadcastDimensions lhs rhs) n) < rhs.prod := by
  obtain ⟨hfst, hsnd, hextents⟩ := map_extentPairs lhs rhs
  have hcoordinates := coordinatesOf_lt hn
  rw [← hextents] at hcoordinates
  obtain ⟨hlhs, hrhs⟩ := forall₂_projectable (forall_extentPairs.mpr hconform) hcoordinates
  rw [hfst, hextents] at hlhs
  rw [hsnd, hextents] at hrhs
  have hltLhs := broadcastOffset_lt hlhs
  have hltRhs := broadcastOffset_lt hrhs
  rw [prod_extentsOf (Nat.le_max_left _ _)] at hltLhs
  rw [prod_extentsOf (Nat.le_max_right _ _)] at hltRhs
  exact ⟨hltLhs, hltRhs⟩

/-- The coordinates with respect to a canonical shape lack only zeros. -/
theorem dot_canonicalDimensions {dimensions : List Nat} (h : 2 ≤ dimensions.length) (n : Nat)
    (strides : List Nat)
    : dot (coordinatesOf (canonicalDimensions dimensions) n) strides =
        dot (coordinatesOf dimensions n) strides := by
  obtain ⟨count, hcount⟩ := canonicalDimensions_append h
  conv_rhs => rw [← hcount, coordinatesOf_append, coordinatesOf_ones, dot_append_zeros]

theorem offsets_eq_ok (hplan : new operator lhs rhs = .ok plan) (hrank : 2 ≤ max lhs.length rhs.length)
    {n : Nat} (hn : n < plan.shape.numel)
    : plan.offsets n = .ok
        (broadcastOffset (extentsOf lhs (max lhs.length rhs.length))
            (coordinatesOf (broadcastDimensions lhs rhs) n),
          broadcastOffset (extentsOf rhs (max lhs.length rhs.length))
            (coordinatesOf (broadcastDimensions lhs rhs) n)) := by
  obtain ⟨⟨hconform, hfitsLhs, hfitsRhs⟩, hshape, hlhs, hrhs⟩ := new_eq_ok_iff.mp hplan
  have hdimensions := Shape.new_eq_ok_iff.mp hshape
  have hlength := length_broadcastDimensions lhs rhs
  have hdot := dot_canonicalDimensions (hrank.trans_eq hlength.symm) n
  rw [Shape.numel, hdimensions, prod_canonicalDimensions] at hn
  obtain ⟨hltLhs, hltRhs⟩ := broadcastOffset_bounds hconform hn
  have hlengths : ∀ dimensions : List Nat,
      (coordinatesOf (broadcastDimensions lhs rhs) n).length =
        (extentsOf dimensions (max lhs.length rhs.length)).length := by
    intro dimensions
    rw [length_coordinatesOf, hlength, length_extentsOf]
  have hdotLhs : dot (coordinatesOf plan.shape.dimensions n) plan.lhsStrides =
      broadcastOffset (extentsOf lhs (max lhs.length rhs.length))
        (coordinatesOf (broadcastDimensions lhs rhs) n) := by
    rw [hdimensions, hdot, hlhs, dot_stridesOf (hlengths lhs), one_mul]
  have hdotRhs : dot (coordinatesOf plan.shape.dimensions n) plan.rhsStrides =
      broadcastOffset (extentsOf rhs (max lhs.length rhs.length))
        (coordinatesOf (broadcastDimensions lhs rhs) n) := by
    rw [hdimensions, hdot, hrhs, dot_stridesOf (hlengths rhs), one_mul]
  have hboundLhs : lhs.prod < 2 ^ 64 := by simpa using hfitsLhs lhs.length
  have hboundRhs : rhs.prod < 2 ^ 64 := by simpa using hfitsRhs rhs.length
  have hle : plan.shape.dimensions.length ≤ max lhs.length rhs.length := by
    rw [hdimensions, ← hlength]
    exact length_canonicalDimensions_le (hrank.trans_eq hlength.symm)
  rw [offsets, addCoordinates_eq_ok]
  . rw [List.drop_zero, List.drop_zero, hdotLhs, hdotRhs, Nat.zero_add, Nat.zero_add]
  . rwa [List.drop_zero, hlhs, length_stridesOf, length_extentsOf]
  . rwa [List.drop_zero, hrhs, length_stridesOf, length_extentsOf]
  . rw [List.drop_zero, hdotLhs, Nat.zero_add]
    exact hltLhs.trans hboundLhs
  . rw [List.drop_zero, hdotRhs, Nat.zero_add]
    exact hltRhs.trans hboundRhs

/--
A plan is made exactly where the extents conform and all products fit. The offsets of an element of the
result are those of the two elements that are broadcast to it, wherever one operand has two dimensions.
-/
theorem broadcastPlan_correct (operator : BinaryOperator) (lhs rhs : List Nat)
    : ((∃ plan, new operator lhs rhs = .ok plan) ↔
        (∀ dimension, Conform (lhs.getD dimension 1) (rhs.getD dimension 1)) ∧
        Fits lhs ∧ Fits rhs ∧ Fits (broadcastDimensions lhs rhs)) ∧
      ∀ plan, new operator lhs rhs = .ok plan →
        plan.shape.dimensions = canonicalDimensions (broadcastDimensions lhs rhs) ∧
        (2 ≤ max lhs.length rhs.length → ∀ n < plan.shape.numel, 0 ∉ plan.shape.dimensions ∧
          ∃ lhsOffset rhsOffset, plan.offsets n = .ok (lhsOffset, rhsOffset) ∧
            lhsOffset = broadcastOffset (extentsOf lhs (max lhs.length rhs.length))
              (coordinatesOf (broadcastDimensions lhs rhs) n) ∧ lhsOffset < lhs.prod ∧
            rhsOffset = broadcastOffset (extentsOf rhs (max lhs.length rhs.length))
              (coordinatesOf (broadcastDimensions lhs rhs) n) ∧ rhsOffset < rhs.prod) := by
  constructor
  . constructor
    . rintro ⟨plan, hplan⟩
      obtain ⟨⟨hconform, hfitsLhs, hfitsRhs⟩, hshape, -, -⟩ := new_eq_ok_iff.mp hplan
      exact ⟨hconform, hfitsLhs, hfitsRhs, Shape.exists_new_iff.mp ⟨_, hshape⟩⟩
    . rintro ⟨hconform, hfitsLhs, hfitsRhs, hfits⟩
      obtain ⟨shape, hshape⟩ := Shape.exists_new_iff.mpr hfits
      exact ⟨⟨shape, _, _⟩, new_eq_ok_iff.mpr ⟨⟨hconform, hfitsLhs, hfitsRhs⟩, hshape, rfl, rfl⟩⟩
  . intro plan hplan
    obtain ⟨⟨hconform, -, -⟩, hshape, -, -⟩ := new_eq_ok_iff.mp hplan
    have hdimensions := Shape.new_eq_ok_iff.mp hshape
    refine ⟨hdimensions, fun hrank n hn => ⟨fun hzero => ?_, _, _, offsets_eq_ok hplan hrank hn, rfl, ?_, rfl,
      ?_⟩⟩
    . rw [Shape.numel, Nat.eq_zero_of_zero_dvd (List.dvd_prod hzero)] at hn
      exact absurd hn (Nat.not_lt_zero n)
    . rw [Shape.numel, hdimensions, prod_canonicalDimensions] at hn
      exact (broadcastOffset_bounds hconform hn).1
    . rw [Shape.numel, hdimensions, prod_canonicalDimensions] at hn
      exact (broadcastOffset_bounds hconform hn).2

theorem broadcastPlan_correct_matrices
    : ∃ plan, new .add [2, 1, 3] [1, 4] = .ok plan ∧ plan.shape.dimensions = [2, 4, 3] ∧
        plan.offsets 13 = .ok (3, 2) := by
  obtain ⟨hnew, hplans⟩ := broadcastPlan_correct .add [2, 1, 3] [1, 4]
  obtain ⟨plan, hplan⟩ := hnew.mpr ⟨fun dimension => by
      rcases dimension with _ | _ | _ | _
      . decide
      . decide
      . decide
      . exact .inl rfl,
    by decide, by decide, by decide⟩
  obtain ⟨hdimensions, hoffsets⟩ := hplans plan hplan
  have hdimensions : plan.shape.dimensions = [2, 4, 3] := hdimensions.trans (by decide)
  obtain ⟨-, lhsOffset, rhsOffset, h, hlhs, -, hrhs, -⟩ :=
    hoffsets (by decide) 13 (by rw [Shape.numel, hdimensions]; decide)
  refine ⟨plan, hplan, hdimensions, ?_⟩
  rw [h, hlhs, hrhs]
  decide

def columnOfThree : Shape := .matrix 3 1

/--
Products before an extent of zero can be too large, and lists of fewer than two dimensions give fewer strides than
the shape has dimensions.
-/
theorem broadcastPlan_row
    : ((∀ dimension, Conform ([2 ^ 40, 1, 0].getD dimension 1) ([1, 2 ^ 40, 0].getD dimension 1)) ∧
          [2 ^ 40, 1, 0].prod = 0 ∧ [1, 2 ^ 40, 0].prod = 0 ∧
          (broadcastDimensions [2 ^ 40, 1, 0] [1, 2 ^ 40, 0]).prod = 0 ∧
          ∀ plan, new .add [2 ^ 40, 1, 0] [1, 2 ^ 40, 0] ≠ .ok plan) ∧
        new .add [3] [3] = .ok ⟨columnOfThree, [1], [1]⟩ ∧
        0 < (BroadcastPlan.mk columnOfThree [1] [1]).shape.numel ∧
        (BroadcastPlan.mk columnOfThree [1] [1]).offsets 0 = .error .panics := by
  refine ⟨⟨?_, by decide, by decide, by decide, ?_⟩, rfl, by decide, by decide⟩
  . intro dimension
    rcases dimension with _ | _ | _ | _
    . decide
    . decide
    . decide
    . exact .inl rfl
  . intro plan hplan
    obtain ⟨-, hshape, -, -⟩ := new_eq_ok_iff.mp hplan
    have hfits : Fits (broadcastDimensions [2 ^ 40, 1, 0] [1, 2 ^ 40, 0]) := Shape.exists_new_iff.mp ⟨_, hshape⟩
    exact absurd hfits (by decide)

end Plans

end BroadcastPlan

end Indexing
end OpenMat
