import Mathlib.Algebra.Ring.Int.Defs
import OpenMat.Sparse.Data

/-!
This module contains the scalar operations of sparse arithmetic and the entries of a matrix as
numbers.
-/

namespace OpenMat
namespace Sparse

variable {R : Type}

inductive SparseBinaryOperator where
  | add
  | subtract
  | elementMultiply
  | elementDivide
  deriving DecidableEq, Repr

def SparseBinaryOperator.name : SparseBinaryOperator → String
  | .add => "addition"
  | .subtract => "subtraction"
  | .elementMultiply => "element-wise multiplication"
  | .elementDivide => "element-wise division"

section Operations

variable [Zero R] [Add R] [Sub R] [Mul R] [Div R] [Neg R] [Double R] [DecidableEq R]

def realOperation (operator : SparseBinaryOperator) (lhs rhs : R) : R :=
  match operator with
  | .add => lhs + rhs
  | .subtract => lhs - rhs
  | .elementMultiply => lhs * rhs
  | .elementDivide => lhs / rhs

omit [Zero R] [Add R] [Sub R] [Div R] [DecidableEq R] in
def complexMul (lhs rhs : Complex64 R) : Complex64 R where
  re := Double.mulAdd lhs.re rhs.re (-(lhs.im * rhs.im))
  im := Double.mulAdd lhs.re rhs.im (lhs.im * rhs.re)

def complexDiv (lhs rhs : Complex64 R) : Complex64 R :=
  if rhs.re = 0 ∧ rhs.im = 0 then
    if lhs.re = 0 ∧ lhs.im = 0 then
      ⟨Double.nan, 0⟩
    else
      ⟨if lhs.re = 0 then 0 else lhs.re / 0, if lhs.im = 0 then 0 else lhs.im / 0⟩
  else if Double.atLeast (Double.abs rhs.re) (Double.abs rhs.im) then
    let ratio := rhs.im / rhs.re
    let denominator := rhs.re + rhs.im * ratio
    ⟨(lhs.re + lhs.im * ratio) / denominator, (lhs.im - lhs.re * ratio) / denominator⟩
  else
    let ratio := rhs.re / rhs.im
    let denominator := rhs.im + rhs.re * ratio
    ⟨(lhs.re * ratio + lhs.im) / denominator, (lhs.im * ratio - lhs.re) / denominator⟩

def complexOperation (operator : SparseBinaryOperator) (lhs rhs : Complex64 R) : Complex64 R :=
  match operator with
  | .add => ⟨lhs.re + rhs.re, lhs.im + rhs.im⟩
  | .subtract => ⟨lhs.re - rhs.re, lhs.im - rhs.im⟩
  | .elementMultiply => complexMul lhs rhs
  | .elementDivide => complexDiv lhs rhs

end Operations

namespace SparseArrayData

variable [Zero R] [One R]

def realEntries : SparseArrayData R → List (CooEntry R)
  | .logical m => mapValues fromBool m.entries
  | .f64 m => m.entries
  | .complexF64 _ => []

def numericEntries : SparseArrayData R → List (CooEntry (Complex64 R))
  | .logical m => mapValues (fun value => ⟨fromBool value, 0⟩) m.entries
  | .f64 m => mapValues (fun value => ⟨value, 0⟩) m.entries
  | .complexF64 m => m.entries

/-- The entries of a real matrix as complex numbers. -/
theorem numericEntries_of_real {d : SparseArrayData R} (hreal : d.isComplex = false)
    : d.numericEntries = mapValues (fun value => ⟨value, 0⟩) d.realEntries := by
  cases d with
  | logical m =>
    rw [numericEntries, realEntries, mapValues, mapValues, mapValues, List.map_map]
    rfl
  | f64 m => rfl
  | complexF64 m => simp [isComplex] at hreal

section Numbers

variable [Add R] [Double R] [DecidableEq R] {d : SparseArrayData R}

theorem realEntries_increasing (h : d.Canonical)
    : d.realEntries.Pairwise (fun a b => a.coordinate < b.coordinate) := by
  cases d with
  | logical m => exact mapValues_increasing h
  | f64 m => exact CscMatrix.Canonical.entries_increasing h
  | complexF64 m => exact List.Pairwise.nil

theorem numericEntries_increasing (h : d.Canonical)
    : d.numericEntries.Pairwise (fun a b => a.coordinate < b.coordinate) := by
  cases d with
  | logical m =>
    rw [numericEntries]
    exact mapValues_increasing h
  | f64 m =>
    rw [numericEntries]
    exact mapValues_increasing h
  | complexF64 m => exact CscMatrix.Canonical.entries_increasing h

theorem realEntries_in (h : d.Canonical) {e : CooEntry R} (he : e ∈ d.realEntries)
    : e.row < d.rows ∧ e.column < d.columns := by
  cases d with
  | logical m => exact mapValues_in h he
  | f64 m => exact ⟨(CscMatrix.Canonical.entries_in h he).1, (CscMatrix.Canonical.entries_in h he).2.1⟩
  | complexF64 m => cases he

theorem numericEntries_in (h : d.Canonical) {e : CooEntry (Complex64 R)} (he : e ∈ d.numericEntries)
    : e.row < d.rows ∧ e.column < d.columns := by
  cases d with
  | logical m =>
    rw [numericEntries] at he
    exact mapValues_in h he
  | f64 m =>
    rw [numericEntries] at he
    exact mapValues_in h he
  | complexF64 m =>
    exact ⟨(CscMatrix.Canonical.entries_in h he).1, (CscMatrix.Canonical.entries_in h he).2.1⟩

theorem combinedAt_realEntries (h : d.Canonical) (hreal : d.isComplex = false) (row column : Nat)
    : (combinedAt d.realEntries row column).getD 0 = realValue (d.element row column) := by
  cases d with
  | logical m =>
    rw [realEntries, combinedAt_mapValues h, element, realValue]
    cases m.getZeroBased row column <;> rfl
  | f64 m =>
    have hentries : combinedAt m.entries row column = m.getZeroBased row column := by
      apply Option.ext
      intro v
      rw [combinedAt_eq_some_iff (CscMatrix.Canonical.entries_increasing h),
        CscMatrix.Canonical.getZeroBased_eq_some_iff h]
    rw [realEntries, hentries, element, realValue]
  | complexF64 m => simp [isComplex] at hreal

theorem combinedAt_numericEntries (h : d.Canonical) (row column : Nat)
    : (combinedAt d.numericEntries row column).getD 0 = complexValue (d.element row column) := by
  cases d with
  | logical m =>
    rw [numericEntries, combinedAt_mapValues h, element, complexValue]
    cases m.getZeroBased row column <;> rfl
  | f64 m =>
    rw [numericEntries, combinedAt_mapValues h, element, complexValue]
    cases m.getZeroBased row column <;> rfl
  | complexF64 m =>
    have hentries : combinedAt m.entries row column = m.getZeroBased row column := by
      apply Option.ext
      intro v
      rw [combinedAt_eq_some_iff (CscMatrix.Canonical.entries_increasing h),
        CscMatrix.Canonical.getZeroBased_eq_some_iff h]
    rw [numericEntries, hentries, element, complexValue]

end Numbers

section Integers

/-- Integers as exact scalars. -/
instance : Double Int where
  mulAdd a b c := a * b + c
  abs a := if a < 0 then -a else a
  atLeast a b := decide (b ≤ a)
  nan := 0

def triangle : SparseArrayData Int := .f64 ⟨2, 2, [0, 1, 3], [0, 0, 1], [1, 2, 3], 3⟩

def negatedColumn : SparseArrayData Int := .f64 ⟨2, 1, [0, 2], [0, 1], [4, -2], 2⟩

theorem triangle_canonical : triangle.Canonical := by
  constructor <;> decide

theorem negatedColumn_canonical : negatedColumn.Canonical := by
  constructor <;> decide

def tallColumn : SparseArrayData Int := .f64 ⟨9223372036854775808, 1, [0, 0], [], [], 0⟩

def emptyRow : SparseArrayData Int := .f64 ⟨1, 2, [0, 0, 0], [], [], 0⟩

theorem tallColumn_canonical : tallColumn.Canonical := by
  constructor <;> decide

theorem emptyRow_canonical : emptyRow.Canonical := by
  constructor <;> decide

end Integers

end SparseArrayData

end Sparse
end OpenMat
