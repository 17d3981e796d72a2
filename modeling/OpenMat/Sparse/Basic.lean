import Mathlib.Algebra.Order.Ring.Nat
import OpenMat.Fallible.Basic
import OpenMat.Sequence.BinarySearch
import OpenMat.Sequence.Sorted

/-!
This module contains compressed sparse column storage: its construction from coordinates, the checks
of caller-supplied parts and the lookup of an element. Allocation and cancellation are answered by
the host.
-/

namespace OpenMat
namespace Sparse

inductive SparseInvariant where
  | columnOffsetLength
  | firstColumnOffset
  | columnOffsets
  | finalColumnOffset
  | storageLength
  | rowOutOfBounds
  | rowOrder
  | explicitZero
  | reserveTooSmall
  deriving DecidableEq, Repr

inductive SparseError where
  | shapeOverflow (rows columns : Nat)
  | hostLengthOverflow (elements : Nat)
  | allocation (storage : String) (elements : Nat)
  | coordinateOutOfBounds (row column rows columns : Nat)
  | linearIndexOutOfBounds (index numel : Nat)
  | subscriptOutOfBounds (dimension index extent : Nat)
  | offsetOverflow
  | invalidCsc (invariant : SparseInvariant)
  | unsupportedDenseType
  | shapeMismatch (operation : String) (lhs rhs : List Nat)
  | elementCountMismatch (source destination : Nat)
  | assignmentSizeMismatch (selected supplied : Nat)
  | unsupportedConcatenationDimension (dimension : Nat)
  | cancelled
  deriving DecidableEq, Repr

/-- The next loads of the cancellation flag, if there is one, and the next allocation answers. -/
structure Host where
  cancellation : Option (Nat → Bool)
  rejects : Nat → Bool

namespace Host

/-- A host without a cancellation flag on which every allocation succeeds. -/
def quiet : Host where
  cancellation := none
  rejects _ := false

end Host

abbrev Fallible := StateT Host (Except SparseError)

def cancellationInterval : Nat := 1024

def checkCancelled (progress : Nat) : Fallible Unit := do
  if progress % cancellationInterval = 0 then
    let host ← get
    match host.cancellation with
    | none => return ()
    | some flag =>
      set { host with cancellation := some (fun n => flag (n + 1)) }
      if flag 0 then
        throw .cancelled

def allocate (storage : String) (elements : Nat) : Fallible Unit := do
  let host ← get
  set { host with rejects := fun n => host.rejects (n + 1) }
  if elements > u64Max ∨ host.rejects 0 then
    throw (.allocation storage elements)

def checkedUsize (value : Nat) : Fallible Nat :=
  if value ≤ u64Max then return value else throw (.hostLengthOverflow value)

def checkedU64 (value : Nat) : Fallible Nat :=
  if value ≤ u64Max then return value else throw (.hostLengthOverflow u64Max)

class CscElement (T : Type) where
  combine : T → T → T
  isExplicitZero : T → Bool

/-- Logical elements. -/
instance : CscElement Bool where
  combine a b := a || b
  isExplicitZero a := !a

structure CooEntry (T : Type) where
  row : Nat
  column : Nat
  value : T
  deriving DecidableEq, Repr

structure CscMatrix (T : Type) where
  rows : Nat
  columns : Nat
  colOffsets : List Nat
  rowIndices : List Nat
  values : List T
  reservedNnz : Nat
  deriving DecidableEq, Repr

variable {T : Type}

/-- The shape constructor accepts extents whose product is a `u64`. -/
def sparseShape (rows columns : Nat) : Fallible Unit :=
  if rows * columns ≤ u64Max then return () else throw (.shapeOverflow rows columns)

namespace CscMatrix

def nnz (m : CscMatrix T) : Nat := m.values.length

def offset (m : CscMatrix T) (column : Nat) : Nat := m.colOffsets.getD column 0

/-- The row indices of a column. -/
def columnRows (m : CscMatrix T) (column : Nat) : List Nat :=
  (m.rowIndices.drop (m.offset column)).take (m.offset (column + 1) - m.offset column)

/-- Slicing with `start..end`. -/
def slice? {α : Type} (xs : List α) (start stop : Nat) : Option (List α) :=
  if start ≤ stop ∧ stop ≤ xs.length then some ((xs.drop start).take (stop - start)) else none

def getZeroBased (m : CscMatrix T) (row column : Nat) : Option T :=
  if row ≥ m.rows ∨ column ≥ m.columns then
    none
  else do
    let start ← m.colOffsets[column]?
    let stop ← m.colOffsets[column + 1]?
    let rows ← slice? m.rowIndices start stop
    let relative ← Sequence.binarySearch rows row
    m.values[start + relative]?

end CscMatrix

section Coo

variable [CscElement T]

/-- The order of the entries: by column, then by row. -/
def CooEntry.coordinate (e : CooEntry T) : Nat ×ₗ Nat := toLex (e.column, e.row)

def checkCoordinates (rows columns : Nat) : Nat → List (CooEntry T) → Fallible Unit
  | _, [] => return ()
  | index, e :: entries => do
    checkCancelled index
    if e.row ≥ rows ∨ e.column ≥ columns then
      throw (.coordinateOutOfBounds e.row e.column rows columns)
    checkCoordinates rows columns (index + 1) entries

/-- One cancellation check for each of the next `count` positions. -/
def checkPositions : Nat → Nat → Fallible Unit
  | _, 0 => return ()
  | position, count + 1 => do
    checkCancelled position
    checkPositions (position + 1) count

structure Assembly (T : Type) where
  colOffsets : List Nat
  rowIndices : List Nat
  values : List T
  outputColumn : Nat

/-- Combine the entries at a coordinate, and count them. -/
def combineRun (coordinate : Nat ×ₗ Nat) (input : Nat) (value : T) (consumed : Nat)
    : List (CooEntry T) → Fallible (T × Nat)
  | [] => return (value, consumed)
  | e :: rest => do
    checkCancelled input
    if e.coordinate ≠ coordinate then
      return (value, consumed)
    combineRun coordinate (input + 1) (CscElement.combine value e.value) (consumed + 1) rest

def pushOffset (s : Assembly T) : Fallible (Assembly T) := do
  let nnz ← checkedU64 s.values.length
  return { s with colOffsets := s.colOffsets ++ [nnz], outputColumn := s.outputColumn + 1 }

/-- Start the columns up to that of the next coordinate. -/
def startColumns (s : Assembly T) : Nat → Fallible (Assembly T)
  | 0 => return s
  | count + 1 => do
    let s ← pushOffset s
    startColumns s count

/-- Start the columns after the last coordinate. -/
def finishColumns (s : Assembly T) : Nat → Fallible (Assembly T)
  | 0 => return s
  | count + 1 => do
    checkCancelled s.colOffsets.length
    let s ← pushOffset s
    finishColumns s count

def store (s : Assembly T) (row : Nat) (value : T) : Assembly T :=
  if CscElement.isExplicitZero value then
    s
  else
    { s with rowIndices := s.rowIndices ++ [row], values := s.values ++ [value] }

/--
The main loop over the sorted entries. `skip` counts the entries at its head that the inner loop has
consumed.
-/
def assemble (input : Nat) (s : Assembly T) : Nat → List (CooEntry T) → Fallible (Assembly T)
  | _, [] => return s
  | skip + 1, _ :: rest => assemble input s skip rest
  | 0, e :: rest => do
    checkCancelled input
    let (value, consumed) ← combineRun e.coordinate (input + 1) e.value 0 rest
    let s ← startColumns s (e.column - s.outputColumn)
    assemble (input + 1 + consumed) (store s e.row value) consumed rest

def tryFromCoo (rows columns : Nat) (entries : List (CooEntry T)) (reservedNnz : Nat)
    : Fallible (CscMatrix T) := do
  sparseShape rows columns
  checkCancelled 0
  checkCoordinates rows columns 0 entries
  allocate "COO ordering" entries.length
  checkPositions 0 entries.length
  let ordered := (Sequence.sortByKey CooEntry.coordinate entries).map Prod.fst
  checkCancelled ordered.length
  let workingCapacity := max reservedNnz ordered.length
  allocate "row indices" workingCapacity
  allocate "values" workingCapacity
  let columnCount ← checkedUsize columns
  if columnCount + 1 > u64Max then
    throw (.hostLengthOverflow columns)
  allocate "column offsets" (columnCount + 1)
  let start : Assembly T := { colOffsets := [0], rowIndices := [], values := [], outputColumn := 0 }
  let s ← assemble 0 start 0 ordered
  let s ← finishColumns s (columns - s.outputColumn)
  return {
    rows := rows
    columns := columns
    colOffsets := s.colOffsets
    rowIndices := s.rowIndices
    values := s.values
    reservedNnz := max reservedNnz s.values.length
  }

/-- The checks of the stored entries `offset, offset + 1, …` of one column. -/
def checkColumn (rows : Nat) (rowIndices : List Nat) (values : List T)
    (previous : Option Nat) (offset : Nat) : Nat → Fallible Unit
  | 0 => return ()
  | count + 1 => do
    checkCancelled offset
    let row := rowIndices.getD offset 0
    if row ≥ rows then
      throw (.invalidCsc .rowOutOfBounds)
    if previous.any (fun p => decide (row ≤ p)) then
      throw (.invalidCsc .rowOrder)
    if values[offset]?.any CscElement.isExplicitZero then
      throw (.invalidCsc .explicitZero)
    checkColumn rows rowIndices values (some row) (offset + 1) count

def checkColumns (rows : Nat) (colOffsets rowIndices : List Nat) (values : List T) (column : Nat)
    : Nat → Fallible Unit
  | 0 => return ()
  | count + 1 => do
    checkCancelled column
    let start ← checkedUsize (colOffsets.getD column 0)
    let stop ← checkedUsize (colOffsets.getD (column + 1) 0)
    if start > stop ∨ stop > values.length then
      throw (.invalidCsc .columnOffsets)
    checkColumn rows rowIndices values none start (stop - start)
    checkColumns rows colOffsets rowIndices values (column + 1) count

def tryFromCanonicalParts (rows columns : Nat) (colOffsets rowIndices : List Nat) (values : List T)
    (reservedNnz : Nat) : Fallible (CscMatrix T) := do
  sparseShape rows columns
  checkCancelled 0
  let columnCount ← checkedUsize columns
  if columnCount + 1 > u64Max ∨ colOffsets.length ≠ columnCount + 1 then
    throw (.invalidCsc .columnOffsetLength)
  if rowIndices.length ≠ values.length then
    throw (.invalidCsc .storageLength)
  if reservedNnz < values.length then
    throw (.invalidCsc .reserveTooSmall)
  if colOffsets.head? ≠ some 0 then
    throw (.invalidCsc .firstColumnOffset)
  let nnz ← checkedU64 values.length
  if colOffsets.getLast? ≠ some nnz then
    throw (.invalidCsc .finalColumnOffset)
  checkColumns rows colOffsets rowIndices values 0 columnCount
  -- The capacities of the vectors are not modelled: a vector that has room is not rejected.
  allocate "row indices" reservedNnz
  allocate "values" reservedNnz
  return {
    rows := rows
    columns := columns
    colOffsets := colOffsets
    rowIndices := rowIndices
    values := values
    reservedNnz := reservedNnz
  }

end Coo

end Sparse
end OpenMat
