import OpenMat.Arrays.Subscripts
import OpenMat.Fallible.Basic
import OpenMat.Indexing.Broadcast
import OpenMat.Indexing.Value
import OpenMat.Sequence.ColumnMajor

/-!
This module contains the resolution of subscripts: the offsets that colons, masks and numbers select in an
array, and the shape of what they select. Allocations succeed: the size limit of a list of indices that does not fit
in memory, in any case one of 2^60 or more, is not part of the model.
-/

namespace OpenMat
namespace Indexing

open Arrays (Shape DenseArray ArrayError)
open Arrays.Shape (InRange viewExtents)
open Floats (FloatFormat FloatValue)
open Sequence

variable {P : Payloads}

/-- The token is read in each of a fixed number of steps. -/
def checkCancelled (cancelled : Bool) (progress : Nat) : Except RuntimeErrorKind Unit :=
  ensure (¬ (progress % 1024 = 0 ∧ cancelled = true)) .cancelled

@[simp]
theorem checkCancelled_false (progress : Nat)
    : checkCancelled false progress = .ok () :=
  ensure_pos (by simp)

def checkedFloatIndex (value : FloatValue) (invalid : IndexErrorKind → RuntimeErrorKind)
    : Except RuntimeErrorKind Nat := do
  ensure (value.isFinite = true) (invalid .nonFinite)
  ensure (value.hasFraction = false) (invalid .nonInteger)
  ensure (value.isNonPositive = false) (invalid .nonPositive)
  return if value.isAtLeast (2 ^ 64) then u64Max else value.truncate

def invalidIndex (argument : Nat) (reason : IndexErrorKind) : RuntimeErrorKind :=
  .array (.invalidIndex argument reason)

/-- The number at an offset, before it is compared with the extent. -/
def indexAt (view : IndexView) (offset argument extent : Nat) : Except RuntimeErrorKind Nat :=
  match view with
  | .realScalar value =>
    -- the only other offset is unreachable
    if offset = 0 then
      checkedFloatIndex (FloatFormat.double.decode value.toNat) (invalidIndex argument)
    else
      .error .panics
  | .realArray array => do
    let value ← okOr array.data[offset]? .panics
    checkedFloatIndex (FloatFormat.double.decode value.toNat) (invalidIndex argument)
  | .singleRealArray array => do
    -- the conversion to a double is exact
    let value ← okOr array.data[offset]? .panics
    checkedFloatIndex (FloatFormat.single.decode value.toNat) (invalidIndex argument)
  | .char array => do
    let value ← okOr array.data[offset]? .panics
    return value.toNat
  | .integer (.real _ array) => do
    let value ← okOr array.data[offset]? .panics
    ensure (0 < value.val) (invalidIndex argument .nonPositive)
    okOr (tryFrom 64 value.val.toNat) (.array (.indexOutOfBounds argument u64Max extent))
  | .complexScalar | .complexArray _ | .singleComplexArray _ | .integer (.complex _ _)
  | .logicalScalar _ | .logicalArray _ => .error (invalidIndex argument .nonInteger)

def checkedIndexAt (view : IndexView) (offset argument extent : Nat) : Except RuntimeErrorKind Nat := do
  let index ← indexAt view offset argument extent
  ensure (index ≠ 0) (invalidIndex argument .nonPositive)
  ensure (index ≤ extent) (.array (.indexOutOfBounds argument index extent))
  return index

structure DimensionSelection where
  indices : List Nat
  sourceShape : List Nat
  colon : Bool
  logical : Bool

/-- The loop over an extent. The reservation of the list, which refuses an extent of 2^60 or more, succeeds. -/
def colonIndices (extent : Nat) (cancelled : Bool) : Except RuntimeErrorKind (List Nat) :=
  (List.range extent).mapM fun index => do
    checkCancelled cancelled index
    return index + 1

/-- The loop over the elements of a mask. -/
def maskIndices (view : IndexView) (cancelled : Bool) : List Nat → Except RuntimeErrorKind (List Nat)
  | [] => .ok []
  | offset :: offsets => do
    checkCancelled cancelled offset
    let selected ← okOr (view.logicalAt offset) .panics
    let indices ← maskIndices view cancelled offsets
    return if selected then (offset + 1) :: indices else indices

/-- The loop over numbers. -/
def numericIndices (view : IndexView) (extent argument : Nat) (cancelled : Bool)
    : Except RuntimeErrorKind (List Nat) :=
  (List.range view.numel).mapM fun offset => do
    checkCancelled cancelled offset
    checkedIndexAt view offset argument extent

def resolveView (view : IndexView) (extent argument : Nat) (cancelled : Bool)
    : Except RuntimeErrorKind (List Nat) :=
  if view.isLogical then do
    ensure (view.numel = extent ∨ view.numel = 1) (invalidIndex argument (.logicalLength extent view.numel))
    checkCancelled cancelled 0
    maskIndices view cancelled (List.range view.numel)
  else do
    checkCancelled cancelled 0
    numericIndices view extent argument cancelled

def resolveDimension (input : IndexInput P) (extent argument : Nat) (cancelled : Bool)
    : Except RuntimeErrorKind DimensionSelection :=
  match input with
  | .colon => do
    checkCancelled cancelled 0
    let indices ← colonIndices extent cancelled
    return { indices := indices, sourceShape := [extent, 1], colon := true, logical := false }
  | .value value => do
    let view ← okOr (IndexView.new value) (invalidIndex argument .nonNumeric)
    let indices ← resolveView view extent argument cancelled
    return {
      indices := indices
      sourceShape := view.dimensions
      colon := false
      logical := view.isLogical }

/-- The loop over the subscripts with their extents. -/
def resolveDimensions (cancelled : Bool) (argument : Nat)
    : List (IndexInput P × Nat) → Except RuntimeErrorKind (List DimensionSelection)
  | [] => .ok []
  | (input, extent) :: inputs => do
    let selection ← resolveDimension input extent argument cancelled
    let selections ← resolveDimensions cancelled (argument + 1) inputs
    return selection :: selections

def isVector (dimensions : List Nat) : Bool :=
  match dimensions with
  | [rows, columns] => rows = 1 || columns = 1
  | _ => false

def linearResultDimensions (shape : Shape) (selection : DimensionSelection) : List Nat :=
  let length := selection.indices.length
  if selection.colon then
    [length, 1]
  else if isVector shape.dimensions && isVector selection.sourceShape then
    if shape.extent 0 = 1 then [1, length] else [length, 1]
  else if selection.logical then
    [length, 1]
  else
    selection.sourceShape

structure ResolvedSelection where
  offsets : List Nat
  shape : Shape

/-- The loop over the indices of a single subscript. -/
def linearOffsets (shape : Shape) (cancelled : Bool) (indices : List Nat)
    : Except RuntimeErrorKind (List Nat) :=
  indices.zipIdx.mapM fun (index, position) => do
    checkCancelled cancelled position
    ensure (¬ (index = 0 ∨ index > shape.numel)) (.array (.indexOutOfBounds 0 index shape.numel))
    return index - 1

/-- The subscripts of an element of the result: less than there are selections, where one is empty. -/
def subscriptsAt : List DimensionSelection → Nat → Except RuntimeErrorKind (List Nat)
  | [], _ => .ok []
  | selection :: selections, remaining =>
    let length := selection.indices.length
    if length = 0 then
      .ok []
    else do
      let index ← okOr selection.indices[remaining % length]? .panics
      let subscripts ← subscriptsAt selections (remaining / length)
      return index :: subscripts

/-- The loop over the elements of the result. -/
def productOffsets (shape : Shape) (selections : List DimensionSelection) (cancelled : Bool)
    : List Nat → Except RuntimeErrorKind (List Nat)
  | [] => .ok []
  | linear :: linears => do
    checkCancelled cancelled linear
    let subscripts ← subscriptsAt selections linear
    if subscripts.length = selections.length then
      let offset ← (shape.offsetForSubscripts subscripts).mapError fun _ => arraySizeError
      let offsets ← productOffsets shape selections cancelled linears
      return offset :: offsets
    else
      productOffsets shape selections cancelled linears

def resultDimensions (shape : Shape) (selections : List DimensionSelection) : List Nat :=
  match selections with
  | [selection] => linearResultDimensions shape selection
  | _ => selections.map fun selection => selection.indices.length

def selectionOffsets (shape : Shape) (selections : List DimensionSelection) (outputLength : Nat)
    (cancelled : Bool)
    : Except RuntimeErrorKind (List Nat) :=
  match selections with
  | [selection] => linearOffsets shape cancelled selection.indices
  | _ => productOffsets shape selections cancelled (List.range outputLength)

def resolveIndices (shape : Shape) (arguments : List (IndexInput P)) (cancelled : Bool)
    : Except RuntimeErrorKind ResolvedSelection := do
  ensure (arguments ≠ []) (invalidIndex 0 .noSubscripts)
  let extents ← (shape.effectiveDimensions arguments.length).mapError fun _ => arraySizeError
  checkCancelled cancelled 0
  let selections ← resolveDimensions cancelled 0 (arguments.zip extents)
  let resultShape ← (Shape.new (resultDimensions shape selections)).mapError fun _ => arraySizeError
  checkCancelled cancelled 0
  let offsets ← selectionOffsets shape selections resultShape.numel cancelled
  return { offsets := offsets, shape := resultShape }

def resolveIndexSelection (dimensions : List Nat) (arguments : List (IndexInput P)) (cancelled : Bool)
    : Except RuntimeErrorKind ResolvedSelection := do
  let shape ← (Shape.new dimensions).mapError fun _ => arraySizeError
  resolveIndices shape arguments cancelled

end Indexing
end OpenMat
