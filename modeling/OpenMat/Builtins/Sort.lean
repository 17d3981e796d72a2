import OpenMat.Arrays.Dense
import OpenMat.Builtins.Error
import OpenMat.Fallible.Basic
import OpenMat.Values.Value

/-!
This module contains the sorting of a dense array along one dimension. The context is one that is not
cancelled, and allocations succeed. A host has words of 64 bits, and positions are exact as doubles: an array
of more than `2 ^ 53` of them does not fit the address space.
-/

namespace OpenMat
namespace Builtins

open Arrays Values

inductive Direction where
  | ascending
  | descending
  deriving DecidableEq, Repr

inductive MissingPlacement where
  | auto
  | first
  | last
  deriving DecidableEq, Repr

inductive ComparisonMethod where
  | auto
  | real
  | absolute
  deriving DecidableEq, Repr

structure SortOptions where
  dimension : Nat
  direction : Direction
  missing : MissingPlacement
  comparison : ComparisonMethod
  dimension_pos : 0 < dimension

@[ext]
structure SortEntry (T : Type) where
  value : T
  originalAxisIndex : Nat

class SortElement (T : Type) where
  isMissing : T → Bool
  compareValue : T → T → ComparisonMethod → Ordering

instance : SortElement Bool where
  isMissing _ := false
  compareValue a b _ := compare a b

instance : SortElement CharCodeUnit where
  isMissing _ := false
  compareValue a b _ := compare a.toNat b.toNat

instance {t : IntegerType} : SortElement t.Element where
  isMissing _ := false
  compareValue a b _ := compare a.val b.val

namespace Sorting

def mappingError : Failure :=
  .builtin ⟨.domain, "`sort` computed an invalid checked column-major mapping"⟩

end Sorting

open Sorting

def effectiveMissing (options : SortOptions) : MissingPlacement :=
  match options.missing, options.direction with
  | .auto, .ascending => .last
  | .auto, .descending => .first
  | placement, _ => placement

variable {T : Type} [SortElement T]

def compareEntry (left right : SortEntry T) (options : SortOptions) : Ordering :=
  match SortElement.isMissing left.value, SortElement.isMissing right.value with
  | true, true => .eq
  | true, false =>
    match effectiveMissing options with
    | .first => .lt
    | .last | .auto => .gt
  | false, true =>
    match effectiveMissing options with
    | .first => .gt
    | .last | .auto => .lt
  | false, false =>
    let ordering := SortElement.compareValue left.value right.value options.comparison
    if options.direction = .descending then ordering.swap else ordering

/-- Whether the next entry is the one of the left run. -/
def takeLeft (options : SortOptions) (values : List (SortEntry T)) (middle last left right : Nat)
    : Except Failure Bool :=
  if right = last then
    .ok true
  else if left < middle then do
    let leftEntry ← okOr values[left]? .panics
    let rightEntry ← okOr values[right]? .panics
    .ok (compareEntry leftEntry rightEntry options != .gt)
  else
    .ok false

/-- The entries that are written to the next `count` places of the scratch buffer. -/
def mergeRun (options : SortOptions) (values : List (SortEntry T)) (middle last : Nat)
    : Nat → Nat → Nat → Except Failure (List (SortEntry T))
  | 0, _, _ => .ok []
  | count + 1, left, right => do
    if ← takeLeft options values middle last left right then
      let entry ← okOr values[left]? .panics
      let rest ← mergeRun options values middle last count (left + 1) right
      .ok (entry :: rest)
    else
      let entry ← okOr values[right]? .panics
      let rest ← mergeRun options values middle last count left (right + 1)
      .ok (entry :: rest)

def saturatingAdd (bits a b : Nat) : Nat := min (a + b) (2 ^ bits - 1)

/-- One pass writes every place of the scratch buffer from the start on. -/
def mergePass (options : SortOptions) (values : List (SortEntry T)) (width : Nat)
    : Nat → Nat → Except Failure (List (SortEntry T))
  | fuel, start =>
    if start < values.length then
      match fuel with
      | 0 => .error .diverges
      | fuel + 1 => do
        let middle := min (saturatingAdd 64 start width) values.length
        let last := min (saturatingAdd 64 middle width) values.length
        let run ← mergeRun options values middle last (last - start) start middle
        let rest ← mergePass options values width fuel last
        .ok (run ++ rest)
    else
      .ok []

/-- The passes, which swap the buffers. Every pass widens the runs. -/
def mergePasses (options : SortOptions)
    : Nat → Nat → List (SortEntry T) → Except Failure (List (SortEntry T))
  | fuel, width, values =>
    if width < values.length then
      match fuel with
      | 0 => .error .diverges
      | fuel + 1 => do
        let scratch ← mergePass options values width values.length 0
        mergePasses options fuel (min (width * 2) (2 ^ 64 - 1)) scratch
    else
      .ok values

def stableMergeSort (options : SortOptions) (values : List (SortEntry T))
    : Except Failure (List (SortEntry T)) :=
  if values.length < 2 then
    .ok values
  else
    mergePasses options values.length 1 values

/-- The offset of a coordinate on the fibre that starts at the base. -/
def fibreOffset (base stride coordinate : Nat) : Except Failure Nat := do
  let distance ← okOr (checkedMul 64 coordinate stride) mappingError
  okOr (checkedAdd 64 base distance) mappingError

def fibreEntries (data : List T) (base stride extent : Nat) : Except Failure (List (SortEntry T)) :=
  (List.range extent).mapM fun coordinate => do
    let offset ← fibreOffset base stride coordinate
    let value ← okOr data[offset]? .panics
    .ok ⟨value, coordinate⟩

def writeEntry (base stride : Nat) (output : List T × List Nat) (entry : SortEntry T × Nat)
    : Except Failure (List T × List Nat) := do
  let offset ← fibreOffset base stride entry.2
  ensure (offset < output.1.length) .panics
  ensure (offset < output.2.length) .panics
  .ok (output.1.set offset entry.1.value, output.2.set offset (entry.1.originalAxisIndex + 1))

def sortFibre (input : DenseArray T) (options : SortOptions) (stride block extent : Nat)
    (output : List T × List Nat) (position : Nat × Nat)
    : Except Failure (List T × List Nat) := do
  let start ← okOr (checkedMul 64 position.1 block) mappingError
  let base ← okOr (checkedAdd 64 start position.2) mappingError
  let entries ← fibreEntries input.data base stride extent
  let entries ← stableMergeSort options entries
  entries.zipIdx.foldlM (writeEntry base stride) output

def checkedProduct (extents : List Nat) : Option Nat :=
  extents.foldlM (checkedMul 64) 1

def buildDenseResults (input : DenseArray T) (output : List T × List Nat)
    : Except Failure (DenseArray T × DenseArray Nat) := do
  let values ← (DenseArray.fromVec input.shape output.1).mapError arrayError
  let indices ← (DenseArray.fromVec input.shape output.2).mapError arrayError
  .ok (values, indices)

def positions (outer stride : Nat) : List (Nat × Nat) :=
  (List.range outer).flatMap fun outerIndex => (List.range stride).map fun inner => (outerIndex, inner)

def sortDense (input : DenseArray T) (options : SortOptions)
    : Except Failure (DenseArray T × DenseArray Nat) := do
  let axis := options.dimension - 1
  let extent := input.shape.extent axis
  if extent ≤ 1 ∨ input.shape.numel = 0 then
    buildDenseResults input (input.data, List.replicate input.data.length 1)
  else
    let stride ← okOr (checkedProduct (input.shape.dimensions.take axis)) mappingError
    let block ← okOr (checkedMul 64 stride extent) mappingError
    ensure (0 < block) .panics
    let outer := input.data.length / block
    let output ← (positions outer stride).foldlM (sortFibre input options stride block extent)
      (input.data, List.replicate input.data.length 0)
    buildDenseResults input output

end Builtins
end OpenMat
