import OpenMat.Arrays.Dense
import OpenMat.Builtins.Error
import OpenMat.Fallible.Basic

/-!
This module contains the permutation of the dimensions of an array and its repetition. The vectors of the
arguments are read already, the context is one that is not cancelled, and allocations succeed.
-/

namespace OpenMat
namespace Builtins

open Arrays (Shape DenseArray)

variable {T : Type}

namespace Rearrangement

def mappingError (name : String) : Failure :=
  .builtin ⟨.domain, "`" ++ name ++ "` computed an invalid checked column-major mapping"⟩

def permutationError : Failure :=
  .builtin ⟨.domain, "input 2 to `permute` must be a permutation containing every input dimension"⟩

def repetitionError (position : Nat) : Failure :=
  .builtin ⟨.domain, "input " ++ toString position ++ " to `repmat` must contain finite integer repetition counts"⟩

def repmatOverflow : Failure :=
  .builtin ⟨.domain, "the requested `repmat` output dimensions overflowed"⟩

end Rearrangement

open Rearrangement

/-! Permuting the dimensions. -/

/-- The strides of the dimensions, and the stride of the dimensions beyond. -/
def sourceStrides (stride : Nat) : List Nat → Except Failure (List Nat × Nat)
  | [] => .ok ([], stride)
  | extent :: extents => do
    let next ← okOr (checkedMul 64 stride extent) (mappingError "permute")
    let (strides, last) ← sourceStrides next extents
    .ok (stride :: strides, last)

/-- The digit of an offset at an extent, and the rest of the offset. -/
def splitOffset (extent remainder : Nat) : Nat × Nat :=
  if extent = 0 then (0, remainder) else (remainder % extent, remainder / extent)

def permuteOffset (shape : Shape) (strides : List Nat) (stride : Nat)
    : Nat → List Nat → Nat → Nat → Except Failure Nat
  | _, [], _, inputOffset => .ok inputOffset
  | outputAxis, sourceDimension :: order, remainder, inputOffset => do
    let (coordinate, remainder) := splitOffset (shape.dimensions.getD outputAxis 1) remainder
    let sourceStride := strides.getD (sourceDimension - 1) stride
    let distance ← okOr (checkedMul 64 coordinate sourceStride) (mappingError "permute")
    let inputOffset ← okOr (checkedAdd 64 inputOffset distance) (mappingError "permute")
    permuteOffset shape strides stride (outputAxis + 1) order remainder inputOffset

def permuteDense (input : DenseArray T) (inputDimensions order : List Nat) (shape : Shape)
    : Except Failure (DenseArray T) := do
  let (strides, stride) ← sourceStrides 1 inputDimensions
  let values ← (List.range shape.numel).mapM fun outputOffset => do
    let inputOffset ← permuteOffset shape strides stride 0 order outputOffset 0
    okOr input.data[inputOffset]? (mappingError "permute")
  (DenseArray.fromVec shape values).mapError arrayError

/-- Every dimension of the array occurs, and every dimension once. -/
def AcceptsOrder (input : DenseArray T) (order : List Nat) : Prop :=
  input.shape.ndims ≤ order.length ∧
    ∀ expected ∈ List.range' 1 order.length, order.count expected = 1

instance (input : DenseArray T) (order : List Nat) : Decidable (AcceptsOrder input order) :=
  inferInstanceAs (Decidable (_ ∧ _))

def permutedDimensions (inputDimensions order : List Nat) : List Nat :=
  order.map fun dimension => inputDimensions.getD (dimension - 1) 1

def permute (input : DenseArray T) (order : List Nat) : Except Failure (DenseArray T) := do
  ensure (AcceptsOrder input order) permutationError
  let shape ← (Shape.new (permutedDimensions input.shape.dimensions order)).mapError arrayError
  permuteDense input input.shape.dimensions order shape

/-! Repeating the elements. -/

def repmatOffset (inputDimensions : List Nat) : Nat → List Nat → Nat → Nat → Nat → Except Failure Nat
  | _, [], _, inputOffset, _ => .ok inputOffset
  | axis, outputExtent :: extents, remainder, inputOffset, inputStride => do
    let (coordinate, remainder) := splitOffset outputExtent remainder
    let inputExtent := inputDimensions.getD axis 1
    let (inputCoordinate, _) := splitOffset inputExtent coordinate
    let distance ← okOr (checkedMul 64 inputCoordinate inputStride) (mappingError "repmat")
    let inputOffset ← okOr (checkedAdd 64 inputOffset distance) (mappingError "repmat")
    let inputStride ← okOr (checkedMul 64 inputStride inputExtent) (mappingError "repmat")
    repmatOffset inputDimensions (axis + 1) extents remainder inputOffset inputStride

def repmatDense (input : DenseArray T) (inputDimensions : List Nat) (shape : Shape)
    : Except Failure (DenseArray T) := do
  let values ← (List.range shape.numel).mapM fun outputOffset => do
    let inputOffset ← repmatOffset inputDimensions 0 shape.dimensions outputOffset 0 1
    okOr input.data[inputOffset]? (mappingError "repmat")
  (DenseArray.fromVec shape values).mapError arrayError

/-- A single count is the one of the rows and of the columns. -/
def doubledRepetitions : List Nat → List Nat
  | [repetition] => [repetition, repetition]
  | repetitions => repetitions

def repmatShape (inputDimensions repetitions : List Nat) : Except Failure Shape := do
  ensure (repetitions ≠ []) (repetitionError 2)
  let repetitions := doubledRepetitions repetitions
  let outputDimensions ← (List.range (max inputDimensions.length repetitions.length)).mapM fun index =>
    okOr (checkedMul 64 (inputDimensions.getD index 1) (repetitions.getD index 1)) repmatOverflow
  (Shape.new outputDimensions).mapError arrayError

def repmat (input : DenseArray T) (repetitions : List Nat) : Except Failure (DenseArray T) := do
  let shape ← repmatShape input.shape.dimensions repetitions
  repmatDense input input.shape.dimensions shape

end Builtins
end OpenMat
