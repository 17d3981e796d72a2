import OpenMat.Arrays.Dense
import OpenMat.Builtins.Error
import OpenMat.Fallible.Basic
import OpenMat.Values.Value

/-!
This module contains the distinct elements of an array. The context is one that is not cancelled, and
allocations succeed. Positions are exact as doubles, as an array that does not fit the address space is needed
for others.
-/

namespace OpenMat
namespace Builtins

open Arrays Values

class SetElement (T : Type) where
  setEqual : T → T → Bool
  setCompare : T → T → Ordering

instance : SetElement Bool where
  setEqual a b := a == b
  setCompare a b := compare a b

instance : SetElement CharCodeUnit where
  setEqual a b := a == b
  setCompare a b := compare a.toNat b.toNat

instance {t : IntegerType} : SetElement t.Element where
  setEqual a b := a == b
  setCompare a b := compare a.val b.val

inductive UniqueOrder where
  | sorted
  | stable
  deriving DecidableEq, Repr

namespace SetOperation

def mappingError (name : String) : Failure :=
  .builtin ⟨.domain, "`" ++ name ++ "` could not allocate or map the requested array"⟩

end SetOperation

structure UniqueResult (T : Type) where
  values : List T
  indices : List Nat
  inverse : List Nat

/-- Positions of the language count from one. -/
def indexAsF64 (index : Nat) : Except Failure Nat :=
  okOr (checkedAdd 64 index 1) (SetOperation.mappingError "unique")

variable {T : Type}

/-- The element at the original position belongs to the group. -/
def joinGroup (result : UniqueResult T) (original group : Nat) : Except Failure (UniqueResult T) := do
  let index ← indexAsF64 group
  ensure (original < result.inverse.length) .panics
  .ok { result with inverse := result.inverse.set original index }

/-- The element at the original position starts a group. -/
def openGroup (result : UniqueResult T) (value : T) (original : Nat) : Except Failure (UniqueResult T) := do
  let position ← indexAsF64 original
  let index ← indexAsF64 result.values.length
  ensure (original < result.inverse.length) .panics
  .ok {
    values := result.values ++ [value]
    indices := result.indices ++ [position]
    inverse := result.inverse.set original index }

section Dense

variable [SetElement T]

def stableStep (result : UniqueResult T) (entry : T × Nat) : Except Failure (UniqueResult T) :=
  match result.values.findIdx? fun existing => SetElement.setEqual entry.1 existing with
  | some group => joinGroup result entry.2 group
  | none => openGroup result entry.1 entry.2

def sortedStep (result : UniqueResult T) (entry : T × Nat) : Except Failure (UniqueResult T) :=
  if result.values.getLast?.any fun existing => SetElement.setEqual entry.1 existing then
    joinGroup result entry.2 (result.values.length - 1)
  else
    openGroup result entry.1 entry.2

/-- The order of the sort, which is stable. -/
def notAbove (left right : T × Nat) : Bool :=
  SetElement.setCompare left.1 right.1 != .gt

def uniqueDense (input : DenseArray T) (order : UniqueOrder) : Except Failure (UniqueResult T) :=
  let result : UniqueResult T := ⟨[], [], List.replicate input.data.length 0⟩
  match order with
  | .stable => input.data.zipIdx.foldlM stableStep result
  | .sorted => (input.data.zipIdx.mergeSort notAbove).foldlM sortedStep result

end Dense

def uniqueShape (input : Shape) (length : Nat) : Except Failure Shape :=
  let output :=
    if input.numel = 0 ∧ input.dimensions = [0, 0] then
      [0, 0]
    else if input.ndims = 2 ∧ input.extent 0 = 1 then
      [1, length]
    else
      [length, 1]
  (Shape.new output).mapError arrayError

def buildSelected (inputShape : Shape) (values : List T) : Except Failure (DenseArray T) := do
  let shape ← uniqueShape inputShape values.length
  (DenseArray.fromVec shape values).mapError arrayError

def indexColumn (values : List Nat) : Except Failure (DenseArray Nat) := do
  let shape ← (Shape.new [values.length, 1]).mapError arrayError
  (DenseArray.fromVec shape values).mapError arrayError

inductive UniqueOutput (T : Type) where
  | values (array : DenseArray T)
  | positions (array : DenseArray Nat)

def positionsIf (requested : Bool) (column : Except Failure (DenseArray Nat))
    : Except Failure (List (UniqueOutput T)) :=
  if requested then do
    let array ← column
    .ok [.positions array]
  else
    .ok []

def inverseColumn (inputShape : Shape) (inverse : List Nat) : Except Failure (DenseArray Nat) := do
  ensure (inverse.length = inputShape.numel) (SetOperation.mappingError "unique")
  indexColumn inverse

def uniqueOutputs (values : DenseArray T) (inputShape : Shape) (indices inverse : List Nat) (requested : Nat)
    : Except Failure (List (UniqueOutput T)) := do
  let indices ← positionsIf (1 < requested) (indexColumn indices)
  let inverse ← positionsIf (2 < requested) (inverseColumn inputShape inverse)
  .ok ((if 0 < requested then [.values values] else []) ++ indices ++ inverse)

/-- The distinct elements of an array of one class. -/
def uniqueArray [SetElement T] (input : DenseArray T) (order : UniqueOrder) (requestedOutputs : Nat)
    : Except Failure (List (UniqueOutput T)) := do
  let result ← uniqueDense input order
  let selected ← buildSelected input.shape result.values
  uniqueOutputs selected input.shape result.indices result.inverse requestedOutputs

end Builtins
end OpenMat
