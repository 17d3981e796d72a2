import OpenMat.Builtins.IsMember
import OpenMat.Builtins.Rearrange
import OpenMat.Sequence.Strides
import OpenMat.Values.Casts

/-!
This module contains the concatenation of dense arrays. The dimension is read already, the context is one that is
not cancelled, and allocations succeed. The path for sparse inputs is not part of the model.
-/

namespace OpenMat
namespace Builtins

open Arrays (Shape DenseArray)
open Indexing (Value Payloads IndexView)
open Sequence (padded)
open Values (F32 F64 ComplexValue CharCodeUnit IntegerType IntegerArrayData ArrayData SourceComponent)

variable {P : Payloads} {T : Type}

inductive TargetClass where
  | logical
  | double (complex : Bool)
  | single (complex : Bool)
  | char
  | integer (type : IntegerType)
  deriving DecidableEq, Repr

structure NumericElement where
  real : SourceComponent
  imaginary : Option SourceComponent

structure ConcatInput (P : Payloads) where
  value : Value P
  dimensions : List Nat
  axisStart : Nat
  axisEnd : Nat

structure ConcatPlan (P : Payloads) where
  inputs : List (ConcatInput P)
  outputShape : Shape
  outputDimensions : List Nat
  axis : Nat

namespace Concatenation

def conversionError (name : String) : Failure :=
  .builtin ⟨.type, "`" ++ name ++ "` cannot convert all inputs to the dominant concatenation class"⟩

def extentError (name : String) (position : Nat) : Failure :=
  .builtin ⟨.domain, "input " ++ toString position ++ " to `" ++ name ++ "` has an incompatible extent"⟩

end Concatenation

open Concatenation
open Rearrangement (mappingError)

/-! The class of the output. -/

def validateInputs (name : String) (inputs : List (Value P)) : Except Failure Unit :=
  inputs.zipIdx.forM fun (value, index) =>
    ensure ((IndexView.new value).isSome) (typeError name (index + 1) "numeric, logical, char, or integer array" value)

def isComplexNumeric : Value P → Bool
  | .complex _ => true
  | .array array => array.isComplex
  | _ => false

def integerKind : Value P → Option IntegerType
  | .array (.integer (.real type _)) => some type
  | _ => none

def isChar : Value P → Bool
  | .array (.char _) => true
  | _ => false

def isLogical : Value P → Bool
  | .logical _ | .array (.logical _) => true
  | _ => false

def isSingle : Value P → Bool
  | .array (.f32 _) | .array (.complexF32 _) => true
  | _ => false

def isDouble : Value P → Bool
  | .double _ | .complex _ | .array (.f64 _) | .array (.complexF64 _) => true
  | _ => false

def targetClass (name : String) (inputs : List (Value P)) : Except Failure TargetClass :=
  let complex := inputs.any isComplexNumeric
  if inputs.any isChar then
    if inputs.any isLogical || complex then .error (conversionError name) else .ok .char
  else
    match inputs.findSome? integerKind with
    | some type => if complex then .error (conversionError name) else .ok (.integer type)
    | none =>
      if inputs.any isSingle then .ok (.single complex)
      else if inputs.any isDouble then .ok (.double complex)
      else .ok .logical

/-! Where the inputs are in the output. -/

def valueDimensions (value : Value P) : Option (List Nat) := (IndexView.new value).map IndexView.dimensions

/-- The inputs with the intervals of the axis that they fill, and the end of the last one. -/
def placeInputs (name : String) (axis rank : Nat) (outputDimensions : List Nat)
    : Nat → Nat → List (Value P) → Except Failure (List (ConcatInput P) × Nat)
  | _, axisStart, [] => .ok ([], axisStart)
  | index, axisStart, value :: values => do
    let source ← okOr (valueDimensions value) (mappingError name)
    let dimensions := padded source rank
    ensure (∀ index < rank, index ≠ axis → dimensions.getD index 1 = outputDimensions.getD index 1)
      (extentError name (index + 1))
    let axisEnd ← okOr (checkedAdd 64 axisStart (dimensions.getD axis 1)) (mappingError name)
    let (inputs, last) ← placeInputs name axis rank outputDimensions (index + 1) axisEnd values
    return (⟨value, dimensions, axisStart, axisEnd⟩ :: inputs, last)

def concatRank (axis : Nat) (values : List (Value P)) : Nat :=
  max (((values.filterMap valueDimensions).map (·.length)).max?.getD 2) (axis + 1)

def concatPlan (name : String) (dimension : Nat) (values : List (Value P)) : Except Failure (ConcatPlan P) := do
  let axis := dimension - 1
  let rank := concatRank axis values
  let firstDimensions ← okOr (values.head?.bind valueDimensions) (mappingError name)
  let outputDimensions := padded firstDimensions rank
  let (inputs, last) ← placeInputs name axis rank outputDimensions 0 0 values
  let outputDimensions := outputDimensions.set axis last
  let outputShape ← (Shape.new outputDimensions).mapError arrayError
  return ⟨inputs, outputShape, outputDimensions, axis⟩

/-- The digits of an offset at the extents. -/
def outputCoordinates : List Nat → Nat → List Nat
  | [], _ => []
  | extent :: extents, remainder =>
    let (coordinate, remainder) := splitOffset extent remainder
    coordinate :: outputCoordinates extents remainder

def inputOffset : List Nat → List Nat → Nat → Nat → Option Nat
  | coordinate :: coordinates, extent :: extents, offset, stride => do
    let distance ← checkedMul 64 coordinate stride
    let offset ← checkedAdd 64 offset distance
    let stride ← checkedMul 64 stride extent
    inputOffset coordinates extents offset stride
  | _, _, offset, _ => some offset

/-- The element of the output at an offset: from the input whose interval contains the coordinate. -/
def concatElement (name : String) (plan : ConcatPlan P) (convert : Value P → Nat → Except Failure T)
    (outputOffset : Nat) : Except Failure T := do
  let coordinates := outputCoordinates plan.outputDimensions outputOffset
  let axisCoordinate := coordinates.getD plan.axis 0
  let input ← okOr (plan.inputs.find? fun input => input.axisStart ≤ axisCoordinate && axisCoordinate < input.axisEnd)
    (mappingError name)
  let offset ← okOr (inputOffset (coordinates.set plan.axis (axisCoordinate - input.axisStart)) input.dimensions 0 1)
    (mappingError name)
  convert input.value offset

def concatMap (name : String) (plan : ConcatPlan P) (convert : Value P → Nat → Except Failure T)
    : Except Failure (List T) :=
  (List.range plan.outputShape.numel).mapM (concatElement name plan convert)

/-! The elements, converted to the class of the output. -/

def sourceInteger : IntegerComponent → SourceComponent
  | .signed value => .signed value
  | .unsigned value => .unsigned value

def realElement (value : SourceComponent) : NumericElement := ⟨value, none⟩

def numericElement (name : String) (value : Value P) (offset : Nat) : Except Failure NumericElement :=
  match value with
  | .logical value => if offset = 0 then .ok (realElement (.unsigned value.toNat)) else .error (conversionError name)
  | .double value => if offset = 0 then .ok (realElement (.float value)) else .error (conversionError name)
  | .complex value =>
    if offset = 0 then .ok ⟨.float value.re, some (.float value.im)⟩ else .error (conversionError name)
  | .array (.f32 array) => do
    let value ← okOr array.data[offset]? (mappingError name)
    return realElement (.float (F64.ofF32 value))
  | .array (.complexF32 array) => do
    let value ← okOr array.data[offset]? (mappingError name)
    return ⟨.float (F64.ofF32 value.re), some (.float (F64.ofF32 value.im))⟩
  | .array (.logical array) => do
    let value ← okOr array.data[offset]? (mappingError name)
    return realElement (.unsigned value.toNat)
  | .array (.f64 array) => do
    let value ← okOr array.data[offset]? (mappingError name)
    return realElement (.float value)
  | .array (.complexF64 array) => do
    let value ← okOr array.data[offset]? (mappingError name)
    return ⟨.float value.re, some (.float value.im)⟩
  | .array (.char array) => do
    let value ← okOr array.data[offset]? (mappingError name)
    return realElement (.unsigned value.toNat)
  | .array (.integer (.real _ array)) => do
    let value ← okOr array.data[offset]? (mappingError name)
    return realElement (sourceInteger (integerComponent value))
  | .array (.integer (.complex _ array)) => do
    let value ← okOr array.data[offset]? (mappingError name)
    return ⟨sourceInteger (integerComponent value.re), some (sourceInteger (integerComponent value.im))⟩
  | .nothing | .string _ | .sparse _ | .cell _ | .struct _ | .table _ | .object _ | .objectArray _ | .graphics _
  | .graphicsArray _ | .function _ => .error (conversionError name)

/-- The real component, of a number that has no other one. -/
def realComponent (name : String) (value : Value P) (offset : Nat) : Except Failure SourceComponent := do
  let element ← numericElement name value offset
  ensure (element.imaginary.isNone) (conversionError name)
  return element.real

def componentF64 : SourceComponent → F64
  | .signed value => F64.ofInt value
  | .unsigned value => F64.ofInt value
  | .float value => value

def componentF32 (value : SourceComponent) : F32 := F32.ofF64 (componentF64 value)

def componentChar : SourceComponent → CharCodeUnit
  | .signed value => BitVec.ofNat 16 (if value < 0 then 0 else min value.toNat (2 ^ 16 - 1))
  | .unsigned value => BitVec.ofNat 16 (min value (2 ^ 16 - 1))
  | .float value =>
    if IntegerType.isNan value.decode || value.decode.isNonPositive then
      0
    else if !value.decode.isFinite || value.decode.isAtLeast (2 ^ 16 - 1) then
      BitVec.ofNat 16 (2 ^ 16 - 1)
    else
      BitVec.ofNat 16 value.decode.truncate

def logicalElement (name : String) (value : Value P) (offset : Nat) : Except Failure Bool :=
  match value with
  | .logical value => if offset = 0 then .ok value else .error (conversionError name)
  | .array (.logical array) => okOr array.data[offset]? (mappingError name)
  | _ => .error (conversionError name)

def doubleElement (name : String) (value : Value P) (offset : Nat) : Except Failure F64 := do
  let component ← realComponent name value offset
  return componentF64 component

def complexDoubleElement (name : String) (value : Value P) (offset : Nat) : Except Failure (ComplexValue F64) := do
  let element ← numericElement name value offset
  return ⟨componentF64 element.real, (element.imaginary.map componentF64).getD 0⟩

def singleElement (name : String) (value : Value P) (offset : Nat) : Except Failure F32 := do
  let component ← realComponent name value offset
  return componentF32 component

def complexSingleElement (name : String) (value : Value P) (offset : Nat) : Except Failure (ComplexValue F32) := do
  let element ← numericElement name value offset
  return ⟨componentF32 element.real, (element.imaginary.map componentF32).getD 0⟩

def charElement (name : String) (value : Value P) (offset : Nat) : Except Failure CharCodeUnit :=
  match value with
  | .array (.char array) => okOr array.data[offset]? (mappingError name)
  | _ => do
    let component ← realComponent name value offset
    return componentChar component

def integerElement (name : String) (type : IntegerType) (value : Value P) (offset : Nat)
    : Except Failure type.Element := do
  let component ← realComponent name value offset
  return type.convert component

/-! The concatenation. -/

def concatDense (name : String) (plan : ConcatPlan P) (convert : Value P → Nat → Except Failure T)
    : Except Failure (DenseArray T) := do
  let values ← concatMap name plan convert
  (DenseArray.fromVec plan.outputShape values).mapError arrayError

def concatTarget (name : String) (plan : ConcatPlan P) : TargetClass → Except Failure ArrayData
  | .logical => do return .logical (← concatDense name plan (logicalElement name))
  | .double false => do return .f64 (← concatDense name plan (doubleElement name))
  | .double true => do return .complexF64 (← concatDense name plan (complexDoubleElement name))
  | .single false => do return .f32 (← concatDense name plan (singleElement name))
  | .single true => do return .complexF32 (← concatDense name plan (complexSingleElement name))
  | .char => do return .char (← concatDense name plan (charElement name))
  | .integer type => do return .integer (.real type (← concatDense name plan (integerElement name type)))

def emptyShape : Shape := .matrix 0 0

def emptyDouble : Value P := .array (.f64 ⟨emptyShape, [], rfl⟩)

/-- The concatenation of `cat`, of `horzcat` in dimension two and of `vertcat` in dimension one. -/
def concatenate (name : String) (dimension : Nat) (inputs : List (Value P)) : Except Failure (Value P) :=
  match inputs with
  | [] => .ok emptyDouble
  | [input] => do
    validateInputs name [input]
    return input
  | _ => do
    validateInputs name inputs
    let plan ← concatPlan name dimension inputs
    let target ← targetClass name inputs
    return .array (← concatTarget name plan target)

def horzcat (inputs : List (Value P)) : Except Failure (Value P) := concatenate "horzcat" 2 inputs

def vertcat (inputs : List (Value P)) : Except Failure (Value P) := concatenate "vertcat" 1 inputs

def cat (dimension : Nat) (inputs : List (Value P)) : Except Failure (Value P) := concatenate "cat" dimension inputs

end Builtins
end OpenMat
