import OpenMat.Builtins.Error
import OpenMat.Fallible.Basic
import OpenMat.Floats.Number
import OpenMat.Indexing.Value

/-!
This module contains the membership of the elements of one array in another. The context is one that is not
cancelled, and allocations succeed. Single precision numbers are decoded directly, as their conversion to
double precision is exact.
-/

namespace OpenMat
namespace Builtins

open Arrays (Shape DenseArray)
open Floats (FloatFormat FloatValue)
open Indexing (Value Payloads StringElement ValueKind)
open Values (F32 F64 ComplexValue IntegerType IntegerArrayData)

/-- What the values that are not looked into show of themselves. -/
structure PayloadShapes (P : Payloads) where
  sparse : P.sparse → Shape
  cell : P.cell → Shape
  struct : P.struct → Shape
  table : P.table → Shape
  objectArray : P.objectArray → Shape
  graphicsArray : P.graphicsArray → Shape

variable {P : Payloads}

def shapeOf (shapes : PayloadShapes P) : Value P → Option Shape
  | .logical _ | .double _ | .complex _ | .object _ | .graphics _ => some .scalar
  | .objectArray array => some (shapes.objectArray array)
  | .graphicsArray array => some (shapes.graphicsArray array)
  | .string value => some value.shape
  | .array array => some array.shape
  | .sparse value => some (shapes.sparse value)
  | .cell value => some (shapes.cell value)
  | .struct value => some (shapes.struct value)
  | .table value => some (shapes.table value)
  | .nothing | .function _ => none

def kindText : ValueKind → String
  | .nothing => "nothing"
  | .logical => "logical"
  | .double | .complex => "double"
  | .single => "single"
  | .string => "string"
  | .char => "char"
  | .integer => "integer"
  | .array => "array"
  | .sparse => "sparse"
  | .cell => "cell"
  | .struct => "struct"
  | .table => "table"
  | .object => "object"
  | .graphics => "graphics"
  | .function => "function_handle"

def typeError (name : String) (position : Nat) (expected : String) (actual : Value P) : Failure :=
  .builtin ⟨.type, "input " ++ toString position ++ " to `" ++ name ++ "` must be a " ++ expected ++ ", found " ++
    kindText actual.kind⟩

/-- An integer of an array, signed or unsigned. -/
inductive IntegerComponent where
  | signed (value : Int)
  | unsigned (value : Nat)
  deriving DecidableEq, Repr

inductive ComparableComponent where
  | float (value : FloatValue)
  | integer (value : IntegerComponent)
  deriving DecidableEq, Repr

structure ComparableNumeric where
  real : ComparableComponent
  imaginary : ComparableComponent
  deriving DecidableEq, Repr

inductive Comparable where
  | numeric (value : ComparableNumeric)
  | string (value : StringElement)

def ComparableNumeric.ofReal (value : ComparableComponent) : ComparableNumeric where
  real := value
  imaginary := .integer (.unsigned 0)

def integerBool (value : Bool) : ComparableComponent := .integer (.unsigned value.toNat)

def integerComponent {t : IntegerType} (value : t.Element) : IntegerComponent :=
  if t.signed then .signed value.val else .unsigned value.val.toNat

def double (value : F64) : ComparableComponent := .float (FloatFormat.double.decode value.toNat)

def single (value : F32) : ComparableComponent := .float (FloatFormat.single.decode value.toNat)

def comparableElement (value : Value P) (index : Nat) : Option Comparable :=
  match value with
  | .logical value => if index = 0 then some (.numeric (.ofReal (integerBool value))) else none
  | .double value => if index = 0 then some (.numeric (.ofReal (double value))) else none
  | .complex value => if index = 0 then some (.numeric ⟨double value.re, double value.im⟩) else none
  | .array (.f32 array) => array.data[index]?.map fun value => .numeric (.ofReal (single value))
  | .array (.complexF32 array) =>
    array.data[index]?.map fun value => .numeric ⟨single value.re, single value.im⟩
  | .array (.f64 array) => array.data[index]?.map fun value => .numeric (.ofReal (double value))
  | .array (.complexF64 array) =>
    array.data[index]?.map fun value => .numeric ⟨double value.re, double value.im⟩
  | .array (.logical array) => array.data[index]?.map fun value => .numeric (.ofReal (integerBool value))
  | .array (.char array) =>
    array.data[index]?.map fun value => .numeric (.ofReal (.integer (.unsigned value.toNat)))
  | .array (.integer (.real _ array)) =>
    array.data[index]?.map fun value => .numeric (.ofReal (.integer (integerComponent value)))
  | .array (.integer (.complex _ array)) =>
    array.data[index]?.map fun value =>
      .numeric ⟨.integer (integerComponent value.re), .integer (integerComponent value.im)⟩
  | .string value => (value.element index).map .string
  | .nothing | .sparse _ | .cell _ | .struct _ | .table _ | .object _ | .objectArray _ | .graphics _
  | .graphicsArray _ | .function _ => none

/-- The sign and the magnitude. -/
def integerIdentity : IntegerComponent → Bool × Nat
  | .signed value => (value < 0, value.natAbs)
  | .unsigned value => (false, value)

def floatIntegerIdentity (value : FloatValue) : Option (Bool × Nat) :=
  if !value.isFinite || value.hasFraction then
    none
  else if value.isNonNegative then
    if value.isAtLeast (2 ^ 64) then none else some (false, value.truncate)
  else if value.isBelowMinus (2 ^ 63) then
    none
  else
    some (true, value.truncateMagnitude)

def comparableComponentsEqual : ComparableComponent → ComparableComponent → Bool
  | .float left, .float right => left.equal right
  | .integer left, .integer right => integerIdentity left == integerIdentity right
  | .float float, .integer integer | .integer integer, .float float =>
    floatIntegerIdentity float == some (integerIdentity integer)

def ComparableNumeric.equal (left right : ComparableNumeric) : Bool :=
  comparableComponentsEqual left.real right.real && comparableComponentsEqual left.imaginary right.imaginary

def Comparable.equal : Comparable → Comparable → Bool
  | .numeric left, .numeric right => left.equal right
  | .string left, .string right => left.codeUnits == right.codeUnits && left.missing == right.missing
  | .numeric _, .string _ | .string _, .numeric _ => false

def isScalar : Value P → Bool
  | .logical _ | .double _ | .complex _ => true
  | _ => false

/-- The elements with the shape of the value, and whether it is a scalar that is no array. -/
def comparableValues (shapes : PayloadShapes P) (name : String) (position : Nat) (value : Value P)
    : Except Failure (Shape × Bool × List Comparable) := do
  let failure := typeError name position "numeric, char, or string array" value
  let shape ← okOr (shapeOf shapes value) failure
  let shape ← (Shape.new shape.dimensions).mapError arrayError
  let scalar := isScalar value
  let output ← (List.range shape.numel).mapM fun index => okOr (comparableElement value index) failure
  .ok (shape, scalar, output)

/-- The position that is left when every element has been compared. -/
def locate (left : Comparable) (right : List Comparable) : Nat :=
  right.zipIdx.foldl (fun location entry => if left.equal entry.1 then entry.2 + 1 else location) 0

inductive ScalarOr (α : Type) where
  | scalar (value : α)
  | array (array : DenseArray α)

def scalarOr {α : Type} (scalar : Bool) (shape : Shape) (values : List α) (default : α)
    : Except Failure (ScalarOr α) :=
  if scalar then
    .ok (.scalar (values.headD default))
  else do
    let array ← (DenseArray.fromVec shape values).mapError arrayError
    .ok (.array array)

def locationOutput (requestedOutputs : Nat) (scalar : Bool) (shape : Shape) (locations : List Nat)
    : Except Failure (Option (ScalarOr Nat)) :=
  if 1 < requestedOutputs then do
    let location ← scalarOr scalar shape locations 0
    .ok (some location)
  else
    .ok none

def ismember (shapes : PayloadShapes P) (first second : Value P) (requestedOutputs : Nat)
    : Except Failure (ScalarOr Bool × Option (ScalarOr Nat)) := do
  let (shape, scalar, left) ← comparableValues shapes "ismember" 1 first
  let (_, _, right) ← comparableValues shapes "ismember" 2 second
  let locations := left.map fun value => locate value right
  let logical ← scalarOr scalar shape (locations.map (· != 0)) false
  let location ← locationOutput requestedOutputs scalar shape locations
  .ok (logical, location)

end Builtins
end OpenMat
