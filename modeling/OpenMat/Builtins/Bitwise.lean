import OpenMat.Builtins.IsMember
import OpenMat.Values.Casts

/-!
This module contains the bitwise functions. The context is one that is not cancelled and asks for one output, and
allocations succeed. The word specifications are the integer classes.
-/

namespace OpenMat
namespace Builtins

open Arrays (Shape DenseArray)
open Floats (FloatValue)
open Indexing (Value Payloads scalarArray)
open Values (F32 F64 CharCodeUnit IntegerType SourceComponent integerValue)

variable {P : Payloads}

namespace Bitwise

/-! Errors. -/

def primaryTypeError (name : String) (value : Value P) (binary : Bool) : Failure :=
  .builtin ⟨.type, "input 1 to `" ++ name ++ "` must be a " ++
    (if binary then "real double, logical, or fixed-width integer array"
      else "real double or fixed-width integer array") ++ "; received `" ++ kindText value.kind ++ "`"⟩

def complexError (name : String) : Failure :=
  .builtin ⟨.type, "`" ++ name ++ "` does not accept complex inputs"⟩

def mixedClassError (name : String) : Failure :=
  .builtin ⟨.type, "inputs to `" ++ name ++ "` have incompatible numeric classes"⟩

def invalidAssumedType (name className : String) : Failure :=
  .builtin ⟨.domain, "the assumed type for `" ++ name ++ "` must match the `" ++ className ++ "` input class"⟩

def unknownAssumedType (name : String) (position : Nat) : Failure :=
  .builtin ⟨.domain, "input " ++ toString position ++ " to `" ++ name ++
    "` names an unsupported assumed integer type"⟩

def valueRangeError (name : String) (position : Nat) (spec : IntegerType) (mixedInteger : Bool) : Failure :=
  .builtin ⟨.domain, "input " ++ toString position ++ " to `" ++ name ++ "` must be " ++
    (if mixedInteger then "the scalar double mixed with an integer array"
      else "a finite integer in the selected word range") ++ " (`" ++ spec.className ++ "`)"⟩

def integerControlError (name : String) (position : Nat) : Failure :=
  .builtin ⟨.domain, "input " ++ toString position ++ " to `" ++ name ++ "` must contain finite integer values"⟩

def bitPositionError (name : String) (position width : Nat) : Failure :=
  .builtin ⟨.domain, "input " ++ toString position ++ " to `" ++ name ++
    "` must contain bit positions from 1 through " ++ toString width⟩

def realNumericError (name : String) (position : Nat) : Failure :=
  .builtin ⟨.type, "input " ++ toString position ++ " to `" ++ name ++ "` must be a real numeric array"⟩

def shapeError (name : String) : Failure :=
  .builtin ⟨.domain, "inputs to `" ++ name ++ "` have incompatible sizes"⟩

def textTypeError (name : String) (position : Nat) : Failure :=
  .builtin ⟨.type, "input " ++ toString position ++ " to `" ++ name ++
    "` must be a character row or string scalar"⟩

def allocationError (name : String) : Failure :=
  .builtin ⟨.domain, "`" ++ name ++ "` output allocation failed"⟩

def mappingError (name : String) : Failure :=
  .builtin ⟨.domain, "`" ++ name ++ "` could not map an output element to its input"⟩

def argumentCountError (name : String) (minimum maximum count : Nat) : Failure :=
  .builtin ⟨.argumentCount, "built-in `" ++ name ++ "` expects " ++ toString minimum ++ " to " ++ toString maximum ++
    " inputs but received " ++ toString count⟩

/-! Words. -/

abbrev Word := BitVec 64

def bits (spec : IntegerType) : Nat := 8 * spec.bytes

def mask (spec : IntegerType) : Word := if bits spec = 64 then BitVec.allOnes 64 else (1#64 <<< bits spec) - 1#64

def signBit (spec : IntegerType) : Word := 1#64 <<< (bits spec - 1)

def toRaw {spec : IntegerType} (value : spec.Element) : Word := BitVec.ofNat 64 (value.val % 2 ^ bits spec).toNat

def fromRaw (spec : IntegerType) (raw : Word) : spec.Element := spec.wrap raw.toNat

/-- The result is the pattern of a signed number of 64 bits. -/
def signExtend (raw : Word) (spec : IntegerType) : Word :=
  let raw := raw &&& mask spec
  if bits spec = 64 ∨ raw &&& signBit spec = 0#64 then raw else raw ||| ~~~mask spec

/-- A shift by more bits than there are panics. -/
def checkedShift (amount : Nat) (shifted : Word) : Except Failure Word :=
  if amount < 64 then .ok shifted else .error .panics

def shiftWord (raw : Word) (amount : Int) (spec : IntegerType) : Except Failure Word :=
  let raw := raw &&& mask spec
  if amount ≥ bits spec then
    .ok 0#64
  else if amount ≤ -bits spec then
    .ok (if spec.signed && raw &&& signBit spec ≠ 0#64 then mask spec else 0#64)
  else if amount ≥ 0 then do
    let shifted ← checkedShift amount.natAbs (raw <<< amount.natAbs)
    return shifted &&& mask spec
  else if spec.signed then do
    let shifted ← checkedShift amount.natAbs ((signExtend raw spec).sshiftRight amount.natAbs)
    return shifted &&& mask spec
  else
    checkedShift amount.natAbs (raw >>> amount.natAbs)

def decodeF64 (spec : IntegerType) (raw : Word) : F64 :=
  if spec.signed then
    F64.ofInt (signExtend (raw &&& mask spec) spec).toInt
  else
    F64.ofInt (raw &&& mask spec).toNat

/-- The conversion of a double that is an integer. -/
def truncated (value : FloatValue) : Int :=
  match value with
  | .finite true _ _ => -value.truncateMagnitude
  | .nan | .infinite _ | .finite false _ _ => value.truncateMagnitude

def doubleToRaw (name : String) (position : Nat) (value : F64) (spec : IntegerType) (mixedInteger : Bool)
    : Except Failure Word := do
  let failure := valueRangeError name position spec mixedInteger
  let number := value.decode
  ensure (number.isFinite = true ∧ number.hasFraction = false) failure
  if spec.signed then
    ensure (number.isBelowMinus (2 ^ (bits spec - 1)) = false ∧ number.isAtLeast (2 ^ (bits spec - 1)) = false) failure
    return BitVec.ofInt 64 (truncated number) &&& mask spec
  else
    ensure (number.isBelowMinus 0 = false ∧ number.isAtLeast (2 ^ bits spec) = false) failure
    return BitVec.ofInt 64 (truncated number) &&& mask spec

/-! Shift amounts and positions. -/

abbrev RealNumber := SourceComponent

def shiftAmount (name : String) (position width : Nat) : RealNumber → Except Failure Int
  | .float value => do
    let number := value.decode
    ensure (number.isFinite = true ∧ number.hasFraction = false) (integerControlError name position)
    if (integerValue width).le number then
      return width
    else if number.le (integerValue (-width)) then
      return -width
    else
      return truncated number
  | .signed value => .ok (if value ≥ width then width else if value ≤ -width then -width else value)
  | .unsigned value => .ok (if value ≥ width then width else value)

def bitPosition (name : String) (position width : Nat) : RealNumber → Except Failure Nat
  | .float value => do
    let number := value.decode
    ensure (number.isFinite = true ∧ number.hasFraction = false ∧ (integerValue 1).le number = true ∧
      number.le (integerValue width) = true) (bitPositionError name position width)
    return (truncated number).toNat
  | .signed value => do
    ensure (1 ≤ value ∧ value ≤ width) (bitPositionError name position width)
    return value.toNat
  | .unsigned value => do
    ensure (1 ≤ value ∧ value ≤ width) (bitPositionError name position width)
    return value

def isNonzero : RealNumber → Bool
  | .float value => !value.decode.equal (integerValue 0)
  | .signed value => value ≠ 0
  | .unsigned value => value ≠ 0

inductive RealControlView where
  | doubleScalar (value : F64)
  | double (array : DenseArray F64)
  | single (array : DenseArray F32)
  | integer (type : IntegerType) (array : DenseArray type.Element)

namespace RealControlView

def new (name : String) (position : Nat) : Value P → Except Failure RealControlView
  | .double value => .ok (.doubleScalar value)
  | .array (.f64 array) => .ok (.double array)
  | .array (.f32 array) => .ok (.single array)
  | .array (.integer (.real type array)) => .ok (.integer type array)
  | .complex _ | .array (.complexF64 _) | .array (.integer (.complex _ _)) | .array (.complexF32 _) =>
    .error (complexError name)
  | _ => .error (realNumericError name position)

def shape : RealControlView → Shape
  | doubleScalar _ => .scalar
  | double array => array.shape
  | single array => array.shape
  | integer _ array => array.shape

def numel (control : RealControlView) : Nat := control.shape.numel

def scalarVariant : RealControlView → Bool
  | doubleScalar _ => true
  | double _ | single _ | integer _ _ => false

def number? (control : RealControlView) (offset : Nat) : Option RealNumber :=
  match control with
  | doubleScalar value => if offset = 0 then some (.float value) else none
  | double array => array.data[offset]?.map .float
  | single array => array.data[offset]?.map fun value => .float (F64.ofF32 value)
  | integer _ array => array.data[offset]?.map fun value =>
    match integerComponent value with
    | .signed value => .signed value
    | .unsigned value => .unsigned value

def valueAt (control : RealControlView) (offset : Nat) (name : String) : Except Failure RealNumber :=
  okOr (control.number? offset) (mappingError name)

end RealControlView

def validateControlValues {α : Type} (name : String) (control : RealControlView)
    (validate : RealNumber → Except Failure α) : Except Failure Unit :=
  (List.range control.numel).forM fun offset => do
    let value ← control.valueAt offset name
    let _ ← validate value

/-! The shape of the output. -/

/-- The dimensions of the operands that are no scalars, none while there are only scalars. -/
def expandDimensions (name : String) : Option (List Nat) → List RealControlView → Except Failure (Option (List Nat))
  | dimensions, [] => .ok dimensions
  | dimensions, control :: controls =>
    if control.numel = 1 then
      expandDimensions name dimensions controls
    else
      match dimensions with
      | some existing => do
        ensure (existing = control.shape.dimensions) (shapeError name)
        expandDimensions name dimensions controls
      | none => expandDimensions name (some control.shape.dimensions) controls

def checkedNumel (name : String) : Nat → List Nat → Except Failure Nat
  | total, [] => .ok total
  | total, extent :: extents => do
    let total ← okOr (checkedMul 64 total extent) (allocationError name)
    checkedNumel name total extents

def scalarExpansionShape (name : String) (primaryDimensions : List Nat) (controls : List RealControlView)
    : Except Failure Shape := do
  let primaryNumel ← checkedNumel name 1 primaryDimensions
  let dimensions ← expandDimensions name (if primaryNumel = 1 then none else some primaryDimensions) controls
  (Shape.new (dimensions.getD primaryDimensions)).mapError fun _ => allocationError name

def expandedOffset (control : RealControlView) (outputOffset : Nat) : Nat :=
  if control.numel = 1 then 0 else outputOffset

/-! The functions of one word and of controls. -/

abbrev Operation := Word → IntegerType → List RealNumber → Except Failure Word

def controlValues (name : String) (controls : List RealControlView) (offset : Nat)
    : Except Failure (List RealNumber) :=
  controls.mapM fun control => control.valueAt (expandedOffset control offset) name

/-- Scalars give a scalar. -/
def denseDouble (name : String) (shape : Shape) (values : List F64) (scalarVariant : Bool)
    : Except Failure (Value P) :=
  if scalarVariant then do
    let value ← okOr values.head? (mappingError name)
    return .double value
  else do
    let array ← (DenseArray.fromVec shape values).mapError fun _ => allocationError name
    return .array (.f64 array)

def mapDoublePrimary (name : String) (primary : DenseArray F64) (scalarVariant : Bool) (spec : IntegerType)
    (controls : List RealControlView) (operation : Operation) : Except Failure (Value P) := do
  primary.data.forM fun value => do
    let _ ← doubleToRaw name 1 value spec false
  let shape ← scalarExpansionShape name primary.shape.dimensions controls
  let output ← (List.range shape.numel).mapM fun offset => do
    let controlValues ← controlValues name controls offset
    let value ← okOr primary.data[if primary.data.length = 1 then 0 else offset]? (mappingError name)
    let raw ← doubleToRaw name 1 value spec false
    let result ← operation raw spec controlValues
    return decodeF64 spec (result &&& mask spec)
  denseDouble name shape output (scalarVariant && controls.all RealControlView.scalarVariant)

def mapIntegerPrimary (name : String) (spec : IntegerType) (primary : DenseArray spec.Element)
    (assumed : Option IntegerType) (controls : List RealControlView) (operation : Operation)
    : Except Failure (DenseArray spec.Element) := do
  ensure (∀ type ∈ assumed, type = spec) (invalidAssumedType name spec.className)
  let shape ← scalarExpansionShape name primary.shape.dimensions controls
  let output ← (List.range shape.numel).mapM fun offset => do
    let controlValues ← controlValues name controls offset
    let value ← okOr primary.data[if primary.data.length = 1 then 0 else offset]? (mappingError name)
    let result ← operation (toRaw value) spec controlValues
    return fromRaw spec (result &&& mask spec)
  (DenseArray.fromVec shape output).mapError fun _ => allocationError name

def mapPrimary (name : String) (primary : Value P) (assumed : Option IntegerType) (controls : List RealControlView)
    (operation : Operation) : Except Failure (Value P) :=
  match primary with
  | .double value => mapDoublePrimary name (scalarArray value) true (assumed.getD .u64) controls operation
  | .array (.f64 array) => mapDoublePrimary name array false (assumed.getD .u64) controls operation
  | .array (.integer (.real spec array)) => do
    let output ← mapIntegerPrimary name spec array assumed controls operation
    return .array (.integer (.real spec output))
  | .complex _ | .array (.complexF64 _) | .array (.complexF32 _) => .error (complexError name)
  | value => .error (primaryTypeError name value false)

def primaryWordSpec (name : String) (primary : Value P) (assumed : Option IntegerType)
    : Except Failure IntegerType :=
  match primary with
  | .double _ | .array (.f64 _) => .ok (assumed.getD .u64)
  | .array (.integer (.real spec _)) => do
    ensure (∀ type ∈ assumed, type = spec) (invalidAssumedType name spec.className)
    return spec
  | .array (.integer (.complex _ _)) | .complex _ | .array (.complexF64 _) | .array (.complexF32 _) =>
    .error (complexError name)
  | value => .error (primaryTypeError name value false)

/-! The assumed type. -/

/-- The lower-case letter of an ASCII one. -/
def lowerByte (unit : Nat) : Nat := if 65 ≤ unit ∧ unit ≤ 90 then unit + 32 else unit

def textUnits (name : String) (position : Nat) : Value P → Except Failure (List CharCodeUnit)
  | .string (.scalar element) => do
    ensure (element.missing = false) (textTypeError name position)
    return element.codeUnits
  | .string (.array array) => do
    ensure (array.shape.numel = 1) (textTypeError name position)
    let element ← okOr (array.data.head?.filter fun element => !element.missing) (textTypeError name position)
    return element.codeUnits
  | .array (.char array) => do
    ensure (array.shape.ndims = 2 ∧ array.shape.extent 0 = 1) (textTypeError name position)
    return array.data
  | _ => .error (textTypeError name position)

def textScalar (name : String) (position : Nat) (value : Value P) : Except Failure (List Nat) := do
  let units ← textUnits name position value
  ensure (units.length ≤ 6) (unknownAssumedType name position)
  units.mapM fun unit => do
    ensure (unit.toNat < 2 ^ 8) (textTypeError name position)
    return lowerByte unit.toNat

def integerTypes : List IntegerType := [.i8, .u8, .i16, .u16, .i32, .u32, .i64, .u64]

def assumedType (name : String) (position : Nat) (value : Value P) : Except Failure IntegerType := do
  let text ← textScalar name position value
  okOr (integerTypes.find? fun type => type.className.toList.map Char.toNat = text) (unknownAssumedType name position)

def isTextScalar : Value P → Bool
  | .string (.scalar _) => true
  | .string (.array array) => array.shape.numel = 1
  | .array (.char array) => array.shape.ndims = 2 && array.shape.extent 0 = 1
  | _ => false

/-! The built-in functions of one word. -/

def firstValue (values : List RealNumber) : Except Failure RealNumber := okOr values[0]? .panics

def bitshiftWord : Operation := fun raw spec values => do
  let amount ← shiftAmount "bitshift" 2 (bits spec) (← firstValue values)
  shiftWord raw amount spec

/-- The distance of a bit from the lowest one. -/
def bitDistance (position : Nat) : Except Failure Nat :=
  if position = 0 then .error .panics else .ok (position - 1)

def bitgetWord : Operation := fun raw spec values => do
  let position ← bitPosition "bitget" 2 (bits spec) (← firstValue values)
  let distance ← bitDistance position
  let shifted ← checkedShift distance (raw >>> distance)
  return shifted &&& 1#64

def bitsetWord : Operation := fun raw spec values => do
  let position ← bitPosition "bitset" 2 (bits spec) (← firstValue values)
  let distance ← bitDistance position
  let mask ← checkedShift distance (1#64 <<< distance)
  match values[1]? with
  | some value => return if isNonzero value then raw ||| mask else raw &&& ~~~mask
  | none => return raw ||| mask

def bitshift (primary amount : Value P) (assumed : Option IntegerType) : Except Failure (Value P) := do
  let _ ← primaryWordSpec "bitshift" primary assumed
  let control ← RealControlView.new "bitshift" 2 amount
  validateControlValues "bitshift" control (shiftAmount "bitshift" 2 64)
  mapPrimary "bitshift" primary assumed [control] bitshiftWord

def bitget (primary position : Value P) (assumed : Option IntegerType) : Except Failure (Value P) := do
  let spec ← primaryWordSpec "bitget" primary assumed
  let control ← RealControlView.new "bitget" 2 position
  validateControlValues "bitget" control (bitPosition "bitget" 2 (bits spec))
  mapPrimary "bitget" primary assumed [control] bitgetWord

/-- Without a value the bit is set. -/
def bitset (primary position : Value P) (value : Option (Value P)) (assumed : Option IntegerType)
    : Except Failure (Value P) := do
  let spec ← primaryWordSpec "bitset" primary assumed
  let position ← RealControlView.new "bitset" 2 position
  validateControlValues "bitset" position (bitPosition "bitset" 2 (bits spec))
  match value with
  | some value => do
    let value ← RealControlView.new "bitset" 3 value
    mapPrimary "bitset" primary assumed [position, value] bitsetWord
  | none => mapPrimary "bitset" primary assumed [position] bitsetWord

def bitshiftBuiltin : List (Value P) → Except Failure (Value P)
  | [primary, amount] => bitshift primary amount none
  | [primary, amount, type] => do bitshift primary amount (some (← assumedType "bitshift" 3 type))
  | arguments => .error (argumentCountError "bitshift" 2 3 arguments.length)

def bitgetBuiltin : List (Value P) → Except Failure (Value P)
  | [primary, position] => bitget primary position none
  | [primary, position, type] => do bitget primary position (some (← assumedType "bitget" 3 type))
  | arguments => .error (argumentCountError "bitget" 2 3 arguments.length)

/-- The third argument is the assumed type where it is a text. -/
def bitsetBuiltin : List (Value P) → Except Failure (Value P)
  | [primary, position] => bitset primary position none none
  | [primary, position, third] =>
    if isTextScalar third then do
      bitset primary position none (some (← assumedType "bitset" 3 third))
    else
      bitset primary position (some third) none
  | [primary, position, value, type] => do bitset primary position (some value) (some (← assumedType "bitset" 4 type))
  | arguments => .error (argumentCountError "bitset" 2 4 arguments.length)

/-! The binary functions. -/

inductive BinaryOperation where
  | and
  | or
  | xor
  deriving DecidableEq, Repr

namespace BinaryOperation

def name : BinaryOperation → String
  | .and => "bitand"
  | .or => "bitor"
  | .xor => "bitxor"

def apply (operation : BinaryOperation) (left right : Word) : Word :=
  match operation with
  | .and => left &&& right
  | .or => left ||| right
  | .xor => left ^^^ right

end BinaryOperation

def implicitExtent (name : String) (left right : Nat) : Except Failure Nat :=
  if left = right then .ok left
  else if left = 1 then .ok right
  else if right = 1 then .ok left
  else .error (shapeError name)

def implicitShape (name : String) (left right : List Nat) : Except Failure Shape := do
  let rank := max (max left.length right.length) 2
  let dimensions ← (List.range rank).mapM fun axis =>
    implicitExtent name (left.getD axis 1) (right.getD axis 1)
  (Shape.new dimensions).mapError fun _ => allocationError name

def stride (shape : Shape) (axis : Nat) : Nat := (shape.dimensions.take axis).prod

/-- Division by zero panics. -/
def divide (dividend divisor : Nat) : Except Failure Nat :=
  if divisor = 0 then .error .panics else .ok (dividend / divisor)

/-- The offset of an input with one more axis. -/
def addAxis (name : String) (outputOffset : Nat) (output : Shape) (axis extent offset stride' : Nat)
    : Except Failure Nat :=
  if extent = 1 then
    .ok offset
  else do
    ensure (output.extent axis ≠ 0) (mappingError name)
    let quotient ← divide outputOffset (stride output axis)
    let distance ← okOr (checkedMul 64 (quotient % output.extent axis) stride') (mappingError name)
    okOr (checkedAdd 64 offset distance) (mappingError name)

def broadcastAxes (name : String) (outputOffset : Nat) (output : Shape) (input : List Nat)
    : List Nat → Nat → Nat → Except Failure Nat
  | [], offset, _ => .ok offset
  | axis :: axes, offset, inputStride => do
    let extent := input.getD axis 1
    let offset ← addAxis name outputOffset output axis extent offset inputStride
    let inputStride ← okOr (checkedMul 64 inputStride extent) (mappingError name)
    broadcastAxes name outputOffset output input axes offset inputStride

def broadcastOffset (name : String) (outputOffset : Nat) (output : Shape) (input : List Nat)
    : Except Failure Nat :=
  broadcastAxes name outputOffset output input (List.range output.ndims) 0 1

inductive IntegerSecond (spec : IntegerType) where
  | typed (array : DenseArray spec.Element)
  | doubleScalar (value : Word)

namespace IntegerSecond

variable {spec : IntegerType}

def shape : IntegerSecond spec → Shape
  | typed array => array.shape
  | doubleScalar _ => .scalar

def rawAt (second : IntegerSecond spec) (offset : Nat) (name : String) : Except Failure Word :=
  match second with
  | typed array => do
    let value ← okOr array.data[offset]? (mappingError name)
    return toRaw value
  | doubleScalar value => .ok value

end IntegerSecond

def doubleScalar? : Value P → Option F64
  | .double value => some value
  | .array (.f64 array) => if array.shape.numel = 1 then array.data.head? else none
  | _ => none

def integerSecond (name : String) (spec : IntegerType) (right : Value P) : Except Failure (IntegerSecond spec) :=
  match right with
  | .array (.integer (.real type array)) =>
    if h : type = spec then .ok (.typed (h ▸ array)) else .error (mixedClassError name)
  | right => do
    let value ← okOr (doubleScalar? right) (mixedClassError name)
    let raw ← doubleToRaw name 2 value spec true
    return .doubleScalar raw

def integerBinary (operation : BinaryOperation) (spec : IntegerType) (left : DenseArray spec.Element)
    (right : Value P) (assumed : Option IntegerType) : Except Failure (DenseArray spec.Element) := do
  let name := operation.name
  ensure (∀ type ∈ assumed, type = spec) (invalidAssumedType name spec.className)
  let right ← integerSecond name spec right
  let shape ← implicitShape name left.shape.dimensions right.shape.dimensions
  let values ← (List.range shape.numel).mapM fun offset => do
    let leftOffset ← broadcastOffset name offset shape left.shape.dimensions
    let rightOffset ← broadcastOffset name offset shape right.shape.dimensions
    let left ← okOr left.data[leftOffset]? (mappingError name)
    let right ← right.rawAt rightOffset name
    return fromRaw spec (operation.apply (toRaw left) right &&& mask spec)
  (DenseArray.fromVec shape values).mapError fun _ => allocationError name

inductive DoubleLogicalView where
  | doubleScalar (value : F64)
  | double (array : DenseArray F64)
  | logicalScalar (value : Bool)
  | logical (array : DenseArray Bool)

namespace DoubleLogicalView

def new : Value P → Option DoubleLogicalView
  | .double value => some (doubleScalar value)
  | .array (.f64 array) => some (double array)
  | .logical value => some (logicalScalar value)
  | .array (.logical array) => some (logical array)
  | _ => none

def shape : DoubleLogicalView → Shape
  | doubleScalar _ | logicalScalar _ => .scalar
  | double array => array.shape
  | logical array => array.shape

def isLogical : DoubleLogicalView → Bool
  | logicalScalar _ | logical _ => true
  | doubleScalar _ | double _ => false

def scalarVariant : DoubleLogicalView → Bool
  | doubleScalar _ | logicalScalar _ => true
  | double _ | logical _ => false

def rawAt (view : DoubleLogicalView) (offset : Nat) (name : String) (position : Nat) (spec : IntegerType)
    : Except Failure Word :=
  match view with
  | doubleScalar value => doubleToRaw name position value spec false
  | double array => do
    let value ← okOr array.data[offset]? (mappingError name)
    doubleToRaw name position value spec false
  | logicalScalar value => .ok (BitVec.ofNat 64 value.toNat)
  | logical array => do
    let value ← okOr array.data[offset]? (mappingError name)
    return BitVec.ofNat 64 value.toNat

def validate (view : DoubleLogicalView) (name : String) (position : Nat) (spec : IntegerType) : Except Failure Unit :=
  (List.range view.shape.numel).forM fun offset => do
    let _ ← view.rawAt offset name position spec

end DoubleLogicalView

/-- The word of an element of the output, before it is cut to the width. -/
def combined (operation : BinaryOperation) (left right : DoubleLogicalView) (shape : Shape) (spec : IntegerType)
    (offset : Nat) : Except Failure Word := do
  let leftOffset ← broadcastOffset operation.name offset shape left.shape.dimensions
  let rightOffset ← broadcastOffset operation.name offset shape right.shape.dimensions
  let left ← left.rawAt leftOffset operation.name 1 spec
  let right ← right.rawAt rightOffset operation.name 2 spec
  return operation.apply left right

/-- Scalars give a scalar. -/
def denseLogical (name : String) (shape : Shape) (values : List Bool) (scalarVariant : Bool)
    : Except Failure (Value P) :=
  if scalarVariant then do
    let value ← okOr values.head? (mappingError name)
    return .logical value
  else do
    let array ← (DenseArray.fromVec shape values).mapError fun _ => allocationError name
    return .array (.logical array)

/-- The result is logical only where both operands are. -/
def doubleOrLogicalBinary (operation : BinaryOperation) (left right : Value P) (assumed : Option IntegerType)
    : Except Failure (Value P) := do
  let name := operation.name
  let left ← okOr (DoubleLogicalView.new left) .panics
  let right ← okOr (DoubleLogicalView.new right) (mixedClassError name)
  let bothLogical := left.isLogical && right.isLogical
  ensure (bothLogical = true → assumed = none) (invalidAssumedType name "logical")
  let spec := assumed.getD .u64
  left.validate name 1 spec
  right.validate name 2 spec
  let shape ← implicitShape name left.shape.dimensions right.shape.dimensions
  if bothLogical then do
    let values ← (List.range shape.numel).mapM fun offset => do
      let raw ← combined operation left right shape spec offset
      return raw != 0#64
    denseLogical name shape values (left.scalarVariant && right.scalarVariant)
  else do
    let values ← (List.range shape.numel).mapM fun offset => do
      let raw ← combined operation left right shape spec offset
      return decodeF64 spec (raw &&& mask spec)
    denseDouble name shape values (left.scalarVariant && right.scalarVariant)

def isDoubleOrLogical : Value P → Bool
  | .double _ | .logical _ | .array (.f64 _) | .array (.logical _) => true
  | _ => false

def binary (operation : BinaryOperation) (left right : Value P) (assumed : Option IntegerType)
    : Except Failure (Value P) :=
  match left with
  | .array (.integer (.real spec array)) => do
    let output ← integerBinary operation spec array right assumed
    return .array (.integer (.real spec output))
  | .array (.integer (.complex _ _)) => .error (complexError operation.name)
  | left =>
    if isDoubleOrLogical left then doubleOrLogicalBinary operation left right assumed
    else .error (primaryTypeError operation.name left true)

def binaryBuiltin (operation : BinaryOperation) : List (Value P) → Except Failure (Value P)
  | [left, right] => binary operation left right none
  | [left, right, type] => do binary operation left right (some (← assumedType operation.name 3 type))
  | arguments => .error (argumentCountError operation.name 2 3 arguments.length)

def bitand : List (Value P) → Except Failure (Value P) := binaryBuiltin .and

def bitor : List (Value P) → Except Failure (Value P) := binaryBuiltin .or

def bitxor : List (Value P) → Except Failure (Value P) := binaryBuiltin .xor

end Bitwise

end Builtins
end OpenMat
