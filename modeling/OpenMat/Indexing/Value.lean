import OpenMat.Floats.Decode
import OpenMat.Indexing.Error
import OpenMat.Values.Value

/-!
This module contains the values of the runtime as the array operations see them: what can be indexed, what
can be an index, and what can be assigned.
-/

namespace OpenMat
namespace Indexing

open Arrays (Shape DenseArray)
open Floats (FloatFormat FloatValue)
open Values (F32 F64 ComplexValue CharCodeUnit IntegerType IntegerArrayData ArrayData)

def scalarArray {α : Type} (value : α) : DenseArray α := ⟨.scalar, [value], rfl⟩

/-- A missing element has no code units. -/
structure StringElement where
  codeUnits : List CharCodeUnit
  missing : Bool
  codeUnits_of_missing : missing = true → codeUnits = []

inductive StringValue where
  | scalar (element : StringElement)
  | array (array : DenseArray StringElement)

namespace StringValue

def shape : StringValue → Shape
  | .scalar _ => .scalar
  | .array strings => strings.shape

def numel (value : StringValue) : Nat := value.shape.numel

def element (value : StringValue) (offset : Nat) : Option StringElement :=
  match value with
  | .scalar element => if offset = 0 then some element else none
  | .array strings => strings.data[offset]?

end StringValue

/-- The values that the array operations do not look into. -/
structure Payloads where
  sparse : Type
  cell : Type
  struct : Type
  table : Type
  object : Type
  objectArray : Type
  graphics : Type
  graphicsArray : Type
  function : Type

abbrev noPayloads : Payloads where
  sparse := Empty
  cell := Empty
  struct := Empty
  table := Empty
  object := Empty
  objectArray := Empty
  graphics := Empty
  graphicsArray := Empty
  function := Empty

variable {P : Payloads}

inductive Value (P : Payloads) where
  | nothing
  | logical (value : Bool)
  | double (value : F64)
  | complex (value : ComplexValue F64)
  | string (value : StringValue)
  | array (array : ArrayData)
  | sparse (value : P.sparse)
  | cell (value : P.cell)
  | struct (value : P.struct)
  | table (value : P.table)
  | object (value : P.object)
  | objectArray (value : P.objectArray)
  | graphics (value : P.graphics)
  | graphicsArray (value : P.graphicsArray)
  | function (value : P.function)

def Value.kind : Value P → ValueKind
  | .nothing => .nothing
  | .logical _ => .logical
  | .double _ => .double
  | .complex _ => .complex
  | .array (.f32 _) | .array (.complexF32 _) => .single
  | .string _ => .string
  | .array (.char _) => .char
  | .array (.integer _) => .integer
  | .array _ => .array
  | .sparse _ => .sparse
  | .cell _ => .cell
  | .struct _ => .struct
  | .table _ => .table
  | .object _ | .objectArray _ => .object
  | .graphics _ | .graphicsArray _ => .graphics
  | .function _ => .function

inductive IndexInput (P : Payloads) where
  | value (value : Value P)
  | colon

inductive IndexView where
  | logicalScalar (value : Bool)
  | realScalar (value : F64)
  | complexScalar
  | logicalArray (array : DenseArray Bool)
  | realArray (array : DenseArray F64)
  | complexArray (array : DenseArray (ComplexValue F64))
  | singleRealArray (array : DenseArray F32)
  | singleComplexArray (array : DenseArray (ComplexValue F32))
  | char (array : DenseArray CharCodeUnit)
  | integer (integers : IntegerArrayData)

namespace IndexView

def new : Value P → Option IndexView
  | .logical value => some (.logicalScalar value)
  | .double value => some (.realScalar value)
  | .complex _ => some .complexScalar
  | .array (.logical array) => some (.logicalArray array)
  | .array (.f64 array) => some (.realArray array)
  | .array (.complexF64 array) => some (.complexArray array)
  | .array (.f32 array) => some (.singleRealArray array)
  | .array (.complexF32 array) => some (.singleComplexArray array)
  | .array (.char array) => some (.char array)
  | .array (.integer integers) => some (.integer integers)
  | .string _ | .cell _ | .struct _ | .table _ | .sparse _ | .nothing | .object _ | .objectArray _
  | .graphics _ | .graphicsArray _ | .function _ => none

def shape : IndexView → Shape
  | .logicalScalar _ | .realScalar _ | .complexScalar => .scalar
  | .logicalArray array => array.shape
  | .realArray array => array.shape
  | .complexArray array => array.shape
  | .singleRealArray array => array.shape
  | .singleComplexArray array => array.shape
  | .char array => array.shape
  | .integer integers => integers.shape

def dimensions (view : IndexView) : List Nat := view.shape.dimensions

def numel (view : IndexView) : Nat := view.shape.numel

def isLogical : IndexView → Bool
  | .logicalScalar _ | .logicalArray _ => true
  | _ => false

def logicalAt (view : IndexView) (offset : Nat) : Option Bool :=
  match view with
  | .logicalScalar value => if offset = 0 then some value else none
  | .logicalArray array => array.data[offset]?
  | _ => none

/-- The real number at an offset. -/
def numberAt (view : IndexView) (offset : Nat) : Option FloatValue :=
  match view with
  | .realScalar value => if offset = 0 then some (FloatFormat.double.decode value.toNat) else none
  | .realArray array => array.data[offset]?.map fun value => FloatFormat.double.decode value.toNat
  | .singleRealArray array => array.data[offset]?.map fun value => FloatFormat.single.decode value.toNat
  | .char array => array.data[offset]?.map fun value => .finite false value.toNat 0
  | .integer (.real _ array) =>
    array.data[offset]?.map fun value => .finite (value.val < 0) value.val.natAbs 0
  | _ => none

theorem numel_lt (view : IndexView)
    : view.numel < 2 ^ 64 :=
  view.shape.numel_lt

theorem exists_logicalAt {view : IndexView} {offset : Nat} (h : view.isLogical = true)
    (hlt : offset < view.numel)
    : ∃ value, view.logicalAt offset = some value := by
  match view, h with
  | .logicalScalar value, _ =>
    have hzero : offset = 0 := by
      rw [numel, shape, Shape.numel_scalar] at hlt
      omega
    exact ⟨value, if_pos hzero⟩
  | .logicalArray array, _ =>
    have hlength : array.data.length = (logicalArray array).numel := array.length_data
    exact ⟨_, List.getElem?_eq_getElem (hlength ▸ hlt)⟩

end IndexView

end Indexing
end OpenMat
