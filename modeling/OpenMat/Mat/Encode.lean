import OpenMat.Mat.Format

/-!
This module contains the writer of Level-5 MAT files. The elements are written in either byte order; the
files of the writer are little-endian.
-/

namespace OpenMat
namespace Mat

open Arrays (Shape DenseArray)
open Bytes (toBytes)
open Values

def writeTagged (order : Bytes.Order) (kind : Nat) (data : List UInt8) (pad : Bool)
    : Except MatError (List UInt8) := do
  let _ ← okOr (tryFrom 32 data.length)
    (.new "MAT data element exceeds the Level-5 32-bit byte limit")
  .ok (tagged order kind data pad)

theorem writeTagged_eq_ok_iff {order : Bytes.Order} {kind : Nat} {data : List UInt8} {pad : Bool}
    {bytes : List UInt8}
    : writeTagged order kind data pad = .ok bytes ↔
        data.length < 2 ^ 32 ∧ bytes = tagged order kind data pad := by
  rw [writeTagged, bind_eq_ok_iff]
  simp only [okOr_eq_ok_iff, tryFrom_eq_some_iff, Except.ok.injEq, @eq_comm _ bytes]
  constructor
  . rintro ⟨_, ⟨hlt, rfl⟩, hbytes⟩
    exact ⟨hlt, hbytes⟩
  . rintro ⟨hlt, hbytes⟩
    exact ⟨_, ⟨hlt, rfl⟩, hbytes⟩

/-- Numbers of the given width, one after the other. -/
def writeNumeric (order : Bytes.Order) (kind width : Nat) (values : List Nat)
    : Except MatError (List UInt8) :=
  writeTagged order kind (values.flatMap (toBytes order width)) true

def unsupportedValue (value : Value) (reason : String) : MatError :=
  .new ("OpenMat value of class '" ++ value.className ++ "' " ++ reason ++ " in MAT Level-5")

def complexFlag (isComplex : Bool) : Nat := if isComplex then flagComplex else 0

def valueClassAndFlags (value : Value) : Except MatError (Nat × Nat) :=
  match value with
  | .logical _ | .array (.logical _) => .ok (mxUint8, flagLogical)
  | .double _ | .array (.f64 _) => .ok (mxDouble, 0)
  | .complex _ | .array (.complexF64 _) => .ok (mxDouble, flagComplex)
  | .array (.f32 _) => .ok (mxSingle, 0)
  | .array (.complexF32 _) => .ok (mxSingle, flagComplex)
  | .array (.char _) => .ok (mxChar, 0)
  | .array (.integer data) => .ok (integerClass data.type, complexFlag data.isComplex)
  | .cell _ _ => .ok (mxCell, 0)
  | .struct _ _ _ => .ok (mxStruct, 0)
  | .external _ => .error (unsupportedValue value "has no Level-5 class mapping")

def complexParts {α : Type} (write : List α → Except MatError (List UInt8)) (values : List (ComplexValue α))
    : Except MatError (List UInt8) := do
  let real ← write (values.map ComplexValue.re)
  let imaginary ← write (values.map ComplexValue.im)
  .ok (real ++ imaginary)

def writeF32 (order : Bytes.Order) (values : List F32) : Except MatError (List UInt8) :=
  writeNumeric order miSingle 4 (values.map BitVec.toNat)

def writeF64 (order : Bytes.Order) (values : List F64) : Except MatError (List UInt8) :=
  writeNumeric order miDouble 8 (values.map BitVec.toNat)

def writeLogical (order : Bytes.Order) (values : List Bool) : Except MatError (List UInt8) :=
  writeNumeric order miUint8 1 (values.map Bool.toNat)

def writeChar (order : Bytes.Order) (values : List CharCodeUnit) : Except MatError (List UInt8) :=
  writeNumeric order miUtf16 2 (values.map BitVec.toNat)

def writeInteger (order : Bytes.Order) (type : IntegerType) (values : List type.Element)
    : Except MatError (List UInt8) :=
  writeNumeric order (integerKind type) type.bytes (values.map fun value => toUnsigned type value.val)

def encodeInteger (order : Bytes.Order) : IntegerArrayData → Except MatError (List UInt8)
  | .real type array => writeInteger order type array.data
  | .complex type array => complexParts (writeInteger order type) array.data

def encodeArray (order : Bytes.Order) : ArrayData → Except MatError (List UInt8)
  | .f32 array => writeF32 order array.data
  | .complexF32 array => complexParts (writeF32 order) array.data
  | .f64 array => writeF64 order array.data
  | .complexF64 array => complexParts (writeF64 order) array.data
  | .logical array => writeLogical order array.data
  | .char array => writeChar order array.data
  | .integer data => encodeInteger order data

/-- The longest name and its terminator, or one byte where there are no fields. -/
def fieldWidth (names : List FieldName) : Nat :=
  ((names.map fun name => (utf8Bytes name.val).length + 1).max?).getD 1

def fieldBytes (width : Nat) (name : FieldName) : List UInt8 :=
  utf8Bytes name.val ++ List.replicate (width - (utf8Bytes name.val).length) 0

/-- The table of the field names, each in a field of the same width. -/
def encodeFieldNames (order : Bytes.Order) (names : List FieldName) : Except MatError (List UInt8) := do
  let width := fieldWidth names
  let _ ← okOr (tryFrom 32 width) (.new "MAT struct field name is too long")
  let widthElement ← writeTagged order miInt32 (toBytes order 4 width) true
  let namesElement ← writeTagged order miInt8 (names.flatMap (fieldBytes width)) true
  .ok (widthElement ++ namesElement)

def encodeDimension (order : Bytes.Order) (dimension : Nat) : Except MatError (List UInt8) := do
  let _ ← okOr (tryFrom 31 dimension)
    (.new ("MAT dimension " ++ toString dimension ++ " exceeds the Level-5 signed 32-bit limit"))
  .ok (toBytes order 4 dimension)

/-- The elements before the contents of a matrix: its class and flags, its dimensions and its name. -/
def encodePrologue (order : Bytes.Order) (name : String) (value : Value)
    : Except MatError (List UInt8) := do
  let (mxClass, flags) ← valueClassAndFlags value
  let flagsElement ← writeTagged order miUint32
    (toBytes order 4 (mxClass ||| flags) ++ toBytes order 4 0) true
  let dimensions ← okOr value.dimensions (unsupportedValue value "has no MATLAB array shape")
  let dimensionData ← dimensions.mapM (encodeDimension order)
  let dimensionsElement ← writeTagged order miInt32 dimensionData.flatten true
  let nameElement ← writeTagged order miInt8 (utf8Bytes name) true
  .ok (flagsElement ++ dimensionsElement ++ nameElement)

def writeMatrix (order : Bytes.Order) (name : String) (value : Value) (depth : Nat)
    (contents : Except MatError (List UInt8)) : Except MatError (List UInt8) := do
  ensure (depth ≤ maxRecursionDepth) (.new "MAT value nesting exceeds 64 levels")
  let prologue ← encodePrologue order name value
  let contents ← contents
  writeTagged order matrixKind (prologue ++ contents) true

def encodeMatrix (order : Bytes.Order) (name : String) (value : Value) (depth : Nat)
    : Except MatError (List UInt8) :=
  writeMatrix order name value depth <|
    match value with
    | .logical value => writeLogical order [value]
    | .double value => writeF64 order [value]
    | .complex value => complexParts (writeF64 order) [value]
    | .array data => encodeArray order data
    | .cell _ values => do
      let elements ← (List.ofFn fun i => encodeMatrix order "" (values i) (depth + 1)).mapM id
      .ok elements.flatten
    | .struct _ schema columns => do
      let names ← encodeFieldNames order schema.names
      let columns ← (List.ofFn fun field =>
        (List.ofFn fun i => encodeMatrix order "" (columns field i) (depth + 1)).mapM id).mapM id
      .ok (names ++ (columns.map List.flatten).flatten)
    | .external _ => .error (unsupportedValue value "is not serializable")

/-! Whole files. -/

inductive MatVersion where
  | v6
  | v7
  | v73
  deriving DecidableEq, Repr

def variableError (name : String) (error : MatError) : MatError :=
  .new ("variable '" ++ name ++ "': " ++ error.message)

def description : List UInt8 := utf8Bytes "MATLAB 5.0 MAT-file, Created by OpenMat"

def header : List UInt8 :=
  description ++ List.replicate (116 - description.length) 0x20 ++ List.replicate 8 0 ++ [0, 1, 0x49, 0x4d]

def validateName (name : String) : Except MatError Unit :=
  ensure (utf8Bytes name ≠ [] ∧ 0 ∉ utf8Bytes name)
    (.new "MAT variable names must be nonempty and contain no NUL")

variable (library : Library)

def compressMatrix (matrix : List UInt8) : Except MatError (List UInt8) := do
  let compressed ← (library.deflate matrix).mapError fun e => .new ("MAT v7 compression failed: " ++ e)
  writeTagged .little compressedKind compressed false

def encodeVariable (version : MatVersion) (v : MatVariable) : Except MatError (List UInt8) :=
  (do
    validateName v.name
    let matrix ← encodeMatrix .little v.name v.value 0
    match version with
    | .v7 => compressMatrix library matrix
    | .v6 | .v73 => .ok matrix : Except MatError (List UInt8)).mapError (variableError v.name)

def encode (matVariables : List MatVariable) (version : MatVersion) : Except MatError (List UInt8) :=
  match version with
  | .v73 => library.encodeHdf5 matVariables
  | .v6 | .v7 => do
    let elements ← matVariables.mapM (encodeVariable library version)
    .ok (header ++ elements.flatten)

end Mat
end OpenMat
