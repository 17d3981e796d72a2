import OpenMat.Bytes.Cursor
import OpenMat.Mat.Format

/-!
This module contains the reader of MAT files.
-/

namespace OpenMat
namespace Mat

open Arrays (Shape DenseArray ArrayError)
open Bytes (Cursor takeBytes orFail many chunksExact ofBytes)
open Values

abbrev Parser (α : Type) := Bytes.Parser MatError α

def fail {α : Type} (message : String) : Parser α := throw (.new message)

/-- The end of a slice fits in an offset, thus the offset does not overflow. -/
def take (length : Nat) : Parser (List UInt8) :=
  takeBytes (fun offset => .new ("MAT data element is truncated at byte " ++ toString offset
    ++ " while reading " ++ toString length ++ " bytes")) length

def allZero (bytes : List UInt8) : Bool := bytes.all (· = 0)

/-- Zero bytes after an element are its padding, if there are enough of them. -/
def takeOptionalPadding (length : Nat) : Parser Unit := do
  let cursor ← get
  if padding length ≤ cursor.remaining.length && allZero (cursor.remaining.take (padding length)) then
    let _ ← take (padding length)

def takePadding (padStandard : Bool) (kind length : Nat) : Parser Unit :=
  if padStandard || kind ≠ compressedKind then do
    let _ ← take (padding length)
  else
    takeOptionalPadding length

def element (order : Bytes.Order) (padStandard : Bool) : Parser Element := do
  let first := ofBytes order (← take 4)
  let smallLength := first / 2 ^ 16
  if smallLength ≠ 0 then
    if smallLength > 4 then
      fail ("invalid small MAT element length " ++ toString smallLength)
    else
      let storage ← take 4
      return ⟨first % 2 ^ 16, storage.take smallLength⟩
  else
    let length := ofBytes order (← take 4)
    let data ← take length
    takePadding padStandard first length
    return ⟨first, data⟩

def expectKind (element : Element) (expected : Nat) (purpose : String) : Except MatError Unit :=
  ensure (element.kind = expected) (.new ("MAT " ++ purpose ++ " uses data type "
    ++ toString element.kind ++ ", expected " ++ toString expected))

/-! Payloads of numbers. -/

def lengthError (expected actual : Nat) (kind : String) : MatError :=
  .new ("MAT " ++ kind ++ " payload has " ++ toString actual ++ " elements but its shape requires "
    ++ toString expected)

/-- The numbers of the given width, if they are as many as expected. -/
def chunks (order : Bytes.Order) (data : List UInt8) (expected width : Nat)
    : Except MatError (List Nat) := do
  let actual := data.length / width
  ensure (data.length % width = 0 ∧ actual = expected) (lengthError expected actual "numeric")
  .ok ((chunksExact width actual data).map (ofBytes order))

def storedIntegers (order : Bytes.Order) (element : Element) (expected : Nat) (stored : IntegerType)
    : Except MatError (List Int) := do
  let values ← chunks order element.data expected stored.bytes
  .ok (values.map (ofUnsigned stored))

def numericAsInteger (order : Bytes.Order) (type : IntegerType) (element : Element) (expected : Nat)
    : Except MatError (List type.Element) :=
  match integerTypeOfKind element.kind with
  | some stored => do
    let values ← storedIntegers order element expected stored
    okOr (values.mapM type.tryFrom)
      (.new "MAT integer payload contains a value outside its declared class")
  | none => .error (.new ("unsupported numeric storage type " ++ toString element.kind
      ++ " for integer array"))

variable (library : Library) (order : Bytes.Order)

def numericAsF64 (element : Element) (expected : Nat) : Except MatError (List F64) :=
  match integerTypeOfKind element.kind with
  | some stored => do
    let values ← storedIntegers order element expected stored
    .ok (values.map library.floats.ofInteger)
  | none =>
    if element.kind = miSingle then do
      let values ← chunks order element.data expected 4
      .ok (values.map fun bits => library.floats.ofSingle (BitVec.ofNat 32 bits))
    else if element.kind = miDouble then do
      let values ← chunks order element.data expected 8
      .ok (values.map (BitVec.ofNat 64))
    else
      .error (.new ("unsupported numeric storage type " ++ toString element.kind ++ " for double array"))

def numericAsF32 (element : Element) (expected : Nat) : Except MatError (List F32) :=
  if element.kind = miSingle then do
    let values ← chunks order element.data expected 4
    .ok (values.map (BitVec.ofNat 32))
  else do
    let values ← numericAsF64 library order element expected
    .ok (values.map library.floats.toSingle)

/-! Text. -/

/-- `char::encode_utf16`. -/
def encodeUtf16 (c : Char) : List CharCodeUnit :=
  if c.toNat < 0x10000 then
    [BitVec.ofNat 16 c.toNat]
  else
    [BitVec.ofNat 16 (0xd800 + (c.toNat - 0x10000) / 0x400),
      BitVec.ofNat 16 (0xdc00 + (c.toNat - 0x10000) % 0x400)]

/-- `char::from_u32`. -/
def charFromU32 (value : Nat) : Option Char :=
  if h : value.isValidChar then some (Char.ofNatAux value h) else none

def utf32CodeUnits (scalars : List Nat) : Except MatError (List CharCodeUnit) := do
  let characters ← scalars.mapM fun value =>
    okOr (charFromU32 value) (.new ("invalid MAT UTF-32 scalar " ++ toString value))
  .ok (characters.flatMap encodeUtf16)

def charCodeUnits (element : Element) (expected : Nat) : Except MatError (List CharCodeUnit) :=
  if element.kind = miUtf16 ∨ element.kind = miUint16 then do
    let values ← chunks order element.data expected 2
    .ok (values.map (BitVec.ofNat 16))
  else if element.kind = miUtf8 ∨ element.kind = miUint8 then do
    let text ← okOr (fromUtf8 element.data) (.new "MAT UTF-8 char payload is invalid")
    let values := text.toList.flatMap encodeUtf16
    ensure (values.length = expected) (lengthError expected values.length "char")
    .ok values
  else if element.kind = miUtf32 then do
    let scalars ← chunks order element.data (element.data.length / 4) 4
    let codeUnits ← utf32CodeUnits scalars
    ensure (codeUnits.length = expected) (lengthError expected codeUnits.length "char")
    .ok codeUnits
  else
    .error (.new ("unsupported MAT char payload type " ++ toString element.kind))

/-! The contents of a matrix. -/

def arrayError (error : ArrayError) : MatError := .new ("invalid MAT array storage: " ++ error.text)

def fromVec {α : Type} (shape : Shape) (values : List α) : Except MatError (DenseArray α) :=
  (DenseArray.fromVec shape values).mapError arrayError

/-- The numbers of one element. -/
def part {α : Type} (convert : Element → Nat → Except MatError (List α)) (expected : Nat)
    : Parser (List α) := do
  orFail (convert (← element order true) expected)

def complexPart {α : Type} (convert : Element → Nat → Except MatError (List α)) (expected : Nat)
    : Parser (List (ComplexValue α)) := do
  let real ← part order convert expected
  let imaginary ← part order convert expected
  return real.zipWith ComplexValue.mk imaginary

/-- One element is a scalar. -/
def scalarOrArray {α : Type} (scalar : α → Value) (wrap : DenseArray α → ArrayData) (shape : Shape)
    (values : List α) : Except MatError Value :=
  match values with
  | [value] => .ok (scalar value)
  | values => (fromVec shape values).map fun array => .array (wrap array)

def decodeDouble (shape : Shape) (complex : Bool) : Parser Value := do
  if complex then
    let values ← complexPart order (numericAsF64 library order) shape.numel
    orFail (scalarOrArray .complex .complexF64 shape values)
  else
    let values ← part order (numericAsF64 library order) shape.numel
    orFail (scalarOrArray .double .f64 shape values)

def decodeSingle (shape : Shape) (complex : Bool) : Parser Value := do
  if complex then
    let values ← complexPart order (numericAsF32 library order) shape.numel
    return .array (.complexF32 (← orFail (fromVec shape values)))
  else
    let values ← part order (numericAsF32 library order) shape.numel
    return .array (.f32 (← orFail (fromVec shape values)))

def decodeLogical (shape : Shape) : Parser Value := do
  let values ← part order (numericAsInteger order .u64) shape.numel
  orFail (scalarOrArray .logical .logical shape (values.map fun value => decide (value.val ≠ 0)))

def decodeChar (shape : Shape) : Parser Value := do
  let values ← part order (charCodeUnits order) shape.numel
  return .array (.char (← orFail (fromVec shape values)))

def decodeInteger (type : IntegerType) (shape : Shape) (complex : Bool) : Parser Value := do
  if complex then
    let values ← complexPart order (numericAsInteger order type) shape.numel
    return .array (.integer (.complex type (← orFail (fromVec shape values))))
  else
    let values ← part order (numericAsInteger order type) shape.numel
    return .array (.integer (.real type (← orFail (fromVec shape values))))

section Nested

variable (decodeNested : List UInt8 → Except MatError (String × Value))

def nestedValue (purpose : String) : Parser Value := do
  let matrix ← element order true
  orFail (expectKind matrix matrixKind purpose)
  let (_, value) ← orFail (decodeNested matrix.data)
  return value

def decodeCell (shape : Shape) : Parser Value := do
  let values ← many (nestedValue order decodeNested "cell value") shape.numel
  orFail ((Value.cellFromValues shape values).mapError fun e =>
    .new ("invalid MAT cell array: " ++ e.text library.quote))

/-- The name before the first zero byte. -/
def decodeFieldName (bytes : List UInt8) : Except MatError FieldName := do
  let name ← okOr (fromUtf8 (bytes.takeWhile (· ≠ 0))) (.new "MAT struct field name is not valid UTF-8")
  (FieldName.new name).mapError fun e =>
    .new ("invalid MAT struct field name: " ++ e.text library.quote)

def decodeFieldNames : Parser (List FieldName) := do
  let width ← element order true
  orFail (ensure ((width.kind = miInt32 ∨ width.kind = miUint32) ∧ width.data.length = 4)
    (.new "MAT struct field-name width is not one int32"))
  let width := ofBytes order width.data
  orFail (ensure (width ≠ 0) (.new "MAT struct field-name width is zero"))
  let names ← element order true
  orFail (ensure ((names.kind = miInt8 ∨ names.kind = miUint8 ∨ names.kind = miUtf8) ∧
      names.data.length % width = 0)
    (.new "MAT struct field-name table is malformed"))
  orFail ((chunksExact width (names.data.length / width) names.data).mapM (decodeFieldName library))

def decodeStruct (shape : Shape) : Parser Value := do
  let names ← decodeFieldNames library order
  let columns ← many (many (nestedValue order decodeNested "struct field value") shape.numel) names.length
  orFail ((Value.structFromColumns shape names columns).mapError fun e =>
    .new ("invalid MAT struct array: " ++ e.text library.quote))

structure Prologue where
  mxClass : Nat
  logical : Bool
  complex : Bool
  shape : Shape
  name : String

def decodeDimension (bits : Nat) : Except MatError Nat := do
  let dimension := ofUnsigned .i32 bits
  ensure (0 ≤ dimension) (.new ("negative MAT dimension " ++ toString dimension))
  .ok dimension.toNat

def decodePrologue : Parser Prologue := do
  let flags ← element order true
  orFail (expectKind flags miUint32 "array flags")
  orFail (ensure (8 ≤ flags.data.length) (.new "MAT array flags element is shorter than 8 bytes"))
  let flagWord := ofBytes order (flags.data.take 4)
  let dimensions ← element order true
  orFail (expectKind dimensions miInt32 "array dimensions")
  orFail (ensure (dimensions.data.length % 4 = 0)
    (.new "MAT dimension data is not a sequence of int32 values"))
  let dimensions ← orFail (((chunksExact 4 (dimensions.data.length / 4) dimensions.data).map
    (ofBytes order)).mapM decodeDimension)
  let shape ← orFail ((Shape.new dimensions).mapError fun e => .new ("invalid MAT array shape: " ++ e.text))
  let name ← element order true
  orFail (ensure (name.kind = miInt8 ∨ name.kind = miUint8 ∨ name.kind = miUtf8)
    (.new ("unsupported MAT variable-name data type " ++ toString name.kind)))
  let name ← orFail (okOr (fromUtf8 name.data) (.new "MAT variable name is not valid UTF-8"))
  return {
    mxClass := flagWord &&& 0xff
    logical := flagWord &&& flagLogical ≠ 0
    complex := flagWord &&& flagComplex ≠ 0
    shape := shape
    name := name }

def decodeContents (prologue : Prologue) : Parser Value :=
  if prologue.mxClass = mxCell then
    decodeCell library order decodeNested prologue.shape
  else if prologue.mxClass = mxStruct then
    decodeStruct library order decodeNested prologue.shape
  else if prologue.mxClass = mxChar then
    decodeChar order prologue.shape
  else if prologue.mxClass = mxDouble then
    decodeDouble library order prologue.shape prologue.complex
  else if prologue.mxClass = mxSingle then
    decodeSingle library order prologue.shape prologue.complex
  else if prologue.mxClass = mxUint8 ∧ prologue.logical then
    decodeLogical order prologue.shape
  else
    match integerTypeOfClass prologue.mxClass with
    | some type => decodeInteger order type prologue.shape prologue.complex
    | none => fail ("unsupported MAT array class code " ++ toString prologue.mxClass ++ " for variable '"
        ++ prologue.name ++ "'")

/-- A matrix, with the reader of the matrices inside it. -/
def matrix : Parser (String × Value) := do
  let prologue ← decodePrologue order
  let value ← decodeContents library order decodeNested prologue
  let cursor ← get
  if allZero cursor.remaining then
    return (prologue.name, value)
  else
    fail ("MAT matrix '" ++ prologue.name ++ "' contains unexpected trailing data")

end Nested

/-- A matrix in a value that may nest as many levels as are left of the limit. -/
def decodeMatrix (limit : Nat) : Nat → List UInt8 → Except MatError (String × Value)
  | 0, _ => .error (.new ("MAT value nesting exceeds the configured " ++ toString limit ++ "-level limit"))
  | levels + 1, bytes => (matrix library order (decodeMatrix limit levels)).run' ⟨bytes, 0⟩

/-! Whole files. -/

def decompressBounded (data : List UInt8) (maximum : Nat) : Except MatError (List UInt8) := do
  let output ← (library.inflate (maximum + 1) data).mapError fun e =>
    .new ("invalid MAT v7 zlib stream: " ++ e)
  ensure (output.length ≤ maximum)
    (.new ("MAT-file decompression exceeds the " ++ toString maximum ++ "-byte limit"))
  .ok output

def topLevelMatrix (limits : MatLimits) (data : List UInt8) : Except MatError MatVariable := do
  let (name, value) ← decodeMatrix library order limits.maximumRecursionDepth
    (limits.maximumRecursionDepth + 1) data
  .ok ⟨name, value⟩

/-- The matrices of a compressed element. The fuel is the number of bytes that are left. -/
def decodeCompressed (limits : MatLimits) : Nat → Cursor → Except MatError (List MatVariable)
  | 0, _ => .ok []
  | fuel + 1, cursor =>
    if allZero cursor.remaining then
      .ok []
    else do
      let (matrix, cursor) ← (element order true).run cursor
      ensure (matrix.kind = matrixKind)
        (.new ("compressed MAT element contains unsupported data type " ++ toString matrix.kind))
      let first ← topLevelMatrix library order limits matrix.data
      let rest ← decodeCompressed limits fuel cursor
      .ok (first :: rest)

/-- The elements of a file. The fuel is the number of bytes that are left. -/
def decodeElements (limits : MatLimits) : Nat → Nat → Cursor → Except MatError (List MatVariable)
  | 0, _, _ => .ok []
  | fuel + 1, decompressedTotal, cursor =>
    if allZero cursor.remaining then
      .ok []
    else do
      let (e, cursor) ← (element order false).run cursor
      if e.kind = matrixKind then do
        let first ← topLevelMatrix library order limits e.data
        let rest ← decodeElements limits fuel decompressedTotal cursor
        .ok (first :: rest)
      else if e.kind = compressedKind then do
        ensure (decompressedTotal ≤ limits.maximumDecompressedBytes)
          (.new "MAT-file decompression limit was exceeded")
        let decompressed ← decompressBounded library e.data
          (limits.maximumDecompressedBytes - decompressedTotal)
        let first ← decodeCompressed library order limits decompressed.length ⟨decompressed, 0⟩
        let rest ← decodeElements limits fuel (decompressedTotal + decompressed.length) cursor
        .ok (first ++ rest)
      else
        .error (.new ("unsupported top-level MAT data type " ++ toString e.kind))

def hdf5Signature : List UInt8 := [0x89, 0x48, 0x44, 0x46, 0x0d, 0x0a, 0x1a, 0x0a]

def matlabUserBlockBytes : Nat := 512

def isMat73 (bytes : List UInt8) : Bool :=
  (utf8Bytes "MATLAB 7.3 MAT-file").isPrefixOf bytes &&
    (bytes.drop matlabUserBlockBytes).take hdf5Signature.length = hdf5Signature

def hexByte (byte : UInt8) : String :=
  String.ofList [(Nat.digitChar (byte.toNat / 16)).toUpper, (Nat.digitChar (byte.toNat % 16)).toUpper]

def parseHeader (bytes : List UInt8) : Except MatError Bytes.Order := do
  ensure (hdf5Signature.isPrefixOf bytes = false)
    (.new "HDF5-backed MAT v7.3 files are not supported by this Level-5 reader")
  ensure (headerBytes ≤ bytes.length) (.new ("MAT-file header is truncated: expected 128 bytes, received "
    ++ toString bytes.length))
  ensure ((utf8Bytes "MATLAB 5.0 MAT-file").isPrefixOf (bytes.take 116))
    (.new "input is not a MATLAB Level-5 MAT-file")
  let marker := (bytes.getD 126 0, bytes.getD 127 0)
  if marker = (0x49, 0x4d) then
    .ok .little
  else if marker = (0x4d, 0x49) then
    .ok .big
  else
    .error (.new ("invalid MAT-file endian marker " ++ hexByte marker.1 ++ hexByte marker.2))

def decode (bytes : List UInt8) (limits : MatLimits) : Except MatError (List MatVariable) :=
  if isMat73 bytes then
    library.decodeHdf5 bytes
  else do
    let order ← parseHeader bytes
    decodeElements library order limits (bytes.length - headerBytes) 0 ⟨bytes.drop headerBytes, 0⟩

end Mat
end OpenMat
