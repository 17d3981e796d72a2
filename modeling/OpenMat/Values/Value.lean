import OpenMat.Arrays.Dense

/-!
This module contains the values of the language: scalars, dense arrays of every element type, and the
aggregates that nest them.
-/

namespace OpenMat
namespace Values

open Arrays (Shape DenseArray ArrayError)

/-! The elements of arrays. Floating point numbers are their bit patterns. -/

abbrev F32 := BitVec 32

abbrev F64 := BitVec 64

/-- Neither the sign nor another bit is set that makes a number different from zero. -/
def F64.isZero (x : F64) : Bool := x.toNat % 2 ^ 63 = 0

/-- The conversions of the language whose rounding is not modelled. -/
structure FloatConversions where
  parse : String → F64
  ofInteger : Int → F64
  ofSingle : F32 → F64
  toSingle : F64 → F32

abbrev CharCodeUnit := BitVec 16

structure ComplexValue (α : Type) where
  re : α
  im : α
  deriving DecidableEq, Repr

inductive IntegerType where
  | i8
  | u8
  | i16
  | u16
  | i32
  | u32
  | i64
  | u64
  deriving DecidableEq, Repr

namespace IntegerType

def bytes : IntegerType → Nat
  | .i8 | .u8 => 1
  | .i16 | .u16 => 2
  | .i32 | .u32 => 4
  | .i64 | .u64 => 8

def signed : IntegerType → Bool
  | .i8 | .i16 | .i32 | .i64 => true
  | .u8 | .u16 | .u32 | .u64 => false

def className : IntegerType → String
  | .i8 => "int8"
  | .u8 => "uint8"
  | .i16 => "int16"
  | .u16 => "uint16"
  | .i32 => "int32"
  | .u32 => "uint32"
  | .i64 => "int64"
  | .u64 => "uint64"

def minimum (t : IntegerType) : Int := if t.signed then -2 ^ (8 * t.bytes - 1) else 0

/-- The first number that is too large. -/
def bound (t : IntegerType) : Int := if t.signed then 2 ^ (8 * t.bytes - 1) else 2 ^ (8 * t.bytes)

/-- A number of the type. -/
abbrev Element (t : IntegerType) : Type := {value : Int // t.minimum ≤ value ∧ value < t.bound}

def tryFrom (t : IntegerType) (value : Int) : Option t.Element :=
  if h : t.minimum ≤ value ∧ value < t.bound then some ⟨value, h⟩ else none

theorem tryFrom_val {t : IntegerType} (element : t.Element)
    : t.tryFrom element.val = some element := by
  rw [tryFrom, dif_pos element.property]

end IntegerType

inductive IntegerArrayData where
  | real (type : IntegerType) (array : DenseArray type.Element)
  | complex (type : IntegerType) (array : DenseArray (ComplexValue type.Element))

namespace IntegerArrayData

def type : IntegerArrayData → IntegerType
  | .real type _ => type
  | .complex type _ => type

def isComplex : IntegerArrayData → Bool
  | .real _ _ => false
  | .complex _ _ => true

def shape : IntegerArrayData → Shape
  | .real _ array => array.shape
  | .complex _ array => array.shape

def className (data : IntegerArrayData) : String := data.type.className

def elementWidthBytes (data : IntegerArrayData) : Nat :=
  if data.isComplex then 2 * data.type.bytes else data.type.bytes

end IntegerArrayData

inductive ArrayData where
  | f32 (array : DenseArray F32)
  | complexF32 (array : DenseArray (ComplexValue F32))
  | f64 (array : DenseArray F64)
  | complexF64 (array : DenseArray (ComplexValue F64))
  | logical (array : DenseArray Bool)
  | char (array : DenseArray CharCodeUnit)
  | integer (array : IntegerArrayData)

namespace ArrayData

def shape : ArrayData → Shape
  | .f32 array => array.shape
  | .complexF32 array => array.shape
  | .f64 array => array.shape
  | .complexF64 array => array.shape
  | .logical array => array.shape
  | .char array => array.shape
  | .integer array => array.shape

def className : ArrayData → String
  | .f32 _ | .complexF32 _ => "single"
  | .f64 _ | .complexF64 _ => "double"
  | .logical _ => "logical"
  | .char _ => "char"
  | .integer array => array.className

def isComplex : ArrayData → Bool
  | .complexF32 _ | .complexF64 _ => true
  | .f32 _ | .f64 _ | .logical _ | .char _ => false
  | .integer array => array.isComplex

def elementWidthBytes : ArrayData → Nat
  | .f32 _ => 4
  | .complexF32 _ => 8
  | .f64 _ => 8
  | .complexF64 _ => 16
  | .logical _ => 1
  | .char _ => 2
  | .integer array => array.elementWidthBytes

end ArrayData

/-! Fields of structs. -/

def utf8Bytes (text : String) : List UInt8 := text.toByteArray.data.toList

/-- `String::from_utf8`. -/
def fromUtf8 (bytes : List UInt8) : Option String := String.fromUTF8? ⟨⟨bytes⟩⟩

theorem fromUtf8_utf8Bytes (text : String)
    : fromUtf8 (utf8Bytes text) = some text := by
  rw [fromUtf8, utf8Bytes, String.fromUTF8?]
  have hvalid : text.toByteArray.IsValidUTF8 := text.isValidUTF8
  simp [hvalid]
  rfl

inductive AggregateError where
  | array (error : ArrayError)
  | invalidFieldName (name : String)
  | duplicateFieldName (name : String)
  | fieldColumnCountMismatch (fields columns : Nat)
  | fieldColumnLengthMismatch (field expected actual : Nat)
  deriving DecidableEq, Repr

/-- The text, with the way in which names are quoted. -/
def AggregateError.text (quote : String → String) : AggregateError → String
  | .array error => error.text
  | .invalidFieldName name => "invalid struct field name " ++ quote name
  | .duplicateFieldName name => "duplicate struct field name " ++ quote name
  | .fieldColumnCountMismatch fields columns =>
    "struct schema has " ++ toString fields ++ " fields but " ++ toString columns
      ++ " columns were supplied"
  | .fieldColumnLengthMismatch field expected actual =>
    "struct field " ++ toString field ++ " requires " ++ toString expected ++ " values but "
      ++ toString actual ++ " were supplied"

def isAsciiAlphabetic (byte : UInt8) : Bool :=
  (65 ≤ byte.toNat && byte.toNat ≤ 90) || (97 ≤ byte.toNat && byte.toNat ≤ 122)

def isAsciiAlphanumeric (byte : UInt8) : Bool :=
  isAsciiAlphabetic byte || (48 ≤ byte.toNat && byte.toNat ≤ 57)

def validFieldName (name : String) : Bool :=
  match utf8Bytes name with
  | [] => false
  | byte :: rest => isAsciiAlphabetic byte && rest.all fun byte => isAsciiAlphanumeric byte || byte = 95

abbrev FieldName : Type := {name : String // validFieldName name}

def FieldName.new (name : String) : Except AggregateError FieldName :=
  if h : validFieldName name then .ok ⟨name, h⟩ else .error (.invalidFieldName name)

theorem FieldName.new_val (name : FieldName)
    : FieldName.new name.val = .ok name := by
  rw [FieldName.new, dif_pos name.property]

theorem isAsciiAlphanumeric_ne_zero {byte : UInt8} (h : isAsciiAlphanumeric byte)
    : byte ≠ 0 := by
  rintro rfl
  cases h

theorem FieldName.ne_zero_of_mem {name : FieldName} {byte : UInt8} (h : byte ∈ utf8Bytes name.val)
    : byte ≠ 0 := by
  have hvalid := name.property
  rw [validFieldName] at hvalid
  split at hvalid
  . cases hvalid
  . rename_i first rest heq
    rw [heq, List.mem_cons] at h
    rw [Bool.and_eq_true, List.all_eq_true] at hvalid
    obtain rfl | hrest := h
    . exact isAsciiAlphanumeric_ne_zero (by rw [isAsciiAlphanumeric, hvalid.1, Bool.true_or])
    . have hbyte := hvalid.2 byte hrest
      rw [Bool.or_eq_true] at hbyte
      obtain hbyte | hbyte := hbyte
      . exact isAsciiAlphanumeric_ne_zero hbyte
      . rw [of_decide_eq_true hbyte]
        decide

/-- The fields in their order of creation. -/
structure StructSchema where
  names : List FieldName
  nodup : names.Nodup

namespace StructSchema

def len (schema : StructSchema) : Nat := schema.names.length

/-- The first name that was inserted before. -/
def firstDuplicate (seen : List FieldName) : List FieldName → Option FieldName
  | [] => none
  | name :: rest => if name ∈ seen then some name else firstDuplicate (name :: seen) rest

theorem firstDuplicate_eq_none_iff {seen names : List FieldName}
    : firstDuplicate seen names = none ↔ names.Nodup ∧ ∀ name ∈ names, name ∉ seen := by
  induction names generalizing seen with
  | nil => simp [firstDuplicate]
  | cons name rest ih =>
    rw [firstDuplicate]
    split
    . rename_i hmem
      simp [hmem]
    . rename_i hmem
      rw [ih, List.nodup_cons, List.forall_mem_cons]
      simp only [List.mem_cons, not_or, hmem, not_false_eq_true, true_and]
      constructor
      . rintro ⟨hnodup, hrest⟩
        exact ⟨⟨fun h => (hrest name h).1 rfl, hnodup⟩, fun other h => (hrest other h).2⟩
      . rintro ⟨⟨hname, hnodup⟩, hrest⟩
        exact ⟨hnodup, fun other h => ⟨fun heq => hname (heq ▸ h), hrest other h⟩⟩

def new (names : List FieldName) : Except AggregateError StructSchema :=
  match h : firstDuplicate [] names with
  | some name => .error (.duplicateFieldName name.val)
  | none => .ok ⟨names, (firstDuplicate_eq_none_iff.mp h).1⟩

theorem new_names (schema : StructSchema)
    : new schema.names = .ok schema := by
  have hnone : firstDuplicate [] schema.names = none :=
    firstDuplicate_eq_none_iff.mpr ⟨schema.nodup, fun _ _ => List.not_mem_nil⟩
  rw [new]
  split
  . rename_i h
    rw [hnone] at h
    cases h
  . rfl

end StructSchema

/-! The values. -/

/-- What is observed of a value of the other kinds: strings, sparse arrays, tables, objects, graphics
handles, function handles and the absence of a value. -/
structure ExternalValue where
  className : String
  dimensions : Option Shape
  isComplexNumeric : Bool
  bytes : Option Nat

/-- A cell holds a value for each element, and a struct one for each field and element. -/
inductive Value where
  | logical (value : Bool)
  | double (value : F64)
  | complex (value : ComplexValue F64)
  | array (array : ArrayData)
  | cell (shape : Shape) (values : Fin shape.numel → Value)
  | struct (shape : Shape) (schema : StructSchema)
      (columns : Fin schema.len → Fin shape.numel → Value)
  | external (value : ExternalValue)

/-- `CellArray::from_values`. -/
def Value.cellFromValues (shape : Shape) (values : List Value) : Except AggregateError Value :=
  if h : values.length = shape.numel then
    .ok (.cell shape fun i => values.get (i.cast h.symm))
  else
    .error (.array (.dataLengthMismatch shape.numel values.length))

/-- The first column of another length, with its position. -/
def mismatchedColumn (expected field : Nat) : List (List Value) → Option AggregateError
  | [] => none
  | column :: columns =>
    if column.length = expected then
      mismatchedColumn expected (field + 1) columns
    else
      some (.fieldColumnLengthMismatch field expected column.length)

theorem length_of_mismatchedColumn_eq_none {expected field : Nat} {columns : List (List Value)}
    (h : mismatchedColumn expected field columns = none)
    : ∀ column ∈ columns, column.length = expected := by
  induction columns generalizing field with
  | nil => simp
  | cons column columns ih =>
    rw [mismatchedColumn] at h
    split at h
    . rename_i hlength
      exact List.forall_mem_cons.mpr ⟨hlength, ih h⟩
    . cases h

theorem mismatchedColumn_eq_none {expected field : Nat} {columns : List (List Value)}
    (h : ∀ column ∈ columns, column.length = expected)
    : mismatchedColumn expected field columns = none := by
  induction columns generalizing field with
  | nil => rfl
  | cons column columns ih =>
    rw [List.forall_mem_cons] at h
    rw [mismatchedColumn, if_pos h.1, ih h.2]

/-- `StructArray::from_columns`. -/
def Value.structFromColumns (shape : Shape) (fields : List FieldName) (columns : List (List Value))
    : Except AggregateError Value := do
  let schema ← StructSchema.new fields
  if hcount : columns.length = schema.len then
    match hcolumns : mismatchedColumn shape.numel 0 columns with
    | some error => .error error
    | none =>
      .ok (.struct shape schema fun field i =>
        (columns.get (field.cast hcount.symm)).get
          (i.cast (length_of_mismatchedColumn_eq_none hcolumns _ (List.get_mem _ _)).symm))
  else
    .error (.fieldColumnCountMismatch schema.len columns.length)

theorem Value.cellFromValues_ofFn (shape : Shape) (values : Fin shape.numel → Value)
    : cellFromValues shape (List.ofFn values) = .ok (.cell shape values) := by
  rw [cellFromValues, dif_pos List.length_ofFn]
  simp

theorem Value.structFromColumns_ofFn (shape : Shape) (schema : StructSchema)
    (columns : Fin schema.len → Fin shape.numel → Value)
    : structFromColumns shape schema.names (List.ofFn fun field => List.ofFn (columns field)) =
        .ok (.struct shape schema columns) := by
  have hnone : mismatchedColumn shape.numel 0 (List.ofFn fun field => List.ofFn (columns field)) = none := by
    apply mismatchedColumn_eq_none
    simp
  rw [structFromColumns, StructSchema.new_names]
  simp only [bind, Except.bind]
  rw [dif_pos List.length_ofFn]
  split
  . rename_i h
    rw [hnone] at h
    cases h
  . simp

namespace Value

def className : Value → String
  | .logical _ => "logical"
  | .double _ | .complex _ => "double"
  | .array data => data.className
  | .cell _ _ => "cell"
  | .struct _ _ _ => "struct"
  | .external value => value.className

def shape : Value → Option Shape
  | .logical _ | .double _ | .complex _ => some .scalar
  | .array data => some data.shape
  | .cell shape _ => some shape
  | .struct shape _ _ => some shape
  | .external value => value.dimensions

def dimensions (value : Value) : Option (List Nat) := value.shape.map Shape.dimensions

def isComplexNumeric : Value → Bool
  | .complex _ => true
  | .array data => data.isComplex
  | .external value => value.isComplexNumeric
  | .logical _ | .double _ | .cell _ _ | .struct _ _ _ => false

end Value

end Values
end OpenMat
