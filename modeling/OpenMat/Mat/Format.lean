import OpenMat.Bytes.Integer
import OpenMat.Values.Value

/-!
This module contains what the writer and the reader of Level-5 MAT files share: the codes of the format,
the errors, and the tagged elements.
-/

namespace OpenMat
namespace Mat

open Bytes (toBytes ofBytes)
open Values

inductive MatErrorKind where
  | invalidFormat
  | unsupported
  | limitExceeded
  | cancelled
  | hdf5
  | invalidValue
  deriving DecidableEq, Repr

structure MatError where
  kind : MatErrorKind
  message : String
  deriving DecidableEq, Repr

def MatError.new (message : String) : MatError := ⟨.invalidFormat, message⟩

structure MatVariable where
  name : String
  value : Value

/-- What the reader of a Level-5 file is limited by. -/
structure MatLimits where
  maximumDecompressedBytes : Nat
  maximumRecursionDepth : Nat
  deriving DecidableEq, Repr

def maxRecursionDepth : Nat := 64

def MatLimits.default : MatLimits where
  maximumDecompressedBytes := 256 * 1024 * 1024
  maximumRecursionDepth := maxRecursionDepth

/-- What the code uses of its libraries: the compression, the files of version 7.3, and the formatting
and the conversions of the language. The reader of a stream stops after the given number of bytes. -/
structure Library where
  deflate : List UInt8 → Except String (List UInt8)
  inflate : Nat → List UInt8 → Except String (List UInt8)
  encodeHdf5 : List MatVariable → Except MatError (List UInt8)
  decodeHdf5 : List UInt8 → Except MatError (List MatVariable)
  quote : String → String
  floats : FloatConversions

/-! The codes. -/

def headerBytes : Nat := 128

def matrixKind : Nat := 14

def compressedKind : Nat := 15

def flagLogical : Nat := 0x0200

def flagComplex : Nat := 0x0800

def mxCell : Nat := 1

def mxStruct : Nat := 2

def mxChar : Nat := 4

def mxDouble : Nat := 6

def mxSingle : Nat := 7

def mxUint8 : Nat := 9

def integerClass : IntegerType → Nat
  | .i8 => 8
  | .u8 => 9
  | .i16 => 10
  | .u16 => 11
  | .i32 => 12
  | .u32 => 13
  | .i64 => 14
  | .u64 => 15

def integerTypeOfClass : Nat → Option IntegerType
  | 8 => some .i8
  | 9 => some .u8
  | 10 => some .i16
  | 11 => some .u16
  | 12 => some .i32
  | 13 => some .u32
  | 14 => some .i64
  | 15 => some .u64
  | _ => none

def miInt8 : Nat := 1

def miUint8 : Nat := 2

def miUint16 : Nat := 4

def miInt32 : Nat := 5

def miUint32 : Nat := 6

def miSingle : Nat := 7

def miDouble : Nat := 9

def miUtf8 : Nat := 16

def miUtf16 : Nat := 17

def miUtf32 : Nat := 18

def integerKind : IntegerType → Nat
  | .i8 => 1
  | .u8 => 2
  | .i16 => 3
  | .u16 => 4
  | .i32 => 5
  | .u32 => 6
  | .i64 => 12
  | .u64 => 13

def integerTypeOfKind : Nat → Option IntegerType
  | 1 => some .i8
  | 2 => some .u8
  | 3 => some .i16
  | 4 => some .u16
  | 5 => some .i32
  | 6 => some .u32
  | 12 => some .i64
  | 13 => some .u64
  | _ => none

theorem integerTypeOfKind_integerKind (type : IntegerType)
    : integerTypeOfKind (integerKind type) = some type := by
  cases type <;> rfl

/-! Integers in two's complement. -/

/-- The number with the given bits, which is negative where the highest one counts as the sign. -/
def ofUnsigned (type : IntegerType) (bits : Nat) : Int :=
  if type.signed ∧ 2 ^ (8 * type.bytes - 1) ≤ bits then bits - 2 ^ (8 * type.bytes) else bits

def toUnsigned (type : IntegerType) (value : Int) : Nat := (value % 2 ^ (8 * type.bytes)).toNat

theorem toUnsigned_lt (type : IntegerType) (value : Int)
    : toUnsigned type value < 256 ^ type.bytes := by
  cases type <;> simp only [toUnsigned, IntegerType.bytes] <;> omega

theorem ofUnsigned_toUnsigned {type : IntegerType} (element : type.Element)
    : ofUnsigned type (toUnsigned type element.val) = element.val := by
  obtain ⟨value, hmin, hbound⟩ := element
  cases type <;>
    simp only [ofUnsigned, toUnsigned, IntegerType.minimum, IntegerType.bound, IntegerType.signed,
      IntegerType.bytes, if_true, if_false, Bool.false_eq_true, false_and, true_and] at hmin hbound ⊢ <;>
    omega

/-! Tagged elements. -/

structure Element where
  kind : Nat
  data : List UInt8

def padding (length : Nat) : Nat := (8 - length % 8) % 8

/-- An element with its tag, in the given byte order. -/
def tagged (order : Bytes.Order) (kind : Nat) (data : List UInt8) (pad : Bool) : List UInt8 :=
  toBytes order 4 kind ++ toBytes order 4 data.length ++ data ++
    if pad then List.replicate (padding data.length) 0 else []

theorem length_tagged (order : Bytes.Order) (kind : Nat) (data : List UInt8)
    : (tagged order kind data true).length = 8 + data.length + padding data.length := by
  simp only [tagged, if_true, List.length_append, Bytes.length_toBytes, List.length_replicate]

end Mat
end OpenMat
