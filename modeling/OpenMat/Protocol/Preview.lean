import Mathlib.Algebra.Order.Ring.Nat
import Mathlib.Data.List.Basic
import OpenMat.Fallible.Basic
import OpenMat.Kernel.Status

/-!
This module contains the checks that the protocol versions share and the bounded matrix preview.
-/

namespace OpenMat
namespace Protocol

open Kernel (maxSafeJsonInteger)

structure ValidationError where
  category : String
  message : String
  deriving DecidableEq, Repr

/-- The text under which the error is displayed. -/
def ValidationError.text (e : ValidationError) : String := e.category ++ ": " ++ e.message

def maxPreviewElements : Nat := 4096

def maxStringElementCodeUnits : Nat := 16384

def maxPreviewCodeUnits : Nat := 65536

def requireNonEmpty (field value : String) : Except ValidationError Unit :=
  ensure (value ≠ "") ⟨"required_field", field ++ " must not be empty"⟩

def validateSafeJsonInteger (field : String) (value : Nat) : Except ValidationError Unit :=
  ensure (value ≤ maxSafeJsonInteger)
    ⟨"protocol.invalidMessage", field ++ " exceeds the maximum safe JSON integer"⟩

def validateBoundedPositive (field : String) (value maximum : Nat) : Except ValidationError Unit := do
  validateSafeJsonInteger field value
  ensure (value ≠ 0 ∧ value ≤ maximum)
    ⟨"protocol.invalidCapabilities", field ++ " must be between 1 and " ++ toString maximum⟩

def validateRequestElementBound (value maximum : Nat) : Except ValidationError Unit := do
  validateSafeJsonInteger "maxElements" value
  ensure (value ≠ 0 ∧ value ≤ maximum)
    ⟨"preview_bound", "maxElements must be between 1 and " ++ toString maximum⟩

def checkedProduct (values : List Nat) (field : String) : Except ValidationError Nat :=
  values.foldlM (fun product value => okOr (checkedMul 64 product value)
    ⟨"preview_shape", "checked product of " ++ field ++ " overflows u64"⟩) 1

def validateDimensions (dimensions : List Nat) : Except ValidationError Nat := do
  ensure (2 ≤ dimensions.length) ⟨"preview_shape", "dimensions must contain at least two entries"⟩
  dimensions.forM (validateSafeJsonInteger "dimensions")
  checkedProduct dimensions "dimensions"

structure PreviewLimits where
  maxPreviewElements : Nat
  maxStringElementCodeUnits : Nat
  maxPreviewCodeUnits : Nat
  deriving DecidableEq, Repr

def PreviewLimits.default : PreviewLimits where
  maxPreviewElements := Protocol.maxPreviewElements
  maxStringElementCodeUnits := Protocol.maxStringElementCodeUnits
  maxPreviewCodeUnits := Protocol.maxPreviewCodeUnits

def PreviewLimits.validate (limits : PreviewLimits) : Except ValidationError Unit := do
  validateBoundedPositive "maxPreviewElements" limits.maxPreviewElements Protocol.maxPreviewElements
  validateBoundedPositive "maxStringElementCodeUnits" limits.maxStringElementCodeUnits
    Protocol.maxStringElementCodeUnits
  validateBoundedPositive "maxPreviewCodeUnits" limits.maxPreviewCodeUnits Protocol.maxPreviewCodeUnits
  ensure (limits.maxStringElementCodeUnits ≤ limits.maxPreviewCodeUnits)
    ⟨"protocol.invalidCapabilities",
      "maxPreviewCodeUnits must not be less than maxStringElementCodeUnits"⟩

structure MatrixRange where
  start : List Nat
  size : List Nat
  deriving DecidableEq, Repr

def MatrixRange.validate (range : MatrixRange) : Except ValidationError Unit := do
  ensure (range.start.length = range.size.length ∧ 2 ≤ range.start.length)
    ⟨"preview_shape", "range start and size must have the same rank of at least two"⟩
  range.start.forM fun start => do
    validateSafeJsonInteger "selectedRange.start" start
    ensure (start ≠ 0) ⟨"preview_shape", "selected range starts are one-based"⟩
  range.size.forM (validateSafeJsonInteger "selectedRange.size")
  let _ ← checkedProduct range.size "selectedRange.size"
  return ()

structure PreviewTruncation where
  truncated : Bool
  omittedElements : Nat
  deriving DecidableEq, Repr

/-- A double, by what is observed of it: whether it is finite, and the text that is written for it. -/
structure Binary64 where
  isFinite : Bool
  text : String
  deriving DecidableEq, Repr

inductive PreviewValue where
  | charCodeUnit (value : UInt16)
  | integer (real imaginary : String)
  | string (codeUnits : List UInt16) (missing : Bool)
  | number (value : Binary64)
  | complex (real imaginary : Binary64)
  | logical (value : Bool)
  | special (value : String)
  | text (value : String)
  | missing
  deriving DecidableEq, Repr

structure IntegerClass where
  signed : Bool
  bits : Nat
  deriving DecidableEq, Repr

namespace IntegerClass

def parse (className : String) : Option IntegerClass :=
  match className with
  | "int8" => some ⟨true, 8⟩
  | "uint8" => some ⟨false, 8⟩
  | "int16" => some ⟨true, 16⟩
  | "uint16" => some ⟨false, 16⟩
  | "int32" => some ⟨true, 32⟩
  | "uint32" => some ⟨false, 32⟩
  | "int64" => some ⟨true, 64⟩
  | "uint64" => some ⟨false, 64⟩
  | _ => none

def positiveMax (c : IntegerClass) : Nat :=
  if c.signed then 2 ^ (c.bits - 1) - 1 else 2 ^ c.bits - 1

def negativeMagnitudeMax (c : IntegerClass) : Nat := 2 ^ (c.bits - 1)

end IntegerClass

inductive ValueClass where
  | char
  | string
  | logical
  | integer (integerClass : IntegerClass)
  | double
  | single
  deriving DecidableEq, Repr

def ValueClass.parse (className : String) : Option ValueClass :=
  match className with
  | "char" => some .char
  | "string" => some .string
  | "logical" => some .logical
  | "double" => some .double
  | "single" => some .single
  | className => (IntegerClass.parse className).map .integer

def unsupportedValue : ValidationError where
  category := "workspace.unsupportedValue"
  message := "preview class, complex marker, value kind, or exact value is not representable in v1"

/-- The components of an integer are canonical decimals in the range of its class. The two versions
report different errors. -/
def checkIntegerComponent (nonCanonical transport range : ValidationError) (component : String)
    (integerClass : IntegerClass) : Except ValidationError Unit := do
  let negative : Bool := component.toList.head? = some '-'
  let digits := if negative then component.toList.tail else component.toList
  let canonical : Bool := match digits with
    | ['0'] => !negative
    | first :: rest => '1' ≤ first && first ≤ '9' && rest.all Char.isDigit
    | [] => false
  ensure (canonical ∧ (negative → integerClass.signed)) nonCanonical
  let magnitude := digits.foldl (fun n c => 10 * n + (c.toNat - '0'.toNat)) 0
  ensure (magnitude < 2 ^ 128) transport
  ensure (magnitude ≤
    if negative then integerClass.negativeMagnitudeMax else integerClass.positiveMax) range

def requireRealStorage (complex : Bool) : Except ValidationError Unit :=
  ensure (complex = false) unsupportedValue

def validateStringValues (limits : PreviewLimits) (values : List PreviewValue)
    : Except ValidationError Unit := do
  let _ ← values.foldlM (fun total value => do
    match value with
    | .string codeUnits missing =>
      ensure (missing → codeUnits = []) unsupportedValue
      ensure (codeUnits.length ≤ limits.maxStringElementCodeUnits) unsupportedValue
      let total ← okOr (checkedAdd 64 total codeUnits.length) unsupportedValue
      ensure (total ≤ limits.maxPreviewCodeUnits)
        ⟨"preview_bound", "aggregate string code-unit budget exceeded"⟩
      return total
    | _ => .error unsupportedValue) 0
  return ()

def validateIntegerValues (integerClass : IntegerClass) (complex : Bool) (values : List PreviewValue)
    : Except ValidationError Unit := do
  let anyImaginary ← values.foldlM (fun anyImaginary value => do
    match value with
    | .integer real imaginary =>
      checkIntegerComponent unsupportedValue unsupportedValue unsupportedValue real integerClass
      checkIntegerComponent unsupportedValue unsupportedValue unsupportedValue imaginary integerClass
      ensure (complex ∨ imaginary = "0") unsupportedValue
      return (anyImaginary || imaginary ≠ "0")
    | _ => .error unsupportedValue) false
  ensure (complex → anyImaginary) unsupportedValue

def PreviewValue.isFiniteComplex : PreviewValue → Bool
  | .complex real imaginary => real.isFinite && imaginary.isFinite
  | _ => false

def PreviewValue.isReal : PreviewValue → Bool
  | .number value => value.isFinite
  | .special value => value = "nan" || value = "infinity" || value = "negativeInfinity"
  | _ => false

def PreviewValue.isCharCodeUnit : PreviewValue → Bool
  | .charCodeUnit _ => true
  | _ => false

def PreviewValue.isLogical : PreviewValue → Bool
  | .logical _ => true
  | _ => false

def validatePreviewValues (valueClass : ValueClass) (complex : Bool) (values : List PreviewValue)
    (limits : PreviewLimits) : Except ValidationError Unit :=
  match valueClass with
  | .char => do
    requireRealStorage complex
    ensure (values.all PreviewValue.isCharCodeUnit) unsupportedValue
  | .string => do
    requireRealStorage complex
    validateStringValues limits values
  | .logical => do
    requireRealStorage complex
    ensure (values.all PreviewValue.isLogical) unsupportedValue
  | .integer integerClass => validateIntegerValues integerClass complex values
  | .double | .single =>
    if complex then
      ensure (values.all PreviewValue.isFiniteComplex) unsupportedValue
    else
      ensure (values.all PreviewValue.isReal) unsupportedValue

structure MatrixPreview where
  className : String
  dimensions : List Nat
  complex : Bool
  selectedRange : MatrixRange
  values : List PreviewValue
  truncation : PreviewTruncation
  deriving DecidableEq, Repr

/-- The end of a nonempty selection stays inside of the value. -/
def validateSelectionEnd (overflow exceeds : ValidationError) (start size dimension : Nat)
    : Except ValidationError Unit := do
  let past ← okOr (checkedAdd 64 start size) overflow
  let last ← okOr (if past = 0 then none else some (past - 1)) overflow
  validateSafeJsonInteger "selected range end" last
  ensure (last ≤ dimension) exceeds

/-- The same for every dimension. -/
def validateSelectionEnds (overflow exceeds : ValidationError) (range : MatrixRange)
    (dimensions : List Nat) : Except ValidationError Unit :=
  ((range.start.zip range.size).zip dimensions).forM fun ((start, size), dimension) =>
    validateSelectionEnd overflow exceeds start size dimension

namespace MatrixPreview

def validateWithElementLimit (preview : MatrixPreview) (limits : PreviewLimits) (elementLimit : Nat)
    : Except ValidationError Unit := do
  limits.validate
  let valueClass ← okOr (ValueClass.parse preview.className) unsupportedValue
  let _ ← validateDimensions preview.dimensions
  preview.selectedRange.validate
  ensure (preview.dimensions.length = preview.selectedRange.start.length)
    ⟨"preview_shape",
      "dimensions, selectedRange.start, and selectedRange.size must have equal rank"⟩
  let selectedCount ← checkedProduct preview.selectedRange.size "selectedRange.size"
  if selectedCount ≠ 0 then
    validateSelectionEnds ⟨"preview_shape", "selected range overflows"⟩
      ⟨"preview_shape", "nonempty selected range exceeds full dimensions"⟩
      preview.selectedRange preview.dimensions
  validateSafeJsonInteger "truncation.omittedElements" preview.truncation.omittedElements
  let valueCount := preview.values.length
  let effectiveLimit := min elementLimit limits.maxPreviewElements
  ensure (valueCount ≤ effectiveLimit)
    ⟨"preview_bound", "preview value count exceeds effective limit " ++ toString effectiveLimit⟩
  let representedCount ← okOr (checkedAdd 64 valueCount preview.truncation.omittedElements)
    ⟨"preview_truncation", "represented element count overflows"⟩
  ensure (representedCount = selectedCount ∧
      preview.truncation.truncated = decide (preview.truncation.omittedElements ≠ 0))
    ⟨"preview_truncation", "values and truncation metadata do not match selectedRange.size"⟩
  validatePreviewValues valueClass preview.complex preview.values limits

def validate (preview : MatrixPreview) (limits : PreviewLimits) : Except ValidationError Unit :=
  preview.validateWithElementLimit limits limits.maxPreviewElements

def validateForRequest (preview : MatrixPreview) (limits : PreviewLimits) (requestMaxElements : Nat)
    : Except ValidationError Unit := do
  validateRequestElementBound requestMaxElements limits.maxPreviewElements
  preview.validateWithElementLimit limits requestMaxElements

end MatrixPreview

end Protocol
end OpenMat
