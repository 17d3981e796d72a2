import OpenMat.Protocol.Message

/-!
This module contains the text of the messages and the codecs of the protocol versions.
-/

namespace OpenMat
namespace Protocol

open Kernel (KernelStatus)

/-! The JSON value of every message. -/

def stringsJson (strings : List String) : Json := .array (strings.map .string)

def naturalsJson (values : List Nat) : Json := .array (values.map .nat)

def codeUnitsJson (codeUnits : List UInt16) : Json :=
  .array (codeUnits.map fun codeUnit => .nat codeUnit.toNat)

/-- A member that is left out if there is none. -/
def optionalMember (name : String) (value : Option Json) : List (String × Json) :=
  value.toList.map fun value => (name, value)

def MatrixRange.toJson (range : MatrixRange) : Json :=
  .object [("start", naturalsJson range.start), ("size", naturalsJson range.size)]

def PreviewTruncation.toJson (truncation : PreviewTruncation) : Json :=
  .object [("truncated", .bool truncation.truncated),
    ("omittedElements", .nat truncation.omittedElements)]

def Binary64.toJson (value : Binary64) : Json := .number value.text

def PreviewValue.toJson : PreviewValue → Json
  | .charCodeUnit value => .object [("kind", .string "charCodeUnit"), ("value", .nat value.toNat)]
  | .integer real imaginary =>
    .object [("kind", .string "integer"), ("real", .string real), ("imaginary", .string imaginary)]
  | .string codeUnits isMissing =>
    .object [("kind", .string "string"), ("codeUnits", codeUnitsJson codeUnits),
      ("missing", .bool isMissing)]
  | .number value => .object [("kind", .string "number"), ("value", value.toJson)]
  | .complex real imaginary =>
    .object [("kind", .string "complex"), ("real", real.toJson), ("imaginary", imaginary.toJson)]
  | .logical value => .object [("kind", .string "logical"), ("value", .bool value)]
  | .special value => .object [("kind", .string "special"), ("value", .string value)]
  | .text value => .object [("kind", .string "text"), ("value", .string value)]
  | .missing => .object [("kind", .string "missing")]

def MatrixPreview.toJson (preview : MatrixPreview) : Json :=
  .object [("class", .string preview.className), ("dimensions", naturalsJson preview.dimensions),
    ("complex", .bool preview.complex), ("selectedRange", preview.selectedRange.toJson),
    ("values", .array (preview.values.map PreviewValue.toJson)),
    ("truncation", preview.truncation.toJson)]

def IntegerValue.toJson (value : IntegerValue) : Json :=
  .object [("real", .string value.real), ("imaginary", .string value.imaginary)]

def missingField (field : String) : String := "record is missing field " ++ field

/-- The members of a record are written in the order of the fields. -/
def ExactValue.toJson (value : ExactValue) : Except String Json := do
  let payload : List (String × Json) ← match h : value.payload with
    | .numeric real imag =>
      .ok [("kind", .string "numeric"), ("real", stringsJson real), ("imag", stringsJson imag)]
    | .integer integer =>
      .ok [("kind", .string "integer"), ("integer", .array (integer.map IntegerValue.toJson))]
    | .logical logical =>
      .ok [("kind", .string "logical"), ("logical", .array (logical.map .bool))]
    | .char codeUnits => .ok [("kind", .string "char"), ("code_units", codeUnitsJson codeUnits)]
    | .string stringCodeUnits missing =>
      .ok [("kind", .string "string"),
        ("string_code_units", .array (stringCodeUnits.map codeUnitsJson)),
        ("missing", .array (missing.map .bool))]
    | .cell items => do
      let items ← items.attach.mapM fun item => ExactValue.toJson item.1
      .ok [("kind", .string "cell"), ("items", .array items)]
    | .struct fields records => do
      let records ← records.attach.mapM fun record => do
        let members ← fields.mapM fun field => match hget : record.1.get field with
          | some child => do
            let child ← ExactValue.toJson child
            .ok (field, child)
          | none => .error (missingField field)
        .ok (Json.object members)
      .ok [("kind", .string "struct"), ("fields", stringsJson fields), ("records", .array records)]
    | .table variableNames tableVariables => do
      let tableVariables ← tableVariables.attach.mapM fun child => ExactValue.toJson child.1
      .ok [("kind", .string "table"), ("variableNames", stringsJson variableNames),
        ("variables", .array tableVariables)]
  .ok (.object ([("class", .string value.className), ("size", naturalsJson value.size),
    ("ndims", .nat value.ndims), ("numel", .nat value.numel), ("complex", .bool value.complex)]
    ++ payload))
termination_by sizeOf value
decreasing_by
  . apply ExactValue.sizeOf_lt_of_mem_children
    rw [h]
    exact item.2
  . apply ExactValue.sizeOf_lt_of_mem_children
    rw [h, ExactPayload.children, List.mem_flatMap]
    exact ⟨record.1, record.2, List.mem_filterMap.mpr ⟨field, by assumption, hget⟩⟩
  . apply ExactValue.sizeOf_lt_of_mem_children
    rw [h]
    exact child.2

end Protocol
end OpenMat
