import OpenMat.Protocol.Message

/-!
This module contains the response to an inspection of version 2, and how it is shortened to fit into a frame.
-/

namespace OpenMat
namespace Protocol

def maxJsonFrameBytes : Nat := 1048576

inductive CodecError where
  | json (text : String)
  | validation (error : ValidationError)
  | frameTooLarge (actual maximum : Nat)
  deriving DecidableEq, Repr

def CodecError.text : CodecError → String
  | json text => "json: " ++ text
  | validation error => error.text
  | frameTooLarge actual maximum =>
    "JSON frame has " ++ toString actual ++ " bytes; maximum is " ++ toString maximum

def checkFrameSize (actual : Nat) : Except CodecError Unit :=
  if maxJsonFrameBytes < actual then .error (.frameTooLarge actual maxJsonFrameBytes) else .ok ()

/-! The serializer of the messages gives their JSON text, or the reason why there is none. -/

section Encoding

variable (serialize : ResponseEnvelope .v2 → Except String String)

def encodeChecked (response : ResponseEnvelope .v2) : Except CodecError String := do
  let encoded ← (serialize response).mapError .json
  checkFrameSize encoded.utf8ByteSize
  return encoded

def encodeResponseForRequest (response : ResponseEnvelope .v2) (request : RequestEnvelope .v2)
    (limits : AggregateLimits) : Except CodecError String := do
  (response.validateForRequest request limits).mapError .validation
  encodeChecked serialize response

end Encoding

/-! The usage of a preview, counted once more. -/

namespace PreviewUsage

def addCodeUnits (usage : PreviewUsage) (count : Nat) : Option PreviewUsage := do
  let codeUnits ← checkedAdd 64 usage.codeUnits count
  return { usage with codeUnits }

def addNames (usage : PreviewUsage) (names : List String) : Option PreviewUsage :=
  names.foldlM (fun usage name => usage.addCodeUnits (encodeUtf16Count name)) usage

end PreviewUsage

/-- Every record has a value for every field. -/
def requireRecords (fields : List String) (records : List StructRecord) : Option Unit :=
  if ∀ record ∈ records, ∀ field ∈ fields, (record.get field).isSome then some () else none

def recomputePayload (payload : ExactPayload) (depth : Nat) (usage : PreviewUsage) : Option PreviewUsage :=
  match payload with
  | .char codeUnits => usage.addCodeUnits codeUnits.length
  | .string stringCodeUnits _ =>
    stringCodeUnits.foldlM (fun usage element => usage.addCodeUnits element.length) usage
  | .cell _ => do
    let _ ← checkedAdd 64 depth 1
    return usage
  | .struct fields records => do
    let usage ← usage.addNames fields
    let _ ← checkedAdd 64 depth 1
    requireRecords fields records
    return usage
  | .table variableNames _ => do
    let usage ← usage.addNames variableNames
    let _ ← checkedAdd 64 depth 1
    return usage
  | .numeric _ _ | .integer _ | .logical _ => some usage

def recomputeNode (value : ExactValue) (depth : Nat) (usage : PreviewUsage) : Option PreviewUsage := do
  let nodes ← checkedAdd 64 usage.nodes 1
  let elements ← checkedAdd 64 usage.elements value.numel
  recomputePayload value.payload depth { usage with nodes, elements, depth := max usage.depth depth }

/-- The work stack of the source visits a value before the values inside of it, and these in order. -/
def recomputeTree (value : ExactValue) (depth : Nat) (usage : PreviewUsage) : Option PreviewUsage := do
  let usage ← recomputeNode value depth usage
  value.payload.children.attach.foldlM (fun usage child => recomputeTree child.1 (depth + 1) usage) usage
termination_by sizeOf value
decreasing_by exact ExactValue.sizeOf_lt_of_mem_children child.2

def recomputeTrees (values : List ExactValue) (usage : PreviewUsage) : Option PreviewUsage :=
  values.foldlM (fun usage value => recomputeTree value 1 usage) usage

def recomputeAggregateUsage (preview : AggregatePreview) : Option PreviewUsage :=
  match preview with
  | .cell _ _ items _ _ => recomputeTrees items ⟨1, items.length, 0, 0⟩
  | .struct _ _ fields records _ _ => do
    let usage ← PreviewUsage.addNames ⟨1, records.length, 0, 0⟩ fields
    requireRecords fields records
    recomputeTrees (records.flatMap fun record => fields.filterMap record.get) usage
  | .table _ _ variableNames tableVariables _ _ =>
    if variableNames.length ≠ tableVariables.length then
      none
    else do
      let usage ← PreviewUsage.addNames ⟨1, tableVariables.length, 0, 0⟩ variableNames
      recomputeTrees tableVariables usage

/-! One item less. -/

/-- One more element is left out. -/
def PreviewTruncation.omitOne (truncation : PreviewTruncation) : Option PreviewTruncation := do
  let omittedElements ← checkedAdd 64 truncation.omittedElements 1
  return ⟨true, omittedElements⟩

namespace AggregatePreview

def usage : AggregatePreview → PreviewUsage
  | cell _ _ _ _ usage => usage
  | struct _ _ _ _ _ usage => usage
  | table _ _ _ _ _ usage => usage

def withUsage (usage : PreviewUsage) : AggregatePreview → AggregatePreview
  | cell dimensions range items truncation _ => cell dimensions range items truncation usage
  | struct dimensions range fields records truncation _ => struct dimensions range fields records truncation usage
  | table dimensions range names tableVariables truncation _ =>
    table dimensions range names tableVariables truncation usage

def itemCount : AggregatePreview → Nat
  | cell _ _ items _ _ => items.length
  | struct _ _ _ records _ _ => records.length
  | table _ _ _ tableVariables _ _ => tableVariables.length

/-- The preview without its last item, before its usage is counted. -/
def popItem : AggregatePreview → Option AggregatePreview
  | cell dimensions range items truncation usage =>
    if items = [] then
      none
    else do
      let truncation ← truncation.omitOne
      return cell dimensions range items.dropLast truncation usage
  | struct dimensions range fields records truncation usage =>
    if records = [] then
      none
    else do
      let truncation ← truncation.omitOne
      return struct dimensions range fields records.dropLast truncation usage
  | table dimensions range names tableVariables truncation usage =>
    if tableVariables = [] ∨ names.length ≠ tableVariables.length then
      none
    else do
      let truncation ← truncation.omitOne
      return table dimensions range names.dropLast tableVariables.dropLast truncation usage

def truncate (preview : AggregatePreview) : Option AggregatePreview := do
  let shorter ← preview.popItem
  let usage ← recomputeAggregateUsage shorter
  return shorter.withUsage usage

end AggregatePreview

def MatrixPreview.truncate (preview : MatrixPreview) : Option MatrixPreview :=
  if preview.values = [] then
    none
  else do
    let truncation ← preview.truncation.omitOne
    return { preview with values := preview.values.dropLast, truncation }

namespace InspectPreview

def itemCount : InspectPreview → Nat
  | matrix preview => preview.values.length
  | aggregate preview => preview.itemCount

def truncate : InspectPreview → Option InspectPreview
  | matrix preview => preview.truncate.map .matrix
  | aggregate preview => preview.truncate.map .aggregate

end InspectPreview

namespace ResponseEnvelope

/-- The preview of a response to an inspection. -/
def preview? (response : ResponseEnvelope .v2) : Option InspectPreview :=
  match response.result with
  | some (.inspect preview) => some preview
  | _ => none

def withPreview (response : ResponseEnvelope .v2) (preview : InspectPreview) : ResponseEnvelope .v2 :=
  { response with result := some (.inspect preview) }

end ResponseEnvelope

/-- How many items the preview of a response has. -/
def ResponseEnvelope.itemCount (response : ResponseEnvelope .v2) : Nat :=
  (response.preview?.map InspectPreview.itemCount).getD 0

def truncateV2InspectResponse (response : ResponseEnvelope .v2) : Option (ResponseEnvelope .v2) := do
  let preview ← response.preview?
  let shorter ← preview.truncate
  return response.withPreview shorter

theorem PreviewTruncation.omitOne_eq_some_iff {truncation shorter : PreviewTruncation}
    : truncation.omitOne = some shorter ↔
        truncation.omittedElements + 1 < 2 ^ 64 ∧ shorter = ⟨true, truncation.omittedElements + 1⟩ := by
  rw [PreviewTruncation.omitOne, checkedAdd]
  split
  . next h =>
    constructor
    . rintro ⟨⟩
      exact ⟨h, rfl⟩
    . rintro ⟨-, rfl⟩
      rfl
  . next h =>
    constructor
    . rintro ⟨⟩
    . rintro ⟨hlt, -⟩
      exact absurd hlt h

theorem AggregatePreview.itemCount_of_popItem {preview shorter : AggregatePreview}
    (h : preview.popItem = some shorter)
    : shorter.itemCount + 1 = preview.itemCount := by
  cases preview with
  | cell | struct =>
    rw [popItem, Option.ite_none_left_eq_some] at h
    obtain ⟨hne, h⟩ := h
    obtain ⟨truncation, -, h⟩ := Option.bind_eq_some_iff.mp h
    cases h
    simp only [itemCount, List.length_dropLast]
    have := List.length_pos_iff.mpr hne
    omega
  | table =>
    rw [popItem, Option.ite_none_left_eq_some, not_or] at h
    obtain ⟨⟨hne, -⟩, h⟩ := h
    obtain ⟨truncation, -, h⟩ := Option.bind_eq_some_iff.mp h
    cases h
    simp only [itemCount, List.length_dropLast]
    have := List.length_pos_iff.mpr hne
    omega

theorem AggregatePreview.itemCount_withUsage (preview : AggregatePreview) (usage : PreviewUsage)
    : (preview.withUsage usage).itemCount = preview.itemCount := by
  cases preview <;> rfl

theorem InspectPreview.itemCount_of_truncate {preview shorter : InspectPreview}
    (h : preview.truncate = some shorter)
    : shorter.itemCount + 1 = preview.itemCount := by
  cases preview with
  | matrix preview =>
    obtain ⟨less, htruncate, rfl⟩ := Option.map_eq_some_iff.mp h
    rw [MatrixPreview.truncate, Option.ite_none_left_eq_some] at htruncate
    obtain ⟨hne, htruncate⟩ := htruncate
    obtain ⟨truncation, -, htruncate⟩ := Option.bind_eq_some_iff.mp htruncate
    cases htruncate
    simp only [itemCount, List.length_dropLast]
    have := List.length_pos_iff.mpr hne
    omega
  | aggregate preview =>
    obtain ⟨less, htruncate, rfl⟩ := Option.map_eq_some_iff.mp h
    obtain ⟨popped, hpop, htruncate⟩ := Option.bind_eq_some_iff.mp htruncate
    obtain ⟨usage, -, htruncate⟩ := Option.bind_eq_some_iff.mp htruncate
    cases htruncate
    rw [itemCount, itemCount, AggregatePreview.itemCount_withUsage]
    exact AggregatePreview.itemCount_of_popItem hpop

theorem ResponseEnvelope.preview?_eq_some_iff {response : ResponseEnvelope .v2} {preview : InspectPreview}
    : response.preview? = some preview ↔ response.result = some (.inspect preview) := by
  constructor
  . intro h
    unfold preview? at h
    split at h
    . next found hfound =>
      cases h
      exact hfound
    . cases h
  . intro h
    unfold preview?
    rw [h]

theorem ResponseEnvelope.preview?_withPreview (response : ResponseEnvelope .v2) (preview : InspectPreview)
    : (response.withPreview preview).preview? = some preview := rfl

/-- What a response without its last item is. -/
theorem truncateV2InspectResponse_eq_some_iff {response shorter : ResponseEnvelope .v2}
    : truncateV2InspectResponse response = some shorter ↔
        ∃ preview less, response.preview? = some preview ∧ preview.truncate = some less ∧
          response.withPreview less = shorter := by
  simp [truncateV2InspectResponse, Option.bind_eq_some_iff]

theorem itemCount_of_truncate {response shorter : ResponseEnvelope .v2}
    (h : truncateV2InspectResponse response = some shorter)
    : shorter.itemCount + 1 = response.itemCount := by
  obtain ⟨preview, less, hpreview, htruncate, rfl⟩ := truncateV2InspectResponse_eq_some_iff.mp h
  simp only [ResponseEnvelope.itemCount, hpreview, ResponseEnvelope.preview?_withPreview, Option.map_some,
    Option.getD_some]
  exact InspectPreview.itemCount_of_truncate htruncate

/-- One item is taken away after the other until the response fits. -/
def fitV2InspectResponse (serialize : ResponseEnvelope .v2 → Except String String) (request : RequestEnvelope .v2)
    (limits : AggregateLimits) (response : ResponseEnvelope .v2)
    : Except ProtocolError (ResponseEnvelope .v2) :=
  match encodeResponseForRequest serialize response request limits with
  | .ok _ => .ok response
  | .error (.frameTooLarge _ _) =>
    match _h : truncateV2InspectResponse response with
    | some shorter => fitV2InspectResponse serialize request limits shorter
    | none =>
      .error (.new "workspace.previewLimit"
        "the indivisible inspect response header exceeds the v2 frame limit")
  | .error error =>
    .error (.new "engine.invalidPreview"
      ("engine-produced v2 inspect response is invalid: " ++ error.text))
termination_by response.itemCount
decreasing_by
  have := itemCount_of_truncate (by assumption)
  omega

end Protocol
end OpenMat
