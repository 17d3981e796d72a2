import OpenMat.Json.Text
import OpenMat.Protocol.Aggregate

/-!
This module contains the messages of the protocol versions that a session can select, and their checks.
-/

namespace OpenMat
namespace Protocol

open Kernel (KernelStatus maxSafeJsonInteger)

inductive ProtocolVersion where
  | v1
  | v2
  | v3
  deriving DecidableEq, Repr

def ProtocolVersion.identifier : ProtocolVersion → String
  | .v1 => "openmat-kernel-v1"
  | .v2 => "openmat-kernel-v2"
  | .v3 => "openmat-kernel-v3"

inductive MessageKind where
  | request
  | response
  | event
  deriving DecidableEq, Repr

def MessageKind.debug : MessageKind → String
  | .request => "Request"
  | .response => "Response"
  | .event => "Event"

/-! What the messages contain. -/

structure SourceRange where
  sourceName : String
  start : Nat
  stop : Nat
  deriving DecidableEq, Repr

structure RelatedDiagnostic where
  message : String
  range : SourceRange
  deriving DecidableEq, Repr

inductive DiagnosticSeverity where
  | error
  | warning
  | information
  | hint
  deriving DecidableEq, Repr

structure Diagnostic where
  code : Option String
  severity : DiagnosticSeverity
  message : String
  range : Option SourceRange
  related : List RelatedDiagnostic
  deriving DecidableEq, Repr

structure ProtocolError where
  category : String
  message : String
  diagnostics : List Diagnostic
  deriving DecidableEq, Repr

def ProtocolError.new (category message : String) : ProtocolError := ⟨category, message, []⟩

structure VariableSummary where
  name : String
  className : String
  dimensions : List Nat
  complex : Bool
  bytes : Option Nat
  deriving DecidableEq, Repr

inductive StreamKind where
  | stdout
  | stderr
  deriving DecidableEq, Repr

inductive Event where
  | status (status : KernelStatus)
  | stream (stream : StreamKind) (text : String)
  | display (representations : List (String × String))
  | diagnostic (diagnostic : Diagnostic)
  | workspaceDelta (added changed : List VariableSummary) (removed : List String)
  | unknown (eventType : String) (data : Json)

def validateSourceRange (range : SourceRange) : Except ValidationError Unit := do
  requireNonEmpty "sourceName" range.sourceName
  validateSafeJsonInteger "source range start" range.start
  validateSafeJsonInteger "source range end" range.stop
  ensure (range.start ≤ range.stop)
    ⟨"protocol.invalidMessage", "source range start must not exceed end"⟩

def validateDiagnostic (diagnostic : Diagnostic) : Except ValidationError Unit := do
  diagnostic.range.forM validateSourceRange
  diagnostic.related.forM fun related => validateSourceRange related.range

def validateProtocolError (error : ProtocolError) : Except ValidationError Unit := do
  requireNonEmpty "error.category" error.category
  error.diagnostics.forM validateDiagnostic

/-- Version 1 does not bound the number of elements. -/
def validateVariableSummary (version : ProtocolVersion) (summary : VariableSummary)
    : Except ValidationError Unit := do
  requireNonEmpty "variable.name" summary.name
  requireNonEmpty "variable.class" summary.className
  let _ ← match version with
    | .v1 => validateDimensions summary.dimensions
    | .v2 | .v3 => validateShape summary.dimensions "variable.dimensions"
  summary.bytes.forM (validateSafeJsonInteger "variable.bytes")

def validateEvent (version : ProtocolVersion) (event : Event) : Except ValidationError Unit :=
  match event with
  | .diagnostic diagnostic => validateDiagnostic diagnostic
  | .workspaceDelta added changed removed => do
    (added ++ changed).forM (validateVariableSummary version)
    removed.forM (requireNonEmpty "workspaceDelta.removed entry")
  | .unknown eventType _ => requireNonEmpty "event.type" eventType
  | .status _ | .stream _ _ | .display _ => .ok ()

/-! The requests. -/

inductive ExecutionMode where
  | file
  | cell
  | repl
  deriving DecidableEq, Repr

structure ExecuteRequest where
  code : String
  sourceName : String
  mode : ExecutionMode
  deriving DecidableEq, Repr

structure InspectRequest where
  name : String
  range : MatrixRange
  maxElements : Nat
  deriving DecidableEq, Repr

def InspectRequest.validate (request : InspectRequest) (limits : PreviewLimits)
    : Except ValidationError Unit := do
  requireNonEmpty "name" request.name
  limits.validate
  request.range.validate
  validateRequestElementBound request.maxElements limits.maxPreviewElements

structure NumericScalar where
  real : String
  imaginary : String
  deriving DecidableEq, Repr

def validDecimalNumber (value : String) : Bool := validFiniteNumberString value

def validateNumberComponent (field value : String) : Except ValidationError Unit :=
  ensure (value = "NaN" ∨ value = "+Inf" ∨ value = "-Inf" ∨ validDecimalNumber value)
    ⟨"workspace_value", field ++ " must use the canonical number-string vocabulary"⟩

structure SetVariableElementRequest where
  name : String
  indices : List Nat
  value : NumericScalar
  expectedRevision : Nat
  deriving DecidableEq, Repr

def validateRevision (revision : Nat) : Except ValidationError Unit :=
  ensure (revision ≤ maxSafeJsonInteger)
    ⟨"workspace_revision", "workspace revision must be a safe JSON integer"⟩

def SetVariableElementRequest.validate (request : SetVariableElementRequest)
    : Except ValidationError Unit := do
  ensure (validAsciiFieldName request.name)
    ⟨"workspace_name", "name must use the supported ASCII identifier repertoire"⟩
  ensure (2 ≤ request.indices.length ∧
      request.indices.all fun index => index ≠ 0 && index ≤ maxSafeJsonInteger)
    ⟨"workspace_indices", "indices must contain at least two one-based safe integers"⟩
  validateRevision request.expectedRevision
  validateNumberComponent "real" request.value.real
  validateNumberComponent "imaginary" request.value.imaginary

/-- Only version 3 has a request that writes. -/
inductive Request : ProtocolVersion → Type where
  | execute {version : ProtocolVersion} (parameters : ExecuteRequest) : Request version
  | interrupt {version : ProtocolVersion} : Request version
  | inspect {version : ProtocolVersion} (parameters : InspectRequest) : Request version
  | listWorkspace {version : ProtocolVersion} : Request version
  | setVariableElement (parameters : SetVariableElementRequest) : Request .v3
  | shutdown {version : ProtocolVersion} : Request version

/-- What the session has negotiated. -/
def Limits : ProtocolVersion → Type
  | .v1 => PreviewLimits
  | .v2 => AggregateLimits
  | .v3 => AggregateLimits

namespace Limits

def preview : {version : ProtocolVersion} → Limits version → PreviewLimits
  | .v1, limits => limits
  | .v2, limits => AggregateLimits.previewLimits limits
  | .v3, limits => AggregateLimits.previewLimits limits

/-- The requests and responses of version 3 do not check the limits once more. -/
def validate : {version : ProtocolVersion} → Limits version → Except ValidationError Unit
  | .v1, limits => PreviewLimits.validate limits
  | .v2, limits => AggregateLimits.validate limits
  | .v3, _ => .ok ()

end Limits

variable {version : ProtocolVersion}

def validateSourceName (version : ProtocolVersion) (sourceName : String)
    : Except ValidationError Unit :=
  match version with
  | .v1 | .v2 => requireNonEmpty "sourceName" sourceName
  | .v3 => ensure (sourceName ≠ "") ⟨"source_name", "sourceName must not be empty"⟩

def Request.validate (limits : Limits version) : Request version → Except ValidationError Unit
  | .execute parameters => validateSourceName version parameters.sourceName
  | .inspect parameters => parameters.validate limits.preview
  | .setVariableElement parameters => parameters.validate
  | .interrupt | .listWorkspace | .shutdown => .ok ()

/-! The envelopes. -/

structure RequestEnvelope (version : ProtocolVersion) where
  protocol : String
  sessionId : String
  messageId : String
  kind : MessageKind
  request : Request version

def validateHeader (version : ProtocolVersion) (protocol sessionId messageId : String)
    (actualKind expectedKind : MessageKind) : Except ValidationError Unit :=
  match version with
  | .v1 | .v2 => do
    ensure (protocol = version.identifier)
      ⟨"protocol", "expected " ++ version.identifier ++ ", got " ++ protocol⟩
    requireNonEmpty "sessionId" sessionId
    requireNonEmpty "messageId" messageId
    ensure (actualKind = expectedKind)
      ⟨"kind", "expected " ++ expectedKind.debug ++ ", got " ++ actualKind.debug⟩
  | .v3 => do
    ensure (protocol = version.identifier)
      ⟨"protocol", "envelope protocol must be openmat-kernel-v3"⟩
    ensure (sessionId ≠ "" ∧ messageId ≠ "")
      ⟨"identifier", "sessionId and messageId must not be empty"⟩
    ensure (actualKind = expectedKind)
      ⟨"message_kind", "envelope kind does not match the message shape"⟩

def RequestEnvelope.validate (request : RequestEnvelope version) (limits : Limits version)
    : Except ValidationError Unit := do
  validateHeader version request.protocol request.sessionId request.messageId request.kind .request
  limits.validate
  request.request.validate limits

structure VersionedInspectPreview where
  revision : Nat
  preview : InspectPreview

def Preview : ProtocolVersion → Type
  | .v1 => MatrixPreview
  | .v2 => InspectPreview
  | .v3 => VersionedInspectPreview

structure VersionedWorkspaceSummary where
  revision : Nat
  summaries : List VariableSummary

def WorkspaceSummary : ProtocolVersion → Type
  | .v1 => List VariableSummary
  | .v2 => List VariableSummary
  | .v3 => VersionedWorkspaceSummary

inductive ResponseResult : ProtocolVersion → Type where
  | execute {version : ProtocolVersion} (interrupted : Bool) : ResponseResult version
  | interrupt {version : ProtocolVersion} (accepted : Bool) : ResponseResult version
  | inspect {version : ProtocolVersion} (preview : Preview version) : ResponseResult version
  | listWorkspace {version : ProtocolVersion} (summary : WorkspaceSummary version)
    : ResponseResult version
  | setVariableElement (revision : Nat) (summary : VariableSummary) : ResponseResult .v3
  | shutdown {version : ProtocolVersion} : ResponseResult version

structure ResponseEnvelope (version : ProtocolVersion) where
  protocol : String
  sessionId : String
  messageId : String
  kind : MessageKind
  replyTo : String
  ok : Bool
  result : Option (ResponseResult version)
  error : Option ProtocolError

namespace ResponseEnvelope

def success (request : RequestEnvelope version) (messageId : String) (result : ResponseResult version)
    : ResponseEnvelope version where
  protocol := version.identifier
  sessionId := request.sessionId
  messageId := messageId
  kind := .response
  replyTo := request.messageId
  ok := true
  result := some result
  error := none

def failure (request : RequestEnvelope version) (messageId : String) (error : ProtocolError)
    : ResponseEnvelope version where
  protocol := version.identifier
  sessionId := request.sessionId
  messageId := messageId
  kind := .response
  replyTo := request.messageId
  ok := false
  result := none
  error := some error

def isReplyTo (response : ResponseEnvelope version) (request : RequestEnvelope version) : Bool :=
  response.protocol = request.protocol && response.sessionId = request.sessionId
    && response.replyTo = request.messageId

end ResponseEnvelope

structure EventEnvelope (version : ProtocolVersion) where
  protocol : String
  sessionId : String
  messageId : String
  kind : MessageKind
  event : Event

def EventEnvelope.new (sessionId messageId : String) (event : Event) : EventEnvelope version where
  protocol := version.identifier
  sessionId := sessionId
  messageId := messageId
  kind := .event
  event := event

/-- Version 3 checks the payload inside of an envelope of version 2, whose header is valid then. -/
def EventEnvelope.validate (event : EventEnvelope version) : Except ValidationError Unit := do
  validateHeader version event.protocol event.sessionId event.messageId event.kind .event
  validateEvent version event.event

/-! The check of a response against its request. -/

def Preview.selectedRange : {version : ProtocolVersion} → Preview version → MatrixRange
  | .v1, preview => MatrixPreview.selectedRange preview
  | .v2, preview => InspectPreview.selectedRange preview
  | .v3, preview => (VersionedInspectPreview.preview preview).selectedRange

def Preview.validate : {version : ProtocolVersion} → Preview version → Limits version →
    Except ValidationError Unit
  | .v1, preview, limits => MatrixPreview.validate preview limits
  | .v2, preview, limits => InspectPreview.validate preview limits
  | .v3, preview, limits => (VersionedInspectPreview.preview preview).validate limits

def Preview.validateForRequest : {version : ProtocolVersion} → Preview version → Limits version →
    Nat → Except ValidationError Unit
  | .v1, preview, limits, maxElements => MatrixPreview.validateForRequest preview limits maxElements
  | .v2, preview, limits, maxElements => InspectPreview.validateForRequest preview limits maxElements
  | .v3, preview, limits, maxElements =>
    (VersionedInspectPreview.preview preview).validateForRequest limits maxElements

/-- Version 3 puts the revision of the workspace beside what is read from it. -/
def Preview.validateRevision : {version : ProtocolVersion} → Preview version →
    Except ValidationError Unit
  | .v1, _ => .ok ()
  | .v2, _ => .ok ()
  | .v3, preview => Protocol.validateRevision (VersionedInspectPreview.revision preview)

def WorkspaceSummary.validate : {version : ProtocolVersion} → WorkspaceSummary version →
    Except ValidationError Unit
  | .v1, summaries => List.forM summaries (validateVariableSummary .v1)
  | .v2, summaries => List.forM summaries (validateVariableSummary .v2)
  | .v3, summary => do
    validateRevision (VersionedWorkspaceSummary.revision summary)
    List.forM (VersionedWorkspaceSummary.summaries summary) (validateVariableSummary .v3)

def selectedRangeMismatch (version : ProtocolVersion) : ValidationError :=
  match version with
  | .v1 | .v2 => ⟨"response_shape", "inspect result selectedRange does not match the request range"⟩
  | .v3 => ⟨"response_shape", "inspect selectedRange does not match request"⟩

def resultMismatch : ValidationError :=
  ⟨"response_shape", "successful response result type does not match request type"⟩

def responseShape : ValidationError where
  category := "response_shape"
  message := "successful responses require only result; failed responses require only error"

/-- The check of a result that does not look at the request. Version 3 has none. -/
def ResponseResult.validate (limits : Limits version) (result : ResponseResult version)
    : Except ValidationError Unit :=
  match result with
  | .inspect preview => preview.validate limits
  | .listWorkspace summary => summary.validate
  | _ => .ok ()

/-- The check of a result against its request. The first two versions have checked the workspace
summary before. -/
def validateResultForRequest (request : Request version) (limits : Limits version)
    (result : ResponseResult version) : Except ValidationError Unit :=
  match request, result with
  | .execute _, .execute _ => .ok ()
  | .interrupt, .interrupt _ => .ok ()
  | .shutdown, .shutdown => .ok ()
  | .inspect inspect, .inspect preview => do
    preview.validateRevision
    ensure (preview.selectedRange = inspect.range) (selectedRangeMismatch version)
    preview.validateForRequest limits inspect.maxElements
  | .listWorkspace, .listWorkspace summary =>
    match version, summary with
    | .v3, summary => summary.validate
    | _, _ => .ok ()
  | .setVariableElement _, .setVariableElement revision summary => do
    validateRevision revision
    validateVariableSummary .v3 summary
  | _, _ => .error resultMismatch

namespace ResponseEnvelope

/-- The check of the first two versions that does not look at the request. -/
def validate (response : ResponseEnvelope version) (limits : Limits version)
    : Except ValidationError Unit := do
  validateHeader version response.protocol response.sessionId response.messageId response.kind .response
  requireNonEmpty "replyTo" response.replyTo
  limits.validate
  match response.ok, response.result, response.error with
  | true, some result, none => result.validate limits
  | false, none, some error => validateProtocolError error
  | _, _, _ => .error responseShape

def validateForRequest (response : ResponseEnvelope version) (request : RequestEnvelope version)
    (limits : Limits version) : Except ValidationError Unit :=
  match version with
  | .v1 | .v2 => do
    request.validate limits
    response.validate limits
    ensure (response.isReplyTo request) ⟨"response_correlation",
      "response protocol, sessionId, or replyTo does not match request"⟩
    if response.ok then
      match response.result with
      | some result => validateResultForRequest request.request limits result
      | none => .error ⟨"response_shape", "successful response is missing its result"⟩
  | .v3 => do
    request.validate limits
    validateHeader .v3 response.protocol response.sessionId response.messageId response.kind .response
    ensure (response.replyTo ≠ "" ∧ response.sessionId = request.sessionId ∧
        response.replyTo = request.messageId)
      ⟨"response_correlation", "response sessionId or replyTo does not match request"⟩
    match response.ok, response.result, response.error with
    | true, some result, none => validateResultForRequest request.request limits result
    | false, none, some error => ensure (error.category ≠ "" ∧ error.message ≠ "") responseShape
    | _, _, _ => .error responseShape

end ResponseEnvelope

inductive ServerMessage (version : ProtocolVersion) where
  | response (response : ResponseEnvelope version)
  | event (event : EventEnvelope version)

end Protocol
end OpenMat
