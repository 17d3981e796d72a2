import OpenMat.Protocol.Preview

/-!
This module contains the exact values that cells, structs and tables are previewed with, and the checks
of such a preview.
-/

namespace OpenMat
namespace Protocol

structure PreviewUsage where
  nodes : Nat
  elements : Nat
  codeUnits : Nat
  depth : Nat
  deriving DecidableEq, Repr

structure IntegerValue where
  real : String
  imaginary : String
  deriving DecidableEq, Repr

mutual

structure ExactValue where
  className : String
  size : List Nat
  ndims : Nat
  numel : Nat
  complex : Bool
  payload : ExactPayload

inductive ExactPayload where
  | numeric (real imag : List String)
  | integer (integer : List IntegerValue)
  | logical (logical : List Bool)
  | char (codeUnits : List UInt16)
  | string (stringCodeUnits : List (List UInt16)) (missing : List Bool)
  | cell (items : List ExactValue)
  | struct (fields : List String) (records : List StructRecord)
  | table (variableNames : List String) (tableVariables : List ExactValue)

structure StructRecord where
  entries : List (String × ExactValue)

end

def StructRecord.get (record : StructRecord) (field : String) : Option ExactValue :=
  (record.entries.find? fun entry => entry.1 = field).map Prod.snd

/-- The values directly inside of a value, in the order in which they are visited. -/
def ExactPayload.children : ExactPayload → List ExactValue
  | .cell items => items
  | .struct fields records => records.flatMap fun record => fields.filterMap record.get
  | .table _ tableVariables => tableVariables
  | _ => []

theorem StructRecord.sizeOf_lt_of_get {record : StructRecord} {field : String} {value : ExactValue}
    (h : record.get field = some value)
    : sizeOf value < sizeOf record := by
  rw [StructRecord.get, Option.map_eq_some_iff] at h
  obtain ⟨entry, hfound, rfl⟩ := h
  have hmem := List.mem_of_find?_eq_some hfound
  have hlt := List.sizeOf_lt_of_mem hmem
  cases record
  cases entry
  simp only [StructRecord.mk.sizeOf_spec, Prod.mk.sizeOf_spec] at hlt ⊢
  omega

theorem ExactValue.sizeOf_lt_of_mem_children {value child : ExactValue}
    (h : child ∈ value.payload.children)
    : sizeOf child < sizeOf value := by
  obtain ⟨className, size, ndims, numel, complex, payload⟩ := value
  rw [ExactValue.mk.sizeOf_spec]
  cases payload <;> simp only [ExactPayload.children, List.not_mem_nil] at h
  case cell items =>
    have hlt := List.sizeOf_lt_of_mem h
    rw [ExactPayload.cell.sizeOf_spec]
    omega
  case struct fields records =>
    rw [List.mem_flatMap] at h
    obtain ⟨record, hrecord, hchild⟩ := h
    obtain ⟨field, -, hget⟩ := List.mem_filterMap.mp hchild
    have hlt := List.sizeOf_lt_of_mem hrecord
    have hinside := StructRecord.sizeOf_lt_of_get hget
    rw [ExactPayload.struct.sizeOf_spec]
    omega
  case table variableNames tableVariables =>
    have hlt := List.sizeOf_lt_of_mem h
    rw [ExactPayload.table.sizeOf_spec]
    omega

structure AggregateLimits where
  maxPreviewElements : Nat
  maxStringElementCodeUnits : Nat
  maxPreviewCodeUnits : Nat
  maxAggregateNodes : Nat
  maxAggregateElements : Nat
  maxAggregateDepth : Nat
  deriving DecidableEq, Repr

namespace AggregateLimits

def default : AggregateLimits where
  maxPreviewElements := Protocol.maxPreviewElements
  maxStringElementCodeUnits := Protocol.maxStringElementCodeUnits
  maxPreviewCodeUnits := Protocol.maxPreviewCodeUnits
  maxAggregateNodes := 16384
  maxAggregateElements := 65536
  maxAggregateDepth := 32

def previewLimits (limits : AggregateLimits) : PreviewLimits where
  maxPreviewElements := limits.maxPreviewElements
  maxStringElementCodeUnits := limits.maxStringElementCodeUnits
  maxPreviewCodeUnits := limits.maxPreviewCodeUnits

def validate (limits : AggregateLimits) : Except ValidationError Unit := do
  validateBoundedPositive "maxPreviewElements" limits.maxPreviewElements default.maxPreviewElements
  validateBoundedPositive "maxStringElementCodeUnits" limits.maxStringElementCodeUnits
    default.maxStringElementCodeUnits
  validateBoundedPositive "maxPreviewCodeUnits" limits.maxPreviewCodeUnits default.maxPreviewCodeUnits
  validateBoundedPositive "maxAggregateNodes" limits.maxAggregateNodes default.maxAggregateNodes
  validateBoundedPositive "maxAggregateElements" limits.maxAggregateElements
    default.maxAggregateElements
  validateSafeJsonInteger "maxAggregateDepth" limits.maxAggregateDepth
  ensure (limits.maxAggregateDepth ≤ default.maxAggregateDepth)
    ⟨"protocol.invalidCapabilities",
      "maxAggregateDepth must be between 0 and " ++ toString default.maxAggregateDepth⟩
  ensure (limits.maxStringElementCodeUnits ≤ limits.maxPreviewCodeUnits)
    ⟨"protocol.invalidCapabilities",
      "maxPreviewCodeUnits must not be less than maxStringElementCodeUnits"⟩

end AggregateLimits

def invalidPreview (message : String) : ValidationError := ⟨"engine.invalidPreview", message⟩

def previewLimit (message : String) : ValidationError := ⟨"workspace.previewLimit", message⟩

def checkedAddSafe (left right : Nat) (field : String) : Except ValidationError Nat := do
  let value ← okOr (checkedAdd 64 left right)
    (previewLimit ("checked addition for " ++ field ++ " overflows"))
  validateSafeJsonInteger field value
  return value

def checkedProductSafe (values : List Nat) (field : String) : Except ValidationError Nat := do
  let product ← values.foldlM (fun product value => okOr (checkedMul 64 product value)
    (previewLimit ("checked product of " ++ field ++ " overflows"))) 1
  validateSafeJsonInteger field product
  return product

def validateShape (values : List Nat) (field : String) : Except ValidationError Nat := do
  ensure (2 ≤ values.length) (invalidPreview (field ++ " must contain at least two dimensions"))
  values.forM (validateSafeJsonInteger field)
  checkedProductSafe values field

/-- A length as an integer of the wire. -/
def usizeToSafe (value : Nat) (field : String) : Except ValidationError Nat := do
  validateSafeJsonInteger field value
  return value

def validatePayloadCount (actual expected : Nat) (field : String) : Except ValidationError Unit := do
  let actual ← usizeToSafe actual field
  ensure (actual = expected) (invalidPreview (field ++ " payload count does not equal numel"))

namespace PreviewUsage

def root (limits : AggregateLimits) : Except ValidationError PreviewUsage := do
  ensure (1 ≤ limits.maxAggregateNodes) (previewLimit "aggregate root exceeds the node limit")
  return ⟨1, 0, 0, 0⟩

def chargeNode (usage : PreviewUsage) (numel depth : Nat) (limits : AggregateLimits)
    : Except ValidationError PreviewUsage := do
  let nodes ← checkedAddSafe usage.nodes 1 "usage.nodes"
  let elements ← checkedAddSafe usage.elements numel "usage.elements"
  ensure (nodes ≤ limits.maxAggregateNodes) (previewLimit "aggregate node limit exceeded")
  ensure (elements ≤ limits.maxAggregateElements) (previewLimit "aggregate element limit exceeded")
  return { usage with nodes, elements, depth := max usage.depth depth }

def chargeRootElement (usage : PreviewUsage) (limits : AggregateLimits)
    : Except ValidationError PreviewUsage := do
  let elements ← checkedAddSafe usage.elements 1 "usage.elements"
  ensure (elements ≤ limits.maxAggregateElements) (previewLimit "aggregate element limit exceeded")
  return { usage with elements }

def chargeCodeUnits (usage : PreviewUsage) (count : Nat) (limits : AggregateLimits)
    : Except ValidationError PreviewUsage := do
  let codeUnits ← checkedAddSafe usage.codeUnits count "usage.codeUnits"
  ensure (codeUnits ≤ limits.maxPreviewCodeUnits) (previewLimit "aggregate code-unit limit exceeded")
  return { usage with codeUnits }

def validateSafe (usage : PreviewUsage) : Except ValidationError Unit := do
  validateSafeJsonInteger "usage.nodes" usage.nodes
  validateSafeJsonInteger "usage.elements" usage.elements
  validateSafeJsonInteger "usage.codeUnits" usage.codeUnits
  validateSafeJsonInteger "usage.depth" usage.depth

def debug (usage : PreviewUsage) : String :=
  "PreviewUsage \x7b nodes: " ++ toString usage.nodes ++ ", elements: " ++ toString usage.elements
    ++ ", code_units: " ++ toString usage.codeUnits ++ ", depth: " ++ toString usage.depth ++ " \x7d"

/-- The usage that a preview reports is the one that was counted. -/
def validateReported (reported recomputed : PreviewUsage) : Except ValidationError Unit := do
  reported.validateSafe
  ensure (recomputed = reported) (invalidPreview ("reported usage " ++ reported.debug
    ++ " does not match recomputed usage " ++ recomputed.debug))

end PreviewUsage

/-! The decimal texts of a number. -/

/-- At least one digit. -/
def skipDigits (text : List Char) : Option (List Char) :=
  if text.head?.any Char.isDigit then some (text.dropWhile Char.isDigit) else none

def skipSign : List Char → List Char
  | '-' :: rest => rest
  | text => text

def skipInteger : List Char → Option (List Char)
  | '0' :: rest => if rest.head?.any Char.isDigit then none else some rest
  | text => skipDigits text

def skipFraction : List Char → Option (List Char)
  | '.' :: rest => skipDigits rest
  | text => some text

def skipExponentSign : List Char → List Char
  | '+' :: rest => rest
  | '-' :: rest => rest
  | text => text

def skipExponent : List Char → Option (List Char)
  | 'e' :: rest => skipDigits (skipExponentSign rest)
  | 'E' :: rest => skipDigits (skipExponentSign rest)
  | text => some text

def validFiniteNumberString (value : String) : Bool :=
  ((skipInteger (skipSign value.toList)).bind skipFraction).bind skipExponent = some []

def validateNumberString (value : String) : Except ValidationError Unit :=
  ensure (value = "NaN" ∨ value = "+Inf" ∨ value = "-Inf" ∨ validFiniteNumberString value)
    (invalidPreview "numeric payload has a non-canonical number string")

def numberStringIsZero (value : String) : Bool :=
  validFiniteNumberString value &&
    (value.toList.takeWhile fun c => !(c = 'e' || c = 'E')).all fun c => c = '-' || c = '0' || c = '.'

/-! The checks of one exact value. -/

def requireExactRealClass (value : ExactValue) (className : String) : Except ValidationError Unit :=
  ensure (value.className = className ∧ value.complex = false) (invalidPreview
    ("exact " ++ className ++ " value requires class " ++ className ++ " and complex false"))

def validateExactKindMetadata (value : ExactValue) : Except ValidationError Unit := do
  requireNonEmpty "class" value.className
  match value.payload with
  | .numeric _ _ =>
    ensure (value.className = "double" ∨ value.className = "single")
      (invalidPreview "numeric exact values require class double or single")
  | .integer _ =>
    ensure (IntegerClass.parse value.className).isSome
      (invalidPreview "integer exact value has an unsupported fixed-width class")
  | .logical _ => requireExactRealClass value "logical"
  | .char _ => requireExactRealClass value "char"
  | .string _ _ => requireExactRealClass value "string"
  | .cell _ => requireExactRealClass value "cell"
  | .struct _ _ => requireExactRealClass value "struct"
  | .table _ _ => requireExactRealClass value "table"

def validateIntegerComponent (component : String) (integerClass : IntegerClass)
    : Except ValidationError Unit :=
  checkIntegerComponent
    (invalidPreview "integer component is non-canonical or has invalid signedness")
    (invalidPreview "integer component is outside the transport range")
    (invalidPreview "integer component is outside its fixed-width class range") component integerClass

def validAsciiFieldName (field : String) : Bool :=
  match field.toList with
  | [] => false
  | c :: cs => c.isAlpha && cs.all fun c => c.isAlphanum || c = '_'

def encodeUtf16Count (s : String) : Nat :=
  (s.toList.map fun c => if c.toNat < 0x10000 then 1 else 2).sum

def validateFields (fields : List String) (usage : PreviewUsage) (limits : AggregateLimits)
    : Except ValidationError PreviewUsage := do
  let (_, usage) ← fields.foldlM (fun ((unique, usage) : List String × PreviewUsage) field => do
    ensure (validAsciiFieldName field) ⟨"workspace.unsupportedValue",
      "struct field name is outside the accepted ASCII identifier subset"⟩
    ensure (field ∉ unique) (invalidPreview "struct field names must be unique")
    let codeUnits ← usizeToSafe field.utf8ByteSize "field name length"
    let usage ← usage.chargeCodeUnits codeUnits limits
    return (field :: unique, usage)) ([], usage)
  return usage

def validateTableSchema (variableNames : List String) (width : Nat) (usage : PreviewUsage)
    (limits : AggregateLimits) : Except ValidationError PreviewUsage := do
  validatePayloadCount variableNames.length width "variableNames"
  let (_, usage) ← variableNames.foldlM (fun ((unique, usage) : List String × PreviewUsage) name => do
    requireNonEmpty "variableNames entry" name
    ensure (name ∉ unique) (invalidPreview "table variable names must be unique")
    let codeUnits ← usizeToSafe (encodeUtf16Count name) "variable name code units"
    let usage ← usage.chargeCodeUnits codeUnits limits
    return (name :: unique, usage)) ([], usage)
  return usage

def fieldSetMismatch : ValidationError := invalidPreview "struct record field set mismatch"

def validateRecord (record : StructRecord) (fields : List String) : Except ValidationError Unit := do
  ensure (record.entries.length = fields.length) fieldSetMismatch
  let _ ← record.entries.foldlM (fun (keys : List String) entry => do
    ensure (entry.1 ∉ keys ∧ entry.1 ∈ fields) fieldSetMismatch
    return entry.1 :: keys) []
  return ()

/-- Real storage has zero imaginary components only, complex storage at least one other. -/
def validateImaginary (complex : Bool) (real complexStorage : ValidationError)
    (check : String → Except ValidationError Unit) (isZero : String → Bool) (imaginary : List String)
    : Except ValidationError Unit := do
  imaginary.forM fun component => do
    check component
    ensure (complex ∨ component = "0") real
  ensure (complex → imaginary.any fun component => !isZero component) complexStorage

def childDepth (depth : Nat) : Except ValidationError Nat :=
  okOr (checkedAdd 64 depth 1) (previewLimit "exact depth overflows")

def validateExactPayload (value : ExactValue) (depth : Nat) (usage : PreviewUsage)
    (limits : AggregateLimits) : Except ValidationError PreviewUsage :=
  match value.payload with
  | .numeric real imag => do
    validatePayloadCount real.length value.numel "real"
    validatePayloadCount imag.length value.numel "imag"
    real.forM validateNumberString
    validateImaginary value.complex
      (invalidPreview "real numeric storage requires every imag component to be exactly 0")
      (invalidPreview "complex numeric storage requires a nonzero imaginary component")
      validateNumberString numberStringIsZero imag
    return usage
  | .integer integer => do
    validatePayloadCount integer.length value.numel "integer"
    let integerClass ← okOr (IntegerClass.parse value.className) (invalidPreview "invalid integer class")
    integer.forM fun component => do
      validateIntegerComponent component.real integerClass
      validateIntegerComponent component.imaginary integerClass
      ensure (value.complex ∨ component.imaginary = "0")
        (invalidPreview "real integer storage requires every imaginary component to be 0")
    ensure (value.complex → integer.any fun component => component.imaginary ≠ "0")
      (invalidPreview "complex integer storage requires a nonzero imaginary component")
    return usage
  | .logical logical => do
    validatePayloadCount logical.length value.numel "logical"
    return usage
  | .char codeUnits => do
    validatePayloadCount codeUnits.length value.numel "code_units"
    let count ← usizeToSafe codeUnits.length "code_units.length"
    usage.chargeCodeUnits count limits
  | .string stringCodeUnits missing => do
    validatePayloadCount stringCodeUnits.length value.numel "string_code_units"
    validatePayloadCount missing.length value.numel "missing"
    (stringCodeUnits.zip missing).foldlM (fun (usage : PreviewUsage) (codeUnits, isMissing) => do
      ensure (isMissing → codeUnits = [])
        (invalidPreview "missing string elements require empty code-unit arrays")
      let count ← usizeToSafe codeUnits.length "string element code units"
      ensure (count ≤ limits.maxStringElementCodeUnits)
        (previewLimit "string element exceeds maxStringElementCodeUnits")
      usage.chargeCodeUnits count limits) usage
  | .cell items => do
    validatePayloadCount items.length value.numel "items"
    let _ ← childDepth depth
    return usage
  | .struct fields records => do
    validatePayloadCount records.length value.numel "records"
    let usage ← validateFields fields usage limits
    let _ ← childDepth depth
    records.reverse.forM fun record => do
      validateRecord record fields
      fields.reverse.forM fun field => do
        let _ ← okOr (record.get field) fieldSetMismatch
        return ()
    return usage
  | .table variableNames tableVariables => do
    let height := value.size.getD 0 0
    let width := value.size.getD 1 0
    let usage ← validateTableSchema variableNames width usage limits
    validatePayloadCount tableVariables.length width "variables"
    let _ ← childDepth depth
    tableVariables.reverse.forM fun tableVariable =>
      ensure (tableVariable.size.head? = some height)
        (invalidPreview "table variable first dimension must equal table height")
    return usage

def validateExactNode (value : ExactValue) (depth : Nat) (usage : PreviewUsage)
    (limits : AggregateLimits) : Except ValidationError PreviewUsage := do
  validateExactKindMetadata value
  ensure (depth ≤ limits.maxAggregateDepth)
    ⟨"workspace.previewDepth", "exact value exceeds the negotiated depth limit"⟩
  let product ← validateShape value.size "size"
  validateSafeJsonInteger "ndims" value.ndims
  validateSafeJsonInteger "numel" value.numel
  let ndims ← usizeToSafe value.size.length "size.length"
  ensure (value.ndims = ndims ∧ value.numel = product)
    (invalidPreview "ndims and numel must match the exact value shape")
  ensure (value.numel ≤ limits.maxPreviewElements)
    (previewLimit "exact node exceeds maxPreviewElements")
  let usage ← usage.chargeNode value.numel depth limits
  validateExactPayload value depth usage limits

/-- The work stack of the source visits a value before the values inside of it, and these in order. -/
def validateExactTree (limits : AggregateLimits) (value : ExactValue) (depth : Nat)
    (usage : PreviewUsage) : Except ValidationError PreviewUsage := do
  let usage ← validateExactNode value depth usage limits
  value.payload.children.attach.foldlM (fun usage child =>
    validateExactTree limits child.1 (depth + 1) usage) usage
termination_by sizeOf value
decreasing_by exact ExactValue.sizeOf_lt_of_mem_children child.2

/-! The previews of cells, structs and tables. -/

inductive AggregatePreview where
  | cell (dimensions : List Nat) (selectedRange : MatrixRange) (items : List ExactValue)
      (truncation : PreviewTruncation) (usage : PreviewUsage)
  | struct (dimensions : List Nat) (selectedRange : MatrixRange) (fields : List String)
      (records : List StructRecord) (truncation : PreviewTruncation) (usage : PreviewUsage)
  | table (dimensions : List Nat) (selectedRange : MatrixRange) (variableNames : List String)
      (tableVariables : List ExactValue) (truncation : PreviewTruncation) (usage : PreviewUsage)

def rangeOverflows : ValidationError := invalidPreview "selected range end overflows"

/-- The shape, the selection and the number of returned elements of a cell or struct preview. -/
def validateAggregateShape (dimensions : List Nat) (selectedRange : MatrixRange)
    (truncation : PreviewTruncation) (returned : Nat) (field : String) (limits : AggregateLimits)
    (elementLimit : Nat) : Except ValidationError Unit := do
  let _ ← validateShape dimensions "dimensions"
  selectedRange.validate
  ensure (dimensions.length = selectedRange.start.length)
    (invalidPreview "dimensions and selectedRange must have the same rank")
  let selectedCount ← checkedProductSafe selectedRange.size "selectedRange.size"
  if selectedCount ≠ 0 then
    validateSelectionEnds rangeOverflows
      (invalidPreview "nonempty selected range exceeds full dimensions") selectedRange dimensions
  let returned ← usizeToSafe returned field
  let effectiveLimit := min elementLimit limits.maxPreviewElements
  ensure (returned ≤ effectiveLimit) (previewLimit
    ("returned top-level element count exceeds effective limit " ++ toString effectiveLimit))
  validateSafeJsonInteger "truncation.omittedElements" truncation.omittedElements
  let represented ← checkedAddSafe returned truncation.omittedElements "returned plus omitted elements"
  ensure (represented = selectedCount ∧
      truncation.truncated = decide (truncation.omittedElements ≠ 0))
    ⟨"preview_truncation", "returned prefix and truncation do not match selectedRange.size"⟩

/-- What the elements of the preview use. -/
def chargeItems (limits : AggregateLimits) (items : List ExactValue) (usage : PreviewUsage)
    : Except ValidationError PreviewUsage :=
  items.foldlM (fun usage item => do
    let usage ← usage.chargeRootElement limits
    validateExactTree limits item 1 usage) usage

def chargeRecords (limits : AggregateLimits) (fields : List String) (records : List StructRecord)
    (usage : PreviewUsage) : Except ValidationError PreviewUsage :=
  records.foldlM (fun usage record => do
    validateRecord record fields
    let usage ← usage.chargeRootElement limits
    fields.foldlM (fun usage field => do
      let value ← okOr (record.get field) fieldSetMismatch
      validateExactTree limits value 1 usage) usage) usage

def chargeVariables (limits : AggregateLimits) (selectedRows : Nat) (tableVariables : List ExactValue)
    (usage : PreviewUsage) : Except ValidationError PreviewUsage :=
  tableVariables.foldlM (fun usage tableVariable => do
    ensure (tableVariable.size.head? = some selectedRows)
      (invalidPreview "table preview variable first dimension must equal selected row count")
    let usage ← usage.chargeRootElement limits
    validateExactTree limits tableVariable 1 usage) usage

/-- The shape, the selection and the number of returned variables of a table preview. -/
def validateTableShape (dimensions : List Nat) (selectedRange : MatrixRange)
    (variableNames : List String) (tableVariables : List ExactValue) (truncation : PreviewTruncation)
    (limits : AggregateLimits) (elementLimit : Nat) : Except ValidationError Nat := do
  let _ ← validateShape dimensions "dimensions"
  ensure (dimensions.length = 2) (invalidPreview "table dimensions must be exactly [rows, variables]")
  selectedRange.validate
  ensure (selectedRange.start.length = 2)
    (invalidPreview "table selectedRange must be exactly [rows, variables]")
  ((selectedRange.start.zip selectedRange.size).zip dimensions).forM fun ((start, size), dimension) =>
    if size = 0 then
      return ()
    else
      validateSelectionEnd rangeOverflows
        (invalidPreview "nonempty selected range exceeds full table dimensions") start size dimension
  let returned ← usizeToSafe tableVariables.length "variables.length"
  let names ← usizeToSafe variableNames.length "variableNames.length"
  ensure (names = returned)
    (invalidPreview "table variableNames and variables counts must match")
  let effectiveLimit := min elementLimit limits.maxPreviewElements
  ensure (returned ≤ effectiveLimit) (previewLimit
    ("returned table variable count exceeds effective limit " ++ toString effectiveLimit))
  validateSafeJsonInteger "truncation.omittedElements" truncation.omittedElements
  let represented ← checkedAddSafe returned truncation.omittedElements
    "returned plus omitted table variables"
  ensure (represented = selectedRange.size.getD 1 0 ∧
      truncation.truncated = decide (truncation.omittedElements ≠ 0))
    ⟨"preview_truncation",
      "returned variable prefix and truncation do not match selectedRange variable extent"⟩
  return returned

namespace AggregatePreview

def selectedRange : AggregatePreview → MatrixRange
  | .cell _ selectedRange _ _ _ => selectedRange
  | .struct _ selectedRange _ _ _ _ => selectedRange
  | .table _ selectedRange _ _ _ _ => selectedRange

def validateWithElementLimit (preview : AggregatePreview) (limits : AggregateLimits)
    (elementLimit : Nat) : Except ValidationError Unit := do
  limits.validate
  match preview with
  | .cell dimensions selectedRange items truncation reported =>
    validateAggregateShape dimensions selectedRange truncation items.length "items.length" limits
      elementLimit
    let usage ← PreviewUsage.root limits
    let usage ← chargeItems limits items usage
    PreviewUsage.validateReported reported usage
  | .struct dimensions selectedRange fields records truncation reported =>
    validateAggregateShape dimensions selectedRange truncation records.length "records.length" limits
      elementLimit
    let usage ← PreviewUsage.root limits
    let usage ← validateFields fields usage limits
    let usage ← chargeRecords limits fields records usage
    PreviewUsage.validateReported reported usage
  | .table dimensions selectedRange variableNames tableVariables truncation reported =>
    let returned ← validateTableShape dimensions selectedRange variableNames tableVariables truncation
      limits elementLimit
    let usage ← PreviewUsage.root limits
    let usage ← validateTableSchema variableNames returned usage limits
    let usage ← chargeVariables limits (selectedRange.size.getD 0 0) tableVariables usage
    PreviewUsage.validateReported reported usage

def validate (preview : AggregatePreview) (limits : AggregateLimits) : Except ValidationError Unit :=
  preview.validateWithElementLimit limits limits.maxPreviewElements

def validateForRequest (preview : AggregatePreview) (limits : AggregateLimits)
    (requestMaxElements : Nat) : Except ValidationError Unit := do
  validateRequestElementBound requestMaxElements limits.maxPreviewElements
  preview.validateWithElementLimit limits requestMaxElements

end AggregatePreview

inductive InspectPreview where
  | matrix (preview : MatrixPreview)
  | aggregate (preview : AggregatePreview)

namespace InspectPreview

def selectedRange : InspectPreview → MatrixRange
  | .matrix preview => preview.selectedRange
  | .aggregate preview => preview.selectedRange

def validate (preview : InspectPreview) (limits : AggregateLimits) : Except ValidationError Unit :=
  match preview with
  | .matrix preview => preview.validate limits.previewLimits
  | .aggregate preview => preview.validate limits

def validateForRequest (preview : InspectPreview) (limits : AggregateLimits)
    (requestMaxElements : Nat) : Except ValidationError Unit :=
  match preview with
  | .matrix preview => preview.validateForRequest limits.previewLimits requestMaxElements
  | .aggregate preview => preview.validateForRequest limits requestMaxElements

end InspectPreview

end Protocol
end OpenMat
