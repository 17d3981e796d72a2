import OpenMat.Indexing.Selection

/-!
This module contains indexing and indexed assignment: what is gathered at the selected offsets, what is
written to them, and the shortcuts for a single scalar index.
-/

namespace OpenMat
namespace Indexing

open Arrays (Shape DenseArray)
open Values (F32 F64 ComplexValue CharCodeUnit IntegerType IntegerArrayData ArrayData)

variable {P : Payloads} {α : Type}

/-- `f64::from`. -/
def doubleOfLogical (value : Bool) : F64 := if value then 0x3ff0000000000000 else 0

/-! What numeric operations see of a value. -/

inductive NumericView where
  | logicalScalar (value : Bool)
  | realScalar (value : F64)
  | complexScalar (value : ComplexValue F64)
  | logicalArray (array : DenseArray Bool)
  | realArray (array : DenseArray F64)
  | complexArray (array : DenseArray (ComplexValue F64))

namespace NumericView

def new (operation : String) : Value P → Except RuntimeErrorKind NumericView
  | .logical value => .ok (.logicalScalar value)
  | .double value => .ok (.realScalar value)
  | .complex value => .ok (.complexScalar value)
  | .array (.logical array) => .ok (.logicalArray array)
  | .array (.f64 array) => .ok (.realArray array)
  | .array (.complexF64 array) => .ok (.complexArray array)
  | other => .error (.array (.invalidOperand operation other.kind))

def shape : NumericView → Shape
  | .logicalScalar _ | .realScalar _ | .complexScalar _ => .scalar
  | .logicalArray array => array.shape
  | .realArray array => array.shape
  | .complexArray array => array.shape

def numel (view : NumericView) : Nat := view.shape.numel

def isComplex : NumericView → Bool
  | .complexScalar _ | .complexArray _ => true
  | .logicalScalar _ | .realScalar _ | .logicalArray _ | .realArray _ => false

def isLogical : NumericView → Bool
  | .logicalScalar _ | .logicalArray _ => true
  | .realScalar _ | .complexScalar _ | .realArray _ | .complexArray _ => false

def complexAt (view : NumericView) (offset : Nat) : Option (ComplexValue F64) :=
  match view with
  | .logicalScalar value => if offset = 0 then some ⟨doubleOfLogical value, 0⟩ else none
  | .realScalar value => if offset = 0 then some ⟨value, 0⟩ else none
  | .complexScalar value => if offset = 0 then some value else none
  | .logicalArray array => array.data[offset]?.map fun value => ⟨doubleOfLogical value, 0⟩
  | .realArray array => array.data[offset]?.map fun value => ⟨value, 0⟩
  | .complexArray array => array.data[offset]?

def realAt (view : NumericView) (offset : Nat) : Option F64 :=
  (view.complexAt offset).bind fun value => if value.im.isZero then some value.re else none

def logicalAt (view : NumericView) (offset : Nat) : Option Bool :=
  match view with
  | .logicalScalar value => if offset = 0 then some value else none
  | .logicalArray array => array.data[offset]?
  | _ => none

def complexElement (view : NumericView) (offset : Nat) : Except RuntimeErrorKind (ComplexValue F64) :=
  okOr (view.complexAt offset) .panics

def realElement (view : NumericView) (offset : Nat) : Except RuntimeErrorKind F64 :=
  okOr (view.realAt offset) .panics

end NumericView

inductive ArrayView where
  | numeric (view : NumericView)
  | singleReal (array : DenseArray F32)
  | singleComplex (array : DenseArray (ComplexValue F32))
  | char (array : DenseArray CharCodeUnit)
  | integer (integers : IntegerArrayData)
  | string (value : StringValue)

namespace ArrayView

def new (operation : String) : Value P → Except RuntimeErrorKind ArrayView
  | .array (.f32 array) => .ok (.singleReal array)
  | .array (.complexF32 array) => .ok (.singleComplex array)
  | .array (.char array) => .ok (.char array)
  | .array (.integer integers) => .ok (.integer integers)
  | .string value => .ok (.string value)
  | value => (NumericView.new operation value).map .numeric

def shape : ArrayView → Shape
  | .numeric view => view.shape
  | .singleReal array => array.shape
  | .singleComplex array => array.shape
  | .char array => array.shape
  | .integer integers => integers.shape
  | .string value => value.shape

def dimensions (view : ArrayView) : List Nat := view.shape.dimensions

end ArrayView

/-! Indexing. -/

def elementAt (array : DenseArray α) (offset : Nat) : Except RuntimeErrorKind α :=
  okOr array.data[offset]? .panics

/-- The loop over the selected offsets. -/
def gatherElements (source : Nat → Except RuntimeErrorKind α) (cancelled : Bool) (offsets : List Nat)
    : Except RuntimeErrorKind (List α) :=
  offsets.zipIdx.mapM fun (offset, position) => do
    checkCancelled cancelled position
    source offset

def withShape (shape : Shape) (values : List α) : Except RuntimeErrorKind (DenseArray α) :=
  (DenseArray.fromVec shape values).mapError fun _ => arraySizeError

def gatherExactArray (array : DenseArray α) (selection : ResolvedSelection) (cancelled : Bool)
    : Except RuntimeErrorKind (DenseArray α) := do
  checkCancelled cancelled 0
  let output ← gatherElements (elementAt array) cancelled selection.offsets
  withShape selection.shape output

/-- The token is read again for each block of values, which it does not change. -/
def filledOutput (length : Nat) (value : α) (cancelled : Bool) : Except RuntimeErrorKind (List α) := do
  checkCancelled cancelled 0
  return List.replicate length value

def gatherFilled (value : α) (selection : ResolvedSelection) (cancelled : Bool)
    : Except RuntimeErrorKind (DenseArray α) := do
  let output ← filledOutput selection.offsets.length value cancelled
  withShape selection.shape output

/-- A single number is a scalar. -/
def gather (view : NumericView) (selection : ResolvedSelection) (cancelled : Bool)
    : Except RuntimeErrorKind (Value P) :=
  match selection.offsets with
  | [offset] =>
    match view with
    | .logicalScalar value => .ok (.logical value)
    | .realScalar value => .ok (.double value)
    | .complexScalar value => .ok (.complex value)
    | .logicalArray array => (elementAt array offset).map .logical
    | .realArray array => (elementAt array offset).map .double
    | .complexArray array => (elementAt array offset).map .complex
  | _ =>
    match view with
    | .logicalScalar value => (gatherFilled value selection cancelled).map (.array ∘ .logical)
    | .realScalar value => (gatherFilled value selection cancelled).map (.array ∘ .f64)
    | .complexScalar value => (gatherFilled value selection cancelled).map (.array ∘ .complexF64)
    | .logicalArray array => (gatherExactArray array selection cancelled).map (.array ∘ .logical)
    | .realArray array => (gatherExactArray array selection cancelled).map (.array ∘ .f64)
    | .complexArray array => (gatherExactArray array selection cancelled).map (.array ∘ .complexF64)

def StringValue.elementOrPanic (value : StringValue) (offset : Nat) : Except RuntimeErrorKind StringElement :=
  okOr (value.element offset) .panics

def gatherString (value : StringValue) (selection : ResolvedSelection) (cancelled : Bool)
    : Except RuntimeErrorKind StringValue :=
  match selection.offsets with
  | [offset] => (value.elementOrPanic offset).map .scalar
  | _ => do
    checkCancelled cancelled 0
    let output ← gatherElements value.elementOrPanic cancelled selection.offsets
    let array ← withShape selection.shape output
    return .array array

def gatherValue (view : ArrayView) (selection : ResolvedSelection) (cancelled : Bool)
    : Except RuntimeErrorKind (Value P) :=
  match view with
  | .numeric view => gather view selection cancelled
  | .singleReal array => (gatherExactArray array selection cancelled).map (.array ∘ .f32)
  | .singleComplex array => (gatherExactArray array selection cancelled).map (.array ∘ .complexF32)
  | .char array => (gatherExactArray array selection cancelled).map (.array ∘ .char)
  | .integer (.real type array) =>
    (gatherExactArray array selection cancelled).map fun array => .array (.integer (.real type array))
  | .integer (.complex type array) =>
    (gatherExactArray array selection cancelled).map fun array => .array (.integer (.complex type array))
  | .string value => (gatherString value selection cancelled).map .string

/-- Sparse arrays are indexed in their own way. -/
def index (indexSparse : P.sparse → List (IndexInput P) → Bool → Except RuntimeErrorKind (Value P))
    (target : Value P) (arguments : List (IndexInput P)) (cancelled : Bool)
    : Except RuntimeErrorKind (Value P) :=
  match target with
  | .sparse sparse => indexSparse sparse arguments cancelled
  | target => do
    let view ← ArrayView.new "indexing" target
    let resolved ← resolveIndexSelection view.dimensions arguments cancelled
    gatherValue view resolved cancelled

/-! Indexed assignment. -/

def assignmentLength (supplied selected : Nat) : Except RuntimeErrorKind Unit :=
  ensure (supplied = 1 ∨ supplied = selected) (.array (.assignmentSizeMismatch selected supplied))

/-- An access beyond the end panics. -/
def setElement (array : DenseArray α) (oneBased : Nat) (value : α) : Except RuntimeErrorKind (DenseArray α) :=
  (array.setLinear oneBased value).mapError fun _ => .panics

/-- The loop over the selected offsets. A scalar is written to all of them. -/
def writeElements (source : Nat → Except RuntimeErrorKind α) (supplied : Nat) (cancelled : Bool)
    (array : DenseArray α) (offsets : List Nat)
    : Except RuntimeErrorKind (DenseArray α) :=
  offsets.zipIdx.foldlM (fun array (offset, position) => do
    checkCancelled cancelled position
    let value ← source (if supplied = 1 then 0 else position)
    setElement array (offset + 1) value) array

/-- The loop over the elements. -/
def promote (zero : α) (array : DenseArray α) (cancelled : Bool)
    : Except RuntimeErrorKind (DenseArray (ComplexValue α)) := do
  checkCancelled cancelled 0
  let values ← array.data.zipIdx.mapM fun (value, position) => do
    checkCancelled cancelled position
    return (⟨value, zero⟩ : ComplexValue α)
  withShape array.shape values

def writeSame (target supplied : DenseArray α) (selection : ResolvedSelection) (cancelled : Bool)
    : Except RuntimeErrorKind (DenseArray α) :=
  writeElements (elementAt supplied) supplied.shape.numel cancelled target selection.offsets

def writePromoted (zero : α) (target : DenseArray α) (supplied : DenseArray (ComplexValue α))
    (selection : ResolvedSelection) (cancelled : Bool)
    : Except RuntimeErrorKind (DenseArray (ComplexValue α)) := do
  let assigned ← promote zero target cancelled
  writeSame assigned supplied selection cancelled

def writeRealIntoComplex (zero : α) (target : DenseArray (ComplexValue α)) (supplied : DenseArray α)
    (selection : ResolvedSelection) (cancelled : Bool)
    : Except RuntimeErrorKind (DenseArray (ComplexValue α)) :=
  writeElements (fun source => (elementAt supplied source).map fun value => ⟨value, zero⟩)
    supplied.shape.numel cancelled target selection.offsets

/-- The lengths are compared first, and nothing is written where nothing is selected. -/
def writeSelected (supplied : Nat) (offsets : List Nat) (target : α) (write : Except RuntimeErrorKind α)
    : Except RuntimeErrorKind α := do
  assignmentLength supplied offsets.length
  if offsets = [] then
    return target
  write

def assignExactArray (target supplied : DenseArray α) (selection : ResolvedSelection) (cancelled : Bool)
    : Except RuntimeErrorKind (DenseArray α) :=
  writeSelected supplied.shape.numel selection.offsets target (writeSame target supplied selection cancelled)

/-- The writes to an array of single precision. -/
def writeSingle (target supplied : ArrayData) (selection : ResolvedSelection) (cancelled : Bool)
    : Except RuntimeErrorKind ArrayData :=
  match target, supplied with
  | .f32 target, .f32 supplied => (writeSame target supplied selection cancelled).map .f32
  | .f32 target, .complexF32 supplied => (writePromoted 0 target supplied selection cancelled).map .complexF32
  | .complexF32 target, .f32 supplied =>
    (writeRealIntoComplex 0 target supplied selection cancelled).map .complexF32
  | .complexF32 target, .complexF32 supplied => (writeSame target supplied selection cancelled).map .complexF32
  | _, _ => .error .panics

def assignSingleArray (target supplied : ArrayData) (selection : ResolvedSelection) (cancelled : Bool)
    : Except RuntimeErrorKind ArrayData :=
  writeSelected supplied.shape.numel selection.offsets target (writeSingle target supplied selection cancelled)

/-- The elements, if they are of the class. -/
def integersOf (type : IntegerType)
    : IntegerArrayData → Option (DenseArray type.Element ⊕ DenseArray (ComplexValue type.Element))
  | .real type' array => if h : type' = type then some (.inl (h ▸ array)) else none
  | .complex type' array => if h : type' = type then some (.inr (h ▸ array)) else none

def integerZero (type : IntegerType) : type.Element := ⟨0, by cases type <;> decide⟩

def mixedIntegerClasses : RuntimeErrorKind :=
  .array (.invalidOperand "mixed integer-class indexed assignment" .integer)

/-- The writes to an array of integers. -/
def writeInteger (target supplied : IntegerArrayData) (selection : ResolvedSelection) (cancelled : Bool)
    : Except RuntimeErrorKind IntegerArrayData :=
  match target with
  | .real type target =>
    match integersOf type supplied with
    | some (.inl supplied) => (writeSame target supplied selection cancelled).map (.real type)
    | some (.inr supplied) =>
      (writePromoted (integerZero type) target supplied selection cancelled).map (.complex type)
    | none => .error mixedIntegerClasses
  | .complex type target =>
    match integersOf type supplied with
    | some (.inl supplied) =>
      (writeRealIntoComplex (integerZero type) target supplied selection cancelled).map (.complex type)
    | some (.inr supplied) => (writeSame target supplied selection cancelled).map (.complex type)
    | none => .error mixedIntegerClasses

def assignIntegerArray (target supplied : IntegerArrayData) (selection : ResolvedSelection) (cancelled : Bool)
    : Except RuntimeErrorKind IntegerArrayData := do
  assignmentLength supplied.shape.numel selection.offsets.length
  if selection.offsets = [] then
    ensure (target.className = supplied.className) mixedIntegerClasses
    return target
  writeInteger target supplied selection cancelled

def StringValue.owned : StringValue → DenseArray StringElement
  | .scalar element => scalarArray element
  | .array strings => strings

def indexAssignString (target : StringValue) (selection : ResolvedSelection) (value : Value P)
    (cancelled : Bool)
    : Except RuntimeErrorKind StringValue :=
  match value with
  | .string supplied =>
    writeSelected supplied.numel selection.offsets target
      ((writeElements supplied.elementOrPanic supplied.numel cancelled target.owned selection.offsets).map .array)
  | value => .error (.array (.invalidOperand "string indexed assignment" value.kind))

def ownedArray : Value P → Except RuntimeErrorKind ArrayData
  | .logical value => .ok (.logical (scalarArray value))
  | .double value => .ok (.f64 (scalarArray value))
  | .complex value => .ok (.complexF64 (scalarArray value))
  | .array array => .ok array
  | other => .error (.array (.invalidOperand "indexed assignment" other.kind))

def ownedAssignmentArray (target : Value P) (complex cancelled : Bool) : Except RuntimeErrorKind ArrayData := do
  match ← ownedArray target with
  | .f64 real => if complex then (promote 0 real cancelled).map .complexF64 else return .f64 real
  | assigned => return assigned

def nonzero (value : ComplexValue F64) : Bool := !value.re.isZero || !value.im.isZero

/-- The writes to an array that is owned. A number that is not real is not written to a real array. -/
def assignNumeric (assigned : ArrayData) (supplied : NumericView) (selection : ResolvedSelection)
    (cancelled : Bool)
    : Except RuntimeErrorKind ArrayData :=
  match assigned with
  | .f64 array =>
    (writeElements supplied.realElement supplied.numel cancelled array
      selection.offsets).map .f64
  | .complexF64 array =>
    (writeElements supplied.complexElement supplied.numel cancelled array
      selection.offsets).map .complexF64
  | .logical array =>
    (writeElements (fun source => (supplied.complexElement source).map nonzero) supplied.numel
      cancelled array selection.offsets).map .logical
  | _ => .error .panics

def indexAssignNumeric (target : Value P) (selection : ResolvedSelection) (value : Value P) (cancelled : Bool)
    : Except RuntimeErrorKind (Value P) := do
  let supplied ← NumericView.new "indexed assignment value" value
  writeSelected supplied.numel selection.offsets target (do
    let owned ← ownedAssignmentArray target supplied.isComplex cancelled
    let assigned ← assignNumeric owned supplied selection cancelled
    return .array assigned)

def scalarLinearIndex (arguments : List (IndexInput P)) (cancelled : Bool) : Except RuntimeErrorKind Nat := do
  checkCancelled cancelled 0
  match arguments with
  | [] => .error (invalidIndex 0 .noSubscripts)
  | [.value value] => do
    let view ← okOr (IndexView.new value) (invalidIndex 0 .nonNumeric)
    ensure (¬ (view.numel ≠ 1 ∨ view.isLogical = true)) (invalidIndex 0 .nonInteger)
    checkedIndexAt view 0 0 u64Max
  | [.colon] => .error (invalidIndex 0 .nonNumeric)
  | _ => .error (invalidIndex 1 .nonNumeric)

def requireScalar (supplied : Nat) : Except RuntimeErrorKind Unit :=
  ensure (supplied = 1) (.array (.assignmentSizeMismatch 1 supplied))

/-- A row of zeros up to the element at the index. -/
def grownRow (index : Nat) (zero value : α) (cancelled : Bool) : Except RuntimeErrorKind (DenseArray α) := do
  let values ← filledOutput index zero cancelled
  let shape ← (Shape.new [1, index]).mapError fun _ => arraySizeError
  withShape shape (values.set (index - 1) value)

def growUndefinedExact (index : Nat) (zero : α) (supplied : DenseArray α) (cancelled : Bool)
    : Except RuntimeErrorKind (DenseArray α) := do
  requireScalar supplied.shape.numel
  let value ← elementAt supplied 0
  grownRow index zero value cancelled

def growUndefinedNumeric (arguments : List (IndexInput P)) (value : Value P) (cancelled : Bool)
    : Except RuntimeErrorKind (Value P) := do
  let index ← scalarLinearIndex arguments cancelled
  match value with
  | .array (.char array) => (growUndefinedExact index 0 array cancelled).map (.array ∘ .char)
  | .array (.integer (.real type array)) =>
    (growUndefinedExact index (integerZero type) array cancelled).map (.array ∘ .integer ∘ .real type)
  | .array (.integer (.complex type array)) =>
    (growUndefinedExact index ⟨integerZero type, integerZero type⟩ array cancelled).map
      (.array ∘ .integer ∘ .complex type)
  | value => do
    let supplied ← NumericView.new "indexed assignment value" value
    requireScalar supplied.numel
    if supplied.isLogical then
      let source ← okOr (supplied.logicalAt 0) .panics
      (grownRow index false source cancelled).map (.array ∘ .logical)
    else if supplied.isComplex then
      let source ← supplied.complexElement 0
      (grownRow index ⟨0, 0⟩ source cancelled).map (.array ∘ .complexF64)
    else
      let source ← supplied.realElement 0
      (grownRow index 0 source cancelled).map (.array ∘ .f64)

def charOf : Value P → Option (DenseArray CharCodeUnit)
  | .array (.char array) => some array
  | _ => none

def integerOf : Value P → Option IntegerArrayData
  | .array (.integer integers) => some integers
  | _ => none

def singleOf : Value P → Option ArrayData
  | .array (.f32 array) => some (.f32 array)
  | .array (.complexF32 array) => some (.complexF32 array)
  | _ => none

def indexAssignSingle (target : ArrayData) (selection : ResolvedSelection) (value : Value P) (cancelled : Bool)
    : Except RuntimeErrorKind (Value P) := do
  let supplied ← okOr (singleOf value) (.array (.invalidOperand "single indexed assignment" value.kind))
  let assigned ← assignSingleArray target supplied selection cancelled
  return .array assigned

/-- The assignment to the selected offsets. -/
def assignSelected (target : Value P) (selection : ResolvedSelection) (value : Value P) (cancelled : Bool)
    : Except RuntimeErrorKind (Value P) :=
  match target with
  | .string target => (indexAssignString target selection value cancelled).map .string
  | .array (.char target) => do
    let supplied ← okOr (charOf value) (.array (.invalidOperand "char indexed assignment" value.kind))
    let assigned ← assignExactArray target supplied selection cancelled
    return .array (.char assigned)
  | .array (.integer target) => do
    let supplied ← okOr (integerOf value) (.array (.invalidOperand "integer indexed assignment" value.kind))
    let assigned ← assignIntegerArray target supplied selection cancelled
    return .array (.integer assigned)
  | .array (.f32 target) => indexAssignSingle (.f32 target) selection value cancelled
  | .array (.complexF32 target) => indexAssignSingle (.complexF32 target) selection value cancelled
  | target => indexAssignNumeric target selection value cancelled

def indexAssign (target : Value P) (arguments : List (IndexInput P)) (value : Value P) (cancelled : Bool)
    : Except RuntimeErrorKind (Value P) :=
  match target with
  | .nothing => growUndefinedNumeric arguments value cancelled
  | target => do
    let view ← ArrayView.new "indexed assignment" target
    let resolved ← resolveIndexSelection view.dimensions arguments cancelled
    assignSelected target resolved value cancelled

/-! The shortcuts for one scalar index. -/

def isDirectScalarIndex (value : Value P) : Bool :=
  (IndexView.new value).any fun view => view.numel = 1 && !view.isLogical

def checkedScalarIndexValue (value : Value P) (argument extent : Nat) (cancelled : Bool)
    : Except RuntimeErrorKind Nat := do
  checkCancelled cancelled 0
  let view ← okOr (IndexView.new value) (invalidIndex argument .nonNumeric)
  ensure (¬ (view.numel ≠ 1 ∨ view.isLogical = true)) (invalidIndex argument .nonInteger)
  checkedIndexAt view 0 argument extent

def checkedNumericScalar (value : Value P) : Except RuntimeErrorKind NumericView := do
  let supplied ← NumericView.new "indexed assignment value" value
  requireScalar supplied.numel
  return supplied

/-- Operations on a target that is changed in its place, also where they fail. -/
abbrev InPlace (P : Payloads) : Type → Type := ExceptT RuntimeErrorKind (StateM (Value P))

/-- The write to an element of the target. -/
def assignInPlace (array : DenseArray α) (wrap : DenseArray α → ArrayData) (oneBased : Nat) (element : α)
    : InPlace P Unit := do
  let assigned ← setElement array oneBased element
  set (Value.array (wrap assigned) : Value P)

def tryAssignSingleScalarInPlace (target supplied : ArrayData) (oneBased : Nat) : InPlace P Bool := do
  match target, supplied with
  | .f32 target, .f32 supplied =>
    assignInPlace target .f32 oneBased (← elementAt supplied 0)
    return true
  | .complexF32 target, .f32 supplied =>
    assignInPlace target .complexF32 oneBased ⟨← elementAt supplied 0, 0⟩
    return true
  | .complexF32 target, .complexF32 supplied =>
    assignInPlace target .complexF32 oneBased (← elementAt supplied 0)
    return true
  | _, _ => return false

def tryAssignIntegerScalarInPlace (target supplied : IntegerArrayData) (oneBased : Nat) : InPlace P Bool := do
  match target with
  | .real type target =>
    match integersOf type supplied with
    | some (.inl supplied) =>
      assignInPlace target (.integer ∘ .real type) oneBased (← elementAt supplied 0)
      return true
    | _ => return false
  | .complex type target =>
    match integersOf type supplied with
    | some (.inl supplied) =>
      assignInPlace target (.integer ∘ .complex type) oneBased ⟨← elementAt supplied 0, integerZero type⟩
      return true
    | some (.inr supplied) =>
      assignInPlace target (.integer ∘ .complex type) oneBased (← elementAt supplied 0)
      return true
    | none => return false

def tryIndexAssignSingleScalar (target : ArrayData) (index value : Value P) (cancelled : Bool)
    : InPlace P Bool := do
  match singleOf value with
  | none => return false
  | some supplied =>
    requireScalar supplied.shape.numel
    let oneBased ← checkedScalarIndexValue index 0 target.shape.numel cancelled
    tryAssignSingleScalarInPlace target supplied oneBased

/-- What is left is a write to the target, or a target for the general assignment. -/
def tryIndexAssignScalarInPlace (index value : Value P) (cancelled : Bool) : InPlace P Bool := do
  if isDirectScalarIndex index = false then
    return false
  match ← get with
  | .array (.f64 array) =>
    let supplied ← checkedNumericScalar value
    if supplied.isComplex then
      return false
    let oneBased ← checkedScalarIndexValue index 0 array.shape.numel cancelled
    assignInPlace array .f64 oneBased (← supplied.realElement 0)
    return true
  | .array (.complexF64 array) =>
    let supplied ← checkedNumericScalar value
    let oneBased ← checkedScalarIndexValue index 0 array.shape.numel cancelled
    assignInPlace array .complexF64 oneBased (← supplied.complexElement 0)
    return true
  | .array (.logical array) =>
    let supplied ← checkedNumericScalar value
    let oneBased ← checkedScalarIndexValue index 0 array.shape.numel cancelled
    assignInPlace array .logical oneBased (nonzero (← supplied.complexElement 0))
    return true
  | .array (.f32 target) => tryIndexAssignSingleScalar (.f32 target) index value cancelled
  | .array (.complexF32 target) => tryIndexAssignSingleScalar (.complexF32 target) index value cancelled
  | .array (.integer target) =>
    match integerOf value with
    | none => return false
    | some supplied =>
      requireScalar supplied.shape.numel
      let oneBased ← checkedScalarIndexValue index 0 target.shape.numel cancelled
      tryAssignIntegerScalarInPlace target supplied oneBased
  | _ => return false

def tryIndexRealScalar (target index : Value P) (cancelled : Bool) : Except RuntimeErrorKind (Option (Value P)) :=
  match target with
  | .array (.f64 array) =>
    if isDirectScalarIndex index then do
      let oneBased ← checkedScalarIndexValue index 0 array.shape.numel cancelled
      let value ← elementAt array (oneBased - 1)
      return some (.double value)
    else
      .ok none
  | _ => .ok none

end Indexing
end OpenMat
