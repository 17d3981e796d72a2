import Mathlib.Data.List.Nodup
import OpenMat.Fallible.Update
import OpenMat.Protocol.Message
import OpenMat.Values.Value

/-!
This module contains the engine's side of an edit: one element of one numeric variable of the workspace
is replaced, or nothing is.
-/

namespace OpenMat
namespace Kernel
namespace V3

open Arrays (Shape DenseArray)
open Protocol (Diagnostic Event ProtocolError SetVariableElementRequest NumericScalar VariableSummary)
open Values

structure EngineError where
  category : String
  message : String
  diagnostics : List Diagnostic
  events : List Event

namespace EngineError

def new (category message : String) : EngineError := ⟨category, message, [], []⟩

def intoProtocolError (e : EngineError) : ProtocolError := ⟨e.category, e.message, e.diagnostics⟩

end EngineError

/-- The bindings in the order of their names. -/
structure Workspace where
  bindings : List (String × Value)
  sorted : (bindings.map Prod.fst).Pairwise (· < ·)

namespace Workspace

def get (workspace : Workspace) (name : String) : Option Value :=
  (workspace.bindings.find? fun binding => binding.1 = name).map Prod.snd

def replaceBinding (name : String) (value : Value) (binding : String × Value) : String × Value :=
  if binding.1 = name then (binding.1, value) else binding

@[simp]
theorem fst_replaceBinding {name : String} {value : Value} {binding : String × Value}
    : (replaceBinding name value binding).1 = binding.1 := by
  rw [replaceBinding]
  split <;> rfl

/-- What was written through `get_mut`. -/
def replace (workspace : Workspace) (name : String) (value : Value) : Workspace where
  bindings := workspace.bindings.map (replaceBinding name value)
  sorted := by
    rw [List.map_map]
    simpa only [Function.comp_def, fst_replaceBinding] using workspace.sorted

theorem replace_get {workspace : Workspace} {name : String} {value : Value}
    (h : workspace.get name = some value)
    : workspace.replace name value = workspace := by
  suffices hbindings : workspace.bindings.map (replaceBinding name value) = workspace.bindings by
    cases workspace
    simpa [replace] using hbindings
  suffices hsame : ∀ binding ∈ workspace.bindings, replaceBinding name value binding = id binding by
    rw [List.map_congr_left hsame, List.map_id]
  intro binding hmem
  rw [replaceBinding]
  split
  . rename_i hname
    -- the names are different, thus the binding that was found is this one
    rw [get, Option.map_eq_some_iff] at h
    obtain ⟨found, hfound, rfl⟩ := h
    have hnodup : (workspace.bindings.map Prod.fst).Nodup :=
      workspace.sorted.imp fun hlt heq => absurd (heq ▸ hlt) (String.lt_irrefl _)
    have hfoundName : found.1 = binding.1 := by
      rw [hname]
      simpa using List.find?_some hfound
    rw [List.inj_on_of_nodup_map hnodup (List.mem_of_find?_eq_some hfound) hmem hfoundName]
    rfl
  . rfl

end Workspace

/-! The components of the new element. -/

def nan : F64 := 0x7ff8000000000000

def infinity : F64 := 0x7ff0000000000000

def negInfinity : F64 := 0xfff0000000000000

variable (floats : FloatConversions)

def parseNumberString (field value : String) : Except Protocol.ValidationError F64 :=
  okOr (
    if value = "NaN" then some nan
    else if value = "+Inf" then some infinity
    else if value = "-Inf" then some negInfinity
    else if Protocol.validDecimalNumber value then some (floats.parse value)
    else none)
    ⟨"workspace_value", field ++ " must use the canonical number-string vocabulary"⟩

def components (value : NumericScalar) : Except Protocol.ValidationError (F64 × F64) := do
  let real ← parseNumberString floats "real" value.real
  let imaginary ← parseNumberString floats "imaginary" value.imaginary
  .ok (real, imaginary)

def normalizedZero (value : String) : String := if value = "-0" then "0" else value

def parseDigits (digits : List Char) : Option Int :=
  if digits ≠ [] ∧ digits.all Char.isDigit then
    some (digits.foldl (fun value c => value * 10 + (c.toNat - '0'.toNat)) 0)
  else
    none

/-- `str::parse` for one of the integer types. -/
def parseInteger (type : IntegerType) (text : String) : Option type.Element :=
  match text.toList with
  | '+' :: digits => (parseDigits digits).bind type.tryFrom
  | '-' :: digits =>
    if type.signed then (parseDigits digits).bind fun value => type.tryFrom (-value) else none
  | digits => (parseDigits digits).bind type.tryFrom

/-! The element is written. -/

def offsetError : EngineError :=
  .new "workspace.indexOutOfBounds" "workspace element index escaped validated dimensions"

def mapError {ε ε' α : Type} (x : Except ε α) (f : ε → ε') : Update ε' Value α :=
  Update.ofExcept (x.mapError f)

def writeElement {α : Type} (array : DenseArray α) (oneBased : Nat) (value : α)
    : Update EngineError Value (DenseArray α) :=
  mapError (array.setLinear oneBased value) fun _ => offsetError

/-- The array with complex elements whose element at the index has an imaginary part. -/
def promote {α : Type} (array : DenseArray α) (toComplex : α → ComplexValue α) (oneBased : Nat)
    (value : ComplexValue α) (failed : String) : Update EngineError Value (DenseArray (ComplexValue α)) :=
  mapError (DenseArray.fromVec array.shape ((array.data.map toComplex).set (oneBased - 1) value))
    fun e => .new "workspace.editFailed" (failed ++ e.text)

def editUnsupported (target : Value) : EngineError :=
  .new "workspace.editUnsupported" ("workspace variable class `" ++ target.className
    ++ "` is not editable in this Variable Editor tranche")

def setNumericElement (oneBased : Nat) (real imaginary : F64) : Update EngineError Value Unit := do
  match ← get with
  | .double _ =>
    if oneBased = 1 then
      set (if imaginary.isZero then Value.double real else Value.complex ⟨real, imaginary⟩)
    else
      throw offsetError
  | .complex _ => if oneBased = 1 then set (Value.complex ⟨real, imaginary⟩) else throw offsetError
  | .logical _ =>
    if oneBased = 1 then
      set (Value.logical (!real.isZero || !imaginary.isZero))
    else
      throw offsetError
  | .array (.f64 array) =>
    if imaginary.isZero then do
      let array ← writeElement array oneBased real
      set (Value.array (.f64 array))
    else do
      let array ← promote array (⟨·, 0⟩) oneBased ⟨real, imaginary⟩
        "could not promote the edited array to complex storage: "
      set (Value.array (.complexF64 array))
  | .array (.complexF64 array) => do
    let array ← writeElement array oneBased ⟨real, imaginary⟩
    set (Value.array (.complexF64 array))
  | .array (.logical array) => do
    let array ← writeElement array oneBased (!real.isZero || !imaginary.isZero)
    set (Value.array (.logical array))
  | .array (.f32 array) =>
    if imaginary.isZero then do
      let array ← writeElement array oneBased (floats.toSingle real)
      set (Value.array (.f32 array))
    else do
      let array ← promote array (⟨·, 0⟩) oneBased ⟨floats.toSingle real, floats.toSingle imaginary⟩
        "could not promote the edited single array: "
      set (Value.array (.complexF32 array))
  | .array (.complexF32 array) => do
    let array ← writeElement array oneBased ⟨floats.toSingle real, floats.toSingle imaginary⟩
    set (Value.array (.complexF32 array))
  | target => throw (editUnsupported target)

def invalidComponent (type : IntegerType) (component : String) : EngineError :=
  .new "workspace.invalidValue" ("`" ++ component
    ++ "` is not an exact in-range integer component for class `" ++ type.className ++ "`")

def realStorageComplexError (type : IntegerType) : EngineError :=
  .new "workspace.editUnsupported" ("a real `" ++ type.className
    ++ "` array cannot receive an imaginary component in this edit")

def parseComponent (type : IntegerType) (component : String) : Update EngineError Value type.Element :=
  Update.ofExcept (okOr (parseInteger type (normalizedZero component)) (invalidComponent type component))

def setIntegerElement (storage : IntegerArrayData) (oneBased : Nat) (real imaginary : String)
    : Update EngineError Value Unit :=
  match storage with
  | .real type array => do
    Update.ofExcept (ensure (imaginary = "0" ∨ imaginary = "-0") (realStorageComplexError type))
    let parsed ← parseComponent type real
    let array ← writeElement array oneBased parsed
    set (Value.array (.integer (.real type array)))
  | .complex type array => do
    let parsedReal ← parseComponent type real
    let parsedImaginary ← parseComponent type imaginary
    let array ← writeElement array oneBased ⟨parsedReal, parsedImaginary⟩
    set (Value.array (.integer (.complex type array)))

def setElement (oneBased : Nat) (value : NumericScalar) (real imaginary : F64)
    : Update EngineError Value Unit := do
  match ← get with
  | .array (.integer storage) => setIntegerElement storage oneBased value.real value.imaginary
  | _ => setNumericElement floats oneBased real imaginary

def valueBytes : Value → Option Nat
  | .logical _ => some 1
  | .double _ => some 8
  | .complex _ => some 16
  | .array array => checkedMul 64 array.shape.numel array.elementWidthBytes
  | .cell _ _ | .struct _ _ _ => none
  | .external value => value.bytes

def variableSummary (name : String) (value : Value) (className : String) : VariableSummary where
  name := name
  className := className
  dimensions := value.dimensions.getD [1, 1]
  complex := value.isComplexNumeric
  bytes := valueBytes value

/-- The interpreter is what the engine owns besides the workspace. -/
structure Engine (ρ : Type) where
  workspace : Workspace
  shutDown : Bool
  interpreter : ρ

variable {ρ : Type}

def ensureRunning (engine : Engine ρ) : Except EngineError Unit :=
  ensure (engine.shutDown = false) (.new "kernel.dead" "runtime engine has already shut down")

/-- The checks of an edit, which find the variable and the index of its element. -/
def checkEdit (engine : Engine ρ) (request : SetVariableElementRequest)
    : Except EngineError (Value × F64 × F64 × Nat) := do
  ensureRunning engine
  request.validate.mapError fun e =>
    .new "protocol.validation" ("invalid kernel-v3 workspace mutation: " ++ e.text)
  let (real, imaginary) ← (components floats request.value).mapError fun e =>
    .new "protocol.validation" ("invalid kernel-v3 numeric value: " ++ e.text)
  let value ← okOr (engine.workspace.get request.name)
    (.new "workspace.notFound" ("workspace variable `" ++ request.name ++ "` does not exist"))
  let dimensions ← okOr value.dimensions
    (.new "workspace.editUnsupported" ("workspace variable `" ++ request.name
      ++ "` has no editable shape"))
  ensure (request.indices.length = dimensions.length)
    (.new "workspace.indexOutOfBounds" ("workspace variable `" ++ request.name ++ "` requires "
      ++ toString dimensions.length ++ " subscripts, got " ++ toString request.indices.length))
  let shape ← (Shape.new dimensions).mapError fun e =>
    .new "engine.invalidValue" ("workspace variable `" ++ request.name ++ "` has an invalid shape: "
      ++ e.text)
  let oneBased ← (shape.linearIndexForSubscripts request.indices).mapError fun e =>
    .new "workspace.indexOutOfBounds" ("workspace element indices are invalid: " ++ e.text)
  .ok (value, real, imaginary, oneBased)

def setVariableElement (request : SetVariableElementRequest)
    : Update EngineError (Engine ρ) VariableSummary := do
  let (value, real, imaginary, oneBased) ← Update.ofExcept (checkEdit floats (← get) request)
  -- the binding that was found is borrowed mutably, and keeps what the edit has written
  let edited ← Update.focus (fun _ => value)
    (fun engine edited => { engine with workspace := engine.workspace.replace request.name edited })
    (do setElement floats oneBased request.value real imaginary; get)
  pure (variableSummary request.name edited edited.className)

/-! An edit that fails has written nothing. -/

section Atomic

open Update

theorem atomic_setNumericElement {oneBased : Nat} {real imaginary : F64}
    : Atomic (setNumericElement floats oneBased real imaginary) := by
  apply Atomic.bind ReadOnly.get
  intro target
  cases target with
  | array array =>
    cases array <;> simp only [] <;> try split
    all_goals first
      | exact Atomic.throw
      | exact Atomic.bind ReadOnly.ofExcept fun _ => Atomic.set
  | cell => exact Atomic.throw
  | struct => exact Atomic.throw
  | external => exact Atomic.throw
  | logical =>
    simp only []
    split
    . exact Atomic.set
    . exact Atomic.throw
  | double =>
    simp only []
    split
    . exact Atomic.set
    . exact Atomic.throw
  | complex =>
    simp only []
    split
    . exact Atomic.set
    . exact Atomic.throw

theorem atomic_setIntegerElement {storage : IntegerArrayData} {oneBased : Nat} {real imaginary : String}
    : Atomic (setIntegerElement storage oneBased real imaginary) := by
  cases storage with
  | real =>
    exact Atomic.bind ReadOnly.ofExcept fun _ => Atomic.bind ReadOnly.ofExcept fun _ =>
      Atomic.bind ReadOnly.ofExcept fun _ => Atomic.set
  | complex =>
    exact Atomic.bind ReadOnly.ofExcept fun _ => Atomic.bind ReadOnly.ofExcept fun _ =>
      Atomic.bind ReadOnly.ofExcept fun _ => Atomic.set

theorem atomic_setElement {oneBased : Nat} {value : NumericScalar} {real imaginary : F64}
    : Atomic (setElement floats oneBased value real imaginary) := by
  apply Atomic.bind ReadOnly.get
  intro target
  split
  . exact atomic_setIntegerElement
  . exact atomic_setNumericElement floats

theorem get_of_checkEdit {engine : Engine ρ} {request : SetVariableElementRequest}
    {checked : Value × F64 × F64 × Nat} (h : checkEdit floats engine request = .ok checked)
    : engine.workspace.get request.name = some checked.1 := by
  rw [checkEdit] at h
  obtain ⟨_, _, h⟩ := bind_eq_ok_iff.mp h
  obtain ⟨_, _, h⟩ := bind_eq_ok_iff.mp h
  obtain ⟨_, _, h⟩ := bind_eq_ok_iff.mp h
  obtain ⟨value, hvalue, h⟩ := bind_eq_ok_iff.mp h
  obtain ⟨_, _, h⟩ := bind_eq_ok_iff.mp h
  obtain ⟨_, _, h⟩ := bind_eq_ok_iff.mp h
  obtain ⟨_, _, h⟩ := bind_eq_ok_iff.mp h
  obtain ⟨_, _, h⟩ := bind_eq_ok_iff.mp h
  cases h
  exact okOr_eq_ok_iff.mp hvalue

theorem atomic_setVariableElement (request : SetVariableElementRequest)
    : Atomic (setVariableElement floats request : Update EngineError (Engine ρ) VariableSummary) := by
  intro engine
  refine AtomicAt.bind ReadOnly.get fun state hstate => ?_
  cases hstate
  refine AtomicAt.bind ReadOnly.ofExcept fun checked hchecked => ?_
  have hget := get_of_checkEdit floats hchecked
  refine AtomicAt.bind_pure (AtomicAt.focus ?_ ?_) (fun _ _ _ => nofun)
  . exact Atomic.bind_pure (atomic_setElement floats) fun _ _ _ => nofun
  . rw [Workspace.replace_get hget]

end Atomic

end V3
end Kernel
end OpenMat
