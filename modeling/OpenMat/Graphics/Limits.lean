import OpenMat.Fallible.Basic

/-!
This module contains the errors and the negotiated limits of the graphics protocol.
-/

namespace OpenMat
namespace Graphics

inductive ErrorCategory where
  | invalidRequest
  | unsupportedRequest
  | unauthorized
  | sessionInUse
  | unknownFigure
  | unknownBuffer
  | revisionConflict
  | payloadLimit
  | residentLimit
  | invalidScene
  | invalidBinaryFrame
  | sessionClosed
  deriving DecidableEq, Repr

def ErrorCategory.asStr : ErrorCategory → String
  | invalidRequest => "graphics.invalidRequest"
  | unsupportedRequest => "graphics.unsupportedRequest"
  | unauthorized => "graphics.unauthorized"
  | sessionInUse => "graphics.sessionInUse"
  | unknownFigure => "graphics.unknownFigure"
  | unknownBuffer => "graphics.unknownBuffer"
  | revisionConflict => "graphics.revisionConflict"
  | payloadLimit => "graphics.payloadLimit"
  | residentLimit => "graphics.residentLimit"
  | invalidScene => "graphics.invalidScene"
  | invalidBinaryFrame => "graphics.invalidBinaryFrame"
  | sessionClosed => "graphics.sessionClosed"

structure ValidationError where
  category : ErrorCategory
  message : String
  deriving DecidableEq, Repr

def invalidRequest (message : String) : ValidationError := ⟨.invalidRequest, message⟩

def invalidBinary (message : String) : ValidationError := ⟨.invalidBinaryFrame, message⟩

def residentLimit (message : String) : ValidationError := ⟨.residentLimit, message⟩

/-- Largest integer represented exactly by every JSON consumer. -/
def maxSafeInteger : Nat := 9007199254740991

def maxTextFrameBytes : Nat := 1048576

def maxBinaryFrameBytes : Nat := 8388608

def maxBufferBytes : Nat := 268435456

def maxResidentBytes : Nat := 536870912

def maxLiveObjects : Nat := 100000

def validateSafe (value : Nat) (field : String) : Except ValidationError Unit :=
  ensure (value ≤ maxSafeInteger) (invalidRequest (field ++ " must be a JSON safe integer"))

def validatePositiveSafe (value : Nat) (field : String) : Except ValidationError Unit := do
  validateSafe value field
  ensure (value ≠ 0) (invalidRequest (field ++ " must be positive"))

def validateBound (value maximum : Nat) (field : String) : Except ValidationError Unit := do
  validatePositiveSafe value field
  ensure (value ≤ maximum) (invalidRequest (field ++ " exceeds the graphics-v1 maximum"))

structure GraphicsLimits where
  maxTextFrameBytes : Nat
  maxBinaryFrameBytes : Nat
  maxBufferBytes : Nat
  maxResidentBytes : Nat
  maxObjects : Nat
  deriving DecidableEq, Repr

namespace GraphicsLimits

def protocolMaxima : GraphicsLimits where
  maxTextFrameBytes := Graphics.maxTextFrameBytes
  maxBinaryFrameBytes := Graphics.maxBinaryFrameBytes
  maxBufferBytes := Graphics.maxBufferBytes
  maxResidentBytes := Graphics.maxResidentBytes
  maxObjects := Graphics.maxLiveObjects

def validate (limits : GraphicsLimits) : Except ValidationError Unit := do
  validateBound limits.maxTextFrameBytes Graphics.maxTextFrameBytes "maxTextFrameBytes"
  validateBound limits.maxBinaryFrameBytes Graphics.maxBinaryFrameBytes "maxBinaryFrameBytes"
  validateBound limits.maxBufferBytes Graphics.maxBufferBytes "maxBufferBytes"
  validateBound limits.maxResidentBytes Graphics.maxResidentBytes "maxResidentBytes"
  validateBound limits.maxObjects Graphics.maxLiveObjects "maxLiveObjects"

end GraphicsLimits

theorem validateSafe_eq_ok_iff {value : Nat} {field : String}
    : validateSafe value field = .ok () ↔ value ≤ maxSafeInteger :=
  ensure_eq_ok_iff

theorem validateBound_eq_ok_iff {value maximum : Nat} {field : String}
    : validateBound value maximum field = .ok ()
        ↔
      value ≤ maxSafeInteger ∧ value ≠ 0 ∧ value ≤ maximum := by
  rw [validateBound, seq_eq_ok_iff, validatePositiveSafe, seq_eq_ok_iff, validateSafe_eq_ok_iff,
    ensure_eq_ok_iff, ensure_eq_ok_iff, and_assoc]

theorem GraphicsLimits.validate_eq_ok_iff {limits : GraphicsLimits}
    : limits.validate = .ok ()
        ↔
      (limits.maxTextFrameBytes ≠ 0 ∧ limits.maxTextFrameBytes ≤ Graphics.maxTextFrameBytes)
        ∧
      (limits.maxBinaryFrameBytes ≠ 0 ∧ limits.maxBinaryFrameBytes ≤ Graphics.maxBinaryFrameBytes)
        ∧
      (limits.maxBufferBytes ≠ 0 ∧ limits.maxBufferBytes ≤ Graphics.maxBufferBytes)
        ∧
      (limits.maxResidentBytes ≠ 0 ∧ limits.maxResidentBytes ≤ Graphics.maxResidentBytes)
        ∧
      (limits.maxObjects ≠ 0 ∧ limits.maxObjects ≤ maxLiveObjects) := by
  -- Every protocol maximum is a safe integer.
  have hsafe : ∀ {value maximum : Nat} {field : String}, maximum ≤ maxSafeInteger →
      (validateBound value maximum field = .ok () ↔ value ≠ 0 ∧ value ≤ maximum) := by
    intro value maximum field hmax
    rw [validateBound_eq_ok_iff]
    exact ⟨fun h => h.2, fun h => ⟨Nat.le_trans h.2 hmax, h⟩⟩
  rw [validate, seq_eq_ok_iff, seq_eq_ok_iff, seq_eq_ok_iff, seq_eq_ok_iff, hsafe (by decide),
    hsafe (by decide), hsafe (by decide), hsafe (by decide), hsafe (by decide)]

end Graphics
end OpenMat
