import Mathlib.Data.Rat.Cast.Order

/-!
This module contains the values of unknown type that programs in TypeScript check before they use them.
Numbers are finite.
-/

namespace OpenMat

inductive Unknown where
  | undefined
  | null
  | bool (value : Bool)
  | number (value : Rat)
  | string (value : String)
  | array (items : List Unknown)
  | object (members : List (String × Unknown))

namespace Unknown

def maxSafeInteger : Int := 9007199254740991

def isRecord : Unknown → Bool
  | object _ => true
  | _ => false

/-- The property of an object; `undefined` if there is none. -/
def property (value : Unknown) (name : String) : Unknown :=
  match value with
  | object members => (members.lookup name).getD undefined
  | _ => undefined

def string? : Unknown → Option String
  | string value => some value
  | _ => none

def number? : Unknown → Option Rat
  | number value => some value
  | _ => none

def bool? : Unknown → Option Bool
  | bool value => some value
  | _ => none

def array? : Unknown → Option (List Unknown)
  | array items => some items
  | _ => none

def isSafeInteger (value : Rat) : Bool :=
  value.den = 1 && -maxSafeInteger ≤ value.num && value.num ≤ maxSafeInteger

def safeInteger? (value : Unknown) : Option Int := do
  let value ← value.number?
  guard (isSafeInteger value)
  return value.num

def positiveInteger? (value : Unknown) : Option Int := do
  let value ← value.safeInteger?
  guard (0 < value)
  return value

def nonNegativeInteger? (value : Unknown) : Option Int := do
  let value ← value.safeInteger?
  guard (0 ≤ value)
  return value

def int (value : Int) : Unknown := .number value

@[simp]
theorem safeInteger?_int (value : Int)
    : (int value).safeInteger? =
        if -maxSafeInteger ≤ value ∧ value ≤ maxSafeInteger then some value else none := by
  simp [safeInteger?, int, number?, isSafeInteger, guard]
  split <;> rfl

theorem positiveInteger?_int {value : Int} (hpos : 0 < value) (hle : value ≤ maxSafeInteger)
    : (int value).positiveInteger? = some value := by
  have hle' : -maxSafeInteger ≤ value := by
    rw [maxSafeInteger] at *
    omega
  simp [positiveInteger?, hpos, hle, hle']

end Unknown
end OpenMat
