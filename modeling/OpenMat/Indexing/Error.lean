/-!
This module contains the failures of the array operations of the runtime.
-/

namespace OpenMat
namespace Indexing

inductive ValueKind where
  | nothing
  | logical
  | double
  | complex
  | single
  | string
  | char
  | integer
  | array
  | sparse
  | cell
  | struct
  | table
  | object
  | graphics
  | function
  deriving DecidableEq, Repr

inductive IndexErrorKind where
  | noSubscripts
  | nonNumeric
  | nonFinite
  | nonInteger
  | nonPositive
  | logicalLength (expected actual : Nat)
  deriving DecidableEq, Repr

inductive ArrayRuntimeError where
  | shapeMismatch (operation : String) (lhs rhs : List Nat)
  | invalidOperand (operation : String) (actual : ValueKind)
  | invalidIndex (argument : Nat) (reason : IndexErrorKind)
  | indexOutOfBounds (argument index extent : Nat)
  | assignmentSizeMismatch (selected supplied : Nat)
  | sizeLimit
  deriving DecidableEq, Repr

/-- An access beyond the end of a list, and a failed expectation, panic. -/
inductive RuntimeErrorKind where
  | array (error : ArrayRuntimeError)
  | cancelled
  | panics
  deriving DecidableEq, Repr

def arraySizeError : RuntimeErrorKind := .array .sizeLimit

end Indexing
end OpenMat
