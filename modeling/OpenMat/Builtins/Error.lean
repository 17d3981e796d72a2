import OpenMat.Arrays.Shape

/-!
This module contains the failures of the built-in functions.
-/

namespace OpenMat
namespace Builtins

inductive BuiltinErrorCategory where
  | argumentCount
  | type
  | domain
  | output
  | cancelled
  | languageCopy
  | hostService
  | fileSystem
  | graphics
  | other
  deriving DecidableEq, Repr

/-- The identifier is the runtime's own for all errors that are built here. -/
structure BuiltinError where
  category : BuiltinErrorCategory
  message : String
  deriving DecidableEq, Repr

/-- An access beyond the end of a list panics, and a loop that makes no progress diverges. -/
inductive Failure where
  | builtin (error : BuiltinError)
  | panics
  | diverges
  deriving DecidableEq, Repr

def arrayError (error : Arrays.ArrayError) : Failure := .builtin ⟨.domain, error.text⟩

end Builtins
end OpenMat
