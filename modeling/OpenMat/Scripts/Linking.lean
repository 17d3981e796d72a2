import OpenMat.Scripts.Loads

/-!
This module contains how the linker resolves the names of a load, and its check of a load that leads to a script. The
text of a file that is found, and how a function or a class of it takes the place of a name, is not part of it.
-/

namespace OpenMat
namespace Scripts

open Std

structure SourceFile where
  path : String
  sourceName : String
  isScript : Bool
  deriving DecidableEq, Repr

/-- What names stand for at a load: the functions of the linked module, the variables of the workspace that its
function does not clear, the known classes with those of the module, the builtins, and the files. -/
structure Host where
  functions : String → Bool
  workspace : String → Bool
  classes : String → Bool
  builtins : String → Bool
  resolveFrom : String → Option SourceFile

def languageNames : List String := ["class", "isa", "isobject", "addlistener", "notify"]

end Scripts
end OpenMat
