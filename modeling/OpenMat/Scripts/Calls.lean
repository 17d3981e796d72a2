import OpenMat.Scripts.Linking
import OpenMat.Scripts.Occurrences

/-!
This module contains which bare names of a source unit the linker takes as the call of a script.
-/

namespace OpenMat
namespace Scripts

open Std
open Hir (Expr Name TextRange)

/-- What the compiler knows of the names of a unit: the imports that it inherits, the variables of each function, and
the functions and classes that the unit defines. -/
structure Analysis where
  inheritedImports : List String
  bindings : Option FunctionDef → String → Option BindingStorage
  captures : FunctionDef → String → Bool
  userFunctions : String → Bool
  classDefinitions : String → Bool

/-- The scope of the entry or of a function. -/
def Analysis.scope (analysis : Analysis) (file : HirFile) (region : Option FunctionDef) : Scope where
  inFunction := region.isSome
  bindings := analysis.bindings region
  captures := fun name => region.any (analysis.captures · name)
  userFunctions := analysis.userFunctions
  classDefinitions := analysis.classDefinitions
  imports :=
    match region with
    | none => setImports (mergedImports analysis.inheritedImports (collectScopeImports file.statements))
    | some definition => setImports (collectScopeImports definition.body)

/-- The words that the compiler or the linker takes for itself. -/
def Scope.reserved (scope : Scope) (name : String) : Bool :=
  name = "" ∨ logicalName name ∨ (scope.inFunction ∧ callMetadataName name) ∨ name = "clearvars" ∨ name ∈ languageNames

end Scripts
end OpenMat
