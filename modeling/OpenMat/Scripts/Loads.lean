import OpenMat.Scripts.BareSites

/-!
This module contains the imports of a function, and the instruction by which a statement that is a bare name loads it.
-/

namespace OpenMat
namespace Scripts

mutual

def collectScopeImports : List Stmt → List String
  | [] => []
  | statement :: statements => statementImports statement ++ collectScopeImports statements

def statementImports : Stmt → List String
  | .command (some callee) arguments => if callee.text = "import" then arguments else []
  | .ifElse branches elseBody => branchImports branches ++ collectScopeImports elseBody
  | .whileLoop _ body => collectScopeImports body
  | .forLoop _ _ body => collectScopeImports body
  | .tryCatch body handler => collectScopeImports body ++ handlerImports handler
  | .switch _ cases otherwise => caseImports cases ++ otherwiseImports otherwise
  -- a function inside has imports of its own
  | .expr _ => []
  | .command none _ => []
  | .function _ => []
  | .classDef _ => []
  | .other => []

def branchImports : List ConditionalBranch → List String
  | [] => []
  | .mk _ body :: branches => collectScopeImports body ++ branchImports branches

def handlerImports : Option CatchClause → List String
  | none => []
  | some (.mk _ body) => collectScopeImports body

def caseImports : List SwitchCase → List String
  | [] => []
  | .mk _ body :: cases => collectScopeImports body ++ caseImports cases

def otherwiseImports : Option OtherwiseBranch → List String
  | none => []
  | some (.mk body) => collectScopeImports body

end

def addImport (imports : List String) (imported : String) : List String :=
  if imported ∈ imports then imports else imports ++ [imported]

def mergedImports (inherited declared : List String) : List String := (inherited ++ declared).foldl addImport []

/-- The imports of a function that is compiled. An import that is no qualified name is an error of its unit. -/
def setImports (imports : List String) : List String := imports.foldl addImport []

inductive BindingStorage where
  | localSlot
  | captured
  | workspaceGlobal
  | persistent
  deriving DecidableEq, Repr

/-- What the names of a function stand for. The entry has no captures. -/
structure Scope where
  inFunction : Bool
  bindings : String → Option BindingStorage
  captures : String → Bool
  userFunctions : String → Bool
  classDefinitions : String → Bool
  imports : List String

def logicalName (name : String) : Bool := name = "true" ∨ name = "false"

def callMetadataName (name : String) : Bool := name = "nargin" ∨ name = "nargout"

end Scripts
end OpenMat
