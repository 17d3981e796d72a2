/-!
This module contains function definitions as far as the binding analysis looks at them, and the names
that it collects from their bodies.
-/

namespace OpenMat
namespace Nested

/-- Expressions. The elements of a matrix or a cell are the ones of all its rows. -/
inductive Expr where
  | name (text : String)
  | functionHandle (name : Option String)
  | anonymousFunction (parameters : List String) (body : Expr)
  | paren (inner : Expr)
  | unary (operand : Expr)
  | transpose (operand : Expr)
  | parenApply (target : Expr) (arguments : List Expr)
  | braceApply (target : Expr) (arguments : List Expr)
  | superclassConstructorCall (object : Expr) (arguments : List Expr)
  | field (target : Expr)
  | dynamicField (target name : Expr)
  | binary (left right : Expr)
  | range (start : Expr) (step : Option Expr) (stop : Expr)
  | matrix (elements : List Expr)
  | cell (elements : List Expr)
  /-- A literal, an index `:` or `end`, or an error. -/
  | other

inductive DeclarationKind where
  | global
  | persistent
  deriving DecidableEq, Repr

inductive DeclarationForm where
  | identifierList
  | missingNames
  | invalidItems
  | duplicatePersistentNames
  deriving DecidableEq, Repr

inductive DeclarationContext where
  | script
  | function
  | classDefinition
  deriving DecidableEq, Repr

structure DeclarationStatement where
  kind : DeclarationKind
  names : List String
  form : DeclarationForm
  context : DeclarationContext
  deriving DecidableEq, Repr

structure ArgumentDeclaration where
  dimensions : List Expr
  validators : List Expr
  default : Option Expr

mutual

inductive Stmt where
  | assignment (target value : Expr)
  | expr (expression : Expr)
  | command (callee : Option String)
  | declaration (declaration : DeclarationStatement)
  | ifElse (branches : List ConditionalBranch) (elseBody : List Stmt)
  | forLoop (loopVariable iterable : Expr) (body : List Stmt)
  | whileLoop (condition : Expr) (body : List Stmt)
  | tryCatch (body : List Stmt) (handler : Option CatchClause)
  | switch (selector : Expr) (cases : List ConditionalBranch) (otherwise : List Stmt)
  | arguments (declarations : List ArgumentDeclaration)
  | function (definition : FunctionDef)
  /-- A statement that binds no name and contains no expression, a `clear`, or a class. -/
  | other

/-- A branch of a conditional or a case of a switch. -/
inductive ConditionalBranch where
  | mk (condition : Expr) (body : List Stmt)

inductive CatchClause where
  | mk (variableName : Option String) (body : List Stmt)

inductive FunctionDef where
  | mk (name : Option String) (outputs inputs : List String) (body : List Stmt)

end

namespace FunctionDef

def name : FunctionDef → Option String
  | mk name _ _ _ => name

def outputs : FunctionDef → List String
  | mk _ outputs _ _ => outputs

def inputs : FunctionDef → List String
  | mk _ _ inputs _ => inputs

def body : FunctionDef → List Stmt
  | mk _ _ _ body => body

end FunctionDef

section Lexical

/-- The names that an expression refers to, without those that are bound. -/
def collectExpressionLexicalNames (bound : List String) : Expr → List String
  | .name text => if bound.contains text then [] else [text]
  | .functionHandle (some name) => if bound.contains name then [] else [name]
  | .functionHandle none => []
  | .anonymousFunction parameters body => collectExpressionLexicalNames (parameters ++ bound) body
  | .paren inner => collectExpressionLexicalNames bound inner
  | .unary operand => collectExpressionLexicalNames bound operand
  | .transpose operand => collectExpressionLexicalNames bound operand
  | .parenApply target arguments =>
    collectExpressionLexicalNames bound target ++ collectExpressions bound arguments
  | .braceApply target arguments =>
    collectExpressionLexicalNames bound target ++ collectExpressions bound arguments
  | .superclassConstructorCall object arguments =>
    collectExpressionLexicalNames bound object ++ collectExpressions bound arguments
  | .field target => collectExpressionLexicalNames bound target
  | .dynamicField target name =>
    collectExpressionLexicalNames bound target ++ collectExpressionLexicalNames bound name
  | .binary left right =>
    collectExpressionLexicalNames bound left ++ collectExpressionLexicalNames bound right
  | .range start step stop =>
    collectExpressionLexicalNames bound start ++ collectOption bound step
      ++ collectExpressionLexicalNames bound stop
  | .matrix elements => collectExpressions bound elements
  | .cell elements => collectExpressions bound elements
  | .other => []
where
  collectExpressions (bound : List String) : List Expr → List String
    | [] => []
    | expression :: expressions =>
      collectExpressionLexicalNames bound expression ++ collectExpressions bound expressions
  collectOption (bound : List String) : Option Expr → List String
    | none => []
    | some expression => collectExpressionLexicalNames bound expression

def collectArgumentNames (declaration : ArgumentDeclaration) : List String :=
  (declaration.dimensions ++ declaration.validators ++ declaration.default.toList).flatMap
    (collectExpressionLexicalNames [])

mutual

/-- The names that a statement refers to. A nested function and the variable of a `catch` do not count. -/
def collectStatementNames : Stmt → List String
  | .arguments declarations => declarations.flatMap collectArgumentNames
  | .assignment target value =>
    collectExpressionLexicalNames [] target ++ collectExpressionLexicalNames [] value
  | .expr expression => collectExpressionLexicalNames [] expression
  | .command callee => callee.toList.filter (· ≠ "import")
  | .ifElse branches elseBody => collectBranchNames branches ++ collectLexicalNames elseBody
  | .whileLoop condition body =>
    collectExpressionLexicalNames [] condition ++ collectLexicalNames body
  | .tryCatch body none => collectLexicalNames body
  | .tryCatch body (some handler) => collectLexicalNames body ++ collectHandlerNames handler
  | .forLoop loopVariable iterable body =>
    collectExpressionLexicalNames [] loopVariable ++ collectExpressionLexicalNames [] iterable
      ++ collectLexicalNames body
  | .switch selector cases otherwise =>
    collectExpressionLexicalNames [] selector ++ collectBranchNames cases
      ++ collectLexicalNames otherwise
  | .declaration _ => []
  | .function _ => []
  | .other => []

def collectLexicalNames : List Stmt → List String
  | [] => []
  | statement :: statements => collectStatementNames statement ++ collectLexicalNames statements

def collectBranchNames : List ConditionalBranch → List String
  | [] => []
  | .mk condition body :: branches =>
    collectExpressionLexicalNames [] condition ++ collectLexicalNames body
      ++ collectBranchNames branches

def collectHandlerNames : CatchClause → List String
  | .mk _ body => collectLexicalNames body

end

end Lexical

section Assigned

def collectTargetNames : Expr → List String
  | .name text => [text]
  | .matrix elements => collectTargets elements
  | .parenApply target _ => collectTargetNames target
  | .braceApply target _ => collectTargetNames target
  | .field target => collectTargetNames target
  | .dynamicField target _ => collectTargetNames target
  | .paren target => collectTargetNames target
  | _ => []
where
  collectTargets : List Expr → List String
    | [] => []
    | element :: elements => collectTargetNames element ++ collectTargets elements

mutual

/-- The names that a statement assigns, in the order of their assignments. -/
def collectStatementTargets : Stmt → List String
  | .assignment target _ => collectTargetNames target
  | .expr _ => ["ans"]
  | .command _ => ["ans"]
  | .ifElse branches elseBody => collectBranchTargets branches ++ collectAssignedNames elseBody
  | .forLoop loopVariable _ body => collectTargetNames loopVariable ++ collectAssignedNames body
  | .whileLoop _ body => collectAssignedNames body
  | .tryCatch body none => collectAssignedNames body
  | .tryCatch body (some handler) => collectAssignedNames body ++ collectHandlerTargets handler
  | .switch _ cases otherwise => collectBranchTargets cases ++ collectAssignedNames otherwise
  | .declaration _ => []
  | .arguments _ => []
  | .function _ => []
  | .other => []

def collectAssignedNames : List Stmt → List String
  | [] => []
  | statement :: statements => collectStatementTargets statement ++ collectAssignedNames statements

def collectBranchTargets : List ConditionalBranch → List String
  | [] => []
  | .mk _ body :: branches => collectAssignedNames body ++ collectBranchTargets branches

def collectHandlerTargets : CatchClause → List String
  | .mk variableName body => variableName.toList ++ collectAssignedNames body

end

end Assigned

section Declarations

mutual

/-- The declarations in a statement, without those of nested functions. -/
def statementDeclarations : Stmt → List DeclarationStatement
  | .declaration declaration => [declaration]
  | .ifElse branches elseBody => branchDeclarations branches ++ declarations elseBody
  | .forLoop _ _ body => declarations body
  | .whileLoop _ body => declarations body
  | .tryCatch body none => declarations body
  | .tryCatch body (some handler) => declarations body ++ handlerDeclarations handler
  | .switch _ cases otherwise => branchDeclarations cases ++ declarations otherwise
  | .assignment _ _ => []
  | .expr _ => []
  | .command _ => []
  | .arguments _ => []
  | .function _ => []
  | .other => []

def declarations : List Stmt → List DeclarationStatement
  | [] => []
  | statement :: statements => statementDeclarations statement ++ declarations statements

def branchDeclarations : List ConditionalBranch → List DeclarationStatement
  | [] => []
  | .mk _ body :: branches => declarations body ++ branchDeclarations branches

def handlerDeclarations : CatchClause → List DeclarationStatement
  | .mk _ body => declarations body

end

end Declarations

end Nested
end OpenMat
