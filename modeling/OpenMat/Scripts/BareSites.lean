import OpenMat.StaticFunction.Hir
import Std.Data.TreeMap.Lemmas

/-!
This module contains the places of a source unit at which a script can be called: the statements that are a bare
name. A statement without a body that is neither an expression nor a command is `other`, and of the others only the
data that the collection and the imports look at is there.
-/

namespace OpenMat
namespace Scripts

open Std
open Hir (Expr Name TextRange)

mutual

inductive Stmt where
  | expr (expression : Expr)
  | command (callee : Option Name) (arguments : List String)
  | ifElse (branches : List ConditionalBranch) (elseBody : List Stmt)
  | forLoop (loopVariable iterable : Expr) (body : List Stmt)
  | whileLoop (condition : Expr) (body : List Stmt)
  | tryCatch (body : List Stmt) (handler : Option CatchClause)
  | switch (selector : Expr) (cases : List SwitchCase) (otherwise : Option OtherwiseBranch)
  | function (definition : FunctionDef)
  | classDef (methodBlocks : List MethodBlock)
  | other

inductive ConditionalBranch where
  | mk (condition : Expr) (body : List Stmt)

inductive CatchClause where
  | mk (exceptionName : Option Name) (body : List Stmt)

inductive SwitchCase where
  | mk (expression : Expr) (body : List Stmt)

inductive OtherwiseBranch where
  | mk (body : List Stmt)

inductive FunctionDef where
  | mk (name : Option Name) (body : List Stmt)

inductive MethodBlock where
  | mk (methods : List FunctionDef)

end

def ConditionalBranch.body : ConditionalBranch → List Stmt
  | mk _ body => body

def CatchClause.body : CatchClause → List Stmt
  | mk _ body => body

def SwitchCase.body : SwitchCase → List Stmt
  | mk _ body => body

def OtherwiseBranch.body : OtherwiseBranch → List Stmt
  | mk body => body

def FunctionDef.body : FunctionDef → List Stmt
  | mk _ body => body

def MethodBlock.methods : MethodBlock → List FunctionDef
  | mk methods => methods

structure HirFile where
  sourceId : Nat
  statements : List Stmt

structure SourceSite where
  sourceId : Nat
  start : Nat
  stop : Nat
  deriving DecidableEq, Repr

structure BareScriptSite where
  name : String
  workspaceScope : Bool
  deriving DecidableEq, Repr

/-- Sites are ordered field by field. -/
abbrev SourceSite.order : SourceSite → SourceSite → Ordering :=
  compareLex (compareOn sourceId) (compareLex (compareOn start) (compareOn stop))

instance : LawfulEqCmp SourceSite.order where
  eq_of_compare {a b} h := by
    cases a
    cases b
    simpa [SourceSite.order, compareLex, compareOn, Ordering.then_eq_eq] using h

abbrev BareScriptSites := TreeMap SourceSite BareScriptSite SourceSite.order

def siteOf (sourceId : Nat) (span : TextRange) : SourceSite := ⟨sourceId, span.start, span.stop⟩

def collectBareName (sourceId : Nat) (workspaceScope : Bool) : Expr → BareScriptSites → BareScriptSites
  | .name text span, sites => sites.insert (siteOf sourceId span) ⟨text, workspaceScope⟩
  | _, sites => sites

mutual

def collectBareScriptStatements (sourceId : Nat) (workspaceScope : Bool)
    : List Stmt → BareScriptSites → BareScriptSites
  | [], sites => sites
  | statement :: statements, sites =>
    collectBareScriptStatements sourceId workspaceScope statements
      (collectBareScriptStatement sourceId workspaceScope statement sites)

def collectBareScriptStatement (sourceId : Nat) (workspaceScope : Bool)
    : Stmt → BareScriptSites → BareScriptSites
  | .expr expression, sites => collectBareName sourceId workspaceScope expression sites
  | .ifElse branches elseBody, sites =>
    collectBareScriptStatements sourceId workspaceScope elseBody
      (collectBranches sourceId workspaceScope branches sites)
  | .forLoop _ _ body, sites => collectBareScriptStatements sourceId workspaceScope body sites
  | .whileLoop _ body, sites => collectBareScriptStatements sourceId workspaceScope body sites
  | .tryCatch body handler, sites =>
    collectHandler sourceId workspaceScope handler
      (collectBareScriptStatements sourceId workspaceScope body sites)
  | .function definition, sites => collectFunction sourceId definition sites
  | .classDef methodBlocks, sites => collectMethodBlocks sourceId methodBlocks sites
  -- every other statement, a switch included, falls to the default arm
  | .switch _ _ _, sites => sites
  | .command _ _, sites => sites
  | .other, sites => sites

def collectBranches (sourceId : Nat) (workspaceScope : Bool)
    : List ConditionalBranch → BareScriptSites → BareScriptSites
  | [], sites => sites
  | .mk _ body :: branches, sites =>
    collectBranches sourceId workspaceScope branches
      (collectBareScriptStatements sourceId workspaceScope body sites)

def collectHandler (sourceId : Nat) (workspaceScope : Bool)
    : Option CatchClause → BareScriptSites → BareScriptSites
  | none, sites => sites
  | some (.mk _ body), sites => collectBareScriptStatements sourceId workspaceScope body sites

def collectFunction (sourceId : Nat) : FunctionDef → BareScriptSites → BareScriptSites
  | .mk _ body, sites => collectBareScriptStatements sourceId false body sites

def collectMethods (sourceId : Nat) : List FunctionDef → BareScriptSites → BareScriptSites
  | [], sites => sites
  | method :: methods, sites => collectMethods sourceId methods (collectFunction sourceId method sites)

def collectMethodBlocks (sourceId : Nat) : List MethodBlock → BareScriptSites → BareScriptSites
  | [], sites => sites
  | .mk methods :: blocks, sites =>
    collectMethodBlocks sourceId blocks (collectMethods sourceId methods sites)

end

end Scripts
end OpenMat
