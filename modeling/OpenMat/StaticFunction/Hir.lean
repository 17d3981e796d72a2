import Mathlib.Data.List.Basic

/-!
This module contains the part of the HIR that callback lowering looks at. Every expression and
statement kind that it rejects without looking inside is `other`.
-/

namespace OpenMat
namespace Hir

structure TextRange where
  start : Nat
  stop : Nat
  deriving DecidableEq, Repr

structure Name where
  text : String
  span : TextRange
  deriving DecidableEq, Repr

inductive UnaryOp where
  | plus
  | minus
  | not
  | unknown
  deriving DecidableEq, Repr

inductive BinaryOp where
  | add
  | subtract
  | multiply
  | rightDivide
  | leftDivide
  | power
  | elementMultiply
  | elementRightDivide
  | elementLeftDivide
  | elementPower
  | equal
  | notEqual
  | less
  | lessEqual
  | greater
  | greaterEqual
  | and
  | shortCircuitAnd
  | or
  | shortCircuitOr
  | unknown
  deriving DecidableEq, Repr

inductive Expr where
  | name (text : String) (span : TextRange)
  | number (text : String) (span : TextRange)
  | paren (value : Expr) (span : TextRange)
  | parenApply (target : Expr) (arguments : List Expr) (span : TextRange)
  | unary (operator : UnaryOp) (operand : Expr) (span : TextRange)
  | binary (operator : BinaryOp) (left right : Expr) (span : TextRange)
  | range (start : Expr) (step : Option Expr) (stop : Expr) (span : TextRange)
  | transpose (operand : Expr) (span : TextRange)
  | matrix (rows : List (List Expr)) (span : TextRange)
  | other (span : TextRange)

def Expr.span : Expr → TextRange
  | name _ span => span
  | number _ span => span
  | paren _ span => span
  | parenApply _ _ span => span
  | unary _ _ span => span
  | binary _ _ _ span => span
  | range _ _ _ span => span
  | transpose _ span => span
  | matrix _ span => span
  | other span => span

mutual

inductive Stmt where
  | assignment (target value : Expr) (span : TextRange)
  | forLoop (loopVariable iterable : Expr) (body : List Stmt) (span : TextRange)
  | ifElse (branches : List ConditionalBranch) (elseBody : List Stmt) (span : TextRange)
  | function (name : Option Name) (outputs inputs : List Name) (body : List Stmt)
      (span : TextRange)
  | other (span : TextRange)

inductive ConditionalBranch where
  | mk (condition : Expr) (body : List Stmt) (span : TextRange)

end

def Stmt.span : Stmt → TextRange
  | assignment _ _ span => span
  | forLoop _ _ _ span => span
  | ifElse _ _ span => span
  | function _ _ _ _ span => span
  | other span => span

structure HirFile where
  span : TextRange
  statements : List Stmt

end Hir
end OpenMat
