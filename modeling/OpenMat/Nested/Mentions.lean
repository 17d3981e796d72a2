import OpenMat.Nested.Names

/-!
This module contains what it means that a function refers to a name: the name occurs in one of its own
statements, where it is not a parameter of an anonymous function. The names that the binding analysis
collects are these names.
-/

namespace OpenMat
namespace Nested

section Expressions

/-- The parts of an expression that refer to the same names as the expression. -/
def Expr.operands : Expr → List Expr
  | .paren inner => [inner]
  | .unary operand => [operand]
  | .transpose operand => [operand]
  | .parenApply target arguments => target :: arguments
  | .braceApply target arguments => target :: arguments
  | .superclassConstructorCall object arguments => object :: arguments
  | .field target => [target]
  | .dynamicField target fieldName => [target, fieldName]
  | .binary left right => [left, right]
  | .range start step stop => start :: step.toList ++ [stop]
  | .matrix elements => elements
  | .cell elements => elements
  | .name _ => []
  | .functionHandle _ => []
  | .anonymousFunction _ _ => []
  | .other => []

/-- A name occurs in an expression, and is no parameter of an anonymous function there. -/
inductive Expr.Refers (n : String) : Expr → Prop where
  | name : Refers n (.name n)
  | functionHandle : Refers n (.functionHandle (some n))
  | anonymousFunction {parameters : List String} {body : Expr} (hfree : n ∉ parameters)
      (h : Refers n body) : Refers n (.anonymousFunction parameters body)
  | operand {e operand : Expr} (hmem : operand ∈ e.operands) (h : Refers n operand) : Refers n e

variable {n : String} {bound : List String}

theorem mem_collectExpressions {expressions : List Expr}
    : n ∈ collectExpressionLexicalNames.collectExpressions bound expressions
        ↔ ∃ e ∈ expressions, n ∈ collectExpressionLexicalNames bound e := by
  induction expressions with
  | nil => simp [collectExpressionLexicalNames.collectExpressions]
  | cons e expressions ih => simp [collectExpressionLexicalNames.collectExpressions, ih]

theorem mem_collectOption {expression : Option Expr}
    : n ∈ collectExpressionLexicalNames.collectOption bound expression
        ↔ ∃ e, expression = some e ∧ n ∈ collectExpressionLexicalNames bound e := by
  cases expression <;> simp [collectExpressionLexicalNames.collectOption]

theorem mem_collectExpressionLexicalNames_of_operand {e operand : Expr} (hmem : operand ∈ e.operands)
    (h : n ∈ collectExpressionLexicalNames bound operand)
    : n ∈ collectExpressionLexicalNames bound e := by
  cases e
  case name | functionHandle | anonymousFunction | other => cases hmem
  all_goals
    simp only [Expr.operands, List.mem_cons, List.mem_append, List.not_mem_nil, or_false,
      Option.mem_toList] at hmem
    simp only [collectExpressionLexicalNames, List.mem_append, mem_collectExpressions,
      mem_collectOption]
    grind

/-- Names that are collected come from the operands, but for the expressions that have none. -/
theorem exists_operand_of_mem {e : Expr} (h : n ∈ collectExpressionLexicalNames bound e)
    : (n ∉ bound ∧ (e = .name n ∨ e = .functionHandle (some n)))
        ∨ (∃ parameters body, e = .anonymousFunction parameters body
          ∧ n ∈ collectExpressionLexicalNames (parameters ++ bound) body)
        ∨ ∃ operand ∈ e.operands, n ∈ collectExpressionLexicalNames bound operand := by
  cases e
  case name text =>
    rw [collectExpressionLexicalNames] at h
    grind
  case functionHandle name =>
    cases name <;> rw [collectExpressionLexicalNames] at h <;> grind
  case anonymousFunction parameters body => exact .inr (.inl ⟨parameters, body, rfl, h⟩)
  case other => cases h
  all_goals
    simp only [collectExpressionLexicalNames, List.mem_append, mem_collectExpressions,
      mem_collectOption] at h
    simp only [Expr.operands, List.mem_cons, List.mem_append, List.not_mem_nil, or_false,
      Option.mem_toList]
    grind

theorem Expr.Refers.mem {e : Expr} (h : e.Refers n) (hbound : n ∉ bound)
    : n ∈ collectExpressionLexicalNames bound e := by
  induction h generalizing bound with
  | name => simp [collectExpressionLexicalNames, hbound]
  | functionHandle => simp [collectExpressionLexicalNames, hbound]
  | anonymousFunction hfree _ ih =>
    rw [collectExpressionLexicalNames]
    exact ih (by simp [hfree, hbound])
  | operand hmem _ ih => exact mem_collectExpressionLexicalNames_of_operand hmem (ih hbound)

theorem Expr.sizeOf_lt_of_mem_operands {e operand : Expr} (h : operand ∈ e.operands)
    : sizeOf operand < sizeOf e := by
  cases e
  case name | functionHandle | anonymousFunction | other => cases h
  case range start step stop =>
    simp only [Expr.operands, List.mem_cons, List.mem_append, List.not_mem_nil, or_false,
      Option.mem_toList] at h
    rcases h with (rfl | rfl) | rfl <;> simp +arith
  case parenApply target arguments | braceApply target arguments
      | superclassConstructorCall target arguments =>
    rcases List.mem_cons.mp h with rfl | h
    . simp +arith
    . have := List.sizeOf_lt_of_mem h
      simp +arith
      omega
  case matrix elements | cell elements =>
    have : sizeOf operand < sizeOf elements := List.sizeOf_lt_of_mem h
    simp +arith
    omega
  all_goals
    simp only [Expr.operands, List.mem_cons, List.not_mem_nil, or_false] at h
    rcases h with rfl | rfl <;> simp +arith

theorem Expr.refers_of_mem (e : Expr) {bound : List String}
    (h : n ∈ collectExpressionLexicalNames bound e)
    : n ∉ bound ∧ e.Refers n := by
  rcases exists_operand_of_mem h with ⟨hbound, rfl | rfl⟩ | ⟨parameters, body, rfl, hbody⟩
      | ⟨operand, hmem, hoperand⟩
  . exact ⟨hbound, .name⟩
  . exact ⟨hbound, .functionHandle⟩
  . obtain ⟨hfree, hrefers⟩ := Expr.refers_of_mem body hbody
    rw [List.mem_append, not_or] at hfree
    exact ⟨hfree.2, .anonymousFunction hfree.1 hrefers⟩
  . have := sizeOf_lt_of_mem_operands hmem
    obtain ⟨hbound, hrefers⟩ := Expr.refers_of_mem operand hoperand
    exact ⟨hbound, .operand hmem hrefers⟩
termination_by sizeOf e

theorem mem_collectExpressionLexicalNames_iff {e : Expr}
    : n ∈ collectExpressionLexicalNames [] e ↔ e.Refers n :=
  ⟨fun h => (Expr.refers_of_mem e h).2, fun h => h.mem (by simp)⟩

end Expressions

section Statements

namespace ConditionalBranch

def condition : ConditionalBranch → Expr
  | mk condition _ => condition

def body : ConditionalBranch → List Stmt
  | mk _ body => body

end ConditionalBranch

namespace CatchClause

def variableName : CatchClause → Option String
  | mk variableName _ => variableName

def body : CatchClause → List Stmt
  | mk _ body => body

end CatchClause

namespace Stmt

/-- The expressions of a statement itself. -/
def expressions : Stmt → List Expr
  | assignment target value => [target, value]
  | expr expression => [expression]
  | ifElse branches _ => branches.map ConditionalBranch.condition
  | forLoop loopVariable iterable _ => [loopVariable, iterable]
  | whileLoop condition _ => [condition]
  | switch selector cases _ => selector :: cases.map ConditionalBranch.condition
  | arguments declarations => declarations.flatMap fun declaration =>
    declaration.dimensions ++ declaration.validators ++ declaration.default.toList
  | command _ => []
  | declaration _ => []
  | tryCatch _ _ => []
  | function _ => []
  | other => []

/-- The statements in a statement, without those of nested functions. -/
def statements : Stmt → List Stmt
  | ifElse branches elseBody => branches.flatMap ConditionalBranch.body ++ elseBody
  | forLoop _ _ body => body
  | whileLoop _ body => body
  | tryCatch body none => body
  | tryCatch body (some handler) => body ++ handler.body
  | switch _ cases otherwise => cases.flatMap ConditionalBranch.body ++ otherwise
  | assignment _ _ => []
  | expr _ => []
  | arguments _ => []
  | command _ => []
  | declaration _ => []
  | function _ => []
  | other => []

/-- A name occurs in an expression of a statement, or is the command of one. -/
inductive Refers (n : String) : Stmt → Prop where
  | expression {s : Stmt} {e : Expr} (hmem : e ∈ s.expressions) (h : e.Refers n) : Refers n s
  | command (himport : n ≠ "import") : Refers n (.command (some n))
  | statement {s t : Stmt} (hmem : t ∈ s.statements) (h : Refers n t) : Refers n s

end Stmt

variable {n : String}

theorem mem_collectLexicalNames {statements : List Stmt}
    : n ∈ collectLexicalNames statements ↔ ∃ s ∈ statements, n ∈ collectStatementNames s := by
  induction statements with
  | nil => simp [collectLexicalNames]
  | cons s statements ih => simp [collectLexicalNames, ih]

theorem mem_collectBranchNames {branches : List ConditionalBranch}
    : n ∈ collectBranchNames branches ↔ ∃ branch ∈ branches,
        n ∈ collectExpressionLexicalNames [] branch.condition ∨ n ∈ collectLexicalNames branch.body := by
  induction branches with
  | nil => simp [collectBranchNames]
  | cons branch branches ih =>
    obtain ⟨condition, body⟩ := branch
    simp only [collectBranchNames, List.mem_append, ih, List.mem_cons, exists_eq_or_imp]
    rfl

theorem mem_collectStatementNames {s : Stmt}
    : n ∈ collectStatementNames s ↔ (∃ e ∈ s.expressions, n ∈ collectExpressionLexicalNames [] e)
        ∨ (s = .command (some n) ∧ n ≠ "import")
        ∨ ∃ t ∈ s.statements, n ∈ collectStatementNames t := by
  cases s
  case tryCatch body handler =>
    cases handler with
    | none =>
      simp [collectStatementNames, mem_collectLexicalNames, Stmt.expressions, Stmt.statements]
    | some handler =>
      obtain ⟨variableName, handlerBody⟩ := handler
      simp only [collectStatementNames, collectHandlerNames, List.mem_append, mem_collectLexicalNames,
        Stmt.expressions, Stmt.statements, CatchClause.body]
      grind
  case arguments declarations =>
    simp only [collectStatementNames, collectArgumentNames, Stmt.expressions, Stmt.statements,
      List.mem_flatMap]
    grind
  case command callee =>
    cases callee <;> simp [collectStatementNames, Stmt.expressions, Stmt.statements]
    grind
  all_goals
    simp only [collectStatementNames, mem_collectLexicalNames, mem_collectBranchNames, Stmt.expressions,
      Stmt.statements, List.mem_append, List.mem_flatMap, List.mem_map]
    grind

theorem Stmt.Refers.mem {s : Stmt} (h : s.Refers n)
    : n ∈ collectStatementNames s := by
  induction h with
  | expression hmem h =>
    exact mem_collectStatementNames.mpr (.inl ⟨_, hmem, mem_collectExpressionLexicalNames_iff.mpr h⟩)
  | command himport => exact mem_collectStatementNames.mpr (.inr (.inl ⟨rfl, himport⟩))
  | statement hmem _ ih => exact mem_collectStatementNames.mpr (.inr (.inr ⟨_, hmem, ih⟩))

theorem ConditionalBranch.sizeOf_lt_of_mem {branches : List ConditionalBranch} {t : Stmt}
    (h : t ∈ branches.flatMap ConditionalBranch.body)
    : sizeOf t < sizeOf branches := by
  obtain ⟨⟨condition, body⟩, hbranch, ht⟩ := List.mem_flatMap.mp h
  have hbody := List.sizeOf_lt_of_mem ht
  have hmem := List.sizeOf_lt_of_mem hbranch
  simp only [ConditionalBranch.body, ConditionalBranch.mk.sizeOf_spec] at hbody hmem
  omega

theorem Stmt.sizeOf_lt_of_mem_statements {s t : Stmt} (h : t ∈ s.statements)
    : sizeOf t < sizeOf s := by
  cases s
  case ifElse branches elseBody =>
    rcases List.mem_append.mp h with h | h
    . have := ConditionalBranch.sizeOf_lt_of_mem h
      simp +arith
      omega
    . have := List.sizeOf_lt_of_mem h
      simp +arith
      omega
  case switch selector cases otherwise =>
    rcases List.mem_append.mp h with h | h
    . have := ConditionalBranch.sizeOf_lt_of_mem h
      simp +arith
      omega
    . have := List.sizeOf_lt_of_mem h
      simp +arith
      omega
  case tryCatch body handler =>
    cases handler with
    | none =>
      have : sizeOf t < sizeOf body := List.sizeOf_lt_of_mem h
      simp +arith
      omega
    | some handler =>
      obtain ⟨variableName, handlerBody⟩ := handler
      rcases List.mem_append.mp h with h | h <;>
      . have := List.sizeOf_lt_of_mem h
        simp +arith [CatchClause.body] at this ⊢
        omega
  case forLoop body | whileLoop body =>
    have : sizeOf t < sizeOf body := List.sizeOf_lt_of_mem h
    simp +arith
    omega
  all_goals cases h

theorem Stmt.refers_of_mem (s : Stmt) (h : n ∈ collectStatementNames s)
    : s.Refers n := by
  rcases mem_collectStatementNames.mp h with ⟨e, hmem, he⟩ | ⟨rfl, himport⟩ | ⟨t, hmem, ht⟩
  . exact .expression hmem (mem_collectExpressionLexicalNames_iff.mp he)
  . exact .command himport
  . have := sizeOf_lt_of_mem_statements hmem
    exact .statement hmem (Stmt.refers_of_mem t ht)
termination_by sizeOf s

end Statements

section Catches

mutual

/-- The variables that the `catch` clauses in a statement bind, without those of nested functions. -/
def statementCatches : Stmt → List String
  | .ifElse branches elseBody => branchCatches branches ++ catchVariables elseBody
  | .forLoop _ _ body => catchVariables body
  | .whileLoop _ body => catchVariables body
  | .tryCatch body none => catchVariables body
  | .tryCatch body (some handler) => catchVariables body ++ handlerCatches handler
  | .switch _ cases otherwise => branchCatches cases ++ catchVariables otherwise
  | .declaration _ => []
  | .assignment _ _ => []
  | .expr _ => []
  | .command _ => []
  | .arguments _ => []
  | .function _ => []
  | .other => []

def catchVariables : List Stmt → List String
  | [] => []
  | statement :: statements => statementCatches statement ++ catchVariables statements

def branchCatches : List ConditionalBranch → List String
  | [] => []
  | .mk _ body :: branches => catchVariables body ++ branchCatches branches

def handlerCatches : CatchClause → List String
  | .mk variableName body => variableName.toList ++ catchVariables body

end

end Catches

end Nested
end OpenMat
