import Std.Data.TreeMap
import Mathlib.Algebra.Order.Ring.Nat
import OpenMat.Diagnostic
import OpenMat.Numeric.Basic
import OpenMat.StaticFunction.Hir

/-!
This module contains the lowering of m callbacks to numerical programs: loops are unrolled, shapes
are tracked at compile time and the environments of conditional branches are merged by selects. The
lexer and the parser are parameters.
-/

namespace OpenMat
namespace StaticFunction

open Hir

/--
The conversions between `f64` and its literals and integers. `isIntegral` is `fract() == 0.0` and
`toInt` is `as i64`.
-/
class StaticScalar (F : Type) extends Scalar F where
  parse : String → Option F
  ofInt : Int → F
  toInt : F → Int
  isIntegral : F → Bool

def maxWidth : Nat := 4096

structure Callback where
  source : String
  entry : String
  deriving DecidableEq, Repr

structure Signature (F : Type) where
  arguments : List (String × Nat)
  parameters : List F
  outputWidth : Nat
  conditions : Bool

/-- An array whose elements are instruction indices, in column-major order. -/
structure StaticArray where
  rows : Nat
  cols : Nat
  values : List Nat
  deriving DecidableEq, Repr

namespace StaticArray

def column (values : List Nat) : StaticArray where
  rows := values.length
  cols := 1
  values := values

def sameShape (a b : StaticArray) : Bool := a.rows == b.rows && a.cols == b.cols

def empty : StaticArray where
  rows := 0
  cols := 0
  values := []

end StaticArray

inductive TokenKind where
  | kwFunction
  | kwEnd
  | kwFor
  | kwIf
  | kwElseif
  | kwElse
  | otherKeyword
  | ellipsis
  | newline
  | otherTrivia
  | lParen
  | lBracket
  | lBrace
  | rParen
  | rBracket
  | rBrace
  | comma
  | semicolon
  | other
  deriving DecidableEq, Repr

namespace TokenKind

def isTrivia : TokenKind → Bool
  | ellipsis => true
  | newline => true
  | otherTrivia => true
  | _ => false

end TokenKind

structure Token where
  kind : TokenKind
  range : TextRange
  deriving DecidableEq, Repr

/--
The lexer, and the parser followed by HIR lowering, which returns the first diagnostic or the file.
-/
structure FrontEnd where
  lex : String → List Token
  parse : String → Except (TextRange × String) HirFile

structure Context where
  block : String
  callback : Callback
  text : String
  conditions : Bool

structure Compiler (F : Type) where
  instructions : List (Instruction F)
  constants : List (Option F)
  locals : Std.TreeMap String StaticArray
  stored : Nat
  statements : Nat

abbrev Compile (F : Type) := StateT (Compiler F) (Except ModelError)

/-- The characters of `text[..stop]`. -/
def textBefore (stop : Nat) : List Char → List Char
  | [] => []
  | c :: rest => if c.utf8Size ≤ stop then c :: textBefore (stop - c.utf8Size) rest else []

def utf16Count (text : List Char) : Nat :=
  text.foldl (fun count c => count + if c.toNat > 0xFFFF then 2 else 1) 0

namespace Context

def error (ctx : Context) (span : TextRange) (code message : String) : ModelError :=
  let before := textBefore span.start ctx.text.toList
  let lastLine := (before.reverse.takeWhile (fun c => c != '\n')).reverse
  { (ModelError.new code message).atPort ctx.block none with
    sourcePath := some ctx.callback.source
    line := some (before.countP (fun c => c == '\n') + 1)
    column := some (utf16Count lastLine + 1) }

end Context

structure Preflight where
  depth : Nat
  control : Nat
  count : Nat
  functions : Nat
  continued : Bool

namespace Preflight

def keyword (p : Preflight) : TokenKind → Preflight
  | .kwFunction => { p with functions := p.functions + 1, control := p.control + 1 }
  | .kwFor => { p with control := p.control + 1 }
  | .kwIf => { p with control := p.control + 1 }
  | .kwEnd => if p.depth = 0 then { p with control := p.control - 1 } else p
  | .ellipsis => { p with continued := true }
  | .newline =>
    { p with count := if p.depth = 0 && !p.continued then 0 else p.count, continued := false }
  | _ => p

def delimiter (p : Preflight) : TokenKind → Preflight
  | .lParen => { p with depth := p.depth + 1 }
  | .lBracket => { p with depth := p.depth + 1 }
  | .lBrace => { p with depth := p.depth + 1 }
  | .rParen => { p with depth := p.depth - 1 }
  | .rBracket => { p with depth := p.depth - 1 }
  | .rBrace => { p with depth := p.depth - 1 }
  | .comma => if p.depth = 0 then { p with count := 0 } else p
  | .semicolon => if p.depth = 0 then { p with count := 0 } else p
  | _ => p

def step (ctx : Context) (p : Preflight) (token : Token) : Except ModelError Preflight :=
  if token.kind = .otherKeyword then
    .error (ctx.error token.range "function_subset"
      "only assignments, static for loops and discrete if branches are supported")
  else
    let p := p.keyword token.kind
    if token.kind.isTrivia then
      .ok p
    else
      let p := { p with count := p.count + 1 }.delimiter token.kind
      if p.depth > 32 ∨ p.control > 16 ∨ p.count > 256 ∨ p.functions > 1 then
        .error (ctx.error token.range "function_complexity"
          "one function, at most 16 control levels, 32 delimiter levels and 256 tokens per statement are supported")
      else
        .ok p

end Preflight

def preflight (ctx : Context) (tokens : List Token) : Except ModelError Unit := do
  let _ ← tokens.foldlM (Preflight.step ctx) ⟨0, 0, 0, 0, false⟩
  return ()

section Expressions

variable {F : Type} [StaticScalar F] (ctx : Context)

def push (i : Instruction F) (span : TextRange) : Compile F Nat := do
  let s ← get
  if s.instructions.length ≥ maxValues then
    throw (ctx.error span "model_limit" "numerical instruction limit exceeded")
  set { s with
    constants := s.constants ++ [i.constant? (fun id => s.constants.getD id none)]
    instructions := s.instructions ++ [i] }
  return s.instructions.length

def bindLocal (name : String) (value : StaticArray) (span : TextRange) : Compile F Unit := do
  let s ← get
  let stored := s.stored + value.values.length
  if stored > maxValues ∨ value.values.length > maxWidth then
    throw (ctx.error span "model_limit"
      "callback local storage or fixed array size limit exceeded")
  set { s with stored := stored, locals := s.locals.insert name value }

/-- A finite real double literal. -/
def literal (number : String) : Option F :=
  let text := String.ofList (number.toList.map fun c => if c = 'd' ∨ c = 'D' then 'e' else c)
  (StaticScalar.parse text).filter Scalar.isFinite

/-- A finite integer of magnitude below 2^31. -/
def integral (v : F) : Option Int :=
  if Scalar.isFinite v && StaticScalar.isIntegral v &&
      Scalar.le (Scalar.math .abs v) (StaticScalar.ofInt 2147483647) then
    some (StaticScalar.toInt v)
  else
    none

variable (nested : Expr → Compile F StaticArray)

def integer (expr : Expr) : Compile F Int := do
  let a ← nested expr
  let s ← get
  let value :=
    match a.values with
    | [id] => (s.constants.getD id none).bind integral
    | _ => none
  match value with
  | some i => return i
  | none =>
    throw (ctx.error expr.span "function_constant"
      "expected a compile-time integer within +/- 2^31")

def boundedIndex (argument : Expr) (bound : Nat) : Compile F Nat := do
  let i ← integer ctx nested argument
  if 1 ≤ i ∧ i ≤ bound then
    return i.toNat - 1
  throw (ctx.error argument.span "function_index" "index is outside one-based fixed array bounds")

def index (array : StaticArray) (arguments : List Expr) (span : TextRange) : Compile F Nat :=
  match arguments with
  | [i] => boundedIndex ctx nested i array.values.length
  | [i, j] => do
    let row ← boundedIndex ctx nested i array.rows
    let col ← boundedIndex ctx nested j array.cols
    return row + col * array.rows
  | _ => throw (ctx.error span "function_index" "expected one or two static indices")

def dimension (expr : Expr) : Compile F Nat := do
  let n ← integer ctx nested expr
  if 0 ≤ n ∧ n ≤ maxWidth then
    return n.toNat
  throw (ctx.error expr.span "function_shape" "dimensions must be static integers 0..4096")

def dimensions (args : List Expr) (span : TextRange) : Compile F (Nat × Nat) := do
  if args.isEmpty ∨ args.length > 2 then
    throw (ctx.error span "function_shape" "expected one or two static dimensions")
  let dims ← args.mapM (dimension ctx nested)
  let rows := dims.getD 0 0
  let cols := dims.getD 1 rows
  if rows * cols > maxWidth then
    throw (ctx.error span "function_shape" "fixed array exceeds 4096 elements")
  return (rows, cols)

/-- The arrays that take part in a concatenation. -/
def partsOf (arrays : List StaticArray) : List StaticArray :=
  let nonempty := arrays.filter (fun a => !a.values.isEmpty)
  -- Shaped empty arrays are preserved; literal [] is 0-by-0.
  if nonempty.isEmpty then arrays.filter (fun a => a.rows != 0 || a.cols != 0) else nonempty

def concatenate (arrays : List StaticArray) (horizontal : Bool) (span : TextRange)
    : Compile F StaticArray := do
  let nonempty := partsOf arrays
  match nonempty with
  | [] => return StaticArray.empty
  | first :: _ =>
    if horizontal then
      if nonempty.any (fun a => a.rows != first.rows) then
        throw (ctx.error span "function_shape"
          "horizontal concatenation requires equal row counts")
      let cols := (nonempty.map StaticArray.cols).sum
      if first.rows * cols > maxWidth then
        throw (ctx.error span "function_shape" "fixed arrays support at most 4096 elements")
      return { rows := first.rows, cols := cols, values := nonempty.flatMap StaticArray.values }
    else
      if nonempty.any (fun a => a.cols != first.cols) then
        throw (ctx.error span "function_shape"
          "vertical concatenation requires equal column counts")
      let rows := (nonempty.map StaticArray.rows).sum
      if rows * first.cols > maxWidth then
        throw (ctx.error span "function_shape" "fixed arrays support at most 4096 elements")
      return {
        rows := rows
        cols := first.cols
        values := (List.range first.cols).flatMap fun col =>
          nonempty.flatMap fun a => (a.values.drop (col * a.rows)).take a.rows
      }

def transpose (a : StaticArray) : StaticArray where
  rows := a.cols
  cols := a.rows
  values := (List.range a.rows).flatMap fun col =>
    (List.range a.cols).map fun row => a.values.getD (col + row * a.rows) 0

def isComparison : BinaryOp → Bool
  | .equal => true
  | .notEqual => true
  | .less => true
  | .lessEqual => true
  | .greater => true
  | .greaterEqual => true
  | _ => false

/-- The instruction of an elementwise operator. -/
def elementInstruction (op : BinaryOp) (x y : Nat) : Option (Instruction F) :=
  match op with
  | .add => some (.add x y)
  | .subtract => some (.subtract x y)
  | .multiply => some (.multiply x y)
  | .elementMultiply => some (.multiply x y)
  | .rightDivide => some (.divide x y)
  | .elementRightDivide => some (.divide x y)
  | .equal => some (.compare .equal x y)
  | .notEqual => some (.compare .notEqual x y)
  | .less => some (.compare .less x y)
  | .lessEqual => some (.compare .lessEqual x y)
  | .greater => some (.compare .greater x y)
  | .greaterEqual => some (.compare .greaterEqual x y)
  | _ => none

def accumulate (a b : StaticArray) (row col : Nat) (span : TextRange) (result : Option Nat)
    (k : Nat) : Compile F (Option Nat) := do
  let x := a.values.getD (row + k * a.rows) 0
  let y := b.values.getD (k + col * b.rows) 0
  let term ← push ctx (.multiply x y) span
  match result with
  | none => return some term
  | some sum =>
    let sum ← push ctx (.add sum term) span
    return some sum

def matmulElement (a b : StaticArray) (span : TextRange) (row col : Nat) : Compile F Nat := do
  let result ← (List.range a.cols).foldlM (accumulate ctx a b row col span) none
  match result with
  | some id => return id
  | none => push ctx (.constant Scalar.zero) span

def matmul (a b : StaticArray) (span : TextRange) : Compile F StaticArray := do
  if a.cols ≠ b.rows ∨ a.rows * b.cols > maxWidth then
    throw (ctx.error span "function_shape"
      "matrix product dimensions disagree or exceed 4096 elements")
  let positions := (List.range b.cols).flatMap fun col =>
    (List.range a.rows).map fun row => (row, col)
  let values ← positions.mapM (fun p => matmulElement ctx a b span p.1 p.2)
  return { rows := a.rows, cols := b.cols, values := values }

def binaryElement (op : BinaryOp) (a b : StaticArray) (span : TextRange) (i : Nat)
    : Compile F Nat := do
  let x := a.values.getD (if a.values.length = 1 then 0 else i) 0
  let y := b.values.getD (if b.values.length = 1 then 0 else i) 0
  match elementInstruction op x y with
  | some instruction => push ctx instruction span
  | none => throw (ctx.error span "function_operator" "unsupported fixed-shape operator")

def binary (op : BinaryOp) (a b : StaticArray) (span : TextRange) : Compile F StaticArray := do
  if isComparison op ∧ (!ctx.conditions ∨ a.values.length ≠ 1 ∨ b.values.length ≠ 1) then
    throw (ctx.error span "function_condition"
      "comparisons require scalar operands in initialize/update")
  if op = .multiply ∧ a.values.length ≠ 1 ∧ b.values.length ≠ 1 then
    matmul ctx a b span
  else if !a.sameShape b ∧ a.values.length ≠ 1 ∧ b.values.length ≠ 1 then
    throw (ctx.error span "function_shape"
      "elementwise operands require identical shapes or a scalar")
  else if op = .rightDivide ∧ b.values.length ≠ 1 then
    throw (ctx.error span "function_shape"
      "matrix division is not supported; use ./ for elementwise division")
  else
    let shape := if a.values.length = 1 then b else a
    let values ← (List.range shape.values.length).mapM (binaryElement ctx op a b span)
    return { rows := shape.rows, cols := shape.cols, values := values }

def unaryElement (op : UnaryOp) (z : Nat) (span : TextRange) (value : Nat) : Compile F Nat :=
  match op with
  | .minus => push ctx (.negate value) span
  | .not => push ctx (.compare .equal value z) span
  | _ => throw (ctx.error span "function_operator" "unsupported unary operator")

def unary (op : UnaryOp) (array : StaticArray) (span : TextRange) : Compile F StaticArray := do
  if op = .not ∧ (!ctx.conditions ∨ array.values.length ≠ 1) then
    throw (ctx.error span "function_condition"
      "logical not requires a scalar in initialize/update")
  if op = .plus then
    return array
  let z ← push ctx (.constant Scalar.zero) span
  let values ← array.values.mapM (unaryElement ctx op z span)
  return { array with values := values }

def mathFunction? : String → Option MathFunction
  | "sin" => some .sin
  | "cos" => some .cos
  | "exp" => some .exp
  | "sqrt" => some .sqrt
  | "abs" => some .abs
  | "tanh" => some .tanh
  | _ => none

def mathIntrinsic (name : String) (args : List Expr) (span : TextRange)
    : Compile F StaticArray := do
  match mathFunction? name with
  | none =>
    throw (ctx.error span "function_call"
      s!"call {name} is outside the fixed-shape callback subset")
  | some function =>
    match args with
    | [argument] =>
      let a ← nested argument
      let values ← a.values.mapM (fun value => push ctx (.math function value) span)
      return { a with values := values }
    | _ =>
      throw (ctx.error span "function_call" "math intrinsic requires exactly one argument")

def constantArray (v : F) (args : List Expr) (span : TextRange) : Compile F StaticArray := do
  let (rows, cols) ← dimensions ctx nested args span
  let id ← push ctx (.constant v) span
  return { rows := rows, cols := cols, values := List.replicate (rows * cols) id }

def reshape (arg : Expr) (dims : List Expr) (span : TextRange) : Compile F StaticArray := do
  let a ← nested arg
  let (rows, cols) ← dimensions ctx nested dims span
  if rows * cols ≠ a.values.length then
    throw (ctx.error span "function_shape" "reshape must preserve the number of elements")
  return { rows := rows, cols := cols, values := a.values }

def scalarSize (size : Nat) (span : TextRange) : Compile F StaticArray := do
  let id ← push ctx (.constant (StaticScalar.ofInt size)) span
  return StaticArray.column [id]

def sizeAlong (arg dim : Expr) (span : TextRange) : Compile F StaticArray := do
  let a ← nested arg
  match ← integer ctx nested dim with
  | 1 => scalarSize ctx a.rows span
  | 2 => scalarSize ctx a.cols span
  | _ => throw (ctx.error span "function_shape" "size dimension must be 1 or 2")

def intrinsic (name : String) (args : List Expr) (span : TextRange) : Compile F StaticArray :=
  match name, args with
  | "zeros", args => constantArray ctx nested Scalar.zero args span
  | "ones", args => constantArray ctx nested Scalar.one args span
  | "reshape", [arg, rows, cols] => reshape ctx nested arg [rows, cols] span
  | "numel", [arg] => do
    let a ← nested arg
    scalarSize ctx a.values.length span
  | "size", [arg, dim] => sizeAlong ctx nested arg dim span
  | name, args => mathIntrinsic ctx nested name args span

def parenApply (target : Expr) (arguments : List Expr) (span : TextRange)
    : Compile F StaticArray := do
  match target with
  | .name name _ =>
    match (← get).locals[name]? with
    | some a =>
      let i ← index ctx nested a arguments span
      return StaticArray.column [a.values.getD i 0]
    | none =>
      if name = ctx.callback.entry then
        throw (ctx.error span "function_call" "recursive calls are not supported")
      intrinsic ctx nested name arguments span
  | _ =>
    throw (ctx.error target.span "function_call"
      "only fixed local indexing and supported intrinsics are allowed")

variable (inner : Expr → Compile F StaticArray)

def matrix (rows : List (List Expr)) (span : TextRange) : Compile F StaticArray := do
  let pieces ← rows.mapM fun row => do
    let items ← row.mapM inner
    concatenate ctx items true span
  concatenate ctx pieces false span

/--
One level of `expression`: `inner` compiles one level deeper and `nested` two levels deeper.
-/
def expressionStep (expr : Expr) : Compile F StaticArray :=
  match expr with
  | .number number span =>
    match literal number with
    | some value => do
      let id ← push ctx (.constant value) span
      return StaticArray.column [id]
    | none =>
      throw (ctx.error span "function_literal" "expected a finite real double literal")
  | .name name span => do
    match (← get).locals[name]? with
    | some a => return a
    | none => throw (ctx.error span "function_name" s!"undefined local variable: {name}")
  | .paren value _ => inner value
  | .unary operator operand span => do
    let array ← inner operand
    unary ctx operator array span
  | .binary operator left right span => do
    let a ← inner left
    let b ← inner right
    binary ctx operator a b span
  | .matrix rows span => matrix ctx inner rows span
  | .transpose operand _ => do
    let a ← inner operand
    return transpose a
  | .parenApply target arguments span => parenApply ctx nested target arguments span
  | expr =>
    throw (ctx.error expr.span "function_subset"
      "expression is outside the fixed-shape callback subset")

def tooDeep (expr : Expr) : Compile F StaticArray :=
  throw (ctx.error expr.span "function_depth" "expression nesting limit exceeded")

/--
`expression ctx (129 - depth)` compiles an expression at nesting level `depth`.
-/
def expression : Nat → Expr → Compile F StaticArray
  | 0 => tooDeep ctx
  | 1 => expressionStep ctx (tooDeep ctx) (tooDeep ctx)
  | n + 2 => expressionStep ctx (expression n) (expression (n + 1))

end Expressions

section Statements

variable {F : Type} [StaticScalar F] (ctx : Context)

def assignment (target : Expr) (value : StaticArray) : Compile F Unit :=
  match target with
  | .name name span => bindLocal ctx name value span
  | .parenApply (.name name _) arguments span => do
    match (← get).locals[name]? with
    | some array =>
      let i ← index ctx (expression ctx 128) array arguments span
      match value.values with
      | [id] => bindLocal ctx name { array with values := array.values.set i id } span
      | _ =>
        throw (ctx.error span "function_assignment" "indexed assignment requires a scalar value")
    | none =>
      throw (ctx.error span "function_assignment"
        "create the fixed array before indexed assignment")
  | .parenApply _ _ span =>
    throw (ctx.error span "function_assignment"
      "indexed assignment requires a fixed local array")
  | target => throw (ctx.error target.span "function_assignment" "unsupported assignment target")

/-- The number of iterations of `start:step:end` for a nonzero step. -/
def iterations (start step stop : Int) : Nat :=
  if (step > 0 ∧ start ≤ stop) ∨ (step < 0 ∧ start ≥ stop) then
    ((stop - start).tdiv step + 1).toNat
  else
    0

variable (inner : List Stmt → Compile F Unit)

def iteration (name : String) (span : TextRange) (statements : List Stmt) (value : Int)
    : Compile F Unit := do
  let id ← push ctx (.constant (StaticScalar.ofInt value)) span
  bindLocal ctx name (StaticArray.column [id]) span
  inner statements

def stride (step : Option Expr) : Compile F Int :=
  match step with
  | some step => integer ctx (expression ctx 128) step
  | none => return 1

def loopBody (loopVariable iterable : Expr) (statements : List Stmt) : Compile F Unit :=
  match loopVariable, iterable with
  | .name name span, .range start step stop range => do
    let start ← integer ctx (expression ctx 128) start
    let step ← stride ctx step
    let stop ← integer ctx (expression ctx 128) stop
    if step = 0 then
      throw (ctx.error range "function_loop" "for step cannot be zero")
    let count := iterations start step stop
    if count > 1024 then
      throw (ctx.error range "function_loop" "for supports at most 1024 static iterations")
    -- The final loop variable stays in the local scope.
    (List.range count).forM fun i => iteration ctx inner name span statements (start + i * step)
    if count = 0 then
      bindLocal ctx name StaticArray.empty span
  | .name _ _, iterable =>
    throw (ctx.error iterable.span "function_loop" "for requires a compile-time integer range")
  | loopVariable, _ =>
    throw (ctx.error loopVariable.span "function_loop" "for requires a local loop variable")

structure Case where
  condition : Nat
  locals : Std.TreeMap String StaticArray
  span : TextRange

def branch (incoming : Std.TreeMap String StaticArray) : ConditionalBranch → Compile F Case
  | .mk condition statements span => do
    modify fun s => { s with locals := incoming }
    let c ← expression ctx 129 condition
    match c.values with
    | [id] =>
      inner statements
      return { condition := id, locals := (← get).locals, span := span }
    | _ => throw (ctx.error condition.span "function_condition" "if requires a scalar condition")

def mergeValue (condition : Nat) (span : TextRange) (p : Nat × Nat) : Compile F Nat :=
  if p.1 = p.2 then pure p.1 else push ctx (.select condition p.1 p.2) span

def mergeLocal (condition : Nat) (fallback : Std.TreeMap String StaticArray) (span : TextRange)
    (p : String × StaticArray) : Compile F Unit := do
  match fallback[p.1]? with
  | none => return ()
  | some b =>
    if !p.2.sameShape b then
      throw (ctx.error span "function_shape"
        "if branches must assign identical fixed shapes")
    let values ← (p.2.values.zip b.values).mapM (mergeValue ctx condition span)
    bindLocal ctx p.1 { p.2 with values := values } span

def merge (c : Case) : Compile F Unit := do
  let fallback := (← get).locals
  modify fun s => { s with locals := ∅ }
  c.locals.toList.forM (mergeLocal ctx c.condition fallback c.span)

def conditional (branches : List ConditionalBranch) (otherwise : List Stmt) : Compile F Unit := do
  let incoming := (← get).locals
  let cases ← branches.mapM (branch ctx inner incoming)
  modify fun s => { s with locals := incoming }
  inner otherwise
  cases.reverse.forM (merge ctx)

def statement (stmt : Stmt) : Compile F Unit := do
  let s ← get
  set { s with statements := s.statements + 1 }
  if s.statements + 1 > 100000 then
    throw (ctx.error stmt.span "function_complexity" "unrolled statement budget exceeded")
  match stmt with
  | .assignment target value _ =>
    let value ← expression ctx 129 value
    assignment ctx target value
  | .forLoop loopVariable iterable statements _ =>
    loopBody ctx inner loopVariable iterable statements
  | .ifElse branches otherwise span =>
    if ctx.conditions then
      conditional ctx inner branches otherwise
    else
      throw (ctx.error span "function_subset"
        "expected assignment or static for; if is only supported in initialize/update")
  | stmt =>
    throw (ctx.error stmt.span "function_subset"
      "expected assignment or static for; if is only supported in initialize/update")

/--
`body ctx (17 - depth)` compiles a statement list at control level `depth`.
-/
def body : Nat → List Stmt → Compile F Unit
  | 0, statements =>
    -- An empty body at this level panics in the source; the preflight excludes the level.
    throw (ctx.error ((statements.head?.map Stmt.span).getD ⟨0, 0⟩) "function_complexity"
      "control nesting exceeds 16")
  | n + 1, statements => statements.forM (statement ctx (body n))

end Statements

section Compile

variable {F : Type} [StaticScalar F]

def Compiler.initial : Compiler F where
  instructions := []
  constants := []
  locals := ∅
  stored := 0
  statements := 0

/-- Bind one argument to the next inputs and return the offset after it. -/
def bindArgument (ctx : Context) (span : TextRange) (offset : Nat) (argument : String × Nat)
    : Compile F Nat := do
  let ids ← (List.range' offset argument.2).mapM (fun i => push ctx (.input i) span)
  bindLocal ctx argument.1 (StaticArray.column ids) span
  return offset + argument.2

structure Lowered where
  offset : Nat
  output : StaticArray

def lowerFunction (ctx : Context) (signature : Signature F) (output : Name)
    (statements : List Stmt) (span : TextRange) : Compile F Lowered := do
  let offset ← signature.arguments.foldlM (bindArgument ctx span) 0
  let parameters ← signature.parameters.mapM (fun v => push ctx (.constant v) span)
  bindLocal ctx "p" (StaticArray.column parameters) span
  body ctx 17 statements
  match (← get).locals[output.text]? with
  | none =>
    throw (ctx.error span "function_output" "output must be assigned on every path")
  | some output =>
    if output.values.length ≠ signature.outputWidth ∨
        (output.cols ≠ 1 ∧ !output.values.isEmpty) then
      throw (ctx.error span "signal_width"
        s!"expected a column output with {signature.outputWidth} elements, found {output.rows} by {output.cols}")
    return { offset := offset, output := output }

def compileFunction (ctx : Context) (signature : Signature F) (stmt : Stmt)
    : Except ModelError (Program F) :=
  match stmt with
  | .function name outputs inputs statements span =>
    match outputs with
    | [output] =>
      if name.map Name.text ≠ some ctx.callback.entry ∨
          inputs.map Name.text ≠ signature.arguments.map Prod.fst ++ ["p"] then
        .error (ctx.error span "function_signature"
          "callback name and ordered arguments must match its lifecycle signature, with exactly one output")
      else do
        let (lowered, compiler) ←
          (lowerFunction ctx signature output statements span).run Compiler.initial
        match Program.new lowered.offset compiler.instructions lowered.output.values with
        | .ok p => .ok p.pruned
        | .error e => .error ((ModelError.new "numerical_ir" e.message).atPort ctx.block none)
    | _ =>
      .error (ctx.error span "function_signature"
        "callback name and ordered arguments must match its lifecycle signature, with exactly one output")
  | stmt => .error (ctx.error stmt.span "function_file" "expected a function declaration")

def compile (front : FrontEnd) (block : String) (callback : Callback) (signature : Signature F)
    (sources : Std.TreeMap String String) : Except ModelError (Program F) :=
  match sources[callback.source]? with
  | none =>
    .error ((ModelError.new "source_missing"
      s!"missing source snapshot: {callback.source}").atPort block none)
  | some text => do
    let ctx : Context :=
      { block := block, callback := callback, text := text, conditions := signature.conditions }
    preflight ctx (front.lex text)
    match front.parse text with
    | .error (range, message) => .error (ctx.error range "function_syntax" message)
    | .ok file =>
      match file.statements with
      | [stmt] => compileFunction ctx signature stmt
      | _ =>
        .error (ctx.error file.span "function_file"
          "expected exactly one function and no script statements")

end Compile

end StaticFunction
end OpenMat
