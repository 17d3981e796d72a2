import OpenMat.StaticFunction.Compiler

/-!
This module contains the direct evaluation of the callback language on matrices of scalars. It
states what a callback means: there are no instructions, no limits and no nesting levels.
-/

namespace OpenMat
namespace StaticFunction

open Hir

/-- A matrix. Entries outside of its shape are not part of it. -/
structure Mat (F : Type) where
  rows : Nat
  cols : Nat
  entry : Nat → Nat → F

variable {F : Type}

/-- The elements of a `rows` by `cols` table, column by column. -/
def columnMajor {α : Type} (rows cols : Nat) (f : Nat → Nat → α) : List α :=
  (List.range cols).flatMap fun col => (List.range rows).map fun row => f row col

namespace Mat

def toList (m : Mat F) : List F := columnMajor m.rows m.cols m.entry

def numel (m : Mat F) : Nat := m.rows * m.cols

def isScalar (m : Mat F) : Bool := m.numel == 1

def scalar (v : F) : Mat F where
  rows := 1
  cols := 1
  entry _ _ := v

def scalar? (m : Mat F) : Option F := if m.isScalar then some (m.entry 0 0) else none

def map (f : F → F) (m : Mat F) : Mat F := { m with entry := fun i j => f (m.entry i j) }

def transpose (m : Mat F) : Mat F where
  rows := m.cols
  cols := m.rows
  entry i j := m.entry j i

def linear (m : Mat F) (k : Nat) : F := m.entry (k % m.rows) (k / m.rows)

def reshape (m : Mat F) (rows cols : Nat) : Mat F where
  rows := rows
  cols := cols
  entry i j := m.linear (i + j * rows)

def set (m : Mat F) (row col : Nat) (v : F) : Mat F :=
  { m with entry := fun i j => if i = row ∧ j = col then v else m.entry i j }

def empty [Inhabited F] : Mat F where
  rows := 0
  cols := 0
  entry _ _ := default

def column [Inhabited F] (values : List F) : Mat F where
  rows := values.length
  cols := 1
  entry i _ := values.getD i default

def hcatEntry [Inhabited F] : List (Mat F) → Nat → Nat → F
  | [], _, _ => default
  | m :: ms, i, j => if j < m.cols then m.entry i j else hcatEntry ms i (j - m.cols)

def vcatEntry [Inhabited F] : List (Mat F) → Nat → Nat → F
  | [], _, _ => default
  | m :: ms, i, j => if i < m.rows then m.entry i j else vcatEntry ms (i - m.rows) j

def hcat [Inhabited F] (ms : List (Mat F)) : Option (Mat F) :=
  match ms with
  | [] => some empty
  | m :: _ =>
    if ms.all (fun m' => m'.rows == m.rows) then
      some { rows := m.rows, cols := (ms.map Mat.cols).sum, entry := hcatEntry ms }
    else
      none

def vcat [Inhabited F] (ms : List (Mat F)) : Option (Mat F) :=
  match ms with
  | [] => some empty
  | m :: _ =>
    if ms.all (fun m' => m'.cols == m.cols) then
      some { rows := (ms.map Mat.rows).sum, cols := m.cols, entry := vcatEntry ms }
    else
      none

/--
The operands that take part in a concatenation: the nonempty ones, or else the shaped empty ones.
-/
def parts (ms : List (Mat F)) : List (Mat F) :=
  let nonempty := ms.filter (fun m => m.numel != 0)
  if nonempty.isEmpty then ms.filter (fun m => m.rows != 0 || m.cols != 0) else nonempty

def dot [Scalar F] : List F → F
  | [] => Scalar.zero
  | t :: ts => ts.foldl Scalar.add t

def mul [Scalar F] (a b : Mat F) : Option (Mat F) :=
  if a.cols = b.rows then
    some {
      rows := a.rows
      cols := b.cols
      entry := fun i j =>
        dot ((List.range a.cols).map fun k => Scalar.mul (a.entry i k) (b.entry k j))
    }
  else
    none

/-- The entry at a position, where a scalar has the same entry everywhere. -/
def spread (m : Mat F) (i j : Nat) : F := if m.isScalar then m.entry 0 0 else m.entry i j

end Mat

section Operators

variable [Scalar F]

def scalarOperator (op : BinaryOp) : Option (F → F → F) :=
  match op with
  | .add => some Scalar.add
  | .subtract => some Scalar.sub
  | .multiply => some Scalar.mul
  | .elementMultiply => some Scalar.mul
  | .rightDivide => some Scalar.div
  | .elementRightDivide => some Scalar.div
  | .equal => some Comparison.equal.evaluate
  | .notEqual => some Comparison.notEqual.evaluate
  | .less => some Comparison.less.evaluate
  | .lessEqual => some Comparison.lessEqual.evaluate
  | .greater => some Comparison.greater.evaluate
  | .greaterEqual => some Comparison.greaterEqual.evaluate
  | _ => none

def elementwise (op : BinaryOp) (a b : Mat F) : Option (Mat F) :=
  if a.isScalar ∨ b.isScalar ∨ (a.rows = b.rows ∧ a.cols = b.cols) then
    let shape := if a.isScalar then b else a
    -- An operator applied to no elements is not looked at.
    if shape.numel = 0 then
      some shape
    else do
      let f ← scalarOperator op
      return { shape with entry := fun i j => f (a.spread i j) (b.spread i j) }
  else
    none

def binaryValue (op : BinaryOp) (a b : Mat F) : Option (Mat F) :=
  if op = .multiply ∧ !a.isScalar ∧ !b.isScalar then
    a.mul b
  else if op = .rightDivide ∧ !b.isScalar then
    none
  else
    elementwise op a b

def unaryValue (op : UnaryOp) (m : Mat F) : Option (Mat F) :=
  match op with
  | .plus => some m
  | .minus => some (m.map Scalar.neg)
  | .not => some (m.map fun v => Comparison.equal.evaluate v Scalar.zero)
  | .unknown => if m.numel = 0 then some m else none

end Operators

abbrev Env (F : Type) := String → Option (Mat F)

def Env.bind (env : Env F) (name : String) (m : Mat F) : Env F :=
  fun x => if x = name then some m else env x

/-- The variables that are bound on both paths, with the values of the chosen path. -/
def Env.join (chosen other : Env F) : Env F :=
  fun x => if (other x).isSome then chosen x else none

variable [StaticScalar F]

def Mat.integer? (m : Mat F) : Option Int := m.scalar?.bind integral

/-- The zero-based row and column that one or two one-based subscripts select. -/
def subscript (m : Mat F) (arguments : List (Mat F)) : Option (Nat × Nat) :=
  match arguments with
  | [k] => do
    let k ← k.integer?
    if 1 ≤ k ∧ k ≤ m.numel then
      some ((k.toNat - 1) % m.rows, (k.toNat - 1) / m.rows)
    else
      none
  | [i, j] => do
    let i ← i.integer?
    let j ← j.integer?
    if (1 ≤ i ∧ i ≤ m.rows) ∧ (1 ≤ j ∧ j ≤ m.cols) then
      some (i.toNat - 1, j.toNat - 1)
    else
      none
  | _ => none

def naturalDimension (m : Mat F) : Option Nat := do
  let n ← m.integer?
  if 0 ≤ n then some n.toNat else none

def dimensionValues (arguments : List (Mat F)) : Option (Nat × Nat) :=
  match arguments with
  | [n] => do
    let n ← naturalDimension n
    some (n, n)
  | [rows, cols] => do
    let rows ← naturalDimension rows
    let cols ← naturalDimension cols
    some (rows, cols)
  | _ => none

def filled (v : F) (arguments : List (Mat F)) : Option (Mat F) := do
  let (rows, cols) ← dimensionValues arguments
  some { rows := rows, cols := cols, entry := fun _ _ => v }

def intrinsicValue (name : String) (arguments : List (Mat F)) : Option (Mat F) :=
  match name, arguments with
  | "zeros", arguments => filled Scalar.zero arguments
  | "ones", arguments => filled Scalar.one arguments
  | "reshape", [m, rows, cols] => do
    let (rows, cols) ← dimensionValues [rows, cols]
    if rows * cols = m.numel then some (m.reshape rows cols) else none
  | "numel", [m] => some (Mat.scalar (StaticScalar.ofInt m.numel))
  | "size", [m, dim] => do
    match ← dim.integer? with
    | 1 => some (Mat.scalar (StaticScalar.ofInt m.rows))
    | 2 => some (Mat.scalar (StaticScalar.ofInt m.cols))
    | _ => none
  | name, arguments =>
    match mathFunction? name, arguments with
    | some function, [m] => some (m.map (Scalar.math function))
    | _, _ => none

/-- A local variable is indexed, any other name is an intrinsic. -/
def applyValue (env : Env F) (name : String) (arguments : List (Mat F)) : Option (Mat F) :=
  match env name with
  | some m => do
    let (row, col) ← subscript m arguments
    some (Mat.scalar (m.entry row col))
  | none => intrinsicValue name arguments

mutual

def eval (env : Env F) : Expr → Option (Mat F)
  | .name name _ => env name
  | .number number _ => (literal number).map Mat.scalar
  | .paren value _ => eval env value
  | .parenApply (.name name _) arguments _ => do
    let arguments ← evalList env arguments
    applyValue env name arguments
  | .parenApply _ _ _ => none
  | .unary operator operand _ => do
    let m ← eval env operand
    unaryValue operator m
  | .binary operator left right _ => do
    let a ← eval env left
    let b ← eval env right
    binaryValue operator a b
  | .range _ _ _ _ => none
  | .transpose operand _ => do
    let m ← eval env operand
    some m.transpose
  | .matrix rows _ => do
    let pieces ← evalRows env rows
    Mat.vcat (Mat.parts pieces)
  | .other _ => none

def evalList (env : Env F) : List Expr → Option (List (Mat F))
  | [] => some []
  | e :: es => do
    let m ← eval env e
    let ms ← evalList env es
    some (m :: ms)

/-- Each row of a matrix literal concatenates its elements horizontally. -/
def evalRows (env : Env F) : List (List Expr) → Option (List (Mat F))
  | [] => some []
  | row :: rows => do
    let items ← evalList env row
    let m ← Mat.hcat (Mat.parts items)
    let ms ← evalRows env rows
    some (m :: ms)

end

def evalInteger (env : Env F) (e : Expr) : Option Int := do
  let m ← eval env e
  m.integer?

/-- The values of `start:step:stop`. -/
def steps (start step stop : Int) : List Int :=
  let count := if step = 0 then 0 else ((stop - start).fdiv step + 1).toNat
  (List.range count).map fun (i : Nat) => start + i * step

def evalStride (env : Env F) (step : Option Expr) : Option Int :=
  match step with
  | some step => evalInteger env step
  | none => some 1

def rangeValues (env : Env F) : Expr → Option (List Int)
  | .range start step stop _ => do
    let start ← evalInteger env start
    let step ← evalStride env step
    let stop ← evalInteger env stop
    if step = 0 then none else some (steps start step stop)
  | _ => none

def assign (env : Env F) (target : Expr) (m : Mat F) : Option (Env F) :=
  match target with
  | .name name _ => some (env.bind name m)
  | .parenApply (.name name _) arguments _ => do
    let old ← env name
    let arguments ← evalList env arguments
    let (row, col) ← subscript old arguments
    let v ← m.scalar?
    some (env.bind name (old.set row col v))
  | _ => none

mutual

def execStmt (env : Env F) : Stmt → Option (Env F)
  | .assignment target value _ => do
    let m ← eval env value
    assign env target m
  | .forLoop loopVariable iterable statements _ =>
    match loopVariable with
    | .name name _ => do
      let values ← rangeValues env iterable
      if values.isEmpty then
        some (env.bind name Mat.empty)
      else
        values.foldlM
          (fun env k => execBody (env.bind name (Mat.scalar (StaticScalar.ofInt k))) statements) env
    | _ => none
  | .ifElse branches otherwise _ => execIf env (execBody env otherwise) branches
  | .function _ _ _ _ _ => none
  | .other _ => none

def execBody (env : Env F) : List Stmt → Option (Env F)
  | [] => some env
  | stmt :: statements => do
    let env ← execStmt env stmt
    execBody env statements

/--
Every path is evaluated from the same environment: the first one whose condition is nonzero takes
effect, and a variable stays visible if all paths bind it.
-/
def execIf (env : Env F) (otherwise : Option (Env F)) : List ConditionalBranch → Option (Env F)
  | [] => otherwise
  | .mk condition statements _ :: branches => do
    let c ← eval env condition
    let c ← c.scalar?
    let taken ← execBody env statements
    let rest ← execIf env otherwise branches
    if Scalar.isZero c then some (Env.join rest taken) else some (Env.join taken rest)

end

/-- Bind the arguments to consecutive slices of the input vector. -/
def bindArguments (inputs : List F) : Nat → List (String × Nat) → Env F → Env F
  | _, [], env => env
  | offset, (name, width) :: arguments, env =>
    bindArguments inputs (offset + width) arguments
      (env.bind name (Mat.column ((inputs.drop offset).take width)))

/-- The value of the output variable after the function body. -/
def evaluateFunction (signature : Signature F) (stmt : Stmt) (inputs : List F) : Option (Mat F) :=
  match stmt with
  | .function _ [output] _ statements _ => do
    let env := bindArguments inputs 0 signature.arguments (fun _ => none)
    let env ← execBody (env.bind "p" (Mat.column signature.parameters)) statements
    env output.text
  | _ => none

def evaluateSource (front : FrontEnd) (signature : Signature F) (text : String) (inputs : List F)
    : Option (Mat F) :=
  match front.parse text with
  | .ok { span := _, statements := [stmt] } => evaluateFunction signature stmt inputs
  | _ => none

end StaticFunction
end OpenMat
