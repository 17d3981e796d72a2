import Mathlib.Data.List.Basic

/-!
This module contains the numerical SSA programs of the simulation kernel together with their
verification, dead code elimination and reference evaluation. Scalars are abstract: the same
operations serve the compilers and the kernels.
-/

namespace OpenMat

inductive MathFunction where
  | sin
  | cos
  | exp
  | sqrt
  | abs
  | tanh
  deriving DecidableEq, Repr

/--
The `f64` operations of the source. `eq`, `lt` and `le` are the IEEE comparisons, so `eq` need not
be reflexive.
-/
class Scalar (F : Type) where
  zero : F
  one : F
  add : F → F → F
  sub : F → F → F
  mul : F → F → F
  div : F → F → F
  neg : F → F
  math : MathFunction → F → F
  eq : F → F → Bool
  lt : F → F → Bool
  le : F → F → Bool
  isFinite : F → Bool

namespace Scalar

variable {F : Type} [Scalar F]

instance : Inhabited F := ⟨zero⟩

def isZero (v : F) : Bool := eq v zero

def ofBool (b : Bool) : F := if b then one else zero

end Scalar

inductive Comparison where
  | equal
  | notEqual
  | less
  | lessEqual
  | greater
  | greaterEqual
  deriving DecidableEq, Repr

namespace Comparison

variable {F : Type} [Scalar F]

def holds : Comparison → F → F → Bool
  | equal, a, b => Scalar.eq a b
  | notEqual, a, b => !Scalar.eq a b
  | less, a, b => Scalar.lt a b
  | lessEqual, a, b => Scalar.le a b
  | greater, a, b => Scalar.lt b a
  | greaterEqual, a, b => Scalar.le b a

def evaluate (c : Comparison) (a b : F) : F := Scalar.ofBool (c.holds a b)

end Comparison

inductive Instruction (F : Type) where
  | input (index : Nat)
  | constant (value : F)
  | add (a b : Nat)
  | multiply (a b : Nat)
  | negate (a : Nat)
  | subtract (a b : Nat)
  | divide (a b : Nat)
  | math (function : MathFunction) (a : Nat)
  | compare (comparison : Comparison) (a b : Nat)
  | select (c a b : Nat)
  deriving DecidableEq, Repr

namespace Instruction

variable {F : Type}

instance : Inhabited (Instruction F) := ⟨input 0⟩

def operands : Instruction F → List Nat
  | input _ => []
  | constant _ => []
  | negate a => [a]
  | math _ a => [a]
  | add a b => [a, b]
  | subtract a b => [a, b]
  | multiply a b => [a, b]
  | divide a b => [a, b]
  | compare _ a b => [a, b]
  | select c a b => [c, a, b]

def remap (map : Nat → Nat) : Instruction F → Instruction F
  | input i => input i
  | constant v => constant v
  | negate a => negate (map a)
  | math f a => math f (map a)
  | add a b => add (map a) (map b)
  | subtract a b => subtract (map a) (map b)
  | multiply a b => multiply (map a) (map b)
  | divide a b => divide (map a) (map b)
  | compare c a b => compare c (map a) (map b)
  | select c a b => select (map c) (map a) (map b)

variable [Scalar F]

/--
The value of an instruction whose operands are all known at compile time.
-/
def constant? (values : Nat → Option F) : Instruction F → Option F
  | input _ => none
  | constant v => some v
  | add a b => do return Scalar.add (← values a) (← values b)
  | subtract a b => do return Scalar.sub (← values a) (← values b)
  | multiply a b => do return Scalar.mul (← values a) (← values b)
  | divide a b => do return Scalar.div (← values a) (← values b)
  | negate a => do return Scalar.neg (← values a)
  | math f a => do return Scalar.math f (← values a)
  | compare c a b => do return c.evaluate (← values a) (← values b)
  | select c a b => do
    let condition ← values c
    values (if Scalar.isZero condition then b else a)

def evaluate (inputs : List F) (registers : Nat → F) : Instruction F → F
  | input i => inputs.getD i default
  | constant v => v
  | add a b => Scalar.add (registers a) (registers b)
  | multiply a b => Scalar.mul (registers a) (registers b)
  | negate a => Scalar.neg (registers a)
  | subtract a b => Scalar.sub (registers a) (registers b)
  | divide a b => Scalar.div (registers a) (registers b)
  | math f a => Scalar.math f (registers a)
  | compare c a b => c.evaluate (registers a) (registers b)
  | select c a b => registers (if Scalar.isZero (registers c) then b else a)

def valid (inputCount index : Nat) : Instruction F → Bool
  | input i => decide (i < inputCount)
  | constant v => Scalar.isFinite v
  | add a b => decide (a < index) && decide (b < index)
  | multiply a b => decide (a < index) && decide (b < index)
  | subtract a b => decide (a < index) && decide (b < index)
  | divide a b => decide (a < index) && decide (b < index)
  | compare _ a b => decide (a < index) && decide (b < index)
  | negate a => decide (a < index)
  | math _ a => decide (a < index)
  | select c a b => decide (c < index) && decide (a < index) && decide (b < index)

end Instruction

def maxValues : Nat := 1000000

structure EvalError where
  message : String
  deriving DecidableEq, Repr

@[ext]
structure Program (F : Type) where
  inputCount : Nat
  instructions : List (Instruction F)
  outputs : List Nat
  guards : List (Option Nat)
  deriving DecidableEq, Repr

namespace Program

variable {F : Type} [Scalar F]

def firstInvalid (inputCount : Nat) : Nat → List (Instruction F) → Option Nat
  | _, [] => none
  | index, i :: rest =>
    if i.valid inputCount index then firstInvalid inputCount (index + 1) rest else some index

def new (inputCount : Nat) (instructions : List (Instruction F)) (outputs : List Nat)
    : Except EvalError (Program F) :=
  if inputCount > maxValues ∨ instructions.length > maxValues ∨ outputs.length > maxValues then
    .error ⟨"numerical program exceeds the v0 value limit"⟩
  else
    match firstInvalid inputCount 0 instructions with
    | some index => .error ⟨s!"invalid numerical instruction {index}"⟩
    | none =>
      if outputs.any (fun id => decide (instructions.length ≤ id)) then
        .error ⟨"invalid numerical output reference"⟩
      else
        .ok {
          inputCount := inputCount
          instructions := instructions
          outputs := outputs
          guards := List.replicate instructions.length none
        }

def badGuard : Nat → List (Option Nat) → Bool
  | _, [] => false
  | index, guard :: rest => guard.any (fun g => decide (index ≤ g)) || badGuard (index + 1) rest

def withGuards (p : Program F) (guards : List (Option Nat)) : Except EvalError (Program F) :=
  if guards.length ≠ p.instructions.length ∨ badGuard 0 guards then
    .error ⟨"invalid numerical execution guard"⟩
  else
    .ok { p with guards := guards }

def outputCount (p : Program F) : Nat := p.outputs.length

def mark (used : List Bool) (ids : List Nat) : List Bool :=
  ids.foldl (fun used id => used.set id true) used

def sweep (p : Program F) : Nat → List Bool → List Bool
  | 0, used => used
  | i + 1, used =>
    if used.getD i false then
      let used := mark used (p.guards.getD i none).toList
      sweep p i (mark used (p.instructions.getD i default).operands)
    else
      sweep p i used

def used (p : Program F) : List Bool :=
  sweep p p.instructions.length (mark (List.replicate p.instructions.length false) p.outputs)

structure Compaction (F : Type) where
  mapping : List Nat
  instructions : List (Instruction F)
  guards : List (Option Nat)

def Compaction.step (p : Program F) (used : List Bool) (c : Compaction F) (i : Nat)
    : Compaction F :=
  if used.getD i false then
    let mapping := c.mapping.set i c.instructions.length
    {
      mapping := mapping
      instructions :=
        c.instructions ++ [(p.instructions.getD i default).remap (fun id => mapping.getD id 0)]
      guards := c.guards ++ [(p.guards.getD i none).map (fun id => mapping.getD id 0)]
    }
  else
    c

def compaction (p : Program F) (used : List Bool) : Nat → Compaction F
  | 0 => { mapping := List.replicate used.length 0, instructions := [], guards := [] }
  | n + 1 => (compaction p used n).step p used n

/--
Remove instructions that cannot contribute to the selected outputs.
-/
def pruned (p : Program F) : Program F :=
  let c := compaction p p.used p.instructions.length
  {
    inputCount := p.inputCount
    instructions := c.instructions
    guards := c.guards
    outputs := p.outputs.map (fun id => c.mapping.getD id 0)
  }

end Program

/--
A kernel owns its program and a register file of the program's length.
-/
structure ReferenceKernel (F : Type) where
  program : Program F
  registers : List F
  length_registers : registers.length = program.instructions.length

namespace ReferenceKernel

variable {F : Type} [Scalar F]

def new (program : Program F) : ReferenceKernel F where
  program := program
  registers := List.replicate program.instructions.length Scalar.zero
  length_registers := by simp

def result (p : Program F) (inputs registers : List F) (index : Nat) (i : Instruction F) : F :=
  if (p.guards.getD index none).any (fun g => Scalar.isZero (registers.getD g default)) then
    Scalar.zero
  else
    i.evaluate inputs (fun id => registers.getD id default)

def run (p : Program F) (inputs : List F) : Nat → List (Instruction F) → List F → List F
  | _, [], registers => registers
  | index, i :: rest, registers =>
    run p inputs (index + 1) rest (registers.set index (result p inputs registers index i))

@[simp]
theorem length_run (p : Program F) (inputs : List F) (index : Nat) (code : List (Instruction F))
    (registers : List F) : (run p inputs index code registers).length = registers.length := by
  induction code generalizing index registers with
  | nil => rfl
  | cons i code ih => simp [run, ih]

def evaluate (k : ReferenceKernel F) (inputs : List F) (outputLength : Nat)
    : Except EvalError (List F) × ReferenceKernel F :=
  if inputs.length ≠ k.program.inputCount ∨ outputLength ≠ k.program.outputCount then
    (.error ⟨"numerical kernel buffer length mismatch"⟩, k)
  else
    let registers := run k.program inputs 0 k.program.instructions k.registers
    (.ok (k.program.outputs.map (fun id => registers.getD id default)),
      { k with registers := registers, length_registers := by simp [registers, k.length_registers] })

end ReferenceKernel

end OpenMat
