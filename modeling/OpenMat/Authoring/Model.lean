import Mathlib
import OpenMat.Diagnostic

/-!
This module contains block diagram models over a type of real numbers, and the ports of their blocks.
-/

namespace OpenMat
namespace Authoring

open Std

inductive HoldReset where
  | held
  | reset
  deriving DecidableEq, Repr

inductive ResetMode where
  | rising
  | falling
  | either
  deriving DecidableEq, Repr

inductive SwitchCriterion where
  | greater
  | greaterEqual
  | nonzero
  deriving DecidableEq, Repr

inductive LogicOperator where
  | and
  | or
  | xor
  | nand
  | nor
  | not
  | nxor
  deriving DecidableEq, Repr

inductive Comparison where
  | less
  | lessEqual
  | greater
  | greaterEqual
  | equal
  | notEqual
  deriving DecidableEq, Repr

structure ConditionalOutput (R : Type) where
  initial : List R
  whenDisabled : HoldReset
  deriving DecidableEq, Repr

inductive Execution (R : Type) where
  | enabled (period : R) (statesWhenEnabling : HoldReset) (outputs : List (ConditionalOutput R))
  | triggered (period : R) (edge : ResetMode) (outputs : List (ConditionalOutput R))
  deriving DecidableEq, Repr

structure TimeSeries (R : Type) where
  times : List R
  values : List (List R)
  deriving DecidableEq, Repr

inductive StandardOp (R : Type) where
  | product (operations : String)
  | mux (inputs : Nat)
  | demux (widths : List Nat)
  | stateSpace (a b c d : List (List R)) (initial : List R)
  | transferFcn (numerator denominator : List R)
  deriving DecidableEq, Repr

inductive ControlOp (R : Type) where
  | saturation (lower upper : List R)
  | switch (criterion : SwitchCriterion) (threshold : R)
  | relational (operator : Comparison)
  | logical (operator : LogicOperator) (inputs : Nat)
  | abs
  | minMax (minimum : Bool) (inputs : Nat)
  deriving DecidableEq, Repr

structure FunctionInput where
  name : String
  width : Nat
  deriving DecidableEq, Repr

structure FunctionParameter (R : Type) where
  name : String
  value : List R
  deriving DecidableEq, Repr

inductive BlockKind (R : Type) where
  | subsystem (inputs outputs : Nat) (execution : Option (Execution R))
  | inport (port : Nat) (data : Option (TimeSeries R))
  | outport (port : Nat)
  | standard (operation : StandardOp R)
  | control (operation : ControlOp R) (zeroCrossing : Bool)
  | resetIntegrator (initial : List R) (gain : R) (discrete : Bool) (reset : ResetMode)
  | zeroOrderHold
  | discreteIntegrator (initial : List R) (gain : R)
  | rateTransition (initial : List R) (deterministic : Bool)
  | step (time : R) (before after : List R)
  | component (component : String) (parameters : List (String × List R))
  | constant (value : List R)
  | sum (signs : List Int)
  | gain (gain : List R)
  | integrator (initial : List R)
  | unitDelay (initial : List R)
  | scope
  | mFunction (source entry : String) (inputs : List FunctionInput)
      (parameters : List (FunctionParameter R)) (outputWidth : Nat)
  deriving DecidableEq, Repr

structure Block (R : Type) where
  id : String
  kind : BlockKind R
  parent : Option String
  deriving DecidableEq, Repr

structure Port where
  block : String
  port : String
  deriving DecidableEq, Repr

structure Connection where
  source : Port
  target : Port
  deriving DecidableEq, Repr

structure ComponentDefinition where
  id : String
  inputs : List FunctionInput
  outputs : List FunctionInput
  deriving DecidableEq, Repr

inductive SampleTime (R : Type) where
  | inherited
  | continuous
  | constant
  | discrete (period : R)
  deriving DecidableEq, Repr

structure Model (R : Type) where
  blocks : List (Block R)
  connections : List Connection
  components : List ComponentDefinition
  sampleTimes : TreeMap String (SampleTime R)

/-- Ports are ordered by their block, and then by their name. -/
instance : Ord Port where
  compare := compareLex (compareOn Port.block) (compareOn Port.port)

instance : TransOrd Port :=
  inferInstanceAs (TransCmp (compareLex (compareOn Port.block) (compareOn Port.port)))

instance : LawfulEqOrd Port where
  eq_of_compare {a b} h := by
    have hlex : compareLex (compareOn Port.block) (compareOn Port.port) a b = .eq := h
    rw [compareLex_eq_eq] at hlex
    obtain ⟨hblock, hport⟩ := hlex
    cases a
    cases b
    exact Port.mk.injEq .. ▸ ⟨LawfulEqCmp.eq_of_compare hblock, LawfulEqCmp.eq_of_compare hport⟩

variable {R : Type}

def Execution.controlPort : Execution R → String
  | enabled .. => "enable"
  | triggered .. => "trigger"

/-- The names `name0`, …, `name(count - 1)`. -/
def numbered (name : String) (count : Nat) : List String :=
  (List.range count).map fun i => name ++ i.repr

/-- The names `name1`, …, `name(count)`. -/
def numberedFromOne (name : String) (count : Nat) : List String :=
  (List.range count).map fun i => name ++ (i + 1).repr

namespace StandardOp

def inputNames : StandardOp R → List String
  | product operations => numbered "in" operations.utf8ByteSize
  | mux inputs => numbered "in" inputs
  | _ => ["in"]

end StandardOp

def ControlOp.inputCount : ControlOp R → Nat
  | saturation .. => 1
  | abs => 1
  | switch .. => 3
  | relational _ => 2
  | logical _ inputs => inputs
  | minMax _ inputs => inputs

namespace BlockKind

def inputs : BlockKind R → List String
  | subsystem inputs _ execution =>
    numberedFromOne "in" inputs ++ (execution.map Execution.controlPort).toList
  | inport .. => []
  | standard operation => operation.inputNames
  | control operation _ => numbered "in" operation.inputCount
  | resetIntegrator .. => ["in", "reset"]
  | constant _ => []
  | step .. => []
  | sum signs => numbered "in" signs.length
  | mFunction _ _ inputs _ _ => inputs.map FunctionInput.name
  | _ => ["in"]

def isScope : BlockKind R → Bool
  | scope => true
  | _ => false

end BlockKind
end Authoring
end OpenMat
