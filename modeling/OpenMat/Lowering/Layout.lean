import OpenMat.Assembly.Fragment
import OpenMat.Lowering.Emitter

/-!
This module contains the layout of lowered code: which instructions of the final function belong to
which part of the body, with all jumps resolved.
-/

namespace OpenMat
namespace Lowering

open Bytecode Assembly

variable {L C : Type} {locals : Nat}

/-- Where the jumps of a statement out of itself lead; there is no loop if `loopStart` is `none`. -/
structure Targets where
  loopStart : Option Nat
  loopExit : Nat
  epilogue : Nat

/-- The code of an explicit return, which has its own epilogue unless outputs are validated. -/
def ReturnAt (code : List (Instruction L C)) (targets : Targets) (frame : Frame L) (start stop : Nat)
    : Prop :=
  if frame.validations.isNone then
    CodeAt code start (frame.outputs.map .load ++ [frame.ret]) ∧ stop = start + frame.outputs.length + 1
  else
    CodeAt code start [.jump targets.epilogue] ∧ stop = start + 1

/-- No instruction of `start, …, stop - 1` writes the register. -/
def Untouched (code : List (Instruction L C)) (start stop register : Nat) : Prop :=
  ∀ (pc : Nat) (i : Instruction L C), start ≤ pc → pc < stop → code[pc]? = some i →
    register ∉ i.written

variable (code : List (Instruction L C)) (frame : Frame L)

mutual

/-- The statement occupies `start, …, stop - 1` and has the given exception handlers. -/
def StatementAt (targets : Targets) : Stmt L C locals → Nat → Nat → List ExceptionHandler → Prop
  | .leaf operations, start, stop, handlers =>
    CodeAt code start (operations.map .leaf) ∧ stop = start + operations.length ∧ handlers = []
  | .ifElse branches elseBody, start, stop, handlers =>
    ∃ middle hs hs', BranchesAt targets stop branches start middle hs ∧
      StatementsAt targets elseBody middle stop hs' ∧ handlers = hs ++ hs'
  | .switch selector cases otherwise, start, stop, handlers =>
    CodeAt code start (selector.map .leaf) ∧
      ∃ middle hs hs', BranchesAt targets stop cases (start + selector.length) middle hs ∧
        StatementsAt targets otherwise middle stop hs' ∧ handlers = hs ++ hs'
  | .whileLoop condition body, start, stop, handlers =>
    CodeAt code start
        (condition.operations.map .leaf ++ [.jumpIfFalse condition.test stop]) ∧
      ∃ last, StatementsAt { targets with loopExit := stop, loopStart := some start } body
          (start + condition.operations.length + 1) last handlers ∧
        CodeAt code last [.jump start] ∧ stop = last + 1
  | .forLoop iterable value store body, start, stop, handlers =>
    ∃ source index last, source ≠ index ∧
      CodeAt code start (iterable.map .leaf ++
        .evaluate source value :: .loadZero index :: .forEach source index stop :: store.map .leaf) ∧
      StatementsAt
        { targets with loopExit := stop, loopStart := some (start + iterable.length + 2) } body
        (start + iterable.length + 3 + store.length) last handlers ∧
      (∀ register ∈ [source, index],
        Untouched code (start + iterable.length + 3 + store.length) last register) ∧
      CodeAt code last [.jump (start + iterable.length + 2)] ∧ stop = last + 1
  | .tryCatch body handler, start, stop, handlers =>
    ∃ middle hs, StatementsAt targets body start middle hs ∧
      if start = middle then
        stop = start ∧ handlers = hs
      else
        ∃ hs', HandlerAt targets start middle handler stop hs' ∧ handlers = hs ++ hs'
  | .breakLoop, start, stop, handlers =>
    targets.loopStart.isSome ∧ CodeAt code start [.jump targets.loopExit] ∧ stop = start + 1 ∧
      handlers = []
  | .continueLoop, start, stop, handlers =>
    (∃ loopStart, targets.loopStart = some loopStart ∧ CodeAt code start [.jump loopStart]) ∧
      stop = start + 1 ∧ handlers = []
  | .returnValues, start, stop, handlers => ReturnAt code targets frame start stop ∧ handlers = []

/-- What follows the protected instructions `start, …, middle - 1`. -/
def HandlerAt (targets : Targets) (start middle : Nat)
    : Option (CatchBinding L locals × List (Stmt L C locals)) → Nat → List ExceptionHandler → Prop
  | none, stop, handlers =>
    CodeAt code middle [.jump (middle + 1)] ∧ stop = middle + 1 ∧
      handlers = [.ofSwallow start middle middle]
  | some (binding, body), stop, handlers =>
    CodeAt code middle (.jump stop :: (catchPrologue binding).map .leaf) ∧
      ∃ hs errorLocal,
        StatementsAt targets body (middle + 1 + (catchPrologue binding).length) stop hs ∧
        handlers = hs ++ [.ofCatch start middle (middle + 1) stop errorLocal]

def StatementsAt (targets : Targets)
    : List (Stmt L C locals) → Nat → Nat → List ExceptionHandler → Prop
  | [], start, stop, handlers => stop = start ∧ handlers = []
  | stmt :: body, start, stop, handlers =>
    ∃ middle hs hs', StatementAt targets stmt start middle hs ∧
      StatementsAt targets body middle stop hs' ∧ handlers = hs ++ hs'

/-- Each branch ends with a jump to `finish`. -/
def BranchesAt (targets : Targets) (finish : Nat)
    : List (Condition L C × List (Stmt L C locals)) → Nat → Nat → List ExceptionHandler → Prop
  | [], start, stop, handlers => stop = start ∧ handlers = []
  | (condition, body) :: branches, start, stop, handlers =>
    ∃ last hs hs',
      CodeAt code start (condition.operations.map .leaf ++
        [.jumpIfFalse condition.test (last + 1)]) ∧
      StatementsAt targets body (start + condition.operations.length + 1) last hs ∧
      CodeAt code last [.jump finish] ∧
      BranchesAt targets finish branches (last + 1) stop hs' ∧ handlers = hs ++ hs'

end

/-- The whole function, with the epilogue at `epilogue`. -/
structure FunctionAt (f : Function L C) (frame : Frame L) (body : List (Stmt L C locals))
    (epilogue : Nat) : Prop where
  prologueCode : CodeAt f.instructions 0 (frame.prologue.map .leaf)
  body : StatementsAt f.instructions frame
    { loopStart := none, loopExit := epilogue, epilogue := epilogue } body frame.prologue.length
    epilogue f.exceptionHandlers
  epilogueCode : CodeAt f.instructions epilogue
    ((frame.validations.getD []).map .leaf ++ frame.outputs.map .load ++ [frame.ret])
  length : f.instructions.length =
    epilogue + (frame.validations.getD []).length + frame.outputs.length + 1

end Lowering
end OpenMat
