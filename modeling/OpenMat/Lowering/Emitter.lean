import OpenMat.Diagnostic
import OpenMat.Lowering.Syntax

/-!
This module contains the lowering of function bodies to bytecode. Forward jumps are emitted with
target zero and patched when their target is reached. A diagnostic ends the lowering, as no code is
produced for a function with diagnostics.
-/

namespace OpenMat
namespace Lowering

open Bytecode

inductive CompilerResource where
  | instructions
  | locals
  | registers
  deriving DecidableEq, Repr

inductive CompileDiagnostic where
  | loopControlOutsideLoop (keyword : String)
  | malformed (detail : String)
  | resourceLimit (resource : CompilerResource)
  | invalidJumpPatch
  deriving DecidableEq, Repr

structure LoopContext where
  continueTarget : Nat
  breakPatches : List Nat
  deriving DecidableEq, Repr

/-- The state of the lowering; the innermost loop comes first. -/
structure Emitter (L C : Type) where
  instructions : List (Instruction L C)
  exceptionHandlers : List ExceptionHandler
  loops : List LoopContext
  outputReturnPatches : List Nat
  localCount : Nat
  nextRegister : Nat

abbrev Lower (L C : Type) := StateT (Emitter L C) (Except CompileDiagnostic)

variable {L C : Type} {locals : Nat}

def emit (i : Instruction L C) : Lower L C Nat := do
  let s ← get
  if s.instructions.length > u32Max then
    throw (.resourceLimit .instructions)
  set { s with instructions := s.instructions ++ [i] }
  return s.instructions.length

def emitJump : Lower L C Nat := emit (.jump 0)

def emitJumpIfFalse (condition : C) : Lower L C Nat := emit (.jumpIfFalse condition 0)

def currentInstruction : Lower L C Nat := do
  let s ← get
  if s.instructions.length > u32Max then
    throw (.resourceLimit .instructions)
  return s.instructions.length

def patchToCurrent (patch : Nat) : Lower L C Unit := do
  let target ← currentInstruction
  let s ← get
  match s.instructions[patch]? with
  | some (.jump _) => set { s with instructions := s.instructions.set patch (.jump target) }
  | some (.jumpIfFalse condition _) =>
    set { s with instructions := s.instructions.set patch (.jumpIfFalse condition target) }
  | some (.forEach iterable index _) =>
    set { s with instructions := s.instructions.set patch (.forEach iterable index target) }
  | _ => throw .invalidJumpPatch

def emitLeaves (operations : List L) : Lower L C Unit :=
  operations.forM fun operation => do
    let _ ← emit (.leaf operation)

def emitLoads (bindings : List L) : Lower L C Unit :=
  bindings.forM fun binding => do
    let _ ← emit (.load binding)

def pushHandler (handler : ExceptionHandler) : Lower L C Unit :=
  modify fun s => { s with exceptionHandlers := s.exceptionHandlers ++ [handler] }

def allocateInternalLocal : Lower L C Nat := do
  let s ← get
  if s.localCount ≥ u32Max then
    throw (.resourceLimit .locals)
  set { s with localCount := s.localCount + 1 }
  return s.localCount

def allocateRegister : Lower L C Nat := do
  let s ← get
  if s.nextRegister ≥ u32Max then
    throw (.resourceLimit .registers)
  set { s with nextRegister := s.nextRegister + 1 }
  return s.nextRegister

/-- The local into which the runtime writes the error. -/
def catchErrorLocal (binding : CatchBinding L locals) : Lower L C (Option Nat) :=
  match binding with
  | .plain => return none
  | .direct slot => return some slot
  | .indirect _ => do
    let scratch ← allocateInternalLocal
    return some scratch

def catchPrologue (binding : CatchBinding L locals) : List L :=
  match binding with
  | .indirect prologue => prologue
  | _ => []

def pushLoop (continueTarget : Nat) : Lower L C Unit :=
  modify fun s =>
    { s with loops := { continueTarget := continueTarget, breakPatches := [] } :: s.loops }

/-- Leave the innermost loop, and return its break patches. -/
def popLoop : Lower L C (List Nat) := do
  let s ← get
  match s.loops with
  | [] => return []
  | context :: loops =>
    set { s with loops := loops }
    return context.breakPatches

/--
The registers of a `for` loop and the test of its iterations. The start of the loop and the test are
returned.
-/
def lowerForHead (value : L) : Lower L C (Nat × Nat) := do
  let iterable ← allocateRegister
  let _ ← emit (.evaluate iterable value)
  let index ← allocateRegister
  let _ ← emit (.loadZero index)
  let loopStart ← currentInstruction
  -- The register of the iteration is read by the leaves that store it, and by nothing else.
  let _ ← allocateRegister
  let exitPatch ← emit (.forEach iterable index 0)
  return (loopStart, exitPatch)

def lowerBreak : Lower L C Unit := do
  let s ← get
  if s.loops.isEmpty then
    throw (.loopControlOutsideLoop "break")
  let patch ← emitJump
  modify fun s =>
    match s.loops with
    | [] => s
    | context :: loops =>
      { s with loops := { context with breakPatches := context.breakPatches ++ [patch] } :: loops }

def lowerContinue : Lower L C Unit := do
  let s ← get
  match s.loops with
  | [] => throw (.loopControlOutsideLoop "continue")
  | context :: _ =>
    let _ ← emit (.jump context.continueTarget)

def takeOutputReturnPatches : Lower L C (List Nat) := do
  let s ← get
  set { s with outputReturnPatches := [] }
  return s.outputReturnPatches

/-- The instruction that returns the outputs. -/
def Frame.ret (frame : Frame L) : Instruction L C :=
  match frame.variadic with
  | none => .ret
  | some variadic => .retVariadic variadic

def emitReturn (frame : Frame L) : Lower L C Unit := do
  -- Explicit returns join the same epilogue outside body exception ranges.
  let patches ← takeOutputReturnPatches
  patches.forM patchToCurrent
  emitLeaves (frame.validations.getD [])
  emitLoads frame.outputs
  let _ ← emit frame.ret

def lowerReturn (frame : Frame L) : Lower L C Unit :=
  if frame.validations.isNone then
    emitReturn frame
  else do
    let patch ← emitJump
    modify fun s => { s with outputReturnPatches := s.outputReturnPatches ++ [patch] }

variable (frame : Frame L)

mutual

def lowerStatement : Stmt L C locals → Lower L C Unit
  | .leaf operations => emitLeaves operations
  | .ifElse branches elseBody => do
    if branches.isEmpty then
      throw (.malformed "if statement has no conditional branch")
    let endPatches ← lowerBranches branches
    lowerStatements elseBody
    endPatches.forM patchToCurrent
  | .switch selector cases otherwise => do
    emitLeaves selector
    let endPatches ← lowerBranches cases
    lowerStatements otherwise
    endPatches.forM patchToCurrent
  | .whileLoop condition body => do
    let loopStart ← currentInstruction
    emitLeaves condition.operations
    let exitPatch ← emitJumpIfFalse condition.test
    pushLoop loopStart
    lowerStatements body
    let breakPatches ← popLoop
    let _ ← emit (.jump loopStart)
    patchToCurrent exitPatch
    breakPatches.forM patchToCurrent
  | .forLoop iterable value store body => do
    emitLeaves iterable
    let (loopStart, exitPatch) ← lowerForHead value
    emitLeaves store
    pushLoop loopStart
    lowerStatements body
    let breakPatches ← popLoop
    let _ ← emit (.jump loopStart)
    patchToCurrent exitPatch
    breakPatches.forM patchToCurrent
  | .tryCatch body handler => do
    let protectedStart ← currentInstruction
    lowerStatements body
    let protectedEnd ← currentInstruction
    if protectedStart = protectedEnd then
      return ()
    lowerHandler protectedStart protectedEnd handler
  | .breakLoop => lowerBreak
  | .continueLoop => lowerContinue
  | .returnValues => lowerReturn frame

def lowerHandler (protectedStart protectedEnd : Nat)
    : Option (CatchBinding L locals × List (Stmt L C locals)) → Lower L C Unit
  | none => do
    let continuationPatch ← emitJump
    patchToCurrent continuationPatch
    pushHandler (.ofSwallow protectedStart protectedEnd protectedEnd)
  | some (binding, catchBody) => do
    let errorLocal ← catchErrorLocal binding
    let skipPatch ← emitJump
    let handler ← currentInstruction
    emitLeaves (catchPrologue binding)
    lowerStatements catchBody
    let exit ← currentInstruction
    patchToCurrent skipPatch
    pushHandler (.ofCatch protectedStart protectedEnd handler exit errorLocal)

def lowerStatements : List (Stmt L C locals) → Lower L C Unit
  | [] => return ()
  | stmt :: statements => do
    lowerStatement stmt
    lowerStatements statements

/--
The branches of a conditional, or the cases of a switch; a case has the match against the selector
as the last instruction of its condition. The jumps to the end are returned.
-/
def lowerBranches : List (Condition L C × List (Stmt L C locals)) → Lower L C (List Nat)
  | [] => return []
  | (condition, body) :: branches => do
    emitLeaves condition.operations
    let falsePatch ← emitJumpIfFalse condition.test
    lowerStatements body
    let patch ← emitJump
    patchToCurrent falsePatch
    let endPatches ← lowerBranches branches
    return patch :: endPatches

end

def Emitter.initial (L C : Type) (locals : Nat) : Emitter L C where
  instructions := []
  exceptionHandlers := []
  loops := []
  outputReturnPatches := []
  localCount := locals
  nextRegister := 0

def lowerFunction (body : List (Stmt L C locals)) : Lower L C Unit := do
  emitLeaves frame.prologue
  lowerStatements frame body
  emitReturn frame

def compileFunction (body : List (Stmt L C locals)) : Except CompileDiagnostic (Function L C) := do
  let ((), s) ← (lowerFunction frame body).run (Emitter.initial L C locals)
  return {
    instructions := s.instructions
    exceptionHandlers := s.exceptionHandlers
    localCount := s.localCount
  }

end Lowering
end OpenMat
