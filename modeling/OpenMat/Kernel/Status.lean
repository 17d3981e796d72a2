/-!
This module contains the status of a kernel as the engine path and the control paths share it: one step
is one atomic access, and the steps of all paths interleave.
-/

namespace OpenMat
namespace Kernel

inductive KernelStatus where
  | starting
  | idle
  | busy
  | interrupted
  | dead
  deriving DecidableEq, Repr

def maxSafeJsonInteger : Nat := 9007199254740991

/-- What decides about a request before its engine call. -/
inductive Request where
  /-- A request that does not validate or that names another session. -/
  | invalid
  | initializeSession (negotiates : Bool)
  | interrupt
  | execute
  | inspect
  | listWorkspace
  | setVariableElement (expectedRevision : Nat)
  | shutdown
  deriving DecidableEq, Repr

/-- The next atomic access of a `handle_interrupt`. -/
inductive InterruptPhase where
  | loadStatus
  | cancel (status : KernelStatus)
  | storeInterrupted
  deriving DecidableEq, Repr

/-- What the engine path does next. -/
inductive EnginePhase where
  | ready
  | loadStatus (request : Request)
  | dispatch (request : Request)
  | interrupting (phase : InterruptPhase)
  | storeBusy (request : Request)
  | callEngine (request : Request)
  | loadCancelled
  | loadInterrupted
  | confirmInterrupted
  | storeInterrupted
  | storeIdle
  | storeDead
  deriving DecidableEq, Repr

end Kernel

open Kernel (KernelStatus EnginePhase InterruptPhase) in
/-- `stopped` records that a shutdown has stored `dead`. The code has no such field. -/
structure Kernel where
  status : KernelStatus
  cancelled : Bool
  initialized : Bool
  workspaceRevision : Nat
  phase : EnginePhase
  interrupts : List InterruptPhase
  stopped : Bool
  deriving DecidableEq, Repr

namespace Kernel

def new : Kernel where
  status := .starting
  cancelled := false
  initialized := false
  workspaceRevision := 0
  phase := .ready
  interrupts := []
  stopped := false

def advanceWorkspaceRevision (k : Kernel) : Kernel :=
  { k with workspaceRevision := min (k.workspaceRevision + 1) maxSafeJsonInteger }

/-- One atomic access of `handle_interrupt`, and the access that is next. -/
def handleInterrupt (k : Kernel) : InterruptPhase → Kernel × Option InterruptPhase
  | .loadStatus =>
    match k.status with
    | .busy => (k, some (.cancel .busy))
    | .interrupted => (k, some (.cancel .interrupted))
    | _ => (k, none)
  | .cancel status =>
    ({ k with cancelled := true }, if status = .busy then some .storeInterrupted else none)
  | .storeInterrupted => ({ k with status := .interrupted }, none)

/-- The first access that a request makes after the kernel was found alive. -/
def dispatch (k : Kernel) : Request → Kernel
  | .initializeSession negotiates =>
    if k.initialized || !negotiates then
      { k with phase := .ready }
    else
      { k with initialized := true, status := .idle, phase := .ready }
  | .execute =>
    if k.initialized then
      { k with cancelled := false, phase := .storeBusy .execute }
    else
      { k with phase := .ready }
  | .setVariableElement expectedRevision =>
    if !k.initialized || expectedRevision ≠ k.workspaceRevision
        || k.workspaceRevision ≥ maxSafeJsonInteger then
      { k with phase := .ready }
    else
      { k with phase := .storeBusy (.setVariableElement expectedRevision) }
  | .inspect =>
    if k.initialized then { k with phase := .storeBusy .inspect } else { k with phase := .ready }
  | .listWorkspace =>
    if k.initialized then { k with phase := .storeBusy .listWorkspace } else { k with phase := .ready }
  | .shutdown => { k with phase := .callEngine .shutdown }
  | .interrupt => { k with phase := .interrupting .loadStatus }
  | .invalid => { k with phase := .ready }

/-- The engine has answered: with an error, or with the interrupted flag of an execution. -/
def returnFromEngine (k : Kernel) (result : Except Unit Bool) : Request → Kernel
  | .shutdown => { k with phase := .storeDead }
  | .execute =>
    let k := k.advanceWorkspaceRevision
    match result with
    | .error _ => { k with phase := .storeIdle }
    | .ok true => { k with phase := .confirmInterrupted }
    | .ok false => { k with phase := .loadCancelled }
  | .setVariableElement _ =>
    match result with
    | .error _ => { k with phase := .storeIdle }
    | .ok _ => { k.advanceWorkspaceRevision with phase := .storeIdle }
  | _ => { k with phase := .storeIdle }

/-- One step of the engine path, with the result of the engine in case it is called. -/
def stepEngine (k : Kernel) (result : Except Unit Bool) : Kernel :=
  match k.phase with
  | .ready => k
  | .loadStatus request =>
    if k.status = .dead then { k with phase := .ready } else { k with phase := .dispatch request }
  | .dispatch request => k.dispatch request
  | .interrupting phase =>
    match k.handleInterrupt phase with
    | (k, some next) => { k with phase := .interrupting next }
    | (k, none) => { k with phase := .ready }
  | .storeBusy request => { k with status := .busy, phase := .callEngine request }
  | .callEngine request => k.returnFromEngine result request
  | .loadCancelled =>
    if k.cancelled then { k with phase := .confirmInterrupted } else { k with phase := .loadInterrupted }
  | .loadInterrupted =>
    if k.status = .interrupted then
      { k with phase := .confirmInterrupted }
    else
      { k with phase := .storeIdle }
  | .confirmInterrupted =>
    if k.status = .interrupted then
      { k with phase := .storeIdle }
    else
      { k with phase := .storeInterrupted }
  | .storeInterrupted => { k with status := .interrupted, phase := .storeIdle }
  | .storeIdle => { k with status := .idle, phase := .ready }
  | .storeDead => { k with status := .dead, phase := .ready, stopped := true }

/-- What may happen next: the session hands a request to the engine path, the engine path makes a step,
an interrupt is requested at a control handle, or one of the pending interrupts makes a step. -/
inductive Action where
  | receive (request : Request)
  | engine (result : Except Unit Bool)
  | requestInterrupt
  | control (index : Nat)

/-- An action that is not possible changes nothing. -/
def step (action : Action) (k : Kernel) : Kernel :=
  match action with
  | .receive request =>
    match k.phase with
    | .ready =>
      if request = .invalid then k else { k with phase := .loadStatus request }
    | _ => k
  | .engine result => k.stepEngine result
  | .requestInterrupt => { k with interrupts := .loadStatus :: k.interrupts }
  | .control index =>
    match k.interrupts[index]? with
    | none => k
    | some phase =>
      match k.handleInterrupt phase with
      | (k, some next) => { k with interrupts := k.interrupts.set index next }
      | (k, none) => { k with interrupts := k.interrupts.eraseIdx index }

def run : List Action → Kernel → Kernel
  | [], k => k
  | action :: actions, k => run actions (step action k)

end Kernel
end OpenMat
