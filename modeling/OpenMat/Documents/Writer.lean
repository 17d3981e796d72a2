import OpenMat.Promises.Runtime

/-!
This module contains the writer of document sessions, which chains a write to the one before. The calls and the
completions of the store's writes come in any order, and between any two jobs.
-/

namespace OpenMat
namespace Documents
namespace SessionWriter

open Promises

inductive Outcome where
  | fulfilled
  | rejected
  deriving DecidableEq, Repr

/-- The promise of the store for the write of a call, and the promise that is chained for a call. -/
inductive PromiseId where
  | written (call : Nat)
  | chained (call : Nat)
  deriving DecidableEq, Repr

/-- A chained promise that is resolved with the promise of the store follows it: one job subscribes, and another
one settles. -/
inductive Job (S : Type) where
  | write (call : Nat) (session : S)
  | follow (call : Nat)
  | adopt (call : Nat) (outcome : Outcome)
  | finished (promise : PromiseId)

structure State (S : Type) where
  pending : Option PromiseId
  /-- The sessions of all calls, and the promises that the calls returned. -/
  calls : List S
  returned : List PromiseId
  /-- The sessions the store was called with. -/
  issued : List S
  runtime : Runtime PromiseId Outcome (Job S)

variable {S : Type}

def initial : State S where
  pending := none
  calls := []
  returned := []
  issued := []
  runtime := .empty

namespace State

/-- The store starts to write, and promises to complete. -/
def storeSave (s : State S) (call : Nat) (session : S) : State S :=
  { s with
    issued := s.issued ++ [session]
    runtime := s.runtime.create (.written call) }

def save (s : State S) (session : S) : State S :=
  let call := s.calls.length
  let (s, pending) := match s.pending with
    | none => (s.storeSave call session, PromiseId.written call)
    | some before =>
      ({ s with
        runtime := (s.runtime.create (.chained call)).subscribe before fun _ => .write call session },
        PromiseId.chained call)
  { s with
    pending := some pending
    calls := s.calls ++ [session]
    returned := s.returned ++ [pending]
    runtime := s.runtime.subscribe pending fun _ => .finished pending }

def runJob (s : State S) : Job S → State S
  | .write call session =>
    let s := s.storeSave call session
    { s with runtime := s.runtime.enqueue (.follow call) }
  | .follow call => { s with runtime := s.runtime.subscribe (.written call) (.adopt call) }
  | .adopt call outcome => { s with runtime := s.runtime.settle (.chained call) outcome }
  | .finished promise => if s.pending = some promise then { s with pending := none } else s

end State

/-- The write of a call has been issued, and has not completed. -/
def InProgress (s : State S) (call : Nat) : Prop :=
  ∃ reactions, s.runtime.promises (.written call) = some (.pending reactions)

inductive Step : State S → State S → Prop where
  | call (s : State S) (session : S) : Step s (s.save session)
  | complete (s : State S) (call : Nat) (outcome : Outcome) (h : InProgress s call)
    : Step s { s with runtime := s.runtime.settle (.written call) outcome }
  | job (s : State S) (job : Job S) (rest : List (Job S)) (h : s.runtime.jobs = job :: rest)
    : Step s ({ s with runtime := { s.runtime with jobs := rest } }.runJob job)

/-- What some sequence of calls, completions and jobs leads to. -/
inductive Reachable : State S → Prop where
  | initial : Reachable initial
  | step {s s' : State S} : Reachable s → Step s s' → Reachable s'

end SessionWriter
end Documents
end OpenMat
