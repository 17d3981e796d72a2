import Mathlib.Logic.Function.Basic

/-!
This module contains promises and the queue of the jobs that their settlements cause. A reaction is what a
subscriber makes of the outcome, as a job.
-/

namespace OpenMat
namespace Promises

inductive Promise (V J : Type) where
  | pending (reactions : List (V → J))
  | settled (outcome : V)

/-- The promises that have been created, and the jobs in the order in which they run. -/
structure Runtime (Id V J : Type) where
  promises : Id → Option (Promise V J)
  jobs : List J

namespace Runtime

variable {Id V J : Type} [DecidableEq Id]

def empty : Runtime Id V J where
  promises _ := none
  jobs := []

def put (runtime : Runtime Id V J) (id : Id) (promise : Promise V J) : Runtime Id V J :=
  { runtime with promises := Function.update runtime.promises id (some promise) }

def create (runtime : Runtime Id V J) (id : Id) : Runtime Id V J :=
  runtime.put id (.pending [])

def enqueue (runtime : Runtime Id V J) (job : J) : Runtime Id V J :=
  { runtime with jobs := runtime.jobs ++ [job] }

/-- A reaction to a settled promise is a job at once. -/
def subscribe (runtime : Runtime Id V J) (id : Id) (reaction : V → J) : Runtime Id V J :=
  match runtime.promises id with
  | none => runtime
  | some (.pending reactions) => runtime.put id (.pending (reactions ++ [reaction]))
  | some (.settled outcome) => runtime.enqueue (reaction outcome)

/-- Only the first settlement counts. -/
def settle (runtime : Runtime Id V J) (id : Id) (outcome : V) : Runtime Id V J :=
  match runtime.promises id with
  | some (.pending reactions) =>
    { promises := Function.update runtime.promises id (some (.settled outcome))
      jobs := runtime.jobs ++ reactions.map fun reaction => reaction outcome }
  | _ => runtime

variable {runtime : Runtime Id V J} {id : Id} {reactions : List (V → J)} {reaction : V → J} {outcome : V}

@[simp]
theorem put_promises (promise : Promise V J)
    : (runtime.put id promise).promises = Function.update runtime.promises id (some promise) :=
  rfl

@[simp]
theorem put_jobs (promise : Promise V J)
    : (runtime.put id promise).jobs = runtime.jobs :=
  rfl

theorem subscribe_pending (h : runtime.promises id = some (.pending reactions))
    : runtime.subscribe id reaction = runtime.put id (.pending (reactions ++ [reaction])) := by
  rw [subscribe, h]

theorem subscribe_settled (h : runtime.promises id = some (.settled outcome))
    : runtime.subscribe id reaction = runtime.enqueue (reaction outcome) := by
  rw [subscribe, h]

theorem settle_pending (h : runtime.promises id = some (.pending reactions))
    : runtime.settle id outcome =
        { promises := Function.update runtime.promises id (some (.settled outcome))
          jobs := runtime.jobs ++ reactions.map fun reaction => reaction outcome } := by
  rw [settle, h]

end Runtime

end Promises
end OpenMat
