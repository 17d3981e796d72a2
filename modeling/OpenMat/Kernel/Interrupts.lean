import OpenMat.Kernel.Status

/-!
This module contains what the status says in every interleaving of the engine path with interrupts, and the
interleavings in which an interrupt makes it wrong.
-/

namespace OpenMat
namespace Kernel

/-- After a shutdown the status stays dead and no request comes past the check for it. Between requests
an initialized kernel is idle. -/
structure StatusLaw (k : Kernel) : Prop where
  dead : k.stopped → k.status = .dead ∧ (k.phase = .ready ∨ ∃ request, k.phase = .loadStatus request)
  idle : k.initialized → ¬k.stopped → k.phase = .ready → k.interrupts = [] → k.status = .idle

/-- No path stores `interrupted` in an action unless an engine request is still in progress then. -/
def Timely (action : Action) (k : Kernel) : Prop :=
  match action with
  | .control index =>
    k.interrupts[index]? = some .storeInterrupted → k.status = .busy ∨ k.status = .interrupted
  | _ => True

def TimelyRun : List Action → Kernel → Prop
  | [], _ => True
  | action :: actions, k => Timely action k ∧ TimelyRun actions (step action k)

instance (action : Action) (k : Kernel) : Decidable (Timely action k) :=
  match action with
  | .receive _ => isTrue trivial
  | .engine _ => isTrue trivial
  | .requestInterrupt => isTrue trivial
  | .control _ => inferInstanceAs (Decidable (_ → _))

instance TimelyRun.decidable : (actions : List Action) → (k : Kernel) → Decidable (TimelyRun actions k)
  | [], _ => isTrue trivial
  | action :: actions, k =>
    have := TimelyRun.decidable actions (step action k)
    inferInstanceAs (Decidable (_ ∧ _))

/-- The status of a kernel that is not busy with a request. -/
def restingStatus (k : Kernel) : KernelStatus :=
  if k.stopped then .dead else if k.initialized then .idle else .starting

/-- The engine runs a request, and has not answered it. -/
def Working (k : Kernel) : Prop :=
  ¬k.stopped ∧ k.initialized ∧ (k.status = .busy ∨ k.status = .interrupted)

/-- What holds at each phase of the engine path, if all interrupts are in time. -/
def PhaseLaw (k : Kernel) : Prop :=
  match k.phase with
  | .ready => k.status = restingStatus k
  | .loadStatus _ => k.status = restingStatus k
  | .dispatch _ => ¬k.stopped ∧ k.status = restingStatus k
  | .interrupting .loadStatus => ¬k.stopped ∧ k.status = restingStatus k
  | .interrupting _ => False
  | .storeBusy .shutdown => False
  | .storeBusy _ => ¬k.stopped ∧ k.initialized ∧ k.status = restingStatus k
  | .callEngine .shutdown => ¬k.stopped ∧ k.status = restingStatus k
  | .callEngine _ => Working k
  | .loadCancelled => Working k
  | .loadInterrupted => Working k
  | .confirmInterrupted => Working k
  | .storeInterrupted => Working k
  | .storeIdle => Working k
  | .storeDead => ¬k.stopped ∧ k.status = restingStatus k

variable {k : Kernel}

theorem PhaseLaw.statusLaw (h : PhaseLaw k)
    : StatusLaw k := by
  constructor
  case dead =>
    intro hstopped
    cases hphase : k.phase <;> simp_all [PhaseLaw, Working, restingStatus]
    case interrupting phase => cases phase <;> simp_all
    case callEngine request => cases request <;> simp_all
    case storeBusy request => cases request <;> simp_all
  case idle =>
    intro hinitialized hstopped hready _
    rw [PhaseLaw, hready] at h
    simpa [restingStatus, hinitialized, hstopped] using h

theorem restingStatus_ne_busy (k : Kernel)
    : restingStatus k ≠ .busy ∧ restingStatus k ≠ .interrupted := by
  unfold restingStatus
  split
  . simp
  . split <;> simp

theorem PhaseLaw.congr {k' : Kernel} (h : PhaseLaw k) (hphase : k'.phase = k.phase)
    (hstatus : k'.status = k.status) (hinitialized : k'.initialized = k.initialized)
    (hstopped : k'.stopped = k.stopped)
    : PhaseLaw k' := by
  simpa only [PhaseLaw, Working, restingStatus, hphase, hstatus, hinitialized, hstopped] using h

/-- An interrupt that is in time finds the engine at work. -/
theorem PhaseLaw.working (h : PhaseLaw k) (hstatus : k.status = .busy ∨ k.status = .interrupted)
    : Working k := by
  have hresting : k.status ≠ restingStatus k := by
    have hne := restingStatus_ne_busy k
    rcases hstatus with hstatus | hstatus
    . exact hstatus ▸ hne.1.symm
    . exact hstatus ▸ hne.2.symm
  rw [PhaseLaw] at h
  split at h <;> first
    | exact h
    | exact h.elim
    | exact absurd h hresting
    | exact absurd h.2 hresting
    | exact absurd h.2.2 hresting

theorem PhaseLaw.storeInterrupted {k' : Kernel} (h : PhaseLaw k) (hworking : Working k)
    (hphase : k'.phase = k.phase) (hstatus : k'.status = .interrupted)
    (hinitialized : k'.initialized = k.initialized) (hstopped : k'.stopped = k.stopped)
    : PhaseLaw k' := by
  obtain ⟨hnot, hinit, hbusy⟩ := hworking
  have hne := restingStatus_ne_busy k
  have hworking' : Working k' := ⟨hstopped ▸ hnot, hinitialized ▸ hinit, .inr hstatus⟩
  rw [PhaseLaw, hphase]
  rw [PhaseLaw] at h
  split at h <;> simp_all

theorem PhaseLaw.handleInterrupt {phase : InterruptPhase} (h : PhaseLaw k)
    (htimely : phase = .storeInterrupted → k.status = .busy ∨ k.status = .interrupted)
    : PhaseLaw (k.handleInterrupt phase).1 := by
  cases phase with
  | loadStatus =>
    dsimp only [Kernel.handleInterrupt]
    split <;> exact h
  | cancel status => exact h.congr rfl rfl rfl rfl
  | storeInterrupted => exact h.storeInterrupted (h.working (htimely rfl)) rfl rfl rfl rfl

theorem phaseLaw_dispatch {request : Request} (hstopped : ¬k.stopped)
    (hstatus : k.status = restingStatus k)
    : PhaseLaw (k.dispatch request) := by
  cases request <;> unfold Kernel.dispatch <;> dsimp only
  case initializeSession negotiates =>
    split
    . exact hstatus
    . simp [PhaseLaw, restingStatus, hstopped]
  case interrupt => exact ⟨hstopped, hstatus⟩
  case shutdown => exact ⟨hstopped, hstatus⟩
  case invalid => exact hstatus
  case setVariableElement expectedRevision =>
    split
    . exact hstatus
    . next hadmitted =>
      simp only [Bool.or_eq_true, not_or, Bool.not_eq_true', Bool.not_eq_false] at hadmitted
      exact ⟨hstopped, hadmitted.1.1, hstatus⟩
  all_goals
    split
    . next hinitialized => exact ⟨hstopped, hinitialized, hstatus⟩
    . exact hstatus

theorem phaseLaw_returnFromEngine {request : Request} {result : Except Unit Bool} (h : PhaseLaw k)
    (hphase : k.phase = .callEngine request)
    : PhaseLaw (k.returnFromEngine result request) := by
  rw [PhaseLaw, hphase] at h
  cases request with
  | shutdown => exact h
  | execute =>
    rcases result with _ | interrupted
    . exact h
    . cases interrupted <;> exact h
  | setVariableElement =>
    cases result <;> exact h
  | _ => exact h

/-- A step of the engine path leads from the law of its phase to the law of the next one. -/
theorem PhaseLaw.stepEngine (h : PhaseLaw k) (result : Except Unit Bool)
    : PhaseLaw (k.stepEngine result) := by
  rw [Kernel.stepEngine]
  cases hphase : k.phase <;> dsimp only
  case ready => exact h
  case callEngine request => exact phaseLaw_returnFromEngine h hphase
  all_goals rw [PhaseLaw, hphase] at h
  case loadStatus request =>
    split
    . exact h
    . next halive =>
      refine ⟨fun hstopped => halive ?_, h⟩
      rw [h, restingStatus, if_pos hstopped]
  case dispatch request => exact phaseLaw_dispatch h.1 h.2
  case interrupting phase =>
    cases phase with
    | loadStatus =>
      obtain ⟨hstopped, hstatus⟩ := h
      have hne := restingStatus_ne_busy k
      rw [← hstatus] at hne
      rw [Kernel.handleInterrupt]
      cases hload : k.status <;> dsimp only
      case busy => exact absurd hload hne.1
      case interrupted => exact absurd hload hne.2
      all_goals exact hload ▸ hstatus
    | cancel => exact h.elim
    | storeInterrupted => exact h.elim
  case storeBusy request =>
    cases request with
    | shutdown => exact h.elim
    | _ => exact ⟨h.1, h.2.1, .inl rfl⟩
  case loadCancelled => split <;> exact h
  case loadInterrupted => split <;> exact h
  case confirmInterrupted => split <;> exact h
  case storeInterrupted => exact ⟨h.1, h.2.1, .inr rfl⟩
  case storeIdle => simp [PhaseLaw, restingStatus, h.1, h.2.1]
  case storeDead => simp [PhaseLaw, restingStatus]

theorem PhaseLaw.step {action : Action} (h : PhaseLaw k) (htimely : Timely action k)
    : PhaseLaw (step action k) := by
  dsimp only [Kernel.step]
  cases action <;> dsimp only
  case receive request =>
    split
    . next hready =>
      rw [PhaseLaw, hready] at h
      split
      . rw [PhaseLaw, hready]
        exact h
      . exact h
    . exact h
  case engine result => exact h.stepEngine result
  case requestInterrupt => exact h.congr rfl rfl rfl rfl
  case control index =>
    split
    . exact h
    . next phase hphase =>
      have hnext := h.handleInterrupt fun hstore => htimely (hstore ▸ hphase)
      split
      . next hresult =>
        rw [hresult] at hnext
        exact hnext.congr rfl rfl rfl rfl
      . next hresult =>
        rw [hresult] at hnext
        exact hnext.congr rfl rfl rfl rfl

theorem phaseLaw_new
    : PhaseLaw .new :=
  rfl

theorem PhaseLaw.run {actions : List Action} (h : PhaseLaw k) (htimely : TimelyRun actions k)
    : PhaseLaw (run actions k) := by
  induction actions generalizing k with
  | nil => exact h
  | cons action actions ih => exact ih (h.step htimely.1) htimely.2

theorem stopped_handleInterrupt (k : Kernel) (phase : InterruptPhase)
    : (k.handleInterrupt phase).1.stopped = k.stopped := by
  cases phase with
  | loadStatus =>
    dsimp only [Kernel.handleInterrupt]
    split <;> rfl
  | cancel => rfl
  | storeInterrupted => rfl

theorem stopped_dispatch (k : Kernel) (request : Request)
    : (k.dispatch request).stopped = k.stopped := by
  cases request <;> dsimp only [Kernel.dispatch] <;> first | rfl | (split <;> rfl)

theorem stopped_returnFromEngine (k : Kernel) (result : Except Unit Bool) (request : Request)
    : (k.returnFromEngine result request).stopped = k.stopped := by
  cases request with
  | execute =>
    rcases result with _ | interrupted
    . rfl
    . cases interrupted <;> rfl
  | setVariableElement => cases result <;> rfl
  | _ => rfl

theorem stopped_step (h : k.stopped) (action : Action)
    : (step action k).stopped := by
  dsimp only [step]
  cases action <;> dsimp only
  case receive request =>
    split
    . split <;> exact h
    . exact h
  case requestInterrupt => exact h
  case control index =>
    split
    . exact h
    . next phase _ =>
      have hnext := stopped_handleInterrupt k phase
      split <;>
      . next hresult =>
        rw [hresult] at hnext
        exact hnext.trans h
  case engine result =>
    unfold Kernel.stepEngine
    cases k.phase <;> dsimp only
    case dispatch request => exact (stopped_dispatch k request).trans h
    case callEngine request => exact (stopped_returnFromEngine k result request).trans h
    case interrupting phase =>
      have hnext := stopped_handleInterrupt k phase
      split <;>
      . next hresult =>
        rw [hresult] at hnext
        exact hnext.trans h
    all_goals first | exact h | (split <;> exact h)

theorem stopped_run {actions : List Action} (h : k.stopped)
    : (run actions k).stopped := by
  induction actions generalizing k with
  | nil => exact h
  | cons action actions ih => exact ih (stopped_step h action)

theorem run_append (actions later : List Action) (k : Kernel)
    : run (actions ++ later) k = run later (run actions k) := by
  induction actions generalizing k with
  | nil => rfl
  | cons action actions ih => exact ih (step action k)

/-- If all interrupts are in time, then the status is right in every state of a run, and remains dead
after a shutdown. -/
theorem kernelStatus_correct (actions later : List Action) (h : TimelyRun (actions ++ later) .new)
    : StatusLaw (run (actions ++ later) .new)
        ∧ ((run actions .new).stopped → (run (actions ++ later) .new).status = .dead
          ∧ ∀ request, (run (actions ++ later) .new).phase ≠ .callEngine request) := by
  have hlaw : StatusLaw (run (actions ++ later) .new) := (PhaseLaw.run phaseLaw_new h).statusLaw
  refine ⟨hlaw, fun hstopped => ?_⟩
  have hlater : (run later (run actions .new)).stopped := stopped_run hstopped
  rw [← run_append] at hlater
  obtain ⟨hdead, hphase⟩ := hlaw.dead hlater
  refine ⟨hdead, fun request hcall => ?_⟩
  rcases hphase with hphase | ⟨received, hphase⟩ <;>
  . rw [hphase] at hcall
    cases hcall

/-- The engine path handles a request, with an engine that is not interrupted. -/
def handle (request : Request) (accesses : Nat) : List Action :=
  .receive request :: .replicate accesses (.engine (.ok false))

/-- An interrupt reads that an execution is busy, and goes on when the execution has ended. -/
def beginLateInterrupt : List Action :=
  handle (.initializeSession true) 2 ++ handle .execute 3 ++ [.requestInterrupt, .control 0]
    ++ .replicate 4 (.engine (.ok false))

def endLateInterrupt : List Action := [.control 0, .control 0]

/-- The next request after a shutdown reaches the engine. -/
def executeAfterShutdown : List Action :=
  beginLateInterrupt ++ handle .shutdown 4 ++ endLateInterrupt ++ handle .execute 3

theorem kernelStatus_lateInterrupt
    : ¬(∀ actions : List Action, StatusLaw (run actions .new))
        ∧ (run (beginLateInterrupt ++ endLateInterrupt) .new).status = .interrupted
        ∧ (run executeAfterShutdown .new).stopped
        ∧ (run executeAfterShutdown .new).phase = .callEngine .execute := by
  refine ⟨fun h => ?_, by decide, by decide, by decide⟩
  have hidle := (h (beginLateInterrupt ++ endLateInterrupt)).idle (by decide) (by decide) (by decide)
    (by decide)
  revert hidle
  decide

/-- An interrupt of an execution in time, and a shutdown after it. -/
def interruptInTime : List Action :=
  handle (.initializeSession true) 2 ++ handle .execute 3
    ++ [.requestInterrupt, .control 0, .control 0, .control 0] ++ .replicate 5 (.engine (.ok true))

theorem kernelStatus_correct_interruptInTime
    : StatusLaw (run (interruptInTime ++ handle .shutdown 4) .new) :=
  (kernelStatus_correct interruptInTime (handle .shutdown 4) (by decide)).1

end Kernel
end OpenMat
