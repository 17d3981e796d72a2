import OpenMat.Kernel.Editing

/-!
This module contains the requests of a session that has negotiated version 3, and what the revision of
the workspace says about the workspace.
-/

namespace OpenMat
namespace Kernel
namespace V3

open Protocol
open Values (Value FloatConversions)

/-- What the engine uses of the interpreter and of the code that renders values. -/
structure Host (ρ : Type) where
  floats : FloatConversions
  valueClassName : ρ → Value → String
  inspectValueV2 : Value → String → InspectRequest → AggregateLimits →
    Except EngineError InspectPreview
  clearSession : ρ → ρ

variable {ρ : Type} (host : Host ρ)

namespace Engine

def inspectV2 (engine : Engine ρ) (request : InspectRequest) (limits : AggregateLimits)
    : Except EngineError InspectPreview := do
  ensureRunning engine
  (request.validate limits.previewLimits).mapError fun e =>
    .new e.category ("invalid kernel-v2 inspect request: " ++ e.text)
  let value ← okOr (engine.workspace.get request.name)
    (.new "workspace.notFound" ("workspace variable `" ++ request.name ++ "` does not exist"))
  host.inspectValueV2 value (host.valueClassName engine.interpreter value) request limits

def listWorkspace (engine : Engine ρ) : Except EngineError (List VariableSummary) := do
  ensureRunning engine
  .ok (engine.workspace.bindings.map fun binding =>
    variableSummary binding.1 binding.2 (host.valueClassName engine.interpreter binding.2))

def shutdown (engine : Engine ρ) : Engine ρ where
  workspace := ⟨[], .nil⟩
  shutDown := true
  interpreter := host.clearSession engine.interpreter

end Engine

structure SessionKernel (ρ : Type) where
  engine : Engine ρ
  sessionId : String
  status : KernelStatus
  cancelled : Bool
  nextMessageId : Nat
  initialized : Bool
  workspaceRevision : Nat

/-- What an execution leaves behind: the engine, what it answers, and what control requests have stored
while it ran. -/
structure Execution (ρ : Type) where
  engine : Engine ρ
  result : Except EngineError (Bool × List Event)
  status : KernelStatus
  cancelled : Bool

namespace SessionKernel

def new (sessionId : String) (engine : Engine ρ) : SessionKernel ρ where
  engine := engine
  sessionId := sessionId
  status := .starting
  cancelled := false
  nextMessageId := 1
  initialized := false
  workspaceRevision := 0

/-- The kernel after a bootstrap request that has negotiated version 3. -/
def negotiated (sessionId : String) (engine : Engine ρ) (nextMessageId : Nat) : SessionKernel ρ :=
  { new sessionId engine with status := .idle, initialized := true, nextMessageId := nextMessageId }

def advanceWorkspaceRevision (k : SessionKernel ρ) : SessionKernel ρ :=
  { k with workspaceRevision := min (min (k.workspaceRevision + 1) (2 ^ 64 - 1)) maxSafeJsonInteger }

end SessionKernel

/-! The messages. -/

section Messages

abbrev Handler (ρ : Type) := StateM (SessionKernel ρ)

def nextId : Handler ρ String :=
  modifyGet fun k => ("kernel-" ++ toString k.nextMessageId,
    { k with nextMessageId := (k.nextMessageId + 1) % 2 ^ 64 })

def successV3 (request : RequestEnvelope .v3) (result : ResponseResult .v3)
    : Handler ρ (ServerMessage .v3) := do
  return .response (.success request (← nextId) result)

def failureV3 (request : RequestEnvelope .v3) (error : ProtocolError)
    : Handler ρ (ServerMessage .v3) := do
  return .response (.failure request (← nextId) error)

def eventMessageV3 (event : Event) : Handler ρ (ServerMessage .v3) := do
  let k ← get
  return .event (.new k.sessionId (← nextId) event)

def setStatus (status : KernelStatus) : Handler ρ Unit := modify fun k => { k with status := status }

/-- The status is set, and the clients are told. -/
def enterStatus (status : KernelStatus) : Handler ρ (ServerMessage .v3) := do
  setStatus status
  eventMessageV3 (.status status)

end Messages

/-! The requests. -/

def notInitialized : ProtocolError :=
  .new "kernel.notInitialized" "initialize must succeed before workspace requests"

def revisionConflict (revision expected : Nat) : ProtocolError :=
  .new "workspace.revisionConflict" ("workspace revision is " ++ toString revision ++ "; edit expected "
    ++ toString expected)

def revisionExhausted : ProtocolError :=
  .new "workspace.revisionExhausted" "workspace revision counter cannot advance safely"

/-- What is sent after an execution has returned and the revision was advanced. -/
def executionMessages (request : RequestEnvelope .v3) (result : Except EngineError (Bool × List Event))
    : Handler ρ (List (ServerMessage .v3)) := do
  match result with
  | .ok (interrupted, events) =>
    let messages ← events.mapM eventMessageV3
    let k ← get
    let interrupted := interrupted || k.cancelled || k.status = .interrupted
    if interrupted && k.status ≠ .interrupted then
      let interruption ← enterStatus .interrupted
      return messages ++ [interruption, ← successV3 request (.execute interrupted)]
    return messages ++ [← successV3 request (.execute interrupted)]
  | .error e =>
    let messages ← e.events.mapM eventMessageV3
    return messages ++ [← failureV3 request e.intoProtocolError]

def executeV3 (request : RequestEnvelope .v3) (execution : Execution ρ)
    : Handler ρ (List (ServerMessage .v3)) := do
  if !(← get).initialized then
    return [← failureV3 request notInitialized]
  let busy ← enterStatus .busy
  modify fun k => { k with
    engine := execution.engine, status := execution.status, cancelled := execution.cancelled }
  modify SessionKernel.advanceWorkspaceRevision
  let messages ← executionMessages request execution.result
  return busy :: messages ++ [← enterStatus .idle]

def inspectV3 (request : RequestEnvelope .v3) (parameters : InspectRequest) (limits : AggregateLimits)
    : Handler ρ (List (ServerMessage .v3)) := do
  if !(← get).initialized then
    return [← failureV3 request notInitialized]
  let busy ← enterStatus .busy
  let k ← get
  let response ← match k.engine.inspectV2 host parameters limits with
    | .ok preview => successV3 request (.inspect (⟨k.workspaceRevision, preview⟩ : VersionedInspectPreview))
    | .error e => failureV3 request e.intoProtocolError
  return [busy, response, ← enterStatus .idle]

def listWorkspaceV3 (request : RequestEnvelope .v3) : Handler ρ (List (ServerMessage .v3)) := do
  if !(← get).initialized then
    return [← failureV3 request notInitialized]
  let busy ← enterStatus .busy
  let k ← get
  let response ← match k.engine.listWorkspace host with
    | .ok summaries => successV3 request (.listWorkspace (⟨k.workspaceRevision,
        summaries.mergeSort fun a b => a.name ≤ b.name⟩ : VersionedWorkspaceSummary))
    | .error e => failureV3 request e.intoProtocolError
  return [busy, response, ← enterStatus .idle]

def setVariableElementV3 (request : RequestEnvelope .v3) (parameters : SetVariableElementRequest)
    : Handler ρ (List (ServerMessage .v3)) := do
  let k ← get
  if !k.initialized then
    return [← failureV3 request notInitialized]
  if parameters.expectedRevision ≠ k.workspaceRevision then
    return [← failureV3 request (revisionConflict k.workspaceRevision parameters.expectedRevision)]
  if k.workspaceRevision ≥ maxSafeJsonInteger then
    return [← failureV3 request revisionExhausted]
  let busy ← enterStatus .busy
  let edit := (setVariableElement host.floats parameters).result k.engine
  modify fun k => { k with engine := edit.2 }
  let response ← match edit.1 with
    | .ok summary => do
      modify SessionKernel.advanceWorkspaceRevision
      successV3 request (.setVariableElement (← get).workspaceRevision summary)
    | .error e => failureV3 request e.intoProtocolError
  return [busy, response, ← enterStatus .idle]

def shutdownV3 (request : RequestEnvelope .v3) : Handler ρ (List (ServerMessage .v3)) := do
  modify fun k => { k with engine := k.engine.shutdown host }
  let response ← successV3 request .shutdown
  return [response, ← enterStatus .dead]

/-- The checks that the engine path and the control path share. -/
def rejection (k : SessionKernel ρ) (request : RequestEnvelope .v3) (limits : AggregateLimits)
    : Option ProtocolError :=
  match request.validate limits with
  | .error e => some (.new "protocol.validation" e.text)
  | .ok _ =>
    if request.sessionId ≠ k.sessionId then
      some (.new "protocol.sessionMismatch" "request session does not match this kernel session")
    else
      none

def handleInterruptV3 (request : RequestEnvelope .v3) (limits : AggregateLimits)
    : Handler ρ (List (ServerMessage .v3)) := do
  let k ← get
  match rejection k request limits with
  | some error => return [← failureV3 request error]
  | none =>
    match request.request with
    | .interrupt =>
      let accepted := k.status = .busy || k.status = .interrupted
      let response ← successV3 request (.interrupt accepted)
      if !accepted then
        return [response]
      modify fun k => { k with cancelled := true }
      if k.status = .busy then
        return [response, ← enterStatus .interrupted]
      return [response]
    | _ =>
      return [← failureV3 request
        (.new "protocol.controlRequest" "control path accepts only interrupt requests")]

def handleV3Request (request : RequestEnvelope .v3) (limits : AggregateLimits) (execution : Execution ρ)
    : Handler ρ (List (ServerMessage .v3)) := do
  let k ← get
  match rejection k request limits with
  | some error => return [← failureV3 request error]
  | none =>
    if k.status = .dead then
      return [← failureV3 request (.new "kernel.dead" "kernel has already shut down")]
    match request.request with
    | .interrupt => handleInterruptV3 request limits
    | .execute _ => executeV3 request execution
    | .inspect parameters => inspectV3 host request parameters limits
    | .listWorkspace => listWorkspaceV3 host request
    | .setVariableElement parameters => setVariableElementV3 host request parameters
    | .shutdown => shutdownV3 host request

/-! What one request does to the revision and to the engine. -/

def reportedRevision : ServerMessage .v3 → Option Nat
  | .event _ => none
  | .response response =>
    match response.result with
    | some (.inspect preview) => some (VersionedInspectPreview.revision preview)
    | some (.listWorkspace summary) => some (VersionedWorkspaceSummary.revision summary)
    | some (.setVariableElement revision _) => some revision
    | _ => none

/-- The request was answered with a result. -/
def accepted (messages : List (ServerMessage .v3)) : Bool :=
  messages.any fun message =>
    match message with
    | .response response => response.ok
    | .event _ => false

/-- The request is dispatched to a handler that goes on to the engine. -/
def Admits (k : SessionKernel ρ) (request : RequestEnvelope .v3) (limits : AggregateLimits) : Prop :=
  rejection k request limits = none ∧ k.status ≠ .dead ∧ k.initialized

/-- What is reported beside the contents of the workspace is its revision. -/
def Reports (outcome : List (ServerMessage .v3) × SessionKernel ρ) : Prop :=
  ∀ message ∈ outcome.1, ∀ revision, reportedRevision message = some revision →
    revision = outcome.2.workspaceRevision

inductive Effect (k : SessionKernel ρ) (request : RequestEnvelope .v3) (limits : AggregateLimits)
    (execution : Execution ρ) (outcome : List (ServerMessage .v3) × SessionKernel ρ) : Prop where
  | kept
    (hengine : outcome.2.engine = k.engine)
    (hrevision : outcome.2.workspaceRevision = k.workspaceRevision)
    (hdead : k.status = .dead → outcome.2.status = .dead)
    (hexecute : ∀ parameters, request.request = .execute parameters → ¬Admits k request limits)
    (hedit : ∀ parameters, request.request = .setVariableElement parameters →
      accepted outcome.1 = false)
  | executed (parameters : ExecuteRequest)
    (hrequest : request.request = .execute parameters)
    (hadmits : Admits k request limits)
    (hengine : outcome.2.engine = execution.engine)
    (hrevision : outcome.2.workspaceRevision = k.advanceWorkspaceRevision.workspaceRevision)
  | edited (parameters : SetVariableElementRequest) (summary : VariableSummary)
    (hrequest : request.request = .setVariableElement parameters)
    (hadmits : Admits k request limits)
    (hexpected : parameters.expectedRevision = k.workspaceRevision)
    (hlt : k.workspaceRevision < maxSafeJsonInteger)
    (hengine : (setVariableElement host.floats parameters).result k.engine = (.ok summary, outcome.2.engine))
    (hrevision : outcome.2.workspaceRevision = k.advanceWorkspaceRevision.workspaceRevision)
    (haccepted : accepted outcome.1 = true)
  | stopped
    (hrequest : request.request = .shutdown)
    (hrevision : outcome.2.workspaceRevision = k.workspaceRevision)
    (hdead : outcome.2.status = .dead)

section Run

variable {k : SessionKernel ρ} {request : RequestEnvelope .v3}

theorem run_failureV3 {error : ProtocolError}
    : (failureV3 request error).run k =
        (.response (.failure request ("kernel-" ++ toString k.nextMessageId) error),
          { k with nextMessageId := (k.nextMessageId + 1) % 2 ^ 64 }) :=
  rfl

theorem run_successV3 {result : ResponseResult .v3}
    : (successV3 request result).run k =
        (.response (.success request ("kernel-" ++ toString k.nextMessageId) result),
          { k with nextMessageId := (k.nextMessageId + 1) % 2 ^ 64 }) :=
  rfl

theorem run_eventMessageV3 {event : Event}
    : (eventMessageV3 event).run k =
        (.event (.new k.sessionId ("kernel-" ++ toString k.nextMessageId) event),
          { k with nextMessageId := (k.nextMessageId + 1) % 2 ^ 64 }) :=
  rfl

theorem run_enterStatus {status : KernelStatus}
    : (enterStatus status).run k =
        (.event (.new k.sessionId ("kernel-" ++ toString k.nextMessageId) (.status status)),
          { k with status := status, nextMessageId := (k.nextMessageId + 1) % 2 ^ 64 }) :=
  rfl

/-- A request that is answered with an error and nothing else. -/
theorem effect_failureV3 {limits : AggregateLimits} {execution : Execution ρ} {error : ProtocolError}
    (hexecute : ∀ parameters, request.request = .execute parameters → ¬Admits k request limits)
    : Effect host k request limits execution
        ((do return [← failureV3 request error] : Handler ρ (List (ServerMessage .v3))).run k) ∧
      Reports ((do return [← failureV3 request error] : Handler ρ (List (ServerMessage .v3))).run k) := by
  rw [run_bind, run_failureV3, run_pure]
  refine ⟨.kept rfl rfl (fun h => h) hexecute (fun _ _ => rfl), ?_⟩
  intro message hmessage revision hrevision
  cases List.mem_singleton.mp hmessage
  cases hrevision

theorem not_admits_of_not_initialized {limits : AggregateLimits} (h : k.initialized = false)
    : ¬Admits k request limits := by
  rintro ⟨_, _, hinitialized⟩
  rw [h] at hinitialized
  cases hinitialized

theorem mapM_eventMessageV3 (events : List Event)
    : (((events.mapM eventMessageV3).run k).2.engine = k.engine ∧
        ((events.mapM eventMessageV3).run k).2.workspaceRevision = k.workspaceRevision) ∧
      ∀ message ∈ ((events.mapM eventMessageV3).run k).1, reportedRevision message = none := by
  refine run_mapM k
    (fun s => s.engine = k.engine ∧ s.workspaceRevision = k.workspaceRevision)
    (fun message => reportedRevision message = none) ⟨rfl, rfl⟩ ?_
  intro event s hs
  rw [run_eventMessageV3]
  exact ⟨hs, rfl⟩

theorem reports_of_none {messages : List (ServerMessage .v3)} {k' : SessionKernel ρ}
    (h : ∀ message ∈ messages, reportedRevision message = none)
    : Reports (messages, k') := by
  intro message hmessage revision hrevision
  rw [h message hmessage] at hrevision
  cases hrevision

/-- The status messages around a response report nothing. -/
theorem reports_of_response {before after : EventEnvelope .v3} {response : ResponseEnvelope .v3}
    {k' : SessionKernel ρ}
    (h : ∀ revision, reportedRevision (.response response) = some revision →
      revision = k'.workspaceRevision)
    : Reports ([.event before, .response response, .event after], k') := by
  simp only [Reports, List.mem_cons, List.not_mem_nil, or_false, forall_eq_or_imp, forall_eq]
  exact ⟨by simp [reportedRevision], h, by simp [reportedRevision]⟩

theorem effect_inspectV3 {limits : AggregateLimits} {execution : Execution ρ}
    {parameters : InspectRequest} (hrequest : request.request = .inspect parameters)
    (halive : k.status ≠ .dead)
    : Effect host k request limits execution ((inspectV3 host request parameters limits).run k) ∧
      Reports ((inspectV3 host request parameters limits).run k) := by
  have hexecute : ∀ parameters, request.request = .execute parameters → ¬Admits k request limits :=
    fun _ h => by rw [hrequest] at h; cases h
  have hedit (messages) : ∀ parameters, request.request = .setVariableElement parameters →
      accepted messages = false := fun _ h => by rw [hrequest] at h; cases h
  rw [inspectV3, run_bind, run_get]
  cases hinitialized : k.initialized with
  | false => exact effect_failureV3 host hexecute
  | true =>
    simp only [Bool.not_true, Bool.false_eq_true, if_false, run_bind, run_enterStatus, run_get]
    cases k.engine.inspectV2 host parameters limits with
    | error e =>
      exact ⟨.kept rfl rfl (fun h => absurd h halive) hexecute (hedit _), reports_of_response nofun⟩
    | ok preview =>
      refine ⟨.kept rfl rfl (fun h => absurd h halive) hexecute (hedit _), reports_of_response ?_⟩
      rintro revision ⟨⟩
      rfl

theorem effect_listWorkspaceV3 {limits : AggregateLimits} {execution : Execution ρ}
    (hrequest : request.request = .listWorkspace) (halive : k.status ≠ .dead)
    : Effect host k request limits execution ((listWorkspaceV3 host request).run k) ∧
      Reports ((listWorkspaceV3 host request).run k) := by
  have hexecute : ∀ parameters, request.request = .execute parameters → ¬Admits k request limits :=
    fun _ h => by rw [hrequest] at h; cases h
  have hedit (messages) : ∀ parameters, request.request = .setVariableElement parameters →
      accepted messages = false := fun _ h => by rw [hrequest] at h; cases h
  rw [listWorkspaceV3, run_bind, run_get]
  cases hinitialized : k.initialized with
  | false => exact effect_failureV3 host hexecute
  | true =>
    simp only [Bool.not_true, Bool.false_eq_true, if_false, run_bind, run_enterStatus, run_get]
    cases k.engine.listWorkspace host with
    | error e =>
      exact ⟨.kept rfl rfl (fun h => absurd h halive) hexecute (hedit _), reports_of_response nofun⟩
    | ok summaries =>
      refine ⟨.kept rfl rfl (fun h => absurd h halive) hexecute (hedit _), reports_of_response ?_⟩
      rintro revision ⟨⟩
      rfl

theorem effect_setVariableElementV3 {limits : AggregateLimits} {execution : Execution ρ}
    {parameters : SetVariableElementRequest} (hrequest : request.request = .setVariableElement parameters)
    (hadmits : k.initialized → Admits k request limits)
    : Effect host k request limits execution ((setVariableElementV3 host request parameters).run k) ∧
      Reports ((setVariableElementV3 host request parameters).run k) := by
  have hexecute : ∀ parameters, request.request = .execute parameters → ¬Admits k request limits :=
    fun _ h => by rw [hrequest] at h; cases h
  rw [setVariableElementV3, run_bind, run_get]
  cases hinitialized : k.initialized with
  | false => exact effect_failureV3 host hexecute
  | true =>
    have hadmitted := hadmits hinitialized
    simp only [Bool.not_true, Bool.false_eq_true, if_false]
    by_cases hexpected : parameters.expectedRevision = k.workspaceRevision
    case neg =>
      rw [if_pos hexpected]
      exact effect_failureV3 host hexecute
    by_cases hlt : k.workspaceRevision < maxSafeJsonInteger
    case neg =>
      rw [if_neg (not_not_intro hexpected), if_pos (Nat.le_of_not_lt hlt)]
      exact effect_failureV3 host hexecute
    rw [if_neg (not_not_intro hexpected), if_neg (Nat.not_le_of_lt hlt)]
    simp only [run_bind, run_enterStatus, run_modify]
    have hatomic := atomic_setVariableElement host.floats parameters k.engine
    rcases hresult : (setVariableElement host.floats parameters).result k.engine with ⟨e | summary, engine⟩
    . rw [Update.AtomicAt, hresult] at hatomic
      exact ⟨.kept (hatomic e rfl) rfl (fun h => absurd h hadmitted.2.1) hexecute (fun _ _ => rfl),
        reports_of_response (by simp [reportedRevision, ResponseEnvelope.failure])⟩
    . refine ⟨.edited parameters summary hrequest hadmitted hexpected hlt hresult rfl rfl,
        reports_of_response ?_⟩
      rintro revision ⟨⟩
      rfl

variable (request) in
theorem executionMessages_spec (result : Except EngineError (Bool × List Event))
    : (((executionMessages request result).run k).2.engine = k.engine ∧
        ((executionMessages request result).run k).2.workspaceRevision = k.workspaceRevision) ∧
      ∀ message ∈ ((executionMessages request result).run k).1, reportedRevision message = none := by
  rcases result with e | ⟨interrupted, events⟩
  . obtain ⟨hkept, hevents⟩ := mapM_eventMessageV3 (k := k) e.events
    rw [executionMessages, run_bind, run_bind, run_failureV3, run_pure]
    refine ⟨hkept, List.forall_mem_append.mpr ⟨hevents, ?_⟩⟩
    simp [reportedRevision, ResponseEnvelope.failure]
  . obtain ⟨hkept, hevents⟩ := mapM_eventMessageV3 (k := k) events
    rw [executionMessages, run_bind, run_bind, run_get]
    dsimp only
    split
    . rw [run_bind, run_enterStatus, run_bind, run_successV3, run_pure]
      refine ⟨hkept, List.forall_mem_append.mpr ⟨hevents, ?_⟩⟩
      simp [reportedRevision, ResponseEnvelope.success]
    . rw [run_bind, run_successV3, run_pure]
      refine ⟨hkept, List.forall_mem_append.mpr ⟨hevents, ?_⟩⟩
      simp [reportedRevision, ResponseEnvelope.success]

theorem effect_executeV3 {limits : AggregateLimits} {execution : Execution ρ}
    {parameters : ExecuteRequest} (hrequest : request.request = .execute parameters)
    (hadmits : k.initialized → Admits k request limits)
    : Effect host k request limits execution ((executeV3 request execution).run k) ∧
      Reports ((executeV3 request execution).run k) := by
  rw [executeV3, run_bind, run_get]
  cases hinitialized : k.initialized with
  | false =>
    exact effect_failureV3 host fun _ _ => not_admits_of_not_initialized hinitialized
  | true =>
    simp only [Bool.not_true, Bool.false_eq_true, if_false, run_bind, run_enterStatus, run_modify]
    obtain ⟨hkept, hmessages⟩ := executionMessages_spec request (k := SessionKernel.advanceWorkspaceRevision { k with
        engine := execution.engine, status := execution.status, cancelled := execution.cancelled,
        nextMessageId := (k.nextMessageId + 1) % 2 ^ 64 }) execution.result
    refine ⟨.executed parameters hrequest (hadmits hinitialized) hkept.1 hkept.2, reports_of_none ?_⟩
    refine List.forall_mem_append.mpr ⟨List.forall_mem_cons.mpr ⟨rfl, hmessages⟩, ?_⟩
    simp [reportedRevision]

theorem effect_shutdownV3 {limits : AggregateLimits} {execution : Execution ρ}
    (hrequest : request.request = .shutdown)
    : Effect host k request limits execution ((shutdownV3 host request).run k) ∧
      Reports ((shutdownV3 host request).run k) := by
  rw [shutdownV3, run_bind, run_modify, run_bind, run_successV3, run_bind, run_enterStatus, run_pure]
  refine ⟨.stopped hrequest rfl rfl, reports_of_none ?_⟩
  simp [reportedRevision, ResponseEnvelope.success]

theorem effect_handleInterruptV3 {limits : AggregateLimits} {execution : Execution ρ}
    (hrequest : request.request = .interrupt) (halive : k.status ≠ .dead)
    : Effect host k request limits execution ((handleInterruptV3 request limits).run k) ∧
      Reports ((handleInterruptV3 request limits).run k) := by
  have hexecute : ∀ parameters, request.request = .execute parameters → ¬Admits k request limits :=
    fun _ h => by rw [hrequest] at h; cases h
  have hedit (messages) : ∀ parameters, request.request = .setVariableElement parameters →
      accepted messages = false := fun _ h => by rw [hrequest] at h; cases h
  have hkept (status cancelled nextMessageId messages)
      : Effect host k request limits execution (messages, { k with
          status := status, cancelled := cancelled, nextMessageId := nextMessageId }) :=
    .kept rfl rfl (fun h => absurd h halive) hexecute (hedit _)
  rw [handleInterruptV3, run_bind, run_get, hrequest]
  split
  . exact effect_failureV3 host hexecute
  . simp only [run_bind, run_successV3]
    split
    . exact ⟨hkept _ _ _ _, reports_of_none (by simp [reportedRevision, ResponseEnvelope.success])⟩
    . simp only [run_bind, run_modify]
      split
      . refine ⟨hkept _ _ _ _, reports_of_none ?_⟩
        simp [reportedRevision, ResponseEnvelope.success]
      . refine ⟨hkept _ _ _ _, reports_of_none ?_⟩
        simp [reportedRevision, ResponseEnvelope.success]

/-- Every request has one of the four effects, and what is reported is true afterwards. -/
theorem effect_handleV3Request (limits : AggregateLimits) (execution : Execution ρ)
    : Effect host k request limits execution ((handleV3Request host request limits execution).run k) ∧
      Reports ((handleV3Request host request limits execution).run k) := by
  rw [handleV3Request, run_bind, run_get]
  cases hrejection : rejection k request limits with
  | some error =>
    refine effect_failureV3 host fun _ _ hadmits => ?_
    rw [hadmits.1] at hrejection
    cases hrejection
  | none =>
    simp only []
    split
    . rename_i hdead
      exact effect_failureV3 host fun _ _ hadmits => hadmits.2.1 hdead
    . rename_i halive
      have hadmits (h : k.initialized) : Admits k request limits := ⟨hrejection, halive, h⟩
      split
      . rename_i hrequest
        exact effect_handleInterruptV3 host hrequest halive
      . rename_i hrequest
        exact effect_executeV3 host hrequest hadmits
      . rename_i hrequest
        exact effect_inspectV3 host hrequest halive
      . rename_i hrequest
        exact effect_listWorkspaceV3 host hrequest halive
      . rename_i hrequest
        exact effect_setVariableElementV3 host hrequest hadmits
      . rename_i hrequest
        exact effect_shutdownV3 host hrequest

end Run

/-! Runs. -/

/-- A request of any client, and what the engine would do if it were an execution. -/
structure Input (ρ : Type) where
  request : RequestEnvelope .v3
  execution : Execution ρ

def step (limits : AggregateLimits) (k : SessionKernel ρ) (input : Input ρ)
    : List (ServerMessage .v3) × SessionKernel ρ :=
  (handleV3Request host input.request limits input.execution).run k

def after (limits : AggregateLimits) (k : SessionKernel ρ) : List (Input ρ) → SessionKernel ρ
  | [] => k
  | input :: inputs => after limits (step host limits k input).2 inputs

/-- An execution has completed, or an edit has succeeded. -/
def Changes (limits : AggregateLimits) (k : SessionKernel ρ) (input : Input ρ) : Prop :=
  (∃ parameters, input.request.request = .execute parameters ∧ Admits k input.request limits) ∨
  (∃ parameters, input.request.request = .setVariableElement parameters ∧
    accepted (step host limits k input).1 = true)

def Quiet (limits : AggregateLimits) (k : SessionKernel ρ) : List (Input ρ) → Prop
  | [] => True
  | input :: inputs => ¬Changes host limits k input ∧ Quiet limits (step host limits k input).2 inputs

section Invariants

variable {limits : AggregateLimits} {k : SessionKernel ρ}

theorem advance_bounds (h : k.workspaceRevision ≤ maxSafeJsonInteger)
    : k.workspaceRevision ≤ k.advanceWorkspaceRevision.workspaceRevision ∧
      k.advanceWorkspaceRevision.workspaceRevision ≤ maxSafeJsonInteger ∧
      (k.workspaceRevision < maxSafeJsonInteger →
        k.advanceWorkspaceRevision.workspaceRevision = k.workspaceRevision + 1) := by
  simp only [SessionKernel.advanceWorkspaceRevision, maxSafeJsonInteger] at h ⊢
  omega

variable (limits) in
theorem step_bounds (input : Input ρ) (h : k.workspaceRevision ≤ maxSafeJsonInteger)
    : k.workspaceRevision ≤ (step host limits k input).2.workspaceRevision ∧
      (step host limits k input).2.workspaceRevision ≤ maxSafeJsonInteger := by
  obtain ⟨hkeep, hmax, _⟩ := advance_bounds h
  cases (effect_handleV3Request host limits input.execution : Effect host k input.request _ _ _ ∧ _).1 with
  | kept _ hrevision => exact ⟨hrevision.ge, hrevision.le.trans h⟩
  | executed _ _ _ _ hrevision => exact ⟨hkeep.trans hrevision.ge, hrevision.le.trans hmax⟩
  | edited _ _ _ _ _ _ _ hrevision => exact ⟨hkeep.trans hrevision.ge, hrevision.le.trans hmax⟩
  | stopped _ hrevision => exact ⟨hrevision.ge, hrevision.le.trans h⟩

/-- A change is a change of the revision, up to the maximum. -/
theorem not_changes_of_eq {input : Input ρ} (hlt : k.workspaceRevision < maxSafeJsonInteger)
    (h : (step host limits k input).2.workspaceRevision = k.workspaceRevision)
    : ¬Changes host limits k input := by
  obtain ⟨_, _, hadvance⟩ := advance_bounds hlt.le
  cases (effect_handleV3Request host limits input.execution : Effect host k input.request _ _ _ ∧ _).1 with
  | kept _ _ _ hexecute hedit =>
    rintro (⟨parameters, hrequest, hadmits⟩ | ⟨parameters, hrequest, haccepted⟩)
    . exact hexecute parameters hrequest hadmits
    . exact absurd haccepted (by rw [step, hedit parameters hrequest]; decide)
  | executed _ _ _ _ hrevision =>
    rw [step, hrevision, hadvance hlt] at h
    omega
  | edited _ _ _ _ _ _ _ hrevision =>
    rw [step, hrevision, hadvance hlt] at h
    omega
  | stopped hrequest =>
    rintro (⟨_, h, _⟩ | ⟨_, h, _⟩) <;>
    . rw [hrequest] at h
      cases h

theorem step_dead (input : Input ρ) (h : k.status = .dead)
    : (step host limits k input).2.status = .dead := by
  cases (effect_handleV3Request host limits input.execution : Effect host k input.request _ _ _ ∧ _).1 with
  | kept _ _ hdead => exact hdead h
  | executed _ _ hadmits => exact absurd h hadmits.2.1
  | edited _ _ _ hadmits => exact absurd h hadmits.2.1
  | stopped _ _ hdead => exact hdead

theorem step_engine_of_not_changes {input : Input ρ} (h : ¬Changes host limits k input)
    (halive : (step host limits k input).2.status ≠ .dead)
    : (step host limits k input).2.engine = k.engine := by
  cases (effect_handleV3Request host limits input.execution : Effect host k input.request _ _ _ ∧ _).1 with
  | kept hengine => exact hengine
  | executed parameters hrequest hadmits => exact absurd (.inl ⟨parameters, hrequest, hadmits⟩) h
  | edited parameters _ hrequest _ _ _ _ _ haccepted =>
    exact absurd (.inr ⟨parameters, hrequest, haccepted⟩) h
  | stopped _ _ hdead => exact absurd hdead halive

variable (limits) in
theorem after_bounds (inputs : List (Input ρ)) (h : k.workspaceRevision ≤ maxSafeJsonInteger)
    : k.workspaceRevision ≤ (after host limits k inputs).workspaceRevision ∧
      (after host limits k inputs).workspaceRevision ≤ maxSafeJsonInteger := by
  induction inputs generalizing k with
  | nil => exact ⟨le_rfl, h⟩
  | cons input inputs ih =>
    obtain ⟨hstep, hmax⟩ := step_bounds host limits input h
    obtain ⟨hrest, hend⟩ := ih hmax
    exact ⟨hstep.trans hrest, hend⟩

theorem after_dead (inputs : List (Input ρ)) (h : k.status = .dead)
    : (after host limits k inputs).status = .dead := by
  induction inputs generalizing k with
  | nil => exact h
  | cons input inputs ih => exact ih (step_dead host input h)

/-- As long as the revision is the same, nothing has changed. -/
theorem quiet_of_eq {inputs : List (Input ρ)} (hlt : k.workspaceRevision < maxSafeJsonInteger)
    (h : (after host limits k inputs).workspaceRevision = k.workspaceRevision)
    : Quiet host limits k inputs := by
  induction inputs generalizing k with
  | nil => trivial
  | cons input inputs ih =>
    -- the revision that is the same at the end was never left
    obtain ⟨hstep, hmax⟩ := step_bounds host limits input hlt.le
    have hrest := (after_bounds host limits inputs hmax).1
    have hsame : (step host limits k input).2.workspaceRevision = k.workspaceRevision :=
      le_antisymm (hrest.trans h.le) hstep
    refine ⟨not_changes_of_eq host hlt hsame, ih (by rwa [hsame]) ?_⟩
    rw [hsame]
    exact h

theorem engine_of_quiet {inputs : List (Input ρ)} (h : Quiet host limits k inputs)
    (halive : (after host limits k inputs).status ≠ .dead)
    : (after host limits k inputs).engine = k.engine := by
  induction inputs generalizing k with
  | nil => rfl
  | cons input inputs ih =>
    have hstep : (step host limits k input).2.status ≠ .dead :=
      fun hdead => halive (after_dead host inputs hdead)
    rw [after, ih h.2 halive, step_engine_of_not_changes host h.1 hstep]

end Invariants

/-- The revision of the workspace over all runs: it never falls and stays a safe integer, it stands for
one workspace as long as it can grow, an edit succeeds only on the revision that its client has seen, and
an edit that fails changes nothing. -/
theorem workspace_revision_correct (limits : AggregateLimits) (sessionId : String) (engine : Engine ρ)
    (nextMessageId : Nat) (earlier later : List (Input ρ)) (input : Input ρ)
    : let seen := after host limits (.negotiated sessionId engine nextMessageId) earlier
      let now := after host limits seen later
      let next := step host limits now input
      (seen.workspaceRevision ≤ now.workspaceRevision ∧ now.workspaceRevision ≤ maxSafeJsonInteger) ∧
      (∀ parameters, input.request.request = .setVariableElement parameters →
        (accepted next.1 = true →
          parameters.expectedRevision = now.workspaceRevision ∧
          now.workspaceRevision < maxSafeJsonInteger ∧
          next.2.workspaceRevision = now.workspaceRevision + 1 ∧
          (parameters.expectedRevision = seen.workspaceRevision →
            Quiet host limits seen later ∧ now.engine = seen.engine)) ∧
        (accepted next.1 = false →
          next.2.workspaceRevision = now.workspaceRevision ∧ next.2.engine = now.engine)) ∧
      (seen.workspaceRevision < maxSafeJsonInteger →
        now.workspaceRevision = seen.workspaceRevision → now.status ≠ .dead → now.engine = seen.engine) ∧
      Reports next := by
  intro seen now next
  have hseen : seen.workspaceRevision ≤ maxSafeJsonInteger :=
    (after_bounds host limits earlier (Nat.zero_le _)).2
  have hbounds := after_bounds host limits later hseen
  have hspec : Effect host now input.request limits input.execution next ∧ Reports next :=
    effect_handleV3Request host limits input.execution
  obtain ⟨heffect, hreports⟩ := hspec
  refine ⟨hbounds, ?_, ?_, hreports⟩
  . intro parameters hparameters
    cases heffect with
    | kept hengine hrevision _ _ hedit =>
      exact ⟨fun haccepted => absurd haccepted (Bool.eq_false_iff.mp (hedit parameters hparameters)),
        fun _ => ⟨hrevision, hengine⟩⟩
    | executed _ hrequest =>
      rw [hparameters] at hrequest
      cases hrequest
    | stopped hrequest =>
      rw [hparameters] at hrequest
      cases hrequest
    | edited _ _ hrequest hadmits hexpected hlt _ hrevision haccepted =>
      rw [hparameters] at hrequest
      cases hrequest
      refine ⟨fun _ => ⟨hexpected, hlt, ?_, fun hsame => ?_⟩, fun h => ?_⟩
      . exact hrevision.trans ((advance_bounds hlt.le).2.2 hlt)
      . rw [hexpected] at hsame
        have hquiet : Quiet host limits seen later := quiet_of_eq host (hsame ▸ hlt) hsame
        exact ⟨hquiet, engine_of_quiet host hquiet hadmits.2.1⟩
      . exact absurd haccepted (Bool.eq_false_iff.mp h)
  . intro hlt hsame halive
    exact engine_of_quiet host (quiet_of_eq host hlt hsame) halive

end V3
end Kernel
end OpenMat
