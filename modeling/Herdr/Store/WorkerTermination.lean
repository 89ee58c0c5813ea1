import Herdr.Store.Reservations

/-!
# Worker termination and completion

`src/store/worker_termination.rs`: observed quiescence of a started worker or of a staged launch
releases the capacity of its attempt, and a completion request asks for the first. Nothing here
deletes runtime records.
-/

namespace Herdr

variable [Digests] (env : Outside)

/-! ## Quiescence of a historical workspace -/

/-- The event records a root workspace whose bootstrap shell has no quiescence evidence. -/
def EventBody.historicalWorkspace : EventBody → Bool
  | .launchCreation intent => intent.version = 1 && intent.route.workspaceId.isEmpty
  | .launchWorkspace workspace => workspace.version = 1
  | _ => false

/-- The loop of `require_workspace_quiescence` over the creation and workspace events. -/
def quiescent (rebooted : Bool) (seen : List EventKind) : List Event → Except StoreError Unit
  | [] => .ok ()
  | e :: rest =>
    if e.kind ∈ seen then .error (.corrupt "duplicate workspace provenance")
    else if e.body.historicalWorkspace ∧ rebooted = false then
      .error (invalid ("historical workspace bootstrap quiescence is unresolved; " ++
        "worker stop cannot release capacity"))
    else quiescent rebooted (e.kind :: seen) rest

/-- `require_workspace_quiescence`. -/
def requireWorkspaceQuiescence (operation : OperationId) (supervisor : SupervisorIdentity)
    (reboot : Option HostRebootEvidence) : Body Unit := do
  .require (reboot.all fun e => e.validateFor supervisor)
    (invalid "invalid workspace reboot evidence")
  .query fun s => quiescent reboot.isSome []
    (s.events.filter (·.isAbout operation.val [.launchCreation, .launchWorkspace]))

/-! ## Shared disposition -/

/-- The attempt and its task after the worker is known to have ended. -/
def dispose (attempt : Attempt) (attemptState : AttemptState) (task : Task)
    (taskState : TaskState) : Body (Attempt × Task) := do
  let _ ← next attempt.revision .conflict
  let _ ← next task.revision .conflict
  let attempt := { attempt with
    revision := attempt.revision + 1, state := attemptState, terminationObserved := true }
  let task := { task with
    revision := task.revision + 1, state := taskState, activeAttempt := none }
  updateAttempt attempt
  .outside env.subsidiary
  updateTask task
  pure (attempt, task)

/-! ## Termination of a started worker -/

/-- The receipt names the binding and the ownership that the start published. -/
def WorkerTerminationReceipt.ofOwner (receipt : WorkerTerminationReceipt)
    (record : AttemptInputRecord) (binding : RuntimeBinding) (owner : RuntimeOwnership)
    (attempt : Attempt) (task : Task) : Prop :=
  record.inputs.binding = binding.id ∧ binding.revision = receipt.bindingRevision ∧
  binding.identity = receipt.retainedResources ∧ owner.origin = .launched ∧
  owner.attempt = some attempt.id ∧ owner.revision = receipt.ownershipRevision ∧
  owner.bindingRevision = binding.revision ∧
  owner.identityDigest = Digests.identity binding.identity ∧
  task.activeAttempt = some attempt.id

instance (receipt : WorkerTerminationReceipt) (record : AttemptInputRecord)
    (binding : RuntimeBinding) (owner : RuntimeOwnership) (attempt : Attempt) (task : Task) :
    Decidable (receipt.ofOwner record binding owner attempt task) := by
  unfold WorkerTerminationReceipt.ofOwner
  infer_instance

/-- Retire an outstanding brief of the attempt, whatever happened to its submission. -/
def retireBrief (now : Int) (id : OperationId) : Body Unit := do
  let op ← readOperation id
  let delivery ← readDelivery op.id
  if delivery.state = .confirmed ∨ delivery.state = .permanentFailure then pure ()
  else do
    let _ ← updateOutcome env delivery
      (.permanentFailure ("worker termination observed; brief obligation retired without replay " ++
        "or a claim that uncertain submission was absent")) now "worker-termination"

/-- The briefs of an attempt, in the order of their identities. -/
def Store.briefs (s : Store) (attempt : AttemptId) : List OperationId :=
  ((s.operations.rows.filter fun o =>
      o.kind = .runtimeWorkerBrief && o.payload = .brief attempt).map
    (·.id)).insertionSort fun a b => a.val ≤ b.val

/-- `completion_requested`. -/
def Store.completionRequested (s : Store) (attempt : AttemptId) : Bool :=
  s.hasEvent attempt.val [.attemptCompletionRequested]

/-- The cause that the store's own records give. Cancellation overrides a completion request. -/
def terminationCause (cancelled completion : Bool) : WorkerTerminationCause :=
  if cancelled then .cancellation else if completion then .completion else .processExit

/-- A completed task must also clear its memory obligations. -/
def memoryCleared (task : TaskId) (completion : Bool) : Body Bool :=
  if completion then .check (env.memoryClear task) else pure false

/-- The writes of `record_worker_termination`. -/
def terminate (receipt : WorkerTerminationReceipt) (binding : RuntimeBinding) (attempt : Attempt)
    (task : Task) (cancelled completion : Bool) (now : Int) : Body Attempt := do
  let succeeded ← memoryCleared env task.id completion
  let briefs ← .ask (·.briefs attempt.id)
  Tx.forEach (retireBrief env now) briefs
  let after ← dispose env attempt
    (if cancelled then .cancelled else if completion then .completed else .failed) task
    (if cancelled then .cancelled else if succeeded then .succeeded else .blocked)
  logEvent binding.id binding.revision (.workerResourcesRetained receipt.retainedResources)
  logEvent attempt.id.val after.1.revision (.attemptChanged after.1)
  logEvent task.id.val after.2.revision (.taskChanged after.2)
  logEvent attempt.id.val after.1.revision (.workerTerminated receipt)
  .outside env.subsidiary
  .outside env.fault
  pure after.1

/-- The first termination receipt of a retained attempt. -/
def observeTermination (receipt : WorkerTerminationReceipt) (attempt : Attempt)
    (expectedRevision : Nat) (now : Int) : Body Attempt := do
  .require (attempt.revision = expectedRevision) .conflict
  let record ← readInput env receipt.launch
  .require (record.attempt = receipt.attempt) .conflict
  requireWorkspaceQuiescence record.operation receipt.supervisor receipt.hostReboot
  .outside (env.preservation record)
  let binding ← readBinding receipt.binding
  let owner ← .find (·.ownership.find binding.id) .conflict
  let task ← readTask attempt.task
  .require (receipt.ofOwner record binding owner attempt task) .conflict
  let start ← readEvent record.operation EventBody.started?
  let launch ← readDelivery record.operation
  .require (launch.state = .confirmed ∧ launch.lastOutcome = some (.confirmed start.toJson) ∧
    start.version = 2 ∧ start.supervisor = some receipt.supervisor ∧
    start.attempt = attempt.id ∧ start.observedUnixMs ≤ receipt.observedUnixMs) .conflict
  let cancelled ← .ask fun s => (s.cancellations.find attempt.id).isSome
  let requested ← .ask (·.completionRequested attempt.id)
  .require (receipt.cause = terminationCause cancelled requested) .conflict
  terminate env receipt binding attempt task cancelled (!cancelled && requested) now

/-- `record_worker_termination`. The same receipt again is a read. -/
def recordWorkerTermination (receipt : WorkerTerminationReceipt)
    (expectedRevision expectedHead : Nat) (now : Int) : Body Attempt := do
  nowCheck now
  .require receipt.supervisor.validate (invalid "invalid worker termination identity")
  .require (receipt.version = 1 ∧ 0 ≤ receipt.observedUnixMs ∧ receipt.observedUnixMs ≤ now ∧
    now - receipt.observedUnixMs ≤ 30000) (invalid "invalid worker termination observation")
  expectHead expectedHead
  let attempt ← readAttempt receipt.attempt
  if attempt.terminationObserved then do
    let exact ← .ask (·.events.any fun e =>
      e.entity = attempt.id.val && e.body = .workerTerminated receipt)
    .require (exact = true) .conflict
    pure attempt
  else observeTermination env receipt attempt expectedRevision now

/-! ## Termination of a staged launch -/

/-- Retire the launch of a staged worker, unless it has failed for good already. -/
def retireLaunch (delivery : Delivery) (now : Int) : Body Unit :=
  if delivery.state = .permanentFailure then pure ()
  else do
    let _ ← updateOutcome env delivery
      (.permanentFailure ("staged worker termination observed; selected resources retained, " ++
        "prior start outcome not asserted absent")) now "staged-worker-stop"

/-- `record_launch_stopped`. -/
def recordLaunchStopped (receipt : LaunchStoppedReceipt) (expectedRevision expectedHead : Nat)
    (now : Int) : Body Attempt := do
  nowCheck now
  .require (receipt.version = 1 ∧ receipt.target.version = 2 ∧
    receipt.target.observedUnixMs ≤ receipt.observedUnixMs ∧ receipt.observedUnixMs ≤ now ∧
    now - receipt.observedUnixMs ≤ 30000) (invalid "invalid staged stop receipt")
  let supervisor ← .find (fun _ => receipt.target.supervisor) .conflict
  .require supervisor.validate (invalid "invalid staged supervisor identity")
  expectHead expectedHead
  let attempt ← readAttempt receipt.target.attempt
  .require (attempt.revision = expectedRevision ∧ attempt.terminationObserved = false ∧
    attempt.state = .reserved) .conflict
  let record ← readInput env receipt.target.operation
  .require (record.attempt = attempt.id) .conflict
  requireWorkspaceQuiescence record.operation supervisor receipt.hostReboot
  .outside (env.preservation record)
  let binding ← readBinding record.inputs.binding
  .require (binding.revision = record.inputs.bindingRevision ∧
    Digests.identity binding.identity = record.inputs.bindingDigest ∧
    attempt.retainsCapacity) .conflict
  let target ← readEvent record.operation EventBody.target?
  .require (target = receipt.target) .conflict
  let started ← .ask (·.hasEvent record.operation.val [.launchStarted])
  let owned ← .ask (·.ownership.find record.inputs.binding)
  .require (started = false ∧ owned = none) .conflict
  let task ← readTask attempt.task
  .require (task.activeAttempt = some attempt.id) .conflict
  let delivery ← readDelivery record.operation
  .require (delivery.attempts = 1 ∧ delivery.state ≠ .confirmed) .conflict
  let cancelled ← .ask fun s => (s.cancellations.find attempt.id).isSome
  retireLaunch env delivery now
  let after ← dispose env attempt (if cancelled then .cancelled else .failed) task
    (if cancelled then .cancelled else .blocked)
  logEvent record.operation.val after.1.revision (.launchResourcesRetained receipt.target)
  logEvent attempt.id.val after.1.revision (.attemptChanged after.1)
  logEvent task.id.val after.2.revision (.taskChanged after.2)
  logEvent record.operation.val after.1.revision (.launchStopped receipt)
  .outside env.subsidiary
  .outside env.fault
  pure after.1

/-! ## Completion requests -/

/-- The latest completion request among the attempts of a task. -/
def Store.requestedCompletion (s : Store) (task : TaskId) : Option Attempt :=
  s.events.reverse.findSome? fun e =>
    if e.kind = .attemptCompletionRequested then
      (s.attempts.find ⟨e.entity⟩).filter fun a => a.task = task
    else none

/-- A new completion request for the active attempt of the task. -/
def requestActiveCompletion (task : Task) (now : Int) : Body CompletionChange := do
  let active ← .find (fun _ => task.activeAttempt) (invalid "task has no active attempt to complete")
  let attempt ← readAttempt active
  .require attempt.retainsCapacity (invalid "attempt already has termination evidence")
  let cancelled ← .ask fun s => (s.cancellations.find active).isSome
  .require (cancelled = false) (invalid "attempt has a cancellation request")
  let started ← .ask fun s => s.inputs.rows.any fun r =>
    r.attempt = active && s.hasEvent r.operation.val [.launchStarted]
  .require (started = true) (invalid "worker has not started; cancel the attempt instead")
  let submission ← .check (env.acceptedSubmission task.id active)
  let _ ← next attempt.revision .conflict
  let attempt := { attempt with revision := attempt.revision + 1 }
  updateAttempt attempt
  logEvent active.val attempt.revision
    (.attemptCompletionRequested task.id active submission now)
  .outside env.fault
  let head ← head
  pure ⟨head, task.id, active, attempt.revision, false, false⟩

/-- `request_completion`. A repeat returns the recorded request. -/
def requestCompletion (id : TaskId) (expectedRevision : Nat) (now : Int) :
    Body CompletionChange := do
  nowCheck now
  let task ← readTask id
  let requested ← .ask (·.requestedCompletion id)
  match requested.filter fun a => task.activeAttempt.all fun active => active = a.id with
  | some attempt =>
    let head ← head
    pure ⟨head, task.id, attempt.id, attempt.revision, true, attempt.terminationObserved⟩
  | none =>
    .require (task.revision = expectedRevision) .conflict
    requestActiveCompletion env task now

end Herdr
