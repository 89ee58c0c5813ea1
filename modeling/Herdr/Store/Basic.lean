import Herdr.Domain.Launch
import Herdr.Lib.Table
import Herdr.Lib.Transaction

/-!
# The project store

The tables that the launch lifecycle reads and writes, as one record: each table is keyed by its
primary key, the event log is the list of its rows in sequence order, and a store method is a
transaction body over the record. Schema checks are not modelled: the store is at the current
schema version.
-/

namespace Herdr

/-! ## Events -/

/-- The `kind` column of `events`. -/
inductive EventKind where
  | operationClaimed | operationOutcome | operationEnqueued
  | approvalConsumed
  | launchCreation | launchWorkspace | launchLayout | launchTarget | launchRelease | launchName
  | launchStarted | launchStopped | launchResourcesRetained
  | worktreesCreation | worktreesReady
  | runtimeAdopted | runtimeLaunched | workerTerminated | workerResourcesRetained
  | artifactsFinalized
  | attemptReserved | attemptChanged | attemptCancellationRequested | attemptCompletionRequested
  | taskChanged | schedulerTaskQueued | schedulerPolicyChanged
  | contractInstalled
  | jobRetired (lane : ResultLane) | jobReset (lane : ResultLane) | resultAutomationChanged
deriving DecidableEq, Repr

/-- What an event records. The store keeps the payload as JSON text; the writers encode one
record type for each kind, so a typed payload holds the same information. -/
inductive EventBody where
  | operationClaimed (owner : String) (epoch : Nat) (leaseUntilMs : Int)
  | operationOutcome (actor : String) (outcome : Outcome) (epoch : Nat)
  | operationEnqueued (record : AttemptInputRecord)
  | approvalConsumed (operation : OperationId) (claimRevision claimEpoch : Nat)
      (consumedUnixMs : Int)
  | launchCreation (intent : LaunchCreationIntent)
  | launchWorkspace (target : LaunchTarget)
  | launchLayout (target : LaunchTarget)
  | launchTarget (target : LaunchTarget)
  | launchRelease (intent : LaunchReleaseIntent)
  | launchName (intent : LaunchReleaseIntent)
  | launchStarted (receipt : LaunchStartedReceipt)
  | launchStopped (receipt : LaunchStoppedReceipt)
  | launchResourcesRetained (target : LaunchTarget)
  | worktreesCreation (json : String)
  | worktreesReady (json : String)
  | runtimeAdopted (owned : RuntimeOwnership)
  | runtimeLaunched (owned : RuntimeOwnership)
  | workerTerminated (receipt : WorkerTerminationReceipt)
  | workerResourcesRetained (identity : RuntimeIdentity)
  | artifactsFinalized (identity : String)
  | attemptReserved (record : AttemptInputRecord)
  | attemptChanged (attempt : Attempt)
  | attemptCancellationRequested (request : CancellationRequest) (released : Bool)
      (attempt : Attempt)
  | attemptCompletionRequested (task : TaskId) (attempt : AttemptId) (submission : String)
      (requestedUnixMs : Int)
  | taskChanged (task : Task)
  | schedulerTaskQueued (record : QueueRecord)
  | schedulerPolicyChanged (policy : SchedulerPolicy)
  | contractInstalled (digest route : String)
  | jobRetired (lane : ResultLane) (boundRevision taskRevision : Nat)
  | jobReset (lane : ResultLane) (attempts : Nat) (previous : Option Outcome)
  | resultAutomationChanged (verify integrate : Bool)
deriving DecidableEq, Repr

def EventBody.kind : EventBody → EventKind
  | .operationClaimed .. => .operationClaimed
  | .operationOutcome .. => .operationOutcome
  | .operationEnqueued .. => .operationEnqueued
  | .approvalConsumed .. => .approvalConsumed
  | .launchCreation .. => .launchCreation
  | .launchWorkspace .. => .launchWorkspace
  | .launchLayout .. => .launchLayout
  | .launchTarget .. => .launchTarget
  | .launchRelease .. => .launchRelease
  | .launchName .. => .launchName
  | .launchStarted .. => .launchStarted
  | .launchStopped .. => .launchStopped
  | .launchResourcesRetained .. => .launchResourcesRetained
  | .worktreesCreation .. => .worktreesCreation
  | .worktreesReady .. => .worktreesReady
  | .runtimeAdopted .. => .runtimeAdopted
  | .runtimeLaunched .. => .runtimeLaunched
  | .workerTerminated .. => .workerTerminated
  | .workerResourcesRetained .. => .workerResourcesRetained
  | .artifactsFinalized .. => .artifactsFinalized
  | .attemptReserved .. => .attemptReserved
  | .attemptChanged .. => .attemptChanged
  | .attemptCancellationRequested .. => .attemptCancellationRequested
  | .attemptCompletionRequested .. => .attemptCompletionRequested
  | .taskChanged .. => .taskChanged
  | .schedulerTaskQueued .. => .schedulerTaskQueued
  | .schedulerPolicyChanged .. => .schedulerPolicyChanged
  | .contractInstalled .. => .contractInstalled
  | .jobRetired lane .. => .jobRetired lane
  | .jobReset lane .. => .jobReset lane
  | .resultAutomationChanged .. => .resultAutomationChanged

structure Event where
  entity : String
  revision : Nat
  body : EventBody
deriving DecidableEq, Repr

def Event.kind (e : Event) : EventKind := e.body.kind

/-- The event is of one of these kinds and about this entity. -/
def Event.isAbout (e : Event) (entity : String) (kinds : List EventKind) : Bool :=
  e.entity = entity && kinds.contains e.kind

/-! ## Tables -/

structure Store where
  /-- The canonical path of the database file. -/
  path : String
  /-- `events` in sequence order. -/
  events : List Event
  tasks : Table Task Task.id
  attempts : Table Attempt Attempt.id
  operations : Table Operation Operation.id
  deliveries : Table Delivery Delivery.operation
  inputs : Table AttemptInputRecord AttemptInputRecord.operation
  cancellations : Table CancellationRequest CancellationRequest.attempt
  grants : Table GrantRow GrantRow.id
  revocations : Table ApprovalRevocation ApprovalRevocation.approval
  uses : Table ApprovalUse ApprovalUse.approval
  bindings : Table RuntimeBinding RuntimeBinding.id
  ownership : Table RuntimeOwnership RuntimeOwnership.binding
  queue : Table QueueRecord QueueRecord.task
  delegated : Table DelegatedReservation DelegatedReservation.key
  control : ProjectControl
  policy : SchedulerPolicy
deriving DecidableEq

/-- A new project store, as the migrations leave it. -/
def Store.created (path : String) : Store where
  path := path
  events := []
  tasks := .empty
  attempts := .empty
  operations := .empty
  deliveries := .empty
  inputs := .empty
  cancellations := .empty
  grants := .empty
  revocations := .empty
  uses := .empty
  bindings := .empty
  ownership := .empty
  queue := .empty
  delegated := .empty
  control := ⟨1, 1, .paused, true, none⟩
  policy := ⟨1, 0, 3⟩

/-- A store method's body. -/
abbrev Body (α : Type) := Tx Store StoreError α

/-- SHA-256 over the JSON text of a record, as lowercase hexadecimal. Nothing in this
development depends on which function it is. -/
class Digests where
  inputs : LaunchInputs → String
  identity : RuntimeIdentity → String
  grant : ApprovalGrant → String
  /-- The approved action: the launch inputs without their approval reference. -/
  action : LaunchInputs → String
  finalization : Finalization → Nat → String
  text : String → String

/-- What one call reads outside the modelled tables: files, other tables, read budgets and
faults. A verdict of `none` passes. Every result of this development holds for all answers. -/
structure Outside where
  /-- A busy or full database, an exhausted read budget or a missed deadline aborts the call. -/
  fault : Option StoreError := none
  /-- The answer of the `validate_claim` transaction that a boundary method runs first. Other
  callers may write between the two. -/
  validated : Option StoreError := none
  /-- `worker_knowledge::validate`. -/
  workerKnowledge : LaunchInputs → Option StoreError := fun _ => none
  /-- `budget::check`. -/
  budget : Option VersionedReference → Bool → Option StoreError := fun _ _ => none
  /-- `contract_binding::validate`. -/
  contractBinding : LaunchInputs → Option StoreError := fun _ => none
  /-- `config_reference` of the configuration file as it is now. -/
  configReference : String → Option ConfigReference
  /-- `delegated_reservation::validate_derived`. -/
  derived : LaunchInputs → Option StoreError := fun _ => none
  /-- The incarnation, scope and limits that `delegated_reservation` checks. -/
  delegation : PreparedDelegatedReservation → Option StoreError := fun _ => none
  /-- `profile.validate_for_launch` and the comparison with its own reference. -/
  profile : LaunchInputs → Option StoreError := fun _ => none
  /-- `worker_brief::check`. -/
  workerBrief : OperationId → Option StoreError := fun _ => none
  /-- `routines::check`. -/
  routines : OperationId → Option StoreError := fun _ => none
  /-- `worker_brief::has_receipt`, `verification_jobs::has_run` and
  `integration_jobs::has_integration`. -/
  receipts : OperationKind → OperationId → String → Bool := fun _ _ _ => false
  /-- `FinalizationReceipt::validate` of the decoded receipt. -/
  finalizationReceipt : OperationId → String → Option StoreError := fun _ _ => none
  /-- `worktrees::validate` of a worktree creation intent. -/
  worktrees : String → Option StoreError := fun _ => none
  /-- `worktrees::execution_route`. -/
  executionRoute : AttemptInputRecord → RuntimeBinding →
    Except StoreError (RuntimeRoute × Option WorktreeReceipt)
  /-- `worker_output_path`. -/
  workerOutputPath : AttemptInputRecord → Except StoreError String
  /-- `validate_preservation` and `validate_outputs` of a stop receipt. -/
  preservation : AttemptInputRecord → Option StoreError := fun _ => none
  /-- The admission checks that read other tables: dependency evidence, the review launch and
  the write-scope overlap with retained attempts. -/
  admission : LaunchInputs → Option StoreError := fun _ => none
  overlap : TaskId → Option StoreError := fun _ => none
  /-- Subsidiary writers of other tables: dispatch log, candidate groups, review launch,
  collector binding and consumer bindings. -/
  subsidiary : Option StoreError := none
  /-- `memory_barrier::report(..).blockers.is_empty()`. -/
  memoryClear : TaskId → Except StoreError Bool := fun _ => .ok true
  /-- The accepted submission that a completion request names. -/
  acceptedSubmission : TaskId → AttemptId → Except StoreError String
  /-- `replay_cases::refuse_replay_predecessor`. -/
  replayPredecessor : TaskId → Option StoreError := fun _ => none

namespace Store

/-- `head`: the largest sequence number. -/
def head (s : Store) : Nat := s.events.length

/-- `SELECT EXISTS(SELECT 1 FROM events WHERE entity=? AND kind IN (..))`. -/
def hasEvent (s : Store) (entity : String) (kinds : List EventKind) : Bool :=
  s.events.any (·.isAbout entity kinds)

/-- `SELECT payload FROM events WHERE kind=? AND entity=?`, for the kind that `select` keeps. -/
def event? {α : Type} (s : Store) (entity : String) (select : EventBody → Option α) : Option α :=
  s.events.findSome? fun e => if e.entity = entity then select e.body else none

/-- An attempt that has not been observed to end. -/
def retained (s : Store) : List Attempt := s.attempts.rows.filter Attempt.retainsCapacity

end Store

def EventBody.creation? : EventBody → Option LaunchCreationIntent
  | .launchCreation intent => some intent
  | _ => none

def EventBody.workspace? : EventBody → Option LaunchTarget
  | .launchWorkspace target => some target
  | _ => none

def EventBody.layout? : EventBody → Option LaunchTarget
  | .launchLayout target => some target
  | _ => none

def EventBody.target? : EventBody → Option LaunchTarget
  | .launchTarget target => some target
  | _ => none

def EventBody.release? : EventBody → Option LaunchReleaseIntent
  | .launchRelease intent => some intent
  | _ => none

def EventBody.started? : EventBody → Option LaunchStartedReceipt
  | .launchStarted receipt => some receipt
  | _ => none

/-! ## Reads and single writes -/

def invalid (message : String) : StoreError := .invalid message

/-- `now_check`. -/
def nowCheck (now : Int) : Body Unit :=
  .require (0 ≤ now ∧ now ≤ i64Max - 600000) (invalid "clock outside supported range")

/-- `integer`. -/
def integer (value : Nat) : Body Unit :=
  .require (value ≤ i64Max) (invalid "integer exceeds SQLite range")

/-- `INSERT INTO events`. -/
def logEvent (entity : String) (revision : Nat) (body : EventBody) : Body Unit := do
  integer revision
  .write fun s => { s with events := s.events ++ [⟨entity, revision, body⟩] }

def head : Body Nat := .ask Store.head

def expectHead (expected : Nat) : Body Unit := do
  let actual ← head
  .require (actual = expected) .conflict

def readDelivery (id : OperationId) : Body Delivery := .find (·.deliveries.find id) .noRows

def readOperation (id : OperationId) : Body Operation := .find (·.operations.find id) .conflict

def readTask (id : TaskId) : Body Task := .find (·.tasks.find id) .conflict

def readAttempt (id : AttemptId) : Body Attempt := .find (·.attempts.find id) .conflict

/-- `runtime::read_binding(..)?.ok_or(Conflict)`. -/
def readBinding (id : String) : Body RuntimeBinding := .find (·.bindings.find id) .conflict

/-- The columns of an operation's row, selected one at a time by the source. -/
def operationRow (id : OperationId) : Body Operation := .find (·.operations.find id) .noRows

/-- `read_budget::one` over the event log. -/
def readEvent {α : Type} (id : OperationId) (select : EventBody → Option α) : Body α :=
  .find (·.event? id.val select) .noRows

def updateTask (task : Task) : Body Unit := do
  integer task.revision
  .write fun s => { s with tasks := s.tasks.update task }

def updateAttempt (attempt : Attempt) : Body Unit := do
  integer attempt.revision
  .write fun s => { s with attempts := s.attempts.update attempt }

def updateDelivery (delivery : Delivery) : Body Unit := do
  integer delivery.revision
  .write fun s => { s with deliveries := s.deliveries.update delivery }

/-- `scheduler::read_policy`. -/
def readPolicy : Body SchedulerPolicy := do
  let policy ← .ask Store.policy
  .require (policy.revision ≠ 0 ∧ policy.maxActiveWorkers ≤ 1024 ∧
    1 ≤ policy.maxAttemptsPerTask ∧ policy.maxAttemptsPerTask ≤ 32)
    (.corrupt "invalid scheduler policy")
  pure policy

/-- `u64::checked_add(1)`. -/
def next (n : Nat) (e : StoreError) : Body Nat := do
  .require (n + 1 < 2 ^ 64) e
  pure (n + 1)

end Herdr
