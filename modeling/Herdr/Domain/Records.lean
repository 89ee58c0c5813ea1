import Herdr.Domain.Text

/-!
# Persisted records

The records of the project store (`src/domain/mod.rs`, `src/operations/mod.rs`,
`src/domain/attempt_inputs.rs`, `src/domain/approval.rs`, `src/domain/scheduler.rs`,
`src/domain/control.rs`) with the fields that a modelled function reads or writes. Revisions and
epochs are natural numbers whose 64-bit bound is checked where the source checks it; clocks are
integers.
-/

namespace Herdr

structure TaskId where
  val : String
deriving DecidableEq, Repr

structure AttemptId where
  val : String
deriving DecidableEq, Repr

structure OperationId where
  val : String
deriving DecidableEq, Repr

/-- `i64::MAX`, the largest integer that SQLite stores. -/
def i64Max : Nat := 2 ^ 63 - 1

/-- `StoreError`. -/
inductive StoreError where
  | cancelled
  | deadline
  | limit (message : String)
  | conflict
  | stalePlanParent (revision : Nat)
  | busy
  | diskFull
  | unsupportedSchema (version : Nat)
  | historyUnavailable (head : Nat)
  | invalid (message : String)
  | corrupt (message : String)
  | io (message : String)
deriving DecidableEq, Repr

/-- `StoreError::from(rusqlite::Error::QueryReturnedNoRows)`. -/
def StoreError.noRows : StoreError := .io "Query returned no rows"

inductive TaskState where
  | draft | queued | ready | running | awaitingReview | blocked | succeeded | failed | cancelled
deriving DecidableEq, Repr

inductive AttemptState where
  | reserved | launching | running | awaitingInput | completed | failed | cancelled | lost
deriving DecidableEq, Repr

structure Task where
  id : TaskId
  revision : Nat
  state : TaskState
  title : String
  activeAttempt : Option AttemptId
deriving DecidableEq, Repr

structure Attempt where
  id : AttemptId
  task : TaskId
  revision : Nat
  state : AttemptState
  snapshot : Option String
  reservation : String
  terminationObserved : Bool
deriving DecidableEq, Repr

def Attempt.retainsCapacity (attempt : Attempt) : Bool := !attempt.terminationObserved

/-! ## Sealed launch inputs -/

structure VersionedReference where
  id : String
  revision : Nat
  digest : String
deriving DecidableEq, Repr

structure RepositoryInput where
  repository : String
  commit : String
  tree : String
deriving DecidableEq, Repr

inductive DependencyRequirement where
  | verifiedResult | integratedCommit | integrationCandidate | landedCommit
deriving DecidableEq, Repr

structure Dependency where
  predecessor : TaskId
  requirement : DependencyRequirement
deriving DecidableEq, Repr

structure DependencyInput where
  task : TaskId
  taskRevision : Nat
  requirement : DependencyRequirement
  evidence : VersionedReference
deriving DecidableEq, Repr

structure ConfigReference where
  path : String
  digest : Option String
deriving DecidableEq, Repr

/-- The part of a frozen profile that admission and launch compare. -/
structure FrozenProfile where
  kind : String
  permissionPolicy : VersionedReference
deriving DecidableEq, Repr

structure LaunchInputs where
  version : Nat
  projectStore : String
  task : TaskId
  /-- Task revision before reservation; the launch binds the next revision. -/
  taskRevision : Nat
  taskContract : Option VersionedReference
  schedulerRevision : Nat
  controlEpoch : Nat
  binding : String
  bindingRevision : Nat
  bindingDigest : String
  profile : VersionedReference
  effectiveProfile : Option FrozenProfile
  approval : VersionedReference
  config : ConfigReference
  repositories : List RepositoryInput
  dependencies : List DependencyInput
  memory : Option VersionedReference
  budget : Option VersionedReference
deriving DecidableEq, Repr

structure AttemptInputRecord where
  attempt : AttemptId
  operation : OperationId
  inputs : LaunchInputs
deriving DecidableEq, Repr

/-! ## Operations and their delivery -/

/-- The kinds of operation that delivery treats specially; every other kind is `other`. -/
inductive OperationKind where
  | runtimeLaunch | runtimeWorkerBrief | runtimeFinalization | routineRun
  | verificationRun | integrationRun
  | other (kind : String)
deriving DecidableEq, Repr

structure Finalization where
  authority : String
  binding : String
  bindingRevision : Nat
  controlEpoch : Nat
  config : ConfigReference
  source : String
  reportHash : String
  reason : String
deriving DecidableEq, Repr

/-- The lane of an automatic result job. -/
inductive ResultLane where
  | verification | integration
deriving DecidableEq, Repr

/-- The payload of an `integration.run` operation. -/
structure IntegrationJob where
  projectStore : String
  submissionId : String
  taskId : TaskId
  resultId : String
  repository : String
  ref : String
deriving DecidableEq, Repr

/-- The payload of a `verification.run` operation. -/
structure VerificationJob where
  projectStore : String
  submissionId : String
  taskId : TaskId
  contractRevision : Nat
  policyId : String
  policyDigest : String
deriving DecidableEq, Repr

/-- An operation's payload, as far as a modelled function reads it. -/
inductive OperationPayload where
  | launch (record : AttemptInputRecord)
  | brief (attempt : AttemptId)
  | finalization (payload : Finalization)
  | integration (job : IntegrationJob)
  | verification (job : VerificationJob)
  | other (json : String)
deriving DecidableEq, Repr

structure Operation where
  id : OperationId
  /-- `none` is project scope, fenced by the project-control revision. -/
  task : Option TaskId
  kind : OperationKind
  target : String
  payloadVersion : Nat
  payload : OperationPayload
  expectedRevision : Nat
  dueUnixMs : Int
  idempotencyKey : String
deriving DecidableEq, Repr

inductive DeliveryState where
  | pending | claimed | ambiguous | confirmed | permanentFailure
deriving DecidableEq, Repr

inductive Outcome where
  | confirmed (observedIdentity : String)
  | retryable (noEffectEvidence : String)
  | ambiguous (observationRequired : String)
  | permanentFailure (diagnostic : String)
deriving DecidableEq, Repr

def Outcome.evidence : Outcome → String
  | .confirmed s | .retryable s | .ambiguous s | .permanentFailure s => s

structure Delivery where
  operation : OperationId
  revision : Nat
  state : DeliveryState
  epoch : Nat
  attempts : Nat
  owner : Option String
  leaseUntilMs : Option Int
  nextDueMs : Int
  lastOutcome : Option Outcome
deriving DecidableEq, Repr

/-- The row that the insert trigger of `operations` writes. -/
def Delivery.enqueued (operation : OperationId) (due : Int) : Delivery where
  operation := operation
  revision := 1
  state := .pending
  epoch := 0
  attempts := 0
  owner := none
  leaseUntilMs := none
  nextDueMs := due
  lastOutcome := none

structure Claim where
  operation : OperationId
  revision : Nat
  owner : String
  epoch : Nat
  leaseUntilMs : Int
deriving DecidableEq, Repr

/-! ## Approvals -/

structure ApprovalScope where
  version : Nat
  projectStore : String
  task : TaskId
  /-- Revision the operation expects after the reservation transaction. -/
  taskRevision : Nat
  target : String
  actionDigest : String
deriving DecidableEq, Repr

structure ApprovalGrant where
  version : Nat
  scope : ApprovalScope
  policy : VersionedReference
  issuedUnixMs : Int
  expiresUnixMs : Int
deriving DecidableEq, Repr

/-- A row of `approval_grants`. -/
structure GrantRow where
  id : String
  grant : ApprovalGrant
deriving DecidableEq, Repr

structure ApprovalRevocation where
  approval : String
  revokedUnixMs : Int
  reason : String
deriving DecidableEq, Repr

/-- A row of `approval_uses`. -/
structure ApprovalUse where
  approval : String
  operation : OperationId
  claimRevision : Nat
  claimEpoch : Nat
  consumedUnixMs : Int
deriving DecidableEq, Repr

structure CancellationRequest where
  attempt : AttemptId
  requestedUnixMs : Int
  reason : String
deriving DecidableEq, Repr

/-- What a reservation answers. -/
structure Reservation where
  head : Nat
  record : AttemptInputRecord
  taskRevision : Nat
deriving DecidableEq, Repr

structure CancellationChange where
  head : Nat
  attempt : AttemptId
  released : Bool
  attemptRevision : Nat
  taskRevision : Nat
deriving DecidableEq, Repr

structure CompletionChange where
  head : Nat
  task : TaskId
  attempt : AttemptId
  attemptRevision : Nat
  replayed : Bool
  terminated : Bool
deriving DecidableEq, Repr

/-- A verified delegated request: the grant it draws on, its idempotency key, the digest of its
bytes and the launch approval derived from the grant. -/
structure PreparedDelegatedReservation where
  grantId : String
  idempotencyKey : String
  digest : String
  approval : ApprovalGrant
deriving DecidableEq, Repr

/-- A row of `delegated_reservations`. -/
structure DelegatedReservation where
  grantId : String
  idempotencyKey : String
  requestDigest : String
  approval : String
  attempt : AttemptId
  response : Reservation
deriving DecidableEq, Repr

def DelegatedReservation.key (row : DelegatedReservation) : String × String :=
  (row.grantId, row.idempotencyKey)

/-! ## Project control, scheduler policy and queue -/

inductive ProjectState where
  | paused | active | archived
deriving DecidableEq, Repr

structure ProjectControl where
  revision : Nat
  epoch : Nat
  state : ProjectState
  reconciliationRequired : Bool
  configDigest : Option String
deriving DecidableEq, Repr

structure SchedulerPolicy where
  revision : Nat
  maxActiveWorkers : Nat
  maxAttemptsPerTask : Nat
deriving DecidableEq, Repr

structure QueueRequest where
  priority : Int
  dependencies : List Dependency
deriving DecidableEq, Repr

structure QueueRecord where
  task : TaskId
  priority : Int
  enqueuedUnixMs : Int
  enqueueSequence : Nat
  dependencies : List Dependency
deriving DecidableEq, Repr

end Herdr
